import CatalogQuery.Proofs.Compile.RequiredTables

/-!
# The parts of compiled clauses

What the clauses of a draft are put together from. Conditions are placed in their order, each on a
registered column of its table or of an instance of a registered layout; the joins are predicates of
registered links and those of such instances.

* `Draft.map_placed`: the conditions of a draft, without their places;
* `Draft.columnText_cases`: on which text a condition is rendered;
* `Draft.instances_induction`: what adding instances of registered layouts keeps.
-/

namespace CatalogQuery

open Sql

variable {s : Schema} {caller : Caller} {r : Request} {d : Draft}

/-! ## Placed conditions -/

theorem map_placeAll (conventions : Conventions) (all before : List Role)
    (conditions : List (Condition × ColumnInfo)) :
    (placeAll conventions all before conditions).map (fun p => (p.condition, p.info))
      = conditions := by
  induction conditions generalizing before with
  | nil => rfl
  | cons c conditions ih => rw [placeAll, List.map_cons, ih]

theorem Role.place_cases {c : Conventions} {column : ColumnId} (before all : List Role) :
    (c.role column).place before all = .own ∨
      ∃ layout ∈ c.attributeJoins, ∃ index, (c.role column).place before all = .inst layout index := by
  have hindex : ∀ (i : Nat) (layout : AttributeJoin) (index : Nat), c.attributeJoins[i]? = some layout →
      Place.ofIndex layout index = .own ∨
        ∃ l ∈ c.attributeJoins, ∃ k, Place.ofIndex layout index = .inst l k := by
    intro i layout index hlayout
    unfold Place.ofIndex
    split
    · exact .inl rfl
    · exact .inr ⟨layout, List.mem_of_getElem? hlayout, index, rfl⟩
  cases hrole : c.role column with
  | plain => exact .inl rfl
  | name i layout => exact hindex i layout _ (Conventions.role_name hrole).1
  | value i layout => exact hindex i layout _ (Conventions.role_value hrole).1

namespace Draft

/-- Conditions are placed in their order. -/
theorem map_placed : (d.placed s).map (fun p => (p.condition, p.info)) = d.conditions :=
  map_placeAll _ _ _ _

theorem mem_conditions_of_placed {p : Placed} (hp : p ∈ d.placed s) :
    (p.condition, p.info) ∈ d.conditions := by
  rw [← d.map_placed (s := s)]
  exact List.mem_map_of_mem hp

theorem place_cases {p : Placed} (hp : p ∈ d.placed s) :
    p.place = .own ∨
      ∃ layout ∈ s.conventions.attributeJoins, ∃ index, p.place = .inst layout index := by
  obtain ⟨pre, c, post, -, rfl⟩ := mem_placeAll.mp hp
  exact Role.place_cases _ _

/-- A placed condition is about a registered column. -/
theorem columnInfo_of_placed (hd : s.draft caller r = .ok d) {p : Placed} (hp : p ∈ d.placed s) :
    ∃ column, s.columnInfo? column = some p.info := by
  obtain ⟨asked, -, hopen, -⟩ :=
    exists_of_forall₂ (conditions_of_draft hd) (mem_conditions_of_placed hp)
  exact ⟨asked.column, Schema.openColumn_eq_ok hopen⟩

/-- A condition is rendered on its column in its table or in an instance of a layout. -/
theorem columnText_cases {p : Placed} (hp : p ∈ d.placed s) :
    p.columnText = p.info.qualified ∨
      ∃ layout ∈ s.conventions.attributeJoins, ∃ index,
        p.columnText = layout.metaInstance index ++ "." ++ p.info.name := by
  rcases place_cases hp with hplace | ⟨layout, hlayout, index, hplace⟩
  · exact .inl (by rw [Placed.columnText, hplace])
  · exact .inr ⟨layout, hlayout, index, by rw [Placed.columnText, hplace]⟩

/-- Each condition was read from the request. -/
theorem parsed_of_placed (hd : s.draft caller r = .ok d) {p : Placed} (hp : p ∈ d.placed s) :
    ∃ expression, Condition.parse expression = .ok p.condition := by
  obtain ⟨asked, -, -, hparse⟩ :=
    exists_of_forall₂ (conditions_of_draft hd) (mem_conditions_of_placed hp)
  exact ⟨asked.expression, hparse⟩

/-! ## Instances and joins -/

/-- Whatever holds of no instances and is kept by adding one of a registered layout holds of the
instances of a draft. -/
theorem instances_induction {P : Instances → Prop} (hnone : P {})
    (hadd : ∀ n, ∀ layout ∈ s.conventions.attributeJoins, ∀ index, P n → P (n.add layout index)) :
    P (instancesOf (d.placed s)) := by
  have hplaced : ∀ p ∈ (d.placed s).filter fun p => !p.role.isValue, p ∈ d.placed s :=
    fun p hp => List.mem_of_mem_filter hp
  unfold instancesOf
  generalize (d.placed s).filter (fun p => !p.role.isValue) = ps at hplaced
  induction ps using List.reverseRecOn with
  | nil => exact hnone
  | append_singleton ps p ih =>
    rw [List.foldl_append, List.foldl_cons, List.foldl_nil]
    have hps := ih fun q hq => hplaced q (List.mem_append_left _ hq)
    rcases place_cases (hplaced p (by simp)) with hplace | ⟨layout, hlayout, index, hplace⟩
    · simpa only [hplace] using hps
    · simpa only [hplace] using hadd _ layout hlayout index hps

end Draft

theorem Sql.Sources.mem_entries_add {f : Sources} {entry e : String}
    (he : e ∈ (f.add entry).entries) : e ∈ f.entries ∨ e = entry := by
  simpa using sublist_add.subset he

/-- The joins of an instance: of its map and attribute rows, and of its objects and map. -/
def AttributeJoin.joins (j : AttributeJoin) (index : Nat) : List Term :=
  [.join (j.mapInstance index ++ "." ++ j.metaKey ++ " = " ++ j.metaInstance index ++ "."
      ++ j.metaKey),
    .join (j.objectTable ++ "." ++ j.objectIdColumn ++ " = " ++ j.mapInstance index ++ "."
      ++ j.mapObjectColumn)]

/-- The sources of an instance. -/
def AttributeJoin.entries (j : AttributeJoin) (index : Nat) : List String :=
  [j.mapTable ++ " " ++ j.mapInstance index, j.metaTable ++ " " ++ j.metaInstance index]

theorem Draft.mem_instance_joins :
    ∀ t ∈ (instancesOf (d.placed s)).joins, ∃ j ∈ s.conventions.attributeJoins, ∃ index,
      t ∈ j.joins index := by
  refine instances_induction (P := fun n => ∀ t ∈ n.joins,
    ∃ j ∈ s.conventions.attributeJoins, ∃ index, t ∈ j.joins index) (by simp) ?_
  intro n j hj index ih t ht
  unfold Instances.add at ht
  dsimp only at ht
  split at ht
  · exact ih t ht
  · rcases List.mem_append.mp ht with ht | ht
    · exact ih t ht
    · exact ⟨j, hj, index, ht⟩

theorem Draft.mem_instance_sources :
    ∀ e ∈ (instancesOf (d.placed s)).sources.entries, ∃ j ∈ s.conventions.attributeJoins,
      ∃ index, e ∈ j.entries index := by
  refine instances_induction (P := fun n => ∀ e ∈ n.sources.entries,
    ∃ j ∈ s.conventions.attributeJoins, ∃ index, e ∈ j.entries index) (by simp) ?_
  intro n j hj index ih e he
  unfold Instances.add at he
  dsimp only at he
  split at he
  · exact ih e he
  · rcases Sources.mem_entries_add he with he | rfl
    · rcases Sources.mem_entries_add he with he | rfl
      · exact ih e he
      · exact ⟨j, hj, index, by simp [AttributeJoin.entries]⟩
    · exact ⟨j, hj, index, by simp [AttributeJoin.entries]⟩

/-- The links of a tree are joined by the predicates with which they were registered. -/
theorem Draft.mem_joinTerms {links : List LinkId} {t : Term} (ht : t ∈ joinTerms s links) :
    ∃ l ∈ s.links, t = .join l.predicate := by
  unfold joinTerms at ht
  obtain ⟨l, hl, rfl⟩ := List.mem_map.mp ht
  obtain ⟨id, -, hlink⟩ := List.mem_filterMap.mp hl
  exact ⟨l, List.mem_of_getElem? hlink, rfl⟩

/-- The sources are those of tables and of instances. -/
theorem Draft.mem_sources {required : List TableId} {links : List LinkId} {from_ : Sources}
    {e : String} (he : e ∈ (addSources s required links from_).entries) :
    e ∈ from_.entries ∨ ∃ t, e = s.source t := by
  rw [Schema.addSources_eq] at he
  rcases List.mem_append.mp (Sources.sublist_addAll.subset he) with he | he
  · exact .inl he
  · obtain ⟨t, -, rfl⟩ := List.mem_map.mp he
    exact .inr ⟨t, rfl⟩

/-! ## Groups and order -/

variable {selects : List (SelectColumn × ColumnInfo)} {o : OrderItem}

/-- The orders asked for, whether or not some are on one column. -/
def Draft.askedOrders (selects : List (SelectColumn × ColumnInfo)) : List OrderItem :=
  (selects.filter fun c => c.1.isPlain && c.1.order != .none).map
    fun c => ⟨c.2.qualified, c.1.order == .desc⟩

/-- The orders on the canonical columns that are selected plain. -/
def Draft.canonicalOrders (s : Schema) (selects : List (SelectColumn × ColumnInfo)) :
    List OrderItem :=
  (s.conventions.canonicalOrder.filter fun column =>
      selects.any fun c => c.1.isPlain && c.1.column == column).filterMap
    fun column => (s.columnInfo? column).map fun info => ⟨info.qualified, false⟩

/-- Of several orders on one column the first is kept. -/
theorem Draft.orderBy_eq (s : Schema) (selects : List (SelectColumn × ColumnInfo)) :
    orderBy s selects =
      firsts OrderItem.column (askedOrders selects ++ canonicalOrders s selects) := by
  unfold orderBy orderOf
  rw [List.map_filterMap]
  exact foldl_keepFirst OrderItem.column _

/-- Where aggregates stand beside plain columns, the names of these are kept once each. -/
theorem Draft.groupBy_eq (selects : List (SelectColumn × ColumnInfo)) :
    groupBy selects = if selects.any (fun c => !c.1.isPlain) then
      ((selects.filter fun c => c.1.isPlain).map fun c => c.2.qualified).eraseDups else [] := by
  rw [groupBy, foldl_keepNew]

/-- Groups are formed by selected columns. -/
theorem Draft.mem_groupBy {name : String} (h : name ∈ groupBy selects) :
    ∃ c ∈ selects, name = c.2.qualified := by
  rw [groupBy_eq] at h
  split at h
  · obtain ⟨c, hc, rfl⟩ := List.mem_map.mp (List.mem_eraseDups.mp h)
    exact ⟨c, List.mem_of_mem_filter hc, rfl⟩
  · cases h

/-- Rows are ordered by selected columns and by canonical ones. -/
theorem Draft.mem_orderBy (h : o ∈ orderBy s selects) :
    (∃ c ∈ selects, o.column = c.2.qualified) ∨
      ∃ column info, s.columnInfo? column = some info ∧ o.column = info.qualified := by
  rw [orderBy_eq] at h
  rcases List.mem_append.mp (mem_of_mem_firsts h) with h | h
  · obtain ⟨c, hc, rfl⟩ := List.mem_map.mp h
    exact .inl ⟨c, List.mem_of_mem_filter hc, rfl⟩
  · obtain ⟨column, -, ho⟩ := List.mem_filterMap.mp h
    obtain ⟨info, hinfo, rfl⟩ := Option.map_eq_some_iff.mp ho
    exact .inr ⟨column, info, hinfo, rfl⟩

end CatalogQuery
