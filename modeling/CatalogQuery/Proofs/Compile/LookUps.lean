import CatalogQuery.Compile.Statement
import CatalogQuery.Proofs.Schema.Conventions

/-!
# What a compilation looks up

Conventions name tables and columns, and a compilation looks them up where it needs them: the objects
of a layout for a condition in one of its instances, every protected table for a caller who is
filtered, the canonical columns that are selected. Each look-up may fail.

* `Schema.Places`: the conditions find the tables of their places when they are added;
* `Draft.Found`: all that is looked up when a draft is completed is registered;
* `Draft.lookUpRequirements_eq_ok`, `Schema.lookUpFilters_eq_ok`, `Draft.lookUpOrder_eq_ok`: when these
  look-ups succeed, and that they come then to what they are for;
* `Schema.Registered.places`, `Schema.Registered.found`: on a registered schema nothing is missing.
-/

namespace CatalogQuery

open Sql Fallible

variable {s : Schema} {d : Draft} {caller : Caller} {options : CompileOptions} {t : TableId}

/-! ## Look-ups in the schema -/

theorem Schema.toOption_tableId (s : Schema) (name : String) :
    (s.tableId name).toOption = s.tableId? name := by
  ext t
  rw [toOption_eq_some, tableId_eq_ok]

theorem Schema.toOption_columnInfo (s : Schema) (column : ColumnId) :
    (s.columnInfo column).toOption = s.columnInfo? column := by
  ext info
  rw [toOption_eq_some, columnInfo_eq_ok]

/-! ## Places -/

namespace Placed

variable {p : Placed}

theorem requiredTable_eq_some : p.requiredTable s = some t ↔ s.placeTable p.info p.place = .ok t :=
  toOption_eq_some

theorem requiredTable_own (h : p.place = .own) : p.requiredTable s = some p.info.tableId := by
  rw [requiredTable, h]
  rfl

theorem requiredTable_inst {layout : AttributeJoin} {index : Nat} (h : p.place = .inst layout index) :
    p.requiredTable s = s.tableId? layout.objectTable := by
  rw [requiredTable, h, Schema.placeTable, s.toOption_tableId]

end Placed

/-- Each condition finds the table of its place behind those before it. -/
def Schema.Places (s : Schema) (conditions : List (Condition × ColumnInfo)) : Prop :=
  ∀ before c after, conditions = before ++ c :: after →
    s.lookUpPlace (before.map fun x => s.conventions.role x.2.id) c.2 = .ok ()

theorem Schema.lookUpPlace_eq_ok {before : List Role} {info : ColumnInfo} :
    s.lookUpPlace before info = .ok () ↔ ((s.conventions.role info.id).isValue = false →
      ∃ t, s.placeTable info ((s.conventions.role info.id).place before before) = .ok t) := by
  unfold lookUpPlace
  cases hvalue : (s.conventions.role info.id).isValue with
  | true => simp [hvalue]
  | false => simp [hvalue, discard_eq_ok]

/-! ## Completing a draft -/

/-- What is looked up to complete a draft: the tables of its conditions on values, those that are
protected where the caller is filtered, and the canonical columns that it selects. -/
structure Draft.Found (d : Draft) (s : Schema) (caller : Caller) (options : CompileOptions) :
    Prop where
  values : ∀ p ∈ d.placed s, p.role.isValue = true → ∃ t, s.placeTable p.info p.place = .ok t
  guarded : caller.isFiltered options.strict options.anonymousUser = true →
    ∀ p ∈ s.conventions.protectedTables, ∃ t, s.tableId p.table = .ok t
  canonical : ∀ column ∈ canonicalColumns s d.selects, ∃ info, s.columnInfo column = .ok info

theorem foldlM_require {ps : List Placed} {r q : Requirements} :
    ps.foldlM (fun r p => r.require <$> s.placeTable p.info p.place) r = .ok q ↔
      (∀ p ∈ ps, ∃ t, s.placeTable p.info p.place = .ok t) ∧
        q = ps.foldl (fun r p => (p.requiredTable s).elim r r.require) r := by
  induction ps generalizing r with
  | nil => simp [pure, Except.pure, eq_comm]
  | cons p ps ih =>
    rw [List.foldlM_cons, bind_eq_ok, List.forall_mem_cons, List.foldl_cons]
    constructor
    · rintro ⟨_, hr, h⟩
      obtain ⟨t, ht, rfl⟩ := map_eq_ok.mp hr
      obtain ⟨hfound, rfl⟩ := ih.mp h
      exact ⟨⟨⟨t, ht⟩, hfound⟩, by rw [Placed.requiredTable_eq_some.mpr ht]; rfl⟩
    · rintro ⟨⟨⟨t, ht⟩, hfound⟩, rfl⟩
      refine ⟨_, map_eq_ok.mpr ⟨t, ht, rfl⟩, ih.mpr ⟨hfound, ?_⟩⟩
      rw [Placed.requiredTable_eq_some.mpr ht]
      rfl

theorem Draft.lookUpRequirements_eq_ok {q : Requirements} : d.lookUpRequirements s = .ok q ↔
    (∀ p ∈ d.placed s, p.role.isValue = true → ∃ t, s.placeTable p.info p.place = .ok t) ∧
      q = d.requirements s := by
  unfold lookUpRequirements
  rw [foldlM_require]
  simp only [List.mem_filter, and_imp]
  rfl

/-- Of the protected tables that are found, those count that are selected from. -/
theorem Schema.map_filter_found (s : Schema) (selected : List TableId)
    (f : ProtectedTable → Fragment) (ps : List ProtectedTable) :
    ((ps.filterMap fun p => (s.tableId? p.table).map (p, ·)).filter
        fun x => selected.contains x.2).map (fun x => f x.1)
      = (ps.filter fun p => (s.tableId? p.table).any selected.contains).map f := by
  induction ps with
  | nil => rfl
  | cons p ps ih =>
    rw [List.filterMap_cons, List.filter_cons]
    cases s.tableId? p.table with
    | none => exact ih
    | some t =>
      rw [Option.map_some, Option.any_some, List.filter_cons]
      split
      · rw [List.map_cons, List.map_cons, ih]
      · exact ih

theorem Schema.lookUpFilters_eq_ok {selected : List TableId} {strict : Bool}
    {anonymousUser : String} {filters : List Fragment} :
    s.lookUpFilters selected caller strict anonymousUser = .ok filters ↔
      (caller.isFiltered strict anonymousUser = true →
        ∀ p ∈ s.conventions.protectedTables, ∃ t, s.tableId p.table = .ok t) ∧
      filters = s.rowFilters selected caller strict anonymousUser := by
  unfold lookUpFilters rowFilters
  cases caller.isFiltered strict anonymousUser with
  | false => simp [pure, Except.pure, eq_comm]
  | true =>
    have hfound : ∀ p : ProtectedTable, ((p, ·) <$> s.tableId p.table :
        Except QueryError (ProtectedTable × TableId)).toOption = (s.tableId? p.table).map (p, ·) := by
      intro p
      rw [← s.toOption_tableId]
      cases s.tableId p.table <;> rfl
    have hsame := s.map_filter_found selected fun p => p.filter s.conventions.grantChain caller
    simp only [if_true, bind_eq_ok, mapM_eq_ok_iff_filterMap, hfound, map_eq_ok]
    constructor
    · rintro ⟨_, ⟨hall, rfl⟩, h⟩
      cases h
      refine ⟨fun _ p hp => ?_, hsame _⟩
      obtain ⟨_, t, ht, -⟩ := hall p hp
      exact ⟨t, ht⟩
    · rintro ⟨hall, rfl⟩
      refine ⟨_, ⟨fun p hp => ?_, rfl⟩, congrArg Except.ok (hsame _)⟩
      obtain ⟨t, ht⟩ := hall trivial p hp
      exact ⟨_, t, ht, rfl⟩

theorem Draft.lookUpOrder_eq_ok {selects : List (SelectColumn × ColumnInfo)}
    {orders : List OrderItem} : lookUpOrder s selects = .ok orders ↔
      (∀ column ∈ canonicalColumns s selects, ∃ info, s.columnInfo column = .ok info) ∧
        orders = orderBy s selects := by
  unfold lookUpOrder orderBy
  rw [map_eq_ok]
  simp only [mapM_eq_ok_iff_filterMap, s.toOption_columnInfo]
  constructor
  · rintro ⟨_, ⟨hfound, rfl⟩, rfl⟩
    exact ⟨hfound, rfl⟩
  · rintro ⟨hfound, rfl⟩
    exact ⟨_, ⟨hfound, rfl⟩, rfl⟩

/-! ## Layouts -/

namespace Conventions

variable {c : Conventions} {column : ColumnId} {i : Nat} {layout : AttributeJoin}

theorem findLayout_eq_some {p : AttributeJoin → Bool} (h : c.findLayout p = some (i, layout)) :
    c.attributeJoins[i]? = some layout ∧ p layout = true := by
  obtain ⟨⟨j, k⟩, hfind, heq⟩ := Option.map_eq_some_iff.mp h
  cases heq
  have hmem := List.mem_of_find?_eq_some hfind
  rw [List.mem_zipIdx_iff_getElem?] at hmem
  exact ⟨hmem, by simpa using List.find?_some hfind⟩

theorem role_name (h : c.role column = .name i layout) :
    c.attributeJoins[i]? = some layout ∧ layout.nameColumn = column := by
  unfold role at h
  split at h
  · cases h
  · split at h
    · next heq =>
      cases h
      obtain ⟨hlayout, hcolumn⟩ := findLayout_eq_some heq
      exact ⟨hlayout, by simpa using hcolumn⟩
    · cases h

theorem role_value (h : c.role column = .value i layout) :
    c.attributeJoins[i]? = some layout ∧ layout.valueColumn = column := by
  unfold role at h
  split at h
  · next heq =>
    cases h
    obtain ⟨hlayout, hcolumn⟩ := findLayout_eq_some heq
    exact ⟨hlayout, by simpa using hcolumn⟩
  · split at h
    · cases h
    · cases h

end Conventions

/-! ## Registered schemas -/

/-- The objects of a layout are registered with the conventions, and so are the tables of all
places. -/
theorem Schema.Registered.placeTable (hs : s.Registered) (info : ColumnInfo) (column : ColumnId)
    (before all : List Role) :
    ∃ t, s.placeTable info ((s.conventions.role column).place before all) = .ok t := by
  have hindex : ∀ {i : Nat} {layout : AttributeJoin} (index : Nat),
      s.conventions.attributeJoins[i]? = some layout →
      ∃ t, s.placeTable info (.ofIndex layout index) = .ok t := by
    intro i layout index hlayout
    unfold Place.ofIndex
    split
    · exact ⟨_, rfl⟩
    · obtain ⟨t, ht⟩ := (hs.holdsConventions.layouts layout (List.mem_of_getElem? hlayout)).objects
      exact ⟨t, tableId_eq_ok.mpr ht⟩
  cases hrole : s.conventions.role column with
  | plain => exact ⟨_, rfl⟩
  | name i layout => exact hindex _ (Conventions.role_name hrole).1
  | value i layout => exact hindex _ (Conventions.role_value hrole).1

theorem Schema.Registered.lookUpPlace (hs : s.Registered) (before : List Role) (info : ColumnInfo) :
    s.lookUpPlace before info = .ok () :=
  lookUpPlace_eq_ok.mpr fun _ => hs.placeTable info info.id before before

theorem Schema.Registered.places (hs : s.Registered) (conditions : List (Condition × ColumnInfo)) :
    s.Places conditions :=
  fun _ c _ _ => hs.lookUpPlace _ c.2

theorem placeTable_of_placeAll (hs : s.Registered) {all before : List Role}
    {conditions : List (Condition × ColumnInfo)} {p : Placed}
    (hp : p ∈ placeAll s.conventions all before conditions) :
    ∃ t, s.placeTable p.info p.place = .ok t := by
  induction conditions generalizing before with
  | nil => cases hp
  | cons c conditions ih =>
    rcases List.mem_cons.mp hp with rfl | hp
    · exact hs.placeTable c.2 c.2.id before all
    · exact ih hp

/-- What the conventions refer to was registered before they were set, and is never missing. -/
theorem Schema.Registered.found (hs : s.Registered) (d : Draft) (caller : Caller)
    (options : CompileOptions) : d.Found s caller options where
  values := fun _ hp _ => placeTable_of_placeAll hs hp
  guarded := fun _ p hp => (hs.holdsConventions.guarded p hp).imp fun _ => tableId_eq_ok.mpr
  canonical := fun column hcolumn =>
    (hs.holdsConventions.columns column
      (List.mem_append_left _ (List.mem_of_mem_filter hcolumn))).imp fun _ => columnInfo_eq_ok.mpr

end CatalogQuery
