import CatalogQuery.Proofs.Schema.Registration
import CatalogQuery.Schema.Store

/-!
# Calls on the store

A call on the store does to its lists what the registration does to the schema, keeps the indexes in
step with them, and writes nothing unless all its checks have passed.

* `Indexed`: the indexes tell what the lists hold;
* `Follows`: a call answers as the registration does and leaves its schema, or the store as it was;
* `registerTable_follows`, `registerColumn_follows`, `registerLink_follows`,
  `setConventions_follows`: all four calls do.
-/

namespace CatalogQuery

open Text

namespace Schema

variable {s : Schema} {t : TableId}

/-- The links registered from a table with their numbers, in the order of registration. -/
def linksFrom (s : Schema) (t : TableId) : List (Link × LinkId) :=
  s.links.zipIdx.filter (·.1.left == t)

/-- The links registered to a table with their numbers, in the order of registration. -/
def linksTo (s : Schema) (t : TableId) : List (Link × LinkId) :=
  s.links.zipIdx.filter (·.1.right == t)

/-- What the store keeps for a table. -/
def incidence (s : Schema) (t : TableId) : Incidence :=
  ⟨(s.linksFrom t).map (·.2), (s.linksTo t).map (·.2)⟩

theorem zipIdx_concat (links : List Link) (k : Link) :
    (links ++ [k]).zipIdx = links.zipIdx ++ [(k, links.length)] := by
  simp [List.zipIdx_append]

theorem incidence_concat (s : Schema) (k : Link) (t : TableId) :
    incidence { s with links := s.links ++ [k] } t =
      ⟨(s.incidence t).outgoing ++ (if k.left = t then [s.links.length] else []),
        (s.incidence t).incoming ++ (if k.right = t then [s.links.length] else [])⟩ := by
  simp only [incidence, linksFrom, linksTo, zipIdx_concat, List.filter_append, List.map_append]
  congr 2
  · by_cases h : k.left = t <;> simp [h]
  · by_cases h : k.right = t <;> simp [h]

/-- No link is at a table that is not registered yet. -/
theorem incidence_of_le (hs : s.WellFormed) (ht : s.tables.length ≤ t) :
    s.incidence t = ⟨[], []⟩ := by
  have hnone : ∀ (f : Link → TableId), (∀ l ∈ s.links, f l < s.tables.length) →
      s.links.zipIdx.filter (fun l => f l.1 == t) = [] := by
    intro f hf
    refine List.filter_eq_nil_iff.mpr fun l hl => ?_
    have hlt := hf l.1 (List.fst_mem_of_mem_zipIdx hl)
    have hne : f l.1 ≠ t := Nat.ne_of_lt (Nat.lt_of_lt_of_le hlt ht)
    simpa using hne
  simp [incidence, linksFrom, linksTo, hnone _ hs.left_lt, hnone _ hs.right_lt]

end Schema

namespace SchemaStore

variable {x : SchemaStore} {α β σ : Type} {built : σ → Schema × α} {name : String} {t : TableId}
  {id : ColumnId}

/-! ## Look-ups -/

/-- The indexes tell what the lists hold: where the table of a name stands, where the column of a
number stands, and which links are at a table. -/
structure Indexed (x : SchemaStore) : Prop where
  tableIndex : ∀ name, x.tableIndex[name]? = x.tableId? name
  columnIndex : ∀ id, x.columnIndex[id]? = x.columns.findIdx? (·.id == id)
  incidence : x.incidence = (List.range x.tables.length).map x.toSchema.incidence

theorem Indexed.tableId (h : x.Indexed) (name : String) :
    SchemaStore.tableId x name = Schema.tableId x.toSchema name := by
  have hindex := h.tableIndex name
  unfold SchemaStore.tableId Schema.tableId
  cases hfound : x.tableId? name with
  | none => rw [hindex, hfound]
  | some t => rw [hindex, hfound]

theorem Indexed.columnInfo? (h : x.Indexed) (id : ColumnId) :
    SchemaStore.columnInfo? x id = Schema.columnInfo? x.toSchema id := by
  unfold SchemaStore.columnInfo? Schema.columnInfo?
  rw [h.columnIndex, List.find?_eq_bind_findIdx?_getElem?]
  exact (Option.bind_assoc _ _ _).symm

theorem Indexed.columnInfo (h : x.Indexed) (id : ColumnId) :
    SchemaStore.columnInfo x id = Schema.columnInfo x.toSchema id := by
  have hindex := h.columnInfo? id
  unfold SchemaStore.columnInfo Schema.columnInfo
  cases hfound : Schema.columnInfo? x.toSchema id with
  | none => rw [hindex, hfound]
  | some c => rw [hindex, hfound]

theorem Indexed.checkLayout (h : x.Indexed) (j : AttributeJoin) :
    SchemaStore.checkLayout x j = Schema.checkLayout x.toSchema j := by
  unfold SchemaStore.checkLayout Schema.checkLayout
  rw [h.columnInfo, h.columnInfo, h.tableId, h.tableId]

/-! ## What a call does -/

/-- The answer and the store of a call are `built` from what the registration gives; where this is
refused, the store is left as it was. -/
inductive Follows (x : SchemaStore) (result : Except QueryError α × SchemaStore)
    (built : σ → Schema × α) : Except QueryError σ → Prop where
  | done {given : σ} : result.1 = .ok (built given).2 → result.2.toSchema = (built given).1 →
    result.2.Indexed → Follows x result built (.ok given)
  | refused {e : QueryError} : result = (.error e, x) → Follows x result built (.error e)

theorem on_get_bind (f : SchemaStore → Call α) (x : SchemaStore) :
    Call.on (get >>= f) x = (f x).on x := rfl

theorem follows_attempt {found : Except QueryError β} {f : β → Call α} {g : β → Except QueryError σ}
    (h : ∀ b, found = .ok b → x.Follows ((f b).on x) built (g b)) :
    x.Follows ((attempt found >>= f).on x) built (found >>= g) := by
  cases found with
  | error e => exact .refused rfl
  | ok b => exact h b rfl

theorem follows_guard {c : Prop} [Decidable c] {e : QueryError} {f : Unit → Call α}
    {g : Unit → Except QueryError σ} (h : ¬c → x.Follows ((f ()).on x) built (g ())) :
    x.Follows (Call.on (if c then throw e >>= f else f ()) x) built
      (if c then (throw e : Except QueryError Unit) >>= g else g ()) := by
  by_cases hc : c
  · rw [if_pos hc, if_pos hc]
    exact .refused rfl
  · rw [if_neg hc, if_neg hc]
    exact h hc

/-- Checks that only look up are made one after the other. -/
theorem forM_attempt {check : β → Except QueryError Unit} (bs : List β) :
    (bs.forM fun b => attempt (check b)) = attempt (bs.forM check) := by
  induction bs with
  | nil => rfl
  | cons b bs ih =>
    show (attempt (check b) >>= fun _ => bs.forM fun b => attempt (check b)) = _
    rw [ih]
    show _ = attempt (check b >>= fun _ => bs.forM check)
    cases check b with
    | error e => rfl
    | ok u => rfl

/-! ## Tables -/

theorem Indexed.contains_table (h : x.Indexed) (name : String) :
    x.tableIndex.contains name = (x.tableId? name).isSome := by
  rw [Std.HashMap.contains_eq_isSome_getElem?, h.tableIndex]

theorem Indexed.addTable (h : x.Indexed) (hs : x.WellFormed) {source : String} {cycler : Bool}
    (hname : x.tableId? name = none) :
    Indexed { x with
      tables := x.tables ++ [⟨name, source, cycler⟩]
      incidence := x.incidence ++ [⟨[], []⟩]
      tableIndex := x.tableIndex.insert name x.tables.length } where
  tableIndex := by
    intro other
    rw [Std.HashMap.getElem?_insert, h.tableIndex]
    by_cases hother : name = other
    · subst hother
      have hnone : x.tables.findIdx? (·.name == name) = none := hname
      simp [Schema.tableId?, List.findIdx?_append, hnone]
    · simp [Schema.tableId?, List.findIdx?_append, hother]
  columnIndex := h.columnIndex
  incidence := by
    show x.incidence ++ [⟨[], []⟩]
      = (List.range (x.tables ++ [_]).length).map x.toSchema.incidence
    rw [List.length_append, List.length_singleton, List.range_succ, List.map_append,
      List.map_singleton, h.incidence, Schema.incidence_of_le hs (Nat.le_refl _)]

theorem registerTable_follows (hs : x.WellFormed) (h : x.Indexed) (name given : String)
    (cycler : Bool) :
    x.Follows ((registerTable name given cycler).on x) (fun built => built)
      (x.toSchema.registerTable name given cycler) := by
  unfold registerTable Schema.registerTable
  rw [on_get_bind]
  refine follows_attempt fun _ _ => ?_
  dsimp only
  rw [h.contains_table]
  refine follows_guard fun hname => ?_
  have hnone : x.tableId? name = none := by simpa using hname
  refine follows_guard fun hword => ?_
  exact .done rfl rfl (h.addTable hs hnone)

/-! ## Columns -/

theorem Indexed.contains_column (h : x.Indexed) (id : ColumnId) :
    x.columnIndex.contains id = x.columns.any (·.id == id) := by
  rw [Std.HashMap.contains_eq_isSome_getElem?, h.columnIndex, List.findIdx?_isSome]

theorem Indexed.addColumn (h : x.Indexed) (hid : x.columns.any (·.id == id) = false) :
    Indexed { x with
      columnIndex := x.columnIndex.insert id x.columns.length
      columns := x.columns ++ [⟨id, t, name⟩] } where
  tableIndex := h.tableIndex
  columnIndex := by
    intro other
    rw [Std.HashMap.getElem?_insert, h.columnIndex]
    by_cases hother : id = other
    · subst hother
      have hnone : x.columns.findIdx? (·.id == id) = none := by
        simpa [List.findIdx?_eq_none_iff] using hid
      simp [List.findIdx?_append, hnone]
    · simp [List.findIdx?_append, hother]
  incidence := h.incidence

theorem registerColumn_follows (h : x.Indexed) (id : ColumnId) (table name : String) :
    x.Follows ((registerColumn id table name).on x) (·, ())
      (x.toSchema.registerColumn id table name) := by
  unfold registerColumn Schema.registerColumn
  rw [on_get_bind]
  refine follows_attempt fun _ _ => ?_
  dsimp only
  rw [h.contains_column, h.tableId]
  refine follows_guard fun hid => ?_
  refine follows_attempt fun t _ => ?_
  exact .done rfl rfl (h.addColumn (by simpa using hid))

/-! ## Links -/

theorem Indexed.addLink (h : x.Indexed) {u : TableId} (hne : t ≠ u) (predicate : String) :
    Indexed { x with
      links := x.links ++ [⟨t, u, predicate⟩]
      incidence := (x.incidence.modify t fun i =>
        { i with outgoing := i.outgoing ++ [x.links.length] }).modify u fun i =>
        { i with incoming := i.incoming ++ [x.links.length] } } where
  tableIndex := h.tableIndex
  columnIndex := h.columnIndex
  incidence := by
    rw [h.incidence]
    refine List.ext_getElem (by simp) fun v hv _ => ?_
    rw [List.getElem_map, List.getElem_range, Schema.incidence_concat, List.getElem_modify,
      List.getElem_modify, List.getElem_map, List.getElem_range]
    by_cases hvt : t = v
    · subst hvt
      simp [Ne.symm hne]
    · by_cases hvu : u = v
      · simp [hvt, hvu]
      · simp [hvt, hvu]

theorem registerLink_follows (h : x.Indexed) (left right predicate : String) :
    x.Follows ((registerLink left right predicate).on x) (fun built => built)
      (x.toSchema.registerLink left right predicate) := by
  unfold registerLink Schema.registerLink
  rw [on_get_bind]
  refine follows_attempt fun _ _ => ?_
  dsimp only
  rw [h.tableId, h.tableId]
  refine follows_attempt fun t ht => ?_
  refine follows_attempt fun u _ => ?_
  rw [Schema.tableName_of_tableId? (Schema.tableId_eq_ok.mp ht)]
  refine follows_guard fun hne => ?_
  exact .done rfl rfl (h.addLink hne _)

/-! ## Conventions -/

theorem setConventions_follows (h : x.Indexed) (c : Conventions) :
    x.Follows ((setConventions c).on x) (·, ()) (x.toSchema.setConventions c) := by
  unfold setConventions Schema.setConventions
  rw [on_get_bind, forM_attempt, forM_attempt, forM_attempt]
  simp only [h.columnInfo, h.tableId, funext h.checkLayout]
  refine follows_attempt fun _ _ => ?_
  refine follows_attempt fun _ _ => ?_
  refine follows_attempt fun _ _ => ?_
  exact .done rfl rfl ⟨h.tableIndex, h.columnIndex, h.incidence⟩

end SchemaStore

end CatalogQuery
