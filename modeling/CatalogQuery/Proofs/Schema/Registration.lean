import CatalogQuery.Proofs.Fallible
import CatalogQuery.Schema.Definition

/-!
# Registered schemas

What registration can build, and what holds of it: names are distinct and bound by their entries,
and every link joins two different tables of the schema.

* `registerTable_eq_ok`, `registerColumn_eq_ok`, `registerLink_eq_ok`, `setConventions_eq`: what a
  registration that succeeds has checked and what it changes;
* `Registered.wellFormed`: the invariant of all registrations;
* `Definition.registered_of_register`: a definition registers such a schema.
-/

namespace CatalogQuery

open Text Fallible

namespace Schema

/-- The schemas that registration builds, in any order of its calls. A call that fails builds
nothing. -/
inductive Registered : Schema → Prop where
  | empty (limits : Limits) : Registered (.empty limits)
  | table {s s' : Schema} {name given : String} {cycler : Bool} {t : TableId} :
    Registered s → s.registerTable name given cycler = .ok (s', t) → Registered s'
  | column {s s' : Schema} {id : ColumnId} {table name : String} :
    Registered s → s.registerColumn id table name = .ok s' → Registered s'
  | link {s s' : Schema} {left right predicate : String} {l : LinkId} :
    Registered s → s.registerLink left right predicate = .ok (s', l) → Registered s'
  | conventions {s s' : Schema} {c : Conventions} :
    Registered s → s.setConventions c = .ok s' → Registered s'

/-! ## What a registration does -/

theorem tableId_eq_ok {s : Schema} {name : String} {t : TableId} :
    s.tableId name = .ok t ↔ s.tableId? name = some t := by
  unfold tableId
  cases s.tableId? name with
  | none => simp
  | some u => simp

theorem tableId?_eq_none {s : Schema} {name : String} :
    s.tableId? name = none ↔ name ∉ s.tables.map (·.name) := by
  simp [tableId?, List.findIdx?_eq_none_iff]

theorem lt_of_tableId? {s : Schema} {name : String} {t : TableId} (h : s.tableId? name = some t) :
    t < s.tables.length := by
  obtain ⟨ht, -⟩ := List.findIdx?_eq_some_iff_getElem.mp h
  exact ht

theorem tableName_of_tableId? {s : Schema} {name : String} {t : TableId}
    (h : s.tableId? name = some t) : s.tableName t = name := by
  obtain ⟨ht, hname, -⟩ := List.findIdx?_eq_some_iff_getElem.mp h
  simpa [tableName, List.getElem?_eq_getElem ht] using hname

theorem columnInfo?_eq_some {s : Schema} {id : ColumnId} {info : ColumnInfo}
    (h : s.columnInfo? id = some info) :
    info.id = id ∧ s.tables[info.tableId]? = some info.table ∧
      ∃ column ∈ s.columns, column.name = info.name := by
  unfold columnInfo? at h
  obtain ⟨column, hcolumn, h⟩ := Option.bind_eq_some_iff.mp h
  obtain ⟨table, htable, h⟩ := Option.bind_eq_some_iff.mp h
  cases h
  exact ⟨rfl, htable, column, List.mem_of_find?_eq_some hcolumn, rfl⟩

theorem registerTable_eq_ok {s s' : Schema} {name given : String} {cycler : Bool} {t : TableId} :
    s.registerTable name given cycler = .ok (s', t) ↔
      checkRoom s.tables.length s.limits.maxTables .tables = .ok () ∧
      name ∉ s.tables.map (·.name) ∧ lastWord (sourceOf name given) = name ∧
      t = s.tables.length ∧
      s' = { s with tables := s.tables ++ [⟨name, sourceOf name given, cycler⟩] } := by
  rw [← tableId?_eq_none]
  simp only [registerTable, bind_eq_ok, guarded_eq_ok, pure, Except.pure, Except.ok.injEq,
    Prod.mk.injEq, Bool.not_eq_true, Option.isSome_eq_false_iff, Option.isNone_iff_eq_none,
    ne_eq, Decidable.not_not]
  constructor
  · rintro ⟨_, hroom, hname, hword, rfl, rfl⟩
    exact ⟨hroom, hname, hword, rfl, rfl⟩
  · rintro ⟨hroom, hname, hword, rfl, rfl⟩
    exact ⟨_, hroom, hname, hword, rfl, rfl⟩

theorem registerColumn_eq_ok {s s' : Schema} {id : ColumnId} {table name : String} :
    s.registerColumn id table name = .ok s' ↔
      checkRoom s.columns.length s.limits.maxColumns .columns = .ok () ∧
      (∀ c ∈ s.columns, c.id ≠ id) ∧
      ∃ t, s.tableId? table = some t ∧ s' = { s with columns := s.columns ++ [⟨id, t, name⟩] } := by
  simp only [registerColumn, bind_eq_ok, guarded_eq_ok, tableId_eq_ok, pure, Except.pure,
    Except.ok.injEq, Bool.not_eq_true, List.any_eq_false, beq_iff_eq]
  constructor
  · rintro ⟨_, hroom, hid, t, ht, rfl⟩
    exact ⟨hroom, hid, t, ht, rfl⟩
  · rintro ⟨hroom, hid, t, ht, rfl⟩
    exact ⟨_, hroom, hid, t, ht, rfl⟩

theorem registerLink_eq_ok {s s' : Schema} {left right predicate : String} {n : LinkId} :
    s.registerLink left right predicate = .ok (s', n) ↔
      checkRoom s.links.length s.limits.maxLinks .links = .ok () ∧
      ∃ l r, s.tableId? left = some l ∧ s.tableId? right = some r ∧ l ≠ r ∧
        n = s.links.length ∧ s' = { s with links := s.links ++ [⟨l, r, trimmed predicate⟩] } := by
  simp only [registerLink, bind_eq_ok, guarded_eq_ok, tableId_eq_ok, pure, Except.pure,
    Except.ok.injEq, Prod.mk.injEq]
  constructor
  · rintro ⟨_, hroom, l, hl, r, hr, hne, rfl, rfl⟩
    exact ⟨hroom, l, r, hl, hr, hne, rfl, rfl⟩
  · rintro ⟨hroom, l, r, hl, hr, hne, rfl, rfl⟩
    exact ⟨_, hroom, l, hl, r, hr, hne, rfl, rfl⟩

/-- Conventions that are accepted replace those before and change nothing else. -/
theorem setConventions_eq {s s' : Schema} {c : Conventions} (h : s.setConventions c = .ok s') :
    s' = { s with conventions := c } := by
  simp only [setConventions, bind_eq_ok] at h
  obtain ⟨_, _, _, _, _, _, h⟩ := h
  simp only [pure, Except.pure, Except.ok.injEq] at h
  exact h.symm

/-! ## Keys -/

section Keys

variable {α κ : Type} {f : α → κ} {members : List α} {a : α}

/-- A member is found by a key that no two members share. -/
theorem findIdx?_eq_some_of_nodup [DecidableEq κ] (hn : (members.map f).Nodup) {key : κ}
    {place : Nat} :
    members.findIdx? (f · == key) = some place ↔ ∃ a, members[place]? = some a ∧ f a = key := by
  rw [List.findIdx?_eq_some_iff_getElem]
  constructor
  · rintro ⟨hlt, hkey, -⟩
    exact ⟨members[place], List.getElem?_eq_getElem hlt, eq_of_beq hkey⟩
  · rintro ⟨a, ha, rfl⟩
    obtain ⟨hlt, rfl⟩ := List.getElem?_eq_some_iff.mp ha
    refine ⟨hlt, beq_self_eq_true _, fun i hi => ?_⟩
    have hne := List.pairwise_iff_getElem.mp hn i place
      (by simpa using Nat.lt_trans hi hlt) (by simpa using hlt) hi
    simpa using hne

/-- Another member may have any key that is not taken. -/
theorem nodup_map_concat (hn : (members.map f).Nodup) (ha : ∀ b ∈ members, f b ≠ f a) :
    ((members ++ [a]).map f).Nodup := by
  rw [List.map_append]
  refine List.nodup_append.mpr ⟨hn, List.pairwise_singleton _ _, fun x hx y hy => ?_⟩
  obtain ⟨b, hb, rfl⟩ := List.mem_map.mp hx
  rw [List.mem_singleton.mp hy]
  exact ha b hb

/-- The key of a member is not that of a member before it. -/
theorem key_ne_of_before {before after : List α} (hn : (members.map f).Nodup)
    (hsplit : members = before ++ a :: after) : ∀ b ∈ before, f b ≠ f a := by
  rw [hsplit, List.map_append, List.map_cons] at hn
  exact fun b hb =>
    (List.nodup_append.mp hn).2.2 _ (List.mem_map_of_mem hb) _ List.mem_cons_self

end Keys

/-! ## The invariant -/

/-- What every registration keeps. -/
structure WellFormed (s : Schema) : Prop where
  nodup_names : (s.tables.map (·.name)).Nodup
  lastWord_source : ∀ t ∈ s.tables, lastWord t.source = t.name
  left_lt : ∀ l ∈ s.links, l.left < s.tables.length
  right_lt : ∀ l ∈ s.links, l.right < s.tables.length
  left_ne_right : ∀ l ∈ s.links, l.left ≠ l.right

theorem wellFormed_empty (limits : Limits) : (empty limits).WellFormed := by
  constructor <;> simp [empty]

theorem WellFormed.addTable {s : Schema} (h : s.WellFormed) {name source : String}
    (cycler : Bool) (hname : name ∉ s.tables.map (·.name)) (hsource : lastWord source = name) :
    WellFormed { s with tables := s.tables ++ [⟨name, source, cycler⟩] } where
  nodup_names := nodup_map_concat h.nodup_names fun u hu heq =>
    hname (List.mem_map.mpr ⟨u, hu, heq⟩)
  lastWord_source := by
    intro u hu
    rcases List.mem_append.mp hu with hu | hu
    · exact h.lastWord_source u hu
    · rw [List.mem_singleton.mp hu]
      exact hsource
  left_lt := fun l hl => Nat.lt_of_lt_of_le (h.left_lt l hl) (by simp)
  right_lt := fun l hl => Nat.lt_of_lt_of_le (h.right_lt l hl) (by simp)
  left_ne_right := h.left_ne_right

theorem WellFormed.addLink {s : Schema} (h : s.WellFormed) {left right : TableId}
    (predicate : String) (hleft : left < s.tables.length) (hright : right < s.tables.length)
    (hne : left ≠ right) :
    WellFormed { s with links := s.links ++ [⟨left, right, predicate⟩] } where
  nodup_names := h.nodup_names
  lastWord_source := h.lastWord_source
  left_lt := by
    intro m hm
    rcases List.mem_append.mp hm with hm | hm
    · exact h.left_lt m hm
    · rw [List.mem_singleton.mp hm]
      exact hleft
  right_lt := by
    intro m hm
    rcases List.mem_append.mp hm with hm | hm
    · exact h.right_lt m hm
    · rw [List.mem_singleton.mp hm]
      exact hright
  left_ne_right := by
    intro m hm
    rcases List.mem_append.mp hm with hm | hm
    · exact h.left_ne_right m hm
    · rw [List.mem_singleton.mp hm]
      exact hne

/-- Every schema that registration builds is well formed. -/
theorem Registered.wellFormed {s : Schema} (h : s.Registered) : s.WellFormed := by
  induction h with
  | empty limits => exact wellFormed_empty limits
  | table _ hs ih =>
    obtain ⟨-, hname, hsource, -, rfl⟩ := registerTable_eq_ok.mp hs
    exact ih.addTable _ hname hsource
  | column _ hs ih =>
    obtain ⟨-, -, t, -, rfl⟩ := registerColumn_eq_ok.mp hs
    exact { ih with }
  | link _ hs ih =>
    obtain ⟨-, l, r, hl, hr, hne, -, rfl⟩ := registerLink_eq_ok.mp hs
    exact ih.addLink _ (lt_of_tableId? hl) (lt_of_tableId? hr) hne
  | conventions _ hs ih =>
    rw [setConventions_eq hs]
    exact { ih with }

/-- Of tables with different names only one has a name. -/
theorem tableId?_eq_some {s : Schema} (hs : s.WellFormed) {t : TableId} {table : Table}
    (ht : s.tables[t]? = some table) (name : String) :
    s.tableId? name = some t ↔ table.name = name := by
  rw [tableId?, findIdx?_eq_some_of_nodup hs.nodup_names, ht]
  simp

end Schema

/-! ## Definitions -/

namespace Definition

open Schema

theorem registered_of_register {d : Definition} {s : Schema} (h : d.register = .ok s) :
    s.Registered := by
  simp only [register, bind_eq_ok] at h
  obtain ⟨s₁, h₁, s₂, h₂, s₃, h₃, h⟩ := h
  have r₁ : s₁.Registered :=
    foldlM_keeps (P := fun _ s => s.Registered) (.empty d.limits) (by
      intro _ t _ a b _ ha hb
      obtain ⟨⟨c, n⟩, hc, rfl⟩ := map_eq_ok.mp hb
      exact .table ha hc) h₁
  have r₂ : s₂.Registered :=
    foldlM_keeps (P := fun _ s => s.Registered) r₁ (fun _ _ _ _ _ _ ha hb => .column ha hb) h₂
  have r₃ : s₃.Registered :=
    foldlM_keeps (P := fun _ s => s.Registered) r₂ (by
      intro _ l _ a b _ ha hb
      obtain ⟨⟨c, n⟩, hc, rfl⟩ := map_eq_ok.mp hb
      exact .link ha hc) h₃
  exact .conventions r₃ h

/-- Three tables in a line with a side track, and a way round over a cycler. -/
def roundabout : Definition where
  limits := {}
  tables := [⟨"coll", "", false⟩, ⟨"data", "", false⟩, ⟨"meta", "base meta", false⟩,
    ⟨"note", "", false⟩, ⟨"hub", "", true⟩]
  columns := [⟨⟨1⟩, "data", "name"⟩, ⟨⟨2⟩, "meta", "label"⟩]
  links := [⟨"coll", "data", "coll.id = data.coll"⟩, ⟨"data", "meta", "data.id = meta.id"⟩,
    ⟨"note", "data", "note.id = data.id"⟩, ⟨"coll", "hub", "coll.hub = hub.id"⟩,
    ⟨"hub", "meta", "hub.id = meta.hub"⟩]
  conventions := .blank

end Definition

/-- The schema that the definition of the roundabout registers. -/
def Schema.roundabout : Schema where
  limits := {}
  tables := [⟨"coll", "coll", false⟩, ⟨"data", "data", false⟩, ⟨"meta", "base meta", false⟩,
    ⟨"note", "note", false⟩, ⟨"hub", "hub", true⟩]
  columns := [⟨⟨1⟩, 1, "name"⟩, ⟨⟨2⟩, 2, "label"⟩]
  links := [⟨0, 1, "coll.id = data.coll"⟩, ⟨1, 2, "data.id = meta.id"⟩, ⟨3, 1, "note.id = data.id"⟩,
    ⟨0, 4, "coll.hub = hub.id"⟩, ⟨4, 2, "hub.id = meta.hub"⟩]
  conventions := .blank

theorem Definition.register_roundabout : Definition.roundabout.register = .ok .roundabout := by
  decide +kernel

theorem Schema.registered_roundabout : Schema.roundabout.Registered :=
  Definition.registered_of_register Definition.register_roundabout

end CatalogQuery
