import CatalogQuery.Proofs.Schema.Registration

/-!
# What conventions refer to

Conventions are checked when they are set, and what they refer to stays registered: registration only
adds, and what was found under a name or a number is found under it ever after.

* `Extends`: what was found before is found still, with one lemma for each registration;
* `HoldsConventions`: all columns and tables that the conventions name are registered;
* `setConventions_eq_ok`: conventions are accepted iff they are;
* `Registered.holdsConventions`: they are, in every schema that registration builds;
* `columnInfo?_isSome_iff`: a column is found iff it is registered.
-/

namespace CatalogQuery.Schema

open Fallible

variable {s s' s'' : Schema} {id : ColumnId} {info : ColumnInfo} {name : String} {t : TableId}

theorem columnInfo_eq_ok : s.columnInfo id = .ok info ↔ s.columnInfo? id = some info := by
  unfold columnInfo
  cases s.columnInfo? id with
  | none => simp
  | some c => simp

/-! ## Growing schemas -/

/-- What was found under a name or a number is found still. -/
structure Extends (s s' : Schema) : Prop where
  tableId? : ∀ name t, s.tableId? name = some t → s'.tableId? name = some t
  columnInfo? : ∀ id info, s.columnInfo? id = some info → s'.columnInfo? id = some info

theorem extends_tables (s : Schema) (tables : List Table) :
    s.Extends { s with tables := s.tables ++ tables } where
  tableId? := by
    intro name t ht
    simp [Schema.tableId?, List.findIdx?_append, show s.tables.findIdx? (·.name == name) = some t from ht]
  columnInfo? := by
    intro id info hinfo
    simp only [Schema.columnInfo?, Option.bind_eq_bind, Option.bind_eq_some_iff] at hinfo ⊢
    obtain ⟨c, hc, table, htable, hinfo⟩ := hinfo
    exact ⟨c, hc, table, List.getElem?_append_left (List.getElem?_eq_some_iff.mp htable).1 ▸ htable,
      hinfo⟩

theorem extends_columns (s : Schema) (columns : List Column) :
    s.Extends { s with columns := s.columns ++ columns } where
  tableId? := fun _ _ ht => ht
  columnInfo? := by
    intro id info hinfo
    simp only [Schema.columnInfo?, Option.bind_eq_bind, Option.bind_eq_some_iff] at hinfo ⊢
    obtain ⟨c, hc, table, htable, hinfo⟩ := hinfo
    exact ⟨c, by simp [List.find?_append, hc], table, htable, hinfo⟩

theorem extends_links (s : Schema) (links : List Link) : s.Extends { s with links := links } where
  tableId? := fun _ _ ht => ht
  columnInfo? := fun _ _ hinfo => hinfo

/-! ## Conventions -/

/-- The columns of a layout stand on its attribute table; its map and its objects are registered. -/
structure HoldsLayout (s : Schema) (j : AttributeJoin) : Prop where
  names : ∃ info, s.columnInfo? j.nameColumn = some info ∧
    s.tableId? j.metaBinding = some info.tableId
  values : ∃ info, s.columnInfo? j.valueColumn = some info ∧
    s.tableId? j.metaBinding = some info.tableId
  map : ∃ t, s.tableId? j.mapBinding = some t
  objects : ∃ t, s.tableId? j.objectTable = some t

/-- All that the conventions refer to is registered. -/
structure HoldsConventions (s : Schema) (c : Conventions) : Prop where
  columns : ∀ id ∈ c.canonicalOrder ++ c.objectIdColumns, ∃ info, s.columnInfo? id = some info
  layouts : ∀ j ∈ c.attributeJoins, s.HoldsLayout j
  guarded : ∀ p ∈ c.protectedTables, ∃ t, s.tableId? p.table = some t

theorem HoldsLayout.extend {j : AttributeJoin} (h : s.HoldsLayout j) (hext : s.Extends s') :
    s'.HoldsLayout j where
  names := h.names.imp fun _ hinfo => ⟨hext.columnInfo? _ _ hinfo.1, hext.tableId? _ _ hinfo.2⟩
  values := h.values.imp fun _ hinfo => ⟨hext.columnInfo? _ _ hinfo.1, hext.tableId? _ _ hinfo.2⟩
  map := h.map.imp fun _ ht => hext.tableId? _ _ ht
  objects := h.objects.imp fun _ ht => hext.tableId? _ _ ht

theorem HoldsConventions.extend {c : Conventions} (h : s.HoldsConventions c)
    (hext : s.Extends s') : s'.HoldsConventions c where
  columns := fun id hid => (h.columns id hid).imp fun _ hinfo => hext.columnInfo? _ _ hinfo
  layouts := fun j hj => (h.layouts j hj).extend hext
  guarded := fun p hp => (h.guarded p hp).imp fun _ ht => hext.tableId? _ _ ht

theorem checkLayout_eq_ok (hs : s.WellFormed) {j : AttributeJoin} :
    s.checkLayout j = .ok () ↔ s.HoldsLayout j := by
  simp only [checkLayout, bind_eq_ok, guarded_eq_ok, columnInfo_eq_ok, discard_eq_ok,
    tableId_eq_ok, not_or, ne_eq, Decidable.not_not]
  have hstands : ∀ {id info}, s.columnInfo? id = some info →
      (s.tableId? j.metaBinding = some info.tableId ↔ info.table.name = j.metaBinding) :=
    fun hinfo => tableId?_eq_some hs (columnInfo?_eq_some hinfo).2.1 _
  constructor
  · rintro ⟨names, hnames, values, hvalues, ⟨hname, hvalue⟩, _, hmap, hobjects⟩
    exact ⟨⟨names, hnames, (hstands hnames).mpr hname⟩,
      ⟨values, hvalues, (hstands hvalues).mpr hvalue⟩, hmap, hobjects⟩
  · rintro ⟨⟨names, hnames, hname⟩, ⟨values, hvalues, hvalue⟩, hmap, hobjects⟩
    exact ⟨names, hnames, values, hvalues, ⟨(hstands hnames).mp hname, (hstands hvalues).mp hvalue⟩,
      (), hmap, hobjects⟩

/-- Conventions are accepted iff all that they refer to is registered. -/
theorem setConventions_eq_ok (hs : s.WellFormed) {c : Conventions} :
    s.setConventions c = .ok s' ↔ s.HoldsConventions c ∧ s' = { s with conventions := c } := by
  constructor
  · intro h
    refine ⟨?_, setConventions_eq h⟩
    simp only [setConventions, bind_eq_ok] at h
    obtain ⟨_, hcolumns, _, hlayouts, _, hguarded, -⟩ := h
    constructor
    case columns =>
      intro id hid
      obtain ⟨info, hinfo⟩ := discard_eq_ok.mp (forM_eq_ok.mp hcolumns id hid)
      exact ⟨info, columnInfo_eq_ok.mp hinfo⟩
    case layouts => exact fun j hj => (checkLayout_eq_ok hs).mp (forM_eq_ok.mp hlayouts j hj)
    case guarded =>
      intro p hp
      obtain ⟨t, ht⟩ := discard_eq_ok.mp (forM_eq_ok.mp hguarded p hp)
      exact ⟨t, tableId_eq_ok.mp ht⟩
  · rintro ⟨⟨hcolumns, hlayouts, hguarded⟩, rfl⟩
    simp only [setConventions, bind_eq_ok]
    refine ⟨(), forM_eq_ok.mpr fun id hid => discard_eq_ok.mpr ?_, (),
      forM_eq_ok.mpr fun j hj => (checkLayout_eq_ok hs).mpr (hlayouts j hj), (),
      forM_eq_ok.mpr fun p hp => discard_eq_ok.mpr ?_, rfl⟩
    · exact (hcolumns id hid).imp fun _ => columnInfo_eq_ok.mpr
    · exact (hguarded p hp).imp fun _ => tableId_eq_ok.mpr

/-- In every schema that registration builds, all that its conventions refer to is registered. -/
theorem Registered.holdsConventions (h : s.Registered) : s.HoldsConventions s.conventions := by
  induction h with
  | empty limits => exact ⟨nofun, nofun, nofun⟩
  | table _ hs ih =>
    obtain ⟨-, -, -, -, rfl⟩ := registerTable_eq_ok.mp hs
    exact ih.extend (extends_tables _ _)
  | column _ hs ih =>
    obtain ⟨-, -, t, -, rfl⟩ := registerColumn_eq_ok.mp hs
    exact ih.extend (extends_columns _ _)
  | link _ hs ih =>
    obtain ⟨-, l, r, -, -, -, -, rfl⟩ := registerLink_eq_ok.mp hs
    exact ih.extend (extends_links _ _)
  | conventions hregistered hs ih =>
    obtain ⟨hholds, rfl⟩ := (setConventions_eq_ok hregistered.wellFormed).mp hs
    exact hholds.extend ⟨fun _ _ ht => ht, fun _ _ hinfo => hinfo⟩

/-! ## Columns -/

/-- Columns stand on tables of the schema. -/
theorem Registered.column_lt (h : s.Registered) : ∀ c ∈ s.columns, c.table < s.tables.length := by
  induction h with
  | empty limits => exact nofun
  | table _ hs ih =>
    obtain ⟨-, -, -, -, rfl⟩ := registerTable_eq_ok.mp hs
    exact fun c hc => Nat.lt_of_lt_of_le (ih c hc) (by simp)
  | column _ hs ih =>
    obtain ⟨-, -, t, ht, rfl⟩ := registerColumn_eq_ok.mp hs
    intro c hc
    rcases List.mem_append.mp hc with hc | hc
    · exact ih c hc
    · rw [List.mem_singleton.mp hc]
      exact lt_of_tableId? ht
  | link _ hs ih =>
    obtain ⟨-, l, r, -, -, -, -, rfl⟩ := registerLink_eq_ok.mp hs
    exact ih
  | conventions _ hs ih =>
    rw [setConventions_eq hs]
    exact ih

/-- A column of that number is registered. -/
def HasColumn (s : Schema) (id : ColumnId) : Prop := ∃ c ∈ s.columns, c.id = id

theorem Registered.columnInfo?_isSome_iff (h : s.Registered) :
    (∃ info, s.columnInfo? id = some info) ↔ s.HasColumn id := by
  simp only [Schema.columnInfo?, Option.bind_eq_bind, Option.bind_eq_some_iff, Option.pure_def,
    Option.some.injEq]
  constructor
  · rintro ⟨_, c, hc, -⟩
    exact ⟨c, List.mem_of_find?_eq_some hc, by simpa using List.find?_some hc⟩
  · rintro ⟨c, hc, rfl⟩
    obtain ⟨d, hd⟩ : ∃ d, s.columns.find? (·.id == c.id) = some d :=
      Option.isSome_iff_exists.mp (List.find?_isSome.mpr ⟨c, hc, by simp⟩)
    have hlt := h.column_lt d (List.mem_of_find?_eq_some hd)
    exact ⟨_, d, hd, _, List.getElem?_eq_getElem hlt, rfl⟩

end CatalogQuery.Schema
