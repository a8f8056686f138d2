import CatalogQuery.Proofs.Compile.Unlimited
import CatalogQuery.Proofs.Schema.Consistency
import CatalogQuery.Proofs.Text.Cuts

/-!
# Schemas and their definitions

A registered schema without cycles is built again from its definition, limits aside; and the schema
that a definition builds is defined by this definition with its texts settled. Registration may have
gone in any order, while building goes through the lists one after the other; so each list is
replayed on its own, on top of the whole lists before it.

* `Registered.settled`: what registration has trimmed is not trimmed any further;
* `register_definition`: a schema is registered again by its definition;
* `definition_registerTable` and its companions: what a registration adds to the definition;
* `definition_register`: what is registered by a definition has it as its definition;
* `definition_round_trip`: both directions.
-/

namespace CatalogQuery

open Text Fallible

/-! ## Settled texts -/

/-- The source that a definition gives for a table: none where it is the name. -/
def Schema.givenSource (name source : String) : String := if source = name then "" else source

/-- A table as the definition of its schema gives it. -/
def Table.captured (t : Table) : TableDefinition :=
  ⟨t.name, Schema.givenSource t.name t.source, t.cycler⟩

namespace Schema

variable {s s' : Schema} {name given : String} {t : TableId}

theorem definition_tables (s : Schema) : s.definition.tables = s.tables.map (·.captured) := rfl

theorem sourceOf_givenSource (name given : String) :
    sourceOf name (givenSource name (sourceOf name given)) = sourceOf name given := by
  by_cases hblank : (trimmed given).isEmpty = true
  · have hname : sourceOf name given = name := by simp only [sourceOf, hblank, if_true]
    rw [hname, givenSource, if_pos rfl]
    rfl
  · have hgiven : sourceOf name given = trimmed given := by
      simp only [sourceOf, hblank, Bool.false_eq_true, if_false]
    rw [hgiven, givenSource]
    by_cases hname : trimmed given = name
    · rw [if_pos hname, hname]
      rfl
    · rw [if_neg hname, sourceOf, trimmed_trimmed]
      simp only [hblank, Bool.false_eq_true, if_false]

theorem givenSource_sourceOf (name given : String) :
    givenSource name (sourceOf name given) = givenSource name (trimmed given) := by
  by_cases hblank : (trimmed given).isEmpty = true
  · have hname : sourceOf name given = name := by simp only [sourceOf, hblank, if_true]
    have hempty : trimmed given = "" := by simpa using hblank
    rw [hname, hempty, givenSource, givenSource, if_pos rfl]
    split <;> rfl
  · have hgiven : sourceOf name given = trimmed given := by
      simp only [sourceOf, hblank, Bool.false_eq_true, if_false]
    rw [hgiven]

/-- Sources and predicates are as registration leaves them. -/
structure Settled (s : Schema) : Prop where
  sources : ∀ table ∈ s.tables, sourceOf table.name table.captured.source = table.source
  predicates : ∀ l ∈ s.links, trimmed l.predicate = l.predicate

theorem Registered.settled (h : s.Registered) : s.Settled := by
  induction h with
  | empty limits => exact ⟨nofun, nofun⟩
  | @table s _ name given cycler _ _ hs ih =>
    obtain ⟨-, -, -, -, rfl⟩ := registerTable_eq_ok.mp hs
    refine ⟨fun table htable => ?_, ih.predicates⟩
    rcases List.mem_append.mp htable with hold | hnew
    · exact ih.sources table hold
    · rw [List.mem_singleton.mp hnew]
      dsimp only [Table.captured]
      exact sourceOf_givenSource name given
  | column _ hs ih =>
    obtain ⟨-, -, t, -, rfl⟩ := registerColumn_eq_ok.mp hs
    exact ⟨ih.sources, ih.predicates⟩
  | link _ hs ih =>
    obtain ⟨-, l, r, -, -, -, -, rfl⟩ := registerLink_eq_ok.mp hs
    refine ⟨ih.sources, fun k hk => ?_⟩
    rcases List.mem_append.mp hk with hold | hnew
    · exact ih.predicates k hold
    · rw [List.mem_singleton.mp hnew]
      exact trimmed_trimmed _
  | conventions _ hs ih =>
    rw [setConventions_eq hs]
    exact ⟨ih.sources, ih.predicates⟩

/-! ## Registering a schema again -/

/-- A table is found under its name. -/
theorem WellFormed.tableId?_tableName (hs : s.WellFormed) (ht : t < s.tables.length) :
    s.tableId? (s.tableName t) = some t := by
  have htable := List.getElem?_eq_getElem ht
  rw [tableId?_eq_some hs htable, tableName, htable]
  rfl

/-- A schema without limits and before its conventions are set. -/
def bare (tables : List Table) (columns : List Column) (links : List Link) : Schema :=
  ⟨{}, tables, columns, links, .blank⟩

theorem replay_tables (hs : s.Registered) :
    s.definition.tables.foldlM
        (fun s t => Prod.fst <$> s.registerTable t.name t.source t.cycler) (bare [] [] [])
      = .ok (bare s.tables [] []) := by
  have hstep : ∀ before table after, s.tables = before ++ table :: after →
      Prod.fst <$> (bare before [] []).registerTable table.captured.name table.captured.source
        table.captured.cycler = .ok (bare (before ++ [table]) [] []) := by
    intro before table after hsplit
    have hmem : table ∈ s.tables := by simp [hsplit]
    have hnew : table.name ∉ before.map (·.name) := by
      intro hname
      obtain ⟨u, hu, heq⟩ := List.mem_map.mp hname
      exact key_ne_of_before hs.wellFormed.nodup_names hsplit u hu heq
    have hsource : sourceOf table.captured.name table.captured.source = table.source :=
      hs.settled.sources table hmem
    have hbinds := hs.wellFormed.lastWord_source table hmem
    rw [← hsource] at hbinds
    refine map_eq_ok.mpr ⟨_, registerTable_eq_ok.mpr ⟨rfl, hnew, hbinds, rfl, rfl⟩, ?_⟩
    dsimp only
    rw [hsource]
    rfl
  rw [definition_tables, List.foldlM_map]
  exact foldlM_replays (bare · [] []) hstep

theorem replay_columns (hs : s.Registered) :
    s.definition.columns.foldlM (fun s c => Schema.registerColumn s c.id c.table c.name)
        (bare s.tables [] [])
      = .ok (bare s.tables s.columns []) := by
  have hstep : ∀ before c after, s.columns = before ++ c :: after →
      (bare s.tables before []).registerColumn c.id (s.tableName c.table) c.name
        = .ok (bare s.tables (before ++ [c]) []) := by
    intro before c after hsplit
    have hlt := hs.column_lt c (by simp [hsplit])
    have hnew := key_ne_of_before hs.nodup_numbers hsplit
    exact registerColumn_eq_ok.mpr
      ⟨rfl, hnew, c.table, hs.wellFormed.tableId?_tableName hlt, rfl⟩
  rw [definition, List.foldlM_map]
  exact foldlM_replays (bare s.tables · []) hstep

theorem replay_links (hs : s.Registered) :
    s.definition.links.foldlM
        (fun s l => Prod.fst <$> Schema.registerLink s l.left l.right l.predicate)
        (bare s.tables s.columns [])
      = .ok (bare s.tables s.columns s.links) := by
  have hwell := hs.wellFormed
  have hstep : ∀ before l after, s.links = before ++ l :: after →
      Prod.fst <$> (bare s.tables s.columns before).registerLink (s.tableName l.left)
        (s.tableName l.right) l.predicate = .ok (bare s.tables s.columns (before ++ [l])) := by
    intro before l after hsplit
    have hmem : l ∈ s.links := by simp [hsplit]
    refine map_eq_ok.mpr ⟨_, registerLink_eq_ok.mpr ⟨rfl, l.left, l.right,
      hwell.tableId?_tableName (hwell.left_lt l hmem),
      hwell.tableId?_tableName (hwell.right_lt l hmem), hwell.left_ne_right l hmem, rfl, rfl⟩, ?_⟩
    rw [hs.settled.predicates l hmem]
    rfl
  rw [definition, List.foldlM_map]
  exact foldlM_replays (bare s.tables s.columns ·) hstep

/-- The definition of a schema registers it again, without its limits. -/
theorem register_definition (hs : s.Registered) : s.definition.register = .ok s.unlimited := by
  have hwell : (bare s.tables s.columns s.links).WellFormed := { hs.wellFormed with }
  have hholds : (bare s.tables s.columns s.links).HoldsConventions s.conventions :=
    hs.holdsConventions.extend ⟨fun _ _ ht => ht, fun _ _ hinfo => hinfo⟩
  simp only [Definition.register, bind_eq_ok]
  exact ⟨_, replay_tables hs, _, replay_columns hs, _, replay_links hs,
    (setConventions_eq_ok hwell).mpr ⟨hholds, rfl⟩⟩

/-! ## Defining what is registered -/

theorem tableName_append (tables : List Table) (ht : t < s.tables.length) :
    tableName { s with tables := s.tables ++ tables } t = s.tableName t := by
  simp only [tableName, List.getElem?_append_left ht]

end Schema

/-- The entry of a definition as registration settles it: the source without blanks at its ends, and
none where nothing is left or where it is the name. -/
def TableDefinition.settled (t : TableDefinition) : TableDefinition :=
  { t with source := Schema.givenSource t.name (Text.trimmed t.source) }

def LinkDefinition.settled (l : LinkDefinition) : LinkDefinition :=
  { l with predicate := Text.trimmed l.predicate }

/-- The definition without limits and with settled texts. -/
def Definition.settled (d : Definition) : Definition where
  limits := {}
  tables := d.tables.map (·.settled)
  columns := d.columns
  links := d.links.map (·.settled)
  conventions := d.conventions

namespace Schema

variable {s s' : Schema} {name given : String} {t : TableId}

theorem definition_registerTable (hs : s.Registered) {cycler : Bool}
    (h : s.registerTable name given cycler = .ok (s', t)) :
    s'.definition = { s.definition with
      tables := s.definition.tables ++ [TableDefinition.settled ⟨name, given, cycler⟩] } := by
  obtain ⟨-, -, -, -, rfl⟩ := registerTable_eq_ok.mp h
  have hwell := hs.wellFormed
  have hentry : Table.captured ⟨name, sourceOf name given, cycler⟩
      = .settled ⟨name, given, cycler⟩ := by
    unfold Table.captured TableDefinition.settled
    dsimp only
    rw [givenSource_sourceOf]
  unfold definition
  rw [Definition.mk.injEq]
  refine ⟨rfl, ?_, ?_, ?_, rfl⟩
  · show (s.tables ++ [_]).map Table.captured = s.tables.map Table.captured ++ [_]
    rw [List.map_append, List.map_singleton, hentry]
  · exact List.map_congr_left fun c hc => by rw [tableName_append _ (hs.column_lt c hc)]
  · exact List.map_congr_left fun l hl => by
      rw [tableName_append _ (hwell.left_lt l hl), tableName_append _ (hwell.right_lt l hl)]

theorem definition_registerColumn {id : ColumnId} {table : String}
    (h : s.registerColumn id table name = .ok s') :
    s'.definition = { s.definition with
      columns := s.definition.columns ++ [⟨id, table, name⟩] } := by
  obtain ⟨-, -, t, ht, rfl⟩ := registerColumn_eq_ok.mp h
  obtain rfl := tableName_of_tableId? ht
  simp only [definition, List.map_append]
  rfl

theorem definition_registerLink {left right predicate : String} {l : LinkId}
    (h : s.registerLink left right predicate = .ok (s', l)) :
    s'.definition = { s.definition with
      links := s.definition.links ++ [LinkDefinition.settled ⟨left, right, predicate⟩] } := by
  obtain ⟨-, t, u, ht, hu, -, -, rfl⟩ := registerLink_eq_ok.mp h
  obtain rfl := tableName_of_tableId? ht
  obtain rfl := tableName_of_tableId? hu
  simp only [definition, List.map_append]
  rfl

theorem definition_setConventions {c : Conventions} (h : s.setConventions c = .ok s') :
    s'.definition = { s.definition with conventions := c } := by
  rw [setConventions_eq h]
  rfl

/-- What is registered by a definition has it as its definition, with settled texts. -/
theorem definition_register {d : Definition} (h : d.register = .ok s) :
    s.definition = d.settled := by
  simp only [Definition.register, bind_eq_ok] at h
  obtain ⟨s₁, h₁, s₂, h₂, s₃, h₃, h⟩ := h
  have htables : s₁.definition = ⟨{}, d.tables.map (·.settled), [], [], .blank⟩ := by
    refine (foldlM_keeps (P := fun done s => s.Registered ∧
      s.definition = ⟨{}, done.map (·.settled), [], [], .blank⟩) ⟨.empty _, rfl⟩ ?_ h₁).2
    rintro done table - s s' - ⟨hs, hdone⟩ hstep
    obtain ⟨⟨s₁, t⟩, hone, rfl⟩ := map_eq_ok.mp hstep
    refine ⟨.table hs hone, ?_⟩
    rw [definition_registerTable hs hone, hdone, List.map_append]
    rfl
  have hcolumns : s₂.definition = ⟨{}, d.tables.map (·.settled), d.columns, [], .blank⟩ := by
    refine foldlM_keeps (P := fun done s =>
      s.definition = ⟨{}, d.tables.map (·.settled), done, [], .blank⟩) htables ?_ h₂
    rintro done c - s s' - hdone hstep
    rw [definition_registerColumn hstep, hdone]
  have hlinks : s₃.definition
      = ⟨{}, d.tables.map (·.settled), d.columns, d.links.map (·.settled), .blank⟩ := by
    refine foldlM_keeps (P := fun done s => s.definition
      = ⟨{}, d.tables.map (·.settled), d.columns, done.map (·.settled), .blank⟩) hcolumns ?_ h₃
    rintro done l - s s' - hdone hstep
    obtain ⟨⟨s₁, n⟩, hone, rfl⟩ := map_eq_ok.mp hstep
    rw [definition_registerLink hone, hdone, List.map_append]
    rfl
  rw [definition_setConventions h, hlinks]
  rfl

/-! ## Both directions -/

/-- A registered schema without cycles is built by its definition, but for its limits; the links at
each table are the same, and every request compiles to the same. What a definition builds is defined
by this definition, without limits and with settled texts. -/
theorem definition_round_trip :
    (∀ s : Schema, s.Registered → s.validate = .ok () →
      s.definition.build = .ok s.unlimited ∧ s.unlimited.incident = s.incident ∧
      ∀ dialect caller options r,
        s.unlimited.compile dialect caller options r = s.compile dialect caller options r) ∧
    ∀ (d : Definition) (s : Schema), d.build = .ok s → s.definition = d.settled := by
  refine ⟨fun s hs hvalid => ⟨?_, s.incident_unlimited, s.compile_unlimited⟩, fun d s h => ?_⟩
  · rw [Definition.build, register_definition hs]
    have haccepted : s.unlimited.validate = .ok () := s.validate_unlimited.trans hvalid
    exact bind_eq_ok.mpr ⟨s.unlimited, rfl, bind_eq_ok.mpr ⟨(), haccepted, rfl⟩⟩
  · simp only [Definition.build, bind_eq_ok] at h
    obtain ⟨s', hregister, -, -, hs⟩ := h
    cases hs
    exact definition_register hregister

end Schema

/-- A definition with limits that are just reached and with blanks around its texts. -/
def Definition.spaced : Definition where
  limits := ⟨some 2, some 1, some 1⟩
  tables := [⟨"data", "  ", false⟩, ⟨"meta", " base  meta ", true⟩]
  columns := [⟨⟨7⟩, "meta", "label"⟩]
  links := [⟨"meta", "data", " data.id = meta.id\n"⟩]
  conventions := { Conventions.blank with canonicalOrder := [⟨7⟩] }

/-- The limits and the blanks are gone after the round trip. -/
theorem spaced_round_trip : ∃ s : Schema, Definition.spaced.build = .ok s ∧
    s.definition = Definition.spaced.settled ∧
    Definition.spaced.settled.build = .ok s.unlimited ∧ Definition.spaced.settled.limits = {} ∧
    Definition.spaced.settled.tables = [⟨"data", "", false⟩, ⟨"meta", "base  meta", true⟩] ∧
    Definition.spaced.settled.links = [⟨"meta", "data", "data.id = meta.id"⟩] := by
  obtain ⟨hbuilds, hdefines⟩ := Schema.definition_round_trip
  obtain ⟨s, hs⟩ := exists_of_isOk (x := Definition.spaced.build) (by decide +kernel)
  have hdefinition := hdefines .spaced s hs
  obtain ⟨s', hregister, hrest⟩ := bind_eq_ok.mp hs
  obtain ⟨⟨⟩, hvalid, hsame⟩ := bind_eq_ok.mp hrest
  cases hsame
  have hagain := (hbuilds s (Definition.registered_of_register hregister) hvalid).1
  rw [hdefinition] at hagain
  exact ⟨s, hs, hdefinition, hagain, rfl, by decide +kernel, by decide +kernel⟩

end CatalogQuery
