import CatalogQuery.Proofs.Compile.BindOrder
import CatalogQuery.Proofs.Compile.RequiredTables
import CatalogQuery.Proofs.Join.Reachable
import CatalogQuery.Proofs.Schema.Conventions

/-!
# What a request is refused for

On a registered schema a request compiles unless there is something wrong with the request itself:
a column that is not open to the caller, a condition that cannot be read, nothing to select, or
tables that cannot be joined. What the conventions refer to is never missing.

* `Schema.Opens`, `Schema.Withholds`: when a caller may use a column, and why not;
* `Schema.Rejects`: what is wrong with a request, in the order in which it is looked for;
* `Request.Requires`: the tables that a request requires, by the instances that it addresses;
* `Schema.compile_decided`: when a request compiles, and with which error it fails.
-/

namespace CatalogQuery

open Fallible

variable {s : Schema} {caller : Caller} {r : Request} {d : Draft} {t : TableId} {err : QueryError}

/-- The columns that a request names: those it selects, then those of its conditions. -/
def Request.columns (r : Request) : List ColumnId :=
  r.select.map (·.column) ++ r.conditions.map (·.column)

/-! ## Columns and conditions -/

namespace Schema

/-- No range keeps the column from the caller. -/
def Permits (s : Schema) (caller : Caller) (column : ColumnId) : Prop :=
  s.conventions.isRestricted column = true → caller.privilege.isLocalAdmin = true

/-- The caller may use the column, and it is registered. -/
def Opens (s : Schema) (caller : Caller) (column : ColumnId) : Prop :=
  s.Permits caller column ∧ s.HasColumn column

/-- Why a column is not open. Whether it is registered is not told to those who may not use it. -/
inductive Withholds (s : Schema) (caller : Caller) (column : ColumnId) : QueryError → Prop where
  | restricted : ¬s.Permits caller column → Withholds s caller column (.permissionDenied
    ("column " ++ toString column ++ " is restricted to local administrators"))
  | unknown : s.Permits caller column → ¬s.HasColumn column →
    Withholds s caller column (.unknownColumn column)

/-- The column of the condition is open, and its text is a condition. -/
def Admits (s : Schema) (caller : Caller) (c : RequestCondition) : Prop :=
  s.Opens caller c.column ∧ ∃ read, Condition.parse c.expression = .ok read

/-- Why a condition is not admitted. -/
inductive Declines (s : Schema) (caller : Caller) (c : RequestCondition) : QueryError → Prop where
  | withheld {err : QueryError} : s.Withholds caller c.column err → Declines s caller c err
  | unread {text reason : String} : s.Opens caller c.column →
    Condition.parse c.expression = .error (.conditionSyntax text reason) →
    Declines s caller c (.conditionSyntax text reason)

variable {column : ColumnId}

theorem restricted_iff : (s.conventions.isRestricted column && !caller.privilege.isLocalAdmin) = true ↔
    ¬s.Permits caller column := by
  simp [Permits]

theorem openColumn_eq_ok_iff (hs : s.Registered) :
    (∃ info, s.openColumn caller column = .ok info) ↔ s.Opens caller column := by
  rw [Opens, ← hs.columnInfo?_isSome_iff, openColumn]
  split
  · next hrestricted => simp [restricted_iff.mp hrestricted]
  · next hpermits =>
    rw [restricted_iff, Classical.not_not] at hpermits
    simp [hpermits, columnInfo_eq_ok]

theorem openColumn_eq_error_iff (hs : s.Registered) :
    s.openColumn caller column = .error err ↔ s.Withholds caller column err := by
  rw [openColumn]
  split
  · next hrestricted =>
    rw [restricted_iff] at hrestricted
    constructor
    · intro h
      cases h
      exact .restricted hrestricted
    · intro h
      cases h with
      | restricted _ => rfl
      | unknown hpermits _ => exact absurd hpermits hrestricted
  · next hpermits =>
    rw [restricted_iff, Classical.not_not] at hpermits
    have hknown : (∃ info, s.columnInfo? column = some info) ↔ s.HasColumn column :=
      hs.columnInfo?_isSome_iff
    unfold columnInfo
    constructor
    · intro h
      split at h
      · cases h
      · next hnone =>
        cases h
        exact .unknown hpermits fun hhas => by simp [hnone] at hknown; exact hknown hhas
    · intro h
      cases h with
      | restricted hrestricted => exact absurd hpermits hrestricted
      | unknown _ hunknown =>
        split
        · next info hsome => exact absurd (hknown.mp ⟨info, hsome⟩) hunknown
        · rfl

end Schema

/-- A text that is no condition is refused for its syntax. -/
theorem Condition.parse_eq_error {expression : String} (h : Condition.parse expression = .error err) :
    ∃ text reason, err = .conditionSyntax text reason := by
  have hsimple : ∀ {text : List Char}, parseSimpleChars text = .error err →
      ∃ text reason, err = .conditionSyntax text reason := by
    intro text h
    unfold parseSimpleChars at h
    cases hread : readSimple text with
    | ok c =>
      rw [hread] at h
      cases h
    | error fault =>
      rw [hread] at h
      cases h
      exact ⟨_, _, rfl⟩
  unfold parse at h
  dsimp only at h
  split at h
  · rcases bind_eq_error.mp h with h | ⟨c, -, h⟩
    · exact hsimple h
    · cases h
  · split at h
    · cases h
      exact ⟨_, _, rfl⟩
    · rcases bind_eq_error.mp h with h | ⟨left, -, h⟩
      · exact hsimple h
      · rcases bind_eq_error.mp h with h | ⟨right, -, h⟩
        · exact hsimple h
        · cases h

/-! ## Drafts -/

namespace Draft

theorem addSelect_eq_error (hs : s.Registered) (d : Draft) (c : SelectColumn) (err : QueryError) :
    d.addSelect s caller c = .error err ↔ s.Withholds caller c.column err := by
  rw [addSelect, bind_eq_error, Schema.openColumn_eq_error_iff hs]
  simp [pure, Except.pure]

theorem addCondition_eq_error (hs : s.Registered) (d : Draft) (c : RequestCondition)
    (err : QueryError) :
    d.addCondition s caller c.column c.expression = .error err ↔ s.Declines caller c err := by
  rw [addCondition, bind_eq_error, Schema.openColumn_eq_error_iff hs]
  constructor
  · rintro (hwithheld | ⟨info, hinfo, h⟩)
    · exact .withheld hwithheld
    · rcases bind_eq_error.mp h with h | ⟨c, -, h⟩
      · obtain ⟨text, reason, rfl⟩ := Condition.parse_eq_error h
        exact .unread ((Schema.openColumn_eq_ok_iff hs).mp ⟨info, hinfo⟩) h
      · rw [hs.lookUpPlace] at h
        cases h
  · intro h
    cases h with
    | withheld hwithheld => exact .inl hwithheld
    | unread hopens hparse =>
      obtain ⟨info, hinfo⟩ := (Schema.openColumn_eq_ok_iff hs).mpr hopens
      exact .inr ⟨info, hinfo, bind_eq_error.mpr (.inl hparse)⟩

end Draft

namespace Schema

/-- A column is open, or there is a reason why it is not. -/
theorem not_withholds_iff {column : ColumnId} :
    (∀ err, ¬s.Withholds caller column err) ↔ s.Opens caller column := by
  constructor
  · intro h
    have hpermits : s.Permits caller column := by
      by_contra hrestricted
      exact h _ (.restricted hrestricted)
    refine ⟨hpermits, ?_⟩
    by_contra hunknown
    exact h _ (.unknown hpermits hunknown)
  · rintro ⟨hpermits, hhas⟩ err hwithheld
    cases hwithheld with
    | restricted hrestricted => exact hrestricted hpermits
    | unknown _ hunknown => exact hunknown hhas

theorem not_declines_iff {c : RequestCondition} :
    (∀ err, ¬s.Declines caller c err) ↔ s.Admits caller c := by
  constructor
  · intro h
    have hopens : s.Opens caller c.column := not_withholds_iff.mp fun err hwithheld => h err (.withheld hwithheld)
    refine ⟨hopens, ?_⟩
    cases hparse : Condition.parse c.expression with
    | ok read => exact ⟨read, rfl⟩
    | error err =>
      obtain ⟨text, reason, rfl⟩ := Condition.parse_eq_error hparse
      exact absurd (.unread hopens hparse) (h _)
  · rintro ⟨hopens, read, hread⟩ err hdeclined
    cases hdeclined with
    | withheld hwithheld => exact not_withholds_iff.mpr hopens err hwithheld
    | unread _ hparse => cases hread.symm.trans hparse

/-- A request has a draft iff all its columns are open and all its conditions can be read. -/
theorem draft_isOk_iff (hs : s.Registered) :
    (∃ d, s.draft caller r = .ok d) ↔
      (∀ c ∈ r.select, s.Opens caller c.column) ∧ ∀ c ∈ r.conditions, s.Admits caller c := by
  constructor
  · rintro ⟨d, hd⟩
    constructor
    · intro c hc
      obtain ⟨selected, -, -, hopen⟩ := exists_right_of_forall₂ (Draft.selects_of_draft hd) hc
      exact (openColumn_eq_ok_iff hs).mp ⟨_, hopen⟩
    · intro c hc
      obtain ⟨read, -, hopen, hparse⟩ := exists_right_of_forall₂ (Draft.conditions_of_draft hd) hc
      exact ⟨(openColumn_eq_ok_iff hs).mp ⟨_, hopen⟩, _, hparse⟩
  · rintro ⟨hselect, hconditions⟩
    obtain ⟨selects, hselects⟩ : ∃ selects,
        List.Forall₂ (Draft.Selects s caller) r.select selects := by
      refine exists_forall₂ fun c hc => ?_
      obtain ⟨info, hinfo⟩ := (openColumn_eq_ok_iff hs).mpr (hselect c hc)
      exact ⟨(c, info), rfl, hinfo⟩
    obtain ⟨conditions, hreads⟩ : ∃ conditions,
        List.Forall₂ (Draft.Reads s caller) r.conditions conditions := by
      refine exists_forall₂ fun c hc => ?_
      obtain ⟨hopens, read, hread⟩ := hconditions c hc
      obtain ⟨info, hinfo⟩ := (openColumn_eq_ok_iff hs).mpr hopens
      exact ⟨(read, info), hinfo, hread⟩
    exact ⟨_, draft_eq_ok.mpr
      ⟨selects, conditions, hselects, hreads, hs.places conditions, rfl⟩⟩

end Schema

/-! ## Required tables -/

/-- Conditions on these columns, in this order, address the instance `index` of the layout at position
`i`. The k-th name is looked up in instance k; the k-th value belongs to the k-th name if there is
one, and else to the first instance. -/
def Conventions.Addresses (c : Conventions) (columns : List ColumnId) (i index : Nat) : Prop :=
  ∃ before column after, columns = before ++ column :: after ∧
    let names := fun x => (c.role x).isNameOf i
    let values := fun x => (c.role x).isValueOf i
    (names column = true ∧ index = before.countP names + 1 ∨
      values column = true ∧
        index = if before.countP values + 1 ≤ columns.countP names then before.countP values + 1 else 1)

/-- The tables that a request requires: those of its selects and of its ordinary conditions, the
attribute table of a layout whose first instance it addresses, and the objects of a layout of which it
addresses another one. -/
inductive Request.Requires (r : Request) (s : Schema) (t : TableId) : Prop where
  | select {c : SelectColumn} {info : ColumnInfo} : c ∈ r.select →
    s.columnInfo? c.column = some info → info.tableId = t → Requires r s t
  | plain {c : RequestCondition} {info : ColumnInfo} : c ∈ r.conditions →
    s.conventions.role c.column = .plain → s.columnInfo? c.column = some info → info.tableId = t →
    Requires r s t
  | attributes {i : Nat} {layout : AttributeJoin} : s.conventions.attributeJoins[i]? = some layout →
    s.conventions.Addresses (r.conditions.map (·.column)) i 1 →
    s.tableId? layout.metaBinding = some t → Requires r s t
  | objects {i index : Nat} {layout : AttributeJoin} : s.conventions.attributeJoins[i]? = some layout →
    2 ≤ index → s.conventions.Addresses (r.conditions.map (·.column)) i index →
    s.tableId? layout.objectTable = some t → Requires r s t

theorem Draft.map_conditions_of_draft (hd : s.draft caller r = .ok d) :
    d.conditions.map (·.2.id) = r.conditions.map (·.column) := by
  have hreads := conditions_of_draft hd
  generalize r.conditions = asked, d.conditions = read at hreads
  induction hreads with
  | nil => rfl
  | cons hread _ ih =>
    rw [List.map_cons, List.map_cons, ih, (Schema.columnInfo?_eq_some (Schema.openColumn_eq_ok hread.1)).1]

theorem Role.isNameOf_iff {i : Nat} {role : Role} :
    role.isNameOf i = true ↔ ∃ layout, role = .name i layout := by
  cases role with
  | name j layout => simp [isNameOf]
  | _ => simp [isNameOf]

theorem Role.isValueOf_iff {i : Nat} {role : Role} :
    role.isValueOf i = true ↔ ∃ layout, role = .value i layout := by
  cases role with
  | value j layout => simp [isValueOf]
  | _ => simp [isValueOf]

/-- The names and the values of a layout stand on its attribute table. -/
theorem Schema.Registered.tableId?_meta (hs : s.Registered) {i : Nat} {layout : AttributeJoin}
    {info : ColumnInfo} (hinfo : s.columnInfo? info.id = some info)
    (hrole : s.conventions.role info.id = .name i layout ∨
      s.conventions.role info.id = .value i layout) :
    s.conventions.attributeJoins[i]? = some layout ∧
      s.tableId? layout.metaBinding = some info.tableId := by
  rcases hrole with hrole | hrole
  · obtain ⟨hlayout, hcolumn⟩ := Conventions.role_name hrole
    obtain ⟨info', hinfo', ht⟩ :=
      (hs.holdsConventions.layouts layout (List.mem_of_getElem? hlayout)).names
    rw [hcolumn, hinfo] at hinfo'
    cases hinfo'
    exact ⟨hlayout, ht⟩
  · obtain ⟨hlayout, hcolumn⟩ := Conventions.role_value hrole
    obtain ⟨info', hinfo', ht⟩ :=
      (hs.holdsConventions.layouts layout (List.mem_of_getElem? hlayout)).values
    rw [hcolumn, hinfo] at hinfo'
    cases hinfo'
    exact ⟨hlayout, ht⟩

namespace Draft

/-- A condition on a layout is placed in an instance that the conditions address. -/
theorem addresses_of_placed {p : Placed} {i : Nat} {layout : AttributeJoin} (hp : p ∈ d.placed s)
    (hrole : p.role = .name i layout ∨ p.role = .value i layout) :
    ∃ index, 1 ≤ index ∧ s.conventions.Addresses (d.conditions.map (·.2.id)) i index ∧
      p.place = .ofIndex layout index := by
  obtain ⟨pre, c, post, hsplit, rfl⟩ := mem_placeAll.mp hp
  dsimp only at hrole ⊢
  have hcolumns : d.conditions.map (·.2.id) = pre.map (·.2.id) ++ c.2.id :: post.map (·.2.id) := by
    simp [hsplit]
  rcases hrole with hrole | hrole
  · refine ⟨_, Nat.le_add_left 1 _, ⟨_, c.2.id, _, hcolumns, .inl ⟨?_, rfl⟩⟩, ?_⟩
    · simp [hrole, Role.isNameOf]
    · simp [hrole, Role.place, List.countP_map, Function.comp_def]
  · refine ⟨_, ?_, ⟨_, c.2.id, _, hcolumns, .inr ⟨?_, rfl⟩⟩, ?_⟩
    · split <;> omega
    · simp [hrole, Role.isValueOf]
    · simp [hrole, Role.place, roles, List.countP_map, Function.comp_def]

theorem placed_of_addresses {i index : Nat}
    (h : s.conventions.Addresses (d.conditions.map (·.2.id)) i index) :
    ∃ p ∈ d.placed s, ∃ layout, (p.role = .name i layout ∨ p.role = .value i layout) ∧
      p.place = .ofIndex layout index := by
  obtain ⟨before, column, after, hcolumns, h⟩ := h
  obtain ⟨pre, rest, hsplit, rfl, hrest⟩ := List.map_eq_append_iff.mp hcolumns
  obtain ⟨c, post, rfl, rfl, rfl⟩ := List.map_eq_cons_iff.mp hrest
  refine ⟨_, mem_placeAll.mpr ⟨pre, c, post, hsplit, rfl⟩, ?_⟩
  dsimp only at h ⊢
  rcases h with ⟨hname, rfl⟩ | ⟨hvalue, rfl⟩
  · obtain ⟨layout, hrole⟩ := Role.isNameOf_iff.mp hname
    refine ⟨layout, .inl hrole, ?_⟩
    simp [hrole, Role.place, List.countP_map, Function.comp_def]
  · obtain ⟨layout, hrole⟩ := Role.isValueOf_iff.mp hvalue
    refine ⟨layout, .inr hrole, ?_⟩
    simp [hrole, Role.place, roles, List.countP_map, Function.comp_def]

theorem role_of_placed {p : Placed} (hp : p ∈ d.placed s) :
    p.role = s.conventions.role p.info.id ∧ (p.role = .plain → p.place = .own) := by
  obtain ⟨pre, c, post, -, rfl⟩ := mem_placeAll.mp hp
  refine ⟨rfl, fun hrole => ?_⟩
  dsimp only at hrole ⊢
  rw [hrole]
  rfl

/-- The table of an addressed instance: the attribute table for the first one, else the objects. -/
theorem requiredTable_of_index {p : Placed} {layout : AttributeJoin} {index : Nat}
    (hplace : p.place = .ofIndex layout index) :
    p.requiredTable s = if index ≤ 1 then some p.info.tableId else s.tableId? layout.objectTable := by
  obtain ⟨c, info, role, place⟩ := p
  dsimp only at hplace
  rw [hplace, requiredTable_ofIndex]

/-- A selected column of the draft is one of the request. -/
theorem exists_selected_iff (hd : s.draft caller r = .ok d) :
    (∃ c ∈ d.selects, c.2.tableId = t) ↔
      ∃ c ∈ r.select, ∃ info, s.columnInfo? c.column = some info ∧ info.tableId = t := by
  constructor
  · rintro ⟨selected, hmem, rfl⟩
    obtain ⟨c, hc, -, hopen⟩ := exists_of_forall₂ (selects_of_draft hd) hmem
    exact ⟨c, hc, _, Schema.openColumn_eq_ok hopen, rfl⟩
  · rintro ⟨c, hc, info, hinfo, rfl⟩
    obtain ⟨selected, hmem, -, hopen⟩ := exists_right_of_forall₂ (selects_of_draft hd) hc
    have heq := (Schema.openColumn_eq_ok hopen).symm.trans hinfo
    exact ⟨selected, hmem, by rw [Option.some.inj heq]⟩

/-- A placed condition requires what its role asks for. -/
theorem requires_of_placed (hs : s.Registered) (hd : s.draft caller r = .ok d) {p : Placed}
    (hp : p ∈ d.placed s) (ht : p.requiredTable s = some t) : r.Requires s t := by
  obtain ⟨hrole, hplain⟩ := role_of_placed hp
  have hcondition := mem_conditions_of_placed hp
  have hinfo : s.columnInfo? p.info.id = some p.info := (known_of_draft hd).conditions _ hcondition
  have hlayout : ∀ {i layout}, p.role = .name i layout ∨ p.role = .value i layout →
      r.Requires s t := by
    intro i layout hname
    obtain ⟨index, hpos, haddressed, hplace⟩ := addresses_of_placed hp hname
    obtain ⟨hregistered, hmeta⟩ := hs.tableId?_meta hinfo (hrole ▸ hname)
    rw [map_conditions_of_draft hd] at haddressed
    rw [requiredTable_of_index hplace] at ht
    split at ht
    · obtain rfl : index = 1 := by omega
      exact .attributes hregistered haddressed (hmeta.trans ht)
    · exact .objects hregistered (by omega) haddressed ht
  cases hkind : p.role with
  | plain =>
    obtain ⟨c, hc, hopen, -⟩ := exists_of_forall₂ (conditions_of_draft hd) hcondition
    have hcolumn := Schema.openColumn_eq_ok hopen
    have hid := (Schema.columnInfo?_eq_some hcolumn).1
    rw [Placed.requiredTable_own (hplain hkind)] at ht
    exact .plain hc (by rw [← hid, ← hrole, hkind]) hcolumn (Option.some.inj ht)
  | name i layout => exact hlayout (.inl hkind)
  | value i layout => exact hlayout (.inr hkind)

/-- What is required is found on a registered schema: a draft requires the tables that its request
requires. -/
theorem mem_requirements_iff (hs : s.Registered) (hd : s.draft caller r = .ok d) :
    t ∈ (d.requirements s).tables ↔ r.Requires s t := by
  rw [mem_requirements, exists_selected_iff hd]
  constructor
  · rintro (⟨c, hc, info, hinfo, ht⟩ | ⟨p, hp, ht⟩)
    · exact .select hc hinfo ht
    · exact requires_of_placed hs hd hp ht
  · have hlayout : ∀ {i index}, s.conventions.Addresses (r.conditions.map (·.column)) i index →
        ∃ p ∈ d.placed s, ∃ layout, s.conventions.attributeJoins[i]? = some layout ∧
          s.tableId? layout.metaBinding = some p.info.tableId ∧ p.place = .ofIndex layout index := by
      intro i index haddressed
      rw [← map_conditions_of_draft hd] at haddressed
      obtain ⟨p, hp, layout, hname, hplace⟩ := placed_of_addresses haddressed
      have hinfo : s.columnInfo? p.info.id = some p.info :=
        (known_of_draft hd).conditions _ (mem_conditions_of_placed hp)
      obtain ⟨hregistered, hmeta⟩ := hs.tableId?_meta hinfo ((role_of_placed hp).1 ▸ hname)
      exact ⟨p, hp, layout, hregistered, hmeta, hplace⟩
    intro h
    cases h with
    | @select c info hc hinfo ht => exact .inl ⟨c, hc, info, hinfo, ht⟩
    | plain hc hrole hinfo ht =>
      obtain ⟨c, hmem, hopen, -⟩ := exists_right_of_forall₂ (conditions_of_draft hd) hc
      obtain rfl := Option.some.inj ((Schema.openColumn_eq_ok hopen).symm.trans hinfo)
      rw [← d.map_placed (s := s)] at hmem
      obtain ⟨p, hp, rfl⟩ := List.mem_map.mp hmem
      obtain ⟨hplaced, hplain⟩ := role_of_placed hp
      rw [← (Schema.columnInfo?_eq_some hinfo).1] at hrole
      exact .inr ⟨p, hp, by rw [Placed.requiredTable_own (hplain (hplaced.trans hrole)), ← ht]⟩
    | attributes hregistered haddressed ht =>
      obtain ⟨p, hp, layout, hregistered', hmeta, hplace⟩ := hlayout haddressed
      obtain rfl := Option.some.inj (hregistered'.symm.trans hregistered)
      refine .inr ⟨p, hp, ?_⟩
      rw [requiredTable_of_index hplace, if_pos (Nat.le_refl 1), ← hmeta, ht]
    | objects hregistered hindex haddressed ht =>
      obtain ⟨p, hp, layout, hregistered', -, hplace⟩ := hlayout haddressed
      obtain rfl := Option.some.inj (hregistered'.symm.trans hregistered)
      refine .inr ⟨p, hp, ?_⟩
      rw [requiredTable_of_index hplace, if_neg (by omega), ht]

end Draft

/-! ## The decision -/

namespace Schema

/-- What is wrong with a request. Its selects are looked at first, then its conditions, both in order;
then whether it selects anything, and last whether the tables that it requires can be joined. -/
inductive Rejects (s : Schema) (caller : Caller) (r : Request) : QueryError → Prop where
  | select {before after : List SelectColumn} {c : SelectColumn} {err : QueryError} :
    r.select = before ++ c :: after → (∀ x ∈ before, s.Opens caller x.column) →
    s.Withholds caller c.column err → Rejects s caller r err
  | condition {before after : List RequestCondition} {c : RequestCondition} {err : QueryError} :
    (∀ x ∈ r.select, s.Opens caller x.column) → r.conditions = before ++ c :: after →
    (∀ x ∈ before, s.Admits caller x) → s.Declines caller c err → Rejects s caller r err
  | nothing : (∀ x ∈ r.conditions, s.Admits caller x) → r.select = [] →
    Rejects s caller r (.invalidRequest "select list is empty")
  | unlinked {q : Requirements} {names : List String} :
    (∀ x ∈ r.select, s.Opens caller x.column) → (∀ x ∈ r.conditions, s.Admits caller x) →
    r.select ≠ [] → q.Asked s → (∀ t, t ∈ q.tables ↔ r.Requires s t) →
    (s.resolve q).1 = .error (.unlinkedTables names) → Rejects s caller r (.unlinkedTables names)

theorem draft_rejected (hs : s.Registered) (h : s.draft caller r = .error err) :
    s.Rejects caller r err := by
  unfold draft at h
  rcases bind_eq_error.mp h with h | ⟨d, hselects, h⟩
  · obtain ⟨before, c, after, hsplit, hbefore, hwithheld⟩ :=
      (foldlM_eq_error (Draft.addSelect_eq_error hs)).mp h
    exact .select hsplit (fun x hx => not_withholds_iff.mp (hbefore x hx)) hwithheld
  · obtain ⟨before, c, after, hsplit, hbefore, hdeclined⟩ :=
      (foldlM_eq_error (Draft.addCondition_eq_error hs)).mp h
    obtain ⟨selects, hselects, -⟩ := Draft.addSelects_eq_ok.mp hselects
    refine .condition (fun x hx => ?_) hsplit (fun x hx => not_declines_iff.mp (hbefore x hx)) hdeclined
    obtain ⟨selected, -, -, hopen⟩ := exists_right_of_forall₂ hselects hx
    exact (openColumn_eq_ok_iff hs).mp ⟨_, hopen⟩

theorem resolve_eq_error {q : Requirements} (h : (s.resolve q).1 = .error err) :
    ∃ names, err = .unlinkedTables names := by
  unfold resolve at h
  dsimp only at h
  split at h
  · cases h
    exact ⟨_, rfl⟩
  · cases h

theorem compile_rejected (hs : s.Registered) {dialect : Sql.Dialect} {options : CompileOptions}
    (h : s.compile dialect caller options r = .error err) : s.Rejects caller r err := by
  rcases bind_eq_error.mp h with h | ⟨d, hd, h⟩
  · exact draft_rejected hs h
  · obtain ⟨hselect, hconditions⟩ := (draft_isOk_iff hs).mp ⟨d, hd⟩
    have hempty : d.selects = [] ↔ r.select = [] := by
      rw [← Draft.map_selects_of_draft hd, List.map_eq_nil_iff]
    have h := map_eq_error.mp h
    by_cases hnothing : d.selects = []
    · rw [Draft.complete, hnothing] at h
      cases h
      exact .nothing hconditions (hempty.mp hnothing)
    · rw [(hs.found d caller options).complete_eq hnothing, map_eq_error] at h
      obtain ⟨names, rfl⟩ := resolve_eq_error h
      exact .unlinked hselect hconditions (fun hnil => hnothing (hempty.mpr hnil))
        (Draft.requirements_asked (Draft.known_of_draft hd))
        (fun t => Draft.mem_requirements_iff hs hd) h

/-- An error of the schema is about a column that the request names. -/
theorem Rejects.unknownColumn (h : s.Rejects caller r err) (hkind : err.kind = .schema) :
    ∃ column ∈ r.columns, err = .unknownColumn column := by
  have hwithheld : ∀ {column}, column ∈ r.columns → s.Withholds caller column err →
      ∃ column ∈ r.columns, err = .unknownColumn column := by
    intro column hcolumn h
    cases h with
    | restricted _ => cases hkind
    | unknown _ _ => exact ⟨column, hcolumn, rfl⟩
  cases h with
  | @select before after c _ hsplit _ h => exact hwithheld (by simp [Request.columns, hsplit]) h
  | @condition before after c _ _ hsplit _ h =>
    cases h with
    | withheld h => exact hwithheld (by simp [Request.columns, hsplit]) h
    | unread _ _ => cases hkind
  | nothing _ _ => cases hkind
  | unlinked _ _ _ _ _ _ => cases hkind

/-- On a registered schema all that the conventions refer to is found. A request compiles iff its
columns are registered and permitted to the caller, its conditions can be read, it selects something,
and the tables that it requires can be joined; else it fails with the first thing that is wrong with
it, and never for something that it does not name. -/
theorem compile_decided (hs : s.Registered) (dialect : Sql.Dialect) (caller : Caller)
    (options : CompileOptions) (r : Request) :
    s.HoldsConventions s.conventions ∧
    ((∃ c, s.compile dialect caller options r = .ok c) ↔
      (∀ column ∈ r.columns, s.HasColumn column) ∧ (∀ column ∈ r.columns, s.Permits caller column) ∧
      (∀ c ∈ r.conditions, ∃ read, Condition.parse c.expression = .ok read) ∧ r.select ≠ [] ∧
      ∃ q : Requirements, q.Asked s ∧ (∀ t, t ∈ q.tables ↔ r.Requires s t) ∧
        ∃ links, (s.resolve q).1 = .ok links) ∧
    ∀ err, s.compile dialect caller options r = .error err →
      s.Rejects caller r err ∧
      (err.kind = .schema → ∃ column ∈ r.columns, err = .unknownColumn column) := by
  refine ⟨hs.holdsConventions, ?_, fun err h => ?_⟩
  · have hchecks : (∃ d, s.draft caller r = .ok d) ↔
        (∀ column ∈ r.columns, s.HasColumn column) ∧ (∀ column ∈ r.columns, s.Permits caller column) ∧
        ∀ c ∈ r.conditions, ∃ read, Condition.parse c.expression = .ok read := by
      rw [draft_isOk_iff hs]
      simp only [Request.columns, List.forall_mem_append, List.forall_mem_map, Opens, Admits]
      grind
    constructor
    · rintro ⟨c, hc⟩
      obtain ⟨d, hd, hsome, links, hlinks, -, -⟩ := compile_eq_ok.mp hc
      obtain ⟨hhas, hpermits, hread⟩ := hchecks.mp ⟨d, hd⟩
      refine ⟨hhas, hpermits, hread, ?_, d.requirements s,
        Draft.requirements_asked (Draft.known_of_draft hd), fun t => Draft.mem_requirements_iff hs hd,
        links, hlinks⟩
      rwa [← Draft.map_selects_of_draft hd, ne_eq, List.map_eq_nil_iff]
    · rintro ⟨hhas, hpermits, hread, hsome, q, hq, hrequired, hlinked⟩
      obtain ⟨d, hd⟩ := hchecks.mpr ⟨hhas, hpermits, hread⟩
      rw [← Draft.map_selects_of_draft hd, ne_eq, List.map_eq_nil_iff] at hsome
      have hsame : ∀ t, t ∈ (d.requirements s).tables ↔ t ∈ q.tables := fun t => by
        rw [Draft.mem_requirements_iff hs hd, hrequired]
      obtain ⟨links, hlinks⟩ := resolve_ok_of_same hs.wellFormed hq
        (Draft.requirements_asked (Draft.known_of_draft hd)) hsame hlinked
      exact ⟨_, compile_eq_ok.mpr
        ⟨d, hd, hsome, links, hlinks, rfl, hs.found d caller options⟩⟩
  · have hrejected := compile_rejected hs h
    exact ⟨hrejected, hrejected.unknownColumn⟩

theorem registered_labelled : Schema.labelled.Registered := by
  have hcolumn : Schema.roundabout.registerColumn ⟨3⟩ "meta" "value" =
      .ok { Schema.roundabout with columns := Schema.labelled.columns } := by decide +kernel
  refine .conventions (.column registered_roundabout hcolumn) (c := Schema.labelled.conventions) ?_
  decide +kernel

/-- Two labels can be asked for; with a column that there is not they are refused for this column,
whatever else they lack. -/
theorem twoLabels_decided :
    (∃ q : Requirements, q.Asked .labelled ∧
      (∀ t, t ∈ q.tables ↔ Request.twoLabels.Requires .labelled t) ∧
      ∃ links, (Schema.labelled.resolve q).1 = .ok links) ∧
    Schema.labelled.Rejects ⟨"alice", "north", .localUser⟩
      { Request.twoLabels with
        select := [⟨⟨1⟩, .none, .asc⟩, ⟨⟨9⟩, .none, .asc⟩]
        conditions := [⟨⟨8⟩, "= 'mass'"⟩, ⟨⟨2⟩, "mass"⟩] } (.unknownColumn ⟨9⟩) := by
  constructor
  · obtain ⟨-, hdecided, -⟩ := compile_decided registered_labelled .postgres
      ⟨"alice", "north", .localUser⟩ {} .twoLabels
    obtain ⟨-, -, -, -, hlinked⟩ := hdecided.mp (exists_of_isOk (by decide +kernel))
    exact hlinked
  · obtain ⟨-, -, hrejected⟩ := compile_decided registered_labelled .postgres
      ⟨"alice", "north", .localUser⟩ {}
      { Request.twoLabels with
        select := [⟨⟨1⟩, .none, .asc⟩, ⟨⟨9⟩, .none, .asc⟩]
        conditions := [⟨⟨8⟩, "= 'mass'"⟩, ⟨⟨2⟩, "mass"⟩] }
    exact (hrejected _ (by decide +kernel)).1

end Schema

end CatalogQuery
