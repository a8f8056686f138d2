import CatalogQuery.Proofs.Compile.AttributeSelection
import CatalogQuery.Proofs.Compile.RequiredTables

/-!
# Searching data objects by attributes

A search for data objects by attributes compiles to the statement of its selection. A name takes an
attribute row of its own as it comes; a value waits until all names are there. The first attribute row
is joined by the schema, the others bring their own joins along.

* `Standard.lookups_eq`: what a search finds in the standard schema;
* `AttributeTest.placed_eq`: each test has its place, in whatever order the tests come;
* `AttributeTest.instancesOf_eq`: the instances beyond the first attribute row;
* `AttributeTest.requirements_eq`, `AttributeTest.resolve_eq`: the tables that are joined, and how;
* `AttributeTest.compile_eq`: the statement of a search.
-/

namespace CatalogQuery

open Sql Fallible

/-! ## The standard schema -/

namespace Standard

/-- What a search looks up in a schema: the columns of ids, names and values, and the joins from
objects to attribute rows. -/
structure Lookups where
  restricted : Bool
  dataId : Option ColumnInfo
  name : Option ColumnInfo
  value : Option ColumnInfo
  roles : List Role
  objects : Option TableId
  sources : List String
  links : List (Option Link)
  alone : Option (List LinkId)
  joined : Option (List LinkId)
  canonical : Bool
  deriving DecidableEq

def metaTable : Table := ⟨"r_data_meta_main", "r_meta_main r_data_meta_main", false⟩

def idInfo : ColumnInfo := ⟨⟨401⟩, 4, ⟨"r_data_main", "r_data_main", false⟩, "data_id"⟩

def nameInfo : ColumnInfo := ⟨⟨600⟩, 6, metaTable, "meta_attr_name"⟩

def valueInfo : ColumnInfo := ⟨⟨601⟩, 6, metaTable, "meta_attr_value"⟩

/-- The object of a search is required, and nothing else. -/
def objectRequired : Requirements := Requirements.empty.require 4

/-- Attribute rows are required as well. -/
def rowsRequired : Requirements := objectRequired.require 6

def lookups (s : Schema) : Lookups where
  restricted := [401, 600, 601].any fun n => s.conventions.isRestricted ⟨n⟩
  dataId := s.columnInfo? ⟨401⟩
  name := s.columnInfo? ⟨600⟩
  value := s.columnInfo? ⟨601⟩
  roles := [401, 600, 601].map fun n => s.conventions.role ⟨n⟩
  objects := s.tableId? dataLayout.objectTable
  sources := [4, 5, 6].map s.source
  links := [2, 1].map (s.links[·]?)
  alone := (s.resolve objectRequired).1.toOption
  joined := (s.resolve rowsRequired).1.toOption
  canonical := s.conventions.canonicalOrder.contains ⟨401⟩

/-- What is found in the standard schema. -/
def found : Lookups where
  restricted := false
  dataId := some idInfo
  name := some nameInfo
  value := some valueInfo
  roles := [.plain, .name 0 dataLayout, .value 0 dataLayout]
  objects := some 4
  sources := [Slot.object.source.text, (Slot.map 0).source.text, (Slot.row 0).source.text]
  links := [some ⟨5, 6, "r_data_metamap.meta_id = r_data_meta_main.meta_id"⟩,
    some ⟨4, 5, "r_data_main.data_id = r_data_metamap.object_id"⟩]
  alone := some []
  joined := some [2, 1]
  canonical := false

theorem lookups_eq {s : Schema} (hs : schema = .ok s) : lookups s = found := by
  have hcomputed : schema.toOption.map lookups = some found := by decide +kernel
  rw [hs] at hcomputed
  exact Option.some.inj hcomputed

theorem registered {s : Schema} (hs : schema = .ok s) : s.Registered := by
  obtain ⟨s', hregister, hs⟩ := bind_eq_ok.mp hs
  obtain ⟨_, -, hs⟩ := bind_eq_ok.mp hs
  cases hs
  exact Definition.registered_of_register hregister

end Standard

/-! ## The draft -/

namespace AttributeTest

open Standard Slot

variable {s : Schema} {ts : List AttributeTest}

def info : AttributeTest → ColumnInfo
  | name _ => nameInfo
  | value _ => valueInfo

def role : AttributeTest → Role
  | name _ => .name 0 dataLayout
  | value _ => .value 0 dataLayout

/-- The draft of a search. -/
def draft (order : SortOrder) (ts : List AttributeTest) : Draft :=
  .ofItems [(⟨⟨401⟩, .none, order⟩, idInfo)] (ts.map fun t => (t.condition, t.info))

theorem openColumn_eq {caller : Caller} {c : ColumnId} {info : ColumnInfo}
    (hrestricted : s.conventions.isRestricted c = false) (hinfo : s.columnInfo? c = some info) :
    s.openColumn caller c = .ok info := by
  simp [Schema.openColumn, hrestricted, Schema.columnInfo, hinfo]

theorem draft_eq (hs : schema = .ok s) (caller : Caller) {r : Request} {order : SortOrder}
    (hr : r.Searches order ts) : s.draft caller r = .ok (draft order ts) := by
  have hfound := lookups_eq hs
  have hopen : ∀ n ∈ [401, 600, 601], s.conventions.isRestricted ⟨n⟩ = false := by
    have hany : ([401, 600, 601].any fun n => s.conventions.isRestricted ⟨n⟩) = false :=
      congrArg Lookups.restricted hfound
    simpa using hany
  have hid : s.openColumn caller ⟨401⟩ = .ok idInfo :=
    openColumn_eq (hopen 401 (by simp)) (congrArg Lookups.dataId hfound)
  have hinfo : ∀ t : AttributeTest, s.openColumn caller t.column = .ok t.info := by
    intro t
    cases t with
    | name => exact openColumn_eq (hopen 600 (by simp)) (congrArg Lookups.name hfound)
    | value => exact openColumn_eq (hopen 601 (by simp)) (congrArg Lookups.value hfound)
  rw [Schema.draft_eq_ok]
  refine ⟨_, _, ?_, ?_, (registered hs).places _, rfl⟩
  · rw [hr.select]
    exact .cons ⟨rfl, hid⟩ .nil
  · rw [List.forall₂_map_right_iff]
    refine hr.conditions.imp fun c t hc => ⟨?_, hc.2⟩
    rw [hc.1]
    exact hinfo t

/-! ## Places -/

/-- The tests at their places, behind `i` names and `j` values. -/
def placedFrom (m : Nat) : Nat → Nat → List AttributeTest → List Placed
  | _, _, [] => []
  | i, j, name n :: ts =>
    ⟨(name n).condition, nameInfo, .name 0 dataLayout, .ofIndex dataLayout (i + 1)⟩
      :: placedFrom m (i + 1) j ts
  | i, j, value v :: ts =>
    ⟨(value v).condition, valueInfo, .value 0 dataLayout,
        .ofIndex dataLayout (rowOfValue m j + 1)⟩
      :: placedFrom m i (j + 1) ts

theorem role_info (hs : schema = .ok s) (t : AttributeTest) :
    s.conventions.role t.info.id = t.role := by
  have hroles : [401, 600, 601].map (fun n => s.conventions.role ⟨n⟩)
      = [.plain, .name 0 dataLayout, .value 0 dataLayout] := congrArg Lookups.roles (lookups_eq hs)
  simp only [List.map_cons, List.map_nil, List.cons.injEq, and_true] at hroles
  cases t with
  | name => exact hroles.2.1
  | value => exact hroles.2.2

theorem place_name {all before : List Role} {n : String} :
    (name n).role.place before all
      = .ofIndex dataLayout (before.countP (·.isNameOf 0) + 1) := rfl

theorem place_value {all before : List Role} {v : String} :
    (value v).role.place before all = .ofIndex dataLayout
      (rowOfValue (all.countP (·.isNameOf 0)) (before.countP (·.isValueOf 0)) + 1) := by
  have hnumber : ∀ j m : Nat, (if j + 1 ≤ m then j + 1 else 1) = rowOfValue m j + 1 := by
    intro j m
    unfold rowOfValue
    by_cases h : j < m
    · rw [if_pos h, if_pos (Nat.succ_le_of_lt h)]
    · rw [if_neg h, if_neg fun hle => h (Nat.lt_of_succ_le hle)]
  exact congrArg (Place.ofIndex dataLayout) (hnumber _ _)

theorem placeAll_eq (hs : schema = .ok s) {all before : List Role} :
    placeAll s.conventions all before (ts.map fun t => (t.condition, t.info))
      = placedFrom (all.countP (·.isNameOf 0)) (before.countP (·.isNameOf 0))
        (before.countP (·.isValueOf 0)) ts := by
  induction ts generalizing before with
  | nil => rfl
  | cons t ts ih =>
    rw [List.map_cons, placeAll, role_info hs, ih]
    cases t with
    | name n =>
      rw [place_name]
      simp [placedFrom, info, role, List.countP_append, Role.isNameOf, Role.isValueOf]
    | value v =>
      rw [place_value]
      simp [placedFrom, info, role, List.countP_append, Role.isNameOf, Role.isValueOf]

theorem countP_names : (ts.map role).countP (·.isNameOf 0) = (names ts).length := by
  induction ts with
  | nil => rfl
  | cons t ts ih =>
    cases t with
    | name n => simpa [names, role, Role.isNameOf] using ih
    | value v => simpa [names, role, Role.isNameOf] using ih

theorem placed_eq (hs : schema = .ok s) (order : SortOrder) :
    (draft order ts).placed s = placedFrom (names ts).length 0 0 ts := by
  have hroles : (draft order ts).conditions.map (fun c => s.conventions.role c.2.id)
      = ts.map role := by
    simp [draft, Function.comp_def, role_info hs]
  rw [Draft.placed, Draft.roles, hroles, ← countP_names, draft, Draft.conditions_ofItems]
  exact placeAll_eq hs

/-! ## Terms -/

theorem columnText_eq {c : Condition} {x : ColumnInfo} {r : Role} (hx : x.table = metaTable)
    (k : Nat) : Placed.columnText ⟨c, x, r, .ofIndex dataLayout (k + 1)⟩
      = SourceColumn.text ⟨(row k).binding, x.name⟩ := by
  cases k with
  | zero =>
    simp [Placed.columnText, Place.ofIndex, ColumnInfo.qualified, hx, metaTable, SourceColumn.text,
      suffix]
  | succ k => simp [Placed.columnText, Place.ofIndex, SourceColumn.text, binding]

theorem term_eq {t : AttributeTest} {x : ColumnInfo} {r : Role} (hx : x.table = metaTable) (k : Nat)
    (dialect : Dialect) :
    Placed.term ⟨t.condition, x, r, .ofIndex dataLayout (k + 1)⟩ dialect
      = (Equation.literal ⟨(row k).binding, x.name⟩ t.literal).term := by
  simp [Placed.term, condition, SimpleCondition.render, SimpleCondition.operands, columnText_eq hx,
    Operator.sql, Equation.term, String.append_assoc]

theorem terms_placedFrom (dialect : Dialect) (m i j : Nat) :
    (placedFrom m i j ts).map (·.term dialect) = (equations m i j ts).map (·.term) := by
  induction ts generalizing i j with
  | nil => rfl
  | cons t ts ih =>
    cases t with
    | name n =>
      rw [placedFrom, equations, List.map_cons, List.map_cons, ih, term_eq rfl i dialect]
      rfl
    | value v =>
      rw [placedFrom, equations, List.map_cons, List.map_cons, ih, term_eq rfl _ dialect]
      rfl

/-! ## Instances -/

/-- The instances of `n` attribute rows, without the first one. -/
def laterInstances (n : Nat) : Instances :=
  ⟨sourcesOf (laterSlots n), ((List.range' 1 (n - 1)).flatMap joins).map (·.term)⟩

theorem terms_joins (i : Nat) : (joins i).map (·.term) =
    [.join (dataLayout.mapInstance (i + 1) ++ "." ++ dataLayout.metaKey ++ " = " ++
        dataLayout.metaInstance (i + 1) ++ "." ++ dataLayout.metaKey),
      .join (dataLayout.objectTable ++ "." ++ dataLayout.objectIdColumn ++ " = " ++
        dataLayout.mapInstance (i + 1) ++ "." ++ dataLayout.mapObjectColumn)] := by
  have hmap : (map i).binding = dataLayout.mapInstance (i + 1) := rfl
  have hrow : (row i).binding = dataLayout.metaInstance (i + 1) := rfl
  simp only [joins, List.map_cons, List.map_nil, Equation.term, SourceColumn.text, hmap, hrow,
    String.append_assoc]
  rfl

/-- One more instance behind the others. -/
theorem laterInstances_add {n : Nat} (hn : 1 ≤ n) :
    (laterInstances n).add dataLayout (n + 1) = laterInstances (n + 1) := by
  have hrange : List.range' 1 (n + 1 - 1) = List.range' 1 (n - 1) ++ [n] := by
    obtain ⟨k, rfl⟩ : ∃ k, n = k + 1 := ⟨n - 1, by omega⟩
    simp [List.range'_concat, Nat.add_comm]
  have hslots : laterSlots (n + 1) = laterSlots n ++ [map n, row n] := by
    rw [laterSlots, laterSlots, hrange, List.flatMap_append]
    simp
  have hmap : map n ∉ laterSlots n := by
    rw [mem_laterSlots]
    rintro ⟨i, -, hi, h | h⟩
    · cases h
      omega
    · cases h
  have hrow : row n ∉ laterSlots n ++ [map n] := by
    rw [List.mem_append, mem_laterSlots]
    rintro (⟨i, -, hi, h | h⟩ | h)
    · cases h
    · cases h
      omega
    · simp at h
  have hsources : ((laterInstances n).sources.add (dataLayout.mapTable ++ " " ++
      dataLayout.mapInstance (n + 1))).add (dataLayout.metaTable ++ " " ++
      dataLayout.metaInstance (n + 1)) = sourcesOf (laterSlots (n + 1)) := by
    rw [← text_map, ← text_row, laterInstances, sourcesOf_add, sourcesOf_add, hslots]
    simp [insertNew, hmap, hrow]
  have hnew : sourcesOf (laterSlots (n + 1)) ≠ (laterInstances n).sources := by
    intro h
    have hlength := congrArg (fun f : Sources => f.entries.length) h
    simp [sourcesOf, laterInstances, hslots] at hlength
  rw [Instances.add, hsources, if_neg hnew]
  rw [laterInstances, laterInstances, hrange, List.flatMap_append, List.map_append,
    List.flatMap_singleton, terms_joins]

/-- The instances that a search addresses, those of the names behind the first one. -/
theorem instancesOf_eq (m : Nat) :
    instancesOf (placedFrom m 0 0 ts) = laterInstances (names ts).length := by
  obtain ⟨step, hstep, hown, hinst⟩ : ∃ step : Instances → Placed → Instances,
      (∀ ps, instancesOf ps = (ps.filter fun p => !p.role.isValue).foldl step {}) ∧
      (∀ n c x r, step n ⟨c, x, r, .own⟩ = n) ∧
      ∀ n c x r layout index, step n ⟨c, x, r, .inst layout index⟩ = n.add layout index :=
    ⟨_, fun _ => rfl, fun _ _ _ _ => rfl, fun _ _ _ _ _ _ => rfl⟩
  -- Behind `i` names there are the instances of `i` attribute rows; values add none.
  have hfrom : ∀ (ts : List AttributeTest) (i j : Nat),
      ((placedFrom m i j ts).filter fun p => !p.role.isValue).foldl step (laterInstances i)
        = laterInstances (i + (names ts).length) := by
    intro ts
    induction ts with
    | nil => exact fun _ _ => rfl
    | cons t ts ih =>
      intro i j
      cases t with
      | name n =>
        have hnext : step (laterInstances i) ⟨(name n).condition, nameInfo, .name 0 dataLayout,
            .ofIndex dataLayout (i + 1)⟩ = laterInstances (i + 1) := by
          cases i with
          | zero => exact hown _ _ _ _
          | succ i => exact (hinst _ _ _ _ _ _).trans (laterInstances_add (by omega))
        have hlength : i + (names (name n :: ts)).length = i + 1 + (names ts).length := by
          simp [names]
          omega
        rw [hlength, ← ih (i + 1) j, ← hnext]
        rfl
      | value v => exact ih i (j + 1)
  have hall := hfrom ts 0 0
  rw [Nat.zero_add] at hall
  rw [hstep]
  exact hall

/-! ## Required tables -/

theorem requireInOrder_conditions {conditions : List (Condition × ColumnInfo)} {ps : List Placed}
    (hlength : conditions.length = ps.length) (r : Requirements) :
    Draft.requireInOrder s (conditions.map fun c => .condition c.1 c.2) ps r
      = (ps.filter fun p => !p.role.isValue).foldl (Requirements.requirePlaced s) r := by
  induction conditions generalizing ps r with
  | nil =>
    rw [List.length_eq_zero_iff.mp hlength.symm]
    rfl
  | cons c conditions ih =>
    cases ps with
    | nil => cases hlength
    | cons p ps =>
      have hrest := Nat.succ.inj hlength
      rw [List.map_cons, Draft.requireInOrder]
      cases hvalue : p.role.isValue with
      | true => simp [hvalue, ih hrest]
      | false => simp [hvalue, ih hrest, Requirements.requirePlaced]

/-- A test is about attribute rows or, in an instance, about the object that they are joined to. -/
theorem requiredTable_mem (hs : schema = .ok s) {m i j : Nat} {p : Placed}
    (hp : p ∈ placedFrom m i j ts) : p.requiredTable s = some 4 ∨ p.requiredTable s = some 6 := by
  have hplace : ∀ (c : Condition) (x : ColumnInfo) (r : Role) (k : Nat), x.tableId = 6 →
      Placed.requiredTable ⟨c, x, r, .ofIndex dataLayout (k + 1)⟩ s = some 4 ∨
      Placed.requiredTable ⟨c, x, r, .ofIndex dataLayout (k + 1)⟩ s = some 6 := by
    intro c x r k hx
    cases k with
    | zero =>
      rw [requiredTable_ofIndex]
      exact .inr (congrArg some hx)
    | succ k =>
      rw [requiredTable_ofIndex]
      exact .inl (congrArg Lookups.objects (lookups_eq hs))
  induction ts generalizing i j with
  | nil => cases hp
  | cons t ts ih =>
    cases t with
    | name n =>
      rcases List.mem_cons.mp hp with rfl | hp
      · exact hplace _ _ _ _ rfl
      · exact ih hp
    | value v =>
      rcases List.mem_cons.mp hp with rfl | hp
      · exact hplace _ _ _ _ rfl
      · exact ih hp

/-- The first test is about the first attribute row. -/
theorem exists_requiredTable (hne : ts ≠ []) (m : Nat) :
    ∃ p ∈ placedFrom m 0 0 ts, p.requiredTable s = some 6 := by
  have hfirst : rowOfValue m 0 = 0 := by
    unfold rowOfValue
    split <;> rfl
  cases ts with
  | nil => exact absurd rfl hne
  | cons t ts =>
    cases t with
    | name n => exact ⟨_, List.mem_cons_self, rfl⟩
    | value v =>
      refine ⟨_, List.mem_cons_self, ?_⟩
      rw [hfirst]
      rfl

theorem foldl_requirePlaced {ps : List Placed}
    (h : ∀ p ∈ ps, p.requiredTable s = some 4 ∨ p.requiredTable s = some 6) :
    ps.foldl (Requirements.requirePlaced s) rowsRequired = rowsRequired ∧
      ((∃ p ∈ ps, p.requiredTable s = some 6) →
        ps.foldl (Requirements.requirePlaced s) objectRequired = rowsRequired) := by
  induction ps with
  | nil => exact ⟨rfl, by rintro ⟨p, hp, -⟩; cases hp⟩
  | cons p ps ih =>
    obtain ⟨hrows, hobject⟩ := ih fun q hq => h q (List.mem_cons_of_mem _ hq)
    have hadded : ∀ (r : Requirements) (t : TableId), p.requiredTable s = some t →
        r.requirePlaced s p = r.require t := by
      intro r t ht
      simp [Requirements.requirePlaced, ht]
    rcases h p List.mem_cons_self with hp | hp
    · have hkept : rowsRequired.require 4 = rowsRequired := rfl
      have hkept' : objectRequired.require 4 = objectRequired := rfl
      refine ⟨by rw [List.foldl_cons, hadded _ _ hp, hkept, hrows], ?_⟩
      rintro ⟨q, hq, hq6⟩
      rw [List.foldl_cons, hadded _ _ hp, hkept']
      apply hobject
      rcases List.mem_cons.mp hq with rfl | hq
      · rw [hp] at hq6
        cases hq6
      · exact ⟨q, hq, hq6⟩
    · have hkept : rowsRequired.require 6 = rowsRequired := rfl
      refine ⟨by rw [List.foldl_cons, hadded _ _ hp, hkept, hrows], fun _ => ?_⟩
      rw [List.foldl_cons, hadded _ _ hp]
      exact hrows

theorem length_placedFrom (m i j : Nat) : (placedFrom m i j ts).length = ts.length := by
  induction ts generalizing i j with
  | nil => rfl
  | cons t ts ih =>
    cases t with
    | name n => exact congrArg Nat.succ (ih (i + 1) j)
    | value v => exact congrArg Nat.succ (ih i (j + 1))

/-- A search requires the object and, if anything is asked of them, attribute rows. -/
theorem requirements_eq (hs : schema = .ok s) (order : SortOrder) :
    (draft order ts).requirements s = if ts.isEmpty then objectRequired else rowsRequired := by
  -- Values require their tables behind all other conditions, so both parts are one fold.
  have hplaced : (draft order ts).placed s = _ := placed_eq hs order
  have hinOrder : Draft.requireInOrder s (draft order ts).items ((draft order ts).placed s) .empty
      = (((draft order ts).placed s).filter fun p => !p.role.isValue).foldl
        (Requirements.requirePlaced s) objectRequired := by
    rw [hplaced]
    exact requireInOrder_conditions (by simp [length_placedFrom]) objectRequired
  have hfold : (draft order ts).requirements s
      = (((draft order ts).placed s).filter (fun p => !p.role.isValue) ++
        ((draft order ts).placed s).filter (·.role.isValue)).foldl
          (Requirements.requirePlaced s) objectRequired := by
    rw [List.foldl_append, ← hinOrder]
    rfl
  rw [hfold, hplaced]
  cases ts with
  | nil => rfl
  | cons t ts =>
    have hmem : ∀ {p} {ps : List Placed},
        p ∈ ps.filter (fun p => !p.role.isValue) ++ ps.filter (·.role.isValue) ↔ p ∈ ps := by
      intro p ps
      cases hvalue : p.role.isValue <;> simp [hvalue]
    obtain ⟨p, hp, hp6⟩ := exists_requiredTable (s := s) (List.cons_ne_nil t ts)
      (names (t :: ts)).length
    apply (foldl_requirePlaced _).2
    · exact ⟨p, hmem.mpr hp, hp6⟩
    · exact fun q hq => requiredTable_mem hs (hmem.mp hq)

/-! ## Clauses -/

/-- The links by which a search is joined. -/
def linksOf (ts : List AttributeTest) : List LinkId := if ts.isEmpty then [] else [2, 1]

theorem resolve_eq (hs : schema = .ok s) (order : SortOrder) :
    (s.resolve ((draft order ts).requirements s)).1 = .ok (linksOf ts) := by
  have hok : ∀ {x : Except QueryError (List LinkId)} {ls}, x.toOption = some ls → x = .ok ls := by
    intro x ls h
    cases x with
    | error e => cases h
    | ok ls' => exact congrArg Except.ok (Option.some.inj h)
  rw [requirements_eq hs]
  cases ts with
  | nil => exact hok (congrArg Lookups.alone (lookups_eq hs))
  | cons t ts => exact hok (congrArg Lookups.joined (lookups_eq hs))

theorem orderBy_eq (hs : schema = .ok s) (order : SortOrder) :
    Draft.orderBy s (draft order ts).selects
      = (descending? order).toList.map
        fun d => ⟨SourceColumn.text ⟨object.binding, "data_id"⟩, d⟩ := by
  have hcanonical : s.conventions.canonicalOrder.contains ⟨401⟩ = false :=
    congrArg Lookups.canonical (lookups_eq hs)
  have hnone : Draft.canonicalColumns s (draft order ts).selects = [] := by
    rw [Draft.canonicalColumns, List.filter_eq_nil_iff]
    intro c hc h
    rw [draft, Draft.selects_ofItems] at h
    have hid : (⟨401⟩ : ColumnId) = c := by
      simpa [SelectColumn.isPlain, Aggregation.isAggregate] using h
    rw [hid, List.contains_eq_mem, decide_eq_false_iff_not] at hcanonical
    exact hcanonical hc
  rw [Draft.orderBy, hnone, Draft.orderOf, draft, Draft.selects_ofItems]
  cases order with
  | none => rfl
  | asc => rfl
  | desc => rfl

theorem sources_eq (hs : schema = .ok s) (order : SortOrder) :
    Draft.addSources s ((draft order ts).requirements s).tables (linksOf ts)
        (laterInstances (names ts).length).sources
      = sourcesOf (slots (rowCount ts)) := by
  have hsources : [4, 5, 6].map s.source = [object.source.text, (map 0).source.text,
      (row 0).source.text] := congrArg Lookups.sources (lookups_eq hs)
  have hlinks : [2, 1].map (s.links[·]?) = found.links := congrArg Lookups.links (lookups_eq hs)
  simp only [List.map_cons, List.map_nil, List.cons.injEq, and_true, found] at hsources hlinks
  have hobject : object ∉ laterSlots (names ts).length := disjoint_laterSlots _ _ (by simp)
  have hrow : row 0 ∉ laterSlots (names ts).length := disjoint_laterSlots _ _ (by simp)
  have hmap : map 0 ∉ laterSlots (names ts).length := disjoint_laterSlots _ _ (by simp)
  rw [requirements_eq hs]
  cases ts with
  | nil =>
    simp [Draft.addSources, linksOf, objectRequired, Requirements.require, Requirements.empty,
      Requirements.contains, hsources, laterInstances, sourcesOf_add, insertNew]
    rfl
  | cons t ts =>
    have hslots : slots (rowCount (t :: ts))
        = laterSlots (names (t :: ts)).length ++ [object, row 0, map 0] := by
      rw [slots, laterSlots, rowCount_sub_one]
      simp [rowCount, laterSlots]
    simp [Draft.addSources, linksOf, rowsRequired, objectRequired, Requirements.require,
      Requirements.empty, Requirements.contains, hsources, hlinks, laterInstances, sourcesOf_add,
      insertNew, hobject, hrow, hmap, hslots]

/-- The links of a search join the first attribute row, the instances the others. -/
theorem joins_eq (hs : schema = .ok s) :
    Draft.joinTerms s (linksOf ts) ++ (laterInstances (names ts).length).joins
      = ((List.range (rowCount ts)).flatMap joins).map (·.term) := by
  have hlinks : [2, 1].map (s.links[·]?) = found.links := congrArg Lookups.links (lookups_eq hs)
  simp only [List.map_cons, List.map_nil, List.cons.injEq, and_true, found] at hlinks
  cases ts with
  | nil => rfl
  | cons t ts =>
    have hrange : List.range (rowCount (t :: ts))
        = 0 :: List.range' 1 ((names (t :: ts)).length - 1) := by
      have hcount : rowCount (t :: ts) = max (names (t :: ts)).length 1 := rfl
      obtain ⟨k, hk⟩ : ∃ k, rowCount (t :: ts) = k + 1 := ⟨rowCount (t :: ts) - 1, by omega⟩
      rw [← rowCount_sub_one, hk, List.range_eq_range', List.range'_succ]
      rfl
    have hfirst : (joins 0).map (·.term) = [
        .join "r_data_metamap.meta_id = r_data_meta_main.meta_id",
        .join "r_data_main.data_id = r_data_metamap.object_id"] := by decide +kernel
    rw [hrange, List.flatMap_cons, List.map_append, hfirst]
    simp [Draft.joinTerms, linksOf, hlinks, laterInstances]

theorem clauses_eq (hs : schema = .ok s) (order : SortOrder) (dialect : Dialect) {caller : Caller}
    {options : CompileOptions}
    (hfilter : caller.isFiltered options.strict options.anonymousUser = false) :
    (draft order ts).clauses s dialect caller options (linksOf ts)
      = (selection order ts).clauses := by
  have hplaced : (draft order ts).placed s = _ := placed_eq hs order
  have hfilters : ∀ selected,
      s.rowFilters selected caller options.strict options.anonymousUser = [] := by
    intro selected
    rw [Schema.rowFilters, hfilter]
    rfl
  have hselect : (draft order ts).selects.map (fun c => c.1.text c.2)
      = [SourceColumn.text ⟨object.binding, "data_id"⟩] := by
    rw [draft, Draft.selects_ofItems]
    rfl
  have hgroup : Draft.groupBy (draft order ts).selects = [] := by
    rw [draft, Draft.selects_ofItems]
    rfl
  have hterms : Draft.joinTerms s (linksOf ts) ++ _ = _ := joins_eq hs
  show Clauses.mk _ _ _ _ _ = Clauses.mk _ _ _ _ _
  rw [Clauses.mk.injEq]
  refine ⟨hselect, ?_, ?_, hgroup, ?_⟩
  · rw [hplaced, instancesOf_eq, sources_eq hs]
    simp [sourcesOf, selection]
  · rw [hplaced, instancesOf_eq, hfilters, List.map_nil, List.append_nil, List.append_assoc, hterms,
      terms_placedFrom, ← List.map_append]
    rfl
  · rw [orderBy_eq hs]
    rfl

/-- A search compiles to the statement of its selection. -/
theorem compile_eq (hs : schema = .ok s) (dialect : Dialect) {caller : Caller}
    {options : CompileOptions}
    (hfilter : caller.isFiltered options.strict options.anonymousUser = false) {r : Request}
    {order : SortOrder} (hr : r.Searches order ts) :
    ∃ c, s.compile dialect caller options r = .ok c ∧
      c.statement = (selection order ts).clauses.statement none := by
  have hselects : (draft order ts).selects ≠ [] := by
    rw [draft, Draft.selects_ofItems]
    exact List.cons_ne_nil _ _
  refine ⟨_, Schema.compile_eq_ok.mpr
    ⟨_, draft_eq hs caller hr, hselects, _, resolve_eq hs order, rfl,
      (registered hs).found _ caller options⟩, ?_⟩
  have hsuffix : dialect.offsetSuffix r.offset = none := by
    rw [hr.offset]
    rfl
  rw [Draft.compiled, clauses_eq hs order dialect hfilter, hsuffix]

end AttributeTest

end CatalogQuery
