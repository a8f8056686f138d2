import CatalogQuery.Proofs.Compile.Compiles
import CatalogQuery.Proofs.Join.JoinClauses
import Mathlib.Data.List.Induction

/-!
# The tables that a request requires

A request requires the tables of its columns, and the objects of the layouts of which it asks for
more than one name. Where a condition is placed depends on the conditions before it; which tables are
required in the end does not.

* `Draft.mem_requirements`: a draft requires the tables of its selects and of its conditions;
* `Draft.exists_placed_iff`: those of its conditions, without their places;
* `Draft.requirements_asked`: only tables of the schema are required.
-/

namespace CatalogQuery

variable {s : Schema} {t : TableId} {d : Draft}

/-! ## What is asked for -/

theorem Requirements.mem_require {r : Requirements} {u : TableId} :
    t ∈ (r.require u).tables ↔ t ∈ r.tables ∨ t = u := by
  unfold require contains
  split
  · next hu =>
    rw [List.contains_iff_mem] at hu
    constructor
    · exact .inl
    · rintro (ht | rfl)
      · exact ht
      · exact hu
  · simp

/-- Asks for the table of a placed condition. -/
def Requirements.requirePlaced (s : Schema) (r : Requirements) (p : Placed) : Requirements :=
  (p.requiredTable s).elim r r.require

theorem Requirements.mem_requirePlaced {r : Requirements} {p : Placed} :
    t ∈ (r.requirePlaced s p).tables ↔ t ∈ r.tables ∨ p.requiredTable s = some t := by
  unfold requirePlaced
  cases p.requiredTable s with
  | none => simp
  | some u => simp [mem_require, eq_comm]

theorem Requirements.mem_foldl_requirePlaced {ps : List Placed} {r : Requirements} :
    t ∈ (ps.foldl (requirePlaced s) r).tables ↔
      t ∈ r.tables ∨ ∃ p ∈ ps, p.requiredTable s = some t := by
  induction ps generalizing r with
  | nil => simp
  | cons p ps ih => simp [ih, mem_requirePlaced, or_assoc]

namespace Draft

/-- The table of a select, if the item is one. -/
def selectTable : Item → Option TableId
  | .select _ info => some info.tableId
  | .condition _ _ => none

/-- As many conditions are placed as there are among the items. -/
def conditionCount (items : List Item) : Nat := items.countP fun item => (selectTable item).isNone

theorem mem_requireInOrder {items : List Item} {ps : List Placed} {r : Requirements}
    (hlen : ps.length = conditionCount items) :
    t ∈ (requireInOrder s items ps r).tables ↔ t ∈ r.tables ∨
      (∃ item ∈ items, selectTable item = some t) ∨
      ∃ p ∈ ps, p.role.isValue = false ∧ p.requiredTable s = some t := by
  induction items generalizing ps r with
  | nil =>
    have hnil : ps = [] := by simpa [conditionCount] using hlen
    simp [requireInOrder, hnil]
  | cons item items ih =>
    cases item with
    | select select info =>
      have hrest : ps.length = conditionCount items := by simpa [conditionCount, selectTable] using hlen
      simp only [requireInOrder, ih hrest, Requirements.mem_require, selectTable, List.mem_cons,
        exists_eq_or_imp, Option.some.injEq, or_assoc, eq_comm (a := t)]
    | condition c info =>
      cases ps with
      | nil => simp [conditionCount, selectTable] at hlen
      | cons p ps =>
        have hrest : ps.length = conditionCount items := by
          simpa [conditionCount, selectTable] using hlen
        cases hvalue : p.role.isValue with
        | true => simp [requireInOrder, ih hrest, selectTable, hvalue]
        | false =>
          have hplaced := Requirements.mem_requirePlaced (t := t) (s := s) (r := r) (p := p)
          unfold Requirements.requirePlaced at hplaced
          simp [requireInOrder, ih hrest, selectTable, hvalue, hplaced, or_assoc, or_left_comm]

theorem length_placeAll (conventions : Conventions) (all before : List Role)
    (conditions : List (Condition × ColumnInfo)) :
    (placeAll conventions all before conditions).length = conditions.length := by
  induction conditions generalizing before with
  | nil => rfl
  | cons c conditions ih => simp [placeAll, ih]

theorem length_placed (d : Draft) (s : Schema) : (d.placed s).length = conditionCount d.items := by
  rw [placed, length_placeAll, conditions, List.length_filterMap_eq_countP, conditionCount]
  congr 1
  funext item
  cases item <;> rfl

theorem mem_requirements :
    t ∈ (d.requirements s).tables ↔ (∃ c ∈ d.selects, c.2.tableId = t) ∨
      ∃ p ∈ d.placed s, p.requiredTable s = some t := by
  have hselects : (∃ item ∈ d.items, selectTable item = some t) ↔
      ∃ c ∈ d.selects, c.2.tableId = t := by
    simp only [selects, List.mem_filterMap]
    constructor
    · rintro ⟨item, hitem, hselect⟩
      cases item with
      | select select info => exact ⟨(select, info), ⟨_, hitem, rfl⟩, Option.some.inj hselect⟩
      | condition c info => cases hselect
    · rintro ⟨c, ⟨item, hitem, hc⟩, rfl⟩
      cases item with
      | select select info =>
        cases hc
        exact ⟨_, hitem, rfl⟩
      | condition c info => cases hc
  show t ∈ (((d.placed s).filter (·.role.isValue)).foldl (Requirements.requirePlaced s)
    (requireInOrder s d.items (d.placed s) .empty)).tables ↔ _
  rw [Requirements.mem_foldl_requirePlaced, mem_requireInOrder (d.length_placed s), hselects]
  simp only [Requirements.empty, List.not_mem_nil, false_or, List.mem_filter]
  constructor
  · rintro ((hselect | ⟨p, hp, -, ht⟩) | ⟨p, ⟨hp, -⟩, ht⟩)
    · exact .inl hselect
    · exact .inr ⟨p, hp, ht⟩
    · exact .inr ⟨p, hp, ht⟩
  · rintro (hselect | ⟨p, hp, ht⟩)
    · exact .inl (.inl hselect)
    · cases hvalue : p.role.isValue with
      | true => exact .inr ⟨p, ⟨hp, hvalue⟩, ht⟩
      | false => exact .inl (.inr ⟨p, hp, hvalue, ht⟩)

end Draft

/-! ## Places -/

theorem mem_placeAll {conventions : Conventions} {all before : List Role}
    {conditions : List (Condition × ColumnInfo)} {p : Placed} :
    p ∈ placeAll conventions all before conditions ↔
      ∃ pre c post, conditions = pre ++ c :: post ∧
        p = ⟨c.1, c.2, conventions.role c.2.id, (conventions.role c.2.id).place
          (before ++ pre.map fun x => conventions.role x.2.id) all⟩ := by
  induction conditions generalizing before with
  | nil => simp [placeAll]
  | cons c conditions ih =>
    rw [placeAll, List.mem_cons, ih]
    constructor
    · rintro (rfl | ⟨pre, x, post, rfl, rfl⟩)
      · exact ⟨[], c, conditions, rfl, by simp⟩
      · exact ⟨c :: pre, x, post, rfl, by simp⟩
    · rintro ⟨pre, x, post, heq, rfl⟩
      cases pre with
      | nil =>
        obtain ⟨rfl, rfl⟩ := List.cons.inj heq
        exact .inl (by simp)
      | cons y pre =>
        obtain ⟨rfl, rfl⟩ := List.cons.inj heq
        exact .inr ⟨pre, x, post, rfl, by simp⟩

theorem requiredTable_ofIndex (c : Condition) (info : ColumnInfo) (role : Role)
    (layout : AttributeJoin) (index : Nat) :
    (Placed.mk c info role (.ofIndex layout index)).requiredTable s =
      if index ≤ 1 then some info.tableId else s.tableId? layout.objectTable := by
  unfold Place.ofIndex
  by_cases h : index ≤ 1
  · rw [if_pos h, if_pos h]
    rfl
  · rw [if_neg h, if_neg h]
    exact Placed.requiredTable_inst rfl

namespace Conventions

variable {c : Conventions} {column column' : ColumnId} {i : Nat}

/-- Two conditions on the names of one layout are about one column. -/
theorem column_eq_of_name (h : (c.role column).isNameOf i = true)
    (h' : (c.role column').isNameOf i = true) : column = column' := by
  unfold Role.isNameOf at h h'
  split at h
  · next heq =>
    split at h'
    · next heq' =>
      simp only [beq_iff_eq] at h h'
      subst h h'
      obtain ⟨hlayout, rfl⟩ := role_name heq
      obtain ⟨hlayout', rfl⟩ := role_name heq'
      rw [Option.some.inj (hlayout.symm.trans hlayout')]
    · cases h'
  · cases h

theorem column_eq_of_value (h : (c.role column).isValueOf i = true)
    (h' : (c.role column').isValueOf i = true) : column = column' := by
  unfold Role.isValueOf at h h'
  split at h
  · next heq =>
    split at h'
    · next heq' =>
      simp only [beq_iff_eq] at h h'
      subst h h'
      obtain ⟨hlayout, rfl⟩ := role_value heq
      obtain ⟨hlayout', rfl⟩ := role_value heq'
      rw [Option.some.inj (hlayout.symm.trans hlayout')]
    · cases h'
  · cases h

end Conventions

/-! ## The tables of conditions -/

namespace Draft

/-- Conditions on one column have one description of it. -/
def Consistent (conditions : List (Condition × ColumnInfo)) : Prop :=
  ∀ c ∈ conditions, ∀ x ∈ conditions, c.2.id = x.2.id → c.2 = x.2

/-- How many conditions are on the names of a layout. -/
def nameCount (s : Schema) (i : Nat) (conditions : List (Condition × ColumnInfo)) : Nat :=
  conditions.countP fun c => (s.conventions.role c.2.id).isNameOf i

theorem countP_isNameOf (s : Schema) (i : Nat) (conditions : List (Condition × ColumnInfo)) :
    (conditions.map fun c => s.conventions.role c.2.id).countP (·.isNameOf i)
      = nameCount s i conditions := by
  rw [List.countP_map]
  rfl

/-- Of the conditions of a kind, the first is placed in the registered table. -/
theorem exists_own_of_first {conditions : List (Condition × ColumnInfo)} {kind : Role → Bool}
    {c : Condition × ColumnInfo} (hconsistent : Consistent conditions) (hc : c ∈ conditions)
    (hkind : kind (s.conventions.role c.2.id) = true)
    (hsame : ∀ x : Condition × ColumnInfo, kind (s.conventions.role x.2.id) = true → x.2.id = c.2.id)
    (hplace : ∀ before all : List Role, before.countP kind = 0 →
      (s.conventions.role c.2.id).place before all = .own) :
    ∃ p ∈ placeAll s.conventions (conditions.map fun x => s.conventions.role x.2.id) [] conditions,
      p.requiredTable s = some c.2.tableId := by
  obtain ⟨x, hx⟩ : ∃ x, conditions.find? (fun x => kind (s.conventions.role x.2.id)) = some x :=
    Option.isSome_iff_exists.mp (List.find?_isSome.mpr ⟨c, hc, hkind⟩)
  obtain ⟨hxkind, pre, post, hsplit, hbefore⟩ := List.find?_eq_some_iff_append.mp hx
  have hid : x.2.id = c.2.id := hsame x hxkind
  have hxc : x.2 = c.2 := hconsistent x (by simp [hsplit]) c hc hid
  have hnone : (pre.map fun y => s.conventions.role y.2.id).countP kind = 0 := by
    rw [List.countP_eq_zero]
    intro r hr
    obtain ⟨y, hy, rfl⟩ := List.mem_map.mp hr
    simpa using hbefore y hy
  refine ⟨_, mem_placeAll.mpr ⟨pre, x, post, hsplit, rfl⟩, ?_⟩
  rw [List.nil_append, hxc]
  exact Placed.requiredTable_own (hplace _ _ hnone)

/-- Of several names the last is placed in an instance of its own. -/
theorem exists_inst_of_names {conditions : List (Condition × ColumnInfo)} {i : Nat}
    {layout : AttributeJoin} (hlayout : s.conventions.attributeJoins[i]? = some layout)
    (hnames : 2 ≤ nameCount s i conditions) :
    ∃ p ∈ placeAll s.conventions (conditions.map fun x => s.conventions.role x.2.id) [] conditions,
      p.requiredTable s = s.tableId? layout.objectTable := by
  obtain ⟨pre, c, post, hsplit, hname, hbefore⟩ : ∃ pre c post, conditions = pre ++ c :: post ∧
      (s.conventions.role c.2.id).isNameOf i = true ∧ 1 ≤ nameCount s i pre := by
    induction conditions using List.reverseRecOn with
    | nil => simp [nameCount] at hnames
    | append_singleton conditions c ih =>
      by_cases hname : (s.conventions.role c.2.id).isNameOf i = true
      · have hcount : nameCount s i (conditions ++ [c]) = nameCount s i conditions + 1 := by
          simp [nameCount, hname]
        exact ⟨conditions, c, [], rfl, hname, by omega⟩
      · have hcount : nameCount s i (conditions ++ [c]) = nameCount s i conditions := by
          simp [nameCount, hname]
        obtain ⟨pre, x, post, rfl, hx, hbefore⟩ := ih (by omega)
        exact ⟨pre, x, post ++ [c], by simp, hx, hbefore⟩
  refine ⟨_, mem_placeAll.mpr ⟨pre, c, post, hsplit, rfl⟩, ?_⟩
  unfold Role.isNameOf at hname
  split at hname
  · next j layout' hrole =>
    simp only [beq_iff_eq] at hname
    subst hname
    obtain ⟨hlayout', -⟩ := Conventions.role_name hrole
    obtain rfl : layout' = layout := Option.some.inj (hlayout'.symm.trans hlayout)
    rw [hrole, Role.place, requiredTable_ofIndex, List.nil_append, countP_isNameOf,
      if_neg (by omega)]
  · cases hname

/-- Conditions require their own tables, and several names of a layout the table of its objects. -/
theorem exists_placed_iff (hconsistent : Consistent d.conditions) :
    (∃ p ∈ d.placed s, p.requiredTable s = some t) ↔
      (∃ c ∈ d.conditions, c.2.tableId = t) ∨
      ∃ i layout, s.conventions.attributeJoins[i]? = some layout ∧
        2 ≤ nameCount s i d.conditions ∧ s.tableId? layout.objectTable = some t := by
  constructor
  · rintro ⟨p, hp, ht⟩
    obtain ⟨pre, c, post, hsplit, rfl⟩ := mem_placeAll.mp hp
    have hc : c ∈ d.conditions := by simp [hsplit]
    cases hrole : s.conventions.role c.2.id with
    | plain =>
      rw [hrole] at ht
      exact .inl ⟨c, hc, Option.some.inj ht⟩
    | name i layout =>
      have hcount : nameCount s i d.conditions = nameCount s i pre + (nameCount s i post + 1) := by
        rw [hsplit, nameCount, List.countP_append, List.countP_cons_of_pos]
        · rfl
        · simp [hrole, Role.isNameOf]
      rw [hrole, Role.place, requiredTable_ofIndex, List.nil_append, countP_isNameOf] at ht
      split at ht
      · exact .inl ⟨c, hc, Option.some.inj ht⟩
      · exact .inr ⟨i, layout, (Conventions.role_name hrole).1, by omega, ht⟩
    | value i layout =>
      rw [hrole, Role.place, requiredTable_ofIndex, roles, countP_isNameOf] at ht
      by_cases hpaired : List.countP (·.isValueOf i)
          ([] ++ pre.map fun x => s.conventions.role x.2.id) + 1 ≤ nameCount s i d.conditions
      · rw [if_pos hpaired] at ht
        split at ht
        · exact .inl ⟨c, hc, Option.some.inj ht⟩
        · exact .inr ⟨i, layout, (Conventions.role_value hrole).1, by omega, ht⟩
      · -- A value beyond the last name belongs to the first instance.
        rw [if_neg hpaired, if_pos (Nat.le_refl 1)] at ht
        exact .inl ⟨c, hc, Option.some.inj ht⟩
  · rintro (⟨c, hc, rfl⟩ | ⟨i, layout, hlayout, hnames, ht⟩)
    · cases hrole : s.conventions.role c.2.id with
      | plain =>
        obtain ⟨pre, post, hsplit⟩ := List.append_of_mem hc
        refine ⟨_, mem_placeAll.mpr ⟨pre, c, post, hsplit, rfl⟩, ?_⟩
        exact Placed.requiredTable_own (by rw [hrole, Role.place])
      | name i layout =>
        have hkind : (s.conventions.role c.2.id).isNameOf i = true := by simp [hrole, Role.isNameOf]
        refine exists_own_of_first hconsistent hc hkind
          (fun x hx => Conventions.column_eq_of_name hx hkind) fun before all hnone => ?_
        simp only [hrole, Role.place, Place.ofIndex, hnone]
        simp
      | value i layout =>
        have hkind : (s.conventions.role c.2.id).isValueOf i = true := by
          simp [hrole, Role.isValueOf]
        refine exists_own_of_first hconsistent hc hkind
          (fun x hx => Conventions.column_eq_of_value hx hkind) fun before all hnone => ?_
        simp only [hrole, Role.place, Place.ofIndex, hnone]
        simp
    · obtain ⟨p, hp, hrequired⟩ := exists_inst_of_names hlayout hnames
      exact ⟨p, hp, hrequired.trans ht⟩

/-! ## Tables of the schema -/

/-- All columns of the draft are described as the schema describes them. -/
structure Known (s : Schema) (d : Draft) : Prop where
  selects : ∀ c ∈ d.selects, s.columnInfo? c.2.id = some c.2
  conditions : ∀ c ∈ d.conditions, s.columnInfo? c.2.id = some c.2

theorem Known.consistent (h : d.Known s) : Consistent d.conditions := by
  intro c hc x hx hid
  have hinfo := h.conditions c hc
  rw [hid, h.conditions x hx] at hinfo
  exact (Option.some.inj hinfo).symm

theorem Requirements.Asked.requirePlaced {r : Requirements} {p : Placed} (h : r.Asked s)
    (hp : ∀ t, p.requiredTable s = some t → t < s.tables.length) :
    (r.requirePlaced s p).Asked s := by
  unfold Requirements.requirePlaced
  cases hplaced : p.requiredTable s with
  | none => exact h
  | some t => exact .require h (hp t hplaced)

theorem requireInOrder_asked {items : List Item} {ps : List Placed} {r : Requirements}
    (hr : r.Asked s) (hitems : ∀ item ∈ items, ∀ t, selectTable item = some t → t < s.tables.length)
    (hps : ∀ p ∈ ps, ∀ t, p.requiredTable s = some t → t < s.tables.length) :
    (requireInOrder s items ps r).Asked s := by
  induction items generalizing ps r with
  | nil => simpa [requireInOrder] using hr
  | cons item items ih =>
    have hrest := fun x hx => hitems x (List.mem_cons_of_mem _ hx)
    cases item with
    | select select info =>
      exact ih (.require hr (hitems _ List.mem_cons_self _ rfl)) hrest hps
    | condition c info =>
      cases ps with
      | nil => exact ih hr hrest hps
      | cons p ps =>
        have hps' := fun x hx => hps x (List.mem_cons_of_mem _ hx)
        rw [requireInOrder]
        split
        · exact ih hr hrest hps'
        · exact ih (Requirements.Asked.requirePlaced hr (hps p List.mem_cons_self)) hrest hps'

end Draft

namespace Draft

theorem known_of_draft {caller : Caller} {r : Request} (h : s.draft caller r = .ok d) :
    d.Known s := by
  obtain ⟨selects, conditions, hselects, hconditions, -, rfl⟩ := Schema.draft_eq_ok.mp h
  have hknown : ∀ {column : ColumnId} {info : ColumnInfo}, s.openColumn caller column = .ok info →
      s.columnInfo? info.id = some info := by
    intro column info hopen
    have hinfo := Schema.openColumn_eq_ok hopen
    rw [(Schema.columnInfo?_eq_some hinfo).1]
    exact hinfo
  constructor
  · rw [selects_ofItems]
    intro c hc
    obtain ⟨x, -, hx⟩ := exists_of_forall₂ hselects hc
    exact hknown hx.2
  · rw [conditions_ofItems]
    intro c hc
    obtain ⟨x, -, hx⟩ := exists_of_forall₂ hconditions hc
    exact hknown hx.1

theorem requirements_asked (h : d.Known s) : (d.requirements s).Asked s := by
  have hlt : ∀ {info : ColumnInfo}, s.columnInfo? info.id = some info →
      info.tableId < s.tables.length := fun hinfo =>
    (List.getElem?_eq_some_iff.mp (Schema.columnInfo?_eq_some hinfo).2.1).1
  have hps : ∀ p ∈ d.placed s, ∀ t, p.requiredTable s = some t → t < s.tables.length := by
    intro p hp t ht
    rcases (exists_placed_iff h.consistent).mp ⟨p, hp, ht⟩ with ⟨c, hc, rfl⟩ | ⟨_, _, -, -, hobject⟩
    · exact hlt (h.conditions c hc)
    · exact Schema.lt_of_tableId? hobject
  have hitems : ∀ item ∈ d.items, ∀ t, selectTable item = some t → t < s.tables.length := by
    intro item hitem t ht
    cases item with
    | select select info =>
      cases ht
      exact hlt (h.selects (select, info) (List.mem_filterMap.mpr ⟨_, hitem, rfl⟩))
    | condition c info => cases ht
  have hstart : (requireInOrder s d.items (d.placed s) .empty).Asked s :=
    requireInOrder_asked .empty hitems hps
  refine List.foldlRecOn ((d.placed s).filter (·.role.isValue)) _ hstart fun r hr p hp => ?_
  exact Requirements.Asked.requirePlaced hr (hps p (List.mem_filter.mp hp).1)

end Draft

end CatalogQuery
