import CatalogQuery.Condition.Grammar
import CatalogQuery.Proofs.Compile.AttributeSlots
import CatalogQuery.Request.Basic
import Mathlib.Data.List.Nodup

/-!
# Selections by attributes

Data objects are searched for by names and values of their attributes. This module says what such a
search asks, and which selection it stands for: the object, and for each name an attribute row with
its place in the map, bound to one another and to the tests by equations.

* `Request.Searches`: a request asks for ids of data objects under some tests;
* `AttributeTest.selection`: the selection of a search;
* `AttributeTest.mem_slots`, `AttributeTest.nodup_slots`: what rows are chosen for;
* `AttributeTest.mem_equations`: which attribute row is compared with which name and which value.
-/

namespace CatalogQuery

open Sql

/-! ## What is asked -/

/-- The name or the value of an attribute of a data object is asked to be a text. -/
inductive AttributeTest where
  | name (s : String)
  | value (s : String)
  deriving DecidableEq, Repr

namespace AttributeTest

def column : AttributeTest → ColumnId
  | name _ => ⟨600⟩
  | value _ => ⟨601⟩

def literal : AttributeTest → String
  | name s => s
  | value s => s

def condition (t : AttributeTest) : Condition := .simple ⟨.eq, [t.literal], false⟩

/-- The names asked for, in order. -/
def names (ts : List AttributeTest) : List String :=
  ts.filterMap fun
    | name s => some s
    | value _ => none

/-- The values asked for, in order. -/
def values (ts : List AttributeTest) : List String :=
  ts.filterMap fun
    | name _ => none
    | value s => some s

section

variable (s : String) (ts : List AttributeTest)

@[simp] theorem names_name : names (name s :: ts) = s :: names ts := rfl

@[simp] theorem names_value : names (value s :: ts) = names ts := rfl

@[simp] theorem values_name : values (name s :: ts) = values ts := rfl

@[simp] theorem values_value : values (value s :: ts) = s :: values ts := rfl

end

end AttributeTest

/-- The condition asks the test, whatever its blanks. -/
def RequestCondition.Asks (c : RequestCondition) (t : AttributeTest) : Prop :=
  c.column = t.column ∧ Condition.parse c.expression = .ok t.condition

/-- The ids of data objects are asked for, in some order, from the first one on, under some tests. -/
structure Request.Searches (r : Request) (order : SortOrder) (ts : List AttributeTest) : Prop where
  select : r.select = [⟨⟨401⟩, .none, order⟩]
  offset : r.offset = 0
  conditions : List.Forall₂ RequestCondition.Asks r.conditions ts

/-! ## The selection -/

namespace AttributeTest

open Slot

variable {ts : List AttributeTest}

/-- How many attribute rows a search looks for. -/
def rowCount (ts : List AttributeTest) : Nat := if ts.isEmpty then 0 else max (names ts).length 1

theorem rowCount_sub_one : rowCount ts - 1 = (names ts).length - 1 := by
  unfold rowCount
  cases ts with
  | nil => rfl
  | cons t ts =>
    rw [List.isEmpty_cons, if_neg (by decide)]
    omega

/-- The attribute row to which a value belongs: that of the name with its number, the first one beyond
the last name. -/
def rowOfValue (m j : Nat) : Nat := if j < m then j else 0

/-- The equations of the tests behind `i` names and `j` values, when `m` names are asked for. -/
def equations (m : Nat) : Nat → Nat → List AttributeTest → List Equation
  | _, _, [] => []
  | i, j, name s :: ts => .literal ⟨(row i).binding, "meta_attr_name"⟩ s :: equations m (i + 1) j ts
  | i, j, value s :: ts =>
    .literal ⟨(row (rowOfValue m j)).binding, "meta_attr_value"⟩ s :: equations m i (j + 1) ts

/-- An attribute row is joined to the object through its place in the map. -/
def joins (i : Nat) : List Equation :=
  [.columns ⟨(map i).binding, "meta_id"⟩ ⟨(row i).binding, "meta_id"⟩,
    .columns ⟨object.binding, "data_id"⟩ ⟨(map i).binding, "object_id"⟩]

/-- The slots of `n` attribute rows, without the first one. -/
def laterSlots (n : Nat) : List Slot := (List.range' 1 (n - 1)).flatMap fun i => [map i, row i]

/-- The slots of `n` attribute rows and their object; those of the first row stand behind it. -/
def slots (n : Nat) : List Slot :=
  laterSlots n ++ object :: if n = 0 then [] else [row 0, map 0]

/-- The order by the ids of objects. -/
def descending? : SortOrder → Option Bool
  | .none => none
  | .asc => some false
  | .desc => some true

/-- What a search selects. -/
def selection (order : SortOrder) (ts : List AttributeTest) : Selection where
  output := ⟨object.binding, "data_id"⟩
  sources := (slots (rowCount ts)).map (·.source)
  equations := equations (names ts).length 0 0 ts ++ (List.range (rowCount ts)).flatMap joins
  order := descending? order

/-! ### Slots -/

theorem mem_laterSlots {n : Nat} {x : Slot} :
    x ∈ laterSlots n ↔ ∃ i, 1 ≤ i ∧ i < n ∧ (x = map i ∨ x = row i) := by
  simp only [laterSlots, List.mem_flatMap, List.mem_range'_1, List.mem_cons, List.not_mem_nil,
    or_false]
  constructor
  · rintro ⟨i, ⟨hlow, hhigh⟩, h⟩
    exact ⟨i, hlow, by omega, h⟩
  · rintro ⟨i, hlow, hhigh, h⟩
    exact ⟨i, ⟨hlow, by omega⟩, h⟩

theorem disjoint_laterSlots (n : Nat) : ∀ x ∈ [object, row 0, map 0], x ∉ laterSlots n := by
  intro x hx hlater
  obtain ⟨i, hi, -, rfl | rfl⟩ := mem_laterSlots.mp hlater
  · simp at hx
    omega
  · simp at hx
    omega

theorem mem_slots {n : Nat} {x : Slot} :
    x ∈ slots n ↔ x = object ∨ ∃ i < n, x = map i ∨ x = row i := by
  rw [slots, List.mem_append, mem_laterSlots, List.mem_cons]
  constructor
  · rintro (⟨i, -, hi, hx⟩ | rfl | hx)
    · exact .inr ⟨i, hi, hx⟩
    · exact .inl rfl
    · split at hx
      · cases hx
      · refine .inr ⟨0, by omega, ?_⟩
        simpa [or_comm] using hx
  · rintro (rfl | ⟨i, hi, hx⟩)
    · exact .inr (.inl rfl)
    · rcases Nat.eq_zero_or_pos i with rfl | hpos
      · right; right
        rw [if_neg (by omega)]
        simpa [or_comm] using hx
      · exact .inl ⟨i, hpos, hi, hx⟩

theorem object_mem_slots (n : Nat) : object ∈ slots n := mem_slots.mpr (.inl rfl)

theorem map_mem_slots {i n : Nat} (hi : i < n) : map i ∈ slots n :=
  mem_slots.mpr (.inr ⟨i, hi, .inl rfl⟩)

theorem row_mem_slots {i n : Nat} (hi : i < n) : row i ∈ slots n :=
  mem_slots.mpr (.inr ⟨i, hi, .inr rfl⟩)

theorem nodup_slots (n : Nat) : (slots n).Nodup := by
  have hlater : (laterSlots n).Nodup := by
    have hrange : (List.range' 1 (n - 1)).Nodup := List.nodup_range'
    refine List.nodup_flatMap.mpr ⟨fun i _ => by simp, hrange.imp fun {i j} hne => ?_⟩
    simpa [Function.onFun] using hne.symm
  have hfirst : (object :: if n = 0 then [] else [row 0, map 0]).Nodup := by
    split <;> simp
  refine List.nodup_append.mpr ⟨hlater, hfirst, ?_⟩
  rintro x hx y hy rfl
  refine disjoint_laterSlots n x ?_ hx
  split at hy
  · exact List.mem_cons.mpr (.inl (List.mem_singleton.mp hy))
  · exact hy

/-! ### Equations -/

theorem exists_getElem?_cons {α : Type} {P : Nat → α → Prop} {x : α} {xs : List α} :
    (∃ k v, (x :: xs)[k]? = some v ∧ P k v) ↔ P 0 x ∨ ∃ k v, xs[k]? = some v ∧ P (k + 1) v := by
  constructor
  · rintro ⟨k, v, hv, h⟩
    cases k with
    | zero =>
      cases hv
      exact .inl h
    | succ k => exact .inr ⟨k, v, hv, h⟩
  · rintro (h | ⟨k, v, hv, h⟩)
    · exact ⟨0, x, rfl, h⟩
    · exact ⟨k + 1, v, hv, h⟩

/-- The names are compared with the names of the first attribute rows, the values with the values of
the rows they belong to. -/
theorem mem_equations {m i j : Nat} {e : Equation} : e ∈ equations m i j ts ↔
    (∃ k s, (names ts)[k]? = some s ∧
      e = .literal ⟨(row (i + k)).binding, "meta_attr_name"⟩ s) ∨
    ∃ k s, (values ts)[k]? = some s ∧
      e = .literal ⟨(row (rowOfValue m (j + k))).binding, "meta_attr_value"⟩ s := by
  induction ts generalizing i j with
  | nil => simp [equations, names, values]
  | cons t ts ih =>
    -- The test at the head has the number 0 among the names or the values; it shifts the others of
    -- its kind by one.
    cases t with
    | name s =>
      rw [equations, List.mem_cons, ih, names_name, values_name, exists_getElem?_cons, or_assoc]
      simp only [Nat.add_zero, Nat.add_assoc, Nat.add_comm 1]
    | value s =>
      rw [equations, List.mem_cons, ih, names_value, values_value, exists_getElem?_cons, or_left_comm]
      simp only [Nat.add_zero, Nat.add_assoc, Nat.add_comm 1]

theorem rowCount_eq_max {i : Nat} {s : String}
    (h : (names ts)[i]? = some s ∨ (values ts)[i]? = some s) :
    rowCount ts = max (names ts).length 1 := by
  cases ts with
  | nil => simp [names, values] at h
  | cons t ts => rfl

theorem lt_rowCount_of_name {i : Nat} {s : String} (h : (names ts)[i]? = some s) :
    i < rowCount ts := by
  obtain ⟨hi, -⟩ := List.getElem?_eq_some_iff.mp h
  rw [rowCount_eq_max (.inl h)]
  omega

theorem rowOfValue_lt {j : Nat} {s : String} (h : (values ts)[j]? = some s) :
    rowOfValue (names ts).length j < rowCount ts := by
  rw [rowCount_eq_max (.inr h)]
  unfold rowOfValue
  split <;> omega

theorem mem_selection {order : SortOrder} {e : Equation} : e ∈ (selection order ts).equations ↔
    e ∈ equations (names ts).length 0 0 ts ∨ ∃ i < rowCount ts, e ∈ joins i := by
  simp [selection]

end AttributeTest

end CatalogQuery
