import CatalogQuery.Number.Numeral

/-!
# Values of a catalog

Nothing, numbers and texts. Numbers stand before texts. A column prefers numbers or texts, and a
comparison converts its sides as the columns in it prefer.

* `Comparison.holds_int`, `Comparison.holds_text`: columns of integers and of texts are compared as
  what is in them.
-/

namespace CatalogQuery

inductive Value where
  | null
  | number (n : Number)
  | text (s : String)
  deriving DecidableEq, Repr, Inhabited

namespace Value

def int (n : Int) : Value := .number (.int n)

/-- The value as a row of a result shows it. -/
def shown : Value → String
  | null => ""
  | number n => n.text
  | text s => s

/-- The order of values: nothing, then numbers, then texts by their characters. -/
def compare : Value → Value → Ordering
  | null, null => .eq
  | null, _ => .lt
  | _, null => .gt
  | number a, number b => a.compare b
  | number _, text _ => .lt
  | text _, number _ => .gt
  | text a, text b => Ord.compare a b

def isNull : Value → Bool
  | null => true
  | _ => false

/-- The value as a number: a text by the number with which it begins. -/
def asNumber : Value → Number
  | null => .int 0
  | number n => n
  | text s => numericStart s

/-- A text function reads a value up to the first character NUL. -/
def chars (v : Value) : List Char := v.shown.toList.takeWhile (· != '\x00')

end Value

/-! ## Preferences -/

/-- What a column or an expression prefers its values to be. -/
inductive Affinity where
  | none
  | numeric
  | text
  deriving DecidableEq, Repr

namespace Affinity

/-- The preference that decides how two sides are compared. -/
def forComparison : Affinity → Affinity → Affinity
  | none, b => b
  | a, none => a
  | numeric, _ => numeric
  | _, numeric => numeric
  | text, text => none

/-- Converts a side of a comparison. A text that does not look like a number stays a text. -/
def apply : Affinity → Value → Value
  | numeric, .text s =>
    match wholeNumber? s with
    | some n => .number n
    | Option.none => .text s
  | text, .number n => .text n.text
  | _, v => v

end Affinity

/-! ## Comparisons -/

inductive Comparison where
  | eq
  | ne
  | lt
  | le
  | gt
  | ge
  deriving DecidableEq, Repr

def Comparison.admits (c : Comparison) (o : Ordering) : Bool :=
  match c with
  | eq => o == .eq
  | ne => o != .eq
  | lt => o == .lt
  | le => o != .gt
  | gt => o == .gt
  | ge => o != .lt

/-- A value with the preference of the expression that gave it. -/
structure Typed where
  value : Value
  affinity : Affinity
  deriving DecidableEq, Repr

/-- Whether a comparison holds; nothing compares with nothing. -/
def Comparison.holds (c : Comparison) (a b : Typed) : Bool :=
  let affinity := a.affinity.forComparison b.affinity
  let x := affinity.apply a.value
  let y := affinity.apply b.value
  !x.isNull && !y.isNull && c.admits (x.compare y)

theorem Value.compare_int (a b : Int) : (Value.int a).compare (.int b) = Ord.compare a b := by
  simp [Value.int, Value.compare, Number.compare, Number.binary, Binary.compare, Binary.exact,
    Binary.mantissaAt, twoTo]

theorem Value.compare_int_eq (a b : Int) : (Value.int a).compare (.int b) = .eq ↔ a = b := by
  rw [Value.compare_int]
  exact Std.compare_eq_iff_eq

namespace Comparison

/-- Columns of integers are compared as integers are. -/
theorem holds_int (o : Comparison) (a b : Int) :
    o.holds ⟨.int a, .numeric⟩ ⟨.int b, .numeric⟩ = o.admits (Ord.compare a b) := by
  rw [← Value.compare_int]
  simp [holds, Affinity.forComparison, Affinity.apply, Value.isNull, Value.int]

/-- A column of texts is compared with a text character by character, also with one that looks like a
number. -/
theorem holds_text (o : Comparison) (v w : String) :
    o.holds ⟨.text v, .text⟩ ⟨.text w, .none⟩ = o.admits (Ord.compare v w) := by
  simp [holds, Affinity.forComparison, Affinity.apply, Value.isNull, Value.compare]

theorem eq_admits {α : Type} [Ord α] [Std.LawfulEqOrd α] (a b : α) :
    eq.admits (Ord.compare a b) = true ↔ a = b := by
  simp [admits]

theorem ge_admits (a b : Int) : ge.admits (Ord.compare a b) = true ↔ b ≤ a := by
  rw [← Int.not_lt, ← Int.compare_eq_lt, admits, bne_iff_ne]

end Comparison

/-! ## Patterns -/

/-- All ends of a text, the whole text first. -/
def endsOf : List Char → List (List Char)
  | [] => [[]]
  | c :: r => (c :: r) :: endsOf r

/-- Matches a pattern in which `%` stands for any text and `_` for one character; the case of ASCII
letters does not matter. -/
def matchesPattern : List Char → List Char → Bool
  | [], s => s.isEmpty
  | p :: ps, s =>
    if p = '%' then (endsOf s).any (matchesPattern ps)
    else match s with
      | [] => false
      | c :: r => (p = '_' || p.toLower == c.toLower) && matchesPattern ps r

end CatalogQuery
