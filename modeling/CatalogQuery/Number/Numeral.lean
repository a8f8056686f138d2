import CatalogQuery.Number.Shortest

/-!
# Numerals in texts

The number with which a text begins: blanks, a sign, digits with a point, an exponent. A numeral
without point and exponent is an integer if it has 64 bits; every other one is a binary number.

* `wholeNumber?_toString`: the text of an integer is read as that integer.
-/

namespace CatalogQuery

/-- A number of the catalog. -/
inductive Number where
  | int (n : Int)
  | real (x : Binary)
  deriving DecidableEq, Repr

namespace Number

def binary : Number → Binary
  | int n => .exact n
  | real x => x

/-- Compares values, whatever their kinds. -/
def compare (a b : Number) : Ordering := a.binary.compare b.binary

/-- The number as a binary number, rounded. -/
def rounded : Number → Binary
  | int n => .ofInt n
  | real x => x

def text : Number → String
  | int n => toString n
  | real x => x.text

def isZero : Number → Bool
  | int n => n == 0
  | real x => x.mantissa == 0

end Number

/-- A numeral: `± digits · 10 ^ scale`, and what stands behind it. -/
structure Numeral where
  negative : Bool
  digits : Nat
  /-- How many digits there are before and behind the point. -/
  count : Nat
  scale : Int
  integral : Bool
  rest : List Char
  deriving Repr

namespace Numeral

/-- Blanks around numerals: ASCII ones only. -/
def isBlank (c : Char) : Bool := c == ' ' || (9 ≤ c.toNat && c.toNat ≤ 13)

def digitsValue (ds : List Char) : Nat := ds.foldl (fun n c => 10 * n + (c.toNat - 48)) 0

def span (p : Char → Bool) (s : List Char) : List Char × List Char :=
  (s.takeWhile p, s.dropWhile p)

/-- A larger exponent is read as this one; the number is then infinite or zero. -/
def greatestExponent : Nat := 10000

/-- The exponent behind a mantissa, if there is a complete one. -/
def exponent (s : List Char) : Option (Int × List Char) :=
  match s with
  | [] => none
  | c :: r =>
    if c = 'e' ∨ c = 'E' then
      let (negative, r) := match r with
        | '-' :: t => (true, t)
        | '+' :: t => (false, t)
        | _ => (false, r)
      let (ds, r) := span Char.isDigit r
      if ds.isEmpty then none
      else
        let e := min (digitsValue ds) greatestExponent
        some (if negative then -(e : Int) else e, r)
    else none

/-- The numeral at the beginning of a text. It may lack digits. -/
def read (s : List Char) : Numeral :=
  let s := s.dropWhile isBlank
  let (negative, s) := match s with
    | '-' :: r => (true, r)
    | '+' :: r => (false, r)
    | _ => (false, s)
  let (whole, s) := span Char.isDigit s
  let (point, fraction, s) := match s with
    | '.' :: r => (true, span Char.isDigit r)
    | _ => (false, [], s)
  let (e, exponential, s) := match exponent s with
    | some (e, r) => (e, true, r)
    | none => (0, false, s)
  ⟨negative, digitsValue (whole ++ fraction), whole.length + fraction.length,
    e - fraction.length, !point && !exponential, s⟩

/-- The number that a numeral stands for; one without digits stands for zero. -/
def number (n : Numeral) : Number :=
  let m : Int := if n.negative then -(n.digits : Int) else n.digits
  if n.count = 0 then .int 0
  else if n.integral && fits64 m then .int m
  else .real (.ofDecimal m n.scale)

/-- Nothing but blanks stands behind the numeral, and it has digits. -/
def isWhole (n : Numeral) : Bool := n.count != 0 && n.rest.all isBlank

end Numeral

/-- The number with which a text begins, zero if there is none. -/
def numericStart (s : String) : Number := (Numeral.read s.toList).number

/-- The number that a text looks like as a whole. -/
def wholeNumber? (s : String) : Option Number :=
  let n := Numeral.read s.toList
  if n.isWhole then some n.number else none

/-! ## Texts of integers -/

namespace Numeral

theorem span_digits {ds : List Char} (h : ∀ c ∈ ds, c.isDigit = true) :
    span Char.isDigit ds = (ds, []) := by
  induction ds with
  | nil => rfl
  | cons d ds ih =>
    have htail := ih fun c hc => h c (List.mem_cons_of_mem d hc)
    simp only [span, Prod.mk.injEq] at htail
    simp [span, h d List.mem_cons_self, htail]

theorem isBlank_of_isDigit {c : Char} (h : c.isDigit = true) : isBlank c = false := by
  simp only [Char.isDigit, Bool.and_eq_true, decide_eq_true_eq, ge_iff_le, UInt32.le_iff_toNat_le] at h
  have hlow : 48 ≤ c.toNat := h.1
  have hne : c ≠ ' ' := by rintro rfl; revert hlow; decide
  simp [isBlank, hne]
  omega

theorem read_digits {ds : List Char} (hne : ds ≠ []) (h : ∀ c ∈ ds, c.isDigit = true) :
    Numeral.read ds = ⟨false, digitsValue ds, ds.length, 0, true, []⟩ := by
  cases ds with
  | nil => exact absurd rfl hne
  | cons d ds =>
    have hd := h d List.mem_cons_self
    have hminus : d ≠ '-' := by rintro rfl; cases hd
    have hplus : d ≠ '+' := by rintro rfl; cases hd
    have hdrop : (d :: ds).dropWhile isBlank = d :: ds := by
      simp [isBlank_of_isDigit hd]
    unfold Numeral.read
    simp only [hdrop]
    split
    case h_1 heq => exact absurd (List.cons.inj heq).1 hminus
    case h_2 heq => exact absurd (List.cons.inj heq).1 hplus
    case h_3 => simp [span_digits h, exponent]

theorem read_negative {ds : List Char} (h : ∀ c ∈ ds, c.isDigit = true) :
    Numeral.read ('-' :: ds) = ⟨true, digitsValue ds, ds.length, 0, true, []⟩ := by
  have hblank : isBlank '-' = false := by decide
  simp [Numeral.read, hblank, span_digits h, exponent]

theorem exists_digits (n : Nat) : ∃ ds, (toString n).toList = ds ∧ ds ≠ [] ∧
    (∀ c ∈ ds, c.isDigit = true) ∧ digitsValue ds = n := by
  rw [Nat.toString_eq_ofList_toDigits, String.toList_ofList]
  exact ⟨_, rfl, Nat.toDigits_ne_nil, fun c hc => Nat.isDigit_of_mem_toDigits (by omega) (by omega) hc,
    Nat.ofDigitChars_ten_toDigits⟩

end Numeral

/-- The text of an integer of 64 bits looks like that integer. -/
theorem wholeNumber?_toString {n : Int} (hn : fits64 n = true) :
    wholeNumber? (toString n) = some (.int n) := by
  cases n with
  | ofNat m =>
    obtain ⟨ds, hds, hne, hdigits, hvalue⟩ := Numeral.exists_digits m
    have htext : (toString (Int.ofNat m)).toList = ds := hds
    have hfits : fits64 (m : Int) = true := hn
    rw [wholeNumber?, htext, Numeral.read_digits hne hdigits]
    simp [Numeral.isWhole, Numeral.number, hvalue, hne, hfits]
  | negSucc m =>
    obtain ⟨ds, hds, hne, hdigits, hvalue⟩ := Numeral.exists_digits (m + 1)
    have htext : (toString (Int.negSucc m)).toList = '-' :: ds := by
      have h : toString (Int.negSucc m) = "-" ++ toString (m + 1) := rfl
      rw [h, String.toList_append, hds]
      rfl
    have hnegative : -((m : Int) + 1) = Int.negSucc m := (Int.negSucc_eq m).symm
    rw [wholeNumber?, htext, Numeral.read_negative hdigits]
    simp [Numeral.isWhole, Numeral.number, hvalue, hne, hnegative, hn]

end CatalogQuery
