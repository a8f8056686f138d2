import CatalogQuery.Number.Binary

/-!
# Shortest decimals

A binary number is written with the fewest digits that are rounded back to it; of several such
decimals the nearest is taken. The text has no exponent and no point behind a whole number.
-/

namespace CatalogQuery

namespace Binary

/-- The reals that are rounded to a number lie between two bounds, counted in quarters of its last
bit; the bounds belong to them iff the mantissa is even. -/
structure Interval where
  low : Nat
  mid : Nat
  high : Nat
  /-- The exponent of a quarter of the last bit. -/
  unit : Int
  closed : Bool

/-- The mantissa with 53 bits where the exponent allows it. -/
def widened (m : Nat) (e : Int) : Nat × Int :=
  let shift := min (52 - m.log2) (e - leastExponent).toNat
  (m * twoTo shift, e - shift)

/-- The interval of a positive number. Below a power of two the numbers are twice as dense. -/
def interval (m : Nat) (e : Int) : Interval :=
  let (m, e) := widened m e
  ⟨if m = twoTo 52 ∧ leastExponent < e then 4 * m - 1 else 4 * m - 2, 4 * m, 4 * m + 2, e - 2,
    m % 2 == 0⟩

/-- Compares `c · 10 ^ p` with `n · 2 ^ e`. -/
def compareDecimal (c : Nat) (p : Int) (n : Nat) (e : Int) : Ordering :=
  Ord.compare (c * tenTo p.toNat * twoTo (-e).toNat) (n * twoTo e.toNat * tenTo (-p).toNat)

def Interval.contains (i : Interval) (c : Nat) (p : Int) : Bool :=
  let low := compareDecimal c p i.low i.unit
  let high := compareDecimal c p i.high i.unit
  (low == .gt || (i.closed && low == .eq)) && (high == .lt || (i.closed && high == .eq))

/-- The greatest `c` with `c · 10 ^ p` not above the number. -/
def Interval.floorAt (i : Interval) (p : Int) : Nat :=
  (i.mid * twoTo i.unit.toNat * tenTo (-p).toNat) / (tenTo p.toNat * twoTo (-i.unit).toNat)

/-- The upper neighbour on the grid is nearer than the lower one, or as near and even. -/
def Interval.prefersUpper (i : Interval) (c : Nat) (p : Int) : Bool :=
  match compareDecimal (2 * c + 1) p (2 * i.mid) i.unit with
  | .lt => true
  | .eq => c % 2 == 1
  | .gt => false

/-- The decimal of the grid `10 ^ p` that lies in the interval and is nearest to the number. -/
def Interval.onGrid (i : Interval) (p : Int) : Option Nat :=
  let c := i.floorAt p
  match i.contains c p, i.contains (c + 1) p with
  | true, true => some (if i.prefersUpper c p then c + 1 else c)
  | true, false => some c
  | false, true => some (c + 1)
  | false, false => none

/-- The first grid with a decimal in the interval, from coarse to fine. -/
def Interval.scan (i : Interval) : Nat → Int → Nat × Int
  | 0, p => (i.floorAt p, p)
  | fuel + 1, p =>
    match i.onGrid p with
    | some c => (c, p)
    | none => i.scan fuel (p - 1)

/-- Takes zeros off the end of the digits. -/
def withoutZeros : Nat → Nat → Int → Nat × Int
  | 0, c, p => (c, p)
  | fuel + 1, c, p => if c ≠ 0 ∧ c % 10 = 0 then withoutZeros fuel (c / 10) (p + 1) else (c, p)

/-- The shortest decimal `c · 10 ^ p` of a positive number. It has at most 17 digits, and the
estimate of its first digit's place is too high by at most two. -/
def shortest (m : Nat) (e : Int) : Nat × Int :=
  let place : Int := ((m.log2 : Int) + e) * 30103 / 100000 + 1
  let (c, p) := (interval m e).scan 20 place
  withoutZeros 20 c p

end Binary

/-- The digits with the point `p` places from their end. -/
def decimalText (c : Nat) (p : Int) : String :=
  let digits := (toString c).toList
  if 0 ≤ p then String.ofList (digits ++ List.replicate p.toNat '0')
  else
    let places := (-p).toNat
    let padded := List.replicate (places + 1 - digits.length) '0' ++ digits
    let whole := padded.length - places
    String.ofList (padded.take whole ++ '.' :: padded.drop whole)

/-- The text of a number. -/
def Binary.text (x : Binary) : String :=
  let sign := if x.mantissa < 0 then "-" else ""
  if x.mantissa = 0 then "0"
  else if x.isInfinite then sign ++ "inf"
  else
    let d := shortest x.mantissa.natAbs x.exponent
    sign ++ decimalText d.1 d.2

end CatalogQuery
