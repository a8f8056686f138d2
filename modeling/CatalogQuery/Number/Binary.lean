import CatalogQuery.Number.Word

/-!
# Binary numbers of 53 bits

Numbers `mantissa · 2 ^ exponent` as a catalog computes with them: every result is the exact one,
rounded to 53 bits, of two neighbours at the same distance to the even one. The exponent is not below
-1074. A result beyond the range is held at 2 ^ 1024, which stands for infinity.

* `roundDiv_mul`: a quotient without remainder is kept;
* `two_mul_roundDiv_le`, `le_two_mul_roundDiv`: a rounded quotient is off by half a unit at most.
-/

namespace CatalogQuery

/-- The number `mantissa · 2 ^ exponent`. -/
structure Binary where
  mantissa : Int
  exponent : Int
  deriving DecidableEq, Repr, Inhabited

/-! ## Rounding quotients -/

/-- The quotient to the nearest integer, a half to the even neighbour. -/
def roundDiv (n d : Nat) : Nat :=
  let q := n / d
  let r := n % d
  if 2 * r < d then q else if d < 2 * r then q + 1 else q + q % 2

theorem roundDiv_mul {d : Nat} (hd : 0 < d) (q : Nat) : roundDiv (q * d) d = q := by
  simp [roundDiv, Nat.mul_div_cancel q hd, hd]

theorem two_mul_roundDiv_le {d : Nat} (hd : 0 < d) (n : Nat) :
    2 * (roundDiv n d * d) ≤ 2 * n + d := by
  have h := Nat.div_add_mod n d
  have hr := Nat.mod_lt n hd
  have hc : d * (n / d) = n / d * d := Nat.mul_comm _ _
  unfold roundDiv
  simp only
  split
  · omega
  · split
    · rw [Nat.add_mul]; omega
    · have : n / d % 2 < 2 := Nat.mod_lt _ (by omega)
      rw [Nat.add_mul]
      have hm : n / d % 2 * d ≤ 1 * d := Nat.mul_le_mul_right d (by omega)
      omega

theorem le_two_mul_roundDiv {d : Nat} (hd : 0 < d) (n : Nat) :
    2 * n ≤ 2 * (roundDiv n d * d) + d := by
  have h := Nat.div_add_mod n d
  have hr := Nat.mod_lt n hd
  have hc : d * (n / d) = n / d * d := Nat.mul_comm _ _
  unfold roundDiv
  simp only
  split
  · omega
  · split
    · rw [Nat.add_mul]; omega
    · rw [Nat.add_mul]; omega

namespace Binary

def leastExponent : Int := -1074

/-- `n / d` in units of `2 ^ e`, as a quotient. -/
def inUnits (n d : Nat) (e : Int) : Nat × Nat :=
  if 0 ≤ e then (n, d * twoTo e.toNat) else (n * twoTo (-e).toNat, d)

/-- The exponent at which `n / d` has 53 bits before the point. -/
def exponentFor (n d : Nat) : Int :=
  let e : Int := (n.log2 : Int) - d.log2 - 52
  let u := inUnits n d e
  if u.1 / u.2 < twoTo 52 then e - 1 else e

def infinity (negative : Bool) : Binary := ⟨if negative then -1 else 1, 1024⟩

def isInfinite (x : Binary) : Bool := x.exponent == 1024

/-- The binary number nearest to `n / d`. -/
def ofQuotient (n : Int) (d : Nat) : Binary :=
  if n = 0 then ⟨0, 0⟩
  else
    let e := max (exponentFor n.natAbs d) leastExponent
    let u := inUnits n.natAbs d e
    let q := roundDiv u.1 u.2
    if 971 < e ∨ (e = 971 ∧ twoTo 53 ≤ q) then infinity (n < 0)
    else ⟨if n < 0 then -q else q, e⟩

def ofInt (n : Int) : Binary := ofQuotient n 1

/-- The number nearest to `n · 10 ^ e`. -/
def ofDecimal (n : Int) (e : Int) : Binary :=
  if 0 ≤ e then ofQuotient (n * tenTo e.toNat) 1 else ofQuotient n (tenTo (-e).toNat)

/-! ## Comparing -/

/-- The mantissa that belongs to a smaller exponent. -/
def mantissaAt (x : Binary) (e : Int) : Int := x.mantissa * twoTo (x.exponent - e).toNat

def compare (x y : Binary) : Ordering :=
  let e := min x.exponent y.exponent
  Ord.compare (x.mantissaAt e) (y.mantissaAt e)

/-- An integer as it is, without rounding. -/
def exact (n : Int) : Binary := ⟨n, 0⟩

/-! ## Computing -/

/-- The number nearest to `m · 2 ^ e`. -/
def ofScaled (m : Int) (e : Int) : Binary :=
  if 0 ≤ e then ofQuotient (m * twoTo e.toNat) 1 else ofQuotient m (twoTo (-e).toNat)

def add (x y : Binary) : Binary :=
  if x.isInfinite then x
  else if y.isInfinite then y
  else
    let e := min x.exponent y.exponent
    ofScaled (x.mantissaAt e + y.mantissaAt e) e

def neg (x : Binary) : Binary := ⟨-x.mantissa, x.exponent⟩

def sub (x y : Binary) : Binary := x.add y.neg

def abs (x : Binary) : Binary := ⟨x.mantissa.natAbs, x.exponent⟩

/-- A quotient by a positive integer. -/
def divNat (x : Binary) (n : Nat) : Binary :=
  if x.isInfinite then x
  else if 0 ≤ x.exponent then ofQuotient (x.mantissa * twoTo x.exponent.toNat) n
  else ofQuotient x.mantissa (n * twoTo (-x.exponent).toNat)

end Binary

end CatalogQuery
