/-!
# Words

The ranges of numbers of 32 and 64 bits, and powers of the bases two and ten.
-/

namespace CatalogQuery

def twoTo (n : Nat) : Nat := Nat.pow 2 n

def tenTo (n : Nat) : Nat := Nat.pow 10 n

/-- Natural numbers of 32 bits are below this. -/
def bound32 : Nat := 4294967296

/-- Natural numbers of 64 bits are below this. -/
def bound64 : Nat := 18446744073709551616

/-- Signed integers of 64 bits are below this. -/
def signedBound64 : Nat := 9223372036854775808

/-- Signed integers of 64 bits. -/
def fits64 (n : Int) : Bool := -(signedBound64 : Int) ≤ n && n < signedBound64

theorem bound64_eq_twoTo : bound64 = twoTo 64 := rfl

theorem signedBound64_eq_twoTo : signedBound64 = twoTo 63 := rfl

end CatalogQuery
