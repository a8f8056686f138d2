import CatalogQuery.Identifier

/-!
# Column buffers

The values of one column of a page, each in a slot of the width of the column. A value fills the
first bytes of its slot, zeros the rest; the byte length of every value is kept beside the slots, so
values may hold any character.

* `length_slot`: a value that fits fills its slot exactly;
* `take_slot`: the first bytes of a slot are the value.
-/

namespace CatalogQuery

/-- The bytes of a text in UTF-8. -/
def textBytes (s : String) : List UInt8 := s.toByteArray.data.toList

/-- The text of some bytes, if they are UTF-8. -/
def bytesText? (bs : List UInt8) : Option String := String.fromUTF8? ⟨bs.toArray⟩

/-- The bytes, filled up with zeros. -/
def slot (width : Nat) (bs : List UInt8) : List UInt8 :=
  bs ++ List.replicate (width - bs.length) 0

@[simp] theorem length_slot {width : Nat} {bs : List UInt8} (h : bs.length ≤ width) :
    (slot width bs).length = width := by
  simp [slot]; omega

@[simp] theorem take_slot (width : Nat) (bs : List UInt8) :
    (slot width bs).take bs.length = bs := by
  simp [slot]

/-- Lays out the first `rows` slots of width `old` anew. -/
def relaid (old new : Nat) : Nat → List UInt8 → List UInt8
  | 0, _ => []
  | rows + 1, bs => slot new (bs.take old) ++ relaid old new rows (bs.drop old)

structure ColumnBuffer where
  id : ColumnId
  width : Nat
  bytes : List UInt8
  lengths : List Nat
  deriving DecidableEq, Repr

namespace ColumnBuffer

def empty (id : ColumnId) : ColumnBuffer := ⟨id, 0, [], []⟩

/-- Gives the slots a new width. -/
def widen (b : ColumnBuffer) (rows width : Nat) : ColumnBuffer :=
  { b with width := width, bytes := relaid b.width width rows b.bytes }

/-- Adds a value in the next slot. -/
def push (b : ColumnBuffer) (value : String) : ColumnBuffer :=
  let bs := textBytes value
  { b with bytes := b.bytes ++ slot b.width bs, lengths := b.lengths ++ [bs.length] }

/-- The value in slot `row`. -/
def value? (b : ColumnBuffer) (row : Nat) : Option String :=
  b.lengths[row]?.bind fun n => bytesText? ((b.bytes.drop (row * b.width)).take n)

end ColumnBuffer

end CatalogQuery
