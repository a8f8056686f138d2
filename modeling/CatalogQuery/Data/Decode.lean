import CatalogQuery.Data.Basic
import CatalogQuery.Number.Word

/-!
# Reading values out of structured data

A decoder gives `none` where the data does not have the shape of the value. A record may be written
as a list of its fields in their declared order; trailing fields that have a default may then be
missing. A record that names a known field twice is refused, unknown fields are passed over. A time
counts as a record without any of the fields.
-/

namespace CatalogQuery

abbrev Decoder (α : Type) := Data → Option α

namespace Data

def asText : Decoder String
  | .text s => some s
  | _ => none

def asBool : Decoder Bool
  | .bool b => some b
  | _ => none

/-- A natural number below `bound`. -/
def asNatBelow (bound : Nat) : Decoder Nat
  | .int n => if 0 ≤ n ∧ n < bound then some n.toNat else none
  | _ => none

/-- Identifiers of columns have 32 bits. -/
def asWord32 : Decoder Nat := asNatBelow bound32

/-- Offsets, tokens and widths have 64 bits. -/
def asWord64 : Decoder Nat := asNatBelow bound64

/-- Signed numbers of 64 bits. -/
def asInt64 : Decoder Int
  | .int n => if fits64 n then some n else none
  | _ => none

def asList {α : Type} (item : Decoder α) : Decoder (List α)
  | .list items => items.mapM item
  | _ => none

def asOption {α : Type} (item : Decoder α) : Decoder (Option α)
  | .null => some none
  | d => (item d).map some

/-- The name of a plain case: a text, or a record with the name as its only field and a value that
`isUnit` takes as empty. -/
def asCase (isUnit : Data → Bool) : Decoder String
  | .text s => some s
  | .record [(name, d)] => if isUnit d then some name else none
  | _ => none

def isNull : Data → Bool
  | .null => true
  | _ => false

/-- The empty values of a notation without null. -/
def isEmptyContainer : Data → Bool
  | .list [] => true
  | .record [] => true
  | _ => false

/-- One of the cases of `table`, by its name. -/
def asCaseOf {α : Type} (isUnit : Data → Bool) (table : List (String × α)) : Decoder α := fun d =>
  (asCase isUnit d).bind fun name => (table.find? (·.1 == name)).map (·.2)

end Data

/-! ## Fields -/

/-- The declared fields that a record holds. -/
structure Fields where
  byName : List (String × Data)
  /-- The fields were given by position. -/
  positional : Bool

namespace Fields

/-- Reads the fields `names` of a record, of a list or of a time, which has none of them. -/
def read (names : List String) : Data → Option Fields
  | .record fields =>
    let known := fields.filter fun f => names.contains f.1
    if (known.map (·.1)).Nodup then some ⟨known, false⟩ else none
  | .list items =>
    if items.length ≤ names.length then some ⟨names.zip items, true⟩ else none
  | .time => some ⟨[], false⟩
  | _ => none

def get? (f : Fields) (name : String) : Option Data :=
  (f.byName.find? (·.1 == name)).map (·.2)

/-- A field that has to be there. -/
def need {α : Type} (f : Fields) (name : String) (item : Decoder α) : Option α :=
  (f.get? name).bind item

/-- A field with a default. -/
def withDefault {α : Type} (f : Fields) (name : String) (default : α) (item : Decoder α) :
    Option α :=
  match f.get? name with
  | none => some default
  | some d => item d

/-- An optional field without a default: absent by name it is `none`, but a list has to hold it. -/
def optional {α : Type} (f : Fields) (name : String) (item : Decoder α) : Option (Option α) :=
  match f.get? name with
  | none => if f.positional then none else some none
  | some d => Data.asOption item d

end Fields

end CatalogQuery
