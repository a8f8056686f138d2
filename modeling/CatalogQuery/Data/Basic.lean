/-!
# Structured data

What a JSON or TOML document says, free of its spelling. Records keep the order of their fields and
may name a field twice; `Data.lastWins` keeps the last value of each field.
-/

namespace CatalogQuery

inductive Data where
  | null
  | bool (b : Bool)
  | int (n : Int)
  /-- A number with a fraction or an exponent; no field of this library takes one. -/
  | real
  /-- A date or a time of day; no field of this library takes one. -/
  | time
  | text (s : String)
  | list (items : List Data)
  | record (fields : List (String × Data))
  deriving Inhabited

namespace Data

def nat (n : Nat) : Data := .int n

def texts (xs : List String) : Data := .list (xs.map .text)

/-- An absent value is written as null. -/
def option {α : Type} (f : α → Data) : Option α → Data
  | none => .null
  | some a => f a

def field? (d : Data) (name : String) : Option Data :=
  match d with
  | .record fields => (fields.find? (·.1 == name)).map (·.2)
  | _ => none

/-! ## Repeated fields -/

/-- Puts a field at the end of the fields, or in the place of the field of the same name. -/
def put (name : String) (d : Data) : List (String × Data) → List (String × Data)
  | [] => [(name, d)]
  | f :: fs => if f.1 = name then (name, d) :: fs else f :: put name d fs

mutual

/-- Keeps the last value of every field, at any depth. -/
def lastWins : Data → Data
  | .list items => .list (lastWinsList items)
  | .record fields => .record (lastWinsFields [] fields)
  | d => d

def lastWinsList : List Data → List Data
  | [] => []
  | d :: ds => lastWins d :: lastWinsList ds

def lastWinsFields (done : List (String × Data)) : List (String × Data) → List (String × Data)
  | [] => done
  | (name, d) :: fs => lastWinsFields (put name (lastWins d) done) fs

end

/-! ## Sorted fields -/

/-- Puts a field before the first field whose name is greater, or in the place of an equal one. -/
def insert (name : String) (d : Data) : List (String × Data) → List (String × Data)
  | [] => [(name, d)]
  | f :: fs =>
    if name < f.1 then (name, d) :: f :: fs
    else if f.1 = name then (name, d) :: fs
    else f :: insert name d fs

mutual

/-- Sorts the fields of every record by name; the last value of a repeated field stays. -/
def sorted : Data → Data
  | .list items => .list (sortedList items)
  | .record fields => .record (sortedFields [] fields)
  | d => d

def sortedList : List Data → List Data
  | [] => []
  | d :: ds => sorted d :: sortedList ds

def sortedFields (done : List (String × Data)) : List (String × Data) → List (String × Data)
  | [] => done
  | (name, d) :: fs => sortedFields (insert name (sorted d) done) fs

end

end Data

end CatalogQuery
