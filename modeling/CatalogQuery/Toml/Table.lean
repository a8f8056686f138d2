import CatalogQuery.Data.Basic

/-!
# Tables that grow

A document builds its tables line by line. Each table remembers what called for it, because that
decides what may still be added: a header opens a table once, and a dotted key goes only through
tables that dotted keys have made or that no header has opened yet.

* `descend` is the way along a path, shared by headers and keys.
-/

namespace CatalogQuery.Toml

/-- What called for a table. -/
inductive Origin where
  | header
  /-- A header of a table inside it. -/
  | innerHeader
  | dottedKey
  deriving DecidableEq, Repr

inductive Node where
  | value (d : Data)
  | table (origin : Origin) (fields : List (String × Node))
  /-- An array of tables; only its last table grows. -/
  | tables (earlier : List Node) (origin : Origin) (fields : List (String × Node))

/-- A table with its fields in the order of their first mention. -/
structure Table where
  origin : Origin
  fields : List (String × Node) := []

mutual

def Node.data : Node → Data
  | .value d => d
  | .table _ fields => .record (fieldsData fields)
  | .tables earlier _ fields => .list (nodesData earlier ++ [.record (fieldsData fields)])

def nodesData : List Node → List Data
  | [] => []
  | n :: ns => n.data :: nodesData ns

def fieldsData : List (String × Node) → List (String × Data)
  | [] => []
  | (name, n) :: fs => (name, n.data) :: fieldsData fs

end

namespace Table

def data (t : Table) : Data := .record (fieldsData t.fields)

def get? (t : Table) (key : String) : Option Node :=
  (t.fields.find? (·.1 == key)).map (·.2)

/-- Puts a field in its place, at the end if it is new. -/
def put (t : Table) (key : String) (n : Node) : Table :=
  if t.fields.any (·.1 == key) then
    { t with fields := t.fields.map fun f => if f.1 == key then (key, n) else f }
  else { t with fields := t.fields ++ [(key, n)] }

/-- Changes the table at the end of a path, making the tables that are missing. A dotted key does
not go through a table that a header has opened. -/
def descend (made : Origin) (change : Table → Option Table) : List String → Table → Option Table
  | [], t => change t
  | key :: path, t => do
    match t.get? key with
    | none =>
      let inner ← descend made change path ⟨made, []⟩
      return t.put key (.table inner.origin inner.fields)
    | some (.value _) => none
    | some (.table origin fields) =>
      if made = .dottedKey ∧ origin = .header then none
      let inner ← descend made change path ⟨origin, fields⟩
      return t.put key (.table inner.origin inner.fields)
    | some (.tables earlier origin fields) =>
      let inner ← descend made change path ⟨origin, fields⟩
      return t.put key (.tables earlier inner.origin inner.fields)

/-- Adds a value under a key. The tables that the dots name have to be made by dotted keys. -/
def insert (dots : List String) (key : String) (d : Data) : Table → Option Table :=
  descend .dottedKey (fun t =>
    if dots ≠ [] ∧ t.origin ≠ .dottedKey then none
    else if (t.get? key).isSome then none
    else some (t.put key (.value d))) dots

/-- Opens the table of a header. -/
def openTable (path : List String) (key : String) : Table → Option Table :=
  descend .innerHeader (fun t =>
    match t.get? key with
    | none => some (t.put key (.table .header []))
    | some (.table .innerHeader fields) => some (t.put key (.table .header fields))
    | some _ => none) path

/-- Adds a table to the array of a header. -/
def addTable (path : List String) (key : String) : Table → Option Table :=
  descend .innerHeader (fun t =>
    match t.get? key with
    | none => some (t.put key (.tables [] .header []))
    | some (.tables earlier origin fields) =>
      some (t.put key (.tables (earlier ++ [.table origin fields]) .header []))
    | some _ => none) path

end Table

end CatalogQuery.Toml
