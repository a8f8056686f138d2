import CatalogQuery.Error
import CatalogQuery.Schema.Conventions

/-!
# Schemas

A schema is a graph: tables are its nodes, links with a join predicate its edges. Columns map
abstract numbers to columns of tables. Tables and links are named by their position in the order of
registration.
-/

namespace CatalogQuery

/-- The position of a table. -/
abbrev TableId := Nat

/-- The position of a link. -/
abbrev LinkId := Nat

structure Table where
  /-- The binding by which column references name the table. -/
  name : String
  /-- The entry in a list of sources: the name, or a base table with the name behind it. -/
  source : String
  /-- Joins may end at this table but never pass through it. -/
  cycler : Bool
  deriving DecidableEq, Repr

structure Column where
  id : ColumnId
  table : TableId
  name : String
  deriving DecidableEq, Repr

/-- A join between two tables, usable in both directions. -/
structure Link where
  left : TableId
  right : TableId
  predicate : String
  deriving DecidableEq, Repr

/-- The other end of a link. -/
def Link.other (l : Link) (t : TableId) : TableId := if l.left = t then l.right else l.left

/-- Greatest sizes of the registries; `none` is unbounded. -/
structure Limits where
  maxTables : Option Nat := none
  maxColumns : Option Nat := none
  maxLinks : Option Nat := none
  deriving DecidableEq, Repr

structure Schema where
  limits : Limits
  tables : List Table
  columns : List Column
  links : List Link
  conventions : Conventions
  deriving DecidableEq, Repr

/-- A column with the table that owns it. -/
structure ColumnInfo where
  id : ColumnId
  tableId : TableId
  table : Table
  name : String
  deriving DecidableEq, Repr

/-- The column as SQL names it. -/
def ColumnInfo.qualified (c : ColumnInfo) : String := c.table.name ++ "." ++ c.name

namespace Schema

def empty (limits : Limits) : Schema := ⟨limits, [], [], [], .blank⟩

def tableId? (s : Schema) (name : String) : Option TableId :=
  s.tables.findIdx? (·.name == name)

/-- The position of the table of that name. -/
def tableId (s : Schema) (name : String) : Except QueryError TableId :=
  match s.tableId? name with
  | some t => .ok t
  | none => .error (.unknownTable name)

def columnInfo? (s : Schema) (id : ColumnId) : Option ColumnInfo := do
  let c ← s.columns.find? (·.id == id)
  let t ← s.tables[c.table]?
  return ⟨id, c.table, t, c.name⟩

/-- The column of that number with its table. -/
def columnInfo (s : Schema) (id : ColumnId) : Except QueryError ColumnInfo :=
  match s.columnInfo? id with
  | some c => .ok c
  | none => .error (.unknownColumn id)

def isCycler (s : Schema) (t : TableId) : Bool := s.tables[t]?.any (·.cycler)

def tableName (s : Schema) (t : TableId) : String := (s.tables[t]?.map (·.name)).getD ""

/-- The entry of a table in a list of sources. -/
def source (s : Schema) (t : TableId) : String := (s.tables[t]?.map (·.source)).getD ""

/-- The links at a table with their other ends: those registered from it before those registered to
it, each in the order of registration. -/
def incident (s : Schema) (t : TableId) : List (LinkId × TableId) :=
  let numbered := s.links.zipIdx
  (numbered.filter fun l => l.1.left == t).map (fun l => (l.2, l.1.other t))
    ++ (numbered.filter fun l => l.1.right == t).map (fun l => (l.2, l.1.other t))

end Schema

end CatalogQuery
