import CatalogQuery.Schema.Registry
import Mathlib.Data.List.Nodup

/-!
# The store of a schema

A schema as it is kept: next to its lists an index from names to tables, one from numbers to columns,
and for each table the links registered from it and to it. Registration reads and writes this state
bit by bit; what a call has written stays even if it fails later.
-/

namespace CatalogQuery

open Text

instance : Hashable ColumnId := ⟨fun c => hash c.number⟩

/-- The links at a table. -/
structure Incidence where
  outgoing : List LinkId
  incoming : List LinkId
  deriving DecidableEq, Repr

structure SchemaStore extends Schema where
  tableIndex : Std.HashMap String TableId
  columnIndex : Std.HashMap ColumnId Nat
  incidence : List Incidence

namespace SchemaStore

def empty (limits : Limits) : SchemaStore := ⟨.empty limits, ∅, ∅, []⟩

/-! ## Look-ups -/

/-- The position of the table of that name. -/
def tableId (x : SchemaStore) (name : String) : Except QueryError TableId :=
  match x.tableIndex[name]? with
  | some t => .ok t
  | none => .error (.unknownTable name)

def columnInfo? (x : SchemaStore) (id : ColumnId) : Option ColumnInfo := do
  let place ← x.columnIndex[id]?
  let c ← x.columns[place]?
  let t ← x.tables[c.table]?
  return ⟨id, c.table, t, c.name⟩

/-- The column of that number with its table. -/
def columnInfo (x : SchemaStore) (id : ColumnId) : Except QueryError ColumnInfo :=
  match x.columnInfo? id with
  | some c => .ok c
  | none => .error (.unknownColumn id)

/-- The links at a table with their other ends: those registered from it before those registered to
it. -/
def incident (x : SchemaStore) (t : TableId) : List (LinkId × TableId) :=
  match x.incidence[t]? with
  | none => []
  | some i => (i.outgoing ++ i.incoming).filterMap fun l => x.links[l]?.map fun k => (l, k.other t)

/-! ## Calls -/

/-- A call that reads and writes the store and may fail. -/
abbrev Call (α : Type) := ExceptT QueryError (StateM SchemaStore) α

/-- What a call answers, and the store that it leaves. -/
def Call.on {α : Type} (c : Call α) (x : SchemaStore) : Except QueryError α × SchemaStore :=
  StateT.run (ExceptT.run c) x

/-- Goes on with what a look-up has found, or fails with it. -/
def attempt {α : Type} (found : Except QueryError α) : Call α := MonadExcept.ofExcept found

def registerTable (name given : String) (cycler : Bool) : Call TableId := do
  let x ← get
  attempt (Schema.checkRoom x.tables.length x.limits.maxTables .tables)
  if x.tableIndex.contains name then throw (.duplicateTable name)
  let source := Schema.sourceOf name given
  if lastWord source ≠ name then
    throw (.invalidSchema ("alias '" ++ source ++ "' does not bind table name '" ++ name ++ "'"))
  let t := x.tables.length
  modify fun x => { x with tables := x.tables ++ [⟨name, source, cycler⟩] }
  modify fun x => { x with incidence := x.incidence ++ [⟨[], []⟩] }
  modify fun x => { x with tableIndex := x.tableIndex.insert name t }
  return t

def registerColumn (id : ColumnId) (table name : String) : Call Unit := do
  let x ← get
  attempt (Schema.checkRoom x.columns.length x.limits.maxColumns .columns)
  if x.columnIndex.contains id then throw (.duplicateColumn id)
  let t ← attempt (x.tableId table)
  modify fun x => { x with columnIndex := x.columnIndex.insert id x.columns.length }
  modify fun x => { x with columns := x.columns ++ [⟨id, t, name⟩] }

def registerLink (left right predicate : String) : Call LinkId := do
  let x ← get
  attempt (Schema.checkRoom x.links.length x.limits.maxLinks .links)
  let t ← attempt (x.tableId left)
  let u ← attempt (x.tableId right)
  if t = u then
    throw (.invalidSchema ("link on '" ++ x.tableName t ++ "' joins the table to itself"))
  let l := x.links.length
  modify fun x => { x with links := x.links ++ [⟨t, u, trimmed predicate⟩] }
  modify fun x => { x with
    incidence := x.incidence.modify t fun i => { i with outgoing := i.outgoing ++ [l] } }
  modify fun x => { x with
    incidence := x.incidence.modify u fun i => { i with incoming := i.incoming ++ [l] } }
  return l

/-- The columns of a layout stand on its attribute table; its map and its objects are registered. -/
def checkLayout (x : SchemaStore) (j : AttributeJoin) : Except QueryError Unit := do
  let name ← x.columnInfo j.nameColumn
  let value ← x.columnInfo j.valueColumn
  if name.table.name ≠ j.metaBinding ∨ value.table.name ≠ j.metaBinding then
    throw (.invalidSchema ("attribute columns " ++ toString j.nameColumn ++ " and "
      ++ toString j.valueColumn ++ " must live on '" ++ j.metaBinding ++ "'"))
  discard (x.tableId j.mapBinding)
  discard (x.tableId j.objectTable)

def setConventions (c : Conventions) : Call Unit := do
  let x ← get
  (c.canonicalOrder ++ c.objectIdColumns).forM fun column => attempt (discard (x.columnInfo column))
  c.attributeJoins.forM fun j => attempt (x.checkLayout j)
  c.protectedTables.forM fun p => attempt (discard (x.tableId p.table))
  modify fun x => { x with conventions := c }

end SchemaStore

end CatalogQuery
