import CatalogQuery.Schema.Basic
import CatalogQuery.Text.Blank

/-!
# Registration

A schema grows by registering tables, columns and links. Each call checks its arguments against what
is registered already; a call that fails gives no new schema, so nothing changes.
-/

namespace CatalogQuery.Schema

open Text

/-- A registry of `current` members takes another one. -/
def checkRoom (current : Nat) (max : Option Nat) (registry : Registry) : Except QueryError Unit :=
  match max with
  | some max => if current ≥ max then .error (.registryFull registry max) else .ok ()
  | none => .ok ()

/-- The entry of a table: its name where no other entry is given. -/
def sourceOf (name given : String) : String :=
  let given := trimmed given
  if given.isEmpty then name else given

/-- Adds a table. Its entry has to end in its name, so that the name binds it. -/
def registerTable (s : Schema) (name given : String) (cycler : Bool) :
    Except QueryError (Schema × TableId) := do
  checkRoom s.tables.length s.limits.maxTables .tables
  if (s.tableId? name).isSome then throw (.duplicateTable name)
  let source := sourceOf name given
  if lastWord source ≠ name then
    throw (.invalidSchema ("alias '" ++ source ++ "' does not bind table name '" ++ name ++ "'"))
  return ({ s with tables := s.tables ++ [⟨name, source, cycler⟩] }, s.tables.length)

/-- Adds a column of a registered table. -/
def registerColumn (s : Schema) (id : ColumnId) (table name : String) :
    Except QueryError Schema := do
  checkRoom s.columns.length s.limits.maxColumns .columns
  if s.columns.any (·.id == id) then throw (.duplicateColumn id)
  let t ← s.tableId table
  return { s with columns := s.columns ++ [⟨id, t, name⟩] }

/-- Adds a link between two different registered tables. -/
def registerLink (s : Schema) (left right predicate : String) :
    Except QueryError (Schema × LinkId) := do
  checkRoom s.links.length s.limits.maxLinks .links
  let l ← s.tableId left
  let r ← s.tableId right
  if l = r then
    throw (.invalidSchema ("link on '" ++ left ++ "' joins the table to itself"))
  return ({ s with links := s.links ++ [⟨l, r, trimmed predicate⟩] }, s.links.length)

/-- The columns of a layout stand on its attribute table; its map and its objects are registered. -/
def checkLayout (s : Schema) (j : AttributeJoin) : Except QueryError Unit := do
  let name ← s.columnInfo j.nameColumn
  let value ← s.columnInfo j.valueColumn
  if name.table.name ≠ j.metaBinding ∨ value.table.name ≠ j.metaBinding then
    throw (.invalidSchema ("attribute columns " ++ toString j.nameColumn ++ " and "
      ++ toString j.valueColumn ++ " must live on '" ++ j.metaBinding ++ "'"))
  discard (s.tableId j.mapBinding)
  discard (s.tableId j.objectTable)

/-- Replaces the conventions, all of whose columns and tables have to be registered. -/
def setConventions (s : Schema) (c : Conventions) : Except QueryError Schema := do
  (c.canonicalOrder ++ c.objectIdColumns).forM fun column => discard (s.columnInfo column)
  c.attributeJoins.forM s.checkLayout
  c.protectedTables.forM fun p => discard (s.tableId p.table)
  return { s with conventions := c }

end CatalogQuery.Schema
