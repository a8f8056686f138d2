import CatalogQuery.Schema.Registry
import CatalogQuery.Schema.Cycle

/-!
# Definitions of schemas

A definition lists what is to be registered, in order, by name. Building registers it all and then
looks for cycles; every schema has a definition that builds it again.
-/

namespace CatalogQuery

structure TableDefinition where
  name : String
  /-- The entry in a list of sources; blank for the name itself. -/
  source : String
  cycler : Bool
  deriving DecidableEq, Repr

structure ColumnDefinition where
  id : ColumnId
  table : String
  name : String
  deriving DecidableEq, Repr

structure LinkDefinition where
  left : String
  right : String
  predicate : String
  deriving DecidableEq, Repr

structure Definition where
  limits : Limits
  tables : List TableDefinition
  columns : List ColumnDefinition
  links : List LinkDefinition
  conventions : Conventions
  deriving DecidableEq, Repr

namespace Definition

/-- Registers everything, in the order tables, columns, links, conventions. -/
def register (d : Definition) : Except QueryError Schema := do
  let s ← d.tables.foldlM (fun s t => Prod.fst <$> s.registerTable t.name t.source t.cycler)
    (Schema.empty d.limits)
  let s ← d.columns.foldlM (fun s c => s.registerColumn c.id c.table c.name) s
  let s ← d.links.foldlM (fun s l => Prod.fst <$> s.registerLink l.left l.right l.predicate) s
  s.setConventions d.conventions

/-- Registers everything and refuses a schema with a cycle. -/
def build (d : Definition) : Except QueryError Schema := do
  let s ← d.register
  s.validate
  return s

end Definition

/-- The definition of a schema, without limits. -/
def Schema.definition (s : Schema) : Definition where
  limits := {}
  tables := s.tables.map fun t => ⟨t.name, if t.source = t.name then "" else t.source, t.cycler⟩
  columns := s.columns.map fun c => ⟨c.id, s.tableName c.table, c.name⟩
  links := s.links.map fun l => ⟨s.tableName l.left, s.tableName l.right, l.predicate⟩
  conventions := s.conventions

end CatalogQuery
