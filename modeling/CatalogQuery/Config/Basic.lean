import CatalogQuery.Session.Engine

/-!
# Configuration

What an engine is made from: a dialect by name with overrides, policies, sizes, and the place of a
schema definition.
-/

namespace CatalogQuery

open Sql

/-- A preset with parts of it replaced. -/
structure DialectChoice where
  preset : String := "postgres"
  lengthFunction : Option String := none
  pagination : Option Pagination := none
  countQuery : Option Bool := none
  deriving DecidableEq, Repr

inductive ConfigError where
  | unreadable (path reason : String)
  | malformed (path reason : String)
  | unknownDialect (name : String)
  | query (e : QueryError)
  deriving DecidableEq, Repr

def ConfigError.message : ConfigError → String
  | .unreadable path reason => "failed to read config " ++ path ++ ": " ++ reason
  | .malformed path reason => "failed to parse config " ++ path ++ ": " ++ reason
  | .unknownDialect name =>
    "unknown dialect '" ++ name ++ "' (expected postgres, mysql, oracle or sqlite)"
  | .query e => e.message

/-- The preset with the chosen parts in place of its own. -/
def DialectChoice.resolve (c : DialectChoice) : Except ConfigError Dialect :=
  match Dialect.preset c.preset with
  | none => .error (.unknownDialect c.preset)
  | some d =>
    .ok { d with
      lengthFunction := c.lengthFunction.getD d.lengthFunction
      pagination := c.pagination.getD d.pagination
      countQuery := c.countQuery.getD d.countQuery }

structure Config where
  dialect : DialectChoice := {}
  access : AccessSettings := {}
  pages : PageSettings := {}
  logSql : Bool := false
  /-- The file of a schema definition; without one the standard schema is meant. -/
  schemaPath : Option String := none
  deriving DecidableEq, Repr

/-- The engine of a configuration, over the schema at the place that it names. -/
def Config.engine (c : Config) (schema : Except QueryError Schema) : Except ConfigError Engine := do
  let dialect ← c.dialect.resolve
  let schema ← schema.mapError .query
  let engine ← (Engine.create schema dialect).mapError .query
  return (engine.withAccess c.access).withPages c.pages

end CatalogQuery
