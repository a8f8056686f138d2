import CatalogQuery.Access.Policy
import CatalogQuery.Access.RowChecker
import CatalogQuery.Compile.Statement
import CatalogQuery.Page.Basic
import CatalogQuery.Schema.Cycle

/-!
# Engines

What all sessions share: the schema in force, the dialect, the policies, and the numbering of
continuation tokens. Only schemas without a cycle come into force.
-/

namespace CatalogQuery

open Sql

structure Engine where
  schema : Schema
  dialect : Dialect
  access : AccessSettings := {}
  policy : Policy := {}
  pages : PageSettings := {}
  nextToken : Nat := 1
  deriving Repr

namespace Engine

def create (schema : Schema) (dialect : Dialect) : Except QueryError Engine := do
  schema.validate
  return { schema := schema, dialect := dialect }

/-- Takes over access settings. A strict policy stays strict. -/
def withAccess (e : Engine) (access : AccessSettings) : Engine :=
  { e with access := access, policy := e.policy.configure access.strict }

def withPages (e : Engine) (pages : PageSettings) : Engine := { e with pages := pages }

/-- Asks for a policy; the answer is the policy in force. -/
def setPolicy (e : Engine) (strict : Bool) : Bool × Engine :=
  let policy := e.policy.configure strict
  (policy.strict, { e with policy := policy })

/-- Replaces the schema; a schema with a cycle is refused and the old one stays. -/
def reload (e : Engine) (schema : Schema) : Except QueryError Unit × Engine :=
  match schema.validate with
  | .ok () => (.ok (), { e with schema := schema })
  | .error err => (.error err, e)

def compile (e : Engine) (caller : Caller) (r : Request) : Except QueryError Compiled :=
  e.schema.compile e.dialect caller
    { strict := e.policy.strict, anonymousUser := e.access.anonymousUser } r

/-- The checker that a request asks for. -/
def checker (e : Engine) (r : Request) (compiled : Compiled) :
    Except QueryError (Option RowChecker) :=
  match r.rowCheck with
  | none => .ok none
  | some check => RowChecker.make check e.access.localZone e.schema compiled.select

/-- A token that was not issued before. -/
def issue (e : Engine) : Continuation × Engine :=
  (⟨e.nextToken⟩, { e with nextToken := e.nextToken + 1 })

end Engine

end CatalogQuery
