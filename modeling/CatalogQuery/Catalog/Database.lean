import CatalogQuery.Catalog.Answer
import CatalogQuery.Catalog.Basic
import CatalogQuery.Error
import CatalogQuery.Schema.Conventions

/-!
# Databases

A database holds a catalog once its tables are created. Statements are refused before that, as are all
statements on a file that is no database.
-/

namespace CatalogQuery

open Sql

inductive Database where
  | blank
  | catalog (c : Catalog)
  /-- The file holds something else. -/
  | foreign
  deriving DecidableEq, Repr

namespace Database

/-- The fault of every statement on a file that is no database. -/
def foreignReason : String := "file is not a database"

def tables : Database → Tables
  | catalog c => c.relation?
  | _ => fun _ => none

/-- Creates the tables and tokens that are not there. -/
def create : Database → Except BackendFailure Database
  | blank => .ok (catalog ({} : Catalog).withTokens)
  | catalog c => .ok (catalog c.withTokens)
  | foreign => .error (.database foreignReason)

/-- Runs a statement. -/
def run (d : Database) (sql : String) (binds : List String) :
    Except BackendFailure (List (List Value)) :=
  match d with
  | foreign => .error (.database foreignReason)
  | d => (Sql.run d.tables sql binds).mapError fun f => .database (f.message sql)

theorem run_catalog (c : Catalog) (sql : String) (binds : List String) :
    (catalog c).run sql binds
      = (Sql.run c.relation? sql binds).mapError fun f => .database (f.message sql) := rfl

/-- All rows of a table, its columns in the order of their declaration. -/
def allRows (d : Database) (table : String) : Except BackendFailure (List (List Value)) :=
  match d with
  | foreign => .error (.database foreignReason)
  | d =>
    match d.tables table with
    | none => .error (.database (Fault.message "" (.noTable table)))
    | some r => .ok r.rows

/-- Runs a statement that gives one number. -/
def scalar (d : Database) (sql : String) (binds : List String) : Except BackendFailure Int := do
  match ← d.run sql binds with
  | [.number (.int n)] :: _ => return n
  | _ => throw (.database "Query returned no rows")

end Database

/-- The statement that counts the grants by which a user of a zone has access to an object at a level:
its binds are the name, the zone, the object and the token of the level. -/
def GrantChain.countGrants (g : GrantChain) : String :=
  "select count(*) from " ++ g.userTable ++ " UM, " ++ g.groupTable ++ " UG, " ++ g.accessTable
    ++ " OA, " ++ g.tokenTable
    ++ " TM where UM.user_name = ?1 and UM.zone_name = ?2 and UM.user_id = UG.user_id "
    ++ "and UG.group_user_id = OA.user_id and OA.object_id = ?3 "
    ++ "and OA.access_type_id >= TM.token_id and TM.token_namespace = '" ++ g.tokenNamespace
    ++ "' and TM.token_name = ?4"

/-- Whether a user of a zone has at least this access to an object. -/
def Database.hasAccess (d : Database) (g : GrantChain) (object user zone : String)
    (level : AccessLevel) : Except BackendFailure Bool := do
  let grants ← d.scalar g.countGrants [user, zone, object, level.token]
  return grants > 0

end CatalogQuery
