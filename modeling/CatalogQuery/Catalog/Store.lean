import CatalogQuery.Catalog.Database
import CatalogQuery.Session.Backend

/-!
# Catalogs as backends

A store computes all rows of a statement when it is run and keeps those not fetched yet until the
statement is closed.
-/

namespace CatalogQuery

/-- An open statement: how many rows it had, and those not fetched yet. -/
structure OpenStatement where
  id : StatementId
  count : Nat
  left : List (List String)
  deriving DecidableEq, Repr

structure Store where
  database : Database
  chain : GrantChain := .standard
  statements : List OpenStatement := []
  /-- The id of the next statement. -/
  nextStatement : Nat := 1
  deriving Repr

namespace Store

def find? (s : Store) (id : StatementId) : Option OpenStatement := s.statements.find? (·.id == id)

/-- Opens a statement over rows that are computed already. -/
def open_ (s : Store) (rows : List (List String)) : StatementId × Store :=
  let id : StatementId := ⟨s.nextStatement⟩
  (id, { s with
    statements := s.statements ++ [⟨id, rows.length, rows⟩]
    nextStatement := s.nextStatement + 1 })

def openRows (rows : Except BackendFailure (List (List Value))) (skip : Nat) :
    Call Store StatementId := fun s =>
  match rows with
  | .error e => (.error e, s)
  | .ok rows =>
    let (id, s) := s.open_ ((rows.drop skip).map fun row => row.map (·.shown))
    (.ok id, s)

def run (sql : String) (binds : List String) (skip : Nat) : Call Store StatementId := fun s =>
  openRows (s.database.run sql binds) skip s

/-- Opens all rows of a table. -/
def dump (table : String) (skip : Nat) : Call Store StatementId := fun s =>
  openRows (s.database.allRows table) skip s

def fetch (id : StatementId) : Call Store (Option (List String)) := fun s =>
  match s.find? id with
  | none => (.error (.notOpen id), s)
  | some o =>
    match o.left with
    | [] => (.ok none, s)
    | row :: left =>
      let statements := s.statements.map fun t => if t.id = id then { t with left := left } else t
      (.ok (some row), { s with statements := statements })

def rowCount (id : StatementId) : Call Store Nat := fun s =>
  match s.find? id with
  | none => (.error (.notOpen id), s)
  | some o => (.ok o.count, s)

def close (id : StatementId) : Call Store Unit := fun s =>
  (.ok (), { s with statements := s.statements.filter (·.id != id) })

def scalar (sql : String) (binds : List String) : Call Store Int := fun s =>
  (s.database.scalar sql binds, s)

def access (object user zone : String) (level : AccessLevel) : Call Store Bool := fun s =>
  (s.database.hasAccess s.chain object user zone level, s)

def backend : Backend Store := ⟨run, fetch, rowCount, close, scalar, access⟩

end Store

end CatalogQuery
