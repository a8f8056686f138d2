import CatalogQuery.Session.Backend

/-!
# Scripted backends

A backend that plays given answers and keeps a list of the calls it received. The n-th statement run
is answered by the n-th query of the script, the last one standing for all later ones.
-/

namespace CatalogQuery

/-- The answer to one statement. A fetch takes the next entry, a row or a failure. -/
structure ScriptedQuery where
  rows : List (Except String (List String)) := []
  runError : Option String := none
  count : Option Nat := none
  countError : Option String := none
  closeError : Option String := none

structure Script where
  queries : List ScriptedQuery := []
  scalars : List (Except String Int) := []
  access : List (String × Except String Bool) := []

inductive BackendCall where
  | run (sql : String) (binds : List String) (skip : Nat)
  | fetch (statement : StatementId)
  | rowCount (statement : StatementId)
  | close (statement : StatementId)
  | scalar (sql : String) (binds : List String)
  | access (object user zone : String) (level : AccessLevel)
  deriving DecidableEq, Repr

/-- An open statement: its query, and the entries not fetched yet. -/
structure ScriptedStatement where
  id : StatementId
  query : ScriptedQuery
  length : Nat
  left : List (Except String (List String))

/-- How far a script has been played. -/
structure Playback where
  script : Script
  runs : Nat := 0
  scalarRuns : Nat := 0
  statements : List ScriptedStatement := []
  /-- The calls received, in order. -/
  calls : List BackendCall := []

namespace Playback

/-- The n-th answer, counted from one; the last one is repeated. -/
def nth {α : Type} (answers : List α) (n : Nat) : Option α :=
  (answers[n - 1]?).or answers.getLast?

def fail {α : Type} (reason : String) : Except BackendFailure α := .error (.message reason)

def ofScript {α : Type} (a : Except String α) : Except BackendFailure α :=
  a.mapError .message

def record (p : Playback) (c : BackendCall) : Playback := { p with calls := p.calls ++ [c] }

def find? (p : Playback) (id : StatementId) : Option ScriptedStatement :=
  p.statements.find? (·.id == id)

def run (sql : String) (binds : List String) (skip : Nat) : Call Playback StatementId := fun p =>
  let p := { p.record (.run sql binds skip) with runs := p.runs + 1 }
  let query := (nth p.script.queries p.runs).getD {}
  match query.runError with
  | some reason => (fail reason, p)
  | none =>
    let id : StatementId := ⟨p.runs⟩
    let rows := query.rows.drop skip
    (.ok id, { p with statements := p.statements ++ [⟨id, query, rows.length, rows⟩] })

def fetch (id : StatementId) : Call Playback (Option (List String)) := fun p =>
  let p := p.record (.fetch id)
  match p.find? id with
  | none => (.error (.notOpen id), p)
  | some s =>
    match s.left with
    | [] => (.ok none, p)
    | entry :: left =>
      let statements := p.statements.map fun t => if t.id = id then { t with left := left } else t
      ((ofScript entry).map some, { p with statements := statements })

def rowCount (id : StatementId) : Call Playback Nat := fun p =>
  let p := p.record (.rowCount id)
  match p.find? id with
  | none => (.error (.notOpen id), p)
  | some s =>
    match s.query.countError with
    | some reason => (fail reason, p)
    | none => (.ok (s.query.count.getD s.length), p)

def close (id : StatementId) : Call Playback Unit := fun p =>
  let p := p.record (.close id)
  let closed := { p with statements := p.statements.filter (·.id != id) }
  match (p.find? id).bind (·.query.closeError) with
  | some reason => (fail reason, closed)
  | none => (.ok (), closed)

def scalar (sql : String) (binds : List String) : Call Playback Int := fun p =>
  let p := { p.record (.scalar sql binds) with scalarRuns := p.scalarRuns + 1 }
  match nth p.script.scalars p.scalarRuns with
  | none => (.ok 0, p)
  | some answer => (ofScript answer, p)

def access (object user zone : String) (level : AccessLevel) : Call Playback Bool := fun p =>
  let p := p.record (.access object user zone level)
  match p.script.access.find? (·.1 == object) with
  | none => (.ok false, p)
  | some (_, answer) => (ofScript answer, p)

def backend : Backend Playback := ⟨run, fetch, rowCount, close, scalar, access⟩

end Playback

end CatalogQuery
