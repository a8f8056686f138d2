import CatalogQuery.Schema.Basic

/-!
# Cycles among ordinary tables

Joins are unique only where the ordinary tables, those that are no cyclers, form a forest under the
links between them. The walk below enters every ordinary table once and reports the first link that
leads back to a table already entered.
-/

namespace CatalogQuery

/-- A link that closes a cycle, with the table at which it does. -/
structure Cycle where
  table : TableId
  link : LinkId
  deriving DecidableEq, Repr

namespace Schema

/-- Enters `t` through the link `entry` and goes on along its links. `seen` holds the tables entered
so far, and no branch is longer than `depth`. -/
def walk (s : Schema) : Nat → TableId → Option LinkId → List TableId → Except Cycle (List TableId)
  | 0, _, _, seen => .ok seen
  | depth + 1, t, entry, seen =>
    (s.incident t).foldlM (fun seen next =>
      if entry = some next.1 ∨ s.isCycler next.2 then .ok seen
      else if next.2 ∈ seen then .error ⟨next.2, next.1⟩
      else s.walk depth next.2 (some next.1) seen) (t :: seen)

/-- The tables entered from the roots `ts`. A branch enters each table at most once, so the number of
tables bounds its length. -/
def walkAll (s : Schema) (ts : List TableId) : Except Cycle (List TableId) :=
  ts.foldlM (fun seen t =>
    if s.isCycler t ∨ t ∈ seen then .ok seen else s.walk s.tables.length t none seen) []

def findCycle (s : Schema) : Option Cycle :=
  match s.walkAll (List.range s.tables.length) with
  | .ok _ => none
  | .error c => some c

/-- Refuses a schema with a cycle. -/
def validate (s : Schema) : Except QueryError Unit :=
  match s.findCycle with
  | none => .ok ()
  | some c =>
    .error (.schemaCycle (s.tableName c.table) ((s.links[c.link]?.map (·.predicate)).getD ""))

end Schema

end CatalogQuery
