import CatalogQuery.Join.Tree

/-!
# Marks on tables

The search for a join tree on one record for all tables of a schema: each is marked as reached or
not, and as required or not. The record is kept from one compilation to the next, so a search first
clears the marks that the one before it has left.
-/

namespace CatalogQuery

/-- The mark that a search leaves on a table. -/
inductive Visit where
  | unseen
  /-- A required cycler, which is not left again. -/
  | found
  | explored
  deriving DecidableEq, Repr

/-- What is recorded for each table, and for the required ones in the order of their request. -/
structure Marking where
  visits : List Visit
  required : List Bool
  order : List TableId
  letters : List (Option Char)
  nextLetter : Char
  pending : Nat
  deriving DecidableEq, Repr

namespace Marking

def blank (tables : Nat) : Marking where
  visits := List.replicate tables .unseen
  required := List.replicate tables false
  order := []
  letters := List.replicate tables none
  nextLetter := 'a'
  pending := 0

/-- Forgets the marks and the required tables. -/
def reset (m : Marking) : Marking := blank m.visits.length

def isRequired (m : Marking) (t : TableId) : Bool := m.required.getD t false

def visit (m : Marking) (t : TableId) : Visit := m.visits.getD t .unseen

/-- The lower letters are followed by the upper ones, and these by the lower ones again. -/
def letterAfter (c : Char) : Char :=
  if c = 'z' then 'A' else if c = 'Z' then 'a' else Char.ofNat (c.toNat + 1)

/-- Asks for a table; a table that is required already keeps its letter. -/
def require (m : Marking) (t : TableId) : Marking :=
  if m.isRequired t then m
  else
    { m with
      required := m.required.set t true
      order := m.order ++ [t]
      pending := m.pending + 1
      letters := m.letters.set t (some m.nextLetter)
      nextLetter := letterAfter m.nextLetter }

def mark (m : Marking) (t : TableId) (v : Visit) : Marking := { m with visits := m.visits.set t v }

/-- Counts a required table as found. -/
def find (m : Marking) (needed : Bool) : Marking :=
  if needed then { m with pending := m.pending - 1 } else m

/-- Clears the marks, so that all required tables are missing again. -/
def restart (m : Marking) : Marking :=
  { m with visits := List.replicate m.visits.length .unseen, pending := m.order.length }

/-- The required tables that are not marked. -/
def unreached (m : Marking) : List TableId := m.order.filter (m.visit · == .unseen)

end Marking

namespace Schema

/-- Searches the branch that begins at `t`, entered through `entry`, with the marks and the links
kept so far. -/
def explore (s : Schema) :
    Nat → TableId → Option LinkId → Marking × List LinkId → Bool × Marking × List LinkId
  | 0, _, _, w => (false, w)
  | depth + 1, t, entry, (m, links) =>
    let needed := m.isRequired t
    let m := m.find needed
    if s.isCycler t then (needed, if needed then m.mark t .found else m, links)
    else
      (s.incident t).foldl (fun (acc : Bool × Marking × List LinkId) next =>
        let m := acc.2.1
        if m.pending = 0 ∨ entry = some next.1 ∨ m.visit next.2 ≠ .unseen then acc
        else
          match s.explore depth next.2 (some next.1) acc.2 with
          | (true, m, links) => (true, m, links ++ [next.1])
          | (false, m, links) => (acc.1, m, links)) (needed, m.mark t .explored, links)

/-- The links that connect the required tables, or the tables that cannot be reached, and the marks
that are left behind. -/
def explored (s : Schema) (m : Marking) : Except QueryError (List LinkId) × Marking :=
  let m := m.restart
  match s.startTable m.order with
  | none => (.ok [], m)
  | some start =>
    let w := (s.explore s.tables.length start none (m, [])).2
    if w.1.pending > 0 then (.error (.unlinkedTables (w.1.unreached.map s.tableName)), w.1)
    else (.ok w.2, w.1)

end Schema

end CatalogQuery
