import CatalogQuery.Join.Requirements

/-!
# Join trees

The links that connect the required tables. A depth-first search starts at one of them and keeps a
link only if there is a required table behind it, so no link of a dead end is joined. A cycler ends
a branch; it is marked as reached only if it is required itself.
-/

namespace CatalogQuery

/-- The state of a search: tables reached, required tables still missing, links kept. -/
structure Search where
  reached : List TableId
  pending : Nat
  links : List LinkId
  deriving DecidableEq, Repr

namespace Search

def mark (w : Search) (t : TableId) : Search := { w with reached := t :: w.reached }

/-- Counts a required table as found. -/
def find (w : Search) (needed : Bool) : Search :=
  if needed then { w with pending := w.pending - 1 } else w

def keep (w : Search) (link : LinkId) : Search := { w with links := w.links ++ [link] }

end Search

namespace Schema

/-- Searches the branch that begins at `t`, entered through `entry`. The answer says whether the
branch holds a required table; its links are kept from the leaves inwards. -/
def scan (s : Schema) (required : List TableId) :
    Nat → TableId → Option LinkId → Search → Bool × Search
  | 0, _, _, w => (false, w)
  | depth + 1, t, entry, w =>
    let needed := required.contains t
    let w := w.find needed
    if s.isCycler t then (needed, if needed then w.mark t else w)
    else
      (s.incident t).foldl (fun (acc : Bool × Search) next =>
        let w := acc.2
        if w.pending = 0 ∨ entry = some next.1 ∨ next.2 ∈ w.reached then acc
        else
          match s.scan required depth next.2 (some next.1) w with
          | (true, w) => (true, w.keep next.1)
          | (false, w) => (acc.1, w)) (needed, w.mark t)

/-- The table at which the search starts: the first that is no cycler, else the first. -/
def startTable (s : Schema) (required : List TableId) : Option TableId :=
  (required.find? fun t => !s.isCycler t).or required.head?

/-- The whole search. A branch enters each table at most once, so the number of tables bounds its
length. -/
def search (s : Schema) (required : List TableId) : Search :=
  let w : Search := ⟨[], required.length, []⟩
  match s.startTable required with
  | none => w
  | some start => (s.scan required s.tables.length start none w).2

/-- The links that connect the required tables, or the tables that cannot be reached. The number of
missing tables is recorded in either case. -/
def resolve (s : Schema) (r : Requirements) : Except QueryError (List LinkId) × Requirements :=
  let w := s.search r.tables
  let r := { r with pending := w.pending }
  if w.pending > 0 then
    let missing := r.tables.filter fun t => !w.reached.contains t
    (.error (.unlinkedTables (missing.map s.tableName)), r)
  else (.ok w.links, r)

end Schema

end CatalogQuery
