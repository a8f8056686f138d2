import CatalogQuery.Catalog.Aggregate
import CatalogQuery.Catalog.Names
import CatalogQuery.Sql.Reader

/-!
# Answers to statements

The rows of a query: the choices of rows that satisfy its condition, collected into groups where it
asks for that, shown by its outputs, without repetition, sorted, and cut.
-/

namespace CatalogQuery.Sql

namespace Query

/-- The choices of rows that satisfy the condition. -/
def matching (tables : Tables) (q : Query) : List Scope :=
  let refused : Scope → Bool := match q.condition with
    | none => fun _ => false
    | some f => fun s => f.truth tables s == some false
  choices refused [] [] (q.sources.map (·.entry tables))

def valueOf (c : ColumnRef) (s : Scope) : Value := ((s.lookup c).map (·.value)).getD .null

def sameValues (xs ys : List Value) : Bool :=
  xs.length == ys.length && (xs.zip ys).all fun p => p.1.compare p.2 == .eq

/-! ## Groups -/

/-- Adds a choice to the group of its key. -/
def addToGroup (key : List Value) (s : Scope) :
    List (List Value × List Scope) → List (List Value × List Scope)
  | [] => [(key, [s])]
  | g :: gs =>
    if sameValues g.1 key then (g.1, g.2 ++ [s]) :: gs else g :: addToGroup key s gs

/-- The choices with equal values in some columns, in the order in which the groups begin. -/
def grouped (columns : List ColumnRef) (ss : List Scope) : List (List Scope) :=
  (ss.foldl (fun gs s => addToGroup (columns.map (valueOf · s)) s gs) []).map (·.2)

def isAggregate : Output → Bool
  | .column _ => false
  | _ => true

/-- What one row of the answer is made of: a group, everything, or a single choice. -/
def portions (q : Query) (ss : List Scope) : List (List Scope) :=
  if !q.groupBy.isEmpty then grouped q.groupBy ss
  else if q.outputs.any isAggregate then [ss]
  else ss.map fun s => [s]

def outputValue (portion : List Scope) : Output → Value
  | .column c => (portion.head?.map (valueOf c)).getD .null
  | .aggregate f c => f.value (portion.map (valueOf c))
  | .countRows => .int portion.length

/-! ## Order -/

/-- A row of the answer with the values by which it is sorted. -/
structure Keyed where
  values : List Value
  keys : List Value
  deriving DecidableEq, Repr

def keyed (q : Query) (portion : List Scope) : Keyed :=
  ⟨q.outputs.map (outputValue portion),
    q.orderBy.map fun k => (portion.head?.map (valueOf k.column)).getD .null⟩

/-- Keeps the first of several equal rows. -/
def withoutRepetition : List Keyed → List Keyed → List Keyed
  | done, [] => done
  | done, r :: rs =>
    if done.any fun d => sameValues d.values r.values then withoutRepetition done rs
    else withoutRepetition (done ++ [r]) rs

/-- The order by the first key that differs. -/
def compareKeys : List SortKey → List Value → List Value → Ordering
  | k :: ks, x :: xs, y :: ys =>
    match x.compare y with
    | .eq => compareKeys ks xs ys
    | .lt => if k.descending then .gt else .lt
    | .gt => if k.descending then .lt else .gt
  | _, _, _ => .eq

/-- Puts a row behind all rows that do not belong behind it. -/
def insertSorted (ks : List SortKey) (r : Keyed) : List Keyed → List Keyed
  | [] => [r]
  | x :: xs =>
    if compareKeys ks r.keys x.keys == .lt then r :: x :: xs else x :: insertSorted ks r xs

def sorted (ks : List SortKey) (rs : List Keyed) : List Keyed :=
  if ks.isEmpty then rs else rs.foldl (fun done r => insertSorted ks r done) []

/-- Leaves out the first rows and takes some of the others, all if their number is negative. -/
def cut {α : Type} (limit : Option (Int × Int)) (rs : List α) : List α :=
  match limit with
  | none => rs
  | some (offset, count) =>
    let rs := rs.drop offset.toNat
    if count < 0 then rs else rs.take count.toNat

/-- The rows of the answer. -/
def answer (tables : Tables) (q : Query) : List (List Value) :=
  let rs := (q.portions (q.matching tables)).map q.keyed
  let rs := if q.distinct then withoutRepetition [] rs else rs
  (cut q.limit (sorted q.orderBy rs)).map (·.values)

/-- The numbers of the limit have 64 bits. -/
def limitFits (q : Query) : Bool := q.limit.all fun l => fits64 l.1 && fits64 l.2

end Query

namespace Statement

def query : Statement → Query
  | rows q => q
  | count q => q

def answer (tables : Tables) : Statement → List (List Value)
  | rows q => q.answer tables
  | count q => [[.int (q.answer tables).length]]

end Statement

/-- Runs the statement `sql` with its binds: reads it, looks up its names, counts its placeholders, and
then computes its rows. -/
def run (tables : Tables) (sql : String) (binds : List String) : Except Fault (List (List Value)) := do
  let ls ← tokens sql
  let statement ← Statement.read (fill binds 0 ls)
  (Names.checkQuery tables statement.query).mapError (Names.Unknown.fault ls)
  let needed := placeholderCount ls
  if binds.length ≠ needed then throw (.bindCount binds.length needed)
  if !statement.query.limitFits then throw .mismatch
  return statement.answer tables

end CatalogQuery.Sql
