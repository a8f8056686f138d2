import CatalogQuery.Request.Level

/-!
# Requests

What a caller asks for: columns to select, conditions on columns, and how much of the result to
deliver.
-/

namespace CatalogQuery

inductive Aggregation where
  | none
  | min
  | max
  | sum
  | avg
  | count
  deriving DecidableEq, Repr

namespace Aggregation

def name : Aggregation → String
  | none => "none"
  | min => "min"
  | max => "max"
  | sum => "sum"
  | avg => "avg"
  | count => "count"

def all : List Aggregation := [none, min, max, sum, avg, count]

/-- The SQL function of an aggregation. -/
def function? (a : Aggregation) : Option String :=
  if a = none then Option.none else some a.name

def isAggregate (a : Aggregation) : Bool := a != none

end Aggregation

inductive SortOrder where
  | none
  | asc
  | desc
  deriving DecidableEq, Repr

namespace SortOrder

def name : SortOrder → String
  | none => "none"
  | asc => "asc"
  | desc => "desc"

def all : List SortOrder := [none, asc, desc]

end SortOrder

structure SelectColumn where
  column : ColumnId
  aggregate : Aggregation := .none
  order : SortOrder := .none
  deriving DecidableEq, Repr

/-- The column itself is asked for, not an aggregate over it. -/
def SelectColumn.isPlain (s : SelectColumn) : Bool := !s.aggregate.isAggregate

structure RequestCondition where
  column : ColumnId
  expression : String
  deriving DecidableEq, Repr

/-- A request to deliver only rows of objects to which a user has access. -/
structure RowCheck where
  user : String
  zone : String
  level : AccessLevel
  deriving DecidableEq, Repr

structure Request where
  select : List SelectColumn := []
  conditions : List RequestCondition := []
  offset : Nat := 0
  /-- The size of the page; a continuation with no positive size closes its cursor. -/
  maxRows : Int := 256
  continuation : Continuation := .exhausted
  totalCount : Bool := false
  rowCheck : Option RowCheck := none
  deriving DecidableEq, Repr

namespace Request

/-- Asks for the next page of an open cursor. -/
def next (token : Continuation) (maxRows : Int) : Request :=
  { continuation := token, maxRows := maxRows }

def isContinuation (r : Request) : Bool := !r.continuation.isExhausted

end Request

end CatalogQuery
