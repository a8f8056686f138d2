import CatalogQuery.Catalog.Value

/-!
# Queries

What the statements of this library say, free of their spelling. Values for placeholders stand in
their places as texts. Names are in lower case.
-/

namespace CatalogQuery.Sql

structure ColumnRef where
  binding : Option String
  column : String
  deriving DecidableEq, Repr

inductive Operand where
  | column (c : ColumnRef)
  | number (n : Nat)
  | text (s : String)
  | cast (a : Operand)
  /-- A function of one argument. -/
  | call (function : String) (a : Operand)
  /-- A function of three arguments. -/
  | call₃ (function : String) (a b c : Operand)
  deriving DecidableEq, Repr

/-- An entry of FROM. -/
structure Source where
  table : String
  binding : String
  deriving DecidableEq, Repr

inductive Formula where
  | compare (c : Comparison) (a b : Operand)
  | like (negated : Bool) (a pattern : Operand)
  | between (negated : Bool) (a low high : Operand)
  | inList (negated : Bool) (a : Operand) (items : List Operand)
  /-- The value is among those of a column, in the rows of some sources that satisfy a formula. -/
  | inRows (negated : Bool) (a : Operand) (column : ColumnRef) (sources : List Source)
      (condition : Formula)
  | and (f g : Formula)
  | or (f g : Formula)
  /-- The value is a number other than zero. -/
  | nonzero (a : Operand)
  deriving DecidableEq, Repr

inductive Aggregate where
  | min
  | max
  | sum
  | avg
  | count
  deriving DecidableEq, Repr

inductive Output where
  | column (c : ColumnRef)
  | aggregate (f : Aggregate) (c : ColumnRef)
  | countRows
  deriving DecidableEq, Repr

structure SortKey where
  column : ColumnRef
  descending : Bool
  deriving DecidableEq, Repr

structure Query where
  distinct : Bool
  outputs : List Output
  sources : List Source
  condition : Option Formula
  groupBy : List ColumnRef
  orderBy : List SortKey
  /-- How many rows are left out, and how many are taken then; all if that is negative. -/
  limit : Option (Int × Int)
  deriving DecidableEq, Repr

inductive Statement where
  | rows (q : Query)
  /-- The number of rows of a query. -/
  | count (q : Query)
  deriving DecidableEq, Repr

namespace Formula

/-- The terms of a conjunction. -/
def conjuncts : Formula → List Formula
  | and f g => f.conjuncts ++ g.conjuncts
  | f => [f]

end Formula

end CatalogQuery.Sql
