import CatalogQuery.Catalog.Rows
import CatalogQuery.Sql.Query

/-!
# Scopes

The sources under which the columns of a query are looked up, each with the row chosen from it, if one
is chosen already. The sources of an inner query stand before those of the query around it.
-/

namespace CatalogQuery.Sql

structure ScopeEntry where
  binding : String
  columns : List ColumnSpec
  row : Option (List Value)
  deriving DecidableEq, Repr

abbrev Scope := List ScopeEntry

namespace ScopeEntry

/-- The position of a column and what its values are. -/
def column? (e : ScopeEntry) (c : ColumnRef) : Option (Nat × Affinity) :=
  if c.binding.all (· == e.binding) then
    (e.columns.findIdx? (·.1 == c.column)).bind fun i => e.columns[i]?.map fun s => (i, s.2)
  else none

end ScopeEntry

/-- The value of a column: nothing as long as no row is chosen for its source. -/
def Scope.lookup : Scope → ColumnRef → Option Typed
  | [], _ => none
  | e :: es, c =>
    match e.column? c with
    | none => lookup es c
    | some (i, affinity) => e.row.bind fun row => row[i]?.map fun v => ⟨v, affinity⟩

/-- A source with the rows to choose from. -/
structure OpenEntry where
  binding : String
  relation : Relation
  deriving DecidableEq, Repr

namespace OpenEntry

def choose (o : OpenEntry) (row : List Value) : ScopeEntry :=
  ⟨o.binding, o.relation.columns, some row⟩

def unchosen (o : OpenEntry) : ScopeEntry := ⟨o.binding, o.relation.columns, none⟩

end OpenEntry

/-- All choices of one row per source behind the rows `chosen` before. A choice that `refused` refuses
is not followed any further. -/
def choices (refused : Scope → Bool) (outer : Scope) : Scope → List OpenEntry → List Scope
  | chosen, [] => [chosen ++ outer]
  | chosen, o :: os =>
    o.relation.rows.flatMap fun row =>
      let next := chosen ++ [o.choose row]
      if refused (next ++ os.map (·.unchosen) ++ outer) then []
      else choices refused outer next os

end CatalogQuery.Sql
