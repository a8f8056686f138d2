/-!
# Identifiers

Numbers that name columns, cursors and statements. They are compared and printed, never computed
with.
-/

namespace CatalogQuery

/-- The number by which requests name a column. -/
structure ColumnId where
  number : Nat
  deriving DecidableEq, Repr, Inhabited

instance : ToString ColumnId := ⟨fun c => toString c.number⟩

/-- The handle by which a caller asks for the next page. -/
structure Continuation where
  number : Nat
  deriving DecidableEq, Repr, Inhabited

namespace Continuation

/-- No cursor is behind this handle. -/
def exhausted : Continuation := ⟨0⟩

def isExhausted (t : Continuation) : Bool := t.number == 0

instance : ToString Continuation := ⟨fun t => toString t.number⟩

end Continuation

/-- The handle of a statement that a backend holds open. -/
structure StatementId where
  number : Nat
  deriving DecidableEq, Repr, Inhabited

end CatalogQuery
