import CatalogQuery.Error
import CatalogQuery.Request.Level

/-!
# Backends

What a session needs of a database: running statements, fetching their rows, and answering whether a
user has access to an object. A backend is a family of calls on a store of type `σ`.
-/

namespace CatalogQuery

/-- A call changes the store and succeeds or fails. -/
abbrev Call (σ α : Type) := σ → Except BackendFailure α × σ

structure Backend (σ : Type) where
  /-- Runs a statement with binds, passes over the first rows, and opens it. -/
  run : String → List String → Nat → Call σ StatementId
  /-- The next row of an open statement, if there is one. -/
  fetch : StatementId → Call σ (Option (List String))
  /-- How many rows a statement has, those passed over aside. -/
  rowCount : StatementId → Call σ Nat
  /-- Closes a statement. Closing one that is not open is no failure. -/
  close : StatementId → Call σ Unit
  /-- Runs a statement that gives one number. -/
  scalar : String → List String → Call σ Int
  /-- Whether a user of a zone has at least this access to an object. -/
  access : String → String → String → AccessLevel → Call σ Bool

/-- Closes a statement that is not needed any more; a failure to do so is passed over. -/
def Backend.release {σ : Type} (b : Backend σ) (statement : StatementId) (store : σ) : σ :=
  (b.close statement store).2

end CatalogQuery
