import CatalogQuery.Session.Engine

/-!
# Cursors and sessions

A cursor is an open statement with what is known of its delivery. A session belongs to one caller
and one backend and keeps its cursors under their tokens.

* `Cursors.find?_put_self`, `Cursors.find?_put_of_ne`: putting a cursor changes what is found under
  its token and nothing else;
* `Cursors.find?_erase_self`, `Cursors.find?_erase_of_ne`: the same of erasing.
-/

namespace CatalogQuery

inductive CursorState where
  | fresh
  | open
  | exhausted
  | closed
  deriving DecidableEq, Repr

structure Cursor where
  statement : StatementId
  columns : List ColumnId
  checker : Option RowChecker
  /-- The first row, fetched ahead of the first page. -/
  pending : Option (List String)
  delivered : Nat
  total : Option Nat
  deriving DecidableEq, Repr

/-- What an executed request delivers. -/
structure Delivery where
  page : Page
  continuation : Continuation
  total : Option Nat
  state : CursorState
  deriving DecidableEq, Repr

/-- A delivery without rows, after which no cursor is open. -/
def Delivery.final (columns : List ColumnId) (settings : PageSettings) (total : Option Nat)
    (state : CursorState) : Delivery :=
  ⟨.empty columns settings, .exhausted, total, state⟩

/-- Cursors by token. No token occurs twice. -/
abbrev Cursors := List (Continuation × Cursor)

namespace Cursors

def find? (cs : Cursors) (t : Continuation) : Option Cursor :=
  (List.find? (fun c => c.1 == t) cs).map (·.2)

def erase (cs : Cursors) (t : Continuation) : Cursors := List.filter (fun c => c.1 != t) cs

def put (cs : Cursors) (t : Continuation) (c : Cursor) : Cursors := cs.erase t ++ [(t, c)]

theorem find?_erase_self (cs : Cursors) (t : Continuation) : (cs.erase t).find? t = none := by
  simp [find?, erase, List.find?_eq_none]

theorem find?_put_self (cs : Cursors) (t : Continuation) (c : Cursor) :
    (cs.put t c).find? t = some c := by
  have h : List.find? (fun c => c.1 == t) (cs.erase t) = none := by
    simpa [find?] using find?_erase_self cs t
  simp [find?, put, List.find?_append, h]

theorem find?_erase_of_ne (cs : Cursors) {t u : Continuation} (h : u ≠ t) :
    (cs.erase t).find? u = cs.find? u := by
  simp only [find?, erase, List.find?_filter]
  congr 2
  funext c
  by_cases hc : c.1 = u
  · simp [hc, h]
  · simp [hc]

theorem find?_put_of_ne (cs : Cursors) {t u : Continuation} (c : Cursor) (h : u ≠ t) :
    (cs.put t c).find? u = cs.find? u := by
  rw [← find?_erase_of_ne cs h]
  have ht : (t == u) = false := by simpa using fun e => h e.symm
  simp [find?, put, List.find?_append, ht]

end Cursors

structure Session (σ : Type) where
  caller : Caller
  cursors : Cursors
  store : σ

namespace Session

variable {σ : Type}

def start (caller : Caller) (store : σ) : Session σ := ⟨caller, [], store⟩

def openCursors (s : Session σ) : Nat := s.cursors.length

def cursorState (s : Session σ) (t : Continuation) : CursorState :=
  if t.isExhausted then .fresh
  else if (s.cursors.find? t).isSome then .open
  else .closed

end Session

end CatalogQuery
