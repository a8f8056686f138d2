import CatalogQuery.Condition.Basic
import CatalogQuery.Sql.Fragment
import CatalogQuery.Text.Blank

/-!
# Clauses of a statement

A statement as lists of entries, written out once at the end. Each condition keeps its binds next to
its text, so binds always stand in the order of their placeholders.
-/

namespace CatalogQuery.Sql

/-! ## Sources -/

/-- The entries after FROM. Each binds its last word. -/
structure Sources where
  entries : List String := []
  deriving DecidableEq, Repr

namespace Sources

def bindings (s : Sources) : List String := s.entries.map Text.lastWord

def binds (s : Sources) (binding : String) : Bool := s.bindings.contains binding

/-- Adds an entry unless its binding is taken. -/
def add (s : Sources) (entry : String) : Sources :=
  if s.binds (Text.lastWord entry) then s else ⟨s.entries ++ [entry]⟩

theorem nodup_bindings_add {s : Sources} (h : s.bindings.Nodup) (entry : String) :
    (s.add entry).bindings.Nodup := by
  unfold add
  split
  · exact h
  · next hb =>
    have : Text.lastWord entry ∉ s.bindings := by simpa [binds] using hb
    simp only [bindings, List.map_append, List.map_cons, List.map_nil]
    refine List.nodup_append.mpr ⟨h, by simp, fun a ha b hb' => ?_⟩
    simp only [List.mem_singleton] at hb'
    exact fun e => this (hb' ▸ e ▸ ha)

end Sources

/-! ## Terms -/

/-- One term of a WHERE clause. -/
inductive Term where
  | predicate (p : Fragment)
  | compound (connective : Connective) (left right : Fragment)
  | join (predicate : String)
  deriving DecidableEq, Repr

namespace Term

def render : Term → Fragment
  | predicate p => p
  | compound connective left right =>
    ⟨"( " ++ left.sql ++ " " ++ connective.sql ++ " " ++ right.sql ++ " )",
      left.binds ++ right.binds⟩
  | join p => ⟨p, []⟩

def isJoin : Term → Bool
  | join _ => true
  | _ => false

end Term

structure OrderItem where
  column : String
  descending : Bool
  deriving DecidableEq, Repr

def OrderItem.render (o : OrderItem) : String :=
  if o.descending then o.column ++ " desc" else o.column

structure Clauses where
  select : List String := []
  sources : Sources := {}
  terms : List Term := []
  groupBy : List String := []
  orderBy : List OrderItem := []
  deriving DecidableEq, Repr

namespace Clauses

def joinCount (c : Clauses) : Nat := c.terms.countP (·.isJoin)

def ordersOn (c : Clauses) (column : String) : Bool := c.orderBy.any (·.column == column)

/-- The terms behind WHERE, joined by AND. -/
def whereText (c : Clauses) : String :=
  if c.terms.isEmpty then "" else " where " ++ " AND ".intercalate (c.terms.map (·.render.sql))

def groupText (c : Clauses) : String :=
  if c.groupBy.isEmpty then "" else " group by " ++ ", ".intercalate c.groupBy

def orderText (c : Clauses) : String :=
  if c.orderBy.isEmpty then "" else " order by " ++ ", ".intercalate (c.orderBy.map (·.render))

/-- The statement without order and offset: it fixes the rows as a set. -/
def body (c : Clauses) : Fragment :=
  ⟨"select distinct " ++ ", ".intercalate c.select ++ " from "
      ++ ", ".intercalate c.sources.entries ++ c.whereText ++ c.groupText,
    c.terms.flatMap (·.render.binds)⟩

/-- The statement that delivers the rows; `suffix` leaves out the first ones. -/
def statement (c : Clauses) (suffix : Option Fragment) : Fragment :=
  c.body ++ ⟨c.orderText, []⟩ ++ suffix.getD .blank

/-- The statement that counts the rows. -/
def count (c : Clauses) : Fragment :=
  ⟨"select count(*) from (" ++ c.body.sql ++ ") genquery_count", c.body.binds⟩

end Clauses

end CatalogQuery.Sql
