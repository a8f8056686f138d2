/-!
# Fragments of SQL

A piece of SQL text with the values for its placeholders, in the order of the placeholders.
-/

namespace CatalogQuery.Sql

structure Fragment where
  sql : String
  binds : List String := []
  deriving DecidableEq, Repr

/-- The piece without text and values. -/
def Fragment.blank : Fragment := ⟨"", []⟩

instance : Append Fragment := ⟨fun a b => ⟨a.sql ++ b.sql, a.binds ++ b.binds⟩⟩

@[simp] theorem Fragment.sql_append (a b : Fragment) : (a ++ b).sql = a.sql ++ b.sql := rfl

@[simp] theorem Fragment.binds_append (a b : Fragment) : (a ++ b).binds = a.binds ++ b.binds := rfl

end CatalogQuery.Sql
