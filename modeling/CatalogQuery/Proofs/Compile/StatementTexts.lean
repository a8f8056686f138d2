import CatalogQuery.Proofs.Compile.Compiles

/-!
# The texts of a compilation

A compilation writes its clauses out word for word: what it selects, FROM, WHERE, GROUP BY, ORDER BY,
and last what the dialect writes for the offset. The statement that counts the rows wraps the same
words without order and offset. Values stand in the order of the terms that they belong to.

* `Compiled.Writes`: the texts and the values of a compilation, written out;
* `Sql.Clauses.writes`: clauses are compiled to these texts;
* `Sql.Clauses.writes_narrowed`: filters stand behind all other terms, and nothing else changes.
-/

namespace CatalogQuery

open Sql

namespace Sql

/-- A clause: its keyword with the entries behind it, or nothing where there are none. -/
def clauseText (keyword separator : String) (entries : List String) : String :=
  if entries = [] then "" else keyword ++ separator.intercalate entries

theorem clauseText_of_isEmpty {α : Type} (keyword separator : String) (entries : List α)
    (text : α → String) : clauseText keyword separator (entries.map text)
      = if entries.isEmpty then "" else keyword ++ separator.intercalate (entries.map text) := by
  cases entries <;> rfl

/-- The words that fix the rows as a set, with these terms behind WHERE. -/
def Clauses.wording (k : Clauses) (terms : List Fragment) : String :=
  "select distinct " ++ ", ".intercalate k.select ++ " from " ++ ", ".intercalate k.sources.entries
    ++ clauseText " where " " AND " (terms.map (·.sql)) ++ clauseText " group by " ", " k.groupBy

end Sql

/-- A compilation has the words of the clauses, with these terms behind WHERE and their values as
binds; the suffix stands behind the order, and not in the count. -/
structure Compiled.Writes (c : Compiled) (k : Clauses) (terms : List Fragment) (suffix : Fragment) :
    Prop where
  sql : c.statement.sql = k.wording terms
    ++ clauseText " order by " ", "
      (k.orderBy.map fun o => if o.descending then o.column ++ " desc" else o.column) ++ suffix.sql
  binds : c.statement.binds = terms.flatMap (·.binds) ++ suffix.binds
  countSql : c.count.sql = "select count(*) from (" ++ k.wording terms ++ ") genquery_count"
  countBinds : c.count.binds = terms.flatMap (·.binds)
  sources : c.sources = k.sources.entries
  joins : c.joins = k.joinCount

namespace Sql.Clauses

variable (k : Clauses) (suffix : Option Fragment) (select : List SelectColumn)

theorem whereText_eq_clauseText :
    k.whereText = clauseText " where " " AND " ((k.terms.map (·.render)).map (·.sql)) := by
  rw [List.map_map, clauseText_of_isEmpty]
  rfl

theorem groupText_eq_clauseText : k.groupText = clauseText " group by " ", " k.groupBy := by
  unfold groupText clauseText
  simp only [List.isEmpty_iff]

theorem orderText_eq_clauseText : k.orderText = clauseText " order by " ", "
    (k.orderBy.map fun o => if o.descending then o.column ++ " desc" else o.column) := by
  rw [clauseText_of_isEmpty]
  rfl

theorem body_eq_wording : k.body.sql = k.wording (k.terms.map (·.render)) := by
  unfold wording
  rewrite [← whereText_eq_clauseText, ← groupText_eq_clauseText]
  unfold body
  dsimp only

theorem writes : (k.compiled suffix select).Writes k (k.terms.map (·.render))
    (suffix.getD .blank) where
  sql := by
    rw [← body_eq_wording, ← orderText_eq_clauseText]
    rfl
  binds := by
    show k.body.binds ++ [] ++ _ = _
    rw [List.append_nil, List.flatMap_map]
    rfl
  countSql := by
    rw [← body_eq_wording]
    rfl
  countBinds := by
    rw [List.flatMap_map]
    rfl
  sources := rfl
  joins := rfl

/-- The clauses with filters behind all other terms. -/
def narrowed (filters : List Fragment) : Clauses :=
  { k with terms := k.terms ++ filters.map .predicate }

@[simp] theorem narrowed_nil : k.narrowed [] = k := by
  simp [narrowed]

variable (filters : List Fragment)

/-- Filters are no joins. -/
theorem joinCount_narrowed : (k.narrowed filters).joinCount = k.joinCount := by
  have hnone : (filters.map Term.predicate).countP (·.isJoin) = 0 := by
    rw [List.countP_eq_zero]
    simp [Term.isJoin]
  rw [joinCount, narrowed, List.countP_append, hnone, Nat.add_zero, joinCount]

theorem map_render_narrowed :
    (k.narrowed filters).terms.map (·.render) = k.terms.map (·.render) ++ filters := by
  have hfilters : (filters.map Term.predicate).map (·.render) = filters := by
    rw [List.map_map]
    exact List.map_id filters
  rw [narrowed, List.map_append, hfilters]

/-- The values of filters stand behind all other values. -/
theorem binds_narrowed : (k.narrowed filters).body.binds
    = k.body.binds ++ filters.flatMap (·.binds) := by
  have hbinds : ∀ k : Clauses, k.body.binds = (k.terms.map (·.render)).flatMap (·.binds) := by
    intro k
    rw [List.flatMap_map]
    rfl
  rw [hbinds, hbinds, map_render_narrowed, List.flatMap_append]

theorem writes_narrowed : ((k.narrowed filters).compiled suffix select).Writes k
    (k.terms.map (·.render) ++ filters) (suffix.getD .blank) := by
  have h := (k.narrowed filters).writes suffix select
  rw [map_render_narrowed] at h
  exact ⟨h.sql, h.binds, h.countSql, h.countBinds, h.sources,
    h.joins.trans (k.joinCount_narrowed filters)⟩

end Sql.Clauses

end CatalogQuery
