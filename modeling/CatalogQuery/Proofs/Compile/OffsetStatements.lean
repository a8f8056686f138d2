import CatalogQuery.Proofs.Compile.BindOrder
import CatalogQuery.Session.Execute
import CatalogQuery.Session.Script

/-!
# Pages, totals and recounts

A request compiles to one set of clauses, whatever its offset. The statement that delivers its rows,
the one that counts them and the one run again to count them differ in what stands around the body of
these clauses, and in nothing else.

* `Schema.compile_clauses`: only the suffix of a statement depends on the offset;
* `recount_eq`: what a recount asks of the backend;
* `Schema.statements_share_body`: the three statements range over the same rows.
-/

namespace CatalogQuery

open Sql Fallible

variable {dialect : Dialect} {caller : Caller} {options : CompileOptions} {r : Request}

/-! ## Statements around a body -/

theorem Sql.Dialect.offsetSuffix_zero (dialect : Dialect) : dialect.offsetSuffix 0 = none := if_pos rfl

theorem Sql.Clauses.statement_eq (k : Clauses) (suffix : Option Fragment) :
    k.statement suffix = ⟨k.body.sql ++ k.orderText ++ (suffix.getD .blank).sql,
      k.body.binds ++ (suffix.getD .blank).binds⟩ := by
  ext
  · rfl
  · simp [statement]

theorem Sql.Clauses.orderText_cases (k : Clauses) :
    k.orderText = "" ∨ ∃ columns, k.orderText = " order by " ++ ", ".intercalate columns := by
  unfold orderText
  split
  · exact .inl rfl
  · exact .inr ⟨_, rfl⟩

/-- A request has the same clauses at each offset, or fails with the same error. -/
theorem Schema.compile_clauses (s : Schema) (dialect : Dialect) (caller : Caller)
    (options : CompileOptions) (r : Request) :
    ∃ out : Except QueryError (Clauses × List SelectColumn), ∀ offset,
      s.compile dialect caller options { r with offset := offset } =
        out.map fun k => k.1.compiled (dialect.offsetSuffix offset) k.2 := by
  cases hdraft : s.draft caller r with
  | error err =>
    refine ⟨.error err, fun offset => ?_⟩
    have hdraft' : s.draft caller { r with offset := offset } = .error err := hdraft
    rw [compile, hdraft']
    rfl
  | ok d =>
    have hfinish : ∀ offset, s.compile dialect caller options { r with offset := offset } =
        d.finish s dialect caller options offset := by
      intro offset
      have hdraft' : s.draft caller { r with offset := offset } = .ok d := hdraft
      rw [compile, hdraft']
      rfl
    cases hclauses : d.complete s dialect caller options with
    | error err => exact ⟨.error err, fun offset => by rw [hfinish, Draft.finish, hclauses]; rfl⟩
    | ok k =>
      exact ⟨.ok (k, d.selects.map (·.1)), fun offset => by rw [hfinish, Draft.finish, hclauses]; rfl⟩

/-! ## Recounts -/

variable {σ : Type} {e : Engine} {compiled : Compiled}

/-- A recount runs the statement compiled without the offset, counts its rows and closes it. -/
theorem recount_eq (b : Backend σ) (hcompile : e.compile caller { r with offset := 0 } = .ok compiled)
    (store : σ) :
    recount b e caller r store =
      match b.run compiled.statement.sql compiled.statement.binds 0 store with
      | (.error _, store) => (none, store)
      | (.ok statement, store) =>
        let counted := b.rowCount statement store
        (counted.1.toOption, b.release statement counted.2) := by
  rewrite [recount, hcompile]
  rfl

/-- At each offset a request fails with the same error, or it compiles to statements around one body.
The statement that counts wraps the body; the one that delivers the rows has an order behind it, and
then what the dialect writes for the offset, with one value at most; and the one that is run again to
count them is the same without the offset. -/
theorem Schema.statements_share_body (s : Schema) (dialect : Dialect) (caller : Caller)
    (options : CompileOptions) (r : Request) :
    (∃ err, ∀ offset, s.compile dialect caller options { r with offset := offset } = .error err) ∨
    ∃ (body order : String) (binds sources : List String) (joins : Nat) (select : List SelectColumn),
      (order = "" ∨ ∃ columns, order = " order by " ++ ", ".intercalate columns) ∧
      (∀ offset, ∃ suffix : Fragment,
        s.compile dialect caller options { r with offset := offset } = .ok {
          statement := ⟨body ++ order ++ suffix.sql, binds ++ suffix.binds⟩
          count := ⟨"select count(*) from (" ++ body ++ ") genquery_count", binds⟩
          sources := sources
          joins := joins
          select := select } ∧
        suffix = (dialect.offsetSuffix offset).getD .blank ∧
        (offset = 0 → suffix = .blank) ∧ (suffix.binds = [] ∨ suffix.binds = [toString offset])) ∧
      ∀ {σ : Type} (b : Backend σ) (e : Engine) (store : σ), e.schema = s → e.dialect = dialect →
        e.policy.strict = options.strict → e.access.anonymousUser = options.anonymousUser →
        recount b e caller r store =
          match b.run (body ++ order) binds 0 store with
          | (.error _, store) => (none, store)
          | (.ok statement, store) =>
            let counted := b.rowCount statement store
            (counted.1.toOption, b.release statement counted.2) := by
  obtain ⟨out, hcompile⟩ := s.compile_clauses dialect caller options r
  cases out with
  | error err => exact .inl ⟨err, hcompile⟩
  | ok out =>
    obtain ⟨k, select⟩ := out
    have hstatement : ∀ offset, s.compile dialect caller options { r with offset := offset } =
        .ok (k.compiled (dialect.offsetSuffix offset) select) := hcompile
    refine .inr ⟨k.body.sql, k.orderText, k.body.binds, k.sources.entries, k.joinCount, select,
      k.orderText_cases, fun offset => ⟨(dialect.offsetSuffix offset).getD .blank, ?_, rfl, ?_, ?_⟩, ?_⟩
    · rw [hstatement, Clauses.compiled, Clauses.statement_eq]
      rfl
    · rintro rfl
      rw [dialect.offsetSuffix_zero]
      rfl
    · rw [Dialect.binds_suffix]
      split
      · exact .inr rfl
      · exact .inl rfl
    · rintro σ b e store rfl rfl hstrict hanonymous
      have hzero : e.compile caller { r with offset := 0 } = .ok (k.compiled none select) := by
        rw [Engine.compile, hstrict, hanonymous, hstatement 0, e.dialect.offsetSuffix_zero]
      rw [recount_eq b hzero store, Clauses.compiled, Clauses.statement_eq]
      simp [Fragment.blank]

/-- An engine for labels with values, under a strict policy. -/
def labelledEngine : Engine where
  schema := .labelled
  dialect := .postgres
  policy := { strict := true }

/-- The third statement of two labels: it has the values of the count, in the same order. -/
theorem twoLabels_recounted : ∃ body order binds,
    (Schema.labelled.compile .postgres ⟨"alice", "north", .localUser⟩ { strict := true }
      .twoLabels).map (fun c => (c.count, c.statement)) =
      .ok (⟨"select count(*) from (" ++ body ++ ") genquery_count", binds⟩,
        ⟨body ++ order ++ " offset ?", binds ++ ["1"]⟩) ∧
    (recount Playback.backend labelledEngine ⟨"alice", "north", .localUser⟩ .twoLabels
      { script := {} }).2.calls =
      [.run (body ++ order) binds 0, .rowCount ⟨1⟩, .close ⟨1⟩] := by
  obtain ⟨c, hc⟩ := Fallible.exists_of_isOk (x := Schema.labelled.compile .postgres
    ⟨"alice", "north", .localUser⟩ { strict := true } .twoLabels) (by decide +kernel)
  rcases Schema.statements_share_body .labelled .postgres ⟨"alice", "north", .localUser⟩
    { strict := true } .twoLabels with ⟨err, hfails⟩ |
    ⟨body, order, binds, sources, joins, select, -, hstatements, hrecount⟩
  · cases hc.symm.trans (hfails 1)
  · refine ⟨body, order, binds, ?_, ?_⟩
    · obtain ⟨suffix, hcompile, rfl, -⟩ := hstatements 1
      rw [show Request.twoLabels = { Request.twoLabels with offset := 1 } from rfl, hcompile]
      rfl
    · rw [hrecount Playback.backend labelledEngine _ rfl rfl rfl rfl]
      rfl

end CatalogQuery
