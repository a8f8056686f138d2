import CatalogQuery.Proofs.Compile.BindOrder
import CatalogQuery.Proofs.Condition.QuotedLiterals
import CatalogQuery.Request.Builder

/-!
# Conditions that a builder writes

A builder writes a value between quotes behind an operator. A value without quotes is content: the
condition has it as its literal and the statement binds it. The exception is a value that deceives,
which the condition is refused for.

* `Schema.binds_of_compile`: the values of the conditions come first in a statement;
* `RequestCondition.ReadsAs`: what becomes of a condition that is read, and of its values;
* `quoted_value_is_content`: which values are content, and where they are bound.
-/

namespace CatalogQuery

open Fallible Text

variable {s : Schema} {dialect : Sql.Dialect} {caller : Caller} {options : CompileOptions}
  {r : Request} {q : Compiled}

/-- The values of the conditions, in the order of the request, come before all others. -/
theorem Schema.binds_of_compile (h : s.compile dialect caller options r = .ok q) :
    ∃ conditions rest suffix,
      List.Forall₂ (fun asked read => Condition.parse asked.expression = .ok read) r.conditions
        conditions ∧
      q.count.binds = conditions.flatMap (·.values) ++ rest ∧
      q.statement.binds = q.count.binds ++ suffix := by
  obtain ⟨d, hd, -, links, -, rfl, -⟩ := compile_eq_ok.mp h
  have hread : List.Forall₂ (fun asked read => Condition.parse asked.expression = .ok read)
      r.conditions (d.conditions.map (·.1)) := by
    rw [List.forall₂_map_right_iff]
    exact (Draft.conditions_of_draft hd).imp fun _ _ hread => hread.2
  let filters := s.rowFilters (d.selects.map fun c => c.2.tableId) caller options.strict
    options.anonymousUser
  have hbody : ((d.openClauses s dialect links).narrowed filters).count.binds
      = (d.conditions.map (·.1)).flatMap (·.values) ++ filters.flatMap (·.binds) := by
    rw [Sql.Clauses.binds_count, Sql.Clauses.binds_narrowed, Draft.binds_openClauses hd,
      List.flatMap_map]
  refine ⟨_, _, ((dialect.offsetSuffix r.offset).getD .blank).binds, hread, hbody, ?_⟩
  show ((d.clauses s dialect caller options links).statement _).binds = _
  rw [Sql.Clauses.statement, Sql.Fragment.binds_append, Sql.Fragment.binds_append,
    List.append_nil]
  rfl

/-- What becomes of a condition of a request: it is read as `c` wherever its column is open and the
table of its place is found, and `values` stand in the statement right behind the values of the
conditions before it. -/
structure RequestCondition.ReadsAs (asked : RequestCondition) (c : Condition)
    (values : List String) : Prop where
  added : ∀ (s : Schema) (caller : Caller) (d : Draft),
    d.addCondition s caller asked.column asked.expression = (do
      let info ← s.openColumn caller asked.column
      s.lookUpPlace (d.roles s) info
      return ⟨d.items ++ [.condition c info]⟩)
  bound : ∀ {s : Schema} {dialect : Sql.Dialect} {caller : Caller} {options : CompileOptions}
    {r : Request} {q : Compiled} {before behind : List RequestCondition},
    r.conditions = before ++ asked :: behind → s.compile dialect caller options r = .ok q →
    ∃ earlier later later',
      List.Forall₂ (fun asked read => Condition.parse asked.expression = .ok read) before earlier ∧
      q.count.binds = earlier.flatMap (·.values) ++ values ++ later ∧
      q.statement.binds = earlier.flatMap (·.values) ++ values ++ later'

theorem RequestCondition.readsAs {asked : RequestCondition} {c : Condition}
    (h : Condition.parse asked.expression = .ok c) : asked.ReadsAs c c.values where
  added := by
    intro s caller d
    unfold Draft.addCondition
    rw [h]
    cases s.openColumn caller asked.column <;> rfl
  bound := by
    intro s dialect caller options r q before behind hr hcompile
    obtain ⟨conditions, rest, suffix, hread, hcount, hstatement⟩ := Schema.binds_of_compile hcompile
    rw [hr] at hread
    obtain ⟨earlier, others, rfl, hbefore, hothers⟩ := append_left_of_forall₂ hread
    obtain ⟨c', behind', hc', -, rfl⟩ := List.forall₂_cons_left_iff.mp hothers
    obtain rfl : c = c' := Except.ok.inj (h.symm.trans hc')
    refine ⟨earlier, behind'.flatMap (·.values) ++ rest, behind'.flatMap (·.values) ++ rest ++ suffix,
      hbefore, ?_, ?_⟩
    · rw [hcount]
      simp
    · rw [hstatement, hcount]
      simp

/-- The conditions of a builder, as long as its build is not spoiled. -/
theorem Builder.conditions_condition {b : Builder} (hb : b.spoiled = false) (column : ColumnId)
    (expression : String) : (b.condition column expression).request.conditions
      = b.request.conditions ++ [⟨column, expression⟩] := by
  simp [condition, extend, hb]

/-- Behind an operator that takes one literal, a value without quotes is that literal, whatever else
it holds, provided that the text of the operator is not too long. Only a deceptive value is refused:
its text is taken for two conditions, the first of which is not closed. So the builder's conditions
on a value that does not deceive are read with this value, and the statement binds it: once if the
column has to equal it, and twice if it has to begin with it. -/
theorem quoted_value_is_content {value : String} (hv : '\'' ∉ value.toList) :
    (∀ (text : String) (o : Operator), Operator.parse text.toList = some o → o.takesRange = false →
      (Condition.Deceptive value.toList →
        ∃ before, (∀ c ∈ before.toList, isBlank c = true) ∧
          Condition.parse (text ++ "'" ++ value ++ "'")
            = .error (.conditionSyntax (text ++ "'" ++ before) "unterminated literal")) ∧
      (¬Condition.Deceptive value.toList →
        Condition.parse (text ++ "'" ++ value ++ "'") =
          if Condition.byteLength (trim text.toList) > Condition.maxOperatorBytes then
            .error (.conditionSyntax (text ++ "'" ++ value ++ "'") "operator text too long")
          else .ok (.simple ⟨o, [value], false⟩))) ∧
    (¬Condition.Deceptive value.toList → ∀ (b : Builder) (column : ColumnId), b.spoiled = false →
      (∃ asked : RequestCondition, asked.column = column ∧
        (b.equals column value).request.conditions = b.request.conditions ++ [asked] ∧
        asked.ReadsAs (.simple ⟨.eq, [value], false⟩) [value]) ∧
      ∃ asked : RequestCondition, asked.column = column ∧
        (b.beginsWith column value).request.conditions = b.request.conditions ++ [asked] ∧
        asked.ReadsAs (.simple ⟨.beginOf, [value], false⟩) [value, value]) := by
  refine ⟨fun text o ht hrange => ⟨fun hdeceptive => Condition.parse_deceptive ht hv hdeceptive,
    fun hplain => Condition.parse_quoted ht hrange hv hplain⟩, fun hplain b column hb => ⟨?_, ?_⟩⟩
  · have htext : Operator.parse "= ".toList = some .eq := by decide +kernel
    have hparse : Condition.parse ("= '" ++ value ++ "'") = .ok (.simple ⟨.eq, [value], false⟩) := by
      rw [show "= '" = "= " ++ "'" from rfl]
      exact Condition.parse_quoted htext rfl hv hplain
    exact ⟨_, rfl, b.conditions_condition hb column _, RequestCondition.readsAs hparse⟩
  · have htext : Operator.parse "begin_of ".toList = some .beginOf := by decide +kernel
    have hparse : Condition.parse ("begin_of '" ++ value ++ "'")
        = .ok (.simple ⟨.beginOf, [value], false⟩) := by
      rw [show "begin_of '" = "begin_of " ++ "'" from rfl]
      exact Condition.parse_quoted htext rfl hv hplain
    exact ⟨_, rfl, b.conditions_condition hb column _, RequestCondition.readsAs hparse⟩

/-- A builder with a condition on labels. -/
def Builder.labelled : Builder := (Builder.start.select ⟨1⟩).condition ⟨2⟩ "n> '3'"

/-- A connective at the start of a value is content where no operator goes on to the end. -/
theorem leading_connective_kept : '\'' ∉ "|| = b".toList ∧ ¬Condition.Deceptive "|| = b".toList ∧
    Condition.parse ("NOT  like" ++ "'" ++ "|| = b" ++ "'")
      = .ok (.simple ⟨.notLike, ["|| = b"], false⟩) ∧
    ∃ q later, Schema.roundabout.compile .postgres ⟨"alice", "north", .localUser⟩ {}
        (Builder.labelled.beginsWith ⟨1⟩ "|| = b").request = .ok q ∧
      q.statement.binds = ["3"] ++ ["|| = b", "|| = b"] ++ later := by
  have hv : '\'' ∉ "|| = b".toList := by decide
  have hplain : ¬Condition.Deceptive "|| = b".toList := by decide +kernel
  obtain ⟨hreads, hbuilds⟩ := quoted_value_is_content hv
  have hparse := (hreads "NOT  like" .notLike (by decide +kernel) rfl).2 hplain
  obtain ⟨-, asked, -, hconditions, hasked⟩ := hbuilds hplain .labelled ⟨1⟩ rfl
  obtain ⟨q, hq⟩ := exists_of_isOk (x := Schema.roundabout.compile .postgres
    ⟨"alice", "north", .localUser⟩ {} (Builder.labelled.beginsWith ⟨1⟩ "|| = b").request)
    (by decide +kernel)
  obtain ⟨earlier, later, later', hearlier, -, hbinds⟩ := hasked.bound hconditions hq
  obtain ⟨c, behind, hc, hnone, rfl⟩ := List.forall₂_cons_left_iff.mp hearlier
  cases hnone
  have hnumber : Condition.parse "n> '3'" = .ok (.simple ⟨.gt, ["3"], true⟩) := by decide +kernel
  cases hnumber.symm.trans hc
  exact ⟨hv, hplain, hparse, q, later', hq, hbinds⟩

/-- A value of a connective and an operator is not taken for content: the condition that the builder
writes for it is refused. -/
theorem deceptive_value_refused : '\'' ∉ "||=".toList ∧ Operator.parse "= ".toList = some .eq ∧
    Operator.eq.takesRange = false ∧
    Condition.parse ("= " ++ "'" ++ "||=" ++ "'")
      = .error (.conditionSyntax "= '" "unterminated literal") ∧
    ∃ r, ((Builder.start.select ⟨1⟩).equals ⟨1⟩ "||=").build = .ok r ∧
      Schema.roundabout.compile .postgres ⟨"alice", "north", .localUser⟩ {} r
        = .error (.conditionSyntax "= '" "unterminated literal") := by
  refine ⟨by decide, by decide +kernel, rfl, by decide +kernel, _, rfl, by decide +kernel⟩

end CatalogQuery
