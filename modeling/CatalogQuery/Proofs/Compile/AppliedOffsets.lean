import Mathlib.Logic.ExistsUnique
import CatalogQuery.Config.Basic
import CatalogQuery.Proofs.Compile.OffsetStatements
import CatalogQuery.Proofs.Compile.OrderAndGroups

/-!
# Offsets under each configuration

A dialect leaves out the first rows by a bound offset, by a limit behind the offset, or by rows that
the backend skips. A configuration puts its own choice in the place of the preset's, but the count
that stands behind a limit is always the preset's, and two of the presets have none.

* `Pagination.Applies.unique`: the three ways cannot be confused;
* `Dialect.applies_iff`: a dialect leaves the rows out unless it writes a limit without a count;
* `DialectChoice.integerLiteral_iff`: the choices under which the count is there;
* `DialectChoice.offset_applied_once`: what this says of each compiled request and offset.
-/

namespace CatalogQuery

open Sql

namespace Sql

/-- Digits, perhaps behind a minus. -/
def IsIntegerLiteral (text : String) : Prop :=
  ∃ digits : List Char, digits ≠ [] ∧ (∀ c ∈ digits, c.isDigit = true) ∧
    (text.toList = digits ∨ text.toList = '-' :: digits)

theorem not_isIntegerLiteral_empty : ¬ IsIntegerLiteral "" := by
  rintro ⟨digits, hne, -, hplain | hnegative⟩
  · exact hne hplain.symm
  · cases hnegative

/-! ## The three ways -/

/-- A statement that leaves out the first `offset` rows of a plain one in this way, when `skipped` rows
of it are skipped. -/
def Pagination.Applies (p : Pagination) (plain statement : Fragment) (offset skipped : Nat) : Prop :=
  match p with
  | .offsetBind =>
    statement = ⟨plain.sql ++ " offset ?", plain.binds ++ [toString offset]⟩ ∧ skipped = 0
  | .limitComma => ∃ count, IsIntegerLiteral count ∧
    statement = ⟨plain.sql ++ (" limit " ++ toString offset ++ "," ++ count), plain.binds⟩ ∧
      skipped = 0
  | .manual => statement = plain ∧ skipped = offset

variable {p q : Pagination} {plain statement : Fragment} {offset skip : Nat}

theorem Pagination.Applies.binds (h : p.Applies plain statement offset skip) :
    statement.binds = plain.binds ++ (if p = .offsetBind then [toString offset] else []) := by
  cases p with
  | offsetBind => rw [h.1, if_pos rfl]
  | limitComma =>
    obtain ⟨count, -, hstatement, -⟩ := h
    simp [hstatement]
  | manual => simp [h.1]

theorem Pagination.Applies.skip_eq (h : p.Applies plain statement offset skip) :
    skip = if p = .manual then offset else 0 := by
  cases p with
  | offsetBind => exact h.2
  | limitComma =>
    obtain ⟨count, -, -, hskip⟩ := h
    exact hskip
  | manual => exact h.2

/-- The offset is among the values in one of the ways only, and in one only rows are skipped. -/
theorem Pagination.Applies.unique (hne : offset ≠ 0) (hp : p.Applies plain statement offset skip)
    (hq : q.Applies plain statement offset skip) : p = q := by
  have hbinds := List.append_cancel_left (hp.binds.symm.trans hq.binds)
  have hskip := hp.skip_eq.symm.trans hq.skip_eq
  cases p <;> cases q <;> simp [hne, hne.symm] at hbinds hskip ⊢

theorem Dialect.applies_of_complete (d : Dialect) (plain : Fragment) (hne : offset ≠ 0)
    (hcount : d.pagination = .limitComma → IsIntegerLiteral d.unboundedLimit) :
    d.pagination.Applies plain (plain ++ (d.offsetSuffix offset).getD .blank) offset
      (d.skipRows offset) := by
  cases hway : d.pagination with
  | offsetBind => simp [Pagination.Applies, offsetSuffix, skipRows, hway, hne, Fragment.ext_iff]
  | limitComma =>
    exact ⟨d.unboundedLimit, hcount hway,
      by simp [offsetSuffix, hway, hne, Fragment.ext_iff], by simp [skipRows, hway]⟩
  | manual =>
    simp [Pagination.Applies, offsetSuffix, skipRows, hway, Fragment.ext_iff, Fragment.blank]

/-- What stands behind a plain statement leaves the first rows out in one way, unless it is a limit
without a count. -/
theorem Dialect.applies_iff (d : Dialect) (plain : Fragment) (hne : offset ≠ 0) :
    (∃! p : Pagination, p.Applies plain (plain ++ (d.offsetSuffix offset).getD .blank) offset
      (d.skipRows offset)) ↔ (d.pagination = .limitComma → IsIntegerLiteral d.unboundedLimit) := by
  constructor
  case mp =>
    rintro ⟨p, hp, -⟩ hlimit
    have hbinds := hp.binds
    have hskip := hp.skip_eq
    cases p with
    | offsetBind => simp [offsetSuffix, hne, hlimit] at hbinds
    | limitComma =>
      obtain ⟨count, hcount, hstatement, -⟩ := hp
      have hsql := congrArg Fragment.sql hstatement
      simp only [offsetSuffix, hne, hlimit, if_false, Option.getD_some, Fragment.sql_append,
        String.append_right_inj] at hsql
      exact hsql ▸ hcount
    | manual =>
      simp only [skipRows, hlimit, if_true] at hskip
      exact absurd hskip.symm hne
  case mpr =>
    intro hcount
    have happlies := d.applies_of_complete plain hne hcount
    exact ⟨d.pagination, happlies, fun q hq => hq.unique hne happlies⟩

end Sql

/-! ## Choices -/

variable {choice : DialectChoice} {d : Dialect} {s : Schema} {caller : Caller}
  {options : CompileOptions} {r : Request} {c : Compiled}

theorem Sql.Dialect.eq_of_preset {name : String} (h : Dialect.preset name = some d) :
    d = .postgres ∨ d = .mysql ∨ d = .oracle ∨ d = .sqlite := by
  unfold Dialect.preset at h
  split at h <;> cases h <;> simp

/-- The presets with a count for limits. -/
theorem Sql.Dialect.integerLiteral_of_preset {name : String} (h : Dialect.preset name = some d) :
    IsIntegerLiteral d.unboundedLimit ↔ d = .mysql ∨ d = .sqlite := by
  rcases eq_of_preset h with rfl | rfl | rfl | rfl
  · exact iff_of_false not_isIntegerLiteral_empty (by decide)
  · have hdigits : "18446744073709551615".toList.all (·.isDigit) = true := by decide
    exact iff_of_true ⟨_, by decide, List.all_eq_true.mp hdigits, .inl rfl⟩ (.inl rfl)
  · exact iff_of_false not_isIntegerLiteral_empty (by decide)
  · have hdigits : ['1'].all (·.isDigit) = true := rfl
    exact iff_of_true ⟨_, by decide, List.all_eq_true.mp hdigits, .inr rfl⟩ (.inr rfl)

theorem Sql.Dialect.limitComma_of_preset {name : String} (h : Dialect.preset name = some d) :
    d.pagination = .limitComma ↔ d = .mysql ∨ d = .sqlite := by
  rcases eq_of_preset h with rfl | rfl | rfl | rfl <;> decide

/-- A preset without a count for limits has the empty text in its place. -/
theorem Sql.Dialect.unboundedLimit_of_preset {name : String} (h : Dialect.preset name = some d)
    (hcount : ¬ IsIntegerLiteral d.unboundedLimit) : d.unboundedLimit = "" := by
  rw [integerLiteral_of_preset h] at hcount
  rcases eq_of_preset h with rfl | rfl | rfl | rfl <;> first | rfl | simp at hcount

theorem DialectChoice.resolve_eq_ok : choice.resolve = .ok d ↔
    ∃ base, Dialect.preset choice.preset = some base ∧ d = { base with
      lengthFunction := choice.lengthFunction.getD base.lengthFunction
      pagination := choice.pagination.getD base.pagination
      countQuery := choice.countQuery.getD base.countQuery } := by
  unfold resolve
  cases Dialect.preset choice.preset with
  | none => simp
  | some base => simp [eq_comm]

/-- Limits are not chosen, or for a preset that writes them itself. -/
def DialectChoice.BringsCount (choice : DialectChoice) : Prop :=
  choice.pagination = some .limitComma →
    Dialect.preset choice.preset = some .mysql ∨ Dialect.preset choice.preset = some .sqlite

theorem DialectChoice.integerLiteral_iff (h : choice.resolve = .ok d) :
    (d.pagination = .limitComma → IsIntegerLiteral d.unboundedLimit) ↔ choice.BringsCount := by
  obtain ⟨base, hbase, rfl⟩ := resolve_eq_ok.mp h
  unfold BringsCount
  rw [hbase, Option.some_inj, Option.some_inj, ← Dialect.integerLiteral_of_preset hbase]
  cases choice.pagination with
  | none =>
    refine iff_of_true (fun hlimit => ?_) (fun hlimit => by cases hlimit)
    exact (Dialect.integerLiteral_of_preset hbase).mpr
      ((Dialect.limitComma_of_preset hbase).mp hlimit)
  | some way => rw [Option.some_inj, Option.getD_some]

/-- A choice without a count writes limits, and nothing behind the comma. -/
theorem DialectChoice.suffix_of_not_bringsCount (h : choice.resolve = .ok d)
    (hcount : ¬ choice.BringsCount) : d.pagination = .limitComma ∧ d.unboundedLimit = "" := by
  rw [← integerLiteral_iff h, Classical.not_imp] at hcount
  obtain ⟨base, hbase, rfl⟩ := resolve_eq_ok.mp h
  have hempty : base.unboundedLimit = "" := Dialect.unboundedLimit_of_preset hbase hcount.2
  exact ⟨hcount.1, hempty⟩

/-! ## Compiled requests -/

theorem Sql.Clauses.statement_plain (k : Clauses) (suffix : Option Fragment)
    (select : List SelectColumn) : (k.compiled suffix select).statement =
      ⟨k.body.sql ++ k.orderText, k.body.binds⟩ ++ suffix.getD .blank :=
  k.statement_eq suffix

theorem Schema.compile_at_offsets (h : s.compile d caller options r = .ok c) :
    ∃ (k : Clauses) (select : List SelectColumn), ∀ offset,
      s.compile d caller options { r with offset := offset } =
        .ok (k.compiled (d.offsetSuffix offset) select) := by
  obtain ⟨out, hout⟩ := s.compile_clauses d caller options r
  cases out with
  | error err => cases h.symm.trans (hout r.offset)
  | ok out => exact ⟨out.1, out.2, hout⟩

/-- At each offset a compiled request is its plain statement with the first rows left out once, unless
the choice writes limits for a preset without a count: what stands behind the statement then ends with
a comma. -/
theorem DialectChoice.offset_applied_once (hresolve : choice.resolve = .ok d)
    (hcompile : s.compile d caller options r = .ok c) :
    ∃ (k : Clauses) (plain : Fragment), plain = ⟨k.body.sql ++ k.orderText, k.body.binds⟩ ∧
      ∀ offset, ∃ c', s.compile d caller options { r with offset := offset } = .ok c' ∧
        c'.count = k.count ∧
        (offset = 0 → c'.statement = plain ∧ d.skipRows offset = 0) ∧
        (0 < offset →
          ((∃! p : Pagination, p.Applies plain c'.statement offset (d.skipRows offset)) ↔
            choice.BringsCount)) ∧
        (0 < offset → ¬ choice.BringsCount →
          c'.statement = ⟨plain.sql ++ (" limit " ++ toString offset ++ ","), plain.binds⟩ ∧
          d.skipRows offset = 0) := by
  obtain ⟨k, select, hout⟩ := Schema.compile_at_offsets hcompile
  refine ⟨k, _, rfl, fun offset => ⟨_, hout offset, rfl, ?zero, fun hpos => ?once,
    fun hpos hcount => ?comma⟩⟩
  case zero =>
    rintro rfl
    rw [k.statement_plain, d.offsetSuffix_zero]
    exact ⟨Fragment.append_blank _, d.skipRows_zero⟩
  case once =>
    rw [k.statement_plain, d.applies_iff _ (Nat.pos_iff_ne_zero.mp hpos),
      integerLiteral_iff hresolve]
  case comma =>
    obtain ⟨hlimit, hempty⟩ := suffix_of_not_bringsCount hresolve hcount
    have hne : offset ≠ 0 := Nat.pos_iff_ne_zero.mp hpos
    refine ⟨?_, by simp [Dialect.skipRows, hlimit]⟩
    rw [k.statement_plain]
    simp [Dialect.offsetSuffix, hne, hlimit, hempty, Fragment.ext_iff]

/-- A preset in other letters, with limits in the place of its own limits. -/
theorem nameAndSize_left_out : ∃ (d : Dialect) (plain : Fragment) (c : Compiled),
    DialectChoice.resolve ⟨"MySQL", none, some .limitComma, none⟩ = .ok d ∧
    Schema.sized.compile d .unknown {} { Request.nameAndSize with offset := 5 } = .ok c ∧
    plain = ⟨"select distinct data.name, sum(data.size), data.name, data.size from data" ++
      " group by data.name, data.size order by data.name desc, data.size", []⟩ ∧
    ∃! p : Pagination, p.Applies plain c.statement 5 (d.skipRows 5) := by
  obtain ⟨c₀, hc₀⟩ := Fallible.exists_of_isOk (x := Schema.sized.compile .mysql .unknown {}
    .nameAndSize) (by decide +kernel)
  have hresolve : DialectChoice.resolve ⟨"MySQL", none, some .limitComma, none⟩ = .ok .mysql := by
    decide +kernel
  obtain ⟨k, plain, -, hall⟩ := DialectChoice.offset_applied_once hresolve hc₀
  obtain ⟨c, hc, -, -, honce, -⟩ := hall 5
  obtain ⟨unpaged, hunpaged, -, hzero, -⟩ := hall 0
  refine ⟨.mysql, plain, c, hresolve, hc, ?_, (honce (by decide)).mpr fun _ => ?_⟩
  · have htext := congrArg (Except.map (·.statement)) hunpaged
    simp only [Except.map, (hzero rfl).1] at htext
    exact Except.ok.inj (htext.symm.trans (by decide +kernel))
  · exact .inl (by decide +kernel)

/-- The preset that binds its offsets, told to write limits. -/
theorem nameAndSize_cut_short : ∃ (d : Dialect) (plain c : Compiled),
    DialectChoice.resolve ⟨"postgres", none, some .limitComma, none⟩ = .ok d ∧
    Schema.sized.compile d .unknown {} Request.nameAndSize = .ok plain ∧
    Schema.sized.compile d .unknown {} { Request.nameAndSize with offset := 5 } = .ok c ∧
    c.statement = ⟨plain.statement.sql ++ " limit 5,", plain.statement.binds⟩ ∧
    ¬ ∃! p : Pagination, p.Applies plain.statement c.statement 5 (d.skipRows 5) := by
  let d : Dialect := { Dialect.postgres with pagination := .limitComma }
  obtain ⟨c₀, hc₀⟩ := Fallible.exists_of_isOk (x := Schema.sized.compile d .unknown {} .nameAndSize)
    (by decide +kernel)
  obtain ⟨k, select, hall⟩ := Schema.compile_at_offsets hc₀
  have hplain : (k.compiled (d.offsetSuffix 0) select).statement =
      ⟨k.body.sql ++ k.orderText, k.body.binds⟩ :=
    (k.statement_plain none select).trans (Fragment.append_blank _)
  refine ⟨d, _, _, by decide +kernel, hall 0, hall 5, ?_, ?_⟩ <;> rw [hplain, k.statement_plain]
  · exact congrArg _ (List.append_nil _)
  · exact (d.applies_iff _ (Nat.succ_ne_zero 4)).not.mpr
      fun hcount => not_isIntegerLiteral_empty (hcount rfl)

end CatalogQuery
