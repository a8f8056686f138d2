import CatalogQuery.Proofs.Catalog.Answers
import CatalogQuery.Proofs.Fallible
import Mathlib.Data.List.Nodup

/-!
# Running selections

When all its names are known, the statement of a selection can be run, and its answer has the value
of the selected column for every choice of rows in which all equations hold.

* `Selection.Scoped`: all names are known, and every row has values for them;
* `Selection.Scoped.mem_matching`: the choices that satisfy the equations;
* `Selection.Scoped.checkQuery`: the names are accepted;
* `Selection.run_statement`: the answer to the statement.
-/

namespace CatalogQuery.Sql

/-! ## Conjunctions -/

section Conjunctions

variable {tables : Tables} {s : Scope}

theorem isConjunction_foldl {f : Formula} {fs : List Formula} (hf : f.IsConjunction)
    (hfs : ∀ g ∈ fs, g.IsConjunction) : (fs.foldl .and f).IsConjunction := by
  induction fs generalizing f with
  | nil => exact hf
  | cons g fs ih =>
    exact ih (.and hf (hfs g List.mem_cons_self)) fun k hk => hfs k (List.mem_cons_of_mem _ hk)

/-- A conjunction is decided with its terms, and true if all of them are. -/
theorem truth_foldl {f : Formula} {fs : List Formula}
    (h : ∀ g ∈ f :: fs, ∃ b, g.truth tables s = some b) :
    ∃ b, (fs.foldl .and f).truth tables s = some b ∧
      (b = true ↔ ∀ g ∈ f :: fs, g.truth tables s = some true) := by
  induction fs generalizing f with
  | nil =>
    obtain ⟨b, hb⟩ := h f List.mem_cons_self
    exact ⟨b, hb, by simp [hb]⟩
  | cons g fs ih =>
    obtain ⟨b, hb⟩ := h f List.mem_cons_self
    obtain ⟨c, hc⟩ := h g (by simp)
    have hand : (Formula.and f g).truth tables s = some (b && c) := by
      rw [Formula.truth, hb, hc]
      cases b <;> rfl
    obtain ⟨d, hd, hall⟩ := ih (f := .and f g) (by
      intro k hk
      rcases List.mem_cons.mp hk with rfl | hk
      · exact ⟨_, hand⟩
      · exact h k (by simp [hk]))
    refine ⟨d, hd, hall.trans ?_⟩
    simp [hand, hb, hc, and_assoc]

end Conjunctions

theorem Equation.isConjunction (e : Equation) : e.formula.IsConjunction := by
  cases e with
  | columns a b => exact .compare _ _ _
  | literal a v => exact .compare _ _ _

theorem Equation.checkInnerSources {tables : Tables} (e : Equation) :
    Names.checkInnerSources tables e.formula = .ok () := by
  cases e with
  | columns a b => rfl
  | literal a v => rfl

namespace Selection

section Conjunctions

variable {tables : Tables} {fs : List Formula} {g : Formula}

theorem isConjunction_conjunction (h : conjunction fs = some g)
    (hfs : ∀ f ∈ fs, f.IsConjunction) : g.IsConjunction := by
  cases fs with
  | nil => cases h
  | cons f fs =>
    cases h
    exact isConjunction_foldl (hfs f List.mem_cons_self) fun k hk =>
      hfs k (List.mem_cons_of_mem f hk)

/-- A conjunction refuses a choice in which one of its terms fails, and what is refused stays so. -/
theorem lasting_conjunction (h : conjunction fs = some g)
    (hfs : ∀ f ∈ fs, f.IsConjunction) : Lasting fun t => g.truth tables t == some false := by
  intro t t' hgrows ht
  rw [beq_iff_eq] at ht ⊢
  exact (isConjunction_conjunction h hfs).truth_grows hgrows ht

theorem refused_conjunction (h : conjunction fs = some g) {t : Scope}
    (hdecided : ∀ f ∈ fs, ∃ b, f.truth tables t = some b) :
    (g.truth tables t == some false) = false ↔ ∀ f ∈ fs, f.truth tables t = some true := by
  cases fs with
  | nil => cases h
  | cons f fs =>
    cases h
    obtain ⟨b, hb, hall⟩ := truth_foldl hdecided
    rw [hb, ← hall]
    cases b <;> simp

end Conjunctions

variable {s : Selection} {tables : Tables} {rowOf : String → List Value}

/-- The sources with their rows. -/
def entries (s : Selection) (tables : Tables) : List OpenEntry := s.sources.map (·.entry tables)

/-- The column is one of a source, the rows of which have a value for it. -/
def Finds (tables : Tables) (s : Selection) (c : SourceColumn) : Prop :=
  ∃ x ∈ s.sources, x.binding = c.binding ∧ ∃ i affinity,
    (x.entry tables).unchosen.column? c.ref = some (i, affinity) ∧
    ∀ row ∈ (x.entry tables).relation.rows, i < row.length

/-- All names of the selection are known. -/
structure Scoped (tables : Tables) (s : Selection) : Prop where
  nodup : (s.sources.map (·.binding)).Nodup
  known : ∀ x ∈ s.sources, (tables x.table).isSome
  columns : ∀ c ∈ s.columns, s.Finds tables c

theorem plain_query : s.query.Plain := ⟨rfl, rfl, rfl, rfl⟩

namespace Scoped

theorem nodup_entries (h : s.Scoped tables) : ((s.entries tables).map (·.binding)).Nodup := by
  simpa [entries, List.map_map, Function.comp_def, Source.entry] using h.nodup

/-- A column that is mentioned has a value in every choice. -/
theorem exists_lookup (h : s.Scoped tables) {c : SourceColumn} (hc : c ∈ s.columns)
    (hrows : Chooses rowOf (s.entries tables)) :
    ∃ v, (scopeOf rowOf (s.entries tables)).lookup c.ref = some v := by
  obtain ⟨x, hx, hbinding, i, affinity, hcolumn, hwide⟩ := h.columns c hc
  have hentry : x.entry tables ∈ s.entries tables := List.mem_map_of_mem hx
  have hrow := hrows _ hentry
  have hi : i < (rowOf c.binding).length := by
    rw [← hbinding]
    exact hwide _ hrow
  rw [lookup_scopeOf h.nodup_entries hentry hbinding hcolumn, List.getElem?_eq_getElem hi]
  exact ⟨_, rfl⟩

theorem decided (h : s.Scoped tables) (hrows : Chooses rowOf (s.entries tables)) {e : Equation}
    (he : e ∈ s.equations) :
    ∃ b, e.formula.truth tables (scopeOf rowOf (s.entries tables)) = some b := by
  have hmentioned : ∀ c ∈ e.mentioned, c ∈ s.columns := fun c hc =>
    mem_columns.mpr (.inr ⟨e, he, hc⟩)
  cases e with
  | columns a b =>
    obtain ⟨v, hv⟩ := h.exists_lookup (hmentioned a List.mem_cons_self) hrows
    obtain ⟨w, hw⟩ := h.exists_lookup (hmentioned b (by simp [Equation.mentioned])) hrows
    exact ⟨_, by simp [Equation.formula, Formula.truth, Operand.eval, hv, hw]; rfl⟩
  | literal a v =>
    obtain ⟨w, hw⟩ := h.exists_lookup (hmentioned a List.mem_cons_self) hrows
    exact ⟨_, by simp [Equation.formula, Formula.truth, Operand.eval, hw]; rfl⟩

/-- What is chosen satisfies all equations. -/
theorem mem_matching (h : s.Scoped tables) (hsourced : s.sources ≠ []) {t : Scope} :
    t ∈ s.query.matching tables ↔ ∃ rowOf, Chooses rowOf (s.entries tables) ∧
      t = scopeOf rowOf (s.entries tables) ∧
      ∀ e ∈ s.equations, e.formula.truth tables t = some true := by
  -- The condition refuses exactly the choices in which an equation fails.
  obtain ⟨refused, hmatching, hlasting, hrefused⟩ : ∃ refused : Scope → Bool,
      s.query.matching tables = choices refused [] [] (s.entries tables) ∧ Lasting refused ∧
      ∀ rowOf, Chooses rowOf (s.entries tables) →
        (refused (scopeOf rowOf (s.entries tables)) = false ↔ ∀ e ∈ s.equations,
          e.formula.truth tables (scopeOf rowOf (s.entries tables)) = some true) := by
    cases hg : conjunction (s.equations.map (·.formula)) with
    | none =>
      have hnone : s.equations = [] := by
        cases hes : s.equations with
        | nil => rfl
        | cons e es => simp [hes, conjunction] at hg
      exact ⟨fun _ => false, by simp [Query.matching, query, hg, entries], by simp [Lasting],
        by simp [hnone]⟩
    | some g =>
      refine ⟨fun t => g.truth tables t == some false,
        by simp [Query.matching, query, hg, entries], lasting_conjunction hg ?_, ?_⟩
      · exact List.forall_mem_map.mpr fun e _ => e.isConjunction
      · intro rowOf hchooses
        rw [refused_conjunction hg (List.forall_mem_map.mpr fun e he => h.decided hchooses he),
          List.forall_mem_map]
  rw [hmatching, mem_choices hlasting]
  have hne : s.entries tables ≠ [] := by simpa [entries] using hsourced
  constructor
  · rintro ⟨rows, hrows, rfl, hdone⟩
    obtain ⟨rowOf, hchooses, hzip⟩ := exists_chooses h.nodup_entries hrows
    refine ⟨rowOf, hchooses, by simp [hzip], ?_⟩
    have := hdone hne
    rw [hzip] at this ⊢
    simpa using (hrefused rowOf hchooses).mp (by simpa using this)
  · rintro ⟨rowOf, hchooses, rfl, hall⟩
    refine ⟨_, forall₂_chooses hchooses, by simp [zipWith_choose], fun _ => ?_⟩
    exact (hrefused rowOf hchooses).mpr hall

/-! ## Names -/

/-- The names of a conjunction are those of its terms. -/
theorem check_foldl {levels : Names.Levels} {f : Formula} {fs : List Formula}
    (h : ∀ g ∈ f :: fs, Names.checkInnerSources tables g = .ok () ∧
      Names.checkFormula tables levels g = .ok ()) :
    Names.checkInnerSources tables (fs.foldl .and f) = .ok () ∧
      Names.checkFormula tables levels (fs.foldl .and f) = .ok () := by
  induction fs generalizing f with
  | nil => exact h f List.mem_cons_self
  | cons g fs ih =>
    obtain ⟨hf, hf'⟩ := h f List.mem_cons_self
    obtain ⟨hg, hg'⟩ := h g (by simp)
    apply ih
    intro k hk
    rcases List.mem_cons.mp hk with rfl | hk
    · simp [Names.checkInnerSources, Names.checkFormula, hf, hf', hg, hg', bind, Except.bind]
    · exact h k (by simp [hk])

/-- A column that is mentioned is found once. -/
theorem checkColumn (h : s.Scoped tables) {c : SourceColumn} (hc : c ∈ s.columns) :
    Names.checkColumn [Names.levelOf tables s.sources] c.ref = .ok () := by
  obtain ⟨x, hx, hbinding, i, affinity, hcolumn, -⟩ := h.columns c hc
  have honly : ∀ y ∈ s.sources, ((y.entry tables).unchosen.column? c.ref).isSome = (y == x) := by
    intro y hy
    by_cases hyx : y = x
    · simp [hyx, hcolumn]
    · have hne : c.binding ≠ y.binding := by
        rw [← hbinding]
        exact fun e => hyx (List.inj_on_of_nodup_map h.nodup hy hx e.symm)
      have hnone : (y.entry tables).unchosen.column? c.ref = none := by
        simp [ScopeEntry.column?, SourceColumn.ref, OpenEntry.unchosen, Source.entry, hne]
      simp [hnone, hyx]
  have hcount : (Names.levelOf tables s.sources).countP (fun e => (e.column? c.ref).isSome) = 1 := by
    calc (Names.levelOf tables s.sources).countP (fun e => (e.column? c.ref).isSome)
        = s.sources.countP fun y => ((y.entry tables).unchosen.column? c.ref).isSome := by
          rw [Names.levelOf, List.countP_map]
          rfl
      _ = s.sources.count x := List.countP_congr fun y hy => by rw [honly y hy]
      _ = 1 := List.count_eq_one_of_mem (List.Nodup.of_map _ h.nodup) hx
  simp [Names.checkColumn, hcount]

theorem checkEquation (h : s.Scoped tables) {e : Equation} (he : e ∈ s.equations) :
    Names.checkFormula tables [Names.levelOf tables s.sources] e.formula = .ok () := by
  have hmentioned : ∀ c ∈ e.mentioned, c ∈ s.columns := fun c hc =>
    mem_columns.mpr (.inr ⟨e, he, hc⟩)
  cases e with
  | columns a b =>
    have ha := h.checkColumn (hmentioned a List.mem_cons_self)
    have hb := h.checkColumn (hmentioned b (by simp [Equation.mentioned]))
    simp [Equation.formula, Names.checkFormula, Names.checkOperand, ha, hb, bind, Except.bind]
  | literal a v =>
    have ha := h.checkColumn (hmentioned a List.mem_cons_self)
    simp [Equation.formula, Names.checkFormula, Names.checkOperand, ha, bind, Except.bind]

theorem checkQuery (h : s.Scoped tables) : Names.checkQuery tables s.query = .ok () := by
  have houtput : Names.checkColumn [Names.levelOf tables s.query.sources] s.output.ref = .ok () :=
    h.checkColumn (mem_columns.mpr (.inl rfl))
  have hsources : Names.checkSources tables s.query.sources = .ok () := by
    apply Fallible.forM_eq_ok.mpr
    intro x hx
    simp [h.known x hx]
  have horder : s.query.orderBy.forM (fun k =>
      Names.checkColumn [Names.levelOf tables s.query.sources] k.column) = .ok () := by
    apply Fallible.forM_eq_ok.mpr
    exact List.forall_mem_map.mpr fun _ _ => houtput
  have houtputs : s.query.outputs.forM (Names.checkOutput [Names.levelOf tables s.query.sources])
      = .ok () := by
    apply Fallible.forM_eq_ok.mpr
    simpa [query, Names.checkOutput] using houtput
  have hcondition : ∀ f ∈ s.query.condition, Names.checkInnerSources tables f = .ok () ∧
      Names.checkFormula tables [Names.levelOf tables s.query.sources] f = .ok () := by
    intro f hf
    simp only [query] at hf
    cases hes : s.equations with
    | nil => simp [hes, conjunction] at hf
    | cons e es =>
      simp only [hes, List.map_cons, conjunction, Option.mem_def, Option.some.injEq] at hf
      subst hf
      apply check_foldl
      rw [← List.map_cons, ← hes]
      exact List.forall_mem_map.mpr fun e he => ⟨e.checkInnerSources, h.checkEquation he⟩
  have hinner : s.query.condition.forM (Names.checkInnerSources tables) = .ok () := by
    cases hf : s.query.condition with
    | none => rfl
    | some f => exact (hcondition f hf).1
  have hformula : s.query.condition.forM
      (Names.checkFormula tables [Names.levelOf tables s.query.sources]) = .ok () := by
    cases hf : s.query.condition with
    | none => rfl
    | some f => exact (hcondition f hf).2
  simp only [Names.checkQuery, hsources, hinner, houtputs, hformula, horder, bind, Except.bind]
  rfl

end Scoped

/-! ## Running -/

/-- The value of the selected column. -/
def value (s : Selection) (t : Scope) : Value := Query.valueOf s.output.ref t

/-- A row of the answer: every source has one of its rows, and all equations hold between them. -/
def Delivers (s : Selection) (tables : Tables) (rowOf : String → List Value) (v : Value) : Prop :=
  Chooses rowOf (s.entries tables) ∧
    (∀ e ∈ s.equations, e.formula.truth tables (scopeOf rowOf (s.entries tables)) = some true) ∧
    v = s.value (scopeOf rowOf (s.entries tables))

/-- The statement of a selection delivers what the selection says, each value once. -/
theorem run_statement (hnamed : s.Named) (hscoped : s.Scoped tables)
    (hsame : ∀ {rowOf rowOf' v w}, s.Delivers tables rowOf v → s.Delivers tables rowOf' w →
      (v.compare w = .eq ↔ v = w)) :
    ∃ rows, run tables (s.clauses.statement none).sql (s.clauses.statement none).binds = .ok rows ∧
      rows.Nodup ∧ ∀ row, row ∈ rows ↔ ∃ rowOf v, s.Delivers tables rowOf v ∧ row = [v] := by
  obtain ⟨ls, htokens, hfill, hcount⟩ := hnamed.saysTokens.tokens
  have hread : Statement.read (fill (s.clauses.statement none).binds 0 ls) = .ok (.rows s.query) :=
    hnamed.reads _ hfill
  have hrun : run tables (s.clauses.statement none).sql (s.clauses.statement none).binds
      = .ok (s.query.answer tables) := by
    have hfits : s.query.limitFits = true := rfl
    simp [run, htokens, hread, hcount, hfits, Statement.query, hscoped.checkQuery, Except.mapError,
      Statement.answer, bind, Except.bind, pure, Except.pure]
  have hvalues : ∀ t, s.query.outputs.map (Query.outputValue [t]) = [s.value t] := fun t => rfl
  have hdelivers : ∀ t ∈ s.query.matching tables, ∃ rowOf, s.Delivers tables rowOf (s.value t) := by
    intro t ht
    obtain ⟨rowOf, hchooses, rfl, hall⟩ := (hscoped.mem_matching hnamed.sourced).mp ht
    exact ⟨rowOf, hchooses, hall, rfl⟩
  have hdistinct : Query.Distinguished
      ((s.query.matching tables).map fun t => s.query.keyed [t]) := by
    intro r hr r' hr'
    obtain ⟨t, ht, rfl⟩ := List.mem_map.mp hr
    obtain ⟨t', ht', rfl⟩ := List.mem_map.mp hr'
    obtain ⟨rowOf, h⟩ := hdelivers t ht
    obtain ⟨rowOf', h'⟩ := hdelivers t' ht'
    simpa [Query.keyed, hvalues, Query.sameValues] using hsame h h'
  obtain ⟨hnodup, hmem⟩ := plain_query.answer hdistinct
  refine ⟨_, hrun, hnodup, fun row => (hmem row).trans ?_⟩
  constructor
  · rintro ⟨t, ht, rfl⟩
    obtain ⟨rowOf, h⟩ := hdelivers t ht
    exact ⟨rowOf, _, h, hvalues t⟩
  · rintro ⟨rowOf, v, ⟨hchooses, hall, rfl⟩, rfl⟩
    exact ⟨_, (hscoped.mem_matching hnamed.sourced).mpr ⟨rowOf, hchooses, rfl, hall⟩, hvalues _⟩

end Selection

end CatalogQuery.Sql
