import CatalogQuery.Proofs.Sql.Enclosing
import CatalogQuery.Proofs.Sql.Selections

/-!
# Queries of comparisons

A query without repetition, groups and order, whose condition compares columns with columns and texts,
is read as it is written, whatever the case of its letters. It can be a statement of its own that
counts rows, or stand in parentheses behind IN.

* `IsTerm`: one comparison as it is written and as it is read;
* `Reader.sections_where`: the sections of such a query;
* `reads_count`: the statement that counts its rows;
* `reads_membership`: the condition that a column is among its rows.
-/

namespace CatalogQuery.Sql

/-! ## Comparisons -/

/-- The tokens are one term of a condition, which is read as the formula. -/
structure IsTerm (ts : List Token) (f : Formula) : Prop where
  inert : ∀ t ∈ ts, Inert t
  reads : ∀ condition, ReadsAs (Reader.term condition) ts f

theorem wholeOperand_quoted {v : String} :
    ReadsAs Reader.wholeOperand [.quoted v] (.text v) := by
  intro ls hls
  obtain ⟨⟨t, place⟩, ls, rfl, rfl, hrest⟩ := bare_eq_cons.mp hls
  obtain rfl := bare_eq_nil.mp hrest
  simp [Reader.wholeOperand, Reader.operand, Reader.done, bind, Except.bind]

namespace IsTerm

variable {x x' y y' : SourceColumn} {mark v : String} {o : Comparison}

theorem inert_comparison (hmark : Reader.comparison? (.mark mark) = some o) : Inert (.mark mark) := by
  have hne : ∀ s, Reader.comparison? (.mark s) = none → Token.mark mark ≠ .mark s := by
    intro s hs heq
    rw [heq, hs] at hmark
    cases hmark
  exact ⟨hne "(" rfl, hne ")" rfl, hne "," rfl, fun _ _ => rfl⟩

/-- A column is compared with what these tokens are read as. -/
theorem compared (hx : x.Written x') (hmark : Reader.comparison? (.mark mark) = some o)
    {ts : List Token} {a : Operand} (hinert : ∀ t ∈ ts, Inert t)
    (ha : ReadsAs Reader.wholeOperand ts a) :
    IsTerm (x.tokens ++ .mark mark :: ts) (.compare o (.column x'.ref) a) := by
  constructor
  case inert =>
    intro t ht
    rcases List.mem_append.mp ht with ht | ht
    · exact hx.inert t ht
    · rcases List.mem_cons.mp ht with rfl | ht
      · exact inert_comparison hmark
      · exact hinert t ht
  case reads => exact hx.term_reads hmark ha

theorem columns (hx : x.Written x') (hmark : Reader.comparison? (.mark mark) = some o)
    (hy : y.Written y') : IsTerm (x.tokens ++ .mark mark :: y.tokens)
      (.compare o (.column x'.ref) (.column y'.ref)) :=
  compared hx hmark hy.inert hy.wholeOperand

/-- A column is compared with a text that is bound. -/
theorem bound (hx : x.Written x') (hmark : Reader.comparison? (.mark mark) = some o) (v : String) :
    IsTerm (x.tokens ++ [.mark mark, .bound v]) (.compare o (.column x'.ref) (.text v)) := by
  have hinert : Inert (.bound v) := ⟨by simp, by simp, by simp, fun _ _ => rfl⟩
  exact compared hx hmark (by simpa using hinert) wholeOperand_bound

/-- A column is compared with a text in quotes. -/
theorem quoted (hx : x.Written x') (hmark : Reader.comparison? (.mark mark) = some o) (v : String) :
    IsTerm (x.tokens ++ [.mark mark, .quoted v]) (.compare o (.column x'.ref) (.text v)) := by
  have hinert : Inert (.quoted v) := ⟨by simp, by simp, by simp, fun _ _ => rfl⟩
  exact compared hx hmark (by simpa using hinert) wholeOperand_quoted

end IsTerm

theorem cutsAt_joins : CutsAt Reader.joinsTerms := by
  intro t ht
  simp only [Reader.joinsTerms, Bool.or_eq_true] at ht
  rcases ht with (ht | ht) | ht
  · exact .inr ⟨"or", by decide, ht⟩
  · exact .inr ⟨"and", by decide, ht⟩
  · exact .inr ⟨"between", by decide, ht⟩

/-! ## Sections -/

/-- The tokens of a query of some outputs of its sources under a condition. -/
def queryTokens (outputs sources condition : List Token) : List Token :=
  .word "select" :: (outputs ++ .word "from" :: (sources ++ .word "where" :: condition))

namespace Reader

variable {ls : List Lexeme} {p : Token → Bool} {ts outputs sources condition : List Token}

/-- A text is cut behind these tokens where the next one is to cut it, and nowhere before. -/
def Uncut (p : Token → Bool) (ts : List Token) : Prop :=
  ∀ {rest : List Token} {ls : List Lexeme}, (∀ t ∈ rest.head?, p t = true) → bare ls = ts ++ rest →
    ∃ before after, cutAt p 0 ls = (before, after) ∧ bare before = ts ∧ bare after = rest

theorem Uncut.of_flat (hts : Flat p ts) : Uncut p ts := fun hrest hls => cutAt_bare hts hrest hls

/-- What begins a list of outputs is no DISTINCT. -/
theorem expectWord_distinct (h : ∀ t ∈ (bare ls).head?, t.isWord "distinct" = false) :
    ∃ f, expectWord "distinct" ls = .error f := by
  cases ls with
  | nil => exact ⟨_, rfl⟩
  | cons l ls =>
    have hl : l.token.isWord "distinct" = false := h _ rfl
    exact ⟨faultAt (l :: ls), by simp [expectWord, expect, hl]⟩

theorem sections_where (hdistinct : ∀ t ∈ outputs.head?, t.isWord "distinct" = false)
    (hne : outputs ≠ []) (houtputs : Uncut (·.isWord "from") outputs)
    (hsources : Flat isHeading sources) (hcondition : Flat isHeading condition)
    (hls : bare ls = queryTokens outputs sources condition) :
    ∃ outs srcs cond, sections ls = .ok ⟨false, outs, srcs, some cond, none, none, none⟩ ∧
      bare outs = outputs ∧ bare srcs = sources ∧ bare cond = condition := by
  obtain ⟨select, ls, rfl, hselect, hls⟩ := bare_eq_cons.mp hls
  have hfirst : ∀ t ∈ (bare ls).head?, t.isWord "distinct" = false := by
    rw [hls]
    cases outputs with
    | nil => exact absurd rfl hne
    | cons t ts => exact hdistinct
  obtain ⟨f, hnone⟩ := expectWord_distinct hfirst
  obtain ⟨outs, ls', houts, houtsBare, hls⟩ := houtputs (by simp; decide) hls
  obtain ⟨from_, ls', rfl, hfrom, hls⟩ := bare_eq_cons.mp hls
  obtain ⟨srcs, ls', hsrcs, hsrcsBare, hls⟩ := cutAt_bare
    (hsources.stops ["where", "group", "order", "limit"] (by simp)) (by simp; decide) hls
  obtain ⟨where_, behind, rfl, hwhere, hls⟩ := bare_eq_cons.mp hls
  have hword : ∀ {w} {l : Lexeme} {r}, l.token = .word w → (Token.word w).isWord w = true →
      expectWord w (l :: r) = .ok r := fun hl hw => expectWord_cons (hl ▸ hw)
  obtain ⟨cond, ls', hcond, hcondBare, hls⟩ := cutAt_bare
    (hcondition.stops ["group", "order", "limit"] (by simp)) (by simp)
    (hls.trans (List.append_nil _).symm)
  obtain rfl := bare_eq_nil.mp hls
  have hsection : section? ["where"] ["group", "order", "limit"] (where_ :: behind)
      = .ok (some cond, []) := by
    have hl : where_.token.isWord "where" = true := by rw [hwhere]; decide
    simp only [section?, hl, if_true, List.foldlM_nil, bind, Except.bind, pure, Except.pure, hcond]
  refine ⟨outs, srcs, cond, ?_, houtsBare, hsrcsBare, hcondBare⟩
  have hrest : ∀ words next, section? words next [] = .ok (none, []) := by
    intro words next
    cases words <;> rfl
  rw [sections, hword hselect (by decide)]
  simp only [bind, Except.bind, hnone, houts, hword hfrom (by decide), hsrcs, hsection, hrest, done,
    List.isEmpty_nil, if_true]

/-! ## Parentheses -/

section Parentheses

variable {inside before : List Lexeme} {opening : Lexeme}

/-- No term ends in parentheses. -/
theorem terms_inside (hinside : Flat p (bare inside)) (l : Lexeme) :
    terms 1 false (inside ++ [l]) = [inside ++ [l]] := by
  induction inside with
  | nil => simp [terms, glue]
  | cons k inside ih =>
    obtain ⟨hopen, hclose, -⟩ := hinside k.token (by simp)
    have htail := ih fun t ht => hinside t (List.mem_cons_of_mem _ ht)
    simp [terms, depthBehind_of_flat hopen hclose, htail, glue]

/-- What ends in parentheses and joins no terms before them is one term. -/
theorem terms_enclosed (hbefore : Flat cutsTerms (bare before))
    (hopening : opening.token = .mark "(") (hinside : Flat p (bare inside)) (l : Lexeme) :
    terms 0 false (before ++ opening :: (inside ++ [l]))
      = [before ++ opening :: (inside ++ [l])] := by
  induction before with
  | nil =>
    have hdepth : depthBehind 0 opening.token = 1 := by rw [hopening]; rfl
    have hand : opening.token.isWord "and" = false := by rw [hopening]; rfl
    have hbetween : opening.token.isWord "between" = false := by rw [hopening]; rfl
    simp only [List.nil_append, terms, hand, hbetween, Bool.false_eq_true, and_false, if_false,
      hdepth, terms_inside hinside, glue]
  | cons k before ih =>
    obtain ⟨hopen, hclose, hp⟩ := hbefore k.token (by simp)
    obtain ⟨hand, hbetween⟩ := Bool.or_eq_false_iff.mp hp
    have htail := ih fun t ht => hbefore t (List.mem_cons_of_mem _ ht)
    simp [terms, hand, hbetween, depthBehind_of_flat hopen hclose, htail, glue]

theorem closing_flat (hinside : Flat p (bare inside)) {l : Lexeme} (hl : l.token = .mark ")") :
    closing 0 (inside ++ [l]) = some (inside, []) := by
  induction inside with
  | nil => simp [closing, hl]
  | cons k inside ih =>
    obtain ⟨hopen, hclose, -⟩ := hinside k.token (by simp)
    have htail := ih fun t ht => hinside t (List.mem_cons_of_mem _ ht)
    simp [closing, hclose, depthBehind_of_flat hopen hclose, htail]

end Parentheses

end Reader

/-! ## Whole queries -/

section Queries

open Reader

variable {ss ss' : List Source} {tss : List (List Token)} {f : Formula} {fs : List Formula}

/-- The tokens of a list of sources. -/
def sourceTokens (ss : List Source) : List Token := [.mark ","].intercalate (ss.map (·.tokens))

/-- The tokens of a condition by those of its terms. -/
def conditionTokens (tss : List (List Token)) : List Token := [.word "and"].intercalate tss

theorem reads_sources (hss : List.Forall₂ Source.Written ss ss') (hne : ss ≠ []) :
    ReadsAs (commaSeparated source) (sourceTokens ss) ss' := by
  apply commaSeparated_reads (by simpa using hne)
  · exact List.forall_mem_map.mpr fun x hx => by
      obtain ⟨x', -, hwritten⟩ := exists_right_of_forall₂ hss hx
      exact flat_of_inert cutsAt_comma hwritten.inert
  · exact List.forall₂_map_left_iff.mpr (hss.imp fun _ _ h => h.source)

theorem flat_sources (hss : List.Forall₂ Source.Written ss ss') :
    Flat isHeading (sourceTokens ss) := by
  apply Flat.intercalate
  · exact .singleton (by decide) (by decide) (by decide)
  · exact List.forall_mem_map.mpr fun x hx => by
      obtain ⟨x', -, hwritten⟩ := exists_right_of_forall₂ hss hx
      exact flat_of_inert (cutsAt_words (by decide)) hwritten.inert

theorem inert_terms (hterms : List.Forall₂ IsTerm tss fs) : ∀ ts ∈ tss, ∀ t ∈ ts, Inert t := by
  intro ts hts
  obtain ⟨f, -, hterm⟩ := exists_right_of_forall₂ hterms hts
  exact hterm.inert

theorem flat_condition (hterms : List.Forall₂ IsTerm tss fs) :
    Flat isHeading (conditionTokens tss) := by
  apply Flat.intercalate
  · exact .singleton (by decide) (by decide) (by decide)
  · exact fun ts hts => flat_of_inert (cutsAt_words (by decide)) (inert_terms hterms ts hts)

theorem reads_condition (hterms : List.Forall₂ IsTerm tss (f :: fs)) (fuel : Nat) :
    ReadsAs (condition (fuel + 1)) (conditionTokens tss) (fs.foldl .and f) := by
  have hlisted : listed? [.word "and"] tss = some (conditionTokens tss) := by
    cases hterms
    rfl
  obtain ⟨g, hg, hreads⟩ := Selection.condition_reads (w := "and") (by decide)
    (inert_terms hterms) (fun condition => hterms.imp fun _ _ h => h.reads condition) hlisted
  cases hg
  exact hreads fuel

/-- The tokens of the number of rows. -/
def countTokens : List Token := [.word "count", .mark "(", .mark "*", .mark ")"]

theorem uncut_count : Uncut (·.isWord "from") countTokens := by
  intro rest ls hrest hls
  obtain ⟨l₁, ls, rfl, h₁, hls⟩ := bare_eq_cons.mp hls
  obtain ⟨l₂, ls, rfl, h₂, hls⟩ := bare_eq_cons.mp hls
  obtain ⟨l₃, ls, rfl, h₃, hls⟩ := bare_eq_cons.mp hls
  obtain ⟨l₄, ls, rfl, h₄, hls⟩ := bare_eq_cons.mp hls
  obtain ⟨before, after, hcut, hbefore, hafter⟩ := Uncut.of_flat .nil hrest hls
  refine ⟨l₁ :: l₂ :: l₃ :: l₄ :: before, after, ?_, ?_, hafter⟩
  · have hword : (Token.word "count").isWord "from" = false := by decide
    have hmark : (Token.mark "(").isWord "from" = false := rfl
    simp [cutAt, h₁, h₂, h₃, h₄, hword, hmark, depthBehind, hcut]
  · simp [h₁, h₂, h₃, h₄, hbefore, countTokens]

theorem reads_countRows : ReadsAs (commaSeparated output) countTokens [.countRows] := by
  intro ls hls
  obtain ⟨⟨_, _⟩, ls, rfl, rfl, h₁⟩ := bare_eq_cons.mp hls
  obtain ⟨⟨_, _⟩, ls, rfl, rfl, h₂⟩ := bare_eq_cons.mp h₁
  obtain ⟨⟨_, _⟩, ls, rfl, rfl, h₃⟩ := bare_eq_cons.mp h₂
  obtain ⟨⟨_, _⟩, ls, rfl, rfl, h₄⟩ := bare_eq_cons.mp h₃
  obtain rfl := bare_eq_nil.mp h₄
  rfl

/-- The statement that counts the choices of rows. -/
theorem reads_count (hss : List.Forall₂ Source.Written ss ss') (hne : ss ≠ [])
    (hterms : List.Forall₂ IsTerm tss (f :: fs)) :
    ReadsAs Statement.read (queryTokens countTokens (sourceTokens ss) (conditionTokens tss))
      (.rows ⟨false, [.countRows], ss', some (fs.foldl .and f), [], [], none⟩) := by
  intro ls hls
  obtain ⟨outs, srcs, cond, hsections, houts, hsrcs, hcond⟩ := sections_where
    (by simp [countTokens]; decide) (by simp [countTokens]) uncut_count (flat_sources hss)
    (flat_condition hterms) hls
  have houtput := reads_countRows outs houts
  have hsource := reads_sources hss hne srcs hsrcs
  have hcondition := reads_condition hterms cond.length cond hcond
  have hquery : query ⟨false, outs, srcs, some cond, none, none, none⟩
      = .ok ⟨false, [.countRows], ss', some (fs.foldl .and f), [], [], none⟩ := by
    simp [query, houtput, hsource, Reader.optional, wholeCondition, hcondition, bind, Except.bind,
      pure, Except.pure, Except.map]
  simp only [Statement.read, statement, hsections, bind, Except.bind]
  split
  case h_1 place r =>
    -- No query stands in the place of a source.
    exact absurd rfl (flat_sources hss (.mark "(") (by rw [← hsrcs]; simp)).1
  case h_2 => simp [hquery, pure, Except.pure]

/-- What stands in parentheses behind IN is read as a query of one column. -/
theorem membership_reads {w column : String} (hw : ReadsName w column)
    (hss : List.Forall₂ Source.Written ss ss') (hne : ss ≠ [])
    (hterms : List.Forall₂ IsTerm tss (f :: fs)) (fuel : Nat) (a : Operand) :
    ReadsAs (Reader.membership (condition (fuel + 1)) false a)
      (queryTokens [.word w] (sourceTokens ss) (conditionTokens tss))
      (.inRows false a ⟨none, column⟩ ss' (fs.foldl .and f)) := by
  intro ls hls
  have hname : Inert (.word w) := hw.inert
  have hfrom : Flat isHeading [.word w] :=
    flat_of_inert (cutsAt_words (by decide)) (by simpa using hname)
  obtain ⟨outs, srcs, cond, hsections, houts, hsrcs, hcond⟩ := sections_where
    (by simpa using hname.word "distinct" (by decide)) (by simp)
    (Uncut.of_flat (by simpa using hfrom.stops ["from"] (by simp))) (flat_sources hss)
    (flat_condition hterms) hls
  have hcolumn : wholeColumn outs = .ok ⟨none, column⟩ := by
    obtain ⟨l, rest, rfl, hl, hrest⟩ := bare_eq_cons.mp houts
    obtain rfl := bare_eq_nil.mp hrest
    simp [wholeColumn, Reader.column, hw.name_cons hl, done, bind, Except.bind, pure, Except.pure]
  obtain ⟨select, behind, rfl, hselect, -⟩ := bare_eq_cons.mp hls
  have hselect : expectWord "select" (select :: behind) = .ok behind :=
    expectWord_cons (by rw [hselect]; decide)
  simp [Reader.membership, hselect, hsections, hcolumn, reads_sources hss hne srcs hsrcs,
    reads_condition hterms fuel cond hcond, bind, Except.bind, pure, Except.pure]

/-- The tokens of the condition that a column is among the rows of a query. -/
def membershipTokens (x : SourceColumn) (w : String) (ss : List Source) (tss : List (List Token)) :
    List Token :=
  x.tokens ++ [.word "in"] ++ .mark "(" ::
    (queryTokens [.word w] (sourceTokens ss) (conditionTokens tss) ++ [.mark ")"])

/-- A query of comparisons has no parentheses. -/
theorem flat_query {w : String} (hss : List.Forall₂ Source.Written ss ss')
    (hterms : List.Forall₂ IsTerm tss fs) :
    Flat (fun _ => false) (queryTokens [.word w] (sourceTokens ss) (conditionTokens tss)) := by
  have hword : ∀ v, Flat (fun _ => false) [Token.word v] := fun v =>
    .singleton (by simp) (by simp) rfl
  have hpart : ∀ {ts}, Flat isHeading ts → Flat (fun _ => false) ts := fun h => h.mono (by simp)
  exact (hword "select").append ((hword w).append ((hword "from").append
    ((hpart (flat_sources hss)).append ((hword "where").append (hpart (flat_condition hterms))))))

theorem term_membership {x x' : SourceColumn} (hx : x.Written x') {w column : String}
    (hw : ReadsName w column) (hss : List.Forall₂ Source.Written ss ss') (hne : ss ≠ [])
    (hterms : List.Forall₂ IsTerm tss (f :: fs)) (fuel : Nat) :
    ReadsAs (term (condition (fuel + 1))) (membershipTokens x w ss tss)
      (.inRows false (.column x'.ref) ⟨none, column⟩ ss' (fs.foldl .and f)) := by
  intro ls hls
  rw [membershipTokens, List.append_assoc] at hls
  obtain ⟨l, ls', rfl, hl, -⟩ := bare_eq_cons.mp hls
  obtain ⟨after, hoperand, hafter⟩ := hx.operand_bare ls'.length hls
  obtain ⟨in_, rest, rfl, hin, hrest⟩ := bare_eq_cons.mp hafter
  obtain ⟨opening, rest, rfl, hopening, hrest⟩ := bare_eq_cons.mp hrest
  obtain ⟨inside, rest, rfl, hinside, hrest⟩ := bare_eq_append.mp hrest
  obtain ⟨k, rest, rfl, hk, hrest⟩ := bare_eq_cons.mp hrest
  obtain rfl := bare_eq_nil.mp hrest
  have hword : l.token ≠ .mark "(" := by simp [hl]
  have hclosing := closing_flat (hinside ▸ flat_query (w := w) hss hterms) hk
  have hquery := membership_reads hw hss hne hterms fuel (.column x'.ref) inside hinside
  have hnot : (Token.word "in").isWord "not" = false ∧ (Token.word "in").isWord "like" = false ∧
      (Token.word "in").isWord "between" = false ∧ (Token.word "in").isWord "in" = true := by
    decide
  simp [term, enclosed?, hword, hoperand, Reader.predicate, hin, comparison?, hnot, hopening,
    hclosing, hquery, bind, Except.bind]

/-- The condition that a column is among the rows of a query. -/
theorem reads_membership {x x' : SourceColumn} (hx : x.Written x') {w column : String}
    (hw : ReadsName w column) (hss : List.Forall₂ Source.Written ss ss') (hne : ss ≠ [])
    (hterms : List.Forall₂ IsTerm tss (f :: fs)) :
    ReadsAs wholeCondition (membershipTokens x w ss tss)
      (.inRows false (.column x'.ref) ⟨none, column⟩ ss' (fs.foldl .and f)) := by
  intro ls hls
  have hflat := flat_query (w := w) hss hterms
  have hbefore : ∀ {p}, CutsAt p → p (.word "in") = false → Flat p (x.tokens ++ [.word "in"]) :=
    fun hp hin => (flat_of_inert hp hx.inert).append (.singleton (by simp) (by simp) hin)
  have hneutral : Neutral (bare ls) := by
    rw [hls]
    exact (Neutral.of_flat (hbefore cutsAt_joins (by decide))).append (Level.of_flat hflat).enclosed
  have hcloses : (closesAt 0 false (bare ls)).isSome = true := by
    rw [hneutral]
    rfl
  have hpieces : pieces (·.isWord "or") 0 ls = [ls] := pieces_closed hcloses
  have hwhole : terms 0 false ls = [ls] := by
    obtain ⟨before, rest, rfl, hbeforeBare, hrest⟩ := bare_eq_append.mp hls
    obtain ⟨opening, rest, rfl, hopening, hrest⟩ := bare_eq_cons.mp hrest
    obtain ⟨inside, rest, rfl, hinside, hrest⟩ := bare_eq_append.mp hrest
    obtain ⟨l, rest, rfl, -, hrest⟩ := bare_eq_cons.mp hrest
    obtain rfl := bare_eq_nil.mp hrest
    exact terms_enclosed (hbeforeBare ▸ hbefore cutsAt_terms (by decide)) hopening
      (hinside ▸ hflat) l
  obtain ⟨fuel, hfuel⟩ : ∃ fuel, ls.length = fuel + 1 := by
    obtain ⟨l, ls', rfl, -, -⟩ := bare_eq_cons.mp hls
    exact ⟨ls'.length, rfl⟩
  have hterm := term_membership hx hw hss hne hterms fuel ls hls
  rw [wholeCondition, hfuel, condition]
  simp only [hpieces, hwhole, List.mapM_cons, List.mapM_nil, hterm, joined, List.foldl_nil, bind,
    Except.bind, pure, Except.pure]

end Queries

end CatalogQuery.Sql
