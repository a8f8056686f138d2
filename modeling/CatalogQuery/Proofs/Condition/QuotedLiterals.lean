import CatalogQuery.Proofs.Condition.OperatorTexts

/-!
# Literals between one pair of quotes

An operator with a literal that holds no quote is read as it stands, unless the literal begins with a
connective that an operator follows to its end. The quotes of such a literal pass for the end of one
literal and the begin of another, so that the text is split inside the literal and refused.

* `of_splitAtMark`, `splitCompound_deceptive`: where such a text is split;
* `readSimple_quoted`: what is read if it is not;
* `parse_quoted`, `parse_deceptive`: both outcomes for the whole text.
-/

namespace CatalogQuery.Condition

open Text

variable {t v a s : List Char} {o : Operator} {mark : Char} {rest : List Char}

/-- A literal in quotes behind the text of an operator. -/
def quoted (t v : List Char) : List Char := t ++ '\'' :: (v ++ ['\''])

/-- Blanks aside, the literal begins with a connective, and all behind it spells an operator. -/
def Deceptive (v : List Char) : Prop :=
  ∃ mark rest, (mark = '|' ∨ mark = '&') ∧ trimStart v = mark :: mark :: rest ∧ SpellsOperator rest

instance (v : List Char) : Decidable (Deceptive v) :=
  match h : trimStart v with
  | [] => isFalse fun ⟨_, _, _, hv, _⟩ => by cases h.symm.trans hv
  | [_] => isFalse fun ⟨_, _, _, hv, _⟩ => by cases h.symm.trans hv
  | mark :: second :: rest =>
    decidable_of_iff ((mark = '|' ∨ mark = '&') ∧ second = mark ∧ SpellsOperator rest) (by
      constructor
      · rintro ⟨hmark, rfl, hrest⟩
        exact ⟨_, rest, hmark, h, hrest⟩
      · rintro ⟨_, _, hmark, hv, hrest⟩
        cases h.symm.trans hv
        exact ⟨hmark, rfl, hrest⟩)

theorem mark_ne_quote (hmark : mark = '|' ∨ mark = '&') : mark ≠ '\'' := by
  rcases hmark with rfl | rfl <;> decide

theorem mark_not_blank (hmark : mark = '|' ∨ mark = '&') : isBlank mark = false := by
  rcases hmark with rfl | rfl <;> decide

/-! ## Splitting -/

/-- A doubled mark in a quoted literal is cut inside the literal. -/
theorem cut_of_quoted {before behind : List Char} (ht : mark ∉ t) (hquote : mark ≠ '\'')
    (h : quoted t v = before ++ mark :: mark :: behind) :
    ∃ a rest, v = a ++ mark :: mark :: rest ∧ before = t ++ '\'' :: a ∧ behind = rest ++ ['\''] := by
  unfold quoted at h
  rcases List.append_eq_append_iff.mp h with ⟨x, rfl, hx⟩ | ⟨x, rfl, hx⟩
  · cases x with
    | nil => exact absurd (List.cons.inj hx).1.symm hquote
    | cons c a =>
      obtain ⟨rfl, hrest⟩ : c = '\'' ∧ v ++ ['\''] = a ++ mark :: mark :: behind :=
        (List.cons.inj hx).imp Eq.symm id
      rcases List.append_eq_append_iff.mp hrest with ⟨y, rfl, hy⟩ | ⟨y, rfl, hy⟩
      · have hmem : mark ∈ ['\''] := by rw [hy]; simp
        exact absurd (List.mem_singleton.mp hmem) hquote
      · match y, hy with
        | [], hy => exact absurd (List.cons.inj hy).1 hquote
        | [_], hy =>
          obtain ⟨-, hy⟩ := List.cons.inj hy
          exact absurd (List.cons.inj hy).1 hquote
        | b :: c :: rest, hy =>
          obtain ⟨rfl, rfl, rfl⟩ : mark = b ∧ mark = c ∧ behind = rest ++ ['\''] := by simpa using hy
          exact ⟨a, rest, rfl, rfl, rfl⟩
  · cases x with
    | nil => exact absurd (List.cons.inj hx).1 hquote
    | cons c x =>
      obtain ⟨rfl, -⟩ := List.cons.inj hx
      exact absurd (by simp) ht

/-- A quoted literal is split at a mark only if that deceives. -/
theorem of_splitAtMark {p : List Char × List Char} (ht : mark ∉ t) (hmark : mark = '|' ∨ mark = '&')
    (hv : '\'' ∉ v) (h : splitAtMark mark (quoted t v) = some p) :
    ∃ rest, trimStart v = mark :: mark :: rest ∧ SpellsOperator rest := by
  have hcut := mem_doubledCuts (List.mem_of_find?_eq_some h)
  obtain ⟨a, rest, rfl, hbefore, hbehind⟩ := cut_of_quoted ht (mark_ne_quote hmark) hcut
  have hfound := List.find?_some h
  simp only [Bool.and_eq_true, beq_iff_eq] at hfound
  obtain ⟨hclosed, hoperator⟩ := hfound
  simp only [List.mem_append, List.mem_cons, not_or] at hv
  rw [hbefore, getLast?_trimEnd_append (by decide) hv.1] at hclosed
  rw [hbehind, startsWithOperator_append hv.2.2.2] at hoperator
  refine ⟨rest, ?_, hoperator⟩
  rw [trimStart_append (mark_not_blank hmark), trimStart_eq_nil.mpr hclosed, List.nil_append]

theorem splitCompound_quoted (ht : Operator.parse t = some o) (hv : '\'' ∉ v)
    (hplain : ¬Deceptive v) : splitCompound (quoted t v) = none := by
  have hnone : ∀ {mark : Char}, mark = '|' ∨ mark = '&' → splitAtMark mark (quoted t v) = none := by
    intro mark hmark
    refine Option.eq_none_iff_forall_ne_some.mpr fun p hp => hplain ?_
    obtain ⟨rest, hrest, hoperator⟩ :=
      of_splitAtMark (Operator.mark_notMem ht hmark) hmark hv hp
    exact ⟨mark, rest, hmark, hrest, hoperator⟩
  unfold splitCompound
  rw [hnone (.inl rfl), hnone (.inr rfl)]
  rfl

/-- A deceptive literal is split at its connective. -/
theorem splitCompound_deceptive {blanks : List Char} (ht : Operator.parse t = some o)
    (hv : '\'' ∉ v) (hmark : mark = '|' ∨ mark = '&') (hsplit : v = blanks ++ mark :: mark :: rest)
    (hblanks : ∀ c ∈ blanks, isBlank c = true) (hrest : SpellsOperator rest) :
    ∃ connective, splitCompound (quoted t v)
      = some (connective, t ++ '\'' :: blanks, rest ++ ['\'']) := by
  subst hsplit
  simp only [List.mem_append, List.mem_cons, not_or] at hv
  have hfree : mark ∉ t ++ '\'' :: blanks := by
    simp only [List.mem_append, List.mem_cons, not_or]
    refine ⟨Operator.mark_notMem ht hmark, mark_ne_quote hmark, fun hmem => ?_⟩
    cases (mark_not_blank hmark).symm.trans (hblanks mark hmem)
  have htext : quoted t (blanks ++ mark :: mark :: rest)
      = (t ++ '\'' :: blanks) ++ mark :: mark :: (rest ++ ['\'']) := by simp [quoted]
  have hat : splitAtMark mark (quoted t (blanks ++ mark :: mark :: rest))
      = some (t ++ '\'' :: blanks, rest ++ ['\'']) := by
    obtain ⟨later, hcuts⟩ := doubledCuts_append (q := mark) (b := rest ++ ['\'']) hfree
    have hclosed := (getLast?_trimEnd_append (s := t) (q := '\'') (by decide) hv.1).mpr hblanks
    rw [splitAtMark, htext, hcuts, List.find?_cons_of_pos]
    simp only [hclosed, beq_self_eq_true, Bool.true_and]
    exact (startsWithOperator_append hv.2.2.2).mpr hrest
  rcases hmark with rfl | rfl
  · exact ⟨.or, by rw [splitCompound, hat]⟩
  · -- The literal begins with `&`, so it does not deceive at a `|`.
    have hnone : splitAtMark '|' (quoted t (blanks ++ '&' :: '&' :: rest)) = none := by
      refine Option.eq_none_iff_forall_ne_some.mpr fun p hp => ?_
      obtain ⟨rest', hrest', -⟩ := of_splitAtMark (Operator.mark_notMem ht (.inl rfl)) (.inl rfl)
        (by simpa using hv) hp
      rw [trimStart_append (by decide), trimStart_eq_nil.mpr hblanks] at hrest'
      cases hrest'
    exact ⟨.and, by rw [splitCompound, hnone, hat]; rfl⟩

/-- Without connectives there is nothing to split. -/
theorem splitCompound_of_notMem (hor : '|' ∉ s) (hand : '&' ∉ s) : splitCompound s = none := by
  simp [splitCompound, splitAtMark, doubledCuts_eq_nil hor, doubledCuts_eq_nil hand]

/-- Where a quote is at the end only, no connective has one before it. -/
theorem splitCompound_closing (hs : '\'' ∉ s) : splitCompound (s ++ ['\'']) = none := by
  have hnone : ∀ {mark : Char}, mark ≠ '\'' → splitAtMark mark (s ++ ['\'']) = none := by
    intro mark hmark
    refine List.find?_eq_none.mpr fun p hp => ?_
    have hcut := mem_doubledCuts hp
    have hbefore : '\'' ∉ p.1 := by
      rcases List.append_eq_append_iff.mp hcut with ⟨x, hx, hend⟩ | ⟨x, rfl, hend⟩
      · have hmem : mark ∈ ['\''] := by rw [hend]; simp
        exact absurd (List.mem_singleton.mp hmem) hmark
      · exact fun h => hs (List.mem_append_left _ h)
    simp [getLast?_trimEnd_ne hbefore]
  unfold splitCompound
  rw [hnone (by decide), hnone (by decide)]
  rfl

/-! ## Reading -/

/-- The operator text and the literal are found at the quotes. -/
theorem readSimple_quoted (ht : Operator.parse t = some o) (hrange : o.takesRange = false) :
    readSimple (quoted t v) =
      if byteLength (trim t) > maxOperatorBytes then .error .operatorTooLong
      else .ok ⟨o, [String.ofList v], false⟩ := by
  have hquote : '\'' ∉ trimStart t := fun h =>
    Operator.quote_notMem ht (mem_of_trimStart h)
  have hend : cutLast '\'' (v ++ ['\'']) = some (v, []) := cutLast_append (by simp)
  have hstart : stripNumeric (trimStart (quoted t v))
      = (false, trimStart t ++ '\'' :: (v ++ ['\''])) := by
    rw [quoted, trimStart_append (by decide), stripNumeric_append, stripNumeric_of_parse ht]
  unfold readSimple
  simp only [hstart, cutFirst_append hquote, hend, trim_trimStart, Operator.parse_trim, ht, hrange,
    show (trim []).isEmpty = true from rfl]
  rfl

/-- Of a literal that is not closed only the quote before it is found. -/
theorem readSimple_open (ht : Operator.parse t = some o) (ha : '\'' ∉ a) :
    readSimple (t ++ '\'' :: a) = .error .unterminatedLiteral := by
  have hquote : '\'' ∉ trimStart t := fun h =>
    Operator.quote_notMem ht (mem_of_trimStart h)
  have hstart : stripNumeric (trimStart (t ++ '\'' :: a)) = (false, trimStart t ++ '\'' :: a) := by
    rw [trimStart_append (by decide), stripNumeric_append, stripNumeric_of_parse ht]
  unfold readSimple
  simp only [hstart, cutFirst_append hquote, cutLast_eq_none_iff.mpr ha]
  rfl

/-! ## Whole texts -/

theorem toList_quoted (text value : String) :
    (text ++ "'" ++ value ++ "'").toList = quoted text.toList value.toList := by
  simp [quoted]

/-- A literal that does not deceive is content, up to its last character. -/
theorem parse_quoted {text value : String} (ht : Operator.parse text.toList = some o)
    (hrange : o.takesRange = false) (hv : '\'' ∉ value.toList) (hplain : ¬Deceptive value.toList) :
    parse (text ++ "'" ++ value ++ "'") =
      if byteLength (trim text.toList) > maxOperatorBytes then
        .error (.conditionSyntax (text ++ "'" ++ value ++ "'") "operator text too long")
      else .ok (.simple ⟨o, [value], false⟩) := by
  unfold parse
  dsimp only
  rw [toList_quoted, splitCompound_quoted ht hv hplain]
  simp only [parseSimpleChars, readSimple_quoted ht hrange]
  split
  · simp [Except.mapError, faultIn, bind, Except.bind, ← toList_quoted, ConditionFault.reason,
      String.append_assoc]
  · simp [Except.mapError, bind, Except.bind, pure, Except.pure]

/-- A deceptive literal is refused: the text up to its connective has an open quote. -/
theorem parse_deceptive {text value : String} (ht : Operator.parse text.toList = some o)
    (hv : '\'' ∉ value.toList) (hdeceptive : Deceptive value.toList) :
    ∃ before, (∀ c ∈ before.toList, isBlank c = true) ∧
      parse (text ++ "'" ++ value ++ "'")
        = .error (.conditionSyntax (text ++ "'" ++ before) "unterminated literal") := by
  obtain ⟨mark, rest, hmark, hstart, hrest⟩ := hdeceptive
  obtain ⟨blanks, hsplit, hblanks⟩ := exists_blanks_trimStart value.toList
  rw [hstart] at hsplit
  obtain ⟨connective, hcompound⟩ := splitCompound_deceptive ht hv hmark hsplit hblanks hrest
  rw [hsplit] at hv
  simp only [List.mem_append, List.mem_cons, not_or] at hv
  have hfree : ∀ {mark : Char}, mark = '|' ∨ mark = '&' → mark ∉ text.toList ++ '\'' :: blanks := by
    intro mark hmark
    simp only [List.mem_append, List.mem_cons, not_or]
    refine ⟨Operator.mark_notMem ht hmark, mark_ne_quote hmark, fun hmem => ?_⟩
    cases (mark_not_blank hmark).symm.trans (hblanks mark hmem)
  have hleft := splitCompound_of_notMem (hfree (.inl rfl)) (hfree (.inr rfl))
  refine ⟨String.ofList blanks, by simpa using hblanks, ?_⟩
  unfold parse
  dsimp only
  rw [toList_quoted, hcompound]
  simp only [hleft, splitCompound_closing hv.2.2.2, parseSimpleChars, readSimple_open ht hv.1]
  simp [Except.mapError, faultIn, bind, Except.bind, ConditionFault.reason, String.ofList_append,
    String.append_assoc]

end CatalogQuery.Condition
