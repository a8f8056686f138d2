import CatalogQuery.Proofs.Condition.SimpleGrammar

/-!
# Conditions as they are written

A condition is written as an operator in letters of any case with its literals in quotes, and two of
them with a connective in between. What was written is read back, whatever quotes the literals hold,
as long as no connective is inside of one. Three or more conditions in a row are refused.

* `SimpleCondition.Writes.spelled`: what is written follows the grammar of simple conditions;
* `Parts.Spell.joinable`: such a text may stand beside a connective;
* `splitCompound_joined`: where conditions in a row are split;
* `written_read_back`: what is read.
-/

namespace CatalogQuery

open Text

/-! ## Writing -/

/-- The text is the operator, in letters of any case, with one blank between its words. -/
def Operator.WrittenAs (o : Operator) (s : List Char) : Prop :=
  ∃ spelling ∈ o.spellings, s.map Char.toLower = (" ".intercalate spelling).toList

/-- The character that, doubled, is the connective. -/
def Connective.mark : Connective → Char
  | .or => '|'
  | .and => '&'

namespace SimpleCondition

/-- The literals in quotes; two of them have a gap in between, and no quote is in the first. -/
inductive Quotes (o : Operator) : List String → List Char → Prop where
  | one {literal : String} : o.takesRange = false →
    Quotes o [literal] ('\'' :: (literal.toList ++ ['\'']))
  | two {low high : String} {gap : List Char} : o.takesRange = true → '\'' ∉ low.toList →
    Condition.IsGap gap →
    Quotes o [low, high]
      ('\'' :: (low.toList ++ '\'' :: (gap ++ '\'' :: (high.toList ++ ['\'']))))

/-- The operators that may be marked as numeric, as they are written. -/
def markable : List (List Char) := [['='], ['<', '>'], ['<'], ['<', '='], ['>'], ['>', '=']]

/-- The text writes the condition: an `n` if it is numeric, the operator, the literals, and blanks. -/
inductive Writes (c : SimpleCondition) : List Char → Prop where
  | intro {leading operator gap literals trailing : List Char} :
    (∀ d ∈ leading, isBlank d = true) → c.operator.WrittenAs operator →
    (c.numeric = true → operator ∈ markable) → (∀ d ∈ gap, isBlank d = true) →
    Quotes c.operator c.literals literals → (∀ d ∈ trailing, isBlank d = true) →
    Writes c (leading ++ (if c.numeric then ['n'] else []) ++ operator ++ gap ++ literals ++ trailing)

/-- No literal holds a connective. -/
def Unjoined (c : SimpleCondition) : Prop :=
  ∀ literal ∈ c.literals, ∀ connective : Connective,
    ¬[connective.mark, connective.mark] <:+: literal.toList

end SimpleCondition

namespace Operator

variable {o : Operator} {s gap : List Char}

theorem WrittenAs.spelledBy (h : o.WrittenAs s) : o.SpelledBy s := by
  obtain ⟨spelling, hspelling, hlower⟩ := h
  have hall : ∀ o ∈ all, ∀ spelling ∈ o.spellings,
      (words (" ".intercalate spelling).toList).map String.ofList = spelling := by decide +kernel
  have hwords := hall o (mem_all o) spelling hspelling
  rw [← hlower, words_map_toLower, List.map_map] at hwords
  unfold SpelledBy
  rw [← hwords] at hspelling
  exact hspelling

theorem WrittenAs.byteLength_le (h : o.WrittenAs s) : Condition.byteLength s ≤ 11 := by
  obtain ⟨spelling, hspelling, hlower⟩ := h
  have hall : ∀ o ∈ all, ∀ spelling ∈ o.spellings,
      Condition.byteLength (" ".intercalate spelling).toList ≤ 11 := by decide +kernel
  have hshort := hall o (mem_all o) spelling hspelling
  rw [← hlower] at hshort
  have hsame : Condition.byteLength (s.map Char.toLower) = Condition.byteLength s := by
    unfold Condition.byteLength
    rw [List.foldr_map]
    simp only [utf8Size_toLower]
  rwa [hsame] at hshort

end Operator

namespace Connective

theorem mark_cases (connective : Connective) : connective.mark = '|' ∨ connective.mark = '&' := by
  cases connective
  · exact .inl rfl
  · exact .inr rfl

theorem mark_inj {connective other : Connective} :
    connective.mark = other.mark ↔ connective = other := by
  cases connective <;> cases other <;> decide

theorem mark_ne_quote (connective : Connective) : connective.mark ≠ '\'' := by
  cases connective <;> decide

theorem mark_not_blank (connective : Connective) : isBlank connective.mark = false := by
  cases connective <;> decide

end Connective

namespace Condition

variable {s t content : List Char} {c : SimpleCondition} {o : Operator}

theorem byteLength_append (s t : List Char) : byteLength (s ++ t) = byteLength s + byteLength t := by
  rw [byteLength_eq, byteLength_eq, byteLength_eq, String.ofList_append, String.utf8ByteSize_append]

/-- Trimming takes characters away only. -/
theorem byteLength_trim_le (s : List Char) : byteLength (trim s) ≤ byteLength s := by
  obtain ⟨before, hs, -⟩ := exists_blanks_trimStart s
  obtain ⟨behind, ht, -⟩ := exists_trimEnd_blanks (trimStart s)
  calc byteLength (trim s)
      ≤ byteLength before + (byteLength (trim s) + byteLength behind) := by omega
    _ = byteLength (before ++ (trim s ++ behind)) := by rw [byteLength_append, byteLength_append]
    _ = byteLength s := by rw [trim, ← ht, ← hs]

theorem splitsRange_quoted {low high gap : List Char} (hlow : '\'' ∉ low) (hgap : IsGap gap) :
    SplitsRange (low ++ '\'' :: (gap ++ '\'' :: high)) low high where
  here := ⟨_, rfl, gap, hgap, rfl⟩
  first := by
    intro before rest high' hsplit _
    rcases List.append_eq_append_iff.mp hsplit with ⟨x, rfl, -⟩ | ⟨x, rfl, hx⟩
    · simp
    · cases x with
      | nil => simp
      | cons d x =>
        obtain ⟨rfl, -⟩ := List.cons.inj hx
        exact absurd (by simp) hlow

theorem mark_notMem_blanks {blanks : List Char} (h : ∀ c ∈ blanks, isBlank c = true)
    (connective : Connective) : connective.mark ∉ blanks := fun hmem => by
  cases connective.mark_not_blank.symm.trans (h _ hmem)

theorem IsGap.mark_notMem {gap : List Char} (h : IsGap gap) (connective : Connective) :
    connective.mark ∉ gap := by
  cases h with
  | blank hblanks => exact mark_notMem_blanks hblanks connective
  | word hbefore hword hbehind =>
    intro hmem
    rcases List.mem_append.mp hmem with hmem | hmem
    · rcases List.mem_append.mp hmem with hmem | hmem
      · exact mark_notMem_blanks hbefore connective hmem
      · have hlower := List.mem_map_of_mem (f := Char.toLower) hmem
        rw [hword] at hlower
        cases connective <;> revert hlower <;> decide
    · exact mark_notMem_blanks hbehind connective hmem

end Condition

namespace SimpleCondition

open Condition

variable {c : SimpleCondition} {s : List Char} {o : Operator}

/-- Literals in quotes are a content in quotes. -/
theorem Quotes.content {literals : List String} (h : Quotes o literals s) :
    ∃ content, s = '\'' :: (content ++ ['\'']) ∧ ContentOf o content literals ∧
      ∀ connective : Connective,
        (∀ literal ∈ literals, Undoubled connective.mark literal.toList) →
        Undoubled connective.mark content := by
  unfold ContentOf
  cases h with
  | @one literal hrange =>
    refine ⟨literal.toList, rfl, by simp [hrange], fun connective hliterals => ?_⟩
    exact hliterals literal List.mem_cons_self
  | @two low high gap hrange hlow hgap =>
    refine ⟨low.toList ++ '\'' :: (gap ++ '\'' :: high.toList), by simp, ?_, ?_⟩
    · rw [if_pos hrange]
      exact ⟨_, _, splitsRange_quoted hlow hgap, by simp⟩
    · intro connective hliterals
      have hquote := connective.mark_ne_quote.symm
      refine (hliterals low (by simp)).append_cons ?_ hquote
      exact (undoubled_of_notMem (hgap.mark_notMem connective)).append_cons
        (hliterals high (by simp)) hquote

/-- What is written follows the grammar. -/
theorem Writes.spelled (h : c.Writes s) (hplain : c.Unjoined) :
    ∃ p : Parts, p.text = s ∧ p.Spell c ∧
      ∀ connective : Connective, Undoubled connective.mark p.content := by
  obtain @⟨leading, operator, gap, literals, trailing, hleading, hoperator, hnumeric, hgap, hliterals,
    htrailing⟩ := h
  obtain ⟨content, rfl, hcontent, hundoubled⟩ := hliterals.content
  have hspelled : c.operator.SpelledBy (operator ++ gap) := by
    have hwords := hoperator.spelledBy
    unfold Operator.SpelledBy at hwords ⊢
    rwa [words_append_blanks hgap]
  refine ⟨⟨leading, c.numeric, operator ++ gap, content, trailing⟩, by simp [Parts.text, Parts.before],
    ⟨hleading, rfl, fun hmarked => ?_, ?_, ?_, hspelled, hcontent, htrailing⟩, fun connective => ?_⟩
  · have hall : ∀ operator ∈ markable,
        operator.head?.any (fun d => d == '<' || d == '>' || d == '=') = true := by decide
    have hhead := hall operator (hnumeric hmarked)
    cases operator with
    | nil => cases hhead
    | cons d r => exact hhead
  · exact Operator.quote_notMem (Operator.parse_eq_some_iff.mpr hspelled)
  · rw [trim_append_blanks hgap, ← byteLength_eq]
    exact Nat.le_trans (byteLength_trim_le operator) hoperator.byteLength_le
  · exact hundoubled connective fun literal hliteral =>
      undoubled_iff.mpr (hplain literal hliteral connective)

end SimpleCondition

namespace Condition

variable {s t : List Char} {c d : SimpleCondition} {p : Parts}

/-! ## Beside a connective -/

/-- A connective between two texts doubles the mark of no other one. -/
theorem undoubled_append {connective other : Connective} (hne : connective ≠ other)
    (hs : Undoubled other.mark s) (ht : Undoubled other.mark t) :
    Undoubled other.mark (s ++ connective.mark :: connective.mark :: t) :=
  have hmark := mt Connective.mark_inj.mp hne
  hs.append_cons (Undoubled.append_cons .nil ht hmark) hmark

/-- The text begins with an operator, which stands before its first quote, and ends with a quote, but
for blanks. -/
structure Joinable (s : List Char) : Prop where
  opens : ∃ head rest, s = head ++ '\'' :: rest ∧ '\'' ∉ head ∧ SpellsOperator head
  closes : ∃ body blanks, s = body ++ '\'' :: blanks ∧ ∀ d ∈ blanks, isBlank d = true

theorem SpellsOperator.mark_notMem (h : SpellsOperator s) (connective : Connective) :
    connective.mark ∉ s := by
  obtain ⟨o, ho⟩ := Option.isSome_iff_exists.mp h
  obtain ⟨blanks, hs, hblanks⟩ := exists_blanks_trimStart s
  obtain ⟨hbody, -⟩ := stripNumeric_inv (Prod.eta (stripNumeric (trimStart s))).symm
  rw [hs, hbody]
  intro hmem
  rcases List.mem_append.mp hmem with hmem | hmem
  · exact mark_notMem_blanks hblanks connective hmem
  · rcases List.mem_append.mp hmem with hmem | hmem
    · split at hmem
      · cases connective <;> cases List.mem_singleton.mp hmem
      · cases hmem
    · exact Operator.mark_notMem ho connective.mark_cases hmem

namespace Joinable

/-- No connective ends at the end. -/
theorem getLast_ne (h : Joinable s) (connective : Connective) :
    s.getLast? ≠ some connective.mark := by
  obtain ⟨body, blanks, rfl, hblanks⟩ := h.closes
  rw [List.getLast?_append, List.getLast?_cons]
  intro hlast
  cases hblank : blanks.getLast? with
  | none =>
    rw [hblank] at hlast
    exact connective.mark_ne_quote.symm (Option.some.inj hlast)
  | some d =>
    rw [hblank] at hlast
    have hmark : d = connective.mark := Option.some.inj hlast
    exact mark_notMem_blanks hblanks connective (hmark ▸ List.mem_of_getLast? hblank)

theorem append (hs : Joinable s) (ht : Joinable t) (connective : Connective) :
    Joinable (s ++ connective.mark :: connective.mark :: t) where
  opens := by
    obtain ⟨head, rest, rfl, hhead, hoperator⟩ := hs.opens
    exact ⟨head, rest ++ connective.mark :: connective.mark :: t, by simp, hhead, hoperator⟩
  closes := by
    obtain ⟨body, blanks, rfl, hblanks⟩ := ht.closes
    exact ⟨s ++ connective.mark :: connective.mark :: body, blanks, by simp, hblanks⟩

/-- The text is split at the first connective, if there is one of its kind in front of it. -/
theorem splitAtMark (hs : Joinable s) (ht : Joinable t) (connective : Connective)
    (hsingle : Undoubled connective.mark s) :
    Condition.splitAtMark connective.mark (s ++ connective.mark :: connective.mark :: t)
      = some (s, t) := by
  obtain ⟨later, hcuts⟩ := hsingle.doubledCuts_append (b := t) (hs.getLast_ne connective)
  obtain ⟨body, blanks, hbody, hblanks⟩ := hs.closes
  obtain ⟨head, rest, hhead, hquote, hoperator⟩ := ht.opens
  have hclosed : (trimEnd s).getLast? = some '\'' := by
    rw [hbody]
    exact (getLast?_trimEnd_append (by decide) (quote_notMem_of_blank hblanks)).mpr hblanks
  have hopen : startsWithOperator t = true := by
    rw [hhead]
    exact (startsWithOperator_append hquote).mpr hoperator
  unfold Condition.splitAtMark
  rw [hcuts, List.find?_cons_of_pos (by simp [hclosed, hopen])]

end Joinable

theorem splitAtMark_eq_none {mark : Char} (hs : Undoubled mark s) : splitAtMark mark s = none := by
  unfold splitAtMark
  rw [hs.doubledCuts_eq_nil]
  rfl

theorem Parts.Spell.spellsOperator (h : p.Spell c) : SpellsOperator p.before := by
  have hquotes := h.reads.quotes
  rw [text, trimStart_append (by decide), stripNumeric_append] at hquotes
  have hread : (stripNumeric (trimStart p.before)).2 = p.operatorRead :=
    List.append_cancel_right (Prod.mk.inj hquotes).2
  unfold SpellsOperator
  rw [hread, Operator.parse_eq_some_iff.mpr h.spelledBy_read]
  rfl

/-- A text of the grammar may stand beside a connective. -/
theorem Parts.Spell.joinable (h : p.Spell c) : Joinable p.text where
  opens := ⟨p.before, _, rfl, h.quote_notMem_before, h.spellsOperator⟩
  closes := ⟨p.before ++ '\'' :: p.content, p.trailing, by simp [Parts.text], h.trailing⟩

theorem Parts.Spell.undoubled (h : p.Spell c) (connective : Connective)
    (hcontent : Undoubled connective.mark p.content) : Undoubled connective.mark p.text := by
  have hbefore := undoubled_of_notMem (h.spellsOperator.mark_notMem connective)
  have htrailing := undoubled_of_notMem (mark_notMem_blanks h.trailing connective)
  have hmark := connective.mark_ne_quote.symm
  exact hbefore.append_cons (hcontent.append_cons htrailing hmark) hmark

/-! ## Conditions in a row -/

/-- Texts with connectives in between. -/
def joined (first : List Char) : List (Connective × List Char) → List Char
  | [] => first
  | (connective, next) :: rest => first ++ connective.mark :: connective.mark :: joined next rest

variable {rest before behind : List (Connective × List Char)} {connective : Connective}

theorem joined_append (first : List Char) :
    joined first (before ++ (connective, t) :: behind)
      = joined first before ++ connective.mark :: connective.mark :: joined t behind := by
  induction before generalizing first with
  | nil => rfl
  | cons next before ih =>
    obtain ⟨c, u⟩ := next
    rw [List.cons_append, joined, ih, joined, List.append_assoc]
    rfl

/-- Each text may stand beside a connective, and holds none. -/
def AllJoinable (s : List Char) (rest : List (Connective × List Char)) : Prop :=
  ∀ t ∈ s :: rest.map (·.2), Joinable t ∧ ∀ connective : Connective, Undoubled connective.mark t

theorem AllJoinable.joinable (h : AllJoinable s rest) : Joinable (joined s rest) := by
  induction rest generalizing s with
  | nil => exact (h s List.mem_cons_self).1
  | cons next rest ih =>
    have hrest : AllJoinable next.2 rest := fun t ht => h t (List.mem_cons_of_mem s ht)
    exact (h s List.mem_cons_self).1.append (ih hrest) next.1

/-- What is joined holds no other connectives than those in between. -/
theorem AllJoinable.undoubled (h : AllJoinable s rest)
    (hother : ∀ next ∈ rest, next.1 ≠ connective) : Undoubled connective.mark (joined s rest) := by
  induction rest generalizing s with
  | nil => exact (h s List.mem_cons_self).2 connective
  | cons next rest ih =>
    have hrest : AllJoinable next.2 rest := fun t ht => h t (List.mem_cons_of_mem s ht)
    exact undoubled_append (hother next List.mem_cons_self) ((h s List.mem_cons_self).2 connective)
      (ih hrest fun next hnext => hother next (List.mem_cons_of_mem _ hnext))

theorem AllJoinable.split (h : AllJoinable s (before ++ (connective, t) :: behind)) :
    AllJoinable s before ∧ AllJoinable t behind := by
  constructor
  · intro u hu
    refine h u ?_
    rcases List.mem_cons.mp hu with rfl | hu
    · exact List.mem_cons_self
    · rw [List.map_append]
      exact List.mem_cons_of_mem s (List.mem_append_left _ hu)
  · intro u hu
    refine h u ?_
    rw [List.map_append, List.map_cons]
    exact List.mem_cons_of_mem s (List.mem_append_right _ hu)

/-- At the first connective of its kind the text is split. -/
theorem AllJoinable.splitAtMark (h : AllJoinable s (before ++ (connective, t) :: behind))
    (hfirst : ∀ next ∈ before, next.1 ≠ connective) :
    Condition.splitAtMark connective.mark (joined s (before ++ (connective, t) :: behind))
      = some (joined s before, joined t behind) := by
  obtain ⟨hbefore, hbehind⟩ := h.split
  rw [joined_append]
  exact hbefore.joinable.splitAtMark hbehind.joinable connective (hbefore.undoubled hfirst)

/-- Conditions in a row are split at the first `||` between them, or else at the first `&&`. -/
theorem splitCompound_joined (h : AllJoinable s rest) (hne : rest ≠ []) :
    ∃ before connective t behind, rest = before ++ (connective, t) :: behind ∧
      splitCompound (joined s rest) = some (connective, joined s before, joined t behind) := by
  by_cases hor : ∃ next ∈ rest, next.1 = .or
  · obtain ⟨⟨c, t⟩, hfound⟩ : ∃ next, rest.find? (·.1 = .or) = some next :=
      Option.isSome_iff_exists.mp (List.find?_isSome.mpr (by simpa using hor))
    obtain ⟨hc, before, behind, rfl, hbefore⟩ := List.find?_eq_some_iff_append.mp hfound
    obtain rfl : c = .or := by simpa using hc
    have hsplit := h.splitAtMark fun next hnext => by simpa using hbefore next hnext
    refine ⟨before, .or, t, behind, rfl, ?_⟩
    unfold splitCompound
    rw [show '|' = Connective.or.mark from rfl, hsplit]
  · have hand : ∀ next ∈ rest, next.1 ≠ .or := fun next hnext heq => hor ⟨next, hnext, heq⟩
    cases rest with
    | nil => exact absurd rfl hne
    | cons next behind =>
      obtain ⟨c, t⟩ := next
      obtain rfl : c = .and := by
        cases c with
        | or => exact absurd rfl (hand _ List.mem_cons_self)
        | and => rfl
      have hnone := splitAtMark_eq_none (h.undoubled hand)
      have hsplit : Condition.splitAtMark Connective.and.mark (joined s ((.and, t) :: behind))
          = some (joined s [], joined t behind) :=
        AllJoinable.splitAtMark (show AllJoinable s ([] ++ (.and, t) :: behind) from h) nofun
      refine ⟨[], .and, t, behind, rfl, ?_⟩
      unfold splitCompound
      rw [show '|' = Connective.or.mark from rfl, hnone,
        show '&' = Connective.and.mark from rfl]
      exact congrArg (Option.map _) hsplit

theorem splitCompound_alone (h : AllJoinable s []) : splitCompound s = none := by
  have hs := h s List.mem_cons_self
  unfold splitCompound
  rw [show '|' = Connective.or.mark from rfl, splitAtMark_eq_none (hs.2 .or),
    show '&' = Connective.and.mark from rfl, splitAtMark_eq_none (hs.2 .and)]
  rfl

/-- What is written may be joined, and is read on its own. -/
theorem joinable_of_writes (h : c.Writes s) (hplain : c.Unjoined) :
    readSimple s = .ok c ∧ Joinable s ∧ ∀ connective : Connective, Undoubled connective.mark s := by
  obtain ⟨p, rfl, hspell, hcontent⟩ := h.spelled hplain
  exact ⟨hspell.readSimple, hspell.joinable,
    fun connective => hspell.undoubled connective (hcontent connective)⟩

theorem parse_alone (h : AllJoinable s []) (hread : readSimple s = .ok c) :
    parse (String.ofList s) = .ok (.simple c) := by
  unfold parse
  dsimp only
  rw [String.toList_ofList, splitCompound_alone h]
  simp only [parseSimpleChars, hread]
  rfl

theorem parse_two (h : AllJoinable s [(connective, t)]) (hread : readSimple s = .ok c)
    (hread' : readSimple t = .ok d) :
    parse (String.ofList (joined s [(connective, t)])) = .ok (.compound connective c d) := by
  obtain ⟨before, connective', t', behind, hrest, hsplit⟩ := splitCompound_joined h nofun
  obtain ⟨rfl, heq, rfl⟩ : before = [] ∧ (connective, t) = (connective', t') ∧ behind = [] := by
    cases before with
    | nil =>
      obtain ⟨heq, hnil⟩ := List.cons.inj hrest
      exact ⟨rfl, heq, hnil.symm⟩
    | cons next before => simp at hrest
  cases heq
  obtain ⟨hs, ht⟩ : AllJoinable s [] ∧ AllJoinable t [] :=
    AllJoinable.split (show AllJoinable s ([] ++ [(connective, t)]) from h)
  unfold parse
  dsimp only
  rw [String.toList_ofList, hsplit]
  simp only [joined, splitCompound_alone hs, splitCompound_alone ht, parseSimpleChars, hread, hread']
  rfl

/-- Of three or more conditions in a row, one of the two parts is split again. -/
theorem parse_more (h : AllJoinable s rest) (hmany : 2 ≤ rest.length) :
    parse (String.ofList (joined s rest)) = .error (.conditionSyntax (String.ofList (joined s rest))
      "nested compound conditions are not supported") := by
  obtain ⟨before, connective, t, behind, rfl, hsplit⟩ :=
    splitCompound_joined h (List.ne_nil_of_length_pos (by omega))
  obtain ⟨hbefore, hbehind⟩ := h.split
  have hagain : (splitCompound (joined s before)).isSome = true ∨
      (splitCompound (joined t behind)).isSome = true := by
    by_cases hnil : before = []
    · right
      have hne : behind ≠ [] := by
        rintro rfl
        simp [hnil] at hmany
      obtain ⟨_, _, _, _, -, hfound⟩ := splitCompound_joined hbehind hne
      rw [hfound]
      rfl
    · left
      obtain ⟨_, _, _, _, -, hfound⟩ := splitCompound_joined hbefore hnil
      rw [hfound]
      rfl
  unfold parse
  dsimp only
  rw [String.toList_ofList, hsplit]
  simp only [Bool.or_eq_true, hagain, if_true]
  rfl

/-- What is written is read back, alone and beside another condition; three or more conditions in a
row are refused. Literals may hold any number of quotes, but no connective. -/
theorem written_read_back :
    (∀ (c : SimpleCondition) (s : List Char), c.Writes s → c.Unjoined →
      parse (String.ofList s) = .ok (.simple c)) ∧
    (∀ (c d : SimpleCondition) (s t : List Char) (connective : Connective), c.Writes s → c.Unjoined →
      d.Writes t → d.Unjoined →
      parse (String.ofList (s ++ connective.mark :: connective.mark :: t))
        = .ok (.compound connective c d)) ∧
    (∀ (first : List Char) (rest : List (Connective × List Char)),
      (∀ s ∈ first :: rest.map (·.2), ∃ c : SimpleCondition, c.Writes s ∧ c.Unjoined) →
      2 ≤ rest.length →
      ∃ reason, parse (String.ofList (joined first rest))
        = .error (.conditionSyntax (String.ofList (joined first rest)) reason)) := by
  have hall : ∀ {first : List Char} {rest : List (Connective × List Char)},
      (∀ s ∈ first :: rest.map (·.2), ∃ c : SimpleCondition, c.Writes s ∧ c.Unjoined) →
      AllJoinable first rest := by
    intro first rest h s hs
    obtain ⟨c, hwrites, hplain⟩ := h s hs
    exact (joinable_of_writes hwrites hplain).2
  refine ⟨fun c s hs hplain => ?_, fun c d s t connective hs hplain ht hplain' => ?_,
    fun first rest h hmany => ⟨_, parse_more (hall h) hmany⟩⟩
  · exact parse_alone (hall (by simpa using ⟨c, hs, hplain⟩)) (joinable_of_writes hs hplain).1
  · refine parse_two (hall ?_) (joinable_of_writes hs hplain).1 (joinable_of_writes ht hplain').1
    simpa using ⟨⟨c, hs, hplain⟩, d, ht, hplain'⟩

/-- A name with quotes in it, and a range with a quote and two marks in it. -/
def possessive : SimpleCondition := ⟨.notLike, ["'it''s"], false⟩

def ragged : SimpleCondition := ⟨.between, ["a|", "b'&"], false⟩

theorem isBlank_of_mem_space : ∀ d ∈ [' '], isBlank d = true :=
  List.forall_mem_singleton.mpr (by decide)

theorem possessive_writes : possessive.Writes "NOT liKe ''it''s' ".toList := by
  have h := @SimpleCondition.Writes.intro possessive [] "NOT liKe".toList [' ']
    ('\'' :: ("'it''s".toList ++ ['\''])) [' '] nofun ⟨_, List.mem_cons_self, by decide +kernel⟩ nofun
    isBlank_of_mem_space (.one rfl) isBlank_of_mem_space
  exact h

theorem ragged_writes : ragged.Writes " between'a|'AND 'b'&'".toList := by
  have hgap : IsGap "AND ".toList :=
    @IsGap.word [] "AND".toList [' '] nofun (by decide +kernel) isBlank_of_mem_space
  have h := @SimpleCondition.Writes.intro ragged [' '] "between".toList []
    ('\'' :: ("a|".toList ++ '\'' :: ("AND ".toList ++ '\'' :: ("b'&".toList ++ ['\''])))) []
    isBlank_of_mem_space ⟨_, List.mem_cons_self, by decide +kernel⟩ nofun nofun
    (.two rfl (by decide) hgap) nofun
  exact h

theorem unjoined_of_decide {c : SimpleCondition}
    (h : ∀ literal ∈ c.literals, ¬['|', '|'] <:+: literal.toList ∧ ¬['&', '&'] <:+: literal.toList) :
    c.Unjoined := by
  intro literal hliteral connective
  cases connective
  · exact (h literal hliteral).1
  · exact (h literal hliteral).2

theorem quotes_read_back :
    possessive.Writes "NOT liKe ''it''s' ".toList ∧ possessive.Unjoined ∧
    ragged.Writes " between'a|'AND 'b'&'".toList ∧ ragged.Unjoined ∧
    parse "NOT liKe ''it''s' " = .ok (.simple possessive) ∧
    parse "NOT liKe ''it''s' && between'a|'AND 'b'&'" = .ok (.compound .and possessive ragged) ∧
    ∃ reason, parse " between'a|'AND 'b'&'||NOT liKe ''it''s' && between'a|'AND 'b'&'"
      = .error (.conditionSyntax
        " between'a|'AND 'b'&'||NOT liKe ''it''s' && between'a|'AND 'b'&'" reason) := by
  have hpossessive : possessive.Unjoined := unjoined_of_decide (by decide +kernel)
  have hragged : ragged.Unjoined := unjoined_of_decide (by decide +kernel)
  obtain ⟨halone, htwo, hmore⟩ := written_read_back
  refine ⟨possessive_writes, hpossessive, ragged_writes, hragged,
    halone _ _ possessive_writes hpossessive,
    htwo _ _ _ _ .and possessive_writes hpossessive ragged_writes hragged, ?_⟩
  refine hmore " between'a|'AND 'b'&'".toList [(.or, "NOT liKe ''it''s' ".toList),
    (.and, " between'a|'AND 'b'&'".toList)] ?_ (Nat.le_refl 2)
  intro s hs
  simp only [List.map_cons, List.map_nil, List.mem_cons, List.not_mem_nil, or_false] at hs
  rcases hs with rfl | rfl | rfl
  · exact ⟨ragged, ragged_writes, hragged⟩
  · exact ⟨possessive, possessive_writes, hpossessive⟩
  · exact ⟨ragged, ragged_writes, hragged⟩

end Condition

end CatalogQuery
