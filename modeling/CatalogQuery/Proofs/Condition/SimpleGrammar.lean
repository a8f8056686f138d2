import CatalogQuery.Proofs.Condition.OperatorTexts
import CatalogQuery.Proofs.Fallible
import Mathlib.Data.List.Basic

/-!
# The grammar of simple conditions

A simple condition is a text of six parts: blanks, an `n` if numbers are compared, the text of an
operator, a quote, a content, and a quote with blanks behind it. The content is one literal, or for a
range two of them with an optional `and` in between. The texts of the grammar are read, each in one
way only, and no others are.

* `Operator.parse_eq_some_iff`: a text names an operator iff its words spell it;
* `splitRange_eq_some_iff`: a range is split at the first quote that another one follows;
* `readSimple_eq_ok_iff`: what is read, from where the quotes are;
* `Parts.Spell.unique`: a text has no more than one decomposition, but for blanks before an operator;
* `parseSimple_exact`: what is read, told by the grammar.
-/

namespace CatalogQuery

open Text

/-! ## Operators -/

namespace Operator

variable {s : List Char} {o : Operator}

/-- The words of the text, their letters in lower case, spell the operator. -/
def SpelledBy (o : Operator) (s : List Char) : Prop :=
  (words s).map (fun w => String.ofList (w.map Char.toLower)) ∈ o.spellings

instance (o : Operator) (s : List Char) : Decidable (o.SpelledBy s) :=
  inferInstanceAs (Decidable (_ ∈ _))

/-- A text names an operator iff its words spell it; no two operators are spelled alike. -/
theorem parse_eq_some_iff : parse s = some o ↔ o.SpelledBy s := by
  refine ⟨parse_eq_some, fun hspelled => ?_⟩
  have hapart : ∀ o ∈ all, ∀ o' ∈ all, ∀ spelling ∈ o.spellings, spelling ∈ o'.spellings → o' = o := by
    decide +kernel
  unfold SpelledBy at hspelled
  unfold parse
  generalize (words s).map (fun w => String.ofList (w.map Char.toLower)) = spelled at hspelled
  cases hfound : all.find? fun o => o.spellings.contains spelled with
  | none =>
    have hnone := List.find?_eq_none.mp hfound o (mem_all o)
    simp [hspelled] at hnone
  | some o' =>
    have hspelled' : spelled ∈ o'.spellings := by simpa using List.find?_some hfound
    rw [hapart o (mem_all o) o' (mem_all o') spelled hspelled hspelled']

theorem spelledBy_trimStart (s : List Char) : o.SpelledBy (trimStart s) ↔ o.SpelledBy s := by
  rw [← parse_eq_some_iff, ← parse_eq_some_iff, ← parse_trim (trimStart s), trim_trimStart,
    parse_trim]

end Operator

namespace Condition

variable {s r content low high : List Char} {c : Char} {o : Operator}

/-- Lengths are those of texts in UTF-8. -/
theorem byteLength_eq (s : List Char) : byteLength s = (String.ofList s).utf8ByteSize := by
  induction s with
  | nil => rfl
  | cons c s ih =>
    rw [← List.singleton_append, String.ofList_append, String.utf8ByteSize_append, ← ih]
    simp [byteLength]

/-! ## Ranges -/

/-- What may stand between the quotes of two literals: blanks, and among them an `and` in letters of
any case. -/
inductive IsGap : List Char → Prop where
  | blank {blanks : List Char} : (∀ c ∈ blanks, isBlank c = true) → IsGap blanks
  | word {before word behind : List Char} : (∀ c ∈ before, isBlank c = true) →
    word.map Char.toLower = ['a', 'n', 'd'] → (∀ c ∈ behind, isBlank c = true) →
    IsGap (before ++ word ++ behind)

/-- Behind a gap the text goes on with a quote, and `high` is what is behind that. -/
def Opens (rest high : List Char) : Prop := ∃ gap, IsGap gap ∧ rest = gap ++ '\'' :: high

theorem stripAnd_of_quote (h : trimStart r = '\'' :: high) : stripAnd r = '\'' :: high := by
  unfold stripAnd
  rw [h]
  match high with
  | [] => rfl
  | [_] => rfl
  | n :: d :: high => exact if_neg (by simp)

theorem stripAnd_of_word {before word behind : List Char} (hbefore : ∀ c ∈ before, isBlank c = true)
    (hword : word.map Char.toLower = ['a', 'n', 'd']) :
    stripAnd (before ++ word ++ behind) = trimStart behind := by
  obtain ⟨a, n, d, rfl⟩ : ∃ a n d, word = [a, n, d] := by
    have hlength : word.length = 3 := by simpa using congrArg List.length hword
    exact List.length_eq_three.mp hlength
  have ha : isBlank a = false := by
    by_contra hblank
    rw [← isBlank_toLower, (List.cons.inj hword).1] at hblank
    exact hblank (by decide)
  have hstart : trimStart (before ++ [a, n, d] ++ behind) = a :: n :: d :: behind := by
    rw [List.append_assoc, trimStart_blanks_append hbefore]
    exact trimStart_of_not_blank ha _
  unfold stripAnd
  rw [hstart]
  exact if_pos hword

/-- Behind a gap the text goes on with a quote. -/
theorem stripAnd_eq_quote_iff : stripAnd r = '\'' :: high ↔ Opens r high := by
  constructor
  · intro h
    obtain ⟨before, hr, hbefore⟩ := exists_blanks_trimStart r
    have hblank : trimStart r = '\'' :: high → Opens r high := fun hstart =>
      ⟨before, .blank hbefore, hstart ▸ hr⟩
    unfold stripAnd at h
    split at h
    · next a n d rest hstart =>
      split at h
      · next hword =>
        obtain ⟨behind, hrest, hbehind⟩ := exists_blanks_trimStart rest
        rw [h] at hrest
        rw [hstart, hrest] at hr
        exact ⟨before ++ [a, n, d] ++ behind, .word hbefore hword hbehind, by simpa using hr⟩
      · exact hblank (hstart.trans h)
    · exact hblank h
  · rintro ⟨gap, hgap, rfl⟩
    have hquote : ∀ {blanks : List Char}, (∀ c ∈ blanks, isBlank c = true) →
        trimStart (blanks ++ '\'' :: high) = '\'' :: high := fun hblanks =>
      (trimStart_blanks_append hblanks).trans (trimStart_of_not_blank (by decide) _)
    cases hgap with
    | blank hblanks => exact stripAnd_of_quote (hquote hblanks)
    | word hbefore hword hbehind =>
      rw [List.append_assoc, stripAnd_of_word hbefore hword, hquote hbehind]

/-- The content is split at its first quote behind which, after a gap, another one stands: `low` is
what is before the one, `high` what is behind the other. -/
structure SplitsRange (content low high : List Char) : Prop where
  here : ∃ rest, content = low ++ '\'' :: rest ∧ Opens rest high
  first : ∀ before rest high', content = before ++ '\'' :: rest → Opens rest high' →
    low.length ≤ before.length

theorem splitRange_opening (h : stripAnd r = '\'' :: high) :
    splitRange ('\'' :: r) = some ([], high) := by
  simp [splitRange, cuts, h]

/-- What does not look at the character in front finds the same with it and without it. -/
theorem findSome?_map_cons {f : List Char × List Char → Option (List Char × List Char)}
    (hf : ∀ p, f (c :: p.1, p.2) = (f p).map fun q => (c :: q.1, q.2))
    (l : List (List Char × List Char)) :
    (l.map fun p => (c :: p.1, p.2)).findSome? f
      = (l.findSome? f).map fun q => (c :: q.1, q.2) := by
  rw [List.findSome?_map, List.map_findSome?]
  congr 1
  funext p
  exact hf p

theorem splitRange_cons (h : c = '\'' → ∀ high, stripAnd r ≠ '\'' :: high) :
    splitRange (c :: r) = (splitRange r).map fun p => (c :: p.1, p.2) := by
  unfold splitRange
  rw [cuts]
  split
  · next hquote =>
    rw [List.findSome?_cons]
    split
    · next hopens =>
      split at hopens
      · next high heq => exact absurd heq (h hquote high)
      · cases hopens
    · refine findSome?_map_cons (fun p => ?_) _
      dsimp only
      split <;> rfl
  · refine findSome?_map_cons (fun p => ?_) _
    dsimp only
    split <;> rfl

theorem splitRange_eq_some_iff :
    splitRange content = some (low, high) ↔ SplitsRange content low high := by
  induction content generalizing low with
  | nil =>
    constructor
    · intro h
      cases h
    · rintro ⟨⟨rest, hsplit, -⟩, -⟩
      simp at hsplit
  | cons c r ih =>
    by_cases hopens : c = '\'' ∧ ∃ high, stripAnd r = '\'' :: high
    · obtain ⟨rfl, high', hhigh'⟩ := hopens
      rw [splitRange_opening hhigh', Option.some.injEq, Prod.mk.injEq]
      have hopens' := stripAnd_eq_quote_iff.mp hhigh'
      constructor
      · rintro ⟨rfl, rfl⟩
        exact ⟨⟨r, rfl, hopens'⟩, fun _ _ _ _ _ => Nat.zero_le _⟩
      · rintro ⟨⟨rest, hsplit, hrest⟩, hfirst⟩
        have hnil : low = [] := List.eq_nil_of_length_eq_zero
          (Nat.le_zero.mp (hfirst [] r high' rfl hopens'))
        subst hnil
        obtain rfl := (List.cons.inj hsplit).2
        rw [← stripAnd_eq_quote_iff, hhigh'] at hrest
        exact ⟨rfl, (List.cons.inj hrest).2⟩
    · have hnot : c = '\'' → ∀ high, stripAnd r ≠ '\'' :: high :=
        fun hc high hhigh => hopens ⟨hc, high, hhigh⟩
      rw [splitRange_cons hnot]
      constructor
      · intro h
        obtain ⟨⟨low', high'⟩, hfound, heq⟩ := Option.map_eq_some_iff.mp h
        cases heq
        obtain ⟨⟨rest, rfl, hrest⟩, hfirst⟩ := ih.mp hfound
        refine ⟨⟨rest, rfl, hrest⟩, fun before rest' high' hsplit hrest' => ?_⟩
        cases before with
        | nil =>
          obtain ⟨rfl, rfl⟩ := List.cons.inj hsplit
          exact absurd (stripAnd_eq_quote_iff.mpr hrest') (hnot rfl high')
        | cons d before =>
          have hle := hfirst before rest' high' (List.cons.inj hsplit).2 hrest'
          simpa using hle
      · rintro ⟨⟨rest, hsplit, hrest⟩, hfirst⟩
        cases low with
        | nil =>
          obtain ⟨rfl, rfl⟩ := List.cons.inj hsplit
          exact absurd (stripAnd_eq_quote_iff.mpr hrest) (hnot rfl high)
        | cons d low =>
          obtain ⟨rfl, rfl⟩ := List.cons.inj hsplit
          have hfound := ih.mpr ⟨⟨rest, rfl, hrest⟩, fun before rest' high' hsplit' hrest' => by
            have hle := hfirst (c :: before) rest' high' (by rw [hsplit']; rfl) hrest'
            simpa using hle⟩
          rw [hfound]
          rfl

/-! ## What is read -/

/-- The content as literals: all of it is one, but for a range it is split in two. -/
def ContentOf (o : Operator) (content : List Char) (literals : List String) : Prop :=
  if o.takesRange then
    ∃ low high, SplitsRange content low high ∧ literals = [String.ofList low, String.ofList high]
  else literals = [String.ofList content]

/-- Where the reader finds the parts of a condition, its mark taken off: before the first quote,
between it and the last one, and behind that. -/
structure Reads (s : List Char) (numeric : Bool) (before content behind : List Char) : Prop where
  quotes : stripNumeric (trimStart s) = (numeric, before ++ '\'' :: (content ++ '\'' :: behind))
  first : '\'' ∉ before
  last : ∀ c ∈ behind, isBlank c = true

theorem quote_notMem_of_blank {blanks : List Char} (h : ∀ c ∈ blanks, isBlank c = true) :
    '\'' ∉ blanks := fun hmem => by cases h '\'' hmem

/-- The literals are read off the content, or the condition is refused for a missing one. -/
theorem literals_eq_ok_iff {numeric : Bool} {c : SimpleCondition} :
    (if o.takesRange = true then
        match splitRange content with
        | some (low, high) => pure ⟨o, [String.ofList low, String.ofList high], numeric⟩
        | _ => throw ConditionFault.missingRange
      else pure ⟨o, [String.ofList content], numeric⟩ : Except ConditionFault SimpleCondition) = .ok c ↔
    ContentOf o content c.literals ∧ c.operator = o ∧ c.numeric = numeric := by
  obtain ⟨operator, literals, compares⟩ := c
  unfold ContentOf
  by_cases hrange : o.takesRange = true
  · rw [if_pos hrange, if_pos hrange]
    constructor
    · intro h
      split at h
      · next low high hsplit =>
        cases h
        exact ⟨⟨low, high, splitRange_eq_some_iff.mp hsplit, rfl⟩, rfl, rfl⟩
      · cases h
    · rintro ⟨⟨low, high, hsplit, rfl⟩, rfl, rfl⟩
      rw [splitRange_eq_some_iff.mpr hsplit]
      rfl
  · rw [if_neg hrange, if_neg hrange]
    constructor
    · intro h
      cases h
      exact ⟨rfl, rfl, rfl⟩
    · rintro ⟨rfl, rfl, rfl⟩
      rfl

theorem readSimple_eq_ok_iff {c : SimpleCondition} : readSimple s = .ok c ↔
    ∃ before content behind, Reads s c.numeric before content behind ∧
      byteLength (trim before) ≤ maxOperatorBytes ∧ c.operator.SpelledBy before ∧
      ContentOf c.operator content c.literals := by
  constructor
  · intro h
    unfold readSimple at h
    rcases hstart : stripNumeric (trimStart s) with ⟨numeric, body⟩
    rw [hstart] at h
    dsimp only at h
    split at h
    case h_2 => cases h
    case h_1 before rest hcut =>
      obtain ⟨rfl, hfirst⟩ := cutFirst_eq_some hcut
      split at h
      case h_2 => cases h
      case h_1 content behind hend =>
        obtain ⟨rfl, -⟩ := cutLast_eq_some hend
        split at h
        case isFalse => cases h
        case isTrue hempty =>
          split at h
          case isTrue => cases h
          case isFalse hshort =>
            split at h
            case h_2 => cases h
            case h_1 operator hoperator =>
              rw [Operator.parse_trim, Operator.parse_eq_some_iff] at hoperator
              obtain ⟨hcontent, rfl, rfl⟩ := literals_eq_ok_iff.mp h
              exact ⟨before, content, behind, ⟨hstart, hfirst, (trim_isEmpty_iff behind).mp hempty⟩,
                Nat.le_of_not_lt hshort, hoperator, hcontent⟩
  · rintro ⟨before, content, behind, ⟨hquotes, hfirst, hlast⟩, hshort, hspelled, hcontent⟩
    have hoperator : Operator.parse (trim before) = some c.operator := by
      rw [Operator.parse_trim, Operator.parse_eq_some_iff]
      exact hspelled
    have hend : cutLast '\'' (content ++ '\'' :: behind) = some (content, behind) :=
      cutLast_append (quote_notMem_of_blank hlast)
    unfold readSimple
    simp only [hquotes, cutFirst_append hfirst, hend, (trim_isEmpty_iff behind).mpr hlast, hoperator,
      if_true, Nat.not_lt.mpr hshort, if_false]
    exact literals_eq_ok_iff.mpr ⟨hcontent, rfl, rfl⟩

/-- The quotes of a text are found in one place only. -/
theorem Reads.unique {numeric numeric' : Bool} {before before' content' behind behind' : List Char}
    (h : Reads s numeric before content behind) (h' : Reads s numeric' before' content' behind') :
    numeric = numeric' ∧ before = before' ∧ content = content' ∧ behind = behind' := by
  obtain ⟨hnumeric, hbody⟩ := Prod.mk.inj (h.quotes.symm.trans h'.quotes)
  have hfirst := cutFirst_append (b := content ++ '\'' :: behind) h.first
  rw [hbody, cutFirst_append h'.first, Option.some.injEq, Prod.mk.injEq] at hfirst
  have hlast := cutLast_append (a := content) (quote_notMem_of_blank h.last)
  rw [← hfirst.2, cutLast_append (quote_notMem_of_blank h'.last), Option.some.injEq,
    Prod.mk.injEq] at hlast
  exact ⟨hnumeric, hfirst.1.symm, hlast.1.symm, hlast.2.symm⟩

/-! ## The grammar -/

/-- A simple condition, taken apart. -/
structure Parts where
  leading : List Char
  /-- There is an `n` before the operator. -/
  numeric : Bool
  operator : List Char
  content : List Char
  trailing : List Char

namespace Parts

/-- What stands before the opening quote. -/
def before (p : Parts) : List Char :=
  p.leading ++ (if p.numeric then ['n'] else []) ++ p.operator

def text (p : Parts) : List Char := p.before ++ '\'' :: (p.content ++ '\'' :: p.trailing)

/-- The parts are those of the condition `c`. -/
structure Spell (p : Parts) (c : SimpleCondition) : Prop where
  leading : ∀ d ∈ p.leading, isBlank d = true
  numeric : p.numeric = c.numeric
  /-- Only a comparison is marked, and right before its first letter. -/
  marked : p.numeric = true → p.operator.head?.any (fun d => d == '<' || d == '>' || d == '=') = true
  unquoted : '\'' ∉ p.operator
  short : (String.ofList (trim p.operator)).utf8ByteSize ≤ 11
  spelled : c.operator.SpelledBy p.operator
  literals : ContentOf c.operator p.content c.literals
  trailing : ∀ d ∈ p.trailing, isBlank d = true

variable {p q : Parts} {c d : SimpleCondition}

/-- Where the reader finds the operator: behind the mark, or behind all blanks. -/
def operatorRead (p : Parts) : List Char := if p.numeric then p.operator else trimStart p.operator

theorem trim_operatorRead (p : Parts) : trim p.operatorRead = trim p.operator := by
  unfold operatorRead
  split
  · rfl
  · exact trim_trimStart _

theorem Spell.reads (h : p.Spell c) :
    Reads p.text c.numeric p.operatorRead p.content p.trailing where
  first := by
    unfold operatorRead
    split
    · exact h.unquoted
    · exact fun hmem => h.unquoted (mem_of_trimStart hmem)
  last := h.trailing
  quotes := by
    rw [← h.numeric, text, before, operatorRead]
    cases hnumeric : p.numeric with
    | true =>
      obtain ⟨d, r, hoperator⟩ : ∃ d r, p.operator = d :: r := by
        have hmarked := h.marked hnumeric
        cases hoperator : p.operator with
        | nil => simp [hoperator] at hmarked
        | cons d r => exact ⟨d, r, rfl⟩
      have hd : d = '<' ∨ d = '>' ∨ d = '=' := by
        have hmarked := h.marked hnumeric
        simpa [hoperator, or_assoc] using hmarked
      have hstart : trimStart (p.leading ++ ['n'] ++ p.operator
          ++ '\'' :: (p.content ++ '\'' :: p.trailing))
          = 'n' :: d :: (r ++ '\'' :: (p.content ++ '\'' :: p.trailing)) := by
        rw [List.append_assoc, List.append_assoc, trimStart_blanks_append h.leading, hoperator]
        exact trimStart_of_not_blank (by decide) _
      rw [if_pos rfl, if_pos rfl, hstart, stripNumeric_eq_cons hd, hoperator]
      rfl
    | false =>
      have hparse : Operator.parse p.operator = some c.operator :=
        Operator.parse_eq_some_iff.mpr h.spelled
      have hnot : ¬false = true := Bool.false_ne_true
      rw [if_neg hnot, if_neg hnot, List.append_nil, trimStart_append (by decide),
        trimStart_blanks_append h.leading, stripNumeric_append, stripNumeric_of_parse hparse]

/-- The content begins behind the first quote. -/
theorem Spell.quote_notMem_before (h : p.Spell c) : '\'' ∉ p.before := by
  intro hmem
  rcases List.mem_append.mp hmem with hmem | hmem
  · rcases List.mem_append.mp hmem with hmem | hmem
    · exact quote_notMem_of_blank h.leading hmem
    · split at hmem
      · cases List.mem_singleton.mp hmem
      · cases hmem
  · exact h.unquoted hmem

theorem Spell.spelledBy_read (h : p.Spell c) : c.operator.SpelledBy p.operatorRead := by
  unfold operatorRead
  split
  · exact h.spelled
  · exact (Operator.spelledBy_trimStart _).mpr h.spelled

theorem Spell.readSimple (h : p.Spell c) : Condition.readSimple p.text = .ok c := by
  refine readSimple_eq_ok_iff.mpr ⟨_, _, _, h.reads, ?_, h.spelledBy_read, h.literals⟩
  rw [trim_operatorRead, byteLength_eq]
  exact h.short

/-- Decompositions of one text agree, but for the blanks before an operator. -/
theorem Spell.unique (h : p.Spell c) (h' : q.Spell d) (htext : p.text = q.text) :
    p.numeric = q.numeric ∧ p.operatorRead = q.operatorRead ∧ p.content = q.content ∧
      p.trailing = q.trailing := by
  obtain ⟨hnumeric, hrest⟩ := h.reads.unique (htext ▸ h'.reads)
  exact ⟨h.numeric.trans (hnumeric.trans h'.numeric.symm), hrest⟩

/-- The blanks before the operator are all taken for leading ones. -/
def Flush (p : Parts) : Prop := p.operator.head?.any isBlank = false

theorem Flush.operatorRead (h : p.Flush) : p.operatorRead = p.operator := by
  unfold Parts.operatorRead
  split
  · rfl
  · unfold Flush at h
    cases hoperator : p.operator with
    | nil => rfl
    | cons d r => exact trimStart_of_not_blank (by simpa [hoperator] using h) _

theorem Spell.eq_of_flush (h : p.Spell c) (h' : q.Spell d) (hflush : p.Flush) (hflush' : q.Flush)
    (htext : p.text = q.text) : p = q := by
  obtain ⟨hnumeric, hoperator, hcontent, htrailing⟩ := h.unique h' htext
  rw [hflush.operatorRead, hflush'.operatorRead] at hoperator
  have hleading : p.leading = q.leading := by
    rw [text, text, before, before, hnumeric, hoperator, hcontent, htrailing] at htext
    exact List.append_cancel_right (List.append_cancel_right (List.append_cancel_right htext))
  obtain ⟨leading, numeric, operator, content, trailing⟩ := p
  obtain ⟨leading', numeric', operator', content', trailing'⟩ := q
  cases hleading
  cases hnumeric
  cases hoperator
  cases hcontent
  cases htrailing
  rfl

end Parts

/-- What the mark is taken off. -/
theorem stripNumeric_inv {numeric : Bool} {body : List Char} (h : stripNumeric s = (numeric, body)) :
    s = (if numeric then ['n'] else []) ++ body ∧
    (numeric = true → body.head?.any (fun d => d == '<' || d == '>' || d == '=') = true) := by
  rcases stripNumeric_cases s with ⟨d, r, hd, rfl⟩ | hnone
  · rw [stripNumeric_eq_cons hd] at h
    cases h
    refine ⟨rfl, fun _ => ?_⟩
    rcases hd with rfl | rfl | rfl <;> rfl
  · rw [hnone] at h
    cases h
    exact ⟨rfl, nofun⟩

/-- What is read is one of the texts of the grammar. -/
theorem exists_parts {c : SimpleCondition} (h : readSimple s = .ok c) :
    ∃ p : Parts, p.text = s ∧ p.Spell c ∧ p.Flush := by
  obtain ⟨before, content, behind, hreads, hshort, hspelled, hcontent⟩ := readSimple_eq_ok_iff.mp h
  obtain ⟨leading, hs, hleading⟩ := exists_blanks_trimStart s
  obtain ⟨hbody, hmarked⟩ := stripNumeric_inv hreads.quotes
  have hhead : ∀ d, before.head? = some d →
      (before ++ '\'' :: (content ++ '\'' :: behind)).head? = some d := by
    intro d hd
    rw [List.head?_append, hd]
    rfl
  have hnonempty : ∃ d, before.head? = some d := by
    cases hbefore : before with
    | nil =>
      rw [hbefore] at hspelled
      have hnone : ∀ o ∈ Operator.all, ¬o.SpelledBy [] := by decide +kernel
      exact absurd hspelled (hnone _ (Operator.mem_all _))
    | cons d r => exact ⟨d, rfl⟩
  obtain ⟨d, hd⟩ := hnonempty
  refine ⟨⟨leading, c.numeric, before, content, behind⟩, ?_, ?_, ?_⟩
  case refine_1 =>
    rw [hs, hbody]
    simp [Parts.text, Parts.before]
  case refine_2 =>
    refine ⟨hleading, rfl, fun hnumeric => ?_, hreads.first, ?_, hspelled, hcontent, hreads.last⟩
    · have hbodyHead := hmarked hnumeric
      rw [hhead d hd] at hbodyHead
      rw [hd]
      exact hbodyHead
    · rw [← byteLength_eq]
      exact hshort
  case refine_3 =>
    show before.head?.any isBlank = false
    rw [hd]
    cases hnumeric : c.numeric with
    | true =>
      have hbodyHead := hmarked hnumeric
      rw [hhead d hd] at hbodyHead
      have hcompares : d = '<' ∨ d = '>' ∨ d = '=' := by simpa [or_assoc] using hbodyHead
      rcases hcompares with rfl | rfl | rfl <;> rfl
    | false =>
      have hblank := List.head?_dropWhile_not isBlank s
      rw [← trimStart, hbody, hnumeric, if_neg Bool.false_ne_true, List.nil_append, hhead d hd]
        at hblank
      exact hblank

theorem readSimple_eq_ok_iff_parts {c : SimpleCondition} :
    readSimple s = .ok c ↔ ∃ p : Parts, p.text = s ∧ p.Spell c := by
  constructor
  · intro h
    obtain ⟨p, htext, hspell, -⟩ := exists_parts h
    exact ⟨p, htext, hspell⟩
  · rintro ⟨p, rfl, hspell⟩
    exact hspell.readSimple

theorem parseSimple_eq_ok_iff {e : String} {c : SimpleCondition} :
    parseSimple e = .ok c ↔ readSimple e.toList = .ok c := by
  unfold parseSimple parseSimpleChars
  cases readSimple e.toList <;> simp [Except.mapError]

/-- A text that is not read is named whole. -/
theorem parseSimple_cases (e : String) : (∃ c, parseSimple e = .ok c) ∨
    ∃ fault : ConditionFault, parseSimple e = .error (.conditionSyntax e fault.reason) := by
  unfold parseSimple parseSimpleChars
  cases readSimple e.toList with
  | ok c => exact .inl ⟨c, rfl⟩
  | error fault => exact .inr ⟨fault, by simp [Except.mapError, faultIn]⟩

/-- The operators that compare with `<`, `=` and `>`. -/
def comparisons : List Operator := [.eq, .ne, .lt, .le, .gt, .ge]

/-- What begins like a comparison is one. -/
theorem Parts.Spell.compares {p : Parts} {c : SimpleCondition} (h : p.Spell c)
    (hnumeric : c.numeric = true) : c.operator ∈ comparisons := by
  have hmarked := h.marked (h.numeric.trans hnumeric)
  obtain ⟨spelling, hspelling, hletters⟩ :=
    Operator.letters_of_parse (Operator.parse_eq_some_iff.mpr h.spelled)
  cases hoperator : p.operator with
  | nil => simp [hoperator] at hmarked
  | cons d r =>
    have hd : d = '<' ∨ d = '>' ∨ d = '=' := by simpa [hoperator, or_assoc] using hmarked
    have hplain : isBlank d = false ∧ d.toLower = d := by
      rcases hd with rfl | rfl | rfl <;> decide
    have hfirst : (spelling.flatMap String.toList).head? = some d := by
      rw [← hletters, hoperator, List.filter_cons_of_pos (by simp [hplain.1]), List.map_cons, hplain.2]
      rfl
    have hall : ∀ o ∈ Operator.all, ∀ spelling ∈ o.spellings,
        (spelling.flatMap String.toList).head?.any (fun d => d == '<' || d == '>' || d == '=') = true →
        o ∈ comparisons := by decide +kernel
    refine hall c.operator (Operator.mem_all _) spelling hspelling ?_
    rw [hfirst, ← List.head?_cons (a := d) (l := r), ← hoperator]
    exact hmarked

/-- The reader accepts the texts of the grammar, each as the condition that it spells, and refuses all
others for their syntax. A text is taken apart in one way only, but for blanks before its operator: its
content lies between its first quote and its last one, and may hold others. Only comparisons are
numeric. -/
theorem parseSimple_exact (e : String) :
    (∀ c, parseSimple e = .ok c ↔ ∃ p : Parts, p.text = e.toList ∧ p.Spell c) ∧
    (∀ c, parseSimple e = .ok c → ∃! p : Parts, p.text = e.toList ∧ p.Spell c ∧ p.Flush) ∧
    (∀ (p q : Parts) (c d : SimpleCondition), p.text = e.toList → q.text = e.toList → p.Spell c →
      q.Spell d → p.numeric = q.numeric ∧ trim p.operator = trim q.operator ∧
        p.content = q.content ∧ p.trailing = q.trailing ∧ '\'' ∉ p.before ∧ '\'' ∉ p.trailing) ∧
    (∀ c, parseSimple e = .ok c → c.numeric = true → c.operator ∈ comparisons) ∧
    ((∀ c, parseSimple e ≠ .ok c) ↔
      ∃ fault : ConditionFault, parseSimple e = .error (.conditionSyntax e fault.reason)) := by
  refine ⟨fun c => parseSimple_eq_ok_iff.trans readSimple_eq_ok_iff_parts, fun c h => ?_,
    fun p q c d hp hq hpc hqd => ?_, fun c h => ?_, fun h => ?_, ?_⟩
  · obtain ⟨p, htext, hspell, hflush⟩ := exists_parts (parseSimple_eq_ok_iff.mp h)
    refine ⟨p, ⟨htext, hspell, hflush⟩, ?_⟩
    rintro q ⟨htext', hspell', hflush'⟩
    exact hspell'.eq_of_flush hspell hflush' hflush (htext'.trans htext.symm)
  · obtain ⟨hnumeric, hoperator, hcontent, htrailing⟩ := hpc.unique hqd (hp.trans hq.symm)
    refine ⟨hnumeric, ?_, hcontent, htrailing, hpc.quote_notMem_before,
      quote_notMem_of_blank hpc.trailing⟩
    rw [← p.trim_operatorRead, hoperator, q.trim_operatorRead]
  · obtain ⟨p, -, hspell⟩ := readSimple_eq_ok_iff_parts.mp (parseSimple_eq_ok_iff.mp h)
    exact hspell.compares
  · rcases parseSimple_cases e with ⟨c, hc⟩ | hfault
    · exact absurd hc (h c)
    · exact hfault
  · rintro ⟨fault, hfault⟩ c hc
    cases hfault.symm.trans hc

/-- A range is split at the quote that an `and` and another quote follow, not at the first one. -/
theorem range_read :
    parseSimple " NOT between'O'Brien' AnD 'z''" = .ok ⟨.notBetween, ["O'Brien", "z'"], false⟩ ∧
    ∃ p : Parts, p.text = " NOT between'O'Brien' AnD 'z''".toList ∧
      p.Spell ⟨.notBetween, ["O'Brien", "z'"], false⟩ := by
  obtain ⟨hread, -⟩ := parseSimple_exact " NOT between'O'Brien' AnD 'z''"
  have hok : parseSimple " NOT between'O'Brien' AnD 'z''"
      = .ok ⟨.notBetween, ["O'Brien", "z'"], false⟩ := by decide +kernel
  exact ⟨hok, (hread _).mp hok⟩

end Condition

end CatalogQuery
