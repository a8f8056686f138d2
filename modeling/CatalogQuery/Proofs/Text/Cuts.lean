import CatalogQuery.Text.Blank
import CatalogQuery.Text.Cut
import Mathlib.Data.List.Chain
import Mathlib.Data.List.DropRight

/-!
# Texts put together and cut again

A text that was put together around a mark is cut at that mark, and blanks at its ends are trimmed
without touching what stands between them.

* `trim_trim`: a trimmed text is not trimmed any further;
* `trimStart_append`, `getLast?_trimEnd_append`: how far trimming gets in a text with a mark;
* `toLower_cases`: the case of letters is that of 26 of them;
* `words_trim`, `flatten_words`: blanks only part the words;
* `cutFirst_append`, `cutLast_append`, `Undoubled.doubledCuts_append`: the cuts of a text with a mark;
* `mem_doubledCuts`: where a doubled mark is cut.
-/

namespace CatalogQuery.Text

variable {s r a b : List Char} {c q : Char} {p : List Char × List Char}

/-! ## Blanks at the ends -/

theorem trimStart_append (hc : isBlank c = false) :
    trimStart (s ++ c :: r) = trimStart s ++ c :: r := by
  induction s with
  | nil => simp [trimStart, hc]
  | cons d s ih =>
    cases hd : isBlank d with
    | true => simpa [trimStart, hd] using ih
    | false => simp [trimStart, hd]

theorem trimStart_blanks_append (ha : ∀ c ∈ a, isBlank c = true) :
    trimStart (a ++ s) = trimStart s := by
  induction a with
  | nil => rfl
  | cons c a ih =>
    rw [List.cons_append, trimStart, List.dropWhile_cons_of_pos (ha c List.mem_cons_self)]
    exact ih fun d hd => ha d (List.mem_cons_of_mem c hd)

theorem trimStart_of_not_blank (hc : isBlank c = false) (s : List Char) :
    trimStart (c :: s) = c :: s := List.dropWhile_cons_of_neg (by simp [hc])

theorem trimStart_eq_nil : trimStart s = [] ↔ ∀ c ∈ s, isBlank c = true := List.dropWhile_eq_nil_iff

theorem mem_of_trimStart (h : c ∈ trimStart s) : c ∈ s := (List.dropWhile_sublist _).mem h

theorem trim_trimStart (s : List Char) : trim (trimStart s) = trim s := by
  rw [trim, trimStart, trimStart, List.dropWhile_idempotent, trim, trimStart]

/-- What is trimmed off at the start is blank. -/
theorem exists_blanks_trimStart (s : List Char) :
    ∃ blanks, s = blanks ++ trimStart s ∧ ∀ c ∈ blanks, isBlank c = true :=
  ⟨s.takeWhile isBlank, List.takeWhile_append_dropWhile.symm, fun _ => List.mem_takeWhile_imp⟩

/-- What is trimmed off at the end is blank. -/
theorem exists_trimEnd_blanks (s : List Char) :
    ∃ blanks, s = trimEnd s ++ blanks ∧ ∀ c ∈ blanks, isBlank c = true := by
  obtain ⟨blanks, hsplit, hblank⟩ := exists_blanks_trimStart s.reverse
  refine ⟨blanks.reverse, ?_, fun c hc => hblank c (List.mem_reverse.mp hc)⟩
  have h := congrArg List.reverse hsplit
  rwa [List.reverse_reverse, List.reverse_append] at h

/-- What is left of a text ends in its last character that is not blank. -/
theorem getLast?_trimEnd (s : List Char) :
    (trimEnd s).getLast? = s.reverse.find? fun c => !isBlank c := by
  rw [trimEnd, List.getLast?_reverse, List.find?_not_eq_head?_dropWhile]

/-- Nothing is left to trim at the ends of a trimmed text. -/
theorem trim_trim (s : List Char) : trim (trim s) = trim s := by
  refine trim_eq_self ?_ ?_
  · obtain ⟨blanks, hsplit, -⟩ := exists_trimEnd_blanks (trimStart s)
    cases hleft : trim s with
    | nil => rfl
    | cons c r =>
      have hhead : (s.dropWhile isBlank).head? = some c := by
        rw [trim] at hleft
        rw [← trimStart, hsplit, hleft]
        rfl
      have hblank := List.head?_dropWhile_not isBlank s
      rw [hhead] at hblank
      exact hblank
  · rw [trim, getLast?_trimEnd]
    cases hlast : (trimStart s).reverse.find? fun c => !isBlank c with
    | none => rfl
    | some c => simpa using List.find?_some hlast

/-- Of a blank text, and of no other, nothing is left. -/
theorem trim_isEmpty_iff (s : List Char) : (trim s).isEmpty = true ↔ ∀ c ∈ s, isBlank c = true := by
  rw [List.isEmpty_iff, trim, trimEnd, List.reverse_eq_nil_iff, List.dropWhile_eq_nil_iff]
  constructor
  · intro h
    obtain ⟨blanks, hs, hblanks⟩ := exists_blanks_trimStart s
    intro c hc
    rw [hs] at hc
    rcases List.mem_append.mp hc with hc | hc
    · exact hblanks c hc
    · exact h c (List.mem_reverse.mpr hc)
  · exact fun h c hc => h c (mem_of_trimStart (List.mem_reverse.mp hc))

theorem trimEnd_append_blanks (hb : ∀ c ∈ b, isBlank c = true) : trimEnd (s ++ b) = trimEnd s := by
  have hreverse : ∀ c ∈ b.reverse, isBlank c = true := fun c hc => hb c (List.mem_reverse.mp hc)
  have hstart := trimStart_blanks_append (s := s.reverse) hreverse
  unfold trimStart at hstart
  rw [trimEnd, List.reverse_append, hstart, trimEnd]

theorem trim_append_blanks (hb : ∀ c ∈ b, isBlank c = true) : trim (s ++ b) = trim s := by
  rw [trim, trimStart, List.dropWhile_append, trim, trimStart]
  split
  · next hblank =>
    rw [List.isEmpty_iff.mp hblank, List.dropWhile_eq_nil_iff.mpr hb]
  · exact trimEnd_append_blanks hb

@[simp] theorem trimmed_trimmed (s : String) : trimmed (trimmed s) = trimmed s := by
  rw [trimmed, trimmed, String.toList_ofList, trim_trim]

theorem getLast?_trimEnd_ne (hq : q ∉ s) : (trimEnd s).getLast? ≠ some q := by
  rw [getLast?_trimEnd]
  intro h
  exact hq (List.mem_reverse.mp (List.mem_of_find?_eq_some h))

/-- The last mark of a text ends it iff nothing but blanks is behind it. -/
theorem getLast?_trimEnd_append (hq : isBlank q = false) (ha : q ∉ a) :
    (trimEnd (s ++ q :: a)).getLast? = some q ↔ ∀ c ∈ a, isBlank c = true := by
  rw [getLast?_trimEnd, List.reverse_append, List.reverse_cons, List.append_assoc, List.find?_append,
    List.singleton_append, List.find?_cons_of_pos (by simp [hq]), Option.or_eq_some_iff]
  constructor
  · rintro (hfound | ⟨hnone, -⟩) c hc
    · exact absurd (List.mem_reverse.mp (List.mem_of_find?_eq_some hfound)) ha
    · simpa using List.find?_eq_none.mp hnone c (List.mem_reverse.mpr hc)
  · intro h
    refine .inr ⟨List.find?_eq_none.mpr fun c hc => ?_, rfl⟩
    simpa using h c (List.mem_reverse.mp hc)

/-! ## Lower case -/

/-- A character that is not its own lower case is one of these letters. -/
def upperLetters : List Char := (List.range' 65 26).map Char.ofNat

theorem toLower_cases (c : Char) : c.toLower = c ∨ c ∈ upperLetters := by
  unfold Char.toLower
  split
  · next hupper =>
    have hlow : 65 ≤ c.toNat := hupper.1
    have hhigh : c.toNat ≤ 90 := hupper.2
    exact .inr (List.mem_map.mpr ⟨c.toNat, by simp; omega, Char.ofNat_toNat c⟩)
  · exact .inl rfl

@[simp] theorem isBlank_toLower (c : Char) : isBlank c.toLower = isBlank c := by
  rcases toLower_cases c with heq | hupper
  · rw [heq]
  · have hall : upperLetters.all (fun c => isBlank c.toLower == isBlank c) = true := by decide +kernel
    exact beq_iff_eq.mp (List.all_eq_true.mp hall c hupper)

theorem utf8Size_toLower (c : Char) : c.toLower.utf8Size = c.utf8Size := by
  rcases toLower_cases c with heq | hupper
  · rw [heq]
  · have hall : upperLetters.all (fun c => c.toLower.utf8Size == c.utf8Size) = true := by
      decide +kernel
    exact beq_iff_eq.mp (List.all_eq_true.mp hall c hupper)

/-! ## Words -/

theorem words_blanks_append (ha : ∀ c ∈ a, isBlank c = true) : words (a ++ s) = words s := by
  induction a with
  | nil => rfl
  | cons c a ih =>
    have hc : isBlank c = true := ha c List.mem_cons_self
    rw [List.cons_append, words, if_pos hc]
    exact ih fun d hd => ha d (List.mem_cons_of_mem _ hd)

theorem words_append_blanks (hb : ∀ c ∈ b, isBlank c = true) : words (s ++ b) = words s := by
  induction s with
  | nil => exact (words_eq_nil_iff b).mpr (List.all_eq_true.mpr hb)
  | cons c s ih =>
    rw [List.cons_append, words, words, ih]
    cases s with
    | nil =>
      cases b with
      | nil => rfl
      | cons d b => simp [words]
    | cons d s => rfl

/-- Blanks around a text do not change its words. -/
theorem words_trim (s : List Char) : words (trim s) = words s := by
  obtain ⟨before, hs, hbefore⟩ := exists_blanks_trimStart s
  obtain ⟨behind, ht, hbehind⟩ := exists_trimEnd_blanks (trimStart s)
  calc words (trim s) = words (trim s ++ behind) := (words_append_blanks hbehind).symm
    _ = words (trimStart s) := by rw [trim, ← ht]
    _ = words (before ++ trimStart s) := (words_blanks_append hbefore).symm
    _ = words s := by rw [← hs]

/-- The case of letters does not matter to where words begin and end. -/
theorem words_map_toLower (s : List Char) :
    words (s.map Char.toLower) = (words s).map (·.map Char.toLower) := by
  induction s with
  | nil => rfl
  | cons c s ih =>
    rw [List.map_cons, words, words, isBlank_toLower, ih]
    split
    · rfl
    · cases s with
      | nil => rfl
      | cons d s =>
        cases words (d :: s) with
        | nil => rfl
        | cons w ws =>
          simp only [List.map_cons, List.head?_cons, isBlank_toLower]
          split <;> rfl

/-- The words are the text without its blanks. -/
theorem flatten_words (s : List Char) : (words s).flatten = s.filter fun c => !isBlank c := by
  induction s with
  | nil => rfl
  | cons c s ih =>
    cases hc : isBlank c with
    | true => simpa [words, hc] using ih
    | false =>
      rw [List.filter_cons_of_pos (by simp [hc]), ← ih, words, if_neg (by simp [hc])]
      split
      · next hwords =>
        rw [hwords]
        split <;> rfl
      · rfl

/-! ## Cuts -/

theorem cutFirst_append (ha : q ∉ a) : cutFirst q (a ++ q :: b) = some (a, b) := by
  induction a with
  | nil => simp [cutFirst]
  | cons c a ih =>
    simp only [List.mem_cons, not_or] at ha
    simp [cutFirst, Ne.symm ha.1, ih ha.2]

theorem cutLast_append (hb : q ∉ b) : cutLast q (a ++ q :: b) = some (a, b) := by
  induction a with
  | nil => simp [cutLast, cutLast_eq_none_iff.mpr hb]
  | cons c a ih => rw [List.cons_append, cutLast, ih]

theorem doubledCuts_cons (hc : c ≠ q) :
    doubledCuts q (c :: s) = (doubledCuts q s).map fun p => (c :: p.1, p.2) := by
  cases s with
  | nil => rfl
  | cons d s => rw [doubledCuts, if_neg fun h => hc h.1]

/-- The mark stands nowhere twice in a row. -/
def Undoubled (q : Char) (s : List Char) : Prop := s.IsChain fun c d => ¬(c = q ∧ d = q)

theorem undoubled_of_notMem (hs : q ∉ s) : Undoubled q s := by
  refine List.Pairwise.isChain (List.pairwise_iff_forall_sublist.mpr fun {c d} hsub hboth => hs ?_)
  rw [← hboth.1]
  exact hsub.mem List.mem_cons_self

theorem undoubled_iff : Undoubled q s ↔ ¬[q, q] <:+: s := by
  unfold Undoubled
  rw [List.isChain_iff_forall_rel_of_append_cons_cons]
  constructor
  · rintro h ⟨before, behind, rfl⟩
    have hsplit : before ++ [q, q] ++ behind = before ++ q :: q :: behind := by simp
    exact h hsplit ⟨rfl, rfl⟩
  · rintro h c d before behind rfl ⟨rfl, rfl⟩
    exact h ⟨before, behind, by simp⟩

/-- Two texts that another character parts. -/
theorem Undoubled.append_cons (ha : Undoubled q a) (hb : Undoubled q b) (hc : c ≠ q) :
    Undoubled q (a ++ c :: b) := by
  refine List.isChain_append.mpr ⟨ha, List.isChain_cons.mpr ⟨fun d _ hboth => hc hboth.1, hb⟩, ?_⟩
  intro d _ e he hboth
  obtain rfl : c = e := by simpa using he
  exact hc hboth.2

/-- A text in which the mark is not doubled is not cut. -/
theorem Undoubled.doubledCuts_eq_nil (hs : Undoubled q s) : doubledCuts q s = [] := by
  induction s with
  | nil => rfl
  | cons c s ih =>
    cases s with
    | nil => rfl
    | cons d s =>
      obtain ⟨hfirst, hrest⟩ := List.isChain_cons_cons.mp hs
      rw [doubledCuts, if_neg hfirst, ih hrest]
      rfl

theorem doubledCuts_eq_nil (hs : q ∉ s) : doubledCuts q s = [] :=
  (undoubled_of_notMem hs).doubledCuts_eq_nil

/-- The first cut is at the first place where the mark is doubled. -/
theorem Undoubled.doubledCuts_append (ha : Undoubled q a) (hend : a.getLast? ≠ some q) :
    ∃ later, doubledCuts q (a ++ q :: q :: b) = (a, b) :: later := by
  induction a with
  | nil => exact ⟨_, by rw [List.nil_append, doubledCuts, if_pos ⟨rfl, rfl⟩]⟩
  | cons c a ih =>
    cases a with
    | nil =>
      have hc : c ≠ q := fun hc => hend (congrArg some hc)
      obtain ⟨later, hlater⟩ := ih .nil nofun
      exact ⟨_, by rw [List.cons_append, doubledCuts_cons hc, hlater, List.map_cons]⟩
    | cons d a =>
      obtain ⟨hfirst, hrest⟩ := List.isChain_cons_cons.mp ha
      obtain ⟨later, hlater⟩ := ih hrest (by simpa using hend)
      exact ⟨_, by rw [List.cons_append, List.cons_append, doubledCuts, if_neg hfirst,
        ← List.cons_append, hlater, List.map_cons]⟩

theorem doubledCuts_append (ha : q ∉ a) :
    ∃ later, doubledCuts q (a ++ q :: q :: b) = (a, b) :: later :=
  (undoubled_of_notMem ha).doubledCuts_append fun hend => ha (List.mem_of_getLast? hend)

theorem mem_doubledCuts (h : p ∈ doubledCuts q s) : s = p.1 ++ q :: q :: p.2 := by
  fun_induction doubledCuts q s generalizing p with
  | case1 c d s hmarks ih =>
    obtain ⟨rfl, rfl⟩ := hmarks
    rcases List.mem_cons.mp h with rfl | h
    · rfl
    · obtain ⟨p', hp', rfl⟩ := List.mem_map.mp h
      simp [ih hp']
  | case2 c d s hmarks ih =>
    obtain ⟨p', hp', rfl⟩ := List.mem_map.mp h
    simp [ih hp']
  | case3 => cases h

end CatalogQuery.Text
