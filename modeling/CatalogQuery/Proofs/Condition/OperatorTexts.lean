import CatalogQuery.Condition.Grammar
import CatalogQuery.Proofs.Text.Cuts

/-!
# Texts of operators

The text before a literal names an operator by its words. So it is made of the letters of these words
and of blanks, holds neither quote nor connective, and is no mark of a numeric condition.

* `Operator.letters_of_parse`: the letters of a text that spells an operator;
* `Operator.notMem_of_parse`: what such a text does not hold;
* `stripNumeric_of_parse`, `stripNumeric_append`: when a mark is taken off;
* `startsWithOperator_append`: when what stands before a quote is an operator.
-/

namespace CatalogQuery

open Text

namespace Operator

variable {s : List Char} {o : Operator} {c : Char}

theorem parse_eq_some (h : parse s = some o) :
    (words s).map (fun w => String.ofList (w.map Char.toLower)) ∈ o.spellings := by
  have hfound := List.find?_some h
  simpa using hfound

/-- The letters of a text that spells an operator, blanks left out. -/
theorem letters_of_parse (h : parse s = some o) : ∃ spelling ∈ o.spellings,
    (s.filter fun c => !isBlank c).map Char.toLower = spelling.flatMap String.toList := by
  refine ⟨_, parse_eq_some h, ?_⟩
  rw [← flatten_words, List.flatMap_map]
  simp [List.flatMap, List.map_flatten]

theorem parse_trim (s : List Char) : parse (trim s) = parse s := by
  rw [parse, words_trim, parse]

theorem notMem_of_parse (h : parse s = some o) (hc : isBlank c = false)
    (hfree : ∀ o ∈ all, ∀ spelling ∈ o.spellings, c.toLower ∉ spelling.flatMap String.toList) :
    c ∉ s := by
  intro hmem
  obtain ⟨spelling, hspelling, hletters⟩ := letters_of_parse h
  refine hfree o (mem_all o) spelling hspelling ?_
  rw [← hletters]
  exact List.mem_map.mpr ⟨c, List.mem_filter.mpr ⟨hmem, by simp [hc]⟩, rfl⟩

theorem quote_notMem (h : parse s = some o) : '\'' ∉ s :=
  notMem_of_parse h (by decide) (by decide +kernel)

/-- Neither connective is part of an operator. -/
theorem mark_notMem (h : parse s = some o) (hc : c = '|' ∨ c = '&') : c ∉ s := by
  rcases hc with rfl | rfl <;> exact notMem_of_parse h (by decide) (by decide +kernel)

end Operator

namespace Condition

variable {s r : List Char} {o : Operator} {c : Char}

theorem stripNumeric_eq_cons {r : List Char} (hc : c = '<' ∨ c = '>' ∨ c = '=') :
    stripNumeric ('n' :: c :: r) = (true, c :: r) := by
  simp [stripNumeric, hc]

/-- Nothing is taken off but an `n` right before a sign of comparison. -/
theorem stripNumeric_cases (s : List Char) :
    (∃ c r, (c = '<' ∨ c = '>' ∨ c = '=') ∧ s = 'n' :: c :: r) ∨ stripNumeric s = (false, s) := by
  unfold stripNumeric
  split
  · split
    · next hc => exact .inl ⟨_, _, hc, rfl⟩
    · exact .inr rfl
  · exact .inr rfl

theorem mem_of_stripNumeric (h : c ∈ (stripNumeric s).2) : c ∈ s := by
  rcases stripNumeric_cases s with ⟨d, r, hd, rfl⟩ | hnone
  · rw [stripNumeric_eq_cons hd] at h
    exact List.mem_cons_of_mem _ h
  · rwa [hnone] at h

/-- The mark is found alike whatever is behind a quote. -/
theorem stripNumeric_append (s r : List Char) : stripNumeric (s ++ '\'' :: r) =
    ((stripNumeric s).1, (stripNumeric s).2 ++ '\'' :: r) := by
  rcases stripNumeric_cases s with ⟨d, rest, hd, rfl⟩ | hnone
  · rw [stripNumeric_eq_cons hd, List.cons_append, List.cons_append, stripNumeric_eq_cons hd]
  · rw [hnone]
    rcases stripNumeric_cases (s ++ '\'' :: r) with ⟨d, rest, hd, heq⟩ | hstill
    · match s, heq with
      | [], heq => cases heq
      | [a], heq =>
        obtain ⟨-, rfl, -⟩ : a = 'n' ∧ '\'' = d ∧ r = rest := by simpa using heq
        simp at hd
      | a :: b :: s, heq =>
        obtain ⟨rfl, rfl, -⟩ : a = 'n' ∧ b = d ∧ s ++ '\'' :: r = rest := by simpa using heq
        rw [stripNumeric_eq_cons hd] at hnone
        cases hnone
    · exact hstill

/-- No operator begins like the mark of a numeric condition. -/
theorem stripNumeric_of_parse (h : Operator.parse s = some o) :
    stripNumeric (trimStart s) = (false, trimStart s) := by
  rcases stripNumeric_cases (trimStart s) with ⟨c, r, hc, heq⟩ | hnone
  · obtain ⟨blanks, hs, hblanks⟩ := exists_blanks_trimStart s
    obtain ⟨spelling, hspelling, hletters⟩ := Operator.letters_of_parse h
    have hnone : blanks.filter (fun c => !isBlank c) = [] :=
      List.filter_eq_nil_iff.mpr fun d hd => by simp [hblanks d hd]
    have hplain : isBlank 'n' = false ∧ isBlank c = false := by
      rcases hc with rfl | rfl | rfl <;> decide
    have hlower : c.toLower = c := by
      rcases hc with rfl | rfl | rfl <;> decide
    rw [hs, heq, List.filter_append, hnone, List.nil_append,
      List.filter_cons_of_pos (by simp [hplain]), List.filter_cons_of_pos (by simp [hplain]),
      List.map_cons, List.map_cons, hlower] at hletters
    have hsecond : (spelling.flatMap String.toList)[1]? = some c := by rw [← hletters]; rfl
    have hfirst : (spelling.flatMap String.toList)[0]? = some 'n' := by rw [← hletters]; rfl
    have hall : ∀ o ∈ Operator.all, ∀ spelling ∈ o.spellings,
        (spelling.flatMap String.toList)[0]? = some 'n' →
        (spelling.flatMap String.toList)[1]? = some 'o' := by decide +kernel
    have ho := hall o (Operator.mem_all o) spelling hspelling hfirst
    rw [hsecond] at ho
    rcases hc with rfl | rfl | rfl <;> cases ho
  · exact hnone

/-- The text spells an operator, after an optional mark of numbers. -/
def SpellsOperator (s : List Char) : Prop :=
  (Operator.parse (stripNumeric (trimStart s)).2).isSome = true

instance (s : List Char) : Decidable (SpellsOperator s) := inferInstanceAs (Decidable (_ = true))

theorem startsWithOperator_append (hs : '\'' ∉ s) :
    startsWithOperator (s ++ '\'' :: r) = true ↔ SpellsOperator s := by
  have hrest : '\'' ∉ (stripNumeric (trimStart s)).2 :=
    fun h => hs (mem_of_trimStart (mem_of_stripNumeric h))
  unfold startsWithOperator SpellsOperator
  rw [trimStart_append (by decide), stripNumeric_append, cutFirst_append hrest]

end Condition

end CatalogQuery
