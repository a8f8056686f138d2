/-!
# Cutting texts at marks

Cuts of a list of characters at the first or last occurrence of a mark, and at the places where a
mark stands twice.

* `cutFirst_eq_some`, `cutLast_eq_some`: a cut gives back the text with the mark between its parts.
-/

namespace CatalogQuery.Text

/-- What stands before and after the first `q`. -/
def cutFirst (q : Char) : List Char → Option (List Char × List Char)
  | [] => none
  | c :: r => if c = q then some ([], r) else (cutFirst q r).map fun p => (c :: p.1, p.2)

/-- What stands before and after the last `q`. -/
def cutLast (q : Char) : List Char → Option (List Char × List Char)
  | [] => none
  | c :: r =>
    match cutLast q r with
    | some p => some (c :: p.1, p.2)
    | none => if c = q then some ([], r) else none

/-- All cuts at a single `q`, from left to right. -/
def cuts (q : Char) : List Char → List (List Char × List Char)
  | [] => []
  | c :: r =>
    let later := (cuts q r).map fun p => (c :: p.1, p.2)
    if c = q then ([], r) :: later else later

/-- All cuts at a doubled `q`, from left to right. Pairs do not overlap: of three marks in a row
the first two are a pair. -/
def doubledCuts (q : Char) : List Char → List (List Char × List Char)
  | a :: b :: r =>
    if a = q ∧ b = q then
      ([], r) :: (doubledCuts q r).map fun p => (a :: b :: p.1, p.2)
    else (doubledCuts q (b :: r)).map fun p => (a :: p.1, p.2)
  | _ => []

theorem cutFirst_eq_some {q : Char} {s : List Char} {p : List Char × List Char}
    (h : cutFirst q s = some p) : s = p.1 ++ q :: p.2 ∧ q ∉ p.1 := by
  induction s generalizing p with
  | nil => simp [cutFirst] at h
  | cons c r ih =>
    by_cases hc : c = q
    · simp [cutFirst, hc] at h
      subst h
      simp [hc]
    · simp only [cutFirst, hc, if_false, Option.map_eq_some_iff] at h
      obtain ⟨p', hp', rfl⟩ := h
      obtain ⟨h1, h2⟩ := ih hp'
      refine ⟨by simp [h1], ?_⟩
      simp only [List.mem_cons, not_or]
      exact ⟨fun e => hc e.symm, h2⟩

theorem cutLast_eq_none_iff {q : Char} {s : List Char} : cutLast q s = none ↔ q ∉ s := by
  induction s with
  | nil => simp [cutLast]
  | cons c r ih =>
    cases h : cutLast q r with
    | some p =>
      have : ¬ q ∉ r := fun hn => by simp [ih.mpr hn] at h
      simp only [cutLast, h]
      simp_all
    | none =>
      have hr := ih.mp h
      by_cases hc : c = q
      · simp [cutLast, h, hc]
      · have hq : ¬ q = c := fun e => hc e.symm
        simp [cutLast, h, hc, hq, hr]

theorem cutLast_eq_some {q : Char} {s : List Char} {p : List Char × List Char}
    (h : cutLast q s = some p) : s = p.1 ++ q :: p.2 ∧ q ∉ p.2 := by
  induction s generalizing p with
  | nil => simp [cutLast] at h
  | cons c r ih =>
    cases hr : cutLast q r with
    | some p' =>
      simp only [cutLast, hr, Option.some.injEq] at h
      subst h
      obtain ⟨h1, h2⟩ := ih hr
      exact ⟨by simp [h1], h2⟩
    | none =>
      by_cases hc : c = q
      · simp [cutLast, hr, hc] at h
        subst h
        exact ⟨by simp [hc], cutLast_eq_none_iff.mp hr⟩
      · simp [cutLast, hr, hc] at h

end CatalogQuery.Text
