import Mathlib.Data.List.Forall2

/-!
# Lists side by side

Two lists whose members are related one by one: what is known of one list from the other.

* `exists_of_forall₂`, `exists_right_of_forall₂`: the partner of a member;
* `getElem?_of_forall₂`: the partner at a position;
* `exists_forall₂`: partners for all members;
* `append_left_of_forall₂`: the partners of two lists one behind the other;
* `all_eq_of_forall₂`, `any_eq_of_forall₂`: tests that agree on partners.
-/

namespace CatalogQuery

variable {α β : Type} {R : α → β → Prop} {p : α → Bool} {q : β → Bool} {xs : List α} {ys : List β}

theorem exists_of_forall₂ {y : β} (h : List.Forall₂ R xs ys) (hy : y ∈ ys) : ∃ x ∈ xs, R x y := by
  induction h with
  | nil => cases hy
  | @cons x y' xs ys hxy _ ih =>
    rcases List.mem_cons.mp hy with rfl | hy
    · exact ⟨x, List.mem_cons_self, hxy⟩
    · obtain ⟨x', hx', hxy'⟩ := ih hy
      exact ⟨x', List.mem_cons_of_mem _ hx', hxy'⟩

theorem getElem?_of_forall₂ {j : Nat} {y : β} (h : List.Forall₂ R xs ys) (hy : ys[j]? = some y) :
    ∃ x, xs[j]? = some x ∧ R x y := by
  induction h generalizing j with
  | nil => cases hy
  | @cons x y' xs ys hxy _ ih =>
    cases j with
    | zero =>
      cases hy
      exact ⟨x, rfl, hxy⟩
    | succ j => exact ih hy

theorem exists_right_of_forall₂ {x : α} (h : List.Forall₂ R xs ys) (hx : x ∈ xs) :
    ∃ y ∈ ys, R x y :=
  exists_of_forall₂ (R := flip R) (List.Forall₂.flip h) hx

theorem exists_forall₂ (h : ∀ x ∈ xs, ∃ y, R x y) : ∃ ys, List.Forall₂ R xs ys := by
  induction xs with
  | nil => exact ⟨[], .nil⟩
  | cons x xs ih =>
    obtain ⟨y, hy⟩ := h x List.mem_cons_self
    obtain ⟨ys, hys⟩ := ih fun x' hx' => h x' (List.mem_cons_of_mem _ hx')
    exact ⟨y :: ys, .cons hy hys⟩

theorem append_left_of_forall₂ {us : List α} (h : List.Forall₂ R (us ++ xs) ys) :
    ∃ vs ws, ys = vs ++ ws ∧ List.Forall₂ R us vs ∧ List.Forall₂ R xs ws := by
  induction us generalizing ys with
  | nil => exact ⟨[], ys, rfl, .nil, h⟩
  | cons u us ih =>
    obtain ⟨y, ys, hy, hys, rfl⟩ := List.forall₂_cons_left_iff.mp h
    obtain ⟨vs, ws, rfl, hvs, hws⟩ := ih hys
    exact ⟨y :: vs, ws, rfl, .cons hy hvs, hws⟩

theorem all_eq_of_forall₂ (h : List.Forall₂ (fun x y => p x = q y) xs ys) : xs.all p = ys.all q := by
  induction h with
  | nil => rfl
  | cons hxy _ ih => rw [List.all_cons, List.all_cons, hxy, ih]

theorem any_eq_of_forall₂ (h : List.Forall₂ (fun x y => p x = q y) xs ys) : xs.any p = ys.any q := by
  induction h with
  | nil => rfl
  | cons hxy _ ih => rw [List.any_cons, List.any_cons, hxy, ih]

end CatalogQuery
