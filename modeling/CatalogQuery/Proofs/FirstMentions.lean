import Mathlib.Data.List.Induction
import Mathlib.Data.List.Nodup

/-!
# First mentions

Lists in which something is kept only where it is mentioned first.

* `eraseDups_concat`, `nodup_eraseDups`: each element once, in the order of first mention;
* `firsts`: of the elements with one key the first, in the order of first mention of the keys;
* `firsts_append`, `firsts_eq_map`: which elements these are;
* `foldl_keepFirst`, `foldl_keepNew`: what is kept by adding one by one what is new.
-/

namespace CatalogQuery

variable {α β : Type}

section Elements

variable [BEq α] [LawfulBEq α]

theorem eraseDups_concat (xs : List α) (x : α) :
    (xs ++ [x]).eraseDups = if x ∈ xs then xs.eraseDups else xs.eraseDups ++ [x] := by
  rw [List.eraseDups_append]
  by_cases hx : x ∈ xs
  · simp [List.removeAll, hx]
  · simp [List.removeAll, hx, List.eraseDups_cons]

theorem nodup_eraseDups (xs : List α) : xs.eraseDups.Nodup := by
  induction xs using List.reverseRecOn with
  | nil => exact .nil
  | append_singleton xs x ih =>
    rw [eraseDups_concat]
    split
    · exact ih
    · next hx =>
      refine List.nodup_append.mpr ⟨ih, by simp, fun y hy z hz e => hx ?_⟩
      rw [← List.mem_singleton.mp hz, ← e]
      exact List.mem_eraseDups.mp hy

theorem eraseDups_eq_nil {xs : List α} : xs.eraseDups = [] ↔ xs = [] := by
  simp only [List.eq_nil_iff_forall_not_mem, List.mem_eraseDups]

end Elements

/-! ## Elements with keys -/

section Keys

variable [DecidableEq α] {key : β → α} {xs : List β} {x : β} {k : α}

/-- Of the elements with one key the first, in the order of first mention of the keys. -/
def firsts (key : β → α) (xs : List β) : List β :=
  (xs.map key).eraseDups.filterMap fun k => xs.find? (key · == k)

/-- A key that is mentioned has a first mention. -/
theorem exists_first (hk : k ∈ xs.map key) : ∃ y, xs.find? (key · == k) = some y ∧ key y = k := by
  obtain ⟨y, hy, rfl⟩ := List.mem_map.mp hk
  have hsome : (xs.find? (key · == key y)).isSome := by
    rw [List.find?_isSome]
    exact ⟨y, hy, by simp⟩
  obtain ⟨z, hz⟩ := Option.isSome_iff_exists.mp hsome
  exact ⟨z, hz, by simpa using List.find?_some hz⟩

theorem mem_of_mem_firsts (h : x ∈ firsts key xs) : x ∈ xs := by
  obtain ⟨k, -, hx⟩ := List.mem_filterMap.mp h
  exact List.mem_of_find?_eq_some hx

theorem map_firsts (key : β → α) (xs : List β) : (firsts key xs).map key = (xs.map key).eraseDups := by
  have hkeys : ∀ k ∈ (xs.map key).eraseDups, ((xs.find? (key · == k)).map key) = some k := by
    intro k hk
    obtain ⟨y, hy, rfl⟩ := exists_first (List.mem_eraseDups.mp hk)
    rw [hy, Option.map_some]
  rw [firsts, List.map_filterMap, List.filterMap_congr hkeys, List.filterMap_some]

theorem firsts_concat (key : β → α) (xs : List β) (x : β) :
    firsts key (xs ++ [x]) =
      if key x ∈ xs.map key then firsts key xs else firsts key xs ++ [x] := by
  -- The first mention of a key stays where it is.
  have hold : ∀ k ∈ (xs.map key).eraseDups,
      (xs ++ [x]).find? (key · == k) = xs.find? (key · == k) := by
    intro k hk
    obtain ⟨y, hy, -⟩ := exists_first (List.mem_eraseDups.mp hk)
    rw [List.find?_append, hy, Option.some_or]
  rw [firsts, List.map_append, List.map_singleton, eraseDups_concat]
  split
  · rw [List.filterMap_congr hold, firsts]
  · next hnew =>
    have hnone : xs.find? (key · == key x) = none := by
      rw [List.find?_eq_none]
      exact fun y hy heq => hnew (List.mem_map.mpr ⟨y, hy, by simpa using heq⟩)
    rw [List.filterMap_append, List.filterMap_congr hold, firsts]
    simp [List.find?_append, hnone]

/-- Behind other elements only those with new keys matter. -/
theorem firsts_append (key : β → α) (xs ys : List β) :
    firsts key (xs ++ ys) = firsts key xs ++ firsts key (ys.filter fun y => key y ∉ xs.map key) := by
  induction ys using List.reverseRecOn with
  | nil => simp [firsts]
  | append_singleton ys y ih =>
    rw [← List.append_assoc, firsts_concat, ih, List.map_append, List.filter_append]
    by_cases hxs : key y ∈ xs.map key
    · rw [List.filter_cons_of_neg (by simpa using hxs), List.filter_nil, List.append_nil,
        if_pos (List.mem_append_left _ hxs)]
    · have hys : key y ∈ (ys.filter fun y => key y ∉ xs.map key).map key ↔ key y ∈ ys.map key := by
        simp only [List.mem_map, List.mem_filter, decide_eq_true_eq]
        constructor
        · rintro ⟨z, ⟨hz, -⟩, heq⟩
          exact ⟨z, hz, heq⟩
        · rintro ⟨z, hz, heq⟩
          exact ⟨z, ⟨hz, heq ▸ by simpa using hxs⟩, heq⟩
      rw [List.filter_cons_of_pos (by simpa using hxs), List.filter_nil, firsts_concat]
      simp only [List.mem_append, hxs, false_or, hys]
      split
      · rfl
      · rw [List.append_assoc]

/-- Where it is known what is mentioned first with each key. -/
theorem firsts_eq_map {f : α → β} (h : ∀ k ∈ xs.map key, xs.find? (key · == k) = some (f k)) :
    firsts key xs = (xs.map key).eraseDups.map f := by
  rw [firsts, List.filterMap_congr fun k hk => h k (List.mem_eraseDups.mp hk)]
  exact congrFun List.filterMap_eq_map' _

/-- Adding what has a new key keeps the first of each key. -/
theorem foldl_keepFirst (key : β → α) (xs : List β) :
    xs.foldl (fun done x => if done.any (key · == key x) then done else done ++ [x]) []
      = firsts key xs := by
  induction xs using List.reverseRecOn with
  | nil => rfl
  | append_singleton xs x ih =>
    have hmem : (firsts key xs).any (key · == key x) = true ↔ key x ∈ xs.map key := by
      rw [← List.mem_eraseDups, ← map_firsts, List.any_eq_true]
      simp
    rw [List.foldl_append, ih, List.foldl_cons, List.foldl_nil, firsts_concat]
    simp only [hmem]

/-- Adding what is new keeps each element once. -/
theorem foldl_keepNew (xs : List α) :
    xs.foldl (fun done x => if done.contains x then done else done ++ [x]) [] = xs.eraseDups := by
  induction xs using List.reverseRecOn with
  | nil => rfl
  | append_singleton xs x ih =>
    rw [List.foldl_append, ih, List.foldl_cons, List.foldl_nil, eraseDups_concat]
    simp only [List.contains_iff_mem, List.mem_eraseDups]

end Keys

end CatalogQuery
