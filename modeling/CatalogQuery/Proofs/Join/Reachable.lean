import CatalogQuery.Proofs.Join.SearchReach

/-!
# Required tables that can be reached

A set of required tables can be joined iff all of them are reached from one of them by paths that
pass through no cycler. Which one it is does not matter, nor does the order in which the tables were
asked for.

* `Reaches`: a path between two tables whose inner tables are no cyclers;
* `resolve_ok_iff_reaches`: when the search finds all required tables;
* `resolve_ok_of_same`: whoever asks for the same tables has them joined or not alike.
-/

namespace CatalogQuery.Schema

variable {s : Schema} {required : List TableId} {w : Search} {l : LinkId} {t u v : TableId}
  {entry : Option LinkId} {r r' : Requirements}

/-- A path leads from `t` to `u`, and none of its tables but the last is a cycler. -/
inductive Reaches (s : Schema) (t : TableId) : TableId → Prop where
  | refl : Reaches s t t
  | step {u v : TableId} {l : LinkId} : Reaches s t u → s.isCycler u = false → s.Joins l u v →
    Reaches s t v

theorem Reaches.trans (h : s.Reaches t u) (h' : s.Reaches u v) : s.Reaches t v := by
  induction h' with
  | refl => exact h
  | step _ hplain hj ih => exact .step ih hplain hj

/-- A path that does not end at a cycler may be walked back. -/
theorem Reaches.symm (h : s.Reaches t u) (hu : s.isCycler u = false) : s.Reaches u t := by
  induction h with
  | refl => exact .refl
  | step _ hplain hj ih => exact (Reaches.step .refl hu hj.symm).trans (ih hplain)

/-- No path leads away from a cycler. -/
theorem Reaches.eq_of_isCycler (h : s.Reaches t u) (ht : s.isCycler t = true) : u = t := by
  induction h with
  | refl => rfl
  | step _ hplain _ ih =>
    subst ih
    cases hplain.symm.trans ht

/-! ## The search -/

/-- A branch reaches nothing that no path leads to. -/
theorem reaches_of_scan {depth : Nat} (hv : v ∈ (s.scan required depth t entry w).2.reached) :
    v ∈ w.reached ∨ s.Reaches t v := by
  induction depth generalizing t entry w v with
  | zero => exact .inl hv
  | succ depth ih =>
    have hmark : ∀ {needed : Bool} {x : TableId}, x ∈ ((w.find needed).mark t).reached →
        x ∈ w.reached ∨ s.Reaches t x := by
      intro needed x hx
      rw [Search.reached_mark, Search.reached_find] at hx
      rcases List.mem_cons.mp hx with rfl | hx
      · exact .inr .refl
      · exact .inl hx
    rw [scan_succ] at hv
    by_cases hcycler : s.isCycler t = true
    · simp only [hcycler, if_true] at hv
      split at hv
      · exact hmark hv
      · exact .inl (Search.reached_find w _ ▸ hv)
    · simp only [Bool.not_eq_true] at hcycler
      simp only [hcycler, Bool.false_eq_true, if_false] at hv
      let Told (acc : Bool × Search) : Prop := ∀ x ∈ acc.2.reached, x ∈ w.reached ∨ s.Reaches t x
      have hstart : Told (required.contains t, (w.find (required.contains t)).mark t) :=
        fun x hx => hmark hx
      refine List.foldlRecOn (s.incident t) _ hstart (fun acc hacc next hnext x hx => ?_) v hv
      unfold follow at hx
      dsimp only at hx
      have hbehind : ∀ x ∈ (s.scan required depth next.2 (some next.1) acc.2).2.reached,
          x ∈ w.reached ∨ s.Reaches t x := by
        intro x hx
        rcases ih hx with hold | hreaches
        · exact hacc x hold
        · exact .inr ((Reaches.step .refl hcycler (mem_incident.mp hnext)).trans hreaches)
      split at hx
      · exact hacc x hx
      · split at hx
        · next heq =>
          rw [heq] at hbehind
          exact hbehind x hx
        · next heq =>
          rw [heq] at hbehind
          exact hbehind x hx

/-- As long as tables are missing, the search has reached all tables it marks that a path leads to. -/
theorem Searched.mem_of_reaches {n : Nat} {w' : Search} (h : s.Searched required t ⟨[], n, []⟩ w')
    (hmissing : 0 < w'.pending) (hreaches : s.Reaches t u) (hu : s.Marks required u) :
    u ∈ w'.reached := by
  induction hreaches with
  | refl => exact h.start hu
  | step _ hplain hj ih => exact h.closed hmissing (ih (.inl hplain)) (by simp) hplain hj hu

theorem startTable_isCycler (h : s.startTable required = some t) (ht : s.isCycler t = true)
    (hu : u ∈ required) : s.isCycler u = true := by
  unfold startTable at h
  rcases Option.or_eq_some_iff.mp h with hfound | ⟨hnone, -⟩
  · have hplain := List.find?_some hfound
    simp [ht] at hplain
  · have hall := List.find?_eq_none.mp hnone u hu
    simpa using hall

theorem reaches_of_search (hstart : s.startTable required = some t)
    (hu : u ∈ (s.search required).reached) : s.Reaches t u := by
  rw [search_eq hstart] at hu
  exact (reaches_of_scan hu).resolve_left (by simp)

/-- A search that misses a table has reached the required tables that paths lead to, and no others. -/
theorem mem_reached_iff (hs : s.WellFormed) (hr : r.Asked s)
    (hstart : s.startTable r.tables = some t) (hmissing : 0 < (s.search r.tables).pending)
    (hu : u ∈ r.tables) : u ∈ (s.search r.tables).reached ↔ s.Reaches t u :=
  ⟨reaches_of_search hstart, fun hreaches =>
    (searched_start hs hstart (hr.lt t (startTable_mem hstart))).mem_of_reaches hmissing hreaches
      (.inr hu)⟩

theorem resolve_ok_iff : (∃ ls, (s.resolve r).1 = .ok ls) ↔ (s.search r.tables).pending = 0 := by
  unfold resolve
  dsimp only
  split
  · next hpending => simp [Nat.ne_of_gt hpending]
  · next hpending => simpa using Nat.eq_zero_of_not_pos hpending

/-- The required tables are joined iff paths lead to all of them from where the search starts. -/
theorem resolve_ok_iff_reaches (hs : s.WellFormed) (hr : r.Asked s)
    (hstart : s.startTable r.tables = some t) :
    (∃ ls, (s.resolve r).1 = .ok ls) ↔ ∀ u ∈ r.tables, s.Reaches t u := by
  have htally := tally_search hstart
  rw [resolve_ok_iff]
  constructor
  · intro hnone u hu
    exact reaches_of_search hstart (htally.covers hnone hu)
  · intro hreaches
    by_contra hpos
    exact hpos (htally.pending_eq_zero hr.nodup fun u hu =>
      (mem_reached_iff hs hr hstart (Nat.pos_of_ne_zero hpos) hu).mpr (hreaches u hu))

/-- Whoever asks for the same tables, in whatever order, has them joined alike. -/
theorem resolve_ok_of_same (hs : s.WellFormed) (hr : r.Asked s) (hr' : r'.Asked s)
    (hsame : ∀ t, t ∈ r'.tables ↔ t ∈ r.tables) (h : ∃ ls, (s.resolve r).1 = .ok ls) :
    ∃ ls, (s.resolve r').1 = .ok ls := by
  by_cases hempty : r'.tables = []
  · have hnone : s.search r'.tables = ⟨[], 0, []⟩ := by
      rw [hempty]
      rfl
    exact ⟨[], by simp [resolve, hnone]⟩
  · obtain ⟨t', hstart'⟩ := startTable_isSome (s := s) hempty
    have ht' := (hsame t').mp (startTable_mem hstart')
    obtain ⟨t, hstart⟩ := startTable_isSome (s := s) (List.ne_nil_of_mem ht')
    have hreaches := (resolve_ok_iff_reaches hs hr hstart).mp h
    refine (resolve_ok_iff_reaches hs hr' hstart').mpr fun u hu => ?_
    have hu' := hreaches u ((hsame u).mp hu)
    cases hcycler : s.isCycler t' with
    | false => exact ((hreaches t' ht').symm hcycler).trans hu'
    | true =>
      -- All required tables are cyclers then, and there is one of them only.
      have ht : s.isCycler t = true :=
        startTable_isCycler hstart' hcycler ((hsame t).mpr (startTable_mem hstart))
      rw [hu'.eq_of_isCycler ht, (hreaches t' ht').eq_of_isCycler ht]
      exact .refl

end CatalogQuery.Schema
