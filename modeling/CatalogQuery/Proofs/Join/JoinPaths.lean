import CatalogQuery.Proofs.Join.JoinClauses
import CatalogQuery.Proofs.Schema.Forest
import CatalogQuery.Proofs.Schema.SimplePaths

/-!
# Joins are paths

In a forest the links of a join tree are those of the paths between its required tables. A path
along the tree that ends at another table can be made longer, since the tree has no dead ends; so
every link lies between two required tables.

* `IsJoinTree.exists_longer`: a path to a table that is not required goes on;
* `IsJoinTree.exists_required`: so every path goes on to a required table;
* `IsJoinTree.mem_iff`: the links of a join tree are the union of the paths.
-/

namespace CatalogQuery.Schema

variable {s : Schema} {E : LinkId → Prop} {required ts : List TableId} {links ls : List LinkId}
  {l m : LinkId} {t u v : TableId}

/-- A path that takes a link comes by ends of its links only. -/
theorem Path.touched (h : s.Path E t ts ls u) (hne : ls ≠ []) (hv : v ∈ ts) :
    ∃ l ∈ ls, ∃ w, s.Joins l v w := by
  induction h with
  | nil t => exact absurd rfl hne
  | @cons l ls t x _ ts _ hl _ hrest ih =>
    rcases List.mem_cons.mp hv with rfl | hv
    · exact ⟨l, List.mem_cons_self, x, hl⟩
    · by_cases hnil : ls = []
      · subst hnil
        cases hrest with
        | nil =>
          rw [List.mem_singleton.mp hv]
          exact ⟨l, List.mem_cons_self, t, hl.symm⟩
      · obtain ⟨k, hk, w, hw⟩ := ih hnil hv
        exact ⟨k, List.mem_cons_of_mem _ hk, w, hw⟩

/-- Of two links at a table, one is another than `m`. -/
theorem exists_touches_ne (hn : links.Nodup) (h : 2 ≤ s.degree links t) (m : LinkId) :
    ∃ l ∈ links, l ≠ m ∧ ∃ u, s.Joins l t u := by
  by_contra hnone
  have honly : links.filter (s.touches t) ⊆ [m] := by
    intro l hl
    obtain ⟨hmem, htouches⟩ := List.mem_filter.mp hl
    obtain ⟨u, hu⟩ := touches_iff.mp htouches
    by_contra hne
    exact hnone ⟨l, hmem, fun heq => hne (heq ▸ List.mem_cons_self), u, hu⟩
  have hle := (List.subperm_of_subset (hn.filter _) honly).length_le
  rw [degree, List.countP_eq_length_filter] at h
  rw [List.length_singleton] at hle
  omega

namespace IsJoinTree

theorem mem_tables_of_required (ht : t ∈ required) : t ∈ s.treeTables required links :=
  mem_treeTables.mpr (.inl ht)

theorem mem_tables_of_joins (hl : l ∈ links) (hj : s.Joins l t u) :
    t ∈ s.treeTables required links :=
  mem_treeTables.mpr (.inr (mem_linkEnds.mpr ⟨l, hl, u, hj⟩))

/-- A path along the tree to a table that is not required goes on by another link. -/
theorem exists_longer (htree : s.IsJoinTree required links)
    (h : s.Path (· ∈ links) t ts ls u) (hne : ls ≠ []) (ht : t ∉ required) :
    ∃ v l, s.Path (· ∈ links) v (v :: ts) (l :: ls) u := by
  cases h with
  | nil => exact absurd rfl hne
  | @cons m ls _ x _ ts hm hj hout hrest =>
    have hdegree := htree.passes t (mem_tables_of_joins hm hj) ht
    obtain ⟨l, hl, hlm, v, hv⟩ := exists_touches_ne htree.nodup hdegree m
    have hpath : s.Path (· ∈ links) t (t :: ts) (m :: ls) u := .cons hm hj hout hrest
    have hlout : l ∉ m :: ls := by
      intro hmem
      rcases List.mem_cons.mp hmem with rfl | hmem
      · exact hlm rfl
      · exact hout (hrest.ends_mem hmem hv).1
    have hnew : v ∉ t :: ts := by
      -- Otherwise the path itself is a detour around the new link.
      intro hmem
      have hdetour : s.Connected (fun k => k ∈ links ∧ k ≠ l) v t :=
        ((hpath.connected_of_mem hmem).mono fun k hk =>
          ⟨hpath.along k hk, fun hkl => hlout (hkl ▸ hk)⟩).symm
      exact not_acyclic_of_detour (E := (· ∈ links)) hv hl hdetour htree.acyclic
    exact ⟨v, l, .cons hl hv.symm hnew hpath⟩

theorem length_le (required : List TableId) (hpath : s.Path (· ∈ links) t ts ls u) (hne : ls ≠ []) :
    ts.length ≤ (s.treeTables required links).length := by
  have hsub : ts ⊆ s.treeTables required links := by
    intro v hv
    obtain ⟨l, hl, w, hw⟩ := hpath.touched hne hv
    exact mem_tables_of_joins (hpath.along l hl) hw
  exact (List.subperm_of_subset hpath.nodup hsub).length_le

/-- A path along the tree goes on to a required table. -/
theorem exists_required (htree : s.IsJoinTree required links)
    (h : s.Path (· ∈ links) t ts ls u) (hne : ls ≠ []) :
    ∃ v us ms, s.Path (· ∈ links) v us ms u ∧ v ∈ required ∧ ls ⊆ ms := by
  -- The induction is on the number of tables that the path may still come by.
  have hgo : ∀ n t ts ls, (s.treeTables required links).length ≤ ts.length + n →
      s.Path (· ∈ links) t ts ls u → ls ≠ [] →
      ∃ v us ms, s.Path (· ∈ links) v us ms u ∧ v ∈ required ∧ ls ⊆ ms := by
    intro n
    induction n with
    | zero =>
      intro t ts ls hn hpath hne
      by_cases ht : t ∈ required
      · exact ⟨t, ts, ls, hpath, ht, fun _ h => h⟩
      · obtain ⟨v, l, hlonger⟩ := htree.exists_longer hpath hne ht
        have hle := length_le required hlonger (by simp)
        rw [List.length_cons] at hle
        omega
    | succ n ih =>
      intro t ts ls hn hpath hne
      by_cases ht : t ∈ required
      · exact ⟨t, ts, ls, hpath, ht, fun _ h => h⟩
      · obtain ⟨v, l, hlonger⟩ := htree.exists_longer hpath hne ht
        obtain ⟨w, us, ms, hfound, hw, hsub⟩ := ih v _ _ (by simp; omega) hlonger (by simp)
        exact ⟨w, us, ms, hfound, hw, fun k hk => hsub (List.mem_cons_of_mem _ hk)⟩
  exact hgo _ t ts ls (Nat.le_add_left _ _) h hne

/-- Without a required cycler, all links of the tree are ordinary. -/
theorem ordinary (htree : s.IsJoinTree required links)
    (hplain : ∀ t ∈ required, s.isCycler t = false) (hl : l ∈ links) : s.Ordinary l := by
  have hnone : ∀ v w, s.Joins l v w → s.isCycler v = false := by
    intro v w hj
    by_contra hcycler
    rw [Bool.not_eq_false] at hcycler
    have hv := (htree.ends v (mem_tables_of_joins hl hj) hcycler).1
    rw [hplain v hv] at hcycler
    cases hcycler
  have hlink := htree.registered l hl
  have hj : s.Joins l s.links[l].left s.links[l].right :=
    ⟨_, List.getElem?_eq_getElem hlink, .inl ⟨rfl, rfl⟩⟩
  exact ⟨_, _, hj, hnone _ _ hj, hnone _ _ hj.symm⟩

/-- The links of a join tree are those of the paths between its required tables. -/
theorem mem_iff (hs : s.WellFormed) (hforest : s.IsForest) (htree : s.IsJoinTree required links)
    (hplain : ∀ t ∈ required, s.isCycler t = false) :
    l ∈ links ↔
      ∃ t ∈ required, ∃ u ∈ required, ∃ ms, s.PathLinks s.Ordinary t ms u ∧ l ∈ ms := by
  constructor
  · intro hl
    have hlink := htree.registered l hl
    have hj : s.Joins l s.links[l].left s.links[l].right :=
      ⟨_, List.getElem?_eq_getElem hlink, .inl ⟨rfl, rfl⟩⟩
    have hone : s.Path (· ∈ links) _ _ [l] _ :=
      .cons hl hj (by simpa using hj.ne hs) (.nil _)
    -- First one end of the link goes on to a required table, then the other.
    obtain ⟨t, ts, ks, ht, hrequired, hsub⟩ := htree.exists_required hone (by simp)
    have hks : ks.reverse ≠ [] := by
      intro hnil
      have hmem := hsub List.mem_cons_self
      simp [List.reverse_eq_nil_iff.mp hnil] at hmem
    obtain ⟨u, us, ms, hu, hrequired', hsub'⟩ := htree.exists_required ht.reverse hks
    refine ⟨u, hrequired', t, hrequired, ms, ⟨us, hu.mono fun k hk => ?_⟩, ?_⟩
    · exact htree.ordinary hplain (hu.along k hk)
    · exact hsub' (List.mem_reverse.mpr (hsub List.mem_cons_self))
  · rintro ⟨t, ht, u, hu, ms, hms, hl⟩
    have hconnected := htree.connected t (mem_tables_of_required ht) u (mem_tables_of_required hu)
    obtain ⟨ks, ts, hpath⟩ := hconnected.exists_path
    have hordinary : s.PathLinks s.Ordinary t ks u :=
      ⟨ts, hpath.mono fun k hk => htree.ordinary hplain (hpath.along k hk)⟩
    rw [hms.unique hforest hordinary] at hl
    exact hpath.along l hl

end IsJoinTree

end CatalogQuery.Schema
