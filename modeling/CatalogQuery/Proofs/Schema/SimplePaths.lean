import CatalogQuery.Proofs.Schema.LinkGraph

/-!
# Simple paths

A simple path comes by no table twice. Between connected tables there is one, and where the links
have no cycle there is no other.

* `Connected.exists_path`: a connection contains a simple path;
* `Path.unique`: without a cycle, simple paths with the same ends take the same links.
-/

namespace CatalogQuery.Schema

variable {s : Schema} {E F : LinkId → Prop} {l m : LinkId} {t u v : TableId}
  {ts us : List TableId} {ls ms : List LinkId}

/-- The way from table to table by the tables `ts`, none of them twice, along links of `E`. -/
inductive Path (s : Schema) (E : LinkId → Prop) :
    TableId → List TableId → List LinkId → TableId → Prop where
  | nil (t : TableId) : Path s E t [t] [] t
  | cons {l : LinkId} {ls : List LinkId} {t u v : TableId} {ts : List TableId} :
    E l → s.Joins l t u → t ∉ ts → Path s E u ts ls v → Path s E t (t :: ts) (l :: ls) v

/-- The links of a simple path from one table to another. -/
def PathLinks (s : Schema) (E : LinkId → Prop) (t : TableId) (ls : List LinkId) (u : TableId) :
    Prop :=
  ∃ ts, s.Path E t ts ls u

namespace Path

theorem walk (h : s.Path E t ts ls u) : s.Walk t ls u := by
  induction h with
  | nil t => exact .nil t
  | cons _ hl _ _ ih => exact .cons hl ih

theorem along (h : s.Path E t ts ls u) : ∀ l ∈ ls, E l := by
  induction h with
  | nil t => simp
  | cons hE _ _ _ ih => exact List.forall_mem_cons.mpr ⟨hE, ih⟩

theorem mono (h : s.Path E t ts ls u) (hEF : ∀ l ∈ ls, F l) : s.Path F t ts ls u := by
  induction h with
  | nil t => exact .nil t
  | cons _ hl ht _ ih =>
    exact .cons (hEF _ List.mem_cons_self) hl ht (ih fun k hk => hEF k (List.mem_cons_of_mem _ hk))

theorem nodup (h : s.Path E t ts ls u) : ts.Nodup := by
  induction h with
  | nil t => simp
  | cons _ _ ht _ ih => exact List.nodup_cons.mpr ⟨ht, ih⟩

theorem start_mem (h : s.Path E t ts ls u) : t ∈ ts := by
  cases h with
  | nil => exact List.mem_cons_self
  | cons => exact List.mem_cons_self

theorem end_mem (h : s.Path E t ts ls u) : u ∈ ts := by
  induction h with
  | nil t => exact List.mem_cons_self
  | cons _ _ _ _ ih => exact List.mem_cons_of_mem _ ih

/-- A path touches the tables it comes by only. -/
theorem ends_mem (h : s.Path E t ts ls u) (hl : l ∈ ls) (hj : s.Joins l v w) : v ∈ ts ∧ w ∈ ts := by
  induction h with
  | nil t => cases hl
  | @cons k ls t x _ ts _ hk ht hrest ih =>
    rcases List.mem_cons.mp hl with rfl | hl
    · rcases hk.ends hj with ⟨rfl, rfl⟩ | ⟨rfl, rfl⟩
      · exact ⟨List.mem_cons_self, List.mem_cons_of_mem _ hrest.start_mem⟩
      · exact ⟨List.mem_cons_of_mem _ hrest.start_mem, List.mem_cons_self⟩
    · exact ⟨List.mem_cons_of_mem _ (ih hl).1, List.mem_cons_of_mem _ (ih hl).2⟩

/-- A path to its start is none. -/
theorem eq_nil (h : s.Path E t ts ls t) : ls = [] := by
  cases h with
  | nil => rfl
  | cons _ _ ht hrest => exact absurd hrest.end_mem ht

/-- Each table of a path is connected to its start by links of the path. -/
theorem connected_of_mem (h : s.Path E t ts ls u) (hv : v ∈ ts) : s.Connected (· ∈ ls) t v := by
  induction h with
  | nil t =>
    rw [List.mem_singleton.mp hv]
    exact .refl t
  | @cons l ls t x _ ts _ hl _ _ ih =>
    rcases List.mem_cons.mp hv with rfl | hv
    · exact .refl v
    · have hfirst : s.Connected (· ∈ l :: ls) t x := .single hl List.mem_cons_self
      exact hfirst.trans ((ih hv).mono fun k hk => List.mem_cons_of_mem _ hk)

/-! ## From the other end -/

theorem concat (h : s.Path E t ts ls u) (hE : E l) (hl : s.Joins l u v) (hv : v ∉ ts) :
    s.Path E t (ts ++ [v]) (ls ++ [l]) v := by
  induction h with
  | nil t =>
    have ht : t ∉ [v] := fun ht => hv (List.mem_singleton.mp ht ▸ List.mem_cons_self)
    exact .cons hE hl ht (.nil v)
  | @cons k ls t x _ ts hk hj ht _ ih =>
    have hrest := ih hl fun hv' => hv (List.mem_cons_of_mem _ hv')
    have hnot : t ∉ ts ++ [v] := by
      rw [List.mem_append, List.mem_singleton]
      rintro (ht' | rfl)
      · exact ht ht'
      · exact hv List.mem_cons_self
    exact .cons hk hj hnot hrest

theorem reverse (h : s.Path E t ts ls u) : s.Path E u ts.reverse ls.reverse t := by
  induction h with
  | nil t => exact .nil t
  | cons hE hl ht _ ih =>
    rw [List.reverse_cons, List.reverse_cons]
    exact ih.concat hE hl.symm (by simpa using ht)

end Path

/-! ## Existence -/

/-- What is left of a path from one of its tables on. -/
theorem Path.suffix (h : s.Path E t ts ls u) (hv : v ∈ ts) :
    ∃ us ms, s.Path E v us ms u ∧ us ⊆ ts ∧ ms ⊆ ls := by
  induction h with
  | nil t =>
    rw [List.mem_singleton.mp hv]
    exact ⟨[t], [], .nil t, by simp, by simp⟩
  | @cons l ls t x _ ts hE hl ht hrest ih =>
    rcases List.mem_cons.mp hv with rfl | hv
    · exact ⟨_, _, .cons hE hl ht hrest, fun _ h => h, fun _ h => h⟩
    · obtain ⟨us, ms, hpath, hus, hms⟩ := ih hv
      exact ⟨us, ms, hpath, List.subset_cons_of_subset _ hus, List.subset_cons_of_subset _ hms⟩

theorem Walk.exists_path (h : s.Walk t ls u) (hE : ∀ l ∈ ls, E l) :
    ∃ ts ms, s.Path E t ts ms u := by
  induction h with
  | nil t => exact ⟨[t], [], .nil t⟩
  | @cons l ls t x v hl _ ih =>
    obtain ⟨ts, ms, hpath⟩ := ih fun k hk => hE k (List.mem_cons_of_mem _ hk)
    by_cases ht : t ∈ ts
    · -- The path comes back to its start: what is before that is left out.
      obtain ⟨us, ks, hrest, -⟩ := hpath.suffix ht
      exact ⟨us, ks, hrest⟩
    · exact ⟨_, _, .cons (hE l List.mem_cons_self) hl ht hpath⟩

theorem Connected.exists_path (h : s.Connected E t u) : ∃ ls, s.PathLinks E t ls u := by
  obtain ⟨ls, hwalk, hE⟩ := h
  obtain ⟨ts, ms, hpath⟩ := hwalk.exists_path hE
  exact ⟨ms, ts, hpath⟩

/-! ## Uniqueness -/

theorem Path.unique (hacyclic : s.Acyclic E) (h : s.Path E t ts ls u) (h' : s.Path E t us ms u) :
    ls = ms := by
  induction h generalizing us ms with
  | nil t => exact h'.eq_nil.symm
  | @cons l ls t x u ts hE hl ht hrest ih =>
    cases h' with
    | nil => exact absurd hrest.end_mem ht
    | @cons m ms _ y _ us hE' hm ht' hrest' =>
      by_cases hlm : l = m
      · subst hlm
        have hxy : y = x := by
          rcases hl.ends hm with ⟨-, rfl⟩ | ⟨rfl, rfl⟩
          · rfl
          · rfl
        subst hxy
        rw [ih hrest']
      · -- Two different first links make a detour around the first one.
        exfalso
        have hout : ∀ k ∈ ls, E k ∧ k ≠ l := fun k hk =>
          ⟨hrest.along k hk, fun hkl => ht (hrest.ends_mem hk (hkl ▸ hl)).1⟩
        have hback : ∀ k ∈ ms, E k ∧ k ≠ l := fun k hk =>
          ⟨hrest'.along k hk, fun hkl => ht' (hrest'.ends_mem hk (hkl ▸ hl)).1⟩
        have hthere : s.Connected (fun k => E k ∧ k ≠ l) x u := ⟨ls, hrest.walk, hout⟩
        have hreturn : s.Connected (fun k => E k ∧ k ≠ l) y u := ⟨ms, hrest'.walk, hback⟩
        have hlast : s.Connected (fun k => E k ∧ k ≠ l) y t :=
          .single hm.symm ⟨hE', fun hml => hlm hml.symm⟩
        exact not_acyclic_of_detour hl hE ((hthere.trans hreturn.symm).trans hlast) hacyclic

theorem PathLinks.unique (hacyclic : s.Acyclic E) (h : s.PathLinks E t ls u)
    (h' : s.PathLinks E t ms u) : ls = ms := by
  obtain ⟨_, h⟩ := h
  obtain ⟨_, h'⟩ := h'
  exact h.unique hacyclic h'

end CatalogQuery.Schema
