import CatalogQuery.Proofs.Schema.Registration

/-!
# The graph of the links

Tables are nodes and links are edges, of which several may join the same two tables. A walk is told
by the links it takes; a trail takes none twice. A set of links is without a cycle if no trail along
it comes back to its start.

* `mem_incident`, `nodup_incident`: the incident links of a table are those that join it, each once;
* `Walk.exists_trail`: a walk can be cut down to a trail;
* `acyclic_of_cuts`: there is no cycle where every link is the only one between two sides;
* `not_acyclic_of_detour`: a link with a detour around it lies on a cycle.
-/

namespace CatalogQuery.Schema

/-- The link `l` joins `t` and `u`, in either direction. -/
def Joins (s : Schema) (l : LinkId) (t u : TableId) : Prop :=
  ∃ k, s.links[l]? = some k ∧ (k.left = t ∧ k.right = u ∨ k.left = u ∧ k.right = t)

variable {s : Schema} {l m : LinkId} {t u v w : TableId}

theorem Joins.symm (h : s.Joins l t u) : s.Joins l u t := by
  obtain ⟨k, hk, h⟩ := h
  exact ⟨k, hk, h.symm⟩

/-- A link has no other ends. -/
theorem Joins.ends (h : s.Joins l t u) (h' : s.Joins l v w) : v = t ∧ w = u ∨ v = u ∧ w = t := by
  obtain ⟨k, hk, h⟩ := h
  obtain ⟨k', hk', h'⟩ := h'
  rw [hk, Option.some.injEq] at hk'
  subst hk'
  rcases h with ⟨rfl, rfl⟩ | ⟨rfl, rfl⟩
  · rcases h' with ⟨rfl, rfl⟩ | ⟨rfl, rfl⟩
    · exact .inl ⟨rfl, rfl⟩
    · exact .inr ⟨rfl, rfl⟩
  · rcases h' with ⟨rfl, rfl⟩ | ⟨rfl, rfl⟩
    · exact .inr ⟨rfl, rfl⟩
    · exact .inl ⟨rfl, rfl⟩

theorem Joins.lt (hs : s.WellFormed) (h : s.Joins l t u) : t < s.tables.length := by
  obtain ⟨k, hk, ⟨rfl, -⟩ | ⟨-, rfl⟩⟩ := h
  · exact hs.left_lt k (List.mem_of_getElem? hk)
  · exact hs.right_lt k (List.mem_of_getElem? hk)

theorem Joins.ne (hs : s.WellFormed) (h : s.Joins l t u) : t ≠ u := by
  obtain ⟨k, hk, ⟨rfl, rfl⟩ | ⟨rfl, rfl⟩⟩ := h
  · exact hs.left_ne_right k (List.mem_of_getElem? hk)
  · exact (hs.left_ne_right k (List.mem_of_getElem? hk)).symm

/-! ## Incident links -/

theorem mem_incident : (l, u) ∈ s.incident t ↔ s.Joins l t u := by
  simp only [incident, List.mem_append, List.mem_map, List.mem_filter, Prod.exists,
    List.mem_zipIdx_iff_getElem?, beq_iff_eq, Prod.mk.injEq]
  constructor
  · rintro (⟨k, i, ⟨hk, rfl⟩, rfl, rfl⟩ | ⟨k, i, ⟨hk, rfl⟩, rfl, rfl⟩)
    · exact ⟨k, hk, .inl ⟨rfl, by simp [Link.other]⟩⟩
    · by_cases h : k.left = k.right
      · exact ⟨k, hk, .inl ⟨h, by simp [Link.other, h]⟩⟩
      · exact ⟨k, hk, .inr ⟨by simp [Link.other, h], rfl⟩⟩
  · rintro ⟨k, hk, ⟨rfl, rfl⟩ | ⟨rfl, rfl⟩⟩
    · exact .inl ⟨k, l, ⟨hk, rfl⟩, rfl, by simp [Link.other]⟩
    · refine .inr ⟨k, l, ⟨hk, rfl⟩, rfl, ?_⟩
      by_cases h : k.left = k.right
      · simp [Link.other, h]
      · simp [Link.other, h]

theorem nodup_incident (hs : s.WellFormed) (t : TableId) :
    ((s.incident t).map (·.1)).Nodup := by
  have numbers : (s.links.zipIdx.map (·.2)).Nodup := by
    rw [List.zipIdx_map_snd]
    exact List.nodup_range' _
  have part : ∀ p : Link × Nat → Bool, ((s.links.zipIdx.filter p).map (·.2)).Nodup := fun p =>
    numbers.sublist (List.filter_sublist.map _)
  simp only [incident, List.map_append, List.map_map]
  refine List.nodup_append.mpr ⟨part _, part _, fun a ha b hb => ?_⟩
  simp only [List.mem_map, List.mem_filter, Prod.exists, List.mem_zipIdx_iff_getElem?,
    beq_iff_eq, Function.comp_apply] at ha hb
  obtain ⟨k, i, ⟨hk, hleft⟩, rfl⟩ := ha
  obtain ⟨k', i', ⟨hk', hright⟩, rfl⟩ := hb
  rintro rfl
  rw [hk, Option.some.injEq] at hk'
  subst hk'
  exact hs.left_ne_right k (List.mem_of_getElem? hk) (hleft.trans hright.symm)

/-! ## Walks and trails -/

/-- A walk from table to table, told by its links in order. -/
inductive Walk (s : Schema) : TableId → List LinkId → TableId → Prop where
  | nil (t : TableId) : Walk s t [] t
  | cons {l : LinkId} {ls : List LinkId} {t u v : TableId} :
    s.Joins l t u → Walk s u ls v → Walk s t (l :: ls) v

theorem Walk.append {ls ms : List LinkId} (h : s.Walk t ls u) (h' : s.Walk u ms v) :
    s.Walk t (ls ++ ms) v := by
  induction h with
  | nil t => exact h'
  | cons hl _ ih => exact .cons hl (ih h')

theorem Walk.single (h : s.Joins l t u) : s.Walk t [l] u := .cons h (.nil u)

theorem Walk.reverse {ls : List LinkId} (h : s.Walk t ls u) : s.Walk u ls.reverse t := by
  induction h with
  | nil t => exact .nil t
  | cons hl _ ih =>
    rw [List.reverse_cons]
    exact ih.append (.single hl.symm)

/-- The walk behind any link of it. -/
theorem Walk.of_append_cons {ls ms : List LinkId} (h : s.Walk t (ls ++ l :: ms) v) :
    ∃ x y, s.Joins l x y ∧ s.Walk y ms v := by
  induction ls generalizing t with
  | nil =>
    cases h with
    | cons hl h => exact ⟨_, _, hl, h⟩
  | cons k ls ih =>
    cases h with
    | cons _ h => exact ih h

/-- A walk can be cut down to one that takes no link twice. -/
theorem Walk.exists_trail {ls : List LinkId} (h : s.Walk t ls u) :
    ∃ ms, s.Walk t ms u ∧ ms.Nodup ∧ ms ⊆ ls := by
  induction h with
  | nil t => exact ⟨[], .nil t, .nil, by simp⟩
  | @cons l ls t u v hl _ ih =>
    obtain ⟨ms, hw, hn, hsub⟩ := ih
    by_cases hmem : l ∈ ms
    · -- The trail takes `l` again: what follows there starts at one of the two ends of `l`.
      obtain ⟨before, after, rfl⟩ := List.append_of_mem hmem
      obtain ⟨x, y, hxy, hafter⟩ := hw.of_append_cons
      have hsub' : after ⊆ l :: ls := fun k hk =>
        List.mem_cons_of_mem _ (hsub (by simp [hk]))
      have hn' := (List.nodup_append.mp hn).2.1
      rcases hl.ends hxy with ⟨rfl, rfl⟩ | ⟨rfl, rfl⟩
      · refine ⟨l :: after, .cons hl hafter, hn', ?_⟩
        exact List.cons_subset.mpr ⟨List.mem_cons_self, hsub'⟩
      · exact ⟨after, hafter, (List.nodup_cons.mp hn').2, hsub'⟩
    · refine ⟨l :: ms, .cons hl hw, List.nodup_cons.mpr ⟨hmem, hn⟩, ?_⟩
      exact List.cons_subset_cons l hsub

/-! ## Connections along a set of links -/

/-- There is a walk along links of `E`. -/
def Connected (s : Schema) (E : LinkId → Prop) (t u : TableId) : Prop :=
  ∃ ls, s.Walk t ls u ∧ ∀ l ∈ ls, E l

variable {E F : LinkId → Prop}

theorem Connected.refl (t : TableId) : s.Connected E t t := ⟨[], .nil t, by simp⟩

theorem Connected.single (h : s.Joins l t u) (hl : E l) : s.Connected E t u :=
  ⟨[l], .single h, by simpa using hl⟩

theorem Connected.symm (h : s.Connected E t u) : s.Connected E u t := by
  obtain ⟨ls, hw, hE⟩ := h
  exact ⟨ls.reverse, hw.reverse, fun l hl => hE l (List.mem_reverse.mp hl)⟩

theorem Connected.trans (h : s.Connected E t u) (h' : s.Connected E u v) :
    s.Connected E t v := by
  obtain ⟨ls, hw, hE⟩ := h
  obtain ⟨ms, hw', hE'⟩ := h'
  refine ⟨ls ++ ms, hw.append hw', fun l hl => ?_⟩
  rcases List.mem_append.mp hl with hl | hl
  · exact hE l hl
  · exact hE' l hl

theorem Connected.mono (h : s.Connected E t u) (hEF : ∀ l, E l → F l) : s.Connected F t u := by
  obtain ⟨ls, hw, hE⟩ := h
  exact ⟨ls, hw, fun l hl => hEF l (hE l hl)⟩

/-! ## Cycles -/

/-- No trail along links of `E` comes back to its start. -/
def Acyclic (s : Schema) (E : LinkId → Prop) : Prop :=
  ∀ t ls, s.Walk t ls t → ls.Nodup → (∀ l ∈ ls, E l) → ls = []

/-- `m` is the one link of `E` between the tables in `A` and all others. -/
def Cuts (s : Schema) (E : LinkId → Prop) (m : LinkId) (A : TableId → Prop) : Prop :=
  ∀ l t u, E l → s.Joins l t u → (l ≠ m ↔ (A t ↔ A u))

/-- A walk that avoids the link between two sides stays on its side. -/
theorem Walk.same_side {ls : List LinkId} {A : TableId → Prop} (hcut : s.Cuts E m A)
    (h : s.Walk t ls u) (hE : ∀ l ∈ ls, E l) (hm : m ∉ ls) : A t ↔ A u := by
  induction h with
  | nil t => exact Iff.rfl
  | @cons l ls t u v hl _ ih =>
    have hside : A t ↔ A u :=
      (hcut l t u (hE l List.mem_cons_self) hl).mp fun e => hm (e ▸ List.mem_cons_self)
    exact hside.trans (ih (fun k hk => hE k (List.mem_cons_of_mem _ hk))
      fun hk => hm (List.mem_cons_of_mem _ hk))

theorem acyclic_of_cuts (h : ∀ m, E m → ∃ A, s.Cuts E m A) : s.Acyclic E := by
  intro t ls hw hn hE
  cases hw with
  | nil => rfl
  | @cons l ls _ u _ hl hrest =>
    -- The rest of the trail leads from one end of its first link back to the other, without it.
    exfalso
    obtain ⟨A, hA⟩ := h l (hE l List.mem_cons_self)
    have hside : A u ↔ A t := hrest.same_side hA
      (fun k hk => hE k (List.mem_cons_of_mem _ hk)) (List.nodup_cons.mp hn).1
    exact (hA l t u (hE l List.mem_cons_self) hl).mpr hside.symm rfl

theorem not_acyclic_of_detour (hl : s.Joins l t u) (hE : E l)
    (hdetour : s.Connected (fun m => E m ∧ m ≠ l) u t) : ¬s.Acyclic E := by
  intro hacyclic
  obtain ⟨ls, hw, hls⟩ := hdetour
  obtain ⟨ms, hw, hn, hsub⟩ := hw.exists_trail
  have hms : ∀ m ∈ ms, E m ∧ m ≠ l := fun m hm => hls m (hsub hm)
  have hnil := hacyclic t (l :: ms) (.cons hl hw)
    (List.nodup_cons.mpr ⟨fun hmem => (hms l hmem).2 rfl, hn⟩) (by
      intro m hm
      rcases List.mem_cons.mp hm with rfl | hm
      · exact hE
      · exact (hms m hm).1)
  exact absurd hnil (by simp)

end CatalogQuery.Schema
