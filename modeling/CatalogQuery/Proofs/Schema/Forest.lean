import CatalogQuery.Proofs.Schema.LinkGraph
import CatalogQuery.Schema.Cycle

/-!
# The cycle check decides forests

The links between ordinary tables, those that are no cyclers, form a forest iff the walk over the
schema finds no cycle. A walk that ends well leaves, for every link it has taken, the two sides that
only this link joins; a walk that fails has found a link with a detour around it.

* `walk_entered`: what a walk leaves behind that ends well;
* `walk_closes`: what a walk has found that fails;
* `findCycle_eq_none_iff`, `closes_of_findCycle`: the same of the whole check.
-/

namespace CatalogQuery.Schema

open Fallible

/-- A link between two tables that are no cyclers. -/
def Ordinary (s : Schema) (l : LinkId) : Prop :=
  ∃ t u, s.Joins l t u ∧ s.isCycler t = false ∧ s.isCycler u = false

/-- The tables that are no cyclers form a forest under the links between them. -/
def IsForest (s : Schema) : Prop := s.Acyclic s.Ordinary

variable {s : Schema} {l : LinkId} {t u v : TableId} {entry : Option LinkId}
  {seen seen' acc : List TableId}

theorem Ordinary.ends (h : s.Ordinary l) (hl : s.Joins l t u) :
    s.isCycler t = false ∧ s.isCycler u = false := by
  obtain ⟨v, w, hvw, hv, hw⟩ := h
  rcases hl.ends hvw with ⟨rfl, rfl⟩ | ⟨rfl, rfl⟩
  · exact ⟨hv, hw⟩
  · exact ⟨hw, hv⟩

/-! ## Tables not entered yet -/

/-- How many tables are not among those entered. -/
def unseen (s : Schema) (seen : List TableId) : Nat :=
  ((List.range s.tables.length).filter fun t => t ∉ seen).length

theorem unseen_le (s : Schema) (seen : List TableId) : s.unseen seen ≤ s.tables.length := by
  have := List.length_filter_le (fun t => decide (t ∉ seen)) (List.range s.tables.length)
  simpa [unseen] using this

theorem unseen_le_of_subset (h : ∀ v ∈ seen, v ∈ acc) : s.unseen acc ≤ s.unseen seen := by
  have hle := List.countP_mono_left (l := List.range s.tables.length)
    (p := fun t => decide (t ∉ acc)) (q := fun t => decide (t ∉ seen)) (by
      intro x _ hx
      simp only [decide_eq_true_eq] at hx ⊢
      exact fun hmem => hx (h x hmem))
  simpa [unseen, List.countP_eq_length_filter] using hle

theorem unseen_cons_lt (ht : t < s.tables.length) (hseen : t ∉ seen) :
    s.unseen (t :: seen) < s.unseen seen := by
  have hfilter : ((List.range s.tables.length).filter fun v => v ∉ t :: seen)
      = ((List.range s.tables.length).filter fun v => v ∉ seen).filter fun v => v ≠ t := by
    rw [List.filter_filter]
    refine List.filter_congr fun v _ => ?_
    by_cases hv : v = t <;> simp [hv]
  rw [unseen, unseen, hfilter]
  exact List.length_filter_lt_length_iff_exists.mpr ⟨t, by simp [ht, hseen], by simp⟩

/-! ## Walks that end well -/

/-- An ordinary link inside a set of tables. -/
def Inside (s : Schema) (A : TableId → Prop) (l : LinkId) : Prop :=
  s.Ordinary l ∧ ∀ t u, s.Joins l t u → A t

theorem Inside.mono {A B : TableId → Prop} (h : s.Inside A l) (hAB : ∀ t, A t → B t) :
    s.Inside B l :=
  ⟨h.1, fun t u hl => hAB t (h.2 t u hl)⟩

theorem inside_of_ends {A : TableId → Prop} (h : s.Ordinary l) (hl : s.Joins l t u) (ht : A t)
    (hu : A u) : s.Inside A l := by
  refine ⟨h, fun v w hvw => ?_⟩
  rcases hl.ends hvw with ⟨rfl, rfl⟩ | ⟨rfl, rfl⟩
  · exact ht
  · exact hu

/-- What a walk leaves behind that entered `t` through `entry` when `seen` were entered, and has
gone along the links `done` of `t` since. -/
structure Entered (s : Schema) (t : TableId) (entry : Option LinkId) (seen : List TableId)
    (done : List (LinkId × TableId)) (seen' : List TableId) : Prop where
  kept : ∀ v ∈ seen, v ∈ seen'
  start : t ∈ seen'
  ordinary : ∀ v ∈ seen', v ∉ seen → s.isCycler v = false
  /-- A link of a table entered leads to another such table and is the only one between its two
  sides, but for the entry and the links of `t` still to be tried. -/
  closed : ∀ v ∈ seen', v ∉ seen → ∀ l u, s.Joins l v u → s.isCycler u = false →
    v = t ∧ (entry = some l ∨ (l, u) ∉ done) ∨
    (u ∈ seen' ∧ u ∉ seen) ∧ ∃ A, s.Cuts s.Ordinary l A
  /-- A table entered is reached over one of the links `done` and then without touching `t`. -/
  reached : ∀ v ∈ seen', v ∉ seen → v = t ∨
    ∃ l u, (l, u) ∈ done ∧ s.Joins l t u ∧ s.Ordinary l ∧ (u ∈ seen' ∧ u ∉ seen) ∧
      s.Connected (s.Inside fun x => (x ∈ seen' ∧ x ∉ seen) ∧ x ≠ t) u v

theorem Entered.connected {done : List (LinkId × TableId)} (h : s.Entered t entry seen done seen')
    (ht : t ∉ seen) (hv : v ∈ seen') (hnew : v ∉ seen) :
    s.Connected (s.Inside fun x => x ∈ seen' ∧ x ∉ seen) t v := by
  rcases h.reached v hv hnew with rfl | ⟨l, u, -, hl, hord, hu, hconn⟩
  · exact .refl v
  · exact (Connected.single hl (inside_of_ends hord hl ⟨h.start, ht⟩ hu)).trans
      (hconn.mono fun k hk => hk.mono fun x hx => hx.1)

/-- A finished walk has entered all that is behind its entry: only the entry leads out again. -/
theorem Entered.cuts (h : s.Entered u (some l) acc (s.incident u) seen') (hu : u ∉ acc)
    (hl : s.Joins l t u) (ht : t ∈ acc) : s.Cuts s.Ordinary l fun x => x ∈ seen' ∧ x ∉ acc := by
  have leads : ∀ k x y, s.Ordinary k → s.Joins k x y → k ≠ l → x ∈ seen' ∧ x ∉ acc →
      y ∈ seen' ∧ y ∉ acc := by
    rintro k x y hk hxy hne ⟨hx, hx'⟩
    rcases h.closed x hx hx' k y hxy (hk.ends hxy).2 with ⟨rfl, hentry | hnot⟩ | ⟨hy, -⟩
    · exact absurd (Option.some.inj hentry).symm hne
    · exact absurd (mem_incident.mpr hxy) hnot
    · exact hy
  intro k x y hk hxy
  constructor
  · intro hne
    exact ⟨leads k x y hk hxy hne, leads k y x hk hxy.symm hne⟩
  · rintro hside rfl
    rcases hl.ends hxy with ⟨rfl, rfl⟩ | ⟨rfl, rfl⟩
    · exact (hside.mpr ⟨h.start, hu⟩).2 ht
    · exact (hside.mp ⟨h.start, hu⟩).2 ht

/-- What the walk does with one link of a table. -/
def advance (s : Schema) (depth : Nat) (entry : Option LinkId) (seen : List TableId)
    (next : LinkId × TableId) : Except Cycle (List TableId) :=
  if entry = some next.1 ∨ s.isCycler next.2 then .ok seen
  else if next.2 ∈ seen then .error ⟨next.2, next.1⟩
  else s.walk depth next.2 (some next.1) seen

theorem walk_succ (s : Schema) (depth : Nat) (t : TableId) (entry : Option LinkId)
    (seen : List TableId) : s.walk (depth + 1) t entry seen =
      (s.incident t).foldlM (s.advance depth entry) (t :: seen) := rfl

theorem Entered.begin (hcycler : s.isCycler t = false) : s.Entered t entry seen [] (t :: seen) where
  kept := fun v hv => List.mem_cons_of_mem _ hv
  start := List.mem_cons_self
  ordinary := by
    intro v hv hnew
    rcases List.mem_cons.mp hv with rfl | hv
    · exact hcycler
    · exact absurd hv hnew
  closed := by
    intro v hv hnew l u _ _
    rcases List.mem_cons.mp hv with rfl | hv
    · exact .inl ⟨rfl, .inr (by simp)⟩
    · exact absurd hv hnew
  reached := by
    intro v hv hnew
    rcases List.mem_cons.mp hv with rfl | hv
    · exact .inl rfl
    · exact absurd hv hnew

/-- A link that is passed over changes nothing. -/
theorem Entered.pass {before : List (LinkId × TableId)} (h : s.Entered t entry seen before acc)
    (hpass : entry = some l ∨ s.isCycler u = true) :
    s.Entered t entry seen (before ++ [(l, u)]) acc where
  kept := h.kept
  start := h.start
  ordinary := h.ordinary
  closed := by
    intro v hv hnew k x hk hx
    rcases h.closed v hv hnew k x hk hx with ⟨rfl, hentry | hnot⟩ | hdone
    · exact .inl ⟨rfl, .inl hentry⟩
    · by_cases hkx : (k, x) = (l, u)
      · obtain ⟨rfl, rfl⟩ := Prod.mk.injEq .. ▸ hkx
        rcases hpass with hentry | hcycler
        · exact .inl ⟨rfl, .inl hentry⟩
        · exact absurd hcycler (by simp [hx])
      · exact .inl ⟨rfl, .inr (by simpa [hnot] using hkx)⟩
    · exact .inr hdone
  reached := by
    intro v hv hnew
    rcases h.reached v hv hnew with rfl | ⟨k, x, hmem, hrest⟩
    · exact .inl rfl
    · exact .inr ⟨k, x, List.mem_append_left _ hmem, hrest⟩

/-- A link to a table not entered yet adds all that the walk from there enters. -/
theorem Entered.descend {before : List (LinkId × TableId)} (h : s.Entered t entry seen before acc)
    (ht : t ∉ seen) (hl : s.Joins l t u) (hu : u ∉ acc)
    (hsub : s.Entered u (some l) acc (s.incident u) seen') :
    s.Entered t entry seen (before ++ [(l, u)]) seen' := by
  have hord : s.Ordinary l :=
    ⟨t, u, hl, h.ordinary t h.start ht, hsub.ordinary u hsub.start hu⟩
  have hcut : ∃ A, s.Cuts s.Ordinary l A := ⟨_, hsub.cuts hu hl h.start⟩
  have fresh : ∀ x, x ∉ acc → x ∉ seen := fun x hx hmem => hx (h.kept x hmem)
  refine ⟨fun v hv => hsub.kept v (h.kept v hv), hsub.kept t h.start, ?_, ?_, ?_⟩
  · intro v hv hnew
    by_cases hacc : v ∈ acc
    · exact h.ordinary v hacc hnew
    · exact hsub.ordinary v hv hacc
  · intro v hv hnew k x hk hx
    by_cases hacc : v ∈ acc
    · rcases h.closed v hacc hnew k x hk hx with ⟨rfl, hentry | hnot⟩ | ⟨⟨hx', hx''⟩, hA⟩
      · exact .inl ⟨rfl, .inl hentry⟩
      · by_cases hkx : (k, x) = (l, u)
        · obtain ⟨rfl, rfl⟩ := Prod.mk.injEq .. ▸ hkx
          exact .inr ⟨⟨hsub.start, fresh x hu⟩, hcut⟩
        · exact .inl ⟨rfl, .inr (by simpa [hnot] using hkx)⟩
      · exact .inr ⟨⟨hsub.kept x hx', hx''⟩, hA⟩
    · rcases hsub.closed v hv hacc k x hk hx with ⟨rfl, hentry | hnot⟩ | ⟨⟨hx', hx''⟩, hA⟩
      · obtain rfl := Option.some.inj hentry
        rcases hl.ends hk with ⟨rfl, rfl⟩ | ⟨-, rfl⟩
        · exact absurd h.start hacc
        · exact .inr ⟨⟨hsub.kept x h.start, ht⟩, hcut⟩
      · exact absurd (mem_incident.mpr hk) hnot
      · exact .inr ⟨⟨hx', fresh x hx''⟩, hA⟩
  · intro v hv hnew
    by_cases hacc : v ∈ acc
    · rcases h.reached v hacc hnew with rfl | ⟨k, x, hmem, hk, hkord, ⟨hx, hx'⟩, hconn⟩
      · exact .inl rfl
      · refine .inr ⟨k, x, List.mem_append_left _ hmem, hk, hkord, ⟨hsub.kept x hx, hx'⟩, ?_⟩
        exact hconn.mono fun m hm => hm.mono fun y hy => ⟨⟨hsub.kept y hy.1.1, hy.1.2⟩, hy.2⟩
    · refine .inr ⟨l, u, by simp, hl, hord, ⟨hsub.start, fresh u hu⟩, ?_⟩
      refine (hsub.connected hu hv hacc).mono fun m hm => hm.mono fun y hy => ?_
      exact ⟨⟨hy.1, fresh y hy.2⟩, fun e => hy.2 (e ▸ h.start)⟩

/-- What is asked of a walk that is about to enter `t`. -/
structure Enters (s : Schema) (depth : Nat) (t : TableId) (seen : List TableId) : Prop where
  ordinary : s.isCycler t = false
  registered : t < s.tables.length
  fresh : t ∉ seen
  enough : s.unseen seen ≤ depth

/-- A link that the walk from `t` descends along leads to a table it may enter. -/
theorem Enters.next {depth : Nat} {before : List (LinkId × TableId)} (hs : s.WellFormed)
    (ht : s.Enters (depth + 1) t seen) (h : s.Entered t entry seen before acc)
    (hl : s.Joins l t u) (hu : u ∉ acc) (hcycler : s.isCycler u = false) :
    s.Enters depth u acc where
  ordinary := hcycler
  registered := hl.symm.lt hs
  fresh := hu
  enough := by
    have hsub : s.unseen acc ≤ s.unseen (t :: seen) := unseen_le_of_subset (by
      intro v hv
      rcases List.mem_cons.mp hv with rfl | hv
      · exact h.start
      · exact h.kept v hv)
    have hlt := unseen_cons_lt ht.registered ht.fresh
    have := ht.enough
    omega

theorem Entered.advance {depth : Nat} {before : List (LinkId × TableId)} (hs : s.WellFormed)
    (walk_entered : ∀ {t entry seen seen'}, s.Enters depth t seen →
      s.walk depth t entry seen = .ok seen' → s.Entered t entry seen (s.incident t) seen')
    (ht : s.Enters (depth + 1) t seen) (h : s.Entered t entry seen before acc)
    (hmem : (l, u) ∈ s.incident t) (hstep : s.advance depth entry acc (l, u) = .ok seen') :
    s.Entered t entry seen (before ++ [(l, u)]) seen' := by
  have hl : s.Joins l t u := mem_incident.mp hmem
  unfold Schema.advance at hstep
  split at hstep
  · next hpass =>
    cases hstep
    exact h.pass hpass
  · next hpass =>
    simp only [not_or, Bool.not_eq_true] at hpass
    split at hstep
    · cases hstep
    · next hu =>
      exact h.descend ht.fresh hl hu (walk_entered (ht.next hs h hl hu hpass.2) hstep)

theorem walk_entered (hs : s.WellFormed) {depth : Nat} (ht : s.Enters depth t seen)
    (h : s.walk depth t entry seen = .ok seen') :
    s.Entered t entry seen (s.incident t) seen' := by
  induction depth generalizing t entry seen seen' with
  | zero =>
    have := unseen_cons_lt ht.registered ht.fresh
    have := ht.enough
    omega
  | succ depth ih =>
    rw [walk_succ] at h
    exact foldlM_keeps (P := fun before acc => s.Entered t entry seen before acc)
      (.begin ht.ordinary) (fun _ next _ _ _ hsplit hacc hstep =>
        hacc.advance hs ih ht (by rw [hsplit]; simp) hstep) h

/-! ## Walks that fail -/

/-- The link of `c` joins two ordinary tables, one of which is the table of `c`, and there is a
detour around it. -/
def Closes (s : Schema) (c : Cycle) : Prop :=
  ∃ t, s.Joins c.link t c.table ∧ s.Ordinary c.link ∧
    s.Connected (fun l => s.Ordinary l ∧ l ≠ c.link) c.table t

theorem Closes.not_isForest {c : Cycle} (h : s.Closes c) : ¬s.IsForest := by
  obtain ⟨t, hl, hord, hdetour⟩ := h
  exact not_acyclic_of_detour hl hord hdetour

/-- What was entered before `t` is shut off, or lies above the entry of `t`. -/
def Above (s : Schema) (t : TableId) (entry : Option LinkId) (seen : List TableId) : Prop :=
  ∀ v ∈ seen, (∀ l u, s.Joins l v u → s.isCycler u = false → u ∈ seen) ∨
    ∃ e w, entry = some e ∧ s.Ordinary e ∧ s.Joins e w t ∧ w ∈ seen ∧
      s.Connected (s.Inside (· ∈ seen)) w v

/-- A link inside a set without `t` is none of the links of `t`. -/
theorem Inside.ne {A : TableId → Prop} {k : LinkId} (h : s.Inside A k) (hl : s.Joins l t u)
    (ht : ¬A t) : s.Ordinary k ∧ k ≠ l :=
  ⟨h.1, fun e => ht (h.2 t u (e ▸ hl))⟩

/-- A link of `t` that leads back to a table already entered closes a cycle. -/
theorem Entered.closes {before : List (LinkId × TableId)} (hs : s.WellFormed)
    (habove : s.Above t entry seen) (ht : t ∉ seen) (h : s.Entered t entry seen before acc)
    (hl : s.Joins l t u) (hfresh : ∀ x, (l, x) ∉ before) (hentry : entry ≠ some l)
    (hcycler : s.isCycler u = false) (hu : u ∈ acc) : s.Closes ⟨u, l⟩ := by
  have htord : s.isCycler t = false := h.ordinary t h.start ht
  have hord : s.Ordinary l := ⟨t, u, hl, htord, hcycler⟩
  refine ⟨t, hl, hord, ?_⟩
  by_cases hseen : u ∈ seen
  · rcases habove u hseen with hshut | ⟨e, w, rfl, he, hew, hw, hconn⟩
    · exact absurd (hshut l t hl.symm htord) ht
    · -- Up inside the tables entered before, then down through the entry.
      have hup : s.Connected (fun k => s.Ordinary k ∧ k ≠ l) u w :=
        (hconn.mono fun k hk => hk.ne hl ht).symm
      exact hup.trans (.single hew ⟨he, fun e => hentry (by rw [e])⟩)
  · rcases h.reached u hu hseen with rfl | ⟨k, x, hmem, hk, hkord, -, hconn⟩
    · exact absurd rfl (hl.ne hs)
    · -- Back through the branch of `t` in which `u` was entered.
      have hback : s.Connected (fun k => s.Ordinary k ∧ k ≠ l) u x :=
        (hconn.mono fun m hm => hm.ne hl fun hA => hA.2 rfl).symm
      exact hback.trans (.single hk.symm ⟨hkord, fun e => hfresh x (e ▸ hmem)⟩)

/-- The walk down from `t` has all tables entered before it above its entry. -/
theorem Entered.above {before : List (LinkId × TableId)} (habove : s.Above t entry seen)
    (ht : t ∉ seen) (h : s.Entered t entry seen before acc) (hl : s.Joins l t u)
    (hcycler : s.isCycler u = false) : s.Above u (some l) acc := by
  have htord : s.isCycler t = false := h.ordinary t h.start ht
  intro v hv
  by_cases hseen : v ∈ seen
  · rcases habove v hseen with hshut | ⟨e, w, rfl, he, hew, hw, hconn⟩
    · exact .inl fun k x hk hx => h.kept x (hshut k x hk hx)
    · refine .inr ⟨l, t, rfl, ⟨t, u, hl, htord, hcycler⟩, hl, h.start, ?_⟩
      have hstep : s.Connected (s.Inside (· ∈ acc)) t w :=
        .single hew.symm (inside_of_ends he hew (h.kept w hw) h.start)
      exact hstep.trans (hconn.mono fun k hk => hk.mono h.kept)
  · refine .inr ⟨l, t, rfl, ⟨t, u, hl, htord, hcycler⟩, hl, h.start, ?_⟩
    exact (h.connected ht hv hseen).mono fun k hk => hk.mono fun x hx => hx.1

theorem walk_closes (hs : s.WellFormed) {depth : Nat} {c : Cycle} (ht : s.Enters depth t seen)
    (habove : s.Above t entry seen) (h : s.walk depth t entry seen = .error c) : s.Closes c := by
  induction depth generalizing t entry seen with
  | zero => cases h
  | succ depth ih =>
    rw [walk_succ] at h
    obtain ⟨before, ⟨l, u⟩, after, acc, hsplit, hacc, hstep⟩ :=
      foldlM_fails (P := fun before acc => s.Entered t entry seen before acc)
        (.begin ht.ordinary) (fun _ _ _ _ _ hsplit hacc hstep =>
          hacc.advance hs (walk_entered hs) ht (by rw [hsplit]; simp) hstep) h
    have hl : s.Joins l t u := mem_incident.mp (by rw [hsplit]; simp)
    have hfresh : ∀ x, (l, x) ∉ before := by
      intro x hx
      have hnodup := nodup_incident hs t
      rw [hsplit, List.map_append, List.map_cons] at hnodup
      have := (List.nodup_append.mp hnodup).2.2 l (List.mem_map.mpr ⟨(l, x), hx, rfl⟩) l (by simp)
      exact this rfl
    unfold advance at hstep
    split at hstep
    · cases hstep
    · next hpass =>
      simp only [not_or, Bool.not_eq_true] at hpass
      split at hstep
      · next hu =>
        cases hstep
        exact hacc.closes hs habove ht.fresh hl hfresh hpass.1 hpass.2 hu
      · next hu =>
        exact ih (ht.next hs hacc hl hu hpass.2) (hacc.above habove ht.fresh hl hpass.2) hstep

/-! ## The whole check -/

/-- What is known of the tables entered once some roots are done. -/
structure Explored (s : Schema) (roots seen : List TableId) : Prop where
  ordinary : ∀ v ∈ seen, s.isCycler v = false
  closed : ∀ v ∈ seen, ∀ l u, s.Joins l v u → s.isCycler u = false →
    u ∈ seen ∧ ∃ A, s.Cuts s.Ordinary l A
  covered : ∀ v ∈ roots, s.isCycler v = false → v ∈ seen

theorem Explored.above {roots : List TableId} (h : s.Explored roots seen) (t : TableId) :
    s.Above t none seen :=
  fun v hv => .inl fun l u hl hu => (h.closed v hv l u hl hu).1

theorem Explored.pass {roots : List TableId} (h : s.Explored roots seen)
    (ht : s.isCycler t = true ∨ t ∈ seen) : s.Explored (roots ++ [t]) seen where
  ordinary := h.ordinary
  closed := h.closed
  covered := by
    intro v hv hord
    rcases List.mem_append.mp hv with hv | hv
    · exact h.covered v hv hord
    · rw [List.mem_singleton.mp hv] at hord ⊢
      rcases ht with ht | ht
      · exact absurd ht (by simp [hord])
      · exact ht

theorem Explored.enter {roots : List TableId} (h : s.Explored roots seen)
    (hsub : s.Entered t none seen (s.incident t) seen') : s.Explored (roots ++ [t]) seen' where
  ordinary := by
    intro v hv
    by_cases hseen : v ∈ seen
    · exact h.ordinary v hseen
    · exact hsub.ordinary v hv hseen
  closed := by
    intro v hv l u hl hu
    by_cases hseen : v ∈ seen
    · obtain ⟨hmem, hA⟩ := h.closed v hseen l u hl hu
      exact ⟨hsub.kept u hmem, hA⟩
    · rcases hsub.closed v hv hseen l u hl hu with ⟨rfl, hentry | hnot⟩ | ⟨hmem, hA⟩
      · cases hentry
      · exact absurd (mem_incident.mpr hl) hnot
      · exact ⟨hmem.1, hA⟩
  covered := by
    intro v hv hord
    rcases List.mem_append.mp hv with hv | hv
    · exact hsub.kept v (h.covered v hv hord)
    · rw [List.mem_singleton.mp hv]
      exact hsub.start

/-- One root of the whole check. -/
theorem Explored.root {roots : List TableId} (hs : s.WellFormed) (h : s.Explored roots seen)
    (ht : t < s.tables.length)
    (hstep : (if s.isCycler t ∨ t ∈ seen then .ok seen else s.walk s.tables.length t none seen)
      = .ok seen') : s.Explored (roots ++ [t]) seen' := by
  split at hstep
  · next hpass =>
    cases hstep
    exact h.pass hpass
  · next hpass =>
    simp only [not_or, Bool.not_eq_true] at hpass
    exact h.enter (walk_entered hs ⟨hpass.1, ht, hpass.2, unseen_le s seen⟩ hstep)

theorem explored_nil (s : Schema) : s.Explored [] [] := by
  constructor <;> simp

theorem lt_of_range_eq {before after : List TableId} {n : Nat}
    (h : List.range n = before ++ t :: after) : t < n :=
  List.mem_range.mp (by rw [h]; simp)

/-- Once every ordinary table is entered, every ordinary link is the only one between two sides. -/
theorem Explored.isForest (hs : s.WellFormed)
    (h : s.Explored (List.range s.tables.length) seen) : s.IsForest := by
  refine acyclic_of_cuts fun m hm => ?_
  obtain ⟨t, u, hl, ht, hu⟩ := hm
  have hmem := h.covered t (List.mem_range.mpr (hl.lt hs)) ht
  exact (h.closed t hmem m u hl hu).2

theorem isForest_of_findCycle (hs : s.WellFormed) (h : s.findCycle = none) : s.IsForest := by
  unfold findCycle at h
  split at h
  · next seen hok =>
    exact (foldlM_keeps (P := fun roots seen => s.Explored roots seen) (explored_nil s)
      (fun _ _ _ _ _ hsplit hroots hstep =>
        hroots.root hs (lt_of_range_eq hsplit) hstep) hok).isForest hs
  · cases h

theorem closes_of_findCycle (hs : s.WellFormed) {c : Cycle} (h : s.findCycle = some c) :
    s.Closes c := by
  unfold findCycle at h
  split at h
  · cases h
  · next c' herror =>
    cases h
    obtain ⟨roots, t, rest, seen, hsplit, hroots, hstep⟩ :=
      foldlM_fails (P := fun roots seen => s.Explored roots seen) (explored_nil s)
        (fun _ _ _ _ _ hsplit hroots hstep =>
          hroots.root hs (lt_of_range_eq hsplit) hstep) herror
    split at hstep
    · cases hstep
    · next hpass =>
      simp only [not_or, Bool.not_eq_true] at hpass
      exact walk_closes hs ⟨hpass.1, lt_of_range_eq hsplit, hpass.2, unseen_le s seen⟩
        (hroots.above t) hstep

theorem findCycle_eq_none_iff (hs : s.WellFormed) : s.findCycle = none ↔ s.IsForest := by
  constructor
  · exact isForest_of_findCycle hs
  · intro hforest
    cases h : s.findCycle with
    | none => rfl
    | some c => exact absurd hforest (closes_of_findCycle hs h).not_isForest

/-- A schema is accepted iff it is a forest, and refused with the report of a cycle. -/
theorem validate_eq_ok_iff (hs : s.WellFormed) : s.validate = .ok () ↔ s.IsForest := by
  rw [← findCycle_eq_none_iff hs]
  unfold validate
  cases s.findCycle with
  | none => simp
  | some c => simp

end CatalogQuery.Schema
