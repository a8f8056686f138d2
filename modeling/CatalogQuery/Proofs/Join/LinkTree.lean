import CatalogQuery.Proofs.Schema.LinkGraph
import Mathlib.Data.List.Perm.Subperm

/-!
# Trees of links

A tree is a single table, or two trees without a common table and one link between them. This is the
order in which a search keeps its links: those of a branch, then the link that leads to it.

* `TreeOn.length_tables`, `TreeOn.nodup_links`: a tree has one table more than links, each once;
* `TreeOn.connected`, `TreeOn.acyclic`: its links connect all its tables and close no cycle;
* `TreeOn.degree_graft`: what a graft adds to the number of links at a table.
-/

namespace CatalogQuery.Schema

variable {s : Schema} {l m : LinkId} {a b t u : TableId} {ts us : List TableId}
  {ls ms : List LinkId}

/-- The links `ls` make a tree of the tables `ts`. -/
inductive TreeOn (s : Schema) : List TableId → List LinkId → Prop where
  | leaf (t : TableId) : TreeOn s [t] []
  | graft {ts us : List TableId} {ls ms : List LinkId} {l : LinkId} {a b : TableId} :
    TreeOn s ts ls → TreeOn s us ms → ts.Disjoint us → a ∈ ts → b ∈ us → s.Joins l a b →
    TreeOn s (ts ++ us) (ls ++ ms ++ [l])

namespace TreeOn

theorem nodup_tables (h : s.TreeOn ts ls) : ts.Nodup := by
  induction h with
  | leaf t => simp
  | graft _ _ hdisj _ _ _ ihts ihus => exact List.nodup_append.mpr ⟨ihts, ihus,
      fun x hx y hy e => hdisj hx (e ▸ hy)⟩

theorem length_tables (h : s.TreeOn ts ls) : ts.length = ls.length + 1 := by
  induction h with
  | leaf t => simp
  | graft _ _ _ _ _ _ ihts ihus =>
    simp only [List.length_append, List.length_singleton]
    omega

/-- The links of a tree join tables of the tree only. -/
theorem ends_mem (h : s.TreeOn ts ls) (hl : l ∈ ls) (hj : s.Joins l t u) : t ∈ ts ∧ u ∈ ts := by
  induction h with
  | leaf t => cases hl
  | graft _ _ _ ha hb hab ihts ihus =>
    simp only [List.mem_append, List.mem_singleton] at hl ⊢
    rcases hl with (hl | hl) | rfl
    · exact ⟨.inl (ihts hl).1, .inl (ihts hl).2⟩
    · exact ⟨.inr (ihus hl).1, .inr (ihus hl).2⟩
    · rcases hab.ends hj with ⟨rfl, rfl⟩ | ⟨rfl, rfl⟩
      · exact ⟨.inl ha, .inr hb⟩
      · exact ⟨.inr hb, .inl ha⟩

theorem exists_joins (h : s.TreeOn ts ls) (hl : l ∈ ls) : ∃ t u, s.Joins l t u := by
  induction h with
  | leaf t => cases hl
  | graft _ _ _ _ _ hab ihts ihus =>
    simp only [List.mem_append, List.mem_singleton] at hl
    rcases hl with (hl | hl) | rfl
    · exact ihts hl
    · exact ihus hl
    · exact ⟨_, _, hab⟩

/-- Trees without a common table have no common link. -/
theorem disjoint_links (h : s.TreeOn ts ls) (h' : s.TreeOn us ms) (hdisj : ts.Disjoint us) :
    ls.Disjoint ms := by
  intro k hk hk'
  obtain ⟨x, y, hxy⟩ := h.exists_joins hk
  exact hdisj (h.ends_mem hk hxy).1 (h'.ends_mem hk' hxy).1

/-- The link of a graft is in neither tree. -/
theorem graft_fresh (h : s.TreeOn ts ls) (h' : s.TreeOn us ms) (hdisj : ts.Disjoint us)
    (ha : a ∈ ts) (hb : b ∈ us) (hab : s.Joins l a b) : l ∉ ls ∧ l ∉ ms :=
  ⟨fun hl => hdisj (h.ends_mem hl hab).2 hb, fun hl => hdisj ha (h'.ends_mem hl hab).1⟩

theorem nodup_links (h : s.TreeOn ts ls) : ls.Nodup := by
  induction h with
  | leaf t => exact .nil
  | graft h h' hdisj ha hb hab ihts ihus =>
    obtain ⟨hls, hms⟩ := graft_fresh h h' hdisj ha hb hab
    have hboth := List.nodup_append.mpr ⟨ihts, ihus,
      fun x hx y hy e => disjoint_links h h' hdisj hx (e ▸ hy)⟩
    refine List.nodup_append.mpr ⟨hboth, by simp, fun x hx y hy e => ?_⟩
    rw [List.mem_singleton.mp hy] at e
    subst e
    rcases List.mem_append.mp hx with hx | hx
    · exact hls hx
    · exact hms hx

/-! ## Connection and cycles -/

theorem connected (h : s.TreeOn ts ls) (ht : t ∈ ts) (hu : u ∈ ts) :
    s.Connected (· ∈ ls) t u := by
  induction h generalizing t u with
  | leaf v =>
    rw [List.mem_singleton.mp ht, List.mem_singleton.mp hu]
    exact .refl v
  | @graft ts us ls ms l a b _ _ _ ha hb hab ihts ihus =>
    have inLeft : ∀ {x y}, x ∈ ts → y ∈ ts → s.Connected (· ∈ ls ++ ms ++ [l]) x y :=
      fun hx hy => (ihts hx hy).mono fun k hk => by simp [hk]
    have inRight : ∀ {x y}, x ∈ us → y ∈ us → s.Connected (· ∈ ls ++ ms ++ [l]) x y :=
      fun hx hy => (ihus hx hy).mono fun k hk => by simp [hk]
    have across : ∀ {x y}, x ∈ ts → y ∈ us → s.Connected (· ∈ ls ++ ms ++ [l]) x y :=
      fun hx hy => (inLeft hx ha).trans ((Connected.single hab (by simp)).trans (inRight hb hy))
    rcases List.mem_append.mp ht with ht | ht <;> rcases List.mem_append.mp hu with hu | hu
    · exact inLeft ht hu
    · exact across ht hu
    · exact (across hu ht).symm
    · exact inRight ht hu

/-- The two sides of a link stay apart when the tree of `ls` is joined to another: the other tree
goes to the side at which it is attached. -/
theorem cuts_graft {A : TableId → Prop} (h : s.TreeOn ts ls) (h' : s.TreeOn us ms)
    (hdisj : ts.Disjoint us) (ha : a ∈ ts) (hb : b ∈ us) (hab : s.Joins l a b) (hm : m ∈ ls)
    (hA : s.Cuts (· ∈ ls) m A) :
    s.Cuts (fun k => k ∈ ls ∨ k ∈ ms ∨ k = l) m fun x => x ∈ ts ∧ A x ∨ x ∈ us ∧ A a := by
  have inLeft : ∀ {x}, x ∈ ts → ((x ∈ ts ∧ A x ∨ x ∈ us ∧ A a) ↔ A x) := by
    intro x hx
    simp [hx, show x ∉ us from fun hx' => hdisj hx hx']
  have inRight : ∀ {x}, x ∈ us → ((x ∈ ts ∧ A x ∨ x ∈ us ∧ A a) ↔ A a) := by
    intro x hx
    simp [hx, show x ∉ ts from fun hx' => hdisj hx' hx]
  intro k x y hk hxy
  show k ≠ m ↔ ((x ∈ ts ∧ A x ∨ x ∈ us ∧ A a) ↔ (y ∈ ts ∧ A y ∨ y ∈ us ∧ A a))
  rcases hk with hk | hk | rfl
  · rw [inLeft (h.ends_mem hk hxy).1, inLeft (h.ends_mem hk hxy).2]
    exact hA k x y hk hxy
  · rw [inRight (h'.ends_mem hk hxy).1, inRight (h'.ends_mem hk hxy).2]
    have hne : k ≠ m := fun e => disjoint_links h h' hdisj hm (e ▸ hk)
    simp [hne]
  · have hne : k ≠ m := fun e => (graft_fresh h h' hdisj ha hb hab).1 (e ▸ hm)
    rcases hab.ends hxy with ⟨rfl, rfl⟩ | ⟨rfl, rfl⟩
    · rw [inLeft ha, inRight hb]
      simp [hne]
    · rw [inLeft ha, inRight hb]
      simp [hne]

/-- Every link of a tree is the only one between two sides. -/
theorem cuts (h : s.TreeOn ts ls) (hm : m ∈ ls) : ∃ A, s.Cuts (· ∈ ls) m A := by
  induction h with
  | leaf t => cases hm
  | @graft ts us ls ms l a b h h' hdisj ha hb hab ihts ihus =>
    simp only [List.mem_append, List.mem_singleton] at hm
    rcases hm with (hm | hm) | rfl
    · obtain ⟨A, hA⟩ := ihts hm
      refine ⟨_, fun k x y hk => cuts_graft h h' hdisj ha hb hab hm hA k x y ?_⟩
      simpa [or_assoc] using hk
    · obtain ⟨A, hA⟩ := ihus hm
      refine ⟨_, fun k x y hk =>
        cuts_graft h' h (List.disjoint_symm hdisj) hb ha hab.symm hm hA k x y ?_⟩
      simpa [or_assoc, or_left_comm] using hk
    · refine ⟨(· ∈ ts), fun k x y hk hxy => ?_⟩
      obtain ⟨hls, hms⟩ := graft_fresh h h' hdisj ha hb hab
      simp only [List.mem_append, List.mem_singleton] at hk
      rcases hk with (hk | hk) | rfl
      · have hne : k ≠ m := fun e => hls (e ▸ hk)
        simp [hne, h.ends_mem hk hxy]
      · have hne : k ≠ m := fun e => hms (e ▸ hk)
        have hx : x ∉ ts := fun hx => hdisj hx (h'.ends_mem hk hxy).1
        have hy : y ∉ ts := fun hy => hdisj hy (h'.ends_mem hk hxy).2
        simp [hne, hx, hy]
      · have hb' : b ∉ ts := fun hb' => hdisj hb' hb
        rcases hab.ends hxy with ⟨rfl, rfl⟩ | ⟨rfl, rfl⟩
        · simp [ha, hb']
        · simp [ha, hb']

theorem acyclic (h : s.TreeOn ts ls) : s.Acyclic (· ∈ ls) :=
  acyclic_of_cuts fun _ hm => h.cuts hm

end TreeOn

/-! ## Links at a table -/

/-- The link has the table at one of its ends. -/
def touches (s : Schema) (t : TableId) (l : LinkId) : Bool :=
  s.links[l]?.any fun k => k.left == t || k.right == t

/-- How many of the links are at the table. -/
def degree (s : Schema) (ls : List LinkId) (t : TableId) : Nat := ls.countP (s.touches t)

theorem touches_iff : s.touches t l = true ↔ ∃ u, s.Joins l t u := by
  simp only [touches, Option.any_eq_true, Bool.or_eq_true, beq_iff_eq]
  constructor
  · rintro ⟨k, hk, h | h⟩
    · exact ⟨k.right, k, hk, .inl ⟨h, rfl⟩⟩
    · exact ⟨k.left, k, hk, .inr ⟨rfl, h⟩⟩
  · rintro ⟨u, k, hk, ⟨h, -⟩ | ⟨-, h⟩⟩
    · exact ⟨k, hk, .inl h⟩
    · exact ⟨k, hk, .inr h⟩

theorem Joins.touches (h : s.Joins l a b) : s.touches t l = true ↔ t = a ∨ t = b := by
  rw [touches_iff]
  constructor
  · rintro ⟨u, hu⟩
    rcases h.ends hu with ⟨rfl, -⟩ | ⟨rfl, -⟩
    · exact .inl rfl
    · exact .inr rfl
  · rintro (rfl | rfl)
    · exact ⟨b, h⟩
    · exact ⟨a, h.symm⟩

@[simp] theorem degree_nil : s.degree [] t = 0 := rfl

theorem TreeOn.degree_eq_zero (h : s.TreeOn ts ls) (ht : t ∉ ts) : s.degree ls t = 0 := by
  refine List.countP_eq_zero.mpr fun l hl htouch => ht ?_
  obtain ⟨u, hu⟩ := touches_iff.mp htouch
  exact (h.ends_mem hl hu).1

/-- A graft adds the links of both trees, and one at the two ends of its link. -/
theorem degree_graft (hab : s.Joins l a b) (t : TableId) :
    s.degree (ls ++ ms ++ [l]) t
      = s.degree ls t + s.degree ms t + if t = a ∨ t = b then 1 else 0 := by
  simp only [degree, List.countP_append, List.countP_singleton, hab.touches]

end CatalogQuery.Schema
