import CatalogQuery.Join.Tree
import CatalogQuery.Proofs.Join.LinkTree

/-!
# The search keeps a tree

A search that has found every required table has kept a tree of links. Each branch that holds a
required table brings a tree of its own, grafted to the tree of the branch above it; a branch
without one brings nothing. What a branch reaches is never reached again, so the grafts share no
table.

* `Tally.covers`: when no table is missing, all required ones are reached;
* `Branch.graft`: a branch grows by the branch behind one of its links;
* `scan_branch`: what the search of one branch does;
* `resolve_branch`: the links of a whole search are those of one branch with all required tables.
-/

namespace CatalogQuery

namespace Search

variable (w : Search) (t : TableId) (l : LinkId) (needed : Bool)

@[simp] theorem reached_mark : (w.mark t).reached = t :: w.reached := rfl

@[simp] theorem pending_mark : (w.mark t).pending = w.pending := rfl

@[simp] theorem links_mark : (w.mark t).links = w.links := rfl

@[simp] theorem reached_find : (w.find needed).reached = w.reached := by
  unfold find
  split <;> rfl

@[simp] theorem links_find : (w.find needed).links = w.links := by
  unfold find
  split <;> rfl

@[simp] theorem reached_keep : (w.keep l).reached = w.reached := rfl

@[simp] theorem pending_keep : (w.keep l).pending = w.pending := rfl

@[simp] theorem links_keep : (w.keep l).links = w.links ++ [l] := rfl

end Search

namespace Schema

variable {s : Schema} {required : List TableId} {w w' w'' : Search} {l : LinkId}
  {t u : TableId} {entry : Option LinkId} {ts us : List TableId} {ls ms : List LinkId}

/-! ## The count of missing tables -/

/-- No table is reached twice, and the required tables not reached are counted. -/
structure Tally (required : List TableId) (w : Search) : Prop where
  nodup : w.reached.Nodup
  count : w.pending + w.reached.countP required.contains = required.length

theorem tally_start (required : List TableId) : Tally required ⟨[], required.length, []⟩ where
  nodup := .nil
  count := by simp

theorem Tally.enter (h : Tally required w) (hpos : 0 < w.pending) (ht : t ∉ w.reached) :
    Tally required ((w.find (required.contains t)).mark t) where
  nodup := by simpa using ⟨ht, h.nodup⟩
  count := by
    have hcount := h.count
    rw [Search.pending_mark, Search.reached_mark, Search.reached_find, List.countP_cons]
    cases required.contains t with
    | false => exact hcount
    | true =>
      simp only [Search.find, if_true]
      omega

theorem Tally.keep (h : Tally required w) (l : LinkId) : Tally required (w.keep l) :=
  ⟨h.nodup, h.count⟩

/-- When no table is missing, all required ones are reached. -/
theorem Tally.covers (h : Tally required w) (hnone : w.pending = 0)
    (ht : t ∈ required) : t ∈ w.reached := by
  have hsub : (w.reached.filter required.contains).Subperm required := by
    refine List.subperm_of_subset (h.nodup.filter _) fun u hu => ?_
    simpa using (List.mem_filter.mp hu).2
  have hlen : required.length ≤ (w.reached.filter required.contains).length := by
    have hcount := h.count
    rw [List.countP_eq_length_filter] at hcount
    omega
  have hmem := (hsub.perm_of_length_le hlen).mem_iff.mpr ht
  exact (List.mem_filter.mp hmem).1

/-! ## What a search adds -/

/-- From `w` to `w'` the search has reached the tables `ts`, with all required ones among those
newly reached, and has kept the links `ls`. -/
structure Progress (required : List TableId) (w w' : Search) (ts : List TableId)
    (ls : List LinkId) : Prop where
  tally : Tally required w'
  links : w'.links = w.links ++ ls
  kept : ∀ u ∈ w.reached, u ∈ w'.reached
  fresh : ∀ u ∈ ts, u ∈ w'.reached ∧ u ∉ w.reached
  covered : ∀ u ∈ w'.reached, u ∉ w.reached → u ∈ required → u ∈ ts

theorem Progress.none (h : Tally required w) : Progress required w w [] [] where
  tally := h
  links := by simp
  kept := fun _ hu => hu
  fresh := by simp
  covered := fun _ hu hu' => absurd hu hu'

theorem Progress.enter (h : Tally required w) (hpos : 0 < w.pending) (ht : t ∉ w.reached) :
    Progress required w ((w.find (required.contains t)).mark t) [t] [] where
  tally := h.enter hpos ht
  links := by simp
  kept := fun u hu => by simp [hu]
  fresh := by simp [ht]
  covered := by
    intro u hu hnew _
    simpa [hnew] using hu

theorem Progress.trans (h : Progress required w w' ts ls) (h' : Progress required w' w'' us ms) :
    Progress required w w'' (ts ++ us) (ls ++ ms) where
  tally := h'.tally
  links := by rw [h'.links, h.links, List.append_assoc]
  kept := fun u hu => h'.kept u (h.kept u hu)
  fresh := by
    intro u hu
    rcases List.mem_append.mp hu with hu | hu
    · exact ⟨h'.kept u (h.fresh u hu).1, (h.fresh u hu).2⟩
    · exact ⟨(h'.fresh u hu).1, fun hmem => (h'.fresh u hu).2 (h.kept u hmem)⟩
  covered := by
    intro u hu hnew hneeded
    by_cases hmid : u ∈ w'.reached
    · exact List.mem_append_left _ (h.covered u hmid hnew hneeded)
    · exact List.mem_append_right _ (h'.covered u hu hmid hneeded)

theorem Progress.keep (h : Progress required w w' ts ls) (l : LinkId) :
    Progress required w (w'.keep l) ts (ls ++ [l]) where
  tally := h.tally.keep l
  links := by rw [Search.links_keep, h.links, List.append_assoc]
  kept := h.kept
  fresh := h.fresh
  covered := h.covered

/-- What is reached in two steps is reached in one of them only. -/
theorem Progress.disjoint (h : Progress required w w' ts ls)
    (h' : Progress required w' w'' us ms) : ts.Disjoint us :=
  fun u hu hu' => (h'.fresh u hu').2 (h.fresh u hu).1

/-- Without required tables among them, what was newly reached may be left out. -/
theorem Progress.drop (h : Progress required w w' [t] []) (ht : t ∉ required) :
    Progress required w w' [] [] where
  tally := h.tally
  links := h.links
  kept := h.kept
  fresh := by simp
  covered := by
    intro u hu hnew hneeded
    rw [List.mem_singleton.mp (h.covered u hu hnew hneeded)] at hneeded
    exact absurd hneeded ht

/-! ## The tree of a branch -/

/-- The tree that the search has grown from `t`. Below `t` it passes through every table that is not
required, and it ends at every cycler. `found` says whether it holds a required table. -/
structure Branch (s : Schema) (required : List TableId) (found : Bool) (t : TableId)
    (ts : List TableId) (ls : List LinkId) : Prop where
  tree : s.TreeOn ts ls
  root : t ∈ ts
  passes : ∀ u ∈ ts, u ≠ t → u ∉ required → 2 ≤ s.degree ls u
  ends : ∀ u ∈ ts, s.isCycler u = true → u ∈ required ∧ s.degree ls u ≤ 1
  bare : s.isCycler t = true → ls = []
  used : found = true → t ∈ required ∨ 1 ≤ s.degree ls t
  unused : found = false → t ∉ required ∧ ts = [t] ∧ ls = []

/-- A table alone; a cycler must be required. -/
theorem branch_leaf (ht : s.isCycler t = true → t ∈ required) :
    s.Branch required (required.contains t) t [t] [] where
  tree := .leaf t
  root := List.mem_singleton_self t
  passes := by
    intro u hu hne
    exact absurd (List.mem_singleton.mp hu) hne
  ends := by
    intro u hu hcycler
    rw [List.mem_singleton.mp hu] at hcycler ⊢
    exact ⟨ht hcycler, by simp⟩
  bare := fun _ => rfl
  used := fun h => .inl (by simpa using h)
  unused := fun h => ⟨by simpa using h, rfl, rfl⟩

/-- A branch grows by the branch behind one of the links of its root. -/
theorem Branch.graft {found : Bool} (h : s.Branch required found t ts ls)
    (h' : s.Branch required true u us ms) (hdisj : ts.Disjoint us) (hl : s.Joins l t u)
    (ht : s.isCycler t = false) :
    s.Branch required true t (ts ++ us) (ls ++ ms ++ [l]) := by
  have hut : u ≠ t := fun e => hdisj h.root (e ▸ h'.root)
  constructor
  case tree => exact .graft h.tree h'.tree hdisj h.root h'.root hl
  case root => exact List.mem_append_left _ h.root
  case passes =>
    intro x hx hne hneeded
    rw [degree_graft hl]
    rcases List.mem_append.mp hx with hx | hx
    · have := h.passes x hx hne hneeded
      omega
    · by_cases hxu : x = u
      · -- The root of the grafted branch is passed through the link of the graft.
        subst hxu
        have hused : 1 ≤ s.degree ms x := (h'.used rfl).resolve_left hneeded
        simp only [or_true, if_true]
        omega
      · have := h'.passes x hx hxu hneeded
        omega
  case ends =>
    intro x hx hcycler
    have hxt : x ≠ t := fun e => by simp [e, ht] at hcycler
    rw [degree_graft hl]
    rcases List.mem_append.mp hx with hx | hx
    · obtain ⟨hneeded, hdegree⟩ := h.ends x hx hcycler
      have hout : s.degree ms x = 0 := h'.tree.degree_eq_zero fun hx' => hdisj hx hx'
      have hxu : x ≠ u := fun e => hdisj hx (e ▸ h'.root)
      refine ⟨hneeded, ?_⟩
      simp only [hxt, hxu, or_self, if_false]
      omega
    · obtain ⟨hneeded, hdegree⟩ := h'.ends x hx hcycler
      have hout : s.degree ls x = 0 := h.tree.degree_eq_zero fun hx' => hdisj hx' hx
      refine ⟨hneeded, ?_⟩
      by_cases hxu : x = u
      · subst hxu
        simp [hout, h'.bare hcycler]
      · simp only [hxt, hxu, or_self, if_false]
        omega
  case bare =>
    intro hcycler
    rw [ht] at hcycler
    cases hcycler
  case used =>
    intro _
    right
    rw [degree_graft hl]
    simp
  case unused => exact fun hfalse => by cases hfalse

/-! ## The search of one branch -/

/-- One link of a table: passed over, or followed and kept if a required table is behind it. -/
def follow (s : Schema) (required : List TableId) (depth : Nat) (entry : Option LinkId)
    (acc : Bool × Search) (next : LinkId × TableId) : Bool × Search :=
  let w := acc.2
  if w.pending = 0 ∨ entry = some next.1 ∨ next.2 ∈ w.reached then acc
  else
    match s.scan required depth next.2 (some next.1) w with
    | (true, w) => (true, w.keep next.1)
    | (false, w) => (acc.1, w)

theorem scan_succ (s : Schema) (required : List TableId) (depth : Nat) (t : TableId)
    (entry : Option LinkId) (w : Search) :
    s.scan required (depth + 1) t entry w =
      let needed := required.contains t
      let w := w.find needed
      if s.isCycler t then (needed, if needed then w.mark t else w)
      else (s.incident t).foldl (s.follow required depth entry) (needed, w.mark t) := rfl

/-- What the search of a branch from `t` has done: with a required table found it has grown a tree,
without one it has added nothing. -/
def Scanned (s : Schema) (required : List TableId) (t : TableId) (w : Search)
    (result : Bool × Search) : Prop :=
  (result.1 = true ∧ ∃ ts ls, Progress required w result.2 ts ls ∧
    s.Branch required true t ts ls) ∨
  (result.1 = false ∧ Progress required w result.2 [] [])

/-- What the search has done at a table once some of its links are done. -/
def Growing (s : Schema) (required : List TableId) (t : TableId) (w : Search)
    (acc : Bool × Search) : Prop :=
  ∃ ts ls, Progress required w acc.2 ts ls ∧ s.Branch required acc.1 t ts ls

theorem Growing.follow {depth : Nat} {acc : Bool × Search} {next : LinkId × TableId}
    (scan_branch : ∀ {u entry w}, Tally required w → 0 < w.pending → u ∉ w.reached →
      s.Scanned required u w (s.scan required depth u entry w))
    (ht : s.isCycler t = false) (hl : s.Joins next.1 t next.2)
    (h : s.Growing required t w acc) :
    s.Growing required t w (s.follow required depth entry acc next) := by
  obtain ⟨found, w'⟩ := acc
  obtain ⟨l, u⟩ := next
  obtain ⟨ts, ls, hprogress, hbranch⟩ := h
  unfold Schema.follow
  dsimp only at hl hprogress hbranch ⊢
  split
  · exact ⟨ts, ls, hprogress, hbranch⟩
  · next hgo =>
    simp only [not_or] at hgo
    have hscan : s.Scanned required u w' (s.scan required depth u (some l) w') :=
      scan_branch hprogress.tally (Nat.pos_of_ne_zero hgo.1) hgo.2.2
    rcases hscan with ⟨hfound, us, ms, hprogress', hbranch'⟩ | ⟨hfound, hprogress'⟩
    · have hgraft := hbranch.graft hbranch' (hprogress.disjoint hprogress') hl ht
      split
      · next w'' heq =>
        rw [heq] at hprogress'
        exact ⟨_, _, (hprogress.trans hprogress').keep l, hgraft⟩
      · next w'' heq => simp [heq] at hfound
    · split
      · next w'' heq => simp [heq] at hfound
      · next w'' heq =>
        rw [heq] at hprogress'
        have hsame := hprogress.trans hprogress'
        rw [List.append_nil, List.append_nil] at hsame
        exact ⟨ts, ls, hsame, hbranch⟩

/-- Once all links of its root are done, a branch is grown or has added nothing. -/
theorem Growing.scanned {acc : Bool × Search} (h : s.Growing required t w acc) :
    s.Scanned required t w acc := by
  obtain ⟨found, w'⟩ := acc
  obtain ⟨ts, ls, hprogress, hbranch⟩ := h
  cases found with
  | true => exact .inl ⟨rfl, ts, ls, hprogress, hbranch⟩
  | false =>
    obtain ⟨ht, rfl, rfl⟩ := hbranch.unused rfl
    exact .inr ⟨rfl, hprogress.drop ht⟩

theorem scan_branch {depth : Nat} (hw : Tally required w) (hpos : 0 < w.pending)
    (ht : t ∉ w.reached) : s.Scanned required t w (s.scan required depth t entry w) := by
  induction depth generalizing t entry w with
  | zero => exact .inr ⟨rfl, .none hw⟩
  | succ depth ih =>
    rw [scan_succ]
    have henter := Progress.enter hw hpos ht
    by_cases hcycler : s.isCycler t = true
    · -- A cycler ends the branch; an optional one is not even marked.
      simp only [hcycler, if_true]
      by_cases hneeded : t ∈ required
      · have hleaf : s.Branch required true t [t] [] := by
          have hleaf := branch_leaf (s := s) fun _ : s.isCycler t = true => hneeded
          simpa [hneeded] using hleaf
        refine .inl ⟨by simpa using hneeded, [t], [], ?_, hleaf⟩
        simpa [hneeded] using henter
      · refine .inr ⟨by simpa using hneeded, ?_⟩
        simpa [hneeded, Search.find] using Progress.none hw
    · simp only [Bool.not_eq_true] at hcycler
      simp only [hcycler, Bool.false_eq_true, if_false]
      have hstart : s.Growing required t w
          (required.contains t, (w.find (required.contains t)).mark t) :=
        ⟨[t], [], henter, branch_leaf fun h => by simp [hcycler] at h⟩
      refine Growing.scanned (List.foldlRecOn (s.incident t) _ hstart fun acc hacc next hnext => ?_)
      exact Growing.follow ih hcycler (mem_incident.mp hnext) hacc

/-! ## The whole search -/

theorem startTable_mem (ht : s.startTable required = some t) : t ∈ required := by
  unfold startTable at ht
  rcases Option.or_eq_some_iff.mp ht with h | ⟨-, h⟩
  · exact List.mem_of_find?_eq_some h
  · exact List.mem_of_head? h

theorem startTable_isSome (hne : required ≠ []) : ∃ t, s.startTable required = some t := by
  cases required with
  | nil => exact absurd rfl hne
  | cons u required =>
    unfold startTable
    cases List.find? (fun t => !s.isCycler t) (u :: required) with
    | none => exact ⟨u, rfl⟩
    | some t => exact ⟨t, rfl⟩

theorem search_eq (ht : s.startTable required = some t) : s.search required
    = (s.scan required s.tables.length t none ⟨[], required.length, []⟩).2 := by
  simp [search, ht]

/-- The whole search is that of the branch from its start. -/
theorem scanned_start (ht : s.startTable required = some t) :
    s.Scanned required t ⟨[], required.length, []⟩
      (s.scan required s.tables.length t none ⟨[], required.length, []⟩) :=
  scan_branch (tally_start required)
    (List.length_pos_iff.mpr (List.ne_nil_of_mem (startTable_mem ht))) (by simp)

theorem tally_search (ht : s.startTable required = some t) : Tally required (s.search required) := by
  rw [search_eq ht]
  rcases scanned_start ht with ⟨-, _, _, hprogress, -⟩ | ⟨-, hprogress⟩
  · exact hprogress.tally
  · exact hprogress.tally

/-- The links of a search that leaves no table missing are those of one branch, which has all
required tables. -/
theorem resolve_branch {r : Requirements} (hne : r.tables ≠ [])
    (h : (s.resolve r).1 = .ok ls) :
    ∃ t ts, t ∈ r.tables ∧ s.Branch r.tables true t ts ls ∧ ∀ u ∈ r.tables, u ∈ ts := by
  obtain ⟨t, ht⟩ := startTable_isSome (s := s) hne
  unfold resolve at h
  dsimp only at h
  split at h
  · cases h
  · next hpending =>
    have hnone := Nat.eq_zero_of_not_pos hpending
    simp only [Except.ok.injEq] at h
    rw [search_eq ht] at h hnone
    rcases scanned_start ht with ⟨-, ts, ms, hprogress, hbranch⟩ | ⟨-, hprogress⟩
    · have hlinks := hprogress.links
      rw [h, List.nil_append] at hlinks
      subst hlinks
      refine ⟨t, ts, startTable_mem ht, hbranch, fun u hu => ?_⟩
      exact hprogress.covered u (hprogress.tally.covers hnone hu) (by simp) hu
    · -- The start is required, so the branch cannot have added nothing.
      have hstart := startTable_mem ht
      have := hprogress.covered t (hprogress.tally.covers hnone hstart) (by simp) hstart
      cases this

end Schema

end CatalogQuery
