import CatalogQuery.Join.Marking
import CatalogQuery.Proofs.Join.JoinClauses

/-!
# The search with marks

A search on marks that are kept from one compilation to the next finds what a search from scratch
finds: clearing leaves nothing of the marks before, and from then on the marked tables are the
reached ones.

* `Marking.Records`: marks that record certain requirements;
* `explore_mirrors`: both searches of a branch take the same links;
* `explored_eq`: both have the same outcome and record the same count.
-/

namespace CatalogQuery

variable {n : Nat} {r r' : Requirements} {m m' : Marking} {t u : TableId} {v : Visit}

namespace Requirements

/-! ## Required tables and their letters -/

theorem contains_of_tables (h : r.tables = r'.tables) : r.contains = r'.contains := by
  funext u
  rw [contains, contains, h]

theorem letter?_of_tables (h : r.tables = r'.tables) : r.letter? = r'.letter? := by
  funext u
  rw [letter?, letter?, h]

theorem contains_require_iff (r : Requirements) (t u : TableId) :
    (r.require t).contains u = (t == u || r.contains u) := by
  by_cases ht : r.contains t = true
  · by_cases htu : t = u
    · simp [htu]
    · simp [require, ht, htu]
  · rw [require, if_neg ht]
    by_cases htu : t = u
    · simp [contains, htu]
    · simp [contains, htu, Ne.symm htu]

theorem letter?_require (r : Requirements) (t u : TableId) (ht : r.contains t = false) :
    (r.require t).letter? u
      = if t = u then some (letterAt r.tables.length) else r.letter? u := by
  have ht' : t ∉ r.tables := by simpa [contains] using ht
  simp only [letter?, require, ht, Bool.false_eq_true, if_false,
    List.findIdx?_append, List.findIdx?_singleton, beq_iff_eq]
  by_cases htu : t = u
  · subst htu
    have hnone : r.tables.findIdx? (· == t) = none := by
      rw [List.findIdx?_eq_none_iff]
      intro v hv
      have hne : v ≠ t := fun e => ht' (e ▸ hv)
      simpa using hne
    simp [hnone]
  · simp [htu]

end Requirements

namespace Marking

/-! ## What is recorded -/

/-- The marks of `n` tables record requirements, whatever the last search has marked. -/
structure Records (n : Nat) (r : Requirements) (m : Marking) : Prop where
  visits : m.visits.length = n
  required : m.required = (List.range n).map r.contains
  order : m.order = r.tables
  letters : m.letters = (List.range n).map r.letter?
  nextLetter : m.nextLetter = Requirements.letterAt r.tables.length
  pending : m.pending = r.pending

theorem records_blank (n : Nat) : (blank n).Records n .empty where
  visits := List.length_replicate
  required := by
    show List.replicate n false = (List.range n).map fun _ => false
    rw [List.map_const', List.length_range]
  order := rfl
  letters := by
    show List.replicate n none = (List.range n).map fun _ => none
    rw [List.map_const', List.length_range]
  nextLetter := rfl
  pending := rfl

theorem Records.reset (h : m.Records n r) : m.reset.Records n .empty := by
  rw [Marking.reset, h.visits]
  exact records_blank n

theorem Records.isRequired (h : m.Records n r) (ht : t < n) : m.isRequired t = r.contains t := by
  simp [Marking.isRequired, h.required, ht]

theorem letterAfter_letterAt (k : Nat) :
    letterAfter (Requirements.letterAt k) = Requirements.letterAt (k + 1) := by
  have hall : ∀ j < 52,
      letterAfter (if j < 26 then Char.ofNat (97 + j) else Char.ofNat (39 + j))
        = Requirements.letterAt (j + 1) := by
    decide +kernel
  have h := hall (k % 52) (Nat.mod_lt k (by decide))
  unfold Requirements.letterAt at h ⊢
  rw [Nat.mod_add_mod] at h
  exact h

/-- An entry for each table, one of which is written. -/
theorem map_range_set {α : Type} (f g : Nat → α) (a : α) (h : ∀ u, g u = if t = u then a else f u) :
    ((List.range n).map f).set t a = (List.range n).map g := by
  refine List.ext_getElem (by simp) fun u hu _ => ?_
  rw [List.getElem_set, List.getElem_map, List.getElem_map, List.getElem_range, h]

theorem Records.require (h : m.Records n r) (ht : t < n) :
    (m.require t).Records n (r.require t) := by
  unfold Marking.require
  rw [h.isRequired ht]
  by_cases hneeded : r.contains t = true
  · rw [if_pos hneeded, Requirements.require, if_pos hneeded]
    exact h
  · have hnew : r.contains t = false := by simpa using hneeded
    have htables : (r.require t).tables = r.tables ++ [t] := by simp [Requirements.require, hnew]
    rw [if_neg hneeded]
    constructor
    case visits => exact h.visits
    case required =>
      rw [h.required]
      refine map_range_set _ _ _ fun u => ?_
      rw [Requirements.contains_require_iff]
      by_cases htu : t = u <;> simp [htu]
    case order => rw [htables, h.order]
    case letters =>
      rw [h.letters, h.nextLetter]
      exact map_range_set _ _ _ fun u => Requirements.letter?_require r t u hnew
    case nextLetter =>
      rw [htables, h.nextLetter, letterAfter_letterAt, List.length_append, List.length_singleton]
    case pending => simp [Requirements.require, hnew, h.pending]

/-- With the marks cleared, records of the same required tables do not differ. -/
theorem Records.restart_eq (h : m.Records n r) (h' : m'.Records n r')
    (hsame : r.tables = r'.tables) : m.restart = m'.restart := by
  unfold restart
  rw [h.visits, h'.visits, h.required, h'.required, Requirements.contains_of_tables hsame,
    h.order, h'.order, h.letters, h'.letters, Requirements.letter?_of_tables hsame, h.nextLetter, h'.nextLetter, hsame]

/-! ## Marks -/

@[simp] theorem restart_mark (m : Marking) (t : TableId) (v : Visit) :
    (m.mark t v).restart = m.restart := by
  simp [restart, mark]

@[simp] theorem restart_find (m : Marking) (needed : Bool) :
    (m.find needed).restart = m.restart := by
  unfold find
  split <;> rfl

@[simp] theorem restart_restart (m : Marking) : m.restart.restart = m.restart := by
  simp [restart]

@[simp] theorem visit_find (m : Marking) (needed : Bool) : (m.find needed).visit = m.visit := by
  unfold find
  split <;> rfl

theorem visit_mark (ht : t < m.visits.length) :
    (m.mark t v).visit u = if t = u then v else m.visit u := by
  simp only [visit, mark, List.getD_eq_getElem?_getD, List.getElem?_set]
  by_cases htu : t = u
  · simp [htu, htu ▸ ht]
  · simp [htu]

theorem visit_restart (m : Marking) (t : TableId) : m.restart.visit t = .unseen := by
  simp only [visit, restart, List.getD_eq_getElem?_getD, List.getElem?_replicate]
  split <;> rfl

/-- Marks that differ in what a search has marked record the same. -/
theorem isRequired_of_restart (h : m.restart = m'.restart) : m.isRequired = m'.isRequired := by
  have hrequired : m.restart.required = m'.restart.required := congrArg Marking.required h
  funext u
  exact congrArg (·.getD u false) hrequired

theorem order_of_restart (h : m.restart = m'.restart) : m.order = m'.order := by
  have horder : m.restart.order = m'.restart.order := congrArg Marking.order h
  exact horder

theorem length_of_restart (h : m.restart = m'.restart) : m.visits.length = m'.visits.length := by
  simpa [restart] using congrArg (fun m => m.visits.length) h

/-- Marks that a search has changed go on to record its requirements, with another count. -/
theorem Records.of_restart (h : m.Records n r) (hsame : m'.restart = m.restart)
    (htables : r'.tables = r.tables) (hpending : m'.pending = r'.pending) : m'.Records n r' where
  visits := (length_of_restart hsame).trans h.visits
  required := by
    have hrequired : m'.restart.required = m.restart.required := congrArg Marking.required hsame
    rw [Requirements.contains_of_tables htables]
    exact hrequired.trans h.required
  order := by rw [order_of_restart hsame, h.order, htables]
  letters := by
    have hletters : m'.restart.letters = m.restart.letters := congrArg Marking.letters hsame
    rw [Requirements.letter?_of_tables htables]
    exact hletters.trans h.letters
  nextLetter := by
    have hnext : m'.restart.nextLetter = m.restart.nextLetter := congrArg Marking.nextLetter hsame
    rw [htables]
    exact hnext.trans h.nextLetter
  pending := hpending

end Marking

/-! ## Both searches -/

namespace Schema

variable {s : Schema} {required : List TableId} {w : Search} {ls : List LinkId}
  {entry : Option LinkId}

/-- A search on the marks `m` stands where the search without marks stands: the tables marked are
those reached, and the same links are kept. -/
structure Mirrors (s : Schema) (m : Marking) (kept : Marking × List LinkId) (w : Search) :
    Prop where
  same : kept.1.restart = m.restart
  visits : ∀ t < s.tables.length, kept.1.visit t ≠ .unseen ↔ t ∈ w.reached
  pending : kept.1.pending = w.pending
  links : kept.2 = w.links

theorem Mirrors.find (h : s.Mirrors m (m', ls) w) (needed : Bool) :
    s.Mirrors m (m'.find needed, ls) (w.find needed) where
  same := by rw [Marking.restart_find]; exact h.same
  visits := by rw [Marking.visit_find, Search.reached_find]; exact h.visits
  pending := by
    have hpending := h.pending
    cases needed with
    | false => exact hpending
    | true => exact congrArg (· - 1) hpending
  links := by rw [Search.links_find]; exact h.links

theorem Mirrors.mark (h : s.Mirrors m (m', ls) w) (hm : m.visits.length = s.tables.length)
    (ht : t < s.tables.length) (hv : v ≠ .unseen) : s.Mirrors m (m'.mark t v, ls) (w.mark t) where
  same := by rw [Marking.restart_mark]; exact h.same
  visits := by
    intro u hu
    have hlt : t < m'.visits.length := by
      rw [Marking.length_of_restart h.same, hm]
      exact ht
    rw [Marking.visit_mark hlt, Search.reached_mark, List.mem_cons, ← h.visits u hu]
    by_cases htu : t = u
    · simp [htu, hv]
    · simp [htu, Ne.symm htu]
  pending := h.pending
  links := h.links

theorem Mirrors.keep (h : s.Mirrors m (m', ls) w) (l : LinkId) :
    s.Mirrors m (m', ls ++ [l]) (w.keep l) where
  same := h.same
  visits := h.visits
  pending := h.pending
  links := congrArg (· ++ [l]) h.links

/-- The same answer, and marks that go on to mirror the search. -/
def Agree (s : Schema) (m : Marking) (marked : Bool × Marking × List LinkId)
    (result : Bool × Search) : Prop :=
  marked.1 = result.1 ∧ s.Mirrors m marked.2 result.2

theorem explore_mirrors (hs : s.WellFormed) (hm : m.visits.length = s.tables.length)
    (hrequired : ∀ t < s.tables.length, m.isRequired t = required.contains t) {depth : Nat}
    (h : s.Mirrors m (m', ls) w) (ht : t < s.tables.length) :
    s.Agree m (s.explore depth t entry (m', ls)) (s.scan required depth t entry w) := by
  induction depth generalizing t entry m' ls w with
  | zero => exact ⟨rfl, h⟩
  | succ depth ih =>
    have hneeded : m'.isRequired t = required.contains t := by
      rw [Marking.isRequired_of_restart h.same, hrequired t ht]
    have hfound := h.find (required.contains t)
    rw [scan_succ, explore]
    dsimp only
    rw [hneeded]
    split
    · split
      · exact ⟨rfl, hfound.mark hm ht nofun⟩
      · exact ⟨rfl, hfound⟩
    · refine List.foldl_rel ⟨rfl, hfound.mark hm ht nofun⟩ ?_
      rintro ⟨l, u⟩ hnext ⟨found, m₁, ls₁⟩ ⟨found', w₁⟩ ⟨hfound', h₁⟩
      have hu : u < s.tables.length := (mem_incident.mp hnext).symm.lt hs
      have hskip : (m₁.pending = 0 ∨ entry = some l ∨ m₁.visit u ≠ .unseen) ↔
          (w₁.pending = 0 ∨ entry = some l ∨ u ∈ w₁.reached) := by
        rw [← h₁.visits u hu, h₁.pending]
      unfold follow
      dsimp only at hfound' ⊢
      by_cases hgo : w₁.pending = 0 ∨ entry = some l ∨ u ∈ w₁.reached
      · rw [if_pos hgo, if_pos (hskip.mpr hgo)]
        exact ⟨hfound', h₁⟩
      · rw [if_neg hgo, if_neg (mt hskip.mp hgo)]
        have hbranch : s.Agree m (s.explore depth u (some l) (m₁, ls₁))
            (s.scan required depth u (some l) w₁) := ih h₁ hu
        obtain ⟨hanswer, h₂⟩ := hbranch
        generalize s.explore depth u (some l) (m₁, ls₁) = marked at hanswer h₂
        generalize s.scan required depth u (some l) w₁ = result at hanswer h₂
        obtain ⟨answer, m₂, ls₂⟩ := marked
        obtain ⟨answer', w₂⟩ := result
        obtain rfl : answer = answer' := hanswer
        cases answer with
        | true => exact ⟨rfl, h₂.keep l⟩
        | false => exact ⟨hfound', h₂⟩

/-- An attempt on marks that are kept has the outcome of an attempt from scratch, and records as
many missing tables. -/
theorem explored_eq (hs : s.WellFormed) (hr : r.Asked s) (h : m.Records s.tables.length r) :
    (s.explored m).1 = (s.resolve r).1 ∧
      (s.explored m).2.Records s.tables.length (s.resolve r).2 := by
  have hpending : m.restart.pending = r.tables.length := congrArg List.length h.order
  have horder : m.restart.order = r.tables := h.order
  unfold explored resolve
  dsimp only
  rw [horder]
  cases hstart : s.startTable r.tables with
  | none =>
    have hempty : r.tables = [] := by
      by_contra hne
      obtain ⟨t, ht⟩ := startTable_isSome (s := s) hne
      cases hstart.symm.trans ht
    have hsearch : s.search r.tables = ⟨[], 0, []⟩ := by
      rw [hempty]
      rfl
    rw [hsearch]
    refine ⟨rfl, h.of_restart m.restart_restart rfl ?_⟩
    rw [hpending, hempty]
    rfl
  | some t =>
    have hm : m.restart.visits.length = s.tables.length := by simp [Marking.restart, h.visits]
    have hrequired : ∀ u < s.tables.length, m.restart.isRequired u = r.tables.contains u :=
      fun u hu => h.isRequired hu
    have hclear : s.Mirrors m.restart (m.restart, []) ⟨[], r.tables.length, []⟩ :=
      ⟨rfl, fun u _ => by simp [Marking.visit_restart], hpending, rfl⟩
    have hlt := hr.lt t (startTable_mem hstart)
    have hbranch : s.Agree m.restart (s.explore s.tables.length t none (m.restart, []))
        (s.scan r.tables s.tables.length t none ⟨[], r.tables.length, []⟩) :=
      explore_mirrors hs hm hrequired hclear hlt
    have hmirrors := hbranch.2
    rw [← search_eq hstart] at hmirrors
    dsimp only
    generalize (s.explore s.tables.length t none (m.restart, [])).2 = marked at hmirrors ⊢
    generalize s.search r.tables = w at hmirrors ⊢
    have hsame : marked.1.restart = m.restart := hmirrors.same.trans m.restart_restart
    have hunreached : marked.1.unreached = r.tables.filter fun u => !w.reached.contains u := by
      rw [Marking.unreached, Marking.order_of_restart hsame, h.order]
      refine List.filter_congr fun u hu => ?_
      have hvisit := hmirrors.visits u (hr.lt u hu)
      by_cases hreached : u ∈ w.reached
      · simp [hreached, hvisit.mpr hreached]
      · simp [hreached, not_not.mp (mt hvisit.mp hreached)]
    rw [hmirrors.pending, hunreached, hmirrors.links]
    split
    · exact ⟨rfl, h.of_restart hsame rfl hmirrors.pending⟩
    · exact ⟨rfl, h.of_restart hsame rfl hmirrors.pending⟩

end Schema

end CatalogQuery
