import CatalogQuery.Proofs.Join.JoinClauses
import CatalogQuery.Proofs.Schema.Forest

/-!
# The search reaches what is connected

A search that still misses a required table has left no link untried: whatever an ordinary table it
has reached is joined to is reached too, cyclers aside that are not required. So it fails only if the
required tables are not connected, in whatever order they were asked for.

* `Spread`: what a branch of the search leaves behind when tables are missing;
* `scan_spread`: every branch does;
* `resolve_ok_of_connected`: ordinary tables that are connected are found.
-/

namespace CatalogQuery

/-- No table is asked for twice. -/
theorem Requirements.Asked.nodup {s : Schema} {r : Requirements} (h : r.Asked s) : r.tables.Nodup := by
  induction h with
  | empty => exact .nil
  | require _ _ ih => exact Requirements.nodup_require ih _
  | resolve _ ih => rwa [tables_resolve]

namespace Schema

variable {s : Schema} {required seen : List TableId} {w w' : Search} {l : LinkId}
  {t u : TableId} {entry : Option LinkId} {done : List (LinkId × TableId)}

/-- The search marks the table when it gets there. -/
def Marks (s : Schema) (required : List TableId) (t : TableId) : Prop :=
  s.isCycler t = false ∨ t ∈ required

/-- What the search has done since only `seen` was reached: as long as tables are missing, whatever
an ordinary table reached since is joined to is reached, unless it is not marked, but for the links
of `t` still to be tried. -/
structure Spread (s : Schema) (required seen : List TableId) (t : TableId)
    (done : List (LinkId × TableId)) (w' : Search) : Prop where
  kept : ∀ v ∈ seen, v ∈ w'.reached
  closed : 0 < w'.pending → ∀ v ∈ w'.reached, v ∉ seen → s.isCycler v = false →
    ∀ l u, s.Joins l v u → s.Marks required u → u ∈ w'.reached ∨ v = t ∧ (l, u) ∉ done

/-- A branch that was searched to its end has tried all links. -/
structure Searched (s : Schema) (required : List TableId) (t : TableId) (w w' : Search) : Prop where
  spread : s.Spread required w.reached t (s.incident t) w'
  start : s.Marks required t → t ∈ w'.reached
  pending : w'.pending ≤ w.pending

theorem Searched.closed (h : s.Searched required t w w') (hmissing : 0 < w'.pending) {v : TableId}
    (hv : v ∈ w'.reached) (hnew : v ∉ w.reached) (hplain : s.isCycler v = false)
    (hj : s.Joins l v u) (hu : s.Marks required u) : u ∈ w'.reached := by
  rcases h.spread.closed hmissing v hv hnew hplain l u hj hu with hreached | ⟨rfl, hnot⟩
  · exact hreached
  · exact absurd (mem_incident.mpr hj) hnot

/-- The table that a branch was entered from. -/
def EnteredFrom (s : Schema) (entry : Option LinkId) (t : TableId) (w : Search) : Prop :=
  ∀ l, entry = some l → ∃ v, s.Joins l t v ∧ v ∈ w.reached

theorem pending_find_le (w : Search) (needed : Bool) : (w.find needed).pending ≤ w.pending := by
  unfold Search.find
  split
  · exact Nat.sub_le _ _
  · exact Nat.le_refl _

/-- One more link of `t` is tried. -/
theorem Spread.follow {depth : Nat} {acc : Bool × Search} {next : LinkId × TableId}
    (scan_spread : ∀ {u entry w}, u ∉ w.reached → u < s.tables.length →
      s.unseen w.reached ≤ depth → s.EnteredFrom entry u w →
      s.Searched required u w (s.scan required depth u entry w).2)
    (hs : s.WellFormed) (hentry : s.EnteredFrom entry t w) (hnext : s.Joins next.1 t next.2)
    (hdepth : s.unseen (t :: w.reached) ≤ depth) (ht : t ∈ acc.2.reached)
    (hpending : acc.2.pending ≤ w.pending) (h : s.Spread required w.reached t done acc.2) :
    s.Spread required w.reached t (done ++ [next]) (s.follow required depth entry acc next).2 ∧
    t ∈ (s.follow required depth entry acc next).2.reached ∧
    (s.follow required depth entry acc next).2.pending ≤ w.pending := by
  obtain ⟨found, w₁⟩ := acc
  obtain ⟨l, u⟩ := next
  dsimp only at hnext ht hpending h
  -- The link needs not be followed if what it leads to is reached, or nothing is missing.
  have hsame : (0 < w₁.pending → u ∈ w₁.reached) →
      s.Spread required w.reached t (done ++ [(l, u)]) w₁ := by
    intro hu
    refine ⟨h.kept, fun hmissing v hv hnew hplain k x hj hx => ?_⟩
    rcases h.closed hmissing v hv hnew hplain k x hj hx with hreached | ⟨rfl, hnot⟩
    · exact .inl hreached
    · by_cases hkx : (k, x) = (l, u)
      · cases hkx
        exact .inl (hu hmissing)
      · refine .inr ⟨rfl, ?_⟩
        simpa [hnot] using hkx
  unfold Schema.follow
  dsimp only
  split
  · next hskip =>
    refine ⟨hsame fun hmissing => ?_, ht, hpending⟩
    rcases hskip with hnone | hback | hreached
    · omega
    · -- The entry leads back to where the branch was entered from.
      obtain ⟨v, hv, hmem⟩ := hentry l hback
      have hvu : v = u := by
        rcases hv.ends hnext with ⟨-, rfl⟩ | ⟨rfl, rfl⟩
        · rfl
        · rfl
      exact h.kept u (hvu ▸ hmem)
    · exact hreached
  · next hgo =>
    simp only [not_or] at hgo
    have hunseen : s.unseen w₁.reached ≤ depth := by
      refine Nat.le_trans (unseen_le_of_subset fun v hv => ?_) hdepth
      rcases List.mem_cons.mp hv with rfl | hv
      · exact ht
      · exact h.kept v hv
    have hfrom : s.EnteredFrom (some l) u w₁ := by
      intro k hk
      cases hk
      exact ⟨t, hnext.symm, ht⟩
    have hscan := scan_spread hgo.2.2 (hnext.symm.lt hs) hunseen hfrom
    have hpast : s.Spread required w.reached t (done ++ [(l, u)]) (s.scan required depth u (some l) w₁).2 := by
      refine ⟨fun v hv => hscan.spread.kept v (h.kept v hv), ?_⟩
      intro hmissing v hv hnew hplain k x hj hx
      by_cases hold : v ∈ w₁.reached
      · have hmissing₁ : 0 < w₁.pending := Nat.lt_of_lt_of_le hmissing hscan.pending
        rcases h.closed hmissing₁ v hold hnew hplain k x hj hx with hreached | ⟨rfl, hnot⟩
        · exact .inl (hscan.spread.kept x hreached)
        · by_cases hkx : (k, x) = (l, u)
          · cases hkx
            exact .inl (hscan.start hx)
          · refine .inr ⟨rfl, ?_⟩
            simpa [hnot] using hkx
      · exact .inl (hscan.closed hmissing hv hold hplain hj hx)
    have hrest := Nat.le_trans hscan.pending hpending
    have hstill := hscan.spread.kept t ht
    split
    · next heq =>
      rw [heq] at hpast hrest hstill
      exact ⟨⟨hpast.kept, hpast.closed⟩, hstill, hrest⟩
    · next heq =>
      rw [heq] at hpast hrest hstill
      exact ⟨hpast, hstill, hrest⟩

/-- All links of `t` are tried. -/
theorem Spread.followAll {depth : Nat} {acc : Bool × Search} {rest : List (LinkId × TableId)}
    (scan_spread : ∀ {u entry w}, u ∉ w.reached → u < s.tables.length →
      s.unseen w.reached ≤ depth → s.EnteredFrom entry u w →
      s.Searched required u w (s.scan required depth u entry w).2)
    (hs : s.WellFormed) (hentry : s.EnteredFrom entry t w)
    (hdepth : s.unseen (t :: w.reached) ≤ depth) (hdone : done ++ rest = s.incident t)
    (ht : t ∈ acc.2.reached) (hpending : acc.2.pending ≤ w.pending)
    (h : s.Spread required w.reached t done acc.2) :
    s.Searched required t w (rest.foldl (s.follow required depth entry) acc).2 := by
  induction rest generalizing done acc with
  | nil =>
    rw [List.append_nil] at hdone
    exact ⟨hdone ▸ h, fun _ => ht, hpending⟩
  | cons next rest ih =>
    have hnext : s.Joins next.1 t next.2 :=
      mem_incident.mp (hdone ▸ List.mem_append_right _ List.mem_cons_self)
    obtain ⟨hspread, hmem, hless⟩ := h.follow scan_spread hs hentry hnext hdepth ht hpending
    exact ih (by simp [← hdone]) hmem hless hspread

theorem scan_spread (hs : s.WellFormed) {depth : Nat} (ht : t ∉ w.reached)
    (hlt : t < s.tables.length) (hdepth : s.unseen w.reached ≤ depth)
    (hentry : s.EnteredFrom entry t w) :
    s.Searched required t w (s.scan required depth t entry w).2 := by
  induction depth generalizing t entry w with
  | zero =>
    have hpos := unseen_cons_lt hlt ht
    omega
  | succ depth ih =>
    rw [scan_succ]
    have hless := pending_find_le w (required.contains t)
    by_cases hcycler : s.isCycler t = true
    · simp only [hcycler, if_true]
      have hnone : ∀ v, v ∈ (if required.contains t = true then (w.find (required.contains t)).mark t
          else w.find (required.contains t)).reached → v ∉ w.reached → s.isCycler v = true := by
        intro v hv hnew
        split at hv
        · rw [Search.reached_mark, Search.reached_find] at hv
          rcases List.mem_cons.mp hv with rfl | hv
          · exact hcycler
          · exact absurd hv hnew
        · rw [Search.reached_find] at hv
          exact absurd hv hnew
      constructor
      case start =>
        rintro (hplain | hneeded)
        · cases hcycler.symm.trans hplain
        · simp [hneeded]
      case pending =>
        split <;> exact hless
      case spread =>
        constructor
        case kept =>
          intro v hv
          split <;> simp [hv]
        case closed =>
          intro _ v hv hnew hplain
          cases (hnone v hv hnew).symm.trans hplain
    · simp only [Bool.not_eq_true] at hcycler
      simp only [hcycler, Bool.false_eq_true, if_false]
      have hbelow : s.unseen (t :: w.reached) ≤ depth := by
        have hpos := unseen_cons_lt hlt ht
        omega
      have hstart : s.Spread required w.reached t [] ((w.find (required.contains t)).mark t) := by
        refine ⟨fun v hv => by simp [hv], fun _ v hv hnew _ l u _ _ => .inr ⟨?_, by simp⟩⟩
        rw [Search.reached_mark, Search.reached_find] at hv
        exact (List.mem_cons.mp hv).resolve_right hnew
      exact hstart.followAll ih hs hentry hbelow (List.nil_append _) List.mem_cons_self hless

/-! ## The whole search -/

/-- As long as tables are missing, the search has reached all that is connected to its start. -/
theorem Searched.reaches {n : Nat} (h : s.Searched required t ⟨[], n, []⟩ w') (hmissing : 0 < w'.pending)
    (ht : s.isCycler t = false) (hconnected : s.Connected s.Ordinary t u) : u ∈ w'.reached := by
  obtain ⟨ls, hwalk, hordinary⟩ := hconnected
  have hgo : ∀ {v ls u}, s.Walk v ls u → (∀ l ∈ ls, s.Ordinary l) → v ∈ w'.reached →
      u ∈ w'.reached := by
    intro v ls u hwalk
    induction hwalk with
    | nil v => exact fun _ hv => hv
    | @cons l ls v x u hj _ ih =>
      intro hordinary hv
      obtain ⟨hplain, hx⟩ := (hordinary l List.mem_cons_self).ends hj
      have hnext := h.closed hmissing hv (by simp) hplain hj (.inl hx)
      exact ih (fun k hk => hordinary k (List.mem_cons_of_mem _ hk)) hnext
  exact hgo hwalk hordinary (h.start (.inl ht))

/-- When all required tables are reached, none is missing. -/
theorem Tally.pending_eq_zero (h : Tally required w) (hn : required.Nodup)
    (hall : ∀ t ∈ required, t ∈ w.reached) : w.pending = 0 := by
  have hsub : required ⊆ w.reached.filter required.contains := by
    intro t ht
    exact List.mem_filter.mpr ⟨hall t ht, by simpa using ht⟩
  have hle := (List.subperm_of_subset hn hsub).length_le
  have hcount := h.count
  rw [List.countP_eq_length_filter] at hcount
  omega

/-- The whole search tries all links as long as tables are missing. -/
theorem searched_start (hs : s.WellFormed) (ht : s.startTable required = some t)
    (hlt : t < s.tables.length) :
    s.Searched required t ⟨[], required.length, []⟩ (s.search required) := by
  rw [search_eq ht]
  exact scan_spread hs (by simp) hlt (unseen_le s _) nofun

/-- Ordinary tables that are connected are found. -/
theorem resolve_ok_of_connected {r : Requirements} (hs : s.WellFormed) (hr : r.Asked s)
    (hplain : ∀ t ∈ r.tables, s.isCycler t = false)
    (hconnected : ∀ t ∈ r.tables, ∀ u ∈ r.tables, s.Connected s.Ordinary t u) :
    ∃ ls, (s.resolve r).1 = .ok ls := by
  have hnone : (s.search r.tables).pending = 0 := by
    by_cases hempty : r.tables = []
    · rw [hempty]
      rfl
    · obtain ⟨t, hstart⟩ := startTable_isSome (s := s) hempty
      have ht := startTable_mem hstart
      have hsearched := searched_start hs hstart (hr.lt t ht)
      by_contra hpos
      have hmissing := Nat.pos_of_ne_zero hpos
      exact hpos ((tally_search hstart).pending_eq_zero hr.nodup fun u hu =>
        hsearched.reaches hmissing (hplain t ht) (hconnected t ht u hu))
  refine ⟨(s.search r.tables).links, ?_⟩
  simp [resolve, hnone]

end Schema

end CatalogQuery
