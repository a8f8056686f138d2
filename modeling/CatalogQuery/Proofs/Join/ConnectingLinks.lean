import CatalogQuery.Proofs.Join.MissingTables
import CatalogQuery.Proofs.Schema.SimplePaths

/-!
# Links that connect the required tables

Whether some links connect the required tables and cross no cycler is a matter of the links alone:
no table is the first one, and no direction is given. The search finds such links where one of the
required tables is no cycler, since it begins at such a table. Several cyclers alone it never joins:
a cycler is not left, not even the one at which the search begins.

* `SparesCyclers.reaches`: along such links, every table is reached from an ordinary one;
* `Branch.connects`: what the search keeps are such links;
* `joined_iff_connected`: when the required tables are joined, whatever the order of the requests.
-/

namespace CatalogQuery.Schema

variable {s : Schema} {E : LinkId → Prop} {l m : LinkId} {t u : TableId}
  {ts required : List TableId} {ls : List LinkId} {r : Requirements}

/-- No cycler is crossed along links of `E`: each touches at most one of them. -/
def SparesCyclers (s : Schema) (E : LinkId → Prop) : Prop :=
  ∀ t, s.isCycler t = true → ∀ l m, E l → E m → s.touches t l = true → s.touches t m = true → l = m

/-- The links of `E` connect the tables `ts`, and no cycler is crossed along them. -/
structure Connects (s : Schema) (E : LinkId → Prop) (ts : List TableId) : Prop where
  connected : ∀ t ∈ ts, ∀ u ∈ ts, s.Connected E t u
  spares : s.SparesCyclers E

/-- The search is not stuck where it begins: it begins at an ordinary table, or has nowhere else to
go. -/
def Startable (s : Schema) (ts : List TableId) : Prop :=
  (∃ t ∈ ts, s.isCycler t = false) ∨ ∀ t ∈ ts, ∀ u ∈ ts, t = u

/-! ## From links to a search -/

/-- A simple path goes on only at tables that are no cyclers, so it can be searched from an ordinary
start. -/
theorem SparesCyclers.reaches (h : s.SparesCyclers E) (hpath : s.Path E t ts ls u)
    (ht : s.isCycler t = false) : s.Reaches t u := by
  induction hpath with
  | nil t => exact .refl
  | @cons l ls t x u ts hE hl hnot hrest ih =>
    have hfirst : s.Reaches t x := .step .refl ht hl
    cases hrest with
    | nil => exact hfirst
    | @cons m ms _ y _ us hE' hm hnot' hrest' =>
      -- The path enters `x` by `l` and leaves it by `m`, and `l` would lead back to `t`.
      have hne : l ≠ m := by
        rintro rfl
        rcases hl.ends hm with ⟨rfl, -⟩ | ⟨-, rfl⟩
        · exact hnot List.mem_cons_self
        · exact hnot (List.mem_cons_of_mem _ hrest'.start_mem)
      have hx : s.isCycler x = false := by
        by_contra hcycler
        rw [Bool.not_eq_false] at hcycler
        exact hne (h x hcycler l m hE hE' (touches_iff.mpr ⟨t, hl.symm⟩) (touches_iff.mpr ⟨y, hm⟩))
      exact hfirst.trans (ih hx)

theorem Connects.reaches (h : s.Connects E required) (ht : t ∈ required) (hu : u ∈ required)
    (hplain : s.isCycler t = false) : s.Reaches t u := by
  obtain ⟨ls, ts, hpath⟩ := (h.connected t ht u hu).exists_path
  exact h.spares.reaches hpath hplain

/-- Connected tables are joined if the search is not stuck where it begins. -/
theorem Connects.resolve_ok (hs : s.WellFormed) (hr : r.Asked s) (h : s.Connects E r.tables)
    (hstartable : s.Startable r.tables) : ∃ ls, (s.resolve r).1 = .ok ls := by
  by_cases hempty : r.tables = []
  · exact resolve_ok_of_same hs .empty hr (by simp [hempty, Requirements.empty]) ⟨[], rfl⟩
  · obtain ⟨t, hstart⟩ := startTable_isSome (s := s) hempty
    have ht := startTable_mem hstart
    refine (resolve_ok_iff_reaches hs hr hstart).mpr fun u hu => ?_
    cases hcycler : s.isCycler t with
    | false => exact h.reaches ht hu hcycler
    | true =>
      -- No required table is ordinary, or the search would begin there.
      rcases hstartable with ⟨v, hv, hplain⟩ | hsingle
      · rw [startTable_isCycler hstart hcycler hv] at hplain
        cases hplain
      · rw [hsingle t ht u hu]
        exact .refl

/-! ## From a search to links -/

theorem two_le_degree (hl : l ∈ ls) (hm : m ∈ ls) (htl : s.touches t l = true)
    (htm : s.touches t m = true) (hne : l ≠ m) : 2 ≤ s.degree ls t := by
  have hsub : [l, m].Subperm (ls.filter (s.touches t)) :=
    List.subperm_of_subset (by simp [hne]) (by simp [hl, hm, htl, htm])
  rw [degree, List.countP_eq_length_filter]
  exact hsub.length_le

/-- The links of a branch connect all its tables, and end at every cycler. -/
theorem Branch.connects {found : Bool} (h : s.Branch required found t ts ls)
    (hsub : ∀ u ∈ required, u ∈ ts) : s.Connects (· ∈ ls) required where
  connected := fun _ hu _ hv => h.tree.connected (hsub _ hu) (hsub _ hv)
  spares := by
    intro u hcycler l m hl hm hul hum
    by_contra hne
    obtain ⟨v, hv⟩ := touches_iff.mp hul
    have hdegree := (h.ends u (h.tree.ends_mem hl hv).1 hcycler).2
    have htwo := two_le_degree hl hm hul hum hne
    omega

theorem exists_connects (h : (s.resolve r).1 = .ok ls) : ∃ E, s.Connects E r.tables := by
  by_cases hempty : r.tables = []
  · exact ⟨fun _ => False, by simp [hempty], fun _ _ _ _ hE => hE.elim⟩
  · obtain ⟨t, ts, -, hbranch, hsub⟩ := resolve_branch hempty h
    exact ⟨_, hbranch.connects hsub⟩

/-- Cyclers alone are joined only if there is no more than one of them. -/
theorem startable_of_ok (hs : s.WellFormed) (hr : r.Asked s)
    (h : ∃ ls, (s.resolve r).1 = .ok ls) : s.Startable r.tables := by
  by_cases hplain : ∃ t ∈ r.tables, s.isCycler t = false
  · exact .inl hplain
  · refine .inr fun u hu v hv => ?_
    obtain ⟨t, hstart⟩ := startTable_isSome (s := s) (List.ne_nil_of_mem hu)
    have hcycler : s.isCycler t = true := by
      by_contra hnot
      exact hplain ⟨t, startTable_mem hstart, by simpa using hnot⟩
    have hreaches := (resolve_ok_iff_reaches hs hr hstart).mp h
    rw [(hreaches u hu).eq_of_isCycler hcycler, (hreaches v hv).eq_of_isCycler hcycler]

theorem resolve_ok_iff_connects (hs : s.WellFormed) (hr : r.Asked s) :
    (∃ ls, (s.resolve r).1 = .ok ls) ↔ (∃ E, s.Connects E r.tables) ∧ s.Startable r.tables :=
  ⟨fun h => ⟨h.elim fun _ hls => exists_connects hls, startable_of_ok hs hr h⟩,
    fun ⟨⟨_, hconnects⟩, hstartable⟩ => hconnects.resolve_ok hs hr hstartable⟩

/-! ## Sets of tables -/

theorem Connects.congr (h : s.Connects E ts) (hsame : ∀ t, t ∈ required ↔ t ∈ ts) :
    s.Connects E required :=
  ⟨fun t ht u hu => h.connected t ((hsame t).mp ht) u ((hsame u).mp hu), h.spares⟩

/-- A link connects its ends, and is crossed by nothing. -/
theorem connects_single (h : s.Joins l t u) : s.Connects (· = l) [t, u] := by
  have hthere : s.Connected (· = l) t u := .single h rfl
  refine ⟨?_, fun _ _ k m hk hm _ _ => hk.trans hm.symm⟩
  simp [Connected.refl, hthere, hthere.symm]

theorem startable_congr (hsame : ∀ t, t ∈ required ↔ t ∈ ts) :
    s.Startable required ↔ s.Startable ts := by
  simp only [Startable, hsame]

/-- In whatever order the tables of a set are asked for, they are joined iff links connect them
without crossing a cycler and one of them is no cycler, or there is one of them at most. A search on
marks that are kept all the time does the same. -/
theorem joined_iff_connected (hs : s.Registered) (required : List TableId)
    {calls : List Requirements.Call} (hinside : Requirements.Inside s calls)
    (hsame : ∀ t, t ∈ Requirements.mentioned calls ↔ t ∈ required) :
    ((∃ ls, (s.resolve (Requirements.after s calls)).1 = .ok ls) ↔
      (∃ E, s.Connects E required) ∧
        ((∃ t ∈ required, s.isCycler t = false) ∨ ∀ t ∈ required, ∀ u ∈ required, t = u)) ∧
    (s.explored (Marking.after s calls)).1 = (s.resolve (Requirements.after s calls)).1 := by
  have hwell := hs.wellFormed
  have hasked := Requirements.asked_after hinside
  have hmem : ∀ t, t ∈ required ↔ t ∈ (Requirements.after s calls).tables := by
    intro t
    rw [Requirements.tables_after, Requirements.wanted, List.mem_eraseDups, hsame]
  refine ⟨?_, (explored_eq hwell hasked (Marking.records_after hwell hinside)).1⟩
  rw [resolve_ok_iff_connects hwell hasked]
  refine and_congr (exists_congr fun E => ⟨fun h => h.congr hmem, fun h => h.congr ?_⟩)
    (startable_congr hmem).symm
  exact fun t => (hmem t).symm

/-- The hub is a cycler and is asked for first, in vain; it is joined once its neighbour is asked
for too. -/
theorem hub_joined :
    divided.Registered ∧ divided.validate = .ok () ∧
    Requirements.Inside divided [.require 1, .resolve, .require 0] ∧
    divided.Connects (· = 0) [0, 1] ∧ divided.isCycler 0 = false ∧
    ∃ ls, (divided.explored (Marking.after divided [.require 1, .resolve, .require 0])).1
      = .ok ls := by
  have hinside : Requirements.Inside divided [.require 1, .resolve, .require 0] := by
    unfold Requirements.Inside
    simp [divided]
  have hconnects : divided.Connects (· = 0) [0, 1] := connects_single ⟨_, rfl, .inl ⟨rfl, rfl⟩⟩
  obtain ⟨hjoined, hmarks⟩ := joined_iff_connected registered_divided [0, 1] hinside (by
    intro t
    simp only [Requirements.mentioned, List.foldl_cons, List.foldl_nil, Requirements.mention,
      List.nil_append, List.cons_append, List.mem_cons, List.not_mem_nil, or_false]
    exact or_comm)
  refine ⟨registered_divided, by decide, hinside, hconnects, rfl, ?_⟩
  rw [hmarks]
  exact hjoined.mpr ⟨⟨_, hconnects⟩, .inl ⟨0, by simp, rfl⟩⟩

/-- Two cyclers with a link between them. -/
def twins : Schema where
  limits := {}
  tables := [⟨"castor", "castor", true⟩, ⟨"pollux", "pollux", true⟩]
  columns := []
  links := [⟨0, 1, "castor.id = pollux.twin_id"⟩]
  conventions := .blank

theorem registered_twins : twins.Registered := by
  refine Definition.registered_of_register (d := ⟨{}, [⟨"castor", "", true⟩, ⟨"pollux", "", true⟩],
    [], [⟨"castor", "pollux", "castor.id = pollux.twin_id"⟩], .blank⟩) ?_
  decide +kernel

/-- The one link connects both cyclers and crosses neither, but the search does not leave the first
one, whichever it is. -/
theorem twins_apart :
    twins.Registered ∧ twins.validate = .ok () ∧ twins.Connects (· = 0) [0, 1] ∧
    (twins.resolve (Requirements.after twins [.require 0, .require 1])).1
      = .error (.unlinkedTables ["pollux"]) ∧
    (twins.resolve (Requirements.after twins [.require 1, .require 0])).1
      = .error (.unlinkedTables ["castor"]) := by
  have hconnects : twins.Connects (· = 0) [0, 1] := connects_single ⟨_, rfl, .inl ⟨rfl, rfl⟩⟩
  exact ⟨registered_twins, by decide, hconnects, by decide +kernel, by decide +kernel⟩

end CatalogQuery.Schema
