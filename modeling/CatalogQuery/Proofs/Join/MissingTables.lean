import CatalogQuery.Proofs.Join.MarkedSearch
import CatalogQuery.Proofs.Join.Reachable

/-!
# Tables that cannot be joined

An attempt to join the required tables succeeds iff paths lead to all of them from the first that is
no cycler, and otherwise names those to which none does. Only these tables count and, for the report,
their order: what was asked for before a reset and all attempts before leave no trace.

* `Requirements.tables_after`, `Marking.records_after`: what is required after any calls;
* `explored_congr`: an attempt depends on nothing else;
* `Tally.pending_eq`: what a search counts as missing is what it has not reached;
* `resolve_exact`: the outcome of an attempt after any calls.
-/

namespace CatalogQuery

/-! ## Calls -/

namespace Requirements

/-- What is done with requirements. -/
inductive Call where
  | require (t : TableId)
  | reset
  | resolve
  deriving DecidableEq, Repr

/-- The requirements after a call; an attempt leaves its count behind whether it fails or not. -/
def call (s : Schema) (r : Requirements) : Call → Requirements
  | .require t => r.require t
  | .reset => .empty
  | .resolve => (s.resolve r).2

/-- The requirements after calls, from the first one on. -/
def after (s : Schema) (calls : List Call) : Requirements := calls.foldl (call s) .empty

/-- The tables before a call and those it mentions; a reset forgets them. -/
def mention (ts : List TableId) : Call → List TableId
  | .require t => ts ++ [t]
  | .reset => []
  | .resolve => ts

/-- The tables mentioned since the last reset, as often as they were. -/
def mentioned (calls : List Call) : List TableId := calls.foldl mention []

/-- These tables, each at its first mention. -/
def wanted (calls : List Call) : List TableId := (mentioned calls).eraseDups

/-- All tables that are asked for belong to the schema. -/
def Inside (s : Schema) (calls : List Call) : Prop :=
  ∀ t, .require t ∈ calls → t < s.tables.length

variable {s : Schema} {r : Requirements} {calls : List Call}

theorem tables_require (r : Requirements) (t : TableId) :
    (r.require t).tables = if t ∈ r.tables then r.tables else r.tables ++ [t] := by
  unfold require contains
  by_cases ht : t ∈ r.tables <;> simp [ht]

theorem tables_after (s : Schema) (calls : List Call) : (after s calls).tables = wanted calls := by
  induction calls using List.reverseRecOn with
  | nil => rfl
  | append_singleton calls c ih =>
    rw [after, wanted, mentioned, List.foldl_append, List.foldl_append]
    rw [after, wanted, mentioned] at ih
    cases c with
    | require t =>
      show ((calls.foldl (call s) .empty).require t).tables = (_ ++ [t]).eraseDups
      rw [tables_require, eraseDups_concat, ih]
      simp only [List.mem_eraseDups]
    | reset => rfl
    | resolve =>
      show (s.resolve (calls.foldl (call s) .empty)).2.tables = _
      rw [tables_resolve]
      exact ih

theorem asked_after (h : Inside s calls) : (after s calls).Asked s := by
  induction calls using List.reverseRecOn with
  | nil => exact .empty
  | append_singleton calls c ih =>
    have hbefore := ih fun t ht => h t (List.mem_append_left _ ht)
    rw [after, List.foldl_append]
    cases c with
    | require t => exact .require hbefore (h t (by simp))
    | reset => exact .empty
    | resolve => exact .resolve hbefore

/-- Asking for different tables gives just these tables. -/
theorem tables_foldl_require {ts : List TableId} (h : ts.Nodup) :
    (ts.foldl require .empty).tables = ts := by
  induction ts using List.reverseRecOn with
  | nil => rfl
  | append_singleton ts t ih =>
    obtain ⟨hts, -, hne⟩ := List.nodup_append.mp h
    have ht : t ∉ ts := fun hmem => hne t hmem t (List.mem_singleton_self t) rfl
    rw [List.foldl_append, List.foldl_cons, List.foldl_nil, tables_require, ih hts, if_neg ht]

end Requirements

namespace Marking

variable {s : Schema} {m m' : Marking} {calls : List Requirements.Call}

/-- The marks after a call. -/
def call (s : Schema) (m : Marking) : Requirements.Call → Marking
  | .require t => m.require t
  | .reset => m.reset
  | .resolve => (s.explored m).2

/-- The marks after calls, from the first one on. -/
def after (s : Schema) (calls : List Requirements.Call) : Marking :=
  calls.foldl (call s) (.blank s.tables.length)

/-- The marks record what is required, whatever the attempts among the calls have left on them. -/
theorem records_after (hs : s.WellFormed) (h : Requirements.Inside s calls) :
    (after s calls).Records s.tables.length (Requirements.after s calls) := by
  induction calls using List.reverseRecOn with
  | nil => exact records_blank _
  | append_singleton calls c ih =>
    have hinside : Requirements.Inside s calls := fun t ht => h t (List.mem_append_left _ ht)
    have hbefore := ih hinside
    rw [after, Requirements.after, List.foldl_append, List.foldl_append]
    cases c with
    | require t => exact hbefore.require (h t (by simp))
    | reset => exact hbefore.reset
    | resolve => exact (Schema.explored_eq hs (Requirements.asked_after hinside) hbefore).2

theorem records_foldl_require {n : Nat} {ts : List TableId} (h : ∀ t ∈ ts, t < n) :
    (ts.foldl require (.blank n)).Records n (ts.foldl Requirements.require .empty) := by
  induction ts using List.reverseRecOn with
  | nil => exact records_blank n
  | append_singleton ts t ih =>
    rw [List.foldl_append, List.foldl_append]
    exact (ih fun u hu => h u (List.mem_append_left _ hu)).require (h t (by simp))

theorem explored_congr (h : m.restart = m'.restart) : s.explored m = s.explored m' := by
  unfold Schema.explored
  rw [h]

end Marking

namespace Schema

variable {s : Schema} {required : List TableId} {w : Search} {r r' : Requirements} {t u : TableId}

/-! ## The start -/

/-- The table from which the others have to be reached: the first that is no cycler, or the first of
all where all are cyclers. -/
def Starts (s : Schema) (ts : List TableId) (t : TableId) : Prop :=
  (∃ before behind, ts = before ++ t :: behind ∧ s.isCycler t = false ∧
    ∀ u ∈ before, s.isCycler u = true) ∨
  (∀ u ∈ ts, s.isCycler u = true) ∧ ts.head? = some t

theorem startTable_eq_some_iff : s.startTable required = some t ↔ s.Starts required t := by
  unfold startTable Starts
  rw [Option.or_eq_some_iff, List.find?_eq_some_iff_append, List.find?_eq_none]
  simp only [Bool.not_eq_true', Bool.not_eq_false']
  constructor
  · rintro (⟨hplain, before, behind, hsplit, hbefore⟩ | ⟨hall, hhead⟩)
    · exact .inl ⟨before, behind, hsplit, hplain, by simpa using hbefore⟩
    · exact .inr ⟨by simpa using hall, hhead⟩
  · rintro (⟨before, behind, hsplit, hplain, hbefore⟩ | ⟨hall, hhead⟩)
    · exact .inl ⟨hplain, before, behind, hsplit, by simpa using hbefore⟩
    · exact .inr ⟨by simpa using hall, hhead⟩

/-! ## What a search has reached -/

theorem resolve_congr (h : r.tables = r'.tables) : s.resolve r = s.resolve r' := by
  obtain ⟨ts, n⟩ := r
  obtain ⟨ts', n'⟩ := r'
  cases h
  rfl

/-- What is counted as missing is what is not reached. -/
theorem Tally.pending_eq (h : Tally required w) (hn : required.Nodup) :
    w.pending = (required.filter fun t => !w.reached.contains t).length := by
  have hperm : (w.reached.filter required.contains).Perm (required.filter w.reached.contains) := by
    refine (List.perm_ext_iff_of_nodup (h.nodup.filter _) (hn.filter _)).mpr fun u => ?_
    simp [and_comm]
  have hcount := h.count
  have hsplit := List.length_eq_length_filter_add (l := required) w.reached.contains
  rw [List.countP_eq_length_filter, hperm.length_eq] at hcount
  omega

/-- The tables that an attempt misses, with the error that names them. -/
theorem resolve_missing (hs : s.WellFormed) (hr : r.Asked s)
    (hstart : s.startTable r.tables = some t) (hfails : ¬∀ u ∈ r.tables, s.Reaches t u) :
    ∃ missing : List TableId, missing.Sublist r.tables ∧
      (∀ u, u ∈ missing ↔ u ∈ r.tables ∧ ¬s.Reaches t u) ∧
      (s.resolve r).1 = .error (.unlinkedTables (missing.map s.tableName)) ∧
      (s.resolve r).2.pending = missing.length := by
  have hmissing : 0 < (s.search r.tables).pending := by
    rw [← resolve_ok_iff_reaches hs hr hstart, resolve_ok_iff] at hfails
    exact Nat.pos_of_ne_zero hfails
  refine ⟨r.tables.filter fun u => !(s.search r.tables).reached.contains u, List.filter_sublist,
    fun u => ?_, ?_, ?_⟩
  · rw [List.mem_filter]
    refine and_congr_right fun hu => ?_
    rw [← mem_reached_iff hs hr hstart hmissing hu]
    simp
  · simp [resolve, hmissing]
  · rw [← (tally_search hstart).pending_eq hr.nodup]
    simp [resolve, hmissing]

theorem pending_of_ok (h : ∃ ls, (s.resolve r).1 = .ok ls) : (s.resolve r).2.pending = 0 := by
  rw [resolve_ok_iff] at h
  simp [resolve, h]

/-- What comes of an attempt to join `ts` from `t`: it succeeds iff paths lead to all of them, and
otherwise names those to which none does, in their order. These are counted in any case. -/
structure Decides (s : Schema) (ts : List TableId) (t : TableId)
    (outcome : Except QueryError (List LinkId)) (pending : Nat) : Prop where
  ok_iff : (∃ ls, outcome = .ok ls) ↔ ∀ u ∈ ts, s.Reaches t u
  missing : ∃ missing : List TableId, missing.Sublist ts ∧
    (∀ u, u ∈ missing ↔ u ∈ ts ∧ ¬s.Reaches t u) ∧
    (missing ≠ [] → outcome = .error (.unlinkedTables (missing.map s.tableName))) ∧
    pending = missing.length

theorem decides_resolve (hs : s.WellFormed) (hr : r.Asked s)
    (hstart : s.startTable r.tables = some t) :
    s.Decides r.tables t (s.resolve r).1 (s.resolve r).2.pending where
  ok_iff := resolve_ok_iff_reaches hs hr hstart
  missing := by
    by_cases hall : ∀ u ∈ r.tables, s.Reaches t u
    · have hok := (resolve_ok_iff_reaches hs hr hstart).mpr hall
      refine ⟨[], List.nil_sublist _, fun u => ?_, fun hne => absurd rfl hne, pending_of_ok hok⟩
      simp only [List.not_mem_nil, false_iff, not_and, not_not]
      exact hall u
    · obtain ⟨missing, hsub, hmem, herror, hpending⟩ := resolve_missing hs hr hstart hall
      exact ⟨missing, hsub, hmem, fun _ => herror, hpending⟩

/-- After any calls, an attempt joins the tables mentioned since the last reset iff paths lead to all
of them from the first that is no cycler, or the first of all; otherwise it names those to which none
does. It does so as if nothing else had been called before, it succeeds in whatever order the tables
were mentioned, and on marks that are kept all the time it does the same. -/
theorem resolve_exact (hs : s.Registered) {calls : List Requirements.Call}
    (hinside : Requirements.Inside s calls) (hne : Requirements.mentioned calls ≠ []) :
    (∃ start, s.Starts (Requirements.wanted calls) start ∧
      s.Decides (Requirements.wanted calls) start (s.resolve (Requirements.after s calls)).1
        (s.resolve (Requirements.after s calls)).2.pending) ∧
    s.resolve (Requirements.after s calls)
      = s.resolve ((Requirements.wanted calls).foldl Requirements.require .empty) ∧
    (∀ calls', Requirements.Inside s calls' →
      (∀ t, t ∈ Requirements.mentioned calls' ↔ t ∈ Requirements.mentioned calls) →
      ((∃ ls, (s.resolve (Requirements.after s calls')).1 = .ok ls) ↔
        ∃ ls, (s.resolve (Requirements.after s calls)).1 = .ok ls)) ∧
    ((s.explored (Marking.after s calls)).1 = (s.resolve (Requirements.after s calls)).1 ∧
      (s.explored (Marking.after s calls)).2.Records s.tables.length
        (s.resolve (Requirements.after s calls)).2) ∧
    s.explored (Marking.after s calls)
      = s.explored ((Requirements.wanted calls).foldl Marking.require (.blank s.tables.length)) := by
  have hwell := hs.wellFormed
  have htables := Requirements.tables_after s calls
  have hasked := Requirements.asked_after hinside
  have hrecords := Marking.records_after hwell hinside
  have hfresh : (Requirements.after s calls).tables
      = ((Requirements.wanted calls).foldl Requirements.require .empty).tables := by
    rw [Requirements.tables_foldl_require (htables ▸ hasked.nodup), htables]
  refine ⟨?_, resolve_congr hfresh, fun calls' hinside' hsame => ?_,
    explored_eq hwell hasked hrecords, ?_⟩
  · have hwanted : Requirements.wanted calls ≠ [] := by
      obtain ⟨t, ht⟩ := List.exists_mem_of_ne_nil _ hne
      exact List.ne_nil_of_mem (List.mem_eraseDups.mpr ht)
    obtain ⟨start, hstart⟩ := startTable_isSome (s := s) hwanted
    refine ⟨start, startTable_eq_some_iff.mp hstart, ?_⟩
    rw [← htables]
    exact decides_resolve hwell hasked (htables ▸ hstart)
  · have hasked' := Requirements.asked_after hinside'
    have hmem : ∀ t, t ∈ (Requirements.after s calls').tables ↔
        t ∈ (Requirements.after s calls).tables := by
      intro t
      rw [htables, Requirements.tables_after, Requirements.wanted, Requirements.wanted,
        List.mem_eraseDups, List.mem_eraseDups]
      exact hsame t
    exact ⟨resolve_ok_of_same hwell hasked' hasked fun t => (hmem t).symm,
      resolve_ok_of_same hwell hasked hasked' hmem⟩
  · have hlt : ∀ t ∈ Requirements.wanted calls, t < s.tables.length := htables ▸ hasked.lt
    exact Marking.explored_congr
      (hrecords.restart_eq (Marking.records_foldl_require hlt) hfresh)

/-- Two tables that only a cycler joins. -/
def divided : Schema where
  limits := {}
  tables := [⟨"left", "left", false⟩, ⟨"hub", "hub", true⟩, ⟨"right", "right", false⟩]
  columns := []
  links := [⟨0, 1, "left.hub = hub.id"⟩, ⟨1, 2, "hub.id = right.hub"⟩]
  conventions := .blank

theorem registered_divided : divided.Registered := by
  refine Definition.registered_of_register (d := ⟨{}, [⟨"left", "", false⟩, ⟨"hub", "", true⟩,
    ⟨"right", "", false⟩], [], [⟨"left", "hub", "left.hub = hub.id"⟩,
    ⟨"hub", "right", "hub.id = right.hub"⟩], .blank⟩) ?_
  decide +kernel

/-- The hub is asked for first, and joined with nothing before the others are asked for. -/
def hubFirst : List Requirements.Call :=
  [.require 2, .reset, .require 1, .resolve, .require 0, .resolve, .require 2]

/-- The cycler is reached but not crossed, also after an attempt that has reached it alone. -/
theorem cycler_not_crossed :
    divided.Registered ∧ Requirements.Inside divided hubFirst ∧
    Requirements.mentioned hubFirst ≠ [] ∧
    (∃ start, divided.Starts [1, 0, 2] start ∧
      divided.Decides [1, 0, 2] start (.error (.unlinkedTables ["right"])) 1) ∧
    (divided.explored (Marking.after divided hubFirst)).1 = .error (.unlinkedTables ["right"]) := by
  have hinside : Requirements.Inside divided hubFirst := by
    unfold Requirements.Inside
    simp [divided, hubFirst]
  have hne : Requirements.mentioned hubFirst ≠ [] := by decide
  obtain ⟨hdecides, -, -, ⟨hsame, -⟩, -⟩ := resolve_exact registered_divided hinside hne
  have houtcome : (divided.resolve (Requirements.after divided hubFirst)).1
      = .error (.unlinkedTables ["right"]) := by decide +kernel
  rw [houtcome] at hdecides hsame
  exact ⟨registered_divided, hinside, hne, hdecides, hsame⟩

end Schema

end CatalogQuery
