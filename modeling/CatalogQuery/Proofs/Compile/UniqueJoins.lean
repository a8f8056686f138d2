import CatalogQuery.Proofs.Compile.RequiredTables
import CatalogQuery.Proofs.Join.JoinPaths
import CatalogQuery.Proofs.Join.SearchReach
import Mathlib.Data.List.Perm.Basic

/-!
# Joins are unique

On a schema whose ordinary tables form a forest, the joins depend on the set of required tables only:
not on the order in which they were asked for, and so not on the order of the columns and conditions
of a request.

* `resolve_eq_ok_iff`: ordinary tables can be joined iff they are connected;
* `SameJoins`: the same links and the same sources, in some order;
* `resolve_sameJoins`: the same tables required, the same joins;
* `joins_unique`: the joins are the paths between the required tables, whatever the order.
-/

namespace CatalogQuery

namespace Schema

variable {s : Schema} {r r' : Requirements} {l : LinkId} {ls : List LinkId}

/-- What is found connects the required tables by a tree, if there are any. -/
theorem resolve_tree (h : (s.resolve r).1 = .ok ls) :
    r.tables = [] ∧ ls = [] ∨ s.IsJoinTree r.tables ls := by
  by_cases hempty : r.tables = []
  · left
    have hnone : s.search r.tables = ⟨[], 0, []⟩ := by
      rw [hempty]
      rfl
    simp only [resolve, hnone] at h
    cases h
    exact ⟨hempty, rfl⟩
  · right
    obtain ⟨t, ts, ht, hbranch, hall⟩ := resolve_branch hempty h
    exact hbranch.isJoinTree ht hall

/-- Ordinary tables can be joined iff they are connected by ordinary links. -/
theorem resolve_eq_ok_iff (hs : s.WellFormed) (hr : r.Asked s)
    (hplain : ∀ t ∈ r.tables, s.isCycler t = false) :
    (∃ ls, (s.resolve r).1 = .ok ls) ↔
      ∀ t ∈ r.tables, ∀ u ∈ r.tables, s.Connected s.Ordinary t u := by
  constructor
  · rintro ⟨ls, h⟩ t ht u hu
    rcases resolve_tree h with ⟨hempty, -⟩ | htree
    · rw [hempty] at ht
      cases ht
    · have hconnected := htree.connected t (IsJoinTree.mem_tables_of_required ht) u
        (IsJoinTree.mem_tables_of_required hu)
      exact hconnected.mono fun l hl => htree.ordinary hplain hl
  · exact resolve_ok_of_connected hs hr hplain

/-- The links that join ordinary tables are those of the paths between them. -/
theorem mem_resolve_iff (hs : s.WellFormed) (hforest : s.IsForest)
    (hplain : ∀ t ∈ r.tables, s.isCycler t = false) (h : (s.resolve r).1 = .ok ls) :
    l ∈ ls ↔
      ∃ t ∈ r.tables, ∃ u ∈ r.tables, ∃ ms, s.PathLinks s.Ordinary t ms u ∧ l ∈ ms := by
  rcases resolve_tree h with ⟨hempty, rfl⟩ | htree
  · simp [hempty]
  · exact htree.mem_iff hs hforest hplain

theorem nodup_resolve (h : (s.resolve r).1 = .ok ls) : ls.Nodup := by
  rcases resolve_tree h with ⟨-, rfl⟩ | htree
  · exact .nil
  · exact htree.nodup

/-- The same links, and the same sources of the tables that they join, in some order. -/
structure SameJoins (s : Schema) (required : List TableId) (ls : List LinkId)
    (required' : List TableId) (ls' : List LinkId) : Prop where
  links : ls.Perm ls'
  sources : (s.treeClauses required ls).sources.entries.Perm
    (s.treeClauses required' ls').sources.entries

/-- Whoever asks for the same ordinary tables gets the same joins. -/
theorem resolve_sameJoins (hs : s.WellFormed) (hforest : s.IsForest) (hr : r.Asked s)
    (hr' : r'.Asked s) (hplain : ∀ t ∈ r.tables, s.isCycler t = false)
    (hsame : ∀ t, t ∈ r'.tables ↔ t ∈ r.tables) (h : (s.resolve r).1 = .ok ls) :
    ∃ ls', (s.resolve r').1 = .ok ls' ∧ s.SameJoins r.tables ls r'.tables ls' := by
  have hplain' : ∀ t ∈ r'.tables, s.isCycler t = false := fun t ht => hplain t ((hsame t).mp ht)
  obtain ⟨ls', h'⟩ : ∃ ls', (s.resolve r').1 = .ok ls' := by
    rw [resolve_eq_ok_iff hs hr' hplain']
    intro t ht u hu
    exact (resolve_eq_ok_iff hs hr hplain).mp ⟨ls, h⟩ t ((hsame t).mp ht) u ((hsame u).mp hu)
  have hlinks : ∀ l, l ∈ ls ↔ l ∈ ls' := by
    intro l
    rw [mem_resolve_iff hs hforest hplain h, mem_resolve_iff hs hforest hplain' h']
    simp only [hsame]
  have htables : ∀ t, t ∈ s.treeTables r.tables ls ↔ t ∈ s.treeTables r'.tables ls' := by
    intro t
    simp only [mem_treeTables, mem_linkEnds, hsame, hlinks]
  refine ⟨ls', h', ?_, ?_⟩
  · exact (List.perm_ext_iff_of_nodup (nodup_resolve h) (nodup_resolve h')).mpr hlinks
  · have hperm : (s.treeTables r.tables ls).Perm (s.treeTables r'.tables ls') :=
      (List.perm_ext_iff_of_nodup (nodup_eraseDups _) (nodup_eraseDups _)).mpr htables
    simp only [treeClauses, entries_addSources hs hr.lt, entries_addSources hs hr'.lt]
    exact hperm.map s.source

end Schema

/-! ## Requests in another order -/

variable {s : Schema} {caller : Caller} {q q' : Request} {d : Draft}

/-- The draft of the same request in another order. -/
theorem Schema.draft_perm (hs : s.Registered) (hselect : q.select.Perm q'.select)
    (hconditions : q.conditions.Perm q'.conditions) (h : s.draft caller q = .ok d) :
    ∃ d', s.draft caller q' = .ok d' ∧ d.selects.Perm d'.selects ∧
      d.conditions.Perm d'.conditions := by
  obtain ⟨selects, conditions, hselects, hreads, -, rfl⟩ := draft_eq_ok.mp h
  obtain ⟨selects', hselects', hperm⟩ := List.perm_comp_forall₂ hselect.symm hselects
  obtain ⟨conditions', hreads', hperm'⟩ := List.perm_comp_forall₂ hconditions.symm hreads
  refine ⟨.ofItems selects' conditions', ?_, ?_, ?_⟩
  · exact draft_eq_ok.mpr ⟨selects', conditions', hselects', hreads', hs.places _, rfl⟩
  · simpa using hperm.symm
  · simpa using hperm'.symm

/-- The order of columns and conditions does not change what is required. -/
theorem Draft.mem_requirements_perm {d' : Draft} (hknown : d.Known s) (hknown' : d'.Known s)
    (hselects : d.selects.Perm d'.selects) (hconditions : d.conditions.Perm d'.conditions)
    (t : TableId) : t ∈ (d'.requirements s).tables ↔ t ∈ (d.requirements s).tables := by
  have hcount : ∀ i, Draft.nameCount s i d'.conditions = Draft.nameCount s i d.conditions :=
    fun i => (hconditions.countP_eq _).symm
  rw [mem_requirements, mem_requirements, exists_placed_iff hknown.consistent,
    exists_placed_iff hknown'.consistent]
  simp only [hselects.mem_iff, hconditions.mem_iff, hcount]

/-- On a valid schema, ordinary tables are joined by the paths between them, of which there is one
for each two tables; so neither the order in which tables are required nor the order of the columns
and conditions of a request changes the joins. -/
theorem joins_unique (hs : s.Registered) (hvalid : s.validate = .ok ()) :
    (∀ (r : Requirements) (ls : List LinkId), r.Asked s →
      (∀ t ∈ r.tables, s.isCycler t = false) → (s.resolve r).1 = .ok ls →
      (∀ t ∈ r.tables, ∀ u ∈ r.tables, ∃! ms, s.PathLinks s.Ordinary t ms u) ∧
      (∀ l, l ∈ ls ↔
        ∃ t ∈ r.tables, ∃ u ∈ r.tables, ∃ ms, s.PathLinks s.Ordinary t ms u ∧ l ∈ ms) ∧
      ∀ r' : Requirements, r'.Asked s → (∀ t, t ∈ r'.tables ↔ t ∈ r.tables) →
        ∃ ls', (s.resolve r').1 = .ok ls' ∧ s.SameJoins r.tables ls r'.tables ls') ∧
    (∀ (dialect : Sql.Dialect) (caller : Caller) (options : CompileOptions) (q q' : Request)
      (c : Compiled), q.select.Perm q'.select → q.conditions.Perm q'.conditions →
      s.compile dialect caller options q = .ok c →
      ∃ d d', s.draft caller q = .ok d ∧ s.draft caller q' = .ok d' ∧
        ((∀ t ∈ (d.requirements s).tables, s.isCycler t = false) →
          ∃ ls ls', c = d.compiled s dialect caller options q.offset ls ∧
            s.compile dialect caller options q' =
              .ok (d'.compiled s dialect caller options q'.offset ls') ∧
            (s.resolve (d.requirements s)).1 = .ok ls ∧
            (s.resolve (d'.requirements s)).1 = .ok ls' ∧
            s.SameJoins (d.requirements s).tables ls (d'.requirements s).tables ls')) := by
  have hwell := hs.wellFormed
  have hforest : s.IsForest := (Schema.validate_eq_ok_iff hwell).mp hvalid
  constructor
  · intro r ls hr hplain h
    refine ⟨fun t ht u hu => ?_, fun l => Schema.mem_resolve_iff hwell hforest hplain h, ?_⟩
    · have hconnected := (Schema.resolve_eq_ok_iff hwell hr hplain).mp ⟨ls, h⟩ t ht u hu
      obtain ⟨ms, hms⟩ := hconnected.exists_path
      exact ⟨ms, hms, fun ks hks => hks.unique hforest hms⟩
    · intro r' hr' hsame
      exact Schema.resolve_sameJoins hwell hforest hr hr' hplain hsame h
  · intro dialect caller options q q' c hselect hconditions hc
    obtain ⟨d, hd, hsome, ls, hls, rfl, -⟩ := Schema.compile_eq_ok.mp hc
    obtain ⟨d', hd', hselects, hconditions'⟩ := Schema.draft_perm hs hselect hconditions hd
    have hknown := Draft.known_of_draft hd
    have hknown' := Draft.known_of_draft hd'
    refine ⟨d, d', hd, hd', fun hplain => ?_⟩
    obtain ⟨ls', hls', hjoins⟩ := Schema.resolve_sameJoins hwell hforest
      (Draft.requirements_asked hknown) (Draft.requirements_asked hknown') hplain
      (Draft.mem_requirements_perm hknown hknown' hselects hconditions') hls
    have hsome' : d'.selects ≠ [] := fun hnil => hsome (by simpa [hnil] using hselects)
    exact ⟨ls, ls', rfl, Schema.compile_eq_ok.mpr
      ⟨d', hd', hsome', ls', hls', rfl, hs.found d' caller options⟩, hls, hls',
      hjoins⟩

/-- Names of data with their labels, in this order or the other. -/
def Request.labels (columns : List ColumnId) : Request :=
  { select := columns.map fun c => ⟨c, .none, .none⟩ }

/-- The line is joined the same from either end, and by names and labels in either order. -/
theorem same_line :
    (∃ ls, (Schema.roundabout.resolve ((Requirements.empty.require 2).require 0)).1 = .ok ls ∧
      Schema.roundabout.SameJoins [0, 2] [1, 0] [2, 0] ls) ∧
    ∃ d d' ls ls', Schema.roundabout.draft .unknown (.labels [⟨1⟩, ⟨2⟩]) = .ok d ∧
      Schema.roundabout.draft .unknown (.labels [⟨2⟩, ⟨1⟩]) = .ok d' ∧
      Schema.roundabout.SameJoins (d.requirements .roundabout).tables ls
        (d'.requirements .roundabout).tables ls' := by
  obtain ⟨hany, hrequests⟩ := joins_unique Schema.registered_roundabout (by decide)
  constructor
  · have hasked : ((Requirements.empty.require 0).require 2).Asked Schema.roundabout :=
      .require (.require .empty (by decide)) (by decide)
    have hasked' : ((Requirements.empty.require 2).require 0).Asked Schema.roundabout :=
      .require (.require .empty (by decide)) (by decide)
    have hresolve : (Schema.roundabout.resolve ((Requirements.empty.require 0).require 2)).1
        = .ok [1, 0] := by decide
    obtain ⟨-, -, hsame⟩ := hany _ _ hasked (by decide) hresolve
    refine hsame _ hasked' fun t => ?_
    rw [Requirements.mem_require, Requirements.mem_require, Requirements.mem_require,
      Requirements.mem_require]
    exact or_right_comm
  · have hcompiles : ∃ c, Schema.roundabout.compile .postgres .unknown {} (.labels [⟨1⟩, ⟨2⟩]) =
        .ok c := by
      have hok : (Schema.roundabout.compile .postgres .unknown {} (.labels [⟨1⟩, ⟨2⟩])).isOk = true := by
        decide +kernel
      cases hc : Schema.roundabout.compile .postgres .unknown {} (.labels [⟨1⟩, ⟨2⟩]) with
      | ok c => exact ⟨c, rfl⟩
      | error e => simp [hc, Except.isOk, Except.toBool] at hok
    obtain ⟨c, hc⟩ := hcompiles
    have hdraft : Schema.roundabout.draft .unknown (.labels [⟨1⟩, ⟨2⟩]) =
        .ok ⟨[.select ⟨⟨1⟩, .none, .none⟩ ⟨⟨1⟩, 1, ⟨"data", "data", false⟩, "name"⟩,
          .select ⟨⟨2⟩, .none, .none⟩ ⟨⟨2⟩, 2, ⟨"meta", "base meta", false⟩, "label"⟩]⟩ := by
      decide
    obtain ⟨d, d', hd, hd', hjoins⟩ := hrequests .postgres .unknown {} (.labels [⟨1⟩, ⟨2⟩])
      (.labels [⟨2⟩, ⟨1⟩]) c (.swap _ _ _) (.refl _) hc
    cases hdraft.symm.trans hd
    obtain ⟨ls, ls', -, -, -, -, hsame⟩ := hjoins (by decide)
    exact ⟨_, d', ls, ls', hd, hd', hsame⟩

end CatalogQuery
