import CatalogQuery.Compile.Statement
import CatalogQuery.Proofs.FirstMentions
import CatalogQuery.Proofs.Join.JoinTree
import CatalogQuery.Proofs.Schema.Registration
import Mathlib.Data.List.Induction
import Mathlib.Data.List.Nodup

/-!
# Join trees and their clauses

The links that connect the required tables of a compilation form a tree without dead ends, and the
clauses of the tree name each of its tables once and each of its links once.

* `Sources.entries_addAll`, `Sources.sublist_addAll`: which entries are added one by one;
* `entries_addSources`: sources are added once for each table, in the order of first mention;
* `Branch.isJoinTree`: what the search keeps is a join tree;
* `resolve_isJoinTree`: the same of all that can be asked for, with the clauses.
-/

namespace CatalogQuery

open Sql Text

/-- The requirements that a compilation can come to: tables of the schema, asked for in any order
and any number of times, also between attempts to connect them. -/
inductive Requirements.Asked (s : Schema) : Requirements → Prop where
  | empty : Asked s .empty
  | require {r : Requirements} {t : TableId} :
    Asked s r → t < s.tables.length → Asked s (r.require t)
  | resolve {r : Requirements} : Asked s r → Asked s (s.resolve r).2

@[simp] theorem Requirements.tables_resolve (s : Schema) (r : Requirements) :
    (s.resolve r).2.tables = r.tables := by
  unfold Schema.resolve
  dsimp only
  split <;> rfl

theorem Requirements.Asked.lt {s : Schema} {r : Requirements} (h : r.Asked s) :
    ∀ t ∈ r.tables, t < s.tables.length := by
  induction h with
  | empty =>
    intro t ht
    cases ht
  | @require r u _ hu ih =>
    intro t ht
    unfold Requirements.require at ht
    split at ht
    · exact ih t ht
    · rcases List.mem_append.mp ht with ht | ht
      · exact ih t ht
      · rw [List.mem_singleton.mp ht]
        exact hu
  | resolve _ ih =>
    rw [tables_resolve]
    exact ih

/-! ## Entries added one by one -/

namespace Sql.Sources

variable {f : Sources} {es es' : List String} {e binding : String}

/-- Adds the entries in their order. -/
def addAll (f : Sources) (es : List String) : Sources := es.foldl add f

theorem addAll_append : f.addAll (es ++ es') = (f.addAll es).addAll es' := List.foldl_append

theorem add_of_binds (h : f.binds (Text.lastWord e) = true) : f.add e = f := if_pos h

theorem entries_add_of_not_binds (h : ¬f.binds (Text.lastWord e) = true) :
    (f.add e).entries = f.entries ++ [e] := by
  rw [add, if_neg h]

theorem binds_iff : f.binds binding = true ↔ ∃ e ∈ f.entries, Text.lastWord e = binding := by
  simp [binds, bindings]

theorem sublist_add : (f.add e).entries.Sublist (f.entries ++ [e]) := by
  by_cases h : f.binds (Text.lastWord e) = true
  · rw [add_of_binds h]
    exact List.sublist_append_left _ _
  · rw [entries_add_of_not_binds h]

theorem binds_add_self (f : Sources) (e : String) : (f.add e).binds (Text.lastWord e) = true := by
  by_cases h : f.binds (Text.lastWord e) = true
  · rwa [add_of_binds h]
  · exact binds_iff.mpr ⟨e, by simp [entries_add_of_not_binds h], rfl⟩

theorem binds_add (h : f.binds binding = true) (e : String) : (f.add e).binds binding = true := by
  by_cases hbinds : f.binds (Text.lastWord e) = true
  · rwa [add_of_binds hbinds]
  · obtain ⟨e', he', hword⟩ := binds_iff.mp h
    exact binds_iff.mpr ⟨e', by simp [entries_add_of_not_binds hbinds, he'], hword⟩

theorem binds_addAll (he : e ∈ es) (f : Sources) : (f.addAll es).binds (Text.lastWord e) = true := by
  induction es using List.reverseRecOn with
  | nil => cases he
  | append_singleton es e' ih =>
    rw [addAll_append]
    rcases List.mem_append.mp he with he | he
    · exact binds_add (ih he) e'
    · rw [List.mem_singleton.mp he]
      exact binds_add_self _ e'

theorem sublist_addAll : (f.addAll es).entries.Sublist (f.entries ++ es) := by
  induction es using List.reverseRecOn with
  | nil => simp [addAll]
  | append_singleton es e ih =>
    rw [addAll_append, ← List.append_assoc]
    exact sublist_add.trans (ih.append_right [e])

theorem nodup_addAll (h : f.bindings.Nodup) : (f.addAll es).bindings.Nodup :=
  List.foldlRecOn (motive := fun f => f.bindings.Nodup) es add h
    fun _ hf e _ => nodup_bindings_add hf e

/-- Entries with different bindings are all added. -/
theorem entries_addAll (h : ((f.entries ++ es).map Text.lastWord).Nodup) :
    (f.addAll es).entries = f.entries ++ es := by
  induction es using List.reverseRecOn with
  | nil => simp [addAll]
  | append_singleton es e ih =>
    rw [← List.append_assoc, List.map_append] at h
    obtain ⟨hbefore, -, hdisj⟩ := List.nodup_append.mp h
    have hentries := ih hbefore
    have hfree : ¬(f.addAll es).binds (Text.lastWord e) = true := by
      rw [binds_iff, hentries]
      rintro ⟨e', he', hword⟩
      exact hdisj _ (List.mem_map_of_mem he') _ (by simp) hword
    rw [addAll_append, ← List.append_assoc, ← hentries]
    exact entries_add_of_not_binds hfree

/-- All entries are added iff their bindings are different. -/
theorem entries_addAll_iff :
    (addAll {} es).entries = es ↔ (es.map Text.lastWord).Nodup := by
  constructor
  · intro h
    have hnodup : (addAll {} es).bindings.Nodup := nodup_addAll .nil
    rwa [bindings, h] at hnodup
  · exact fun h => entries_addAll h

end Sql.Sources

namespace Schema

variable {s : Schema} {required : List TableId} {l : LinkId} {t u : TableId}
  {ts : List TableId} {ls : List LinkId}

/-! ## The tables of a tree -/

/-- Both ends of each of the links. -/
def linkEnds (s : Schema) (links : List LinkId) : List TableId :=
  (links.filterMap (s.links[·]?)).flatMap fun l => [l.left, l.right]

/-- The required tables and the ends of the links, each once, in the order of first mention. -/
def treeTables (s : Schema) (required : List TableId) (links : List LinkId) : List TableId :=
  (required ++ s.linkEnds links).eraseDups

theorem mem_linkEnds : t ∈ s.linkEnds ls ↔ ∃ l ∈ ls, ∃ u, s.Joins l t u := by
  simp only [linkEnds, List.mem_flatMap, List.mem_filterMap, List.mem_cons, List.not_mem_nil,
    or_false]
  constructor
  · rintro ⟨k, ⟨l, hl, hk⟩, rfl | rfl⟩
    · exact ⟨l, hl, k.right, k, hk, .inl ⟨rfl, rfl⟩⟩
    · exact ⟨l, hl, k.left, k, hk, .inr ⟨rfl, rfl⟩⟩
  · rintro ⟨l, hl, u, k, hk, ⟨rfl, -⟩ | ⟨-, rfl⟩⟩
    · exact ⟨k, ⟨l, hl, hk⟩, .inl rfl⟩
    · exact ⟨k, ⟨l, hl, hk⟩, .inr rfl⟩

theorem mem_treeTables : t ∈ s.treeTables required ls ↔ t ∈ required ∨ t ∈ s.linkEnds ls := by
  rw [treeTables, List.mem_eraseDups, List.mem_append]

/-! ## Sources -/

theorem lastWord_source (hs : s.WellFormed) (ht : t < s.tables.length) :
    lastWord (s.source t) = s.tables[t].name := by
  simp only [source, List.getElem?_eq_getElem ht, Option.map_some, Option.getD_some]
  exact hs.lastWord_source _ (List.getElem_mem ht)

/-- Different tables are bound by different words. -/
theorem lastWord_source_inj (hs : s.WellFormed) (ht : t < s.tables.length)
    (hu : u < s.tables.length) (h : lastWord (s.source t) = lastWord (s.source u)) : t = u := by
  rw [lastWord_source hs ht, lastWord_source hs hu] at h
  have hnames : (s.tables.map (·.name))[t]? = (s.tables.map (·.name))[u]? := by
    simp [List.getElem?_eq_getElem ht, List.getElem?_eq_getElem hu, h]
  exact (List.getElem?_inj (by simpa using ht) hs.nodup_names).mp hnames

/-- Different tables have entries with different bindings. -/
theorem nodup_sources (hs : s.WellFormed) (hts : ∀ t ∈ ts, t < s.tables.length) (hn : ts.Nodup) :
    ((ts.map s.source).map lastWord).Nodup := by
  rw [List.map_map]
  exact hn.map_on fun t ht u hu heq => lastWord_source_inj hs (hts t ht) (hts u hu) heq

/-- What is added again changes nothing. -/
theorem addAll_eraseDups (source : TableId → String) (ts : List TableId) (f : Sources) :
    f.addAll (ts.eraseDups.map source) = f.addAll (ts.map source) := by
  induction ts using List.reverseRecOn with
  | nil => rfl
  | append_singleton ts t ih =>
    rw [eraseDups_concat, List.map_append, Sources.addAll_append, ← ih]
    split
    · next ht =>
      have hmem : source t ∈ ts.eraseDups.map source :=
        List.mem_map_of_mem (List.mem_eraseDups.mpr ht)
      exact (Sources.add_of_binds (Sources.binds_addAll hmem f)).symm
    · rw [List.map_append, Sources.addAll_append]

/-- The sources of a tree are those of its tables. -/
theorem addSources_eq (required : List TableId) (ls : List LinkId) (f : Sources) :
    Draft.addSources s required ls f = f.addAll ((s.treeTables required ls).map s.source) := by
  rw [treeTables, addAll_eraseDups]
  simp [Draft.addSources, Sources.addAll, linkEnds, List.foldl_append, List.foldl_flatMap,
    List.map_flatMap, List.foldl_map]

theorem lt_of_mem_treeTables (hs : s.WellFormed) (hrequired : ∀ t ∈ required, t < s.tables.length)
    (ht : t ∈ s.treeTables required ls) : t < s.tables.length := by
  rcases mem_treeTables.mp ht with ht | ht
  · exact hrequired t ht
  · obtain ⟨l, -, u, hl⟩ := mem_linkEnds.mp ht
    exact hl.lt hs

theorem nodup_treeSources (hs : s.WellFormed) (hrequired : ∀ t ∈ required, t < s.tables.length)
    (ls : List LinkId) : (((s.treeTables required ls).map s.source).map lastWord).Nodup :=
  nodup_sources hs (fun _ ht => lt_of_mem_treeTables hs hrequired ht) (nodup_eraseDups _)

/-- They are added once for each table, since no two tables have the same binding. -/
theorem entries_addSources (hs : s.WellFormed) (hrequired : ∀ t ∈ required, t < s.tables.length)
    (ls : List LinkId) :
    (Draft.addSources s required ls {}).entries = (s.treeTables required ls).map s.source := by
  rw [addSources_eq]
  exact Sources.entries_addAll_iff.mpr (nodup_treeSources hs hrequired ls)

/-! ## Join trees -/

/-- The links are a tree of the required tables and their own ends. There is no dead end, and no
cycler is passed through. -/
structure IsJoinTree (s : Schema) (required : List TableId) (links : List LinkId) : Prop where
  nodup : links.Nodup
  registered : ∀ l ∈ links, l < s.links.length
  count : (s.treeTables required links).length = links.length + 1
  connected : ∀ t ∈ s.treeTables required links, ∀ u ∈ s.treeTables required links,
    s.Connected (· ∈ links) t u
  acyclic : s.Acyclic (· ∈ links)
  passes : ∀ t ∈ s.treeTables required links, t ∉ required → 2 ≤ s.degree links t
  ends : ∀ t ∈ s.treeTables required links, s.isCycler t = true →
    t ∈ required ∧ s.degree links t ≤ 1

/-- A branch with all required tables has no others but the ends of its links. -/
theorem Branch.mem_treeTables (h : s.Branch required true t ts ls) (ht : t ∈ required)
    (hall : ∀ u ∈ required, u ∈ ts) : u ∈ s.treeTables required ls ↔ u ∈ ts := by
  rw [Schema.mem_treeTables]
  constructor
  · rintro (hu | hu)
    · exact hall u hu
    · obtain ⟨l, hl, v, hv⟩ := mem_linkEnds.mp hu
      exact (h.tree.ends_mem hl hv).1
  · intro hu
    by_cases hneeded : u ∈ required
    · exact .inl hneeded
    · -- A table in between touches a link of the tree.
      have hdegree := h.passes u hu (fun e => hneeded (e ▸ ht)) hneeded
      obtain ⟨l, hl, htouch⟩ := List.countP_pos_iff.mp (Nat.lt_of_lt_of_le (by decide) hdegree)
      exact .inr (mem_linkEnds.mpr ⟨l, hl, touches_iff.mp htouch⟩)

theorem Branch.isJoinTree (h : s.Branch required true t ts ls) (ht : t ∈ required)
    (hall : ∀ u ∈ required, u ∈ ts) : s.IsJoinTree required ls := by
  have hmem : ∀ u, u ∈ s.treeTables required ls ↔ u ∈ ts := fun u => h.mem_treeTables ht hall
  have hperm : (s.treeTables required ls).Perm ts :=
    (List.perm_ext_iff_of_nodup (nodup_eraseDups _) h.tree.nodup_tables).mpr hmem
  constructor
  case nodup => exact h.tree.nodup_links
  case registered =>
    intro l hl
    obtain ⟨v, w, k, hk, -⟩ := h.tree.exists_joins hl
    exact (List.getElem?_eq_some_iff.mp hk).1
  case count => rw [hperm.length_eq, h.tree.length_tables]
  case connected => exact fun u hu v hv => h.tree.connected ((hmem u).mp hu) ((hmem v).mp hv)
  case acyclic => exact h.tree.acyclic
  case passes =>
    intro u hu hneeded
    exact h.passes u ((hmem u).mp hu) (fun e => hneeded (e ▸ ht)) hneeded
  case ends => exact fun u hu hcycler => h.ends u ((hmem u).mp hu) hcycler

/-! ## Clauses of a tree -/

/-- The clauses with nothing but a tree. -/
def treeClauses (s : Schema) (required : List TableId) (links : List LinkId) : Clauses where
  sources := Draft.addSources s required links {}
  terms := Draft.joinTerms s links

/-- The join predicate of a link. -/
def predicate (s : Schema) (l : LinkId) : String := (s.links[l]?.map (·.predicate)).getD ""

theorem joinTerms_eq (hls : ∀ l ∈ ls, l < s.links.length) :
    Draft.joinTerms s ls = ls.map fun l => .join (s.predicate l) := by
  induction ls with
  | nil => rfl
  | cons l ls ih =>
    have hl : l < s.links.length := hls l List.mem_cons_self
    have htail := ih fun k hk => hls k (List.mem_cons_of_mem _ hk)
    simp only [Draft.joinTerms] at htail ⊢
    simp [List.getElem?_eq_getElem hl, predicate, htail]

/-- If the required tables can be connected at all, then by a tree of links without dead ends. Its
clauses have one source for each of its tables and one join for each of its links. -/
theorem resolve_isJoinTree {r : Requirements} (hs : s.Registered) (hr : r.Asked s)
    (hne : r.tables ≠ []) (h : (s.resolve r).1 = .ok ls) :
    s.IsJoinTree r.tables ls ∧
    (s.treeClauses r.tables ls).sources.entries = (s.treeTables r.tables ls).map s.source ∧
    (s.treeClauses r.tables ls).terms = ls.map (fun l => .join (s.predicate l)) ∧
    (s.treeClauses r.tables ls).sources.entries.length
      = (s.treeClauses r.tables ls).joinCount + 1 := by
  obtain ⟨t, ts, ht, hbranch, hall⟩ := resolve_branch hne h
  have htree : s.IsJoinTree r.tables ls := hbranch.isJoinTree ht hall
  have hentries := entries_addSources hs.wellFormed hr.lt ls
  have hterms := joinTerms_eq htree.registered
  refine ⟨htree, hentries, hterms, ?_⟩
  calc (s.treeClauses r.tables ls).sources.entries.length
      = (s.treeTables r.tables ls).length := by
        rw [treeClauses, hentries, List.length_map]
    _ = ls.length + 1 := htree.count
    _ = (s.treeClauses r.tables ls).joinCount + 1 := by
        simp [treeClauses, Clauses.joinCount, hterms, List.countP_map, Function.comp_def,
          Term.isJoin]

/-- The line is joined end to end, without the side track and the way round. -/
theorem isJoinTree_line : Schema.roundabout.IsJoinTree [0, 2] [1, 0] ∧
    (Schema.roundabout.treeClauses [0, 2] [1, 0]).sources.entries =
      ["coll", "base meta", "data"] := by
  have hasked : ((Requirements.empty.require 0).require 2).Asked Schema.roundabout :=
    .require (.require .empty (by decide)) (by decide)
  have hresolve : (Schema.roundabout.resolve ((Requirements.empty.require 0).require 2)).1
      = .ok [1, 0] := by decide
  have h := resolve_isJoinTree Schema.registered_roundabout hasked (by decide) hresolve
  exact ⟨h.1, h.2.1⟩

end Schema

end CatalogQuery
