import CatalogQuery.Proofs.Compile.AddedInstances
import CatalogQuery.Proofs.Compile.AttributeSlots
import CatalogQuery.Proofs.Compile.Decision
import CatalogQuery.Proofs.Text.Cuts

/-!
# Names of instances

An instance is named after its layout, with its number behind the name. Nothing keeps a registered
table, or another layout, from having that name; FROM then has one entry for both, and the other
table is not read at all. Where the names are told apart, each table and instance has its own entry.

* `instanceBinding_inj`: an instance has the name of no other instance;
* `TellsInstances.nodup_needed`: which schemas tell the names apart, the standard schema among them;
* `Schema.instances_fresh`: when each table and each instance of a statement has its own entry.
-/

namespace CatalogQuery

open Sql

/-! ## Words as names -/

namespace Text

theorem isBlank_of_mem_words {s w : List Char} {c : Char} (hw : w ∈ words s) (hc : c ∈ w) :
    isBlank c = false := by
  have hmem : c ∈ (words s).flatten := List.mem_flatten.mpr ⟨w, hw, hc⟩
  rw [flatten_words, List.mem_filter] at hmem
  simpa using hmem.2

/-- A last word has no blanks, unless there are no words. -/
theorem isBlank_of_mem_lastWord {s : String} {c : Char}
    (h : (lastWord s).toList.all isBlank = false) (hc : c ∈ (lastWord s).toList) :
    isBlank c = false := by
  unfold lastWord at h hc
  split at hc
  · next w hlast =>
    rw [String.toList_ofList] at hc
    exact isBlank_of_mem_words (List.mem_of_getLast? hlast) hc
  · next hnone =>
    rw [hnone, (words_eq_nil_iff _).mp (List.getLast?_eq_none_iff.mp hnone)] at h
    cases h

end Text

section Names

variable {base base' : String} {k k' : Nat}

theorem instanceBinding_of_two_le (hk : 2 ≤ k) :
    instanceBinding base k = base ++ Slot.suffix (k - 1) := by
  rw [← Slot.instanceBinding_eq, Nat.sub_add_cancel (by omega)]

theorem toList_instanceBinding (hk : 2 ≤ k) :
    (instanceBinding base k).toList = base.toList ++ '_' :: (toString k).toList := by
  simp [instanceBinding, show ¬k ≤ 1 by omega]

theorem isDigit_of_mem_toString {c : Char} (hc : c ∈ (toString k).toList) : c.isDigit = true := by
  rw [Nat.toString_eq_ofList_toDigits, String.toList_ofList] at hc
  exact Nat.isDigit_of_mem_toDigits (by decide) (by decide) hc

/-- What stands behind the last underscore of a name is the number of the instance. -/
theorem instanceBinding_inj (hk : 2 ≤ k) (hk' : 2 ≤ k')
    (h : instanceBinding base k = instanceBinding base' k') : base = base' ∧ k = k' := by
  have hcut : ∀ (b : String) (n : Nat), 2 ≤ n →
      (instanceBinding b n).toList.reverse.takeWhile (· != '_') = (toString n).toList.reverse := by
    intro b n hn
    rw [toList_instanceBinding hn, List.reverse_append, List.reverse_cons, List.append_assoc,
      List.takeWhile_append_of_pos]
    · simp
    · intro c hc
      have hdigit := isDigit_of_mem_toString (List.mem_reverse.mp hc)
      rw [bne_iff_ne]
      rintro rfl
      exact absurd hdigit (by decide)
  have hnumber : k = k' := by
    have hdigits := hcut base k hk
    rw [h, hcut base' k' hk'] at hdigits
    exact Slot.toString_injective (String.toList_inj.mp (List.reverse_injective hdigits)).symm
  subst hnumber
  have hlists := congrArg String.toList h
  rw [toList_instanceBinding hk, toList_instanceBinding hk] at hlists
  exact ⟨String.toList_inj.mp (List.append_cancel_right hlists), rfl⟩

/-- The name of an instance ends in a digit. -/
theorem exists_getLast?_instanceBinding (base : String) (hk : 2 ≤ k) :
    ∃ c, (instanceBinding base k).toList.getLast? = some c ∧ c.isDigit = true := by
  have hne : (toString k).toList ≠ [] := by
    rw [Nat.toString_eq_ofList_toDigits, String.toList_ofList]
    exact Nat.toDigits_ne_nil
  refine ⟨(toString k).toList.getLast hne, ?_, isDigit_of_mem_toString (List.getLast_mem hne)⟩
  rw [toList_instanceBinding hk, List.append_cons, List.getLast?_append_of_ne_nil _ hne,
    List.getLast?_eq_some_getLast hne]

end Names

/-! ## Schemas that tell instances apart -/

/-- The names after which the instances of a layout are named. -/
def AttributeJoin.bindings (j : AttributeJoin) : List String := [j.mapBinding, j.metaBinding]

namespace Schema

/-- No two layouts share a name, and no registered table has the name of an instance. -/
structure TellsInstances (s : Schema) : Prop where
  visible : ∀ b ∈ s.conventions.attributeJoins.flatMap (·.bindings),
    b.toList.all Text.isBlank = false
  distinct : (s.conventions.attributeJoins.flatMap (·.bindings)).Nodup
  unregistered : ∀ b ∈ s.conventions.attributeJoins.flatMap (·.bindings), ∀ k, 2 ≤ k →
    instanceBinding b k ∉ s.tables.map (·.name)

variable {s : Schema} {j j' : AttributeJoin} {b : String} {k : Nat}

/-- A name that does not end in a digit is the name of no instance. -/
theorem notMem_of_letters {names : List String}
    (h : ∀ name ∈ names, name.toList.getLast?.any (·.isDigit) = false) (hk : 2 ≤ k) :
    instanceBinding b k ∉ names := by
  intro hmem
  obtain ⟨c, hlast, hdigit⟩ := exists_getLast?_instanceBinding b hk
  have hletter := h _ hmem
  rw [hlast, Option.any_some, hdigit] at hletter
  cases hletter

theorem tellsInstances_standard {s : Schema} (hs : Standard.schema = .ok s) : s.TellsInstances := by
  have hcomputed : Standard.schema.toOption.map (fun s => (s.tables.map (·.name), s.conventions))
      = some (Standard.tables.map (·.name), Standard.conventions) := by decide +kernel
  rw [hs] at hcomputed
  obtain ⟨htables, hconventions⟩ := Prod.mk.inj (Option.some.inj hcomputed)
  refine ⟨?_, ?_, fun b _ k hk => ?_⟩
  · rw [hconventions]
    decide +kernel
  · rw [hconventions]
    decide +kernel
  · rw [htables]
    exact notMem_of_letters (by decide +kernel) hk

/-- The names of layouts are those of registered tables, so they are words. -/
theorem isBlank_of_mem_binding (hs : s.Registered) (htells : s.TellsInstances)
    (hj : j ∈ s.conventions.attributeJoins) (hb : b ∈ j.bindings) :
    b.toList.all (!Text.isBlank ·) = true := by
  have hvisible := htells.visible b (List.mem_flatMap.mpr ⟨j, hj, hb⟩)
  have hregistered : b ∈ s.tables.map (·.name) := by
    have hlayout := hs.holdsConventions.layouts j hj
    by_contra hnot
    have hnone := tableId?_eq_none.mpr hnot
    simp only [AttributeJoin.bindings, List.mem_cons, List.not_mem_nil, or_false] at hb
    rcases hb with rfl | rfl
    · obtain ⟨t, ht⟩ := hlayout.map
      cases hnone.symm.trans ht
    · obtain ⟨info, -, ht⟩ := hlayout.names
      cases hnone.symm.trans ht
  obtain ⟨table, htable, rfl⟩ := List.mem_map.mp hregistered
  have hword := hs.wellFormed.lastWord_source table htable
  rw [← hword] at hvisible ⊢
  rw [List.all_eq_true]
  intro c hc
  rw [Text.isBlank_of_mem_lastWord hvisible hc]
  rfl

/-- The entries of an instance bind its names. -/
theorem map_lastWord_entries (hs : s.Registered) (htells : s.TellsInstances)
    (hj : j ∈ s.conventions.attributeJoins) (hk : 2 ≤ k) :
    (j.entries k).map Text.lastWord = j.bindings.map fun b => instanceBinding b k := by
  have hname : ∀ (table : String), ∀ b ∈ j.bindings,
      Text.lastWord (table ++ " " ++ instanceBinding b k) = instanceBinding b k := by
    intro table b hb
    refine Text.lastWord_append (by simp [toList_instanceBinding hk]) ?_
    rw [instanceBinding_of_two_le hk]
    exact Slot.isBlank_suffix (isBlank_of_mem_binding hs htells hj hb) (k - 1)
  have hmap := hname j.mapTable j.mapBinding (by simp [AttributeJoin.bindings])
  have hmeta := hname j.metaTable j.metaBinding (by simp [AttributeJoin.bindings])
  simp only [AttributeJoin.entries, AttributeJoin.bindings, List.map_cons, List.map_nil,
    AttributeJoin.mapInstance, AttributeJoin.metaInstance, hmap, hmeta]

/-- Only one layout has a name. -/
theorem TellsInstances.eq_of_mem (h : s.TellsInstances) (hj : j ∈ s.conventions.attributeJoins)
    (hj' : j' ∈ s.conventions.attributeJoins) (hb : b ∈ j.bindings) (hb' : b ∈ j'.bindings) :
    j = j' := by
  by_contra hne
  have hdisjoint := (List.nodup_flatMap.mp h.distinct).2
  have : Std.Symm (Function.onFun List.Disjoint AttributeJoin.bindings) :=
    ⟨fun _ _ h => List.disjoint_symm h⟩
  exact hdisjoint.forall hj hj' hne hb hb'

/-- Different instances have different names. -/
theorem TellsInstances.nodup_instances (hs : s.Registered) (h : s.TellsInstances)
    {is : List (AttributeJoin × Nat)} (hnodup : is.Nodup)
    (his : ∀ x ∈ is, x.1 ∈ s.conventions.attributeJoins ∧ 2 ≤ x.2) :
    ((is.flatMap fun x => x.1.entries x.2).map Text.lastWord).Nodup := by
  rw [List.map_flatMap, List.nodup_flatMap]
  constructor
  · intro x hx
    obtain ⟨hj, hk⟩ := his x hx
    rw [map_lastWord_entries hs h hj hk]
    refine ((List.nodup_flatMap.mp h.distinct).1 x.1 hj).map_on fun b _ b' _ heq => ?_
    exact (instanceBinding_inj hk hk heq).1
  · refine hnodup.pairwise_of_forall_ne fun x hx y hy hne name hname hname' => hne ?_
    obtain ⟨hj, hk⟩ := his x hx
    obtain ⟨hj', hk'⟩ := his y hy
    dsimp only at hname hname'
    rw [map_lastWord_entries hs h hj hk, List.mem_map] at hname
    rw [map_lastWord_entries hs h hj' hk', List.mem_map] at hname'
    obtain ⟨b, hb, rfl⟩ := hname
    obtain ⟨b', hb', heq⟩ := hname'
    obtain ⟨rfl, hindex⟩ := instanceBinding_inj hk' hk heq
    exact Prod.ext (h.eq_of_mem hj hj' hb hb') hindex.symm

end Schema

namespace Draft

variable {s : Schema} {d : Draft} {links : List LinkId}

/-- A schema that tells instances apart needs no two entries of one name. -/
theorem nodup_needed (hs : s.Registered) (h : s.TellsInstances) (hd : d.Known s) :
    ((d.neededSources s links).map Text.lastWord).Nodup := by
  have hwell := hs.wellFormed
  have hrequired := (requirements_asked hd).lt
  have his : ∀ x ∈ d.addedInstances s, x.1 ∈ s.conventions.attributeJoins ∧ 2 ≤ x.2 := by
    intro x hx
    obtain ⟨i, hj, hk, -⟩ := mem_addedInstances.mp hx
    exact ⟨List.mem_of_getElem? hj, hk⟩
  rw [neededSources, List.map_append]
  refine List.nodup_append.mpr ⟨h.nodup_instances hs nodup_addedInstances his, ?_, ?_⟩
  · exact Schema.nodup_treeSources hwell hrequired links
  · intro name hname name' hname' heq
    subst heq
    rw [List.map_flatMap, List.mem_flatMap] at hname
    obtain ⟨x, hx, hname⟩ := hname
    obtain ⟨hj, hk⟩ := his x hx
    rw [Schema.map_lastWord_entries hs h hj hk, List.mem_map] at hname
    obtain ⟨b, hb, rfl⟩ := hname
    refine h.unregistered b (List.mem_flatMap.mpr ⟨x.1, hj, hb⟩) x.2 hk ?_
    rw [List.map_map, List.mem_map] at hname'
    obtain ⟨t, ht, hsource⟩ := hname'
    have hlt := Schema.lt_of_mem_treeTables hwell hrequired ht
    rw [Function.comp_apply, Schema.lastWord_source hwell hlt] at hsource
    exact List.mem_map.mpr ⟨_, List.getElem_mem _, hsource⟩

/-! ## Entries of their own -/

variable {dialect : Dialect} {caller : Caller} {options : CompileOptions} {q : Compiled}

/-- Each table of the tree has its registered entry in FROM, and each instance, of which there is one
for each name of a layout after the first, has the entries of its map and of its rows. Behind WHERE,
the tree has one join for each of its links and each instance has two; there is one join less than
there are entries. -/
structure HasOwnEntries (d : Draft) (s : Schema) (dialect : Dialect) (caller : Caller)
    (options : CompileOptions) (links : List LinkId) (q : Compiled) : Prop where
  tables : ∀ t ∈ s.treeTables (d.requirements s).tables links, s.source t ∈ q.sources
  instances : ∀ i j, s.conventions.attributeJoins[i]? = some j → ∀ k, 2 ≤ k →
    k ≤ nameCount s i d.conditions → ∀ e ∈ j.entries k, e ∈ q.sources
  joined : ∃ is : List (AttributeJoin × Nat), is.Nodup ∧
    (∀ j k, (j, k) ∈ is ↔ ∃ i, s.conventions.attributeJoins[i]? = some j ∧ 2 ≤ k ∧
      k ≤ nameCount s i d.conditions) ∧
    (d.clauses s dialect caller options links).terms.filter (·.isJoin)
      = links.map (fun l => .join (s.predicate l)) ++ is.flatMap fun x => x.1.joins x.2
  count : q.joins + 1 = q.sources.length

theorem length_neededSources (htree : s.IsJoinTree (d.requirements s).tables links) :
    (d.neededSources s links).length = 2 * (d.addedInstances s).length + links.length + 1 := by
  rw [neededSources, List.length_append, List.length_map, htree.count]
  simp [List.length_flatMap, AttributeJoin.entries, Nat.mul_comm, Nat.add_assoc]

theorem length_flatMap_joins (is : List (AttributeJoin × Nat)) :
    (is.flatMap fun x => x.1.joins x.2).length = 2 * is.length := by
  simp [List.length_flatMap, AttributeJoin.joins, Nat.mul_comm]

theorem sources_compiled (offset : Nat) :
    (d.compiled s dialect caller options offset links).sources
      = (Sources.addAll {} (d.neededSources s links)).entries := by
  rw [compiled, sources_clauses]

theorem joins_compiled (offset : Nat) :
    (d.compiled s dialect caller options offset links).joins
      = ((d.clauses s dialect caller options links).terms.filter (·.isJoin)).length := by
  rw [compiled, Clauses.joinCount, List.countP_eq_length_filter]

/-- With two joins for each instance, there are enough entries only if none was left out. -/
theorem HasOwnEntries.entries_eq {offset : Nat}
    (htree : s.IsJoinTree (d.requirements s).tables links)
    (h : d.HasOwnEntries s dialect caller options links
      (d.compiled s dialect caller options offset links)) :
    (Sources.addAll {} (d.neededSources s links)).entries = d.neededSources s links := by
  obtain ⟨-, -, ⟨is, hnodup, hmem, hjoined⟩, hcount⟩ := h
  have hperm : is.Perm (d.addedInstances s) :=
    (List.perm_ext_iff_of_nodup hnodup nodup_addedInstances).mpr fun x =>
      (hmem x.1 x.2).trans mem_addedInstances.symm
  have hlength := length_neededSources htree
  rw [joins_compiled, sources_compiled, hjoined, List.length_append, List.length_map,
    length_flatMap_joins, hperm.length_eq] at hcount
  have hsub : (Sources.addAll {} (d.neededSources s links)).entries.Sublist
      (d.neededSources s links) := Sources.sublist_addAll
  exact hsub.eq_of_length (by omega)

/-- Instances whose entries have names of their own bring both joins. -/
theorem joins_of_nodup (htree : s.IsJoinTree (d.requirements s).tables links)
    (h : ((d.neededSources s links).map Text.lastWord).Nodup) :
    (d.clauses s dialect caller options links).terms.filter (·.isJoin)
      = links.map (fun l => .join (s.predicate l))
        ++ (d.addedInstances s).flatMap fun x => x.1.joins x.2 := by
  rw [neededSources, List.map_append] at h
  rw [joins_clauses, Schema.joinTerms_eq htree.registered,
    Instances.joins_addAll (List.nodup_append.mp h).1]

/-- Each table and instance has its own entries iff no two entries that are needed have one name. -/
theorem hasOwnEntries_iff (htree : s.IsJoinTree (d.requirements s).tables links) (offset : Nat) :
    d.HasOwnEntries s dialect caller options links
        (d.compiled s dialect caller options offset links) ↔
      ((d.neededSources s links).map Text.lastWord).Nodup := by
  refine ⟨fun h => Sources.entries_addAll_iff.mp (h.entries_eq htree), fun hdistinct => ?_⟩
  have hsources : (d.compiled s dialect caller options offset links).sources
      = d.neededSources s links := by
    rw [sources_compiled, Sources.entries_addAll_iff.mpr hdistinct]
  have hjoins := @joins_of_nodup s d links dialect caller options htree hdistinct
  constructor
  case tables =>
    intro t ht
    rw [hsources]
    exact List.mem_append_right _ (List.mem_map_of_mem ht)
  case instances =>
    intro i j hj k hk hle e he
    rw [hsources]
    exact List.mem_append_left _ (List.mem_flatMap.mpr
      ⟨(j, k), mem_addedInstances.mpr ⟨i, hj, hk, hle⟩, he⟩)
  case joined =>
    exact ⟨d.addedInstances s, nodup_addedInstances, fun _ _ => mem_addedInstances, hjoins⟩
  case count =>
    rw [joins_compiled, hjoins, hsources, length_neededSources htree, List.length_append,
      List.length_map, length_flatMap_joins]
    omega

end Draft

/-! ## Compiled requests -/

variable {s : Schema} {dialect : Dialect} {caller : Caller} {options : CompileOptions} {r : Request}
  {q : Compiled}

/-- The entries of FROM always bind different names. Each table and each instance has its own entries
iff no two of the entries that are needed have one name; in a schema that tells instances apart, as
the standard one does, no two ever have. -/
theorem Schema.instances_fresh (hs : s.Registered) (h : s.compile dialect caller options r = .ok q) :
    ∃ d links, s.draft caller r = .ok d ∧ (s.resolve (d.requirements s)).1 = .ok links ∧
      q = d.compiled s dialect caller options r.offset links ∧
      (q.sources.map Text.lastWord).Nodup ∧
      (d.HasOwnEntries s dialect caller options links q ↔
        ((d.neededSources s links).map Text.lastWord).Nodup) ∧
      (s.TellsInstances → ((d.neededSources s links).map Text.lastWord).Nodup) := by
  obtain ⟨d, hd, hselects, links, hlinks, rfl, -⟩ := Schema.compile_eq_ok.mp h
  have hknown := Draft.known_of_draft hd
  have hasked := Draft.requirements_asked hknown
  have hne : (d.requirements s).tables ≠ [] := by
    obtain ⟨c, hc⟩ := List.exists_mem_of_ne_nil _ hselects
    have hselected : c.2.tableId ∈ (d.requirements s).tables :=
      Draft.mem_requirements.mpr (.inl ⟨c, hc, rfl⟩)
    exact List.ne_nil_of_mem hselected
  obtain ⟨t, ts, ht, hbranch, hall⟩ := resolve_branch hne hlinks
  refine ⟨d, links, hd, hlinks, rfl, ?_, Draft.hasOwnEntries_iff (hbranch.isJoinTree ht hall) _,
    fun htells => Draft.nodup_needed hs htells hknown⟩
  show (d.clauses s dialect caller options links).sources.bindings.Nodup
  rw [Draft.sources_clauses]
  exact Sources.nodup_addAll .nil

/-- The second label has an instance of its own, with entries and joins beside those of the first. -/
theorem labels_apart : Schema.labelled.Registered ∧
    ∃ (q : Compiled) (d : Draft) (links : List LinkId),
    Schema.labelled.compile .postgres ⟨"alice", "north", .localUser⟩ {} .twoLabels = .ok q ∧
    d.HasOwnEntries .labelled .postgres ⟨"alice", "north", .localUser⟩ {} links q ∧
    q.sources = ["base note_2", "base meta_2", "data", "base meta"] ∧ q.joins = 3 := by
  obtain ⟨q, hq⟩ := Fallible.exists_of_isOk (x := Schema.labelled.compile .postgres
    ⟨"alice", "north", .localUser⟩ {} .twoLabels) (by decide +kernel)
  obtain ⟨d, links, -, -, -, -, hown, htells⟩ := Schema.instances_fresh Schema.registered_labelled hq
  have hlabelled : Schema.labelled.TellsInstances := ⟨by decide +kernel, by decide +kernel,
    fun _ _ _ hk => Schema.notMem_of_letters (by decide +kernel) hk⟩
  have hcomputed : (fun q => (q.sources, q.joins)) <$> Schema.labelled.compile .postgres
      ⟨"alice", "north", .localUser⟩ {} .twoLabels
      = .ok (["base note_2", "base meta_2", "data", "base meta"], 3) := by decide +kernel
  rw [hq] at hcomputed
  obtain ⟨hsources, hjoins⟩ := Prod.mk.inj (Except.ok.inj hcomputed)
  exact ⟨Schema.registered_labelled, q, d, links, hq, hown.mpr (htells hlabelled), hsources, hjoins⟩

/-! ## A table with the name of an instance -/

/-- Data with labels, and with remarks under the name of the second label. -/
def Definition.shadowed : Definition where
  limits := {}
  tables := [⟨"data", "", false⟩, ⟨"note", "", false⟩, ⟨"meta", "", false⟩,
    ⟨"meta_2", "remark meta_2", false⟩]
  columns := [⟨⟨1⟩, "data", "name"⟩, ⟨⟨2⟩, "meta", "label"⟩, ⟨⟨3⟩, "meta", "value"⟩,
    ⟨⟨4⟩, "meta_2", "text"⟩]
  links := [⟨"data", "note", "data.id = note.data_id"⟩,
    ⟨"note", "meta", "note.meta_id = meta.meta_id"⟩, ⟨"data", "meta_2", "data.id = meta_2.data_id"⟩]
  conventions :=
    { Conventions.blank with
      attributeJoins :=
        [⟨⟨2⟩, ⟨3⟩, "note", "note", "meta", "meta", "meta_id", "data_id", "data", "id"⟩] }

def Schema.shadowed : Schema where
  limits := {}
  tables := [⟨"data", "data", false⟩, ⟨"note", "note", false⟩, ⟨"meta", "meta", false⟩,
    ⟨"meta_2", "remark meta_2", false⟩]
  columns := [⟨⟨1⟩, 0, "name"⟩, ⟨⟨2⟩, 2, "label"⟩, ⟨⟨3⟩, 2, "value"⟩, ⟨⟨4⟩, 3, "text"⟩]
  links := [⟨0, 1, "data.id = note.data_id"⟩, ⟨1, 2, "note.meta_id = meta.meta_id"⟩,
    ⟨0, 3, "data.id = meta_2.data_id"⟩]
  conventions := Definition.shadowed.conventions

/-- The remarks on what has two labels. -/
def Request.remarks : Request where
  select := [⟨⟨4⟩, .none, .none⟩]
  conditions := [⟨⟨2⟩, "= 'age'"⟩, ⟨⟨2⟩, "= 'mass'"⟩]

/-- The remarks are required, but their table is not read: the second label has its name. The texts
are looked for among the labels, and there are as many joins as entries. -/
theorem remarks_not_read : Schema.shadowed.Registered ∧ Schema.shadowed.validate = .ok () ∧
    ∃ (q : Compiled) (d : Draft) (links : List LinkId),
      Schema.shadowed.compile .sqlite ⟨"bob", "north", .localUser⟩ {} .remarks = .ok q ∧
      Schema.shadowed.draft ⟨"bob", "north", .localUser⟩ .remarks = .ok d ∧
      (Schema.shadowed.resolve (d.requirements .shadowed)).1 = .ok links ∧
      3 ∈ (d.requirements .shadowed).tables ∧ Schema.shadowed.source 3 = "remark meta_2" ∧
      q.sources = ["note note_2", "meta meta_2", "meta", "data", "note"] ∧ q.joins = 5 ∧
      ¬d.HasOwnEntries .shadowed .sqlite ⟨"bob", "north", .localUser⟩ {} links q := by
  have hregistered : Schema.shadowed.Registered :=
    Definition.registered_of_register (d := .shadowed) (by decide +kernel)
  refine ⟨hregistered, by decide +kernel, ?_⟩
  have hcomputed : (do
      let q ← Schema.shadowed.compile .sqlite ⟨"bob", "north", .localUser⟩ {} .remarks
      let d ← Schema.shadowed.draft ⟨"bob", "north", .localUser⟩ .remarks
      let links ← (Schema.shadowed.resolve (d.requirements .shadowed)).1
      return (q.sources, q.joins, (d.requirements .shadowed).tables, links))
      = .ok (["note note_2", "meta meta_2", "meta", "data", "note"], 5, [3, 2, 0], [1, 0, 2]) := by
    decide +kernel
  obtain ⟨q, hq, hcomputed⟩ := Fallible.bind_eq_ok.mp hcomputed
  obtain ⟨d, hd, hcomputed⟩ := Fallible.bind_eq_ok.mp hcomputed
  obtain ⟨links, hlinks, hcomputed⟩ := Fallible.bind_eq_ok.mp hcomputed
  obtain ⟨hsources, hrest⟩ := Prod.mk.inj (Except.ok.inj hcomputed)
  obtain ⟨hjoins, hrest⟩ := Prod.mk.inj hrest
  obtain ⟨hrequired, -⟩ := Prod.mk.inj hrest
  have hremarks : 3 ∈ (d.requirements .shadowed).tables := by
    rw [hrequired]
    decide
  refine ⟨q, d, links, hq, hd, hlinks, hremarks, rfl, hsources, hjoins, fun hown => ?_⟩
  have hcount := hown.count
  rw [hsources, hjoins] at hcount
  cases hcount

end CatalogQuery
