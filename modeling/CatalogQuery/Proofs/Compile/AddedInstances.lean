import CatalogQuery.Proofs.Compile.Parts

/-!
# The instances of layouts in a statement

A draft adds an instance of a layout for each of its names after the first. Of the entries that
instances and tables need, FROM has all whose bindings are not taken; the joins of an instance are
left out only if both of its entries are.

* `Instances.sources_addAll`, `Instances.joins_addAll`: what instances bring with them;
* `Draft.mem_addedInstances`, `Draft.nodup_addedInstances`: which instances there are;
* `Draft.sources_clauses`, `Draft.joins_clauses`: the entries and the joins of a statement.
-/

namespace CatalogQuery

open Sql

/-! ## Instances added one by one -/

namespace Instances

variable {n : Instances} {j : AttributeJoin} {k : Nat} {is : List (AttributeJoin × Nat)}

/-- Adds the instances in their order. -/
def addAll (is : List (AttributeJoin × Nat)) : Instances := is.foldl (fun n x => n.add x.1 x.2) {}

theorem sources_add (n : Instances) (j : AttributeJoin) (k : Nat) :
    (n.add j k).sources = n.sources.addAll (j.entries k) := by
  unfold add
  dsimp only
  split
  · next h => exact h.symm
  · rfl

theorem joins_add (h : n.sources.addAll (j.entries k) ≠ n.sources) :
    (n.add j k).joins = n.joins ++ j.joins k :=
  congrArg Instances.joins (if_neg h)

theorem addAll_concat (is : List (AttributeJoin × Nat)) (x : AttributeJoin × Nat) :
    addAll (is ++ [x]) = (addAll is).add x.1 x.2 := by
  rw [addAll, List.foldl_append]
  rfl

theorem sources_addAll (is : List (AttributeJoin × Nat)) :
    (addAll is).sources = Sources.addAll {} (is.flatMap fun x => x.1.entries x.2) := by
  induction is using List.reverseRecOn with
  | nil => rfl
  | append_singleton is x ih =>
    rw [addAll_concat, sources_add, ih, List.flatMap_append, Sources.addAll_append,
      List.flatMap_singleton]

/-- Instances with different bindings bring their joins, two for each. -/
theorem joins_addAll (h : ((is.flatMap fun x => x.1.entries x.2).map Text.lastWord).Nodup) :
    (addAll is).joins = is.flatMap fun x => x.1.joins x.2 := by
  induction is using List.reverseRecOn with
  | nil => rfl
  | append_singleton is x ih =>
    rw [List.flatMap_append, List.map_append] at h
    have hbefore := (List.nodup_append.mp h).1
    have hsources : (addAll is).sources.entries = is.flatMap fun x => x.1.entries x.2 := by
      rw [sources_addAll]
      exact Sources.entries_addAll_iff.mpr hbefore
    have hgrows : (addAll is).sources.addAll (x.1.entries x.2) ≠ (addAll is).sources := by
      intro hsame
      have hentries : ((addAll is).sources.addAll (x.1.entries x.2)).entries
          = (addAll is).sources.entries ++ x.1.entries x.2 :=
        Sources.entries_addAll (by simpa [hsources] using h)
      rw [hsame] at hentries
      simpa [AttributeJoin.entries] using congrArg List.length hentries
    rw [addAll_concat, joins_add hgrows, ih hbefore, List.flatMap_append, List.flatMap_singleton]

end Instances

/-! ## The instances of a draft -/

/-- The instance at which a condition looks, if it does not look at its own table. -/
def Place.instance? : Place → Option (AttributeJoin × Nat)
  | .own => none
  | .inst layout index => some (layout, index)

/-- The instances at which conditions on names look, in the order of these. -/
def namedInstances (ps : List Placed) : List (AttributeJoin × Nat) :=
  (ps.filter fun p => !p.role.isValue).filterMap fun p => p.place.instance?

theorem instancesOf_eq (ps : List Placed) :
    instancesOf ps = Instances.addAll (namedInstances ps) := by
  rw [Instances.addAll, namedInstances, List.foldl_filterMap, instancesOf]
  congr 1
  funext n p
  cases p.place <;> rfl

theorem Place.instance?_ofIndex {layout j : AttributeJoin} {index k : Nat} :
    (Place.ofIndex layout index).instance? = some (j, k) ↔ layout = j ∧ index = k ∧ 2 ≤ k := by
  unfold ofIndex
  split
  · simp only [instance?, reduceCtorEq, false_iff]
    rintro ⟨-, rfl, htwo⟩
    omega
  · simp only [instance?, Option.some.injEq, Prod.mk.injEq]
    refine and_congr_right fun _ => ⟨fun heq => ⟨heq, ?_⟩, fun heq => heq.1⟩
    omega

section Names

variable {s : Schema} {d : Draft} {all before : List Role}
  {conditions : List (Condition × ColumnInfo)} {j : AttributeJoin} {i k : Nat}

/-- A condition on a name looks at the instance of its number, counted from the second on. -/
theorem mem_namedInstances {conventions : Conventions} :
    (j, k) ∈ namedInstances (placeAll conventions all before conditions) ↔
      ∃ pre c post i, conditions = pre ++ c :: post ∧ conventions.role c.2.id = .name i j ∧ 2 ≤ k ∧
        k = (before ++ pre.map fun x => conventions.role x.2.id).countP (·.isNameOf i) + 1 := by
  simp only [namedInstances, List.mem_filterMap, List.mem_filter, mem_placeAll, Bool.not_eq_true']
  constructor
  · rintro ⟨_, ⟨⟨pre, c, post, hsplit, rfl⟩, hname⟩, hplace⟩
    cases hrole : conventions.role c.2.id with
    | plain => simp [hrole, Role.place, Place.instance?] at hplace
    | value i layout => simp [hrole, Role.isValue] at hname
    | name i layout =>
      simp only [hrole, Role.place] at hplace
      obtain ⟨rfl, rfl, htwo⟩ := Place.instance?_ofIndex.mp hplace
      exact ⟨pre, c, post, i, hsplit, hrole, htwo, rfl⟩
  · rintro ⟨pre, c, post, i, hsplit, hrole, htwo, rfl⟩
    refine ⟨_, ⟨⟨pre, c, post, hsplit, rfl⟩, by simp [hrole, Role.isValue]⟩, ?_⟩
    simp only [hrole, Role.place]
    exact Place.instance?_ofIndex.mpr ⟨rfl, rfl, htwo⟩

theorem nodup_namedInstances (conventions : Conventions) :
    (namedInstances (placeAll conventions all before conditions)).Nodup := by
  induction conditions generalizing before with
  | nil => exact .nil
  | cons c conditions ih =>
    have hrest : (namedInstances (placeAll conventions all (before ++ [conventions.role c.2.id])
        conditions)).Nodup := ih
    rw [placeAll, namedInstances]
    by_cases hvalue : (conventions.role c.2.id).isValue = true
    · rw [List.filter_cons_of_neg (by simp [hvalue])]
      exact hrest
    · rw [List.filter_cons_of_pos (by simpa using hvalue), List.filterMap_cons]
      dsimp only
      split
      · exact hrest
      · next x hplace =>
        refine List.nodup_cons.mpr ⟨fun hmem => ?_, hrest⟩
        -- A later name of the same layout has a higher number.
        obtain ⟨j, k⟩ := x
        obtain ⟨pre, c', post, i', -, hrole', -, hk⟩ := mem_namedInstances.mp hmem
        cases hrole : conventions.role c.2.id with
        | plain => simp [hrole, Role.place, Place.instance?] at hplace
        | value i layout => simp [hrole, Role.isValue] at hvalue
        | name i layout =>
          simp only [hrole, Role.place] at hplace hk
          obtain ⟨rfl, rfl, -⟩ := Place.instance?_ofIndex.mp hplace
          have hcolumn : c'.2.id = c.2.id :=
            (Conventions.role_name hrole').2.symm.trans (Conventions.role_name hrole).2
          rw [hcolumn, hrole] at hrole'
          cases hrole'
          simp [Role.isNameOf] at hk

/-- Where more than `n` elements have a property, one of them has it after `n` others. -/
theorem exists_split_of_lt_countP {α : Type} {p : α → Bool} {xs : List α} {n : Nat}
    (h : n < xs.countP p) : ∃ pre x post, xs = pre ++ x :: post ∧ p x = true ∧ pre.countP p = n := by
  induction xs generalizing n with
  | nil => simp at h
  | cons x xs ih =>
    by_cases hx : p x = true
    · rw [List.countP_cons_of_pos hx] at h
      cases n with
      | zero => exact ⟨[], x, xs, rfl, hx, rfl⟩
      | succ n =>
        obtain ⟨pre, y, post, rfl, hy, hcount⟩ := ih (Nat.lt_of_succ_lt_succ h)
        exact ⟨x :: pre, y, post, rfl, hy, by rw [List.countP_cons_of_pos hx, hcount]⟩
    · rw [List.countP_cons_of_neg hx] at h
      obtain ⟨pre, y, post, rfl, hy, hcount⟩ := ih h
      exact ⟨x :: pre, y, post, rfl, hy, by rw [List.countP_cons_of_neg hx, hcount]⟩

namespace Draft

/-- The instances that a draft adds. -/
def addedInstances (d : Draft) (s : Schema) : List (AttributeJoin × Nat) :=
  namedInstances (d.placed s)

/-- There is an instance of a layout for each of its names after the first. -/
theorem mem_addedInstances : (j, k) ∈ d.addedInstances s ↔ ∃ i,
    s.conventions.attributeJoins[i]? = some j ∧ 2 ≤ k ∧ k ≤ nameCount s i d.conditions := by
  rw [addedInstances, placed, mem_namedInstances]
  simp only [List.nil_append, countP_isNameOf]
  constructor
  · rintro ⟨pre, c, post, i, hsplit, hrole, htwo, rfl⟩
    refine ⟨i, (Conventions.role_name hrole).1, htwo, ?_⟩
    rw [hsplit, nameCount, nameCount, List.countP_append, List.countP_cons_of_pos]
    · omega
    · simp [hrole, Role.isNameOf]
  · rintro ⟨i, hj, htwo, hle⟩
    obtain ⟨pre, c, post, hsplit, hname, hcount⟩ := exists_split_of_lt_countP
      (show k - 1 < nameCount s i d.conditions by omega)
    refine ⟨pre, c, post, i, hsplit, ?_, htwo, by rw [nameCount, hcount]; omega⟩
    cases hrole : s.conventions.role c.2.id with
    | plain => simp [hrole, Role.isNameOf] at hname
    | value i' layout => simp [hrole, Role.isNameOf] at hname
    | name i' layout =>
      simp only [hrole, Role.isNameOf, beq_iff_eq] at hname
      subst hname
      rw [Option.some.inj ((Conventions.role_name hrole).1.symm.trans hj)]

theorem nodup_addedInstances : (d.addedInstances s).Nodup := nodup_namedInstances _

/-! ## The entries and the joins of a statement -/

variable {dialect : Dialect} {caller : Caller} {options : CompileOptions} {links : List LinkId}

/-- The entries that a statement needs: those of its instances, and of the tables of its tree. -/
def neededSources (d : Draft) (s : Schema) (links : List LinkId) : List String :=
  (d.addedInstances s).flatMap (fun x => x.1.entries x.2)
    ++ (s.treeTables (d.requirements s).tables links).map s.source

theorem sources_clauses : (d.clauses s dialect caller options links).sources
    = Sources.addAll {} (d.neededSources s links) := by
  rw [neededSources, Sources.addAll_append, ← Instances.sources_addAll, addedInstances,
    ← instancesOf_eq, ← Schema.addSources_eq]
  rfl

/-- Behind WHERE, joins are those of the tree and of the instances. -/
theorem joins_clauses : (d.clauses s dialect caller options links).terms.filter (·.isJoin)
    = joinTerms s links ++ (Instances.addAll (d.addedInstances s)).joins := by
  have hplaced : ∀ p : Placed, (p.term dialect).isJoin = false := by
    intro p
    unfold Placed.term
    cases p.condition <;> rfl
  have htree : (joinTerms s links).filter (·.isJoin) = joinTerms s links := by
    rw [List.filter_eq_self]
    intro t ht
    obtain ⟨l, -, rfl⟩ := mem_joinTerms ht
    rfl
  have hinstances : (instancesOf (d.placed s)).joins.filter (·.isJoin)
      = (instancesOf (d.placed s)).joins := by
    rw [List.filter_eq_self]
    intro t ht
    obtain ⟨j, -, index, ht⟩ := mem_instance_joins t ht
    simp only [AttributeJoin.joins, List.mem_cons, List.not_mem_nil, or_false] at ht
    rcases ht with rfl | rfl
    · rfl
    · rfl
  have hconditions : ((d.placed s).map (·.term dialect)).filter (·.isJoin) = [] := by
    rw [List.filter_eq_nil_iff]
    intro t ht
    obtain ⟨p, -, rfl⟩ := List.mem_map.mp ht
    simp [hplaced]
  have hfilters : ∀ fs : List Fragment, (fs.map Term.predicate).filter (·.isJoin) = [] := by
    intro fs
    simp [List.filter_map, Function.comp_def, Term.isJoin]
  rw [addedInstances, ← instancesOf_eq]
  simp only [terms_clauses, List.filter_append, hconditions, htree, hinstances, hfilters, List.nil_append,
    List.append_nil]

end Draft

end Names

end CatalogQuery
