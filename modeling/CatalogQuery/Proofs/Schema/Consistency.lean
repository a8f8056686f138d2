import CatalogQuery.Proofs.Schema.Conventions
import CatalogQuery.Proofs.Schema.LinkGraph
import CatalogQuery.Proofs.Schema.StoreCalls
import Mathlib.Data.List.Induction

/-!
# The store is always consistent

Whatever is registered, successfully or not: names and numbers are distinct and found where they
stand, all references lead to what is registered, the links at a table are just those that join it,
no list is longer than its limit, and a call that fails changes nothing.

* `Registered.nodup_numbers`, `Registered.withinLimits`: what registration keeps besides;
* `SchemaStore.register_follows`: what any call does;
* `SchemaStore.indexed_after`: the store of any run has the schema of that run;
* `store_consistent`: what holds after any calls.
-/

namespace CatalogQuery

namespace Schema

variable {s : Schema}

/-! ## Numbers and limits -/

/-- No list is longer than its limit. -/
structure WithinLimits (s : Schema) : Prop where
  tables : ∀ max, s.limits.maxTables = some max → s.tables.length ≤ max
  columns : ∀ max, s.limits.maxColumns = some max → s.columns.length ≤ max
  links : ∀ max, s.limits.maxLinks = some max → s.links.length ≤ max

/-- Where another member is taken, the registry is not full. -/
theorem checkRoom_eq_ok {current : Nat} {max : Option Nat} {registry : Registry} :
    checkRoom current max registry = .ok () ↔ ∀ m, max = some m → current < m := by
  unfold checkRoom
  cases max with
  | none => simp
  | some m =>
    dsimp only
    split
    · next hfull => simpa using hfull
    · next hroom => simpa using Nat.not_le.mp hroom

theorem Registered.withinLimits (h : s.Registered) : s.WithinLimits := by
  induction h with
  | empty limits =>
    exact ⟨fun _ _ => Nat.zero_le _, fun _ _ => Nat.zero_le _, fun _ _ => Nat.zero_le _⟩
  | table _ hs ih =>
    obtain ⟨hroom, -, -, -, rfl⟩ := registerTable_eq_ok.mp hs
    refine { ih with tables := fun max hmax => ?_ }
    simpa using Nat.succ_le_of_lt (checkRoom_eq_ok.mp hroom max hmax)
  | column _ hs ih =>
    obtain ⟨hroom, -, t, -, rfl⟩ := registerColumn_eq_ok.mp hs
    refine { ih with columns := fun max hmax => ?_ }
    simpa using Nat.succ_le_of_lt (checkRoom_eq_ok.mp hroom max hmax)
  | link _ hs ih =>
    obtain ⟨hroom, l, r, -, -, -, -, rfl⟩ := registerLink_eq_ok.mp hs
    refine { ih with links := fun max hmax => ?_ }
    simpa using Nat.succ_le_of_lt (checkRoom_eq_ok.mp hroom max hmax)
  | conventions _ hs ih =>
    rw [setConventions_eq hs]
    exact ⟨ih.tables, ih.columns, ih.links⟩

theorem Registered.nodup_numbers (h : s.Registered) : (s.columns.map (·.id)).Nodup := by
  induction h with
  | empty limits => exact .nil
  | table _ hs ih =>
    obtain ⟨-, -, -, -, rfl⟩ := registerTable_eq_ok.mp hs
    exact ih
  | column _ hs ih =>
    obtain ⟨-, hnew, t, -, rfl⟩ := registerColumn_eq_ok.mp hs
    exact nodup_map_concat ih hnew
  | link _ hs ih =>
    obtain ⟨-, l, r, -, -, -, -, rfl⟩ := registerLink_eq_ok.mp hs
    exact ih
  | conventions _ hs ih =>
    rw [setConventions_eq hs]
    exact ih

/-! ## The links at a table -/

/-- The links from a table are enumerated before the links to it, each list as it was registered. -/
theorem incident_eq (hs : s.WellFormed) (t : TableId) :
    s.incident t = (s.linksFrom t).map (fun l => (l.2, l.1.right))
      ++ (s.linksTo t).map (fun l => (l.2, l.1.left)) := by
  refine congrArg₂ (· ++ ·) (List.map_congr_left fun l hl => ?_)
    (List.map_congr_left fun l hl => ?_)
  · obtain ⟨-, hleft⟩ := List.mem_filter.mp hl
    simp [Link.other, eq_of_beq hleft]
  · obtain ⟨hmem, hright⟩ := List.mem_filter.mp hl
    have hne := hs.left_ne_right l.1 (List.fst_mem_of_mem_zipIdx hmem)
    rw [eq_of_beq hright] at hne
    simp [Link.other, hne]

end Schema

/-! ## Calls of all kinds -/

/-- A call that registers something. -/
inductive Registration where
  | table (name given : String) (cycler : Bool)
  | column (id : ColumnId) (table name : String)
  | link (left right predicate : String)
  | conventions (c : Conventions)
  deriving DecidableEq, Repr

/-- The schema that a registration builds, with the position of a new table or link. -/
def Schema.register (s : Schema) : Registration → Except QueryError (Schema × Option Nat)
  | .table name given cycler => (fun p => (p.1, some p.2)) <$> s.registerTable name given cycler
  | .column id table name => (·, none) <$> s.registerColumn id table name
  | .link left right predicate => (fun p => (p.1, some p.2)) <$> s.registerLink left right predicate
  | .conventions c => (·, none) <$> s.setConventions c

/-- A registration that fails leaves the schema as it was. -/
def Schema.afterOne (s : Schema) (c : Registration) : Schema :=
  match s.register c with
  | .ok (s', _) => s'
  | .error _ => s

/-- The schema after calls, successful or not, from an empty one on. -/
def Schema.afterAll (limits : Limits) (calls : List Registration) : Schema :=
  calls.foldl afterOne (.empty limits)

theorem Schema.Registered.register {s s' : Schema} {c : Registration} {n : Option Nat}
    (hs : s.Registered) (h : s.register c = .ok (s', n)) : s'.Registered := by
  cases c with
  | table name given cycler =>
    obtain ⟨⟨s₁, t⟩, hone, heq⟩ := Fallible.map_eq_ok.mp h
    cases heq
    exact .table hs hone
  | column id table name =>
    obtain ⟨s₁, hone, heq⟩ := Fallible.map_eq_ok.mp h
    cases heq
    exact .column hs hone
  | link left right predicate =>
    obtain ⟨⟨s₁, l⟩, hone, heq⟩ := Fallible.map_eq_ok.mp h
    cases heq
    exact .link hs hone
  | conventions c =>
    obtain ⟨s₁, hone, heq⟩ := Fallible.map_eq_ok.mp h
    cases heq
    exact .conventions hs hone

/-- No registration changes the limits. -/
theorem Schema.limits_register {s s' : Schema} {c : Registration} {n : Option Nat}
    (h : s.register c = .ok (s', n)) : s'.limits = s.limits := by
  cases c with
  | table name given cycler =>
    obtain ⟨⟨s₁, t⟩, hone, heq⟩ := Fallible.map_eq_ok.mp h
    cases heq
    obtain ⟨-, -, -, -, rfl⟩ := registerTable_eq_ok.mp hone
    rfl
  | column id table name =>
    obtain ⟨s₁, hone, heq⟩ := Fallible.map_eq_ok.mp h
    cases heq
    obtain ⟨-, -, t, -, rfl⟩ := registerColumn_eq_ok.mp hone
    rfl
  | link left right predicate =>
    obtain ⟨⟨s₁, l⟩, hone, heq⟩ := Fallible.map_eq_ok.mp h
    cases heq
    obtain ⟨-, l, r, -, -, -, -, rfl⟩ := registerLink_eq_ok.mp hone
    rfl
  | conventions c =>
    obtain ⟨s₁, hone, heq⟩ := Fallible.map_eq_ok.mp h
    cases heq
    rw [setConventions_eq hone]

theorem Schema.limits_afterAll (limits : Limits) (calls : List Registration) :
    (afterAll limits calls).limits = limits := by
  induction calls using List.reverseRecOn with
  | nil => rfl
  | append_singleton calls c ih =>
    rw [afterAll, List.foldl_append, List.foldl_cons, List.foldl_nil, afterOne]
    split
    · next h => exact (limits_register h).trans ih
    · exact ih

/-! ## The store after calls -/

namespace SchemaStore

variable {x : SchemaStore} {α β σ : Type} {built : σ → Schema × α}
  {result : Except QueryError α × SchemaStore} {spec : Except QueryError σ}

/-- The same store with another answer. -/
def answer (f : α → β) (result : Except QueryError α × SchemaStore) :
    Except QueryError β × SchemaStore := (f <$> result.1, result.2)

/-- What a registration answers on the store, and the store that it leaves. -/
def register (x : SchemaStore) : Registration → Except QueryError (Option Nat) × SchemaStore
  | .table name given cycler => answer some ((registerTable name given cycler).on x)
  | .column id table name => answer (fun _ => none) ((registerColumn id table name).on x)
  | .link left right predicate => answer some ((registerLink left right predicate).on x)
  | .conventions c => answer (fun _ => none) ((setConventions c).on x)

/-- The store after calls, successful or not, from an empty one on. -/
def afterAll (limits : Limits) (calls : List Registration) : SchemaStore :=
  calls.foldl (fun x c => (x.register c).2) (.empty limits)

theorem Follows.answer {f : α → β} {give : σ → Schema × β}
    (hgive : ∀ given, give given = ((built given).1, f (built given).2))
    (h : x.Follows result built spec) :
    x.Follows (SchemaStore.answer f result) (fun p => p) (give <$> spec) := by
  cases h with
  | @done given hanswer hschema hindexed =>
    show x.Follows _ _ (.ok (give given))
    refine .done ?_ ?_ hindexed
    · rw [SchemaStore.answer, hanswer, hgive]
      rfl
    · rw [SchemaStore.answer, hschema, hgive]
  | refused hresult =>
    rw [hresult]
    exact .refused rfl

theorem register_follows (hs : x.WellFormed) (h : x.Indexed) (c : Registration) :
    x.Follows (x.register c) (fun p => p) (x.toSchema.register c) := by
  cases c with
  | table name given cycler =>
    exact (registerTable_follows hs h name given cycler).answer fun _ => rfl
  | column id table name => exact (registerColumn_follows h id table name).answer fun _ => rfl
  | link left right predicate =>
    exact (registerLink_follows h left right predicate).answer fun _ => rfl
  | conventions c => exact (setConventions_follows h c).answer fun _ => rfl

theorem indexed_empty (limits : Limits) : (empty limits).Indexed where
  tableIndex := fun name => by simp [empty, Schema.empty, Schema.tableId?]
  columnIndex := fun id => by simp [empty, Schema.empty]
  incidence := rfl

/-- One call, successful or not, leaves a store with the schema that it leaves of the schema. -/
theorem register_step (hs : x.Registered) (h : x.Indexed) (c : Registration) :
    (x.register c).2.toSchema = x.afterOne c ∧ (x.register c).2.Indexed ∧
      (x.register c).2.Registered := by
  have hfollows := register_follows hs.wellFormed h c
  unfold Schema.afterOne
  generalize hspec : x.toSchema.register c = spec at hfollows
  cases hfollows with
  | @done given _ hschema hindexed =>
    obtain ⟨s', n⟩ := given
    refine ⟨hschema, hindexed, ?_⟩
    rw [hschema]
    exact hs.register hspec
  | refused hresult =>
    rw [hresult]
    exact ⟨rfl, h, hs⟩

theorem indexed_after (limits : Limits) (calls : List Registration) :
    (afterAll limits calls).toSchema = Schema.afterAll limits calls ∧
      (afterAll limits calls).Indexed ∧ (afterAll limits calls).Registered := by
  induction calls using List.reverseRecOn with
  | nil => exact ⟨rfl, indexed_empty limits, .empty limits⟩
  | append_singleton calls c ih =>
    obtain ⟨hschema, hindexed, hregistered⟩ := ih
    have hstep := register_step hregistered hindexed c
    rw [hschema] at hstep
    rw [afterAll, Schema.afterAll, List.foldl_append, List.foldl_append]
    exact hstep

/-! ## Consistency -/

/-- Names and numbers are distinct, and the indexes find each of them where it stands; a table is bound
by its name, a column stands on a table, and a link joins two of them. At each table the store
enumerates the links from it and then those to it, as they were registered, with their other ends,
each link once. No list exceeds its limit, and all that the conventions name is registered. -/
structure Consistent (x : SchemaStore) : Prop where
  nodup_names : (x.tables.map (·.name)).Nodup
  binding : ∀ table ∈ x.tables, Text.lastWord table.source = table.name
  tableIndex : ∀ name t, x.tableIndex[name]? = some t ↔
    ∃ table : Table, x.tables[t]? = some table ∧ table.name = name
  nodup_numbers : (x.columns.map (·.id)).Nodup
  columnIndex : ∀ id place, x.columnIndex[id]? = some place ↔
    ∃ c : Column, x.columns[place]? = some c ∧ c.id = id
  column_table : ∀ c ∈ x.columns, c.table < x.tables.length
  link_ends : ∀ l ∈ x.links, l.left < x.tables.length ∧ l.right < x.tables.length ∧ l.left ≠ l.right
  incident : ∀ t, x.incident t = (x.linksFrom t).map (fun l => (l.2, l.1.right))
    ++ (x.linksTo t).map (fun l => (l.2, l.1.left))
  incident_iff : ∀ l t u, (l, u) ∈ x.incident t ↔ x.Joins l t u
  incident_once : ∀ t, ((x.incident t).map (·.1)).Nodup
  limits : x.WithinLimits
  conventions : x.HoldsConventions x.conventions

/-- The store enumerates the links that the schema does. -/
theorem Indexed.incident (hs : x.WellFormed) (h : x.Indexed) (t : TableId) :
    SchemaStore.incident x t = Schema.incident x.toSchema t := by
  have hnumbered : ∀ links : List (Link × LinkId), (∀ l ∈ links, l ∈ x.links.zipIdx) →
      (links.map (·.2)).filterMap (fun l => x.links[l]?.map fun k => (l, k.other t))
        = links.map fun l => (l.2, l.1.other t) := by
    intro links hlinks
    rw [List.filterMap_map, ← List.filterMap_eq_map]
    refine List.filterMap_congr fun l hl => ?_
    simp [List.mem_zipIdx_iff_getElem?.mp (hlinks l hl)]
  have hfrom := hnumbered (x.linksFrom t) fun _ hl => List.mem_of_mem_filter hl
  have hto := hnumbered (x.linksTo t) fun _ hl => List.mem_of_mem_filter hl
  unfold SchemaStore.incident
  by_cases ht : t < x.tables.length
  · have hat : x.incidence[t]? = some (x.toSchema.incidence t) := by simp [h.incidence, ht]
    rw [hat]
    dsimp only
    rw [List.filterMap_append]
    exact congrArg₂ (· ++ ·) hfrom hto
  · have hnone : x.incidence[t]? = none := by simpa [h.incidence] using ht
    have hempty := Schema.incidence_of_le hs (Nat.not_lt.mp ht)
    have hleft : x.linksFrom t = [] := List.map_eq_nil_iff.mp (congrArg Incidence.outgoing hempty)
    have hright : x.linksTo t = [] := List.map_eq_nil_iff.mp (congrArg Incidence.incoming hempty)
    rw [hnone]
    show [] = (x.linksFrom t).map _ ++ (x.linksTo t).map _
    rw [hleft, hright]
    rfl

theorem Indexed.consistent (hs : x.Registered) (h : x.Indexed) : x.Consistent where
  nodup_names := hs.wellFormed.nodup_names
  binding := hs.wellFormed.lastWord_source
  tableIndex := by
    intro name t
    rw [h.tableIndex]
    exact Schema.findIdx?_eq_some_of_nodup hs.wellFormed.nodup_names
  nodup_numbers := hs.nodup_numbers
  columnIndex := by
    intro id place
    rw [h.columnIndex]
    exact Schema.findIdx?_eq_some_of_nodup hs.nodup_numbers
  column_table := hs.column_lt
  link_ends := fun l hl =>
    ⟨hs.wellFormed.left_lt l hl, hs.wellFormed.right_lt l hl, hs.wellFormed.left_ne_right l hl⟩
  incident := fun t => (h.incident hs.wellFormed t).trans (Schema.incident_eq hs.wellFormed t)
  incident_iff := by
    intro l t u
    rw [h.incident hs.wellFormed]
    exact Schema.mem_incident
  incident_once := by
    intro t
    rw [h.incident hs.wellFormed]
    exact Schema.nodup_incident hs.wellFormed t
  limits := hs.withinLimits
  conventions := hs.holdsConventions

/-- The store holds the lists of the schema and answers every look-up as the schema does. -/
structure Agrees (x : SchemaStore) (s : Schema) : Prop where
  schema : x.toSchema = s
  tableId : ∀ name, x.tableId name = s.tableId name
  columnInfo : ∀ id, x.columnInfo id = s.columnInfo id
  incident : ∀ t, x.incident t = s.incident t

/-- After any calls, successful or not, the store is consistent, has the limits it was given, and
agrees with the schema that these calls leave of an empty one. The next call gives the answer of the registration, and if this is an
error, the store is what it was. -/
theorem store_consistent (limits : Limits) (calls : List Registration) :
    (afterAll limits calls).Consistent ∧ (afterAll limits calls).limits = limits ∧
    (afterAll limits calls).Agrees (Schema.afterAll limits calls) ∧
    ∀ c, ((afterAll limits calls).register c).1
        = Prod.snd <$> (Schema.afterAll limits calls).register c ∧
      ∀ e, ((afterAll limits calls).register c).1 = .error e →
        ((afterAll limits calls).register c).2 = afterAll limits calls := by
  obtain ⟨hschema, hindexed, hregistered⟩ := indexed_after limits calls
  have hlimits := Schema.limits_afterAll limits calls
  rw [← hschema] at hlimits ⊢
  refine ⟨hindexed.consistent hregistered, hlimits, ⟨rfl, hindexed.tableId, hindexed.columnInfo,
    hindexed.incident hregistered.wellFormed⟩, fun c => ?_⟩
  have hfollows := register_follows hregistered.wellFormed hindexed c
  generalize (afterAll limits calls).toSchema.register c = spec at hfollows ⊢
  cases hfollows with
  | done hanswer _ _ =>
    refine ⟨hanswer, fun e herror => ?_⟩
    cases hanswer.symm.trans herror
  | refused hresult =>
    rw [hresult]
    exact ⟨rfl, fun _ _ => rfl⟩

end SchemaStore

end CatalogQuery
