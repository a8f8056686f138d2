import CatalogQuery.Catalog.Seeder
import CatalogQuery.Proofs.Fallible

/-!
# Steps of a seeder

A run of steps that all succeed leaves a log: what was done, and the id that was given out. A catalog
that was filled holds the rows of its log, and the tokens of the levels, however often its tables were
created.

* `Seeder.perform_bind`, `perform_change`, `perform_changeWithId`: when the parts of a step succeed;
* `Catalog.Grown`: a catalog has more rows than another;
* `SeedStep.grown`: the rows that a step adds;
* `SeedStep.grown_of_runAll`, `SeedStep.catalog_of_log`: the rows of a whole run.
-/

namespace CatalogQuery

/-! ## Steps that succeed -/

namespace Seeder

variable {α β : Type} {s t : Seeder} {c : Catalog} {n : Int} {table : String}

theorem perform_pure {a b : α} :
    perform (pure a : Seeding α) s = (.ok b, t) ↔ a = b ∧ s = t := by
  show (Except.ok a, s) = (.ok b, t) ↔ _
  rw [Prod.mk.injEq, Except.ok.injEq]

theorem perform_bind {x : Seeding α} {f : α → Seeding β} {b : β} :
    perform (x >>= f) s = (.ok b, t) ↔
      ∃ a u, perform x s = (.ok a, u) ∧ perform (f a) u = (.ok b, t) := by
  have hbind : perform (x >>= f) s = match perform x s with
      | (.ok a, u) => perform (f a) u
      | (.error e, u) => (.error e, u) := by
    show (match perform x s with | (a, u) => ExceptT.bindCont f a u) = _
    rcases perform x s with ⟨_ | _, u⟩ <;> rfl
  rw [hbind]
  rcases perform x s with ⟨e | a, u⟩ <;> simp

theorem perform_map {x : Seeding α} {f : α → β} {b : β} :
    perform (f <$> x) s = (.ok b, t) ↔ ∃ a, perform x s = (.ok a, t) ∧ f a = b := by
  rw [map_eq_pure_bind, perform_bind]
  simp only [perform_pure]
  constructor
  · rintro ⟨a, u, hx, hb, rfl⟩
    exact ⟨a, hx, hb⟩
  · rintro ⟨a, hx, hb⟩
    exact ⟨a, t, hx, hb, rfl⟩

theorem perform_replace {f : Database → Except BackendFailure Database} {u : Unit} :
    perform (replace f) s = (.ok u, t) ↔ ∃ d, f s.database = .ok d ∧ t = { s with database := d } := by
  have hreplace : perform (replace f) s = match f s.database with
      | .ok d => (.ok (), { s with database := d })
      | .error e => (.error e, s) := by
    show perform (liftM (f s.database) >>= fun d => _) s = _
    cases f s.database <;> rfl
  rw [hreplace]
  cases f s.database <;> simp [eq_comm]

/-- A change of a catalog succeeds if the catalog takes it. -/
theorem perform_change {f : Catalog → Except Repeated Catalog} {u : Unit} :
    perform (change table f) ⟨.catalog c, n⟩ = (.ok u, t) ↔
      ∃ c', f c = .ok c' ∧ t = ⟨.catalog c', n⟩ := by
  rw [change, perform_replace, changed]
  cases f c <;> simp

theorem perform_allocate : perform allocate s = (.ok s.nextId, { s with nextId := s.nextId + 1 }) :=
  rfl

/-- The id is used up, whatever becomes of the row. -/
theorem perform_changeWithId {f : Int → Catalog → Except Repeated Catalog} {id : Int} :
    perform (changeWithId table f) ⟨.catalog c, n⟩ = (.ok id, t) ↔
      n = id ∧ ∃ c', f n c = .ok c' ∧ t = ⟨.catalog c', n + 1⟩ := by
  rw [changeWithId, perform_bind]
  simp only [perform_allocate, perform_bind, perform_pure, Prod.mk.injEq, Except.ok.injEq]
  constructor
  · rintro ⟨_, _, ⟨rfl, rfl⟩, _, _, hchange, rfl, rfl⟩
    exact ⟨rfl, perform_change.mp hchange⟩
  · rintro ⟨rfl, hc⟩
    exact ⟨_, _, ⟨rfl, rfl⟩, (), _, perform_change.mpr hc, rfl, rfl⟩

/-- A row with an id, and then one that refers to it. -/
theorem perform_changeWithId_change {table' : String} {f g : Int → Catalog → Except Repeated Catalog}
    {id : Int} (h : perform (do
        let id ← changeWithId table f
        change table' (g id)
        return id) ⟨.catalog c, n⟩ = (.ok id, t)) :
    n = id ∧ ∃ c₁ c₂, f n c = .ok c₁ ∧ g n c₁ = .ok c₂ ∧ t = ⟨.catalog c₂, n + 1⟩ := by
  obtain ⟨_, _, hrow, h⟩ := perform_bind.mp h
  obtain ⟨rfl, c₁, hc₁, rfl⟩ := perform_changeWithId.mp hrow
  obtain ⟨_, _, hchange, hanswer⟩ := perform_bind.mp h
  obtain ⟨rfl, rfl⟩ := perform_pure.mp hanswer
  obtain ⟨c₂, hc₂, rfl⟩ := perform_change.mp hchange
  exact ⟨rfl, c₁, c₂, hc₁, hc₂, rfl⟩

end Seeder

/-! ## Catalogs that grow -/

namespace Catalog

variable {c c' c'' added more : Catalog}

theorem insertById_perm {α : Type} (id : α → Int) (a : α) (l : List α) :
    (insertById id a l).Perm (l ++ [a]) := by
  induction l with
  | nil => exact .refl _
  | cons b l ih =>
    unfold insertById
    split
    · exact (List.perm_append_singleton a (b :: l)).symm
    · exact ih.cons b

theorem eq_of_checkNew {α β : Type} [DecidableEq β] {rows : List α} {f : α → β} {value : β}
    {table column : String} {x : Unit → Except Repeated Catalog}
    (h : (checkNew rows f value table column >>= x) = .ok c) : x () = .ok c := by
  obtain ⟨u, -, hx⟩ := Fallible.bind_eq_ok.mp h
  exact hx

/-- The tokens of all levels. -/
def levelTokens : List TokenRow := AccessLevel.all.map fun l => ⟨accessSpace, l.tokenId, l.token⟩

theorem mem_levelTokens {t : TokenRow} :
    t ∈ levelTokens ↔ ∃ l : AccessLevel, t = ⟨accessSpace, l.tokenId, l.token⟩ := by
  simp only [levelTokens, List.mem_map, eq_comm (a := t)]
  exact ⟨fun ⟨l, _, h⟩ => ⟨l, h⟩, fun ⟨l, h⟩ => ⟨l, by cases l <;> decide, h⟩⟩

theorem addToken_eq {l : AccessLevel} (h : ⟨accessSpace, l.tokenId, l.token⟩ ∈ c.tokens) :
    c.addToken l = c :=
  if_pos (List.any_eq_true.mpr ⟨_, h, by simp⟩)

/-- Creating the tables again changes nothing. -/
theorem withTokens_eq (h : c.tokens.Perm levelTokens) : c.withTokens = c := by
  have hadd : ∀ l, c.addToken l = c :=
    fun l => addToken_eq (h.mem_iff.mpr (mem_levelTokens.mpr ⟨l, rfl⟩))
  simp only [withTokens, AccessLevel.all, List.foldl_cons, List.foldl_nil, hadd]

/-- The rows of both. -/
instance : Append Catalog where
  append c d :=
    { zones := c.zones ++ d.zones
      users := c.users ++ d.users
      memberships := c.memberships ++ d.memberships
      resources := c.resources ++ d.resources
      collections := c.collections ++ d.collections
      replicas := c.replicas ++ d.replicas
      attributeRows := c.attributeRows ++ d.attributeRows
      attributeLinks := c.attributeLinks ++ d.attributeLinks
      grants := c.grants ++ d.grants
      tokens := c.tokens ++ d.tokens
      audit := c.audit ++ d.audit }

/-- A catalog that has its own rows and others, in whatever order. -/
structure Grown (c added c' : Catalog) : Prop where
  zones : c'.zones.Perm (c.zones ++ added.zones)
  users : c'.users.Perm (c.users ++ added.users)
  memberships : c'.memberships.Perm (c.memberships ++ added.memberships)
  resources : c'.resources.Perm (c.resources ++ added.resources)
  collections : c'.collections.Perm (c.collections ++ added.collections)
  replicas : c'.replicas.Perm (c.replicas ++ added.replicas)
  attributeRows : c'.attributeRows.Perm (c.attributeRows ++ added.attributeRows)
  attributeLinks : c'.attributeLinks.Perm (c.attributeLinks ++ added.attributeLinks)
  grants : c'.grants.Perm (c.grants ++ added.grants)
  tokens : c'.tokens.Perm (c.tokens ++ added.tokens)
  audit : c'.audit.Perm (c.audit ++ added.audit)

theorem Grown.refl (c : Catalog) : c.Grown {} c := by
  constructor <;> simp

theorem Grown.trans (h : c.Grown added c') (k : c'.Grown more c'') :
    c.Grown (added ++ more) c'' := by
  have hjoin : ∀ {α : Type} {l l' l'' m m' : List α}, l'.Perm (l ++ m) → l''.Perm (l' ++ m') →
      l''.Perm (l ++ (m ++ m')) := by
    intro α l l' l'' m m' hl hl'
    rw [← List.append_assoc]
    exact hl'.trans (hl.append_right m')
  exact ⟨hjoin h.zones k.zones, hjoin h.users k.users, hjoin h.memberships k.memberships,
    hjoin h.resources k.resources, hjoin h.collections k.collections, hjoin h.replicas k.replicas,
    hjoin h.attributeRows k.attributeRows, hjoin h.attributeLinks k.attributeLinks,
    hjoin h.grants k.grants, hjoin h.tokens k.tokens, hjoin h.audit k.audit⟩

theorem grown_addZone {z : Zone} (h : c.addZone z = .ok c') : c.Grown { zones := [z] } c' := by
  cases eq_of_checkNew (eq_of_checkNew h)
  constructor <;> simp [insertById_perm]

theorem grown_addUser {u : User} (h : c.addUser u = .ok c') : c.Grown { users := [u] } c' := by
  cases eq_of_checkNew h
  constructor <;> simp [insertById_perm]

theorem grown_addMembership (c : Catalog) (m : Membership) :
    c.Grown { memberships := [m] } (c.addMembership m) := by
  constructor <;> simp [addMembership]

theorem grown_addResource {r : Resource} (h : c.addResource r = .ok c') :
    c.Grown { resources := [r] } c' := by
  cases eq_of_checkNew (eq_of_checkNew h)
  constructor <;> simp [insertById_perm]

theorem grown_addCollection {x : Collection} (h : c.addCollection x = .ok c') :
    c.Grown { collections := [x] } c' := by
  cases eq_of_checkNew (eq_of_checkNew h)
  constructor <;> simp [insertById_perm]

theorem grown_addReplica (c : Catalog) (d : Replica) :
    c.Grown { replicas := [d] } (c.addReplica d) := by
  constructor <;> simp [addReplica]

theorem grown_addAttributeRow {a : AttributeRow} (h : c.addAttributeRow a = .ok c') :
    c.Grown { attributeRows := [a] } c' := by
  cases eq_of_checkNew h
  constructor <;> simp [insertById_perm]

theorem grown_addAttributeLink (c : Catalog) (l : AttributeLink) :
    c.Grown { attributeLinks := [l] } (c.addAttributeLink l) := by
  constructor <;> simp [addAttributeLink]

theorem grown_addGrant (c : Catalog) (g : Grant) : c.Grown { grants := [g] } (c.addGrant g) := by
  constructor <;> simp [addGrant]

theorem grown_addAudit (c : Catalog) (a : AuditEntry) : c.Grown { audit := [a] } (c.addAudit a) := by
  constructor <;> simp [addAudit]

end Catalog

/-! ## Logs -/

/-- What a seeder is asked for. -/
inductive SeedStep where
  | create
  | addZone (name : String)
  | addUser (name zone type : String)
  | addGroup (name zone : String)
  | addToGroup (user group : Int)
  | addResource (name zone location : String)
  | addCollection (path owner zone : String)
  | addObject (spec : Seeder.ReplicaSpec)
  | addReplica (object : Int) (spec : Seeder.ReplicaSpec) (number : Int)
  | addMetadata (object : Int) (name value unit : String)
  | grant (object user : Int) (level : AccessLevel)
  | audit (object user action : Int) (comment : String)
  deriving DecidableEq, Repr

/-- What was done, with the id that was given out for it. -/
structure Seeded where
  step : SeedStep
  id : Option Int
  deriving DecidableEq, Repr

/-- Does a step. -/
def SeedStep.run : SeedStep → Seeding (Option Int)
  | create => (fun _ => none) <$> Seeder.create
  | addZone name => some <$> Seeder.zone name
  | addUser name zone type => some <$> Seeder.user name zone type
  | addGroup name zone => some <$> Seeder.group name zone
  | addToGroup user group => (fun _ => none) <$> Seeder.addToGroup user group
  | addResource name zone location => some <$> Seeder.resource name zone location
  | addCollection path owner zone => some <$> Seeder.collection path owner zone
  | addObject spec => some <$> Seeder.dataObject spec
  | addReplica object spec number => (fun _ => none) <$> Seeder.replica object spec number
  | addMetadata object name value unit => some <$> Seeder.metadata object name value unit
  | grant object user level => (fun _ => none) <$> Seeder.grant object user level
  | audit object user action comment => (fun _ => none) <$> Seeder.audit object user action comment

/-- Does all steps, if none fails. -/
def SeedStep.runAll : List SeedStep → Seeding (List Seeded)
  | [] => return []
  | step :: steps => do
    let id ← step.run
    let log ← runAll steps
    return ⟨step, id⟩ :: log

/-- The rows that were added. -/
def Seeded.added : Seeded → Catalog
  | ⟨.addZone name, some id⟩ => { zones := [⟨id, name⟩] }
  | ⟨.addUser name zone type, some id⟩ =>
    { users := [⟨id, name, type, zone⟩], memberships := [⟨id, id⟩] }
  | ⟨.addGroup name zone, some id⟩ => { users := [⟨id, name, "rodsgroup", zone⟩] }
  | ⟨.addToGroup user group, none⟩ => { memberships := [⟨group, user⟩] }
  | ⟨.addResource name zone location, some id⟩ =>
    { resources := [⟨id, name, zone, "unixfilesystem", location⟩] }
  | ⟨.addCollection path owner zone, some id⟩ =>
    { collections := [⟨id, path, Seeder.parentPath path, owner, zone⟩] }
  | ⟨.addObject spec, some id⟩ => { replicas := [spec.row id 0] }
  | ⟨.addReplica object spec number, none⟩ => { replicas := [spec.row object number] }
  | ⟨.addMetadata object name value unit, some id⟩ =>
    { attributeRows := [⟨id, name, value, unit⟩], attributeLinks := [⟨object, id⟩] }
  | ⟨.grant object user level, none⟩ => { grants := [⟨object, user, level.tokenId⟩] }
  | ⟨.audit object user action comment, none⟩ =>
    { audit := [⟨object, user, action, comment, Seeder.timestamp⟩] }
  | _ => {}

/-- All rows of a log. -/
def addedBy : List Seeded → Catalog
  | [] => {}
  | entry :: log => entry.added ++ addedBy log

theorem Seeded.tokens_added (entry : Seeded) : entry.added.tokens = [] := by
  unfold added
  split <;> rfl

namespace SeedStep

open Seeder Catalog

variable {c c' : Catalog} {n : Int} {t : Seeder} {step : SeedStep} {steps : List SeedStep}
  {id : Option Int} {log : List Seeded} {table : String}

theorem grown_of_change {f : Catalog → Catalog}
    (h : perform ((fun _ => none) <$> change table fun c => .ok (f c)) ⟨.catalog c, n⟩ = (.ok id, t))
    (hf : c.Grown (Seeded.added ⟨step, none⟩) (f c)) :
    ∃ c' n', t = ⟨.catalog c', n'⟩ ∧ c.Grown (Seeded.added ⟨step, id⟩) c' := by
  obtain ⟨_, hchange, rfl⟩ := perform_map.mp h
  obtain ⟨_, ⟨⟩, rfl⟩ := perform_change.mp hchange
  exact ⟨f c, n, rfl, hf⟩

theorem grown_of_changeWithId {f : Int → Catalog → Except Repeated Catalog}
    (h : perform (some <$> changeWithId table f) ⟨.catalog c, n⟩ = (.ok id, t))
    (hf : ∀ c', f n c = .ok c' → c.Grown (Seeded.added ⟨step, some n⟩) c') :
    ∃ c' n', t = ⟨.catalog c', n'⟩ ∧ c.Grown (Seeded.added ⟨step, id⟩) c' := by
  obtain ⟨_, hchange, rfl⟩ := perform_map.mp h
  obtain ⟨rfl, c', hc', rfl⟩ := perform_changeWithId.mp hchange
  exact ⟨c', _, rfl, hf c' hc'⟩

/-- A step that succeeds adds its rows, and no others. -/
theorem grown (hc : c.tokens.Perm levelTokens)
    (h : perform step.run ⟨.catalog c, n⟩ = (.ok id, t)) :
    ∃ c' n', t = ⟨.catalog c', n'⟩ ∧ c.Grown (Seeded.added ⟨step, id⟩) c' := by
  cases step with
  | create =>
    obtain ⟨_, hcreate, rfl⟩ := perform_map.mp h
    obtain ⟨_, hd, rfl⟩ := perform_replace.mp hcreate
    cases hd
    rw [withTokens_eq hc]
    exact ⟨c, n, rfl, .refl c⟩
  | addZone name => exact grown_of_changeWithId h fun _ => grown_addZone
  | addUser name zone type =>
    obtain ⟨_, huser, rfl⟩ := perform_map.mp h
    obtain ⟨rfl, c₁, _, hadd, ⟨⟩, rfl⟩ := perform_changeWithId_change huser
    exact ⟨_, _, rfl, (grown_addUser hadd).trans (grown_addMembership c₁ _)⟩
  | addGroup name zone => exact grown_of_changeWithId h fun _ => grown_addUser
  | addToGroup user group => exact grown_of_change h (grown_addMembership c _)
  | addResource name zone location => exact grown_of_changeWithId h fun _ => grown_addResource
  | addCollection path owner zone => exact grown_of_changeWithId h fun _ => grown_addCollection
  | addObject spec =>
    refine grown_of_changeWithId h ?_
    rintro _ ⟨⟩
    exact grown_addReplica c _
  | addReplica object spec number => exact grown_of_change h (grown_addReplica c _)
  | addMetadata object name value unit =>
    obtain ⟨_, hmetadata, rfl⟩ := perform_map.mp h
    obtain ⟨rfl, c₁, _, hadd, ⟨⟩, rfl⟩ := perform_changeWithId_change hmetadata
    exact ⟨_, _, rfl, (grown_addAttributeRow hadd).trans (grown_addAttributeLink c₁ _)⟩
  | grant object user level => exact grown_of_change h (grown_addGrant c _)
  | audit object user action comment => exact grown_of_change h (grown_addAudit c _)

/-- The log has all steps, in their order. -/
theorem map_step_of_runAll {s : Seeder} (h : perform (runAll steps) s = (.ok log, t)) :
    log.map (·.step) = steps := by
  induction steps generalizing s log with
  | nil =>
    obtain ⟨rfl, -⟩ := perform_pure.mp h
    rfl
  | cons step steps ih =>
    obtain ⟨id, _, -, hlog⟩ := perform_bind.mp h
    obtain ⟨log, _, hrest, hdone⟩ := perform_bind.mp hlog
    obtain ⟨rfl, rfl⟩ := perform_pure.mp hdone
    exact congrArg (step :: ·) (ih hrest)

/-- A run whose steps all succeed adds the rows of its log. -/
theorem grown_of_runAll (hc : c.tokens.Perm levelTokens)
    (h : perform (runAll steps) ⟨.catalog c, n⟩ = (.ok log, t)) :
    ∃ c' n', t = ⟨.catalog c', n'⟩ ∧ c.Grown (addedBy log) c' := by
  induction steps generalizing c n log with
  | nil =>
    obtain ⟨rfl, rfl⟩ := perform_pure.mp h
    exact ⟨c, n, rfl, .refl c⟩
  | cons step steps ih =>
    obtain ⟨id, _, hstep, hlog⟩ := perform_bind.mp h
    obtain ⟨c₁, n₁, rfl, hgrown⟩ := grown hc hstep
    obtain ⟨log, _, hrest, hdone⟩ := perform_bind.mp hlog
    obtain ⟨rfl, rfl⟩ := perform_pure.mp hdone
    have hc₁ : c₁.tokens.Perm levelTokens := by
      have htokens := hgrown.tokens
      rw [Seeded.tokens_added, List.append_nil] at htokens
      exact htokens.trans hc
    obtain ⟨c', n', rfl, hmore⟩ := ih hc₁ hrest
    exact ⟨c', n', rfl, hgrown.trans hmore⟩

/-- What a blank database holds that was created and filled: the tokens of the levels, and the rows of
the log. Creating the tables again, before or between the other steps, adds nothing. -/
theorem catalog_of_log (h : perform (runAll (.create :: steps)) (start .blank) = (.ok log, t)) :
    ∃ c, t.database = .catalog c ∧ Grown { tokens := levelTokens } (addedBy log) c := by
  obtain ⟨id, _, hstep, hlog⟩ := perform_bind.mp h
  obtain ⟨_, hcreate, rfl⟩ := perform_map.mp hstep
  obtain ⟨_, ⟨⟩, rfl⟩ := perform_replace.mp hcreate
  obtain ⟨log, _, hrest, hdone⟩ := perform_bind.mp hlog
  obtain ⟨rfl, rfl⟩ := perform_pure.mp hdone
  obtain ⟨c, n, rfl, hgrown⟩ := grown_of_runAll (.refl _) hrest
  exact ⟨c, rfl, hgrown⟩

end SeedStep

end CatalogQuery
