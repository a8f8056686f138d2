import CatalogQuery.Proofs.Catalog.GrantChecks
import CatalogQuery.Proofs.Catalog.SeedSteps

/-!
# Grants of a seeder

A check of access joins four tables that different steps filled. What it answers is told by the log of
the steps alone: whether a user or group of that name is a member of something that was granted the
level or a higher one.

* `mem_users_added`, `mem_memberships_added`, `mem_grants_added`: the steps that fill the tables;
* `Catalog.Records.route_iff`: the routes of a catalog that records a log;
* `Seeded.records_of_log`: what is seeded is recorded;
* `Seeded.hasAccess_iff_reaches`: what a check answers after a run of steps.
-/

namespace CatalogQuery

/-! ## Tables and the steps that fill them -/

variable {log : List Seeded}

theorem mem_addedBy {α : Type} (rows : Catalog → List α) (hblank : rows {} = [])
    (happend : ∀ c d : Catalog, rows (c ++ d) = rows c ++ rows d) {a : α} :
    a ∈ rows (addedBy log) ↔ ∃ entry ∈ log, a ∈ rows entry.added := by
  induction log with
  | nil => simp [addedBy, hblank]
  | cons entry log ih => simp [addedBy, happend, ih]

namespace Seeded

variable {entry : Seeded}

theorem mem_users_added {u : User} : u ∈ entry.added.users ↔
    entry = ⟨.addUser u.name u.zone u.type, some u.id⟩ ∨
    entry = ⟨.addGroup u.name u.zone, some u.id⟩ ∧ u.type = "rodsgroup" := by
  obtain ⟨id, name, type, zone⟩ := u
  obtain ⟨step, given⟩ := entry
  cases step <;> cases given <;> grind [added]

theorem mem_memberships_added {m : Membership} : m ∈ entry.added.memberships ↔
    (m.group = m.user ∧ ∃ name zone type, entry = ⟨.addUser name zone type, some m.user⟩) ∨
    entry = ⟨.addToGroup m.user m.group, none⟩ := by
  obtain ⟨group, user⟩ := m
  obtain ⟨step, given⟩ := entry
  cases step <;> cases given <;> grind [added]

theorem mem_grants_added {g : Grant} : g ∈ entry.added.grants ↔
    ∃ level, entry = ⟨.grant g.object g.user level, none⟩ ∧ g.token = level.tokenId := by
  obtain ⟨object, user, token⟩ := g
  obtain ⟨step, given⟩ := entry
  cases step <;> cases given <;> grind [added]

/-- A user or a group of that name and zone was given this id. -/
def Named (log : List Seeded) (id : Int) (name zone : String) : Prop :=
  (∃ type, ⟨.addUser name zone type, some id⟩ ∈ log) ∨ ⟨.addGroup name zone, some id⟩ ∈ log

/-- A user is a member of the group that he is himself, and whoever was added to a group is a member
of it. -/
def Member (log : List Seeded) (id group : Int) : Prop :=
  (group = id ∧ ∃ name zone type, ⟨.addUser name zone type, some id⟩ ∈ log) ∨
    ⟨.addToGroup id group, none⟩ ∈ log

/-- Someone of that name and zone is a member of something that was granted the level or a higher one
on the object. -/
def Reaches (log : List Seeded) (object : Int) (name zone : String) (level : AccessLevel) : Prop :=
  ∃ id group given, Named log id name zone ∧ Member log id group ∧
    ⟨.grant object group given, none⟩ ∈ log ∧ level.rank ≤ given.rank

theorem Reaches.lower {object : Int} {name zone : String} {level lower : AccessLevel}
    (h : Reaches log object name zone level) (hle : lower.rank ≤ level.rank) :
    Reaches log object name zone lower := by
  obtain ⟨id, group, given, hnamed, hmember, hgrant, hlevel⟩ := h
  exact ⟨id, group, given, hnamed, hmember, hgrant, Nat.le_trans hle hlevel⟩

end Seeded

/-! ## Routes of a catalog that was filled -/

theorem AccessLevel.token_injective : Function.Injective AccessLevel.token := by
  intro a b h
  cases a <;> cases b <;> first | rfl | exact absurd h (by decide)

/-- The tables of grants say what the log says. -/
structure Catalog.Records (c : Catalog) (log : List Seeded) : Prop where
  users : ∀ {id name zone}, (∃ type, ⟨id, name, type, zone⟩ ∈ c.users) ↔
    Seeded.Named log id name zone
  memberships : ∀ {m}, m ∈ c.memberships ↔ Seeded.Member log m.user m.group
  grants : ∀ {g}, g ∈ c.grants ↔
    ∃ given : AccessLevel, ⟨.grant g.object g.user given, none⟩ ∈ log ∧ g.token = given.tokenId
  tokens : ∀ {t}, t ∈ c.tokens ↔ t ∈ Catalog.levelTokens

namespace Catalog.Records

variable {c : Catalog}

theorem of_grown (h : Grown { tokens := levelTokens } (addedBy log) c) : c.Records log where
  users := by
    intro id name zone
    have hmem : ∀ u, u ∈ c.users ↔ ∃ entry ∈ log, u ∈ entry.added.users := fun u =>
      h.users.mem_iff.trans (mem_addedBy (·.users) rfl fun _ _ => rfl)
    simp only [hmem, Seeded.mem_users_added]
    constructor
    · rintro ⟨type, _, hentry, rfl | ⟨rfl, rfl⟩⟩
      · exact .inl ⟨type, hentry⟩
      · exact .inr hentry
    · rintro (⟨type, hentry⟩ | hentry)
      · exact ⟨type, _, hentry, .inl rfl⟩
      · exact ⟨"rodsgroup", _, hentry, .inr ⟨rfl, rfl⟩⟩
  memberships := by
    intro m
    have hmem : m ∈ c.memberships ↔ ∃ entry ∈ log, m ∈ entry.added.memberships :=
      h.memberships.mem_iff.trans (mem_addedBy (·.memberships) rfl fun _ _ => rfl)
    simp only [hmem, Seeded.mem_memberships_added]
    constructor
    · rintro ⟨_, hentry, ⟨hself, name, zone, type, rfl⟩ | rfl⟩
      · exact .inl ⟨hself, name, zone, type, hentry⟩
      · exact .inr hentry
    · rintro (⟨hself, name, zone, type, hentry⟩ | hentry)
      · exact ⟨_, hentry, .inl ⟨hself, name, zone, type, rfl⟩⟩
      · exact ⟨_, hentry, .inr rfl⟩
  grants := by
    intro g
    have hmem : g ∈ c.grants ↔ ∃ entry ∈ log, g ∈ entry.added.grants :=
      h.grants.mem_iff.trans (mem_addedBy (·.grants) rfl fun _ _ => rfl)
    simp only [hmem, Seeded.mem_grants_added]
    constructor
    · rintro ⟨_, hentry, given, rfl, htoken⟩
      exact ⟨given, hentry, htoken⟩
    · rintro ⟨given, hentry, htoken⟩
      exact ⟨_, hentry, given, rfl, htoken⟩
  tokens := by
    intro t
    have hmem : t ∈ c.tokens ↔ t ∈ levelTokens ∨ ∃ entry ∈ log, t ∈ entry.added.tokens :=
      (h.tokens.mem_iff.trans List.mem_append).trans
        (or_congr_right (mem_addedBy (·.tokens) rfl fun _ _ => rfl))
    simp [hmem, Seeded.tokens_added]

/-- A route leads to an object at a level exactly where the log tells of one. -/
theorem route_iff (h : c.Records log) {object : Int} {name zone : String} {level : AccessLevel} :
    (∃ r : Route, r.In c ∧ r.Leads name zone accessSpace level.token ∧ r.grant.object = object) ↔
      Seeded.Reaches log object name zone level := by
  constructor
  case mp =>
    rintro ⟨r, hin, hleads, rfl⟩
    obtain ⟨l, hl⟩ := mem_levelTokens.mp (h.tokens.mp hin.token)
    obtain ⟨given, hgiven, htoken⟩ := h.grants.mp hin.grant
    have hnamed : Seeded.Named log r.user.id name zone := by
      rw [← hleads.name, ← hleads.zone]
      exact h.users.mp ⟨r.user.type, hin.user⟩
    have hmember : Seeded.Member log r.user.id r.grant.user := by
      rw [hleads.member, ← hleads.granted]
      exact h.memberships.mp hin.membership
    have hlevel : level.rank ≤ given.rank := by
      have hsame : l = level := AccessLevel.token_injective (by rw [← hleads.level, hl])
      have hreached := hleads.reached
      rwa [hl, htoken, hsame, AccessLevel.tokenId_le_iff] at hreached
    exact ⟨r.user.id, r.grant.user, given, hnamed, hmember, hgiven, hlevel⟩
  case mpr =>
    rintro ⟨id, group, given, hnamed, hmember, hgrant, hlevel⟩
    obtain ⟨type, huser⟩ := h.users.mpr hnamed
    refine ⟨⟨⟨id, name, type, zone⟩, ⟨group, id⟩, ⟨object, group, given.tokenId⟩,
      ⟨accessSpace, level.tokenId, level.token⟩⟩,
      ⟨huser, h.memberships.mpr hmember, h.grants.mpr ⟨given, hgrant, rfl⟩,
        h.tokens.mpr (mem_levelTokens.mpr ⟨level, rfl⟩)⟩,
      ⟨rfl, rfl, rfl, rfl, (level.tokenId_le_iff given).mpr hlevel, rfl, rfl⟩, rfl⟩

end Catalog.Records

theorem denotes_toString_iff {m n : Int} (hm : fits64 m = true) :
    Denotes (toString m) n ↔ n = m := by
  constructor
  · exact fun hn => hn.unique (denotes_toString hm)
  · rintro rfl
    exact denotes_toString hm

/-- What a check answers after a run of steps that all succeed, the tables created first and as often
as one likes: whether the log tells of a grant. So access at a level is access at all lower ones. -/
theorem Seeded.hasAccess_iff_reaches {steps : List SeedStep} {s : Seeder}
    (hrun : Seeder.perform (SeedStep.runAll (.create :: steps)) (.start .blank) = (.ok log, s))
    {object : Int} (hobject : fits64 object = true) (name zone : String) (level : AccessLevel) :
    log.map (·.step) = .create :: steps ∧
    ∃ checked, s.database.hasAccess .standard (toString object) name zone level = .ok checked ∧
      (checked = true ↔ Reaches log object name zone level) ∧
      (checked = true → ∀ lower : AccessLevel, lower.rank ≤ level.rank →
        s.database.hasAccess .standard (toString object) name zone lower = .ok true) := by
  obtain ⟨c, hc, hgrown⟩ := SeedStep.catalog_of_log hrun
  have hrecords := Catalog.Records.of_grown hgrown
  have hcheck : ∀ level : AccessLevel, ∃ checked,
      s.database.hasAccess .standard (toString object) name zone level = .ok checked ∧
        (checked = true ↔ Reaches log object name zone level) := by
    intro level
    obtain ⟨checked, hchecked, hroute⟩ := Database.hasAccess_catalog GrantChain.ofCatalog_standard c
      (toString object) name zone level
    simp only [denotes_toString_iff hobject] at hroute
    exact ⟨checked, hc ▸ hchecked, hroute.trans hrecords.route_iff⟩
  obtain ⟨checked, hchecked, hreaches⟩ := hcheck level
  refine ⟨SeedStep.map_step_of_runAll hrun, checked, hchecked, hreaches, fun h lower hle => ?_⟩
  obtain ⟨_, hlower, hiff⟩ := hcheck lower
  rw [hlower, hiff.mpr ((hreaches.mp h).lower hle)]

/-- Alice is in a group that may modify a collection. -/
def SeedStep.crewed : List SeedStep :=
  [.addUser "alice" "north" "rodsuser", .addGroup "crew" "north", .addToGroup 10000 10001,
    .addCollection "/north" "alice" "north", .create, .grant 10002 10001 .modify]

def Seeded.crewed : List Seeded :=
  [⟨.create, none⟩, ⟨.addUser "alice" "north" "rodsuser", some 10000⟩,
    ⟨.addGroup "crew" "north", some 10001⟩, ⟨.addToGroup 10000 10001, none⟩,
    ⟨.addCollection "/north" "alice" "north", some 10002⟩, ⟨.create, none⟩,
    ⟨.grant 10002 10001 .modify, none⟩]

theorem Seeded.crewed_checked : ∃ s : Seeder,
    Seeder.perform (SeedStep.runAll (.create :: SeedStep.crewed)) (.start .blank) = (.ok crewed, s) ∧
    s.database.hasAccess .standard "10002" "alice" "north" .read = .ok true ∧
    s.database.hasAccess .standard "10002" "alice" "north" .own = .ok false := by
  obtain ⟨s, hrun⟩ : ∃ s, Seeder.perform (SeedStep.runAll (.create :: SeedStep.crewed))
      (.start .blank) = (.ok crewed, s) := by
    have hlog : (Seeder.perform (SeedStep.runAll (.create :: SeedStep.crewed))
      (.start .blank)).1 = .ok crewed := by decide +kernel
    exact ⟨_, by rw [← hlog]⟩
  have hfits : fits64 10002 = true := by decide
  have hmember : Member crewed 10000 10001 := .inr (by decide)
  obtain ⟨-, modifies, -, hmodifies, hlower⟩ :=
    hasAccess_iff_reaches hrun hfits "alice" "north" .modify
  have hreaches : modifies = true := hmodifies.mpr
    ⟨10000, 10001, .modify, .inl ⟨"rodsuser", by decide⟩, hmember, by decide, by decide⟩
  obtain ⟨-, owns, hown, howns, -⟩ := hasAccess_iff_reaches hrun hfits "alice" "north" .own
  have hnot : owns = false := by
    refine Bool.eq_false_iff.mpr fun h => ?_
    obtain ⟨id, group, given, -, -, hgrant, hlevel⟩ := howns.mp h
    obtain ⟨-, rfl⟩ : group = 10001 ∧ given = .modify := by simpa [crewed] using hgrant
    exact absurd hlevel (by decide)
  exact ⟨s, hrun, hlower hreaches .read (by decide), hnot ▸ hown⟩

end CatalogQuery
