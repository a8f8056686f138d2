import CatalogQuery.Proofs.Compile.StatementTexts
import CatalogQuery.Session.Engine

/-!
# Row filters follow the policy

Once a strict policy was asked for, every caller but a local administrator is filtered; before that
only the anonymous user is. A filtered request has one filter for each protected table from which it
selects, behind all other terms, and is in all else the statement of a caller who sees everything.

* `Engine.strict_configured`: the policy after any changes of it;
* `GrantChain.grants`: what a filter says of the ids of a table;
* `Schema.rowFilters_eq`: which tables are filtered;
* `Draft.clauses_eq_narrowed`: filters come behind the other terms and change nothing else;
* `Schema.compile_eq_narrowed`: what a request is compiled to, filtered or not;
* `Engine.filters_follow_policy`: the same after any changes of the policy.
-/

namespace CatalogQuery

open Sql Fallible

/-! ## Changes of the policy -/

/-- What can change the policy of an engine: settings taken over, or a policy asked for. -/
inductive PolicyChange where
  | settings (access : AccessSettings)
  | policy (strict : Bool)
  deriving DecidableEq, Repr

/-- The change asks for a strict policy. -/
def PolicyChange.strict : PolicyChange → Bool
  | settings access => access.strict
  | policy strict => strict

namespace Engine

def change (e : Engine) : PolicyChange → Engine
  | .settings access => e.withAccess access
  | .policy strict => (e.setPolicy strict).2

/-- The engine after some changes, one behind the other. -/
def configured (e : Engine) (changes : List PolicyChange) : Engine := changes.foldl change e

theorem strict_change (e : Engine) (change : PolicyChange) :
    (e.change change).policy.strict = (e.policy.strict || change.strict) := by
  cases change <;> rfl

theorem schema_change (e : Engine) (change : PolicyChange) :
    (e.change change).schema = e.schema ∧ (e.change change).dialect = e.dialect := by
  cases change <;> exact ⟨rfl, rfl⟩

/-- A policy is strict if it was so before or was ever asked to be. -/
theorem strict_configured (e : Engine) (changes : List PolicyChange) :
    (e.configured changes).policy.strict = (e.policy.strict || changes.any (·.strict)) := by
  induction changes generalizing e with
  | nil => simp [configured]
  | cons c changes ih =>
    rw [configured, List.foldl_cons, ← configured, ih, strict_change, List.any_cons, Bool.or_assoc]

theorem schema_configured (e : Engine) (changes : List PolicyChange) :
    (e.configured changes).schema = e.schema ∧ (e.configured changes).dialect = e.dialect := by
  induction changes generalizing e with
  | nil => exact ⟨rfl, rfl⟩
  | cons c changes ih =>
    obtain ⟨hschema, hdialect⟩ := ih (e.change c)
    obtain ⟨hschema', hdialect'⟩ := e.schema_change c
    exact ⟨hschema.trans hschema', hdialect.trans hdialect'⟩

end Engine

/-! ## Filtered tables -/

namespace GrantChain

variable (g : GrantChain) (column : String)

/-- The tables that lead from the rights on an object to a caller. -/
def sources : List String :=
  [g.accessTable ++ " OA", g.groupTable ++ " UG", g.userTable ++ " UM", g.tokenTable ++ " TM"]

/-- What has to hold of their rows. -/
def conditions : List String :=
  ["UM.user_name=?", "UM.zone_name=?", "UM.user_type_name!='" ++ g.groupTypeName ++ "'",
    "UM.user_id = UG.user_id", "UG.group_user_id = OA.user_id", "OA.object_id = " ++ column,
    "OA.access_type_id >= TM.token_id", "TM.token_namespace ='" ++ g.tokenNamespace ++ "'",
    "TM.token_name = '" ++ g.readToken ++ "'"]

/-- The rows with an id in `column` for which a grant reaches the caller. -/
def grants : String :=
  column ++ " in (select object_id from " ++ ", ".intercalate g.sources ++ " where "
    ++ " and ".intercalate (g.conditions column) ++ ")"

theorem admits_eq_grants : g.admits column = g.grants column := by
  -- A text between two names ends one entry and begins another.
  have hcaller : " TM where UM.user_name=? and UM.zone_name=? and UM.user_type_name!='"
      = " TM" ++ (" where " ++ ("UM.user_name=?" ++ (" and " ++ ("UM.zone_name=?" ++ (" and "
        ++ "UM.user_type_name!='"))))) := rfl
  have hobjects :
      "' and UM.user_id = UG.user_id and UG.group_user_id = OA.user_id and OA.object_id = "
      = "'" ++ (" and " ++ ("UM.user_id = UG.user_id" ++ (" and "
        ++ ("UG.group_user_id = OA.user_id" ++ (" and " ++ "OA.object_id = "))))) := rfl
  have hrights : " and OA.access_type_id >= TM.token_id and TM.token_namespace ='"
      = " and " ++ ("OA.access_type_id >= TM.token_id" ++ (" and " ++ "TM.token_namespace ='")) :=
    rfl
  have htoken : "' and TM.token_name = '" = "'" ++ (" and " ++ "TM.token_name = '") := rfl
  have hends : " OA, " = " OA" ++ ", " ∧ " UG, " = " UG" ++ ", " ∧ " UM, " = " UM" ++ ", " ∧
      "')" = "'" ++ ")" := ⟨rfl, rfl, rfl, rfl⟩
  unfold admits grants sources conditions
  rw [hcaller, hobjects, hrights, htoken, hends.1, hends.2.1, hends.2.2.1, hends.2.2.2]
  simp only [String.intercalate_cons_cons, String.intercalate_singleton, String.append_assoc]

end GrantChain

/-- A column of the table is selected, plain or aggregated. -/
def Request.selectsFrom (r : Request) (s : Schema) (table : String) : Bool :=
  r.select.any fun c => (s.columnInfo? c.column).any (·.table.name == table)

/-- One filter for each protected table from which the request selects, on the ids of its rows. -/
def Request.grantFilters (r : Request) (s : Schema) (caller : Caller) : List Fragment :=
  (s.conventions.protectedTables.filter fun p => r.selectsFrom s p.table).map fun p =>
    ⟨s.conventions.grantChain.grants (p.table ++ "." ++ p.idColumn), [caller.user, caller.zone]⟩

variable {s : Schema} {caller caller' : Caller} {options : CompileOptions} {dialect : Dialect}
  {d : Draft} {r : Request} {c : Compiled}

/-- A table owns a selected column of the draft iff the request selects from it. -/
theorem any_selected_iff (hs : s.WellFormed) (h : s.draft caller r = .ok d) (table : String) :
    (s.tableId? table).any (d.selects.map fun c => c.2.tableId).contains
      = r.selectsFrom s table := by
  have hcolumn : ∀ select selected, Draft.Selects s caller select selected →
      (s.tableId? table = some selected.2.tableId ↔
        (s.columnInfo? select.column).any (·.table.name == table) = true) := by
    rintro select ⟨_, info⟩ ⟨-, hopen⟩
    have hinfo := Schema.openColumn_eq_ok hopen
    rw [Schema.tableId?_eq_some hs (Schema.columnInfo?_eq_some hinfo).2.1, hinfo]
    simp
  have hany : (∃ c ∈ d.selects, s.tableId? table = some c.2.tableId) ↔
      r.selectsFrom s table = true := by
    have hselects := Draft.selects_of_draft h
    rw [Request.selectsFrom, List.any_eq_true]
    generalize r.select = asked, d.selects = selected at hselects
    induction hselects with
    | nil => simp
    | cons hselect _ ih => simp [hcolumn _ _ hselect, ih]
  rw [Bool.eq_iff_iff, ← hany, Option.any_eq_true]
  simp only [List.contains_iff_mem, List.mem_map]
  constructor
  · rintro ⟨t, ht, c, hc, rfl⟩
    exact ⟨c, hc, ht⟩
  · rintro ⟨c, hc, ht⟩
    exact ⟨_, ht, c, hc, rfl⟩

/-- A caller who is filtered gets the filters of the request, any other none. -/
theorem Schema.rowFilters_eq (hs : s.WellFormed) (h : s.draft caller r = .ok d)
    (caller' : Caller) (strict : Bool) (anonymousUser : String) :
    s.rowFilters (d.selects.map fun c => c.2.tableId) caller' strict anonymousUser
      = if caller'.isFiltered strict anonymousUser then r.grantFilters s caller' else [] := by
  unfold rowFilters Request.grantFilters ProtectedTable.filter
  simp only [any_selected_iff hs h, GrantChain.admits_eq_grants]

/-! ## Narrowed clauses -/

/-- The clauses of a draft without any filters: conditions, joins and instances of attributes are
its terms. -/
def Draft.openClauses (d : Draft) (s : Schema) (dialect : Dialect) (links : List LinkId) :
    Clauses :=
  let ps := d.placed s
  let instances := instancesOf ps
  { select := d.selects.map fun c => c.1.text c.2
    sources := addSources s (d.requirements s).tables links instances.sources
    terms := ps.map (·.term dialect) ++ joinTerms s links ++ instances.joins
    groupBy := groupBy d.selects
    orderBy := orderBy s d.selects }

theorem Draft.clauses_eq_narrowed (d : Draft) (s : Schema) (dialect : Dialect) (caller : Caller)
    (options : CompileOptions) (links : List LinkId) :
    d.clauses s dialect caller options links = (d.openClauses s dialect links).narrowed
      (s.rowFilters (d.selects.map fun c => c.2.tableId) caller options.strict
        options.anonymousUser) := rfl

/-! ## Requests of filtered callers -/

/-- Whatever is open to a caller is open to an administrator. -/
theorem openColumn_administrator {column : ColumnId} {info : ColumnInfo}
    (h : s.openColumn caller column = .ok info) (hadmin : caller'.privilege.isLocalAdmin = true) :
    s.openColumn caller' column = .ok info := by
  have hinfo := Schema.openColumn_eq_ok h
  simp [Schema.openColumn, Schema.columnInfo, hadmin, hinfo]

/-- What a caller may ask for an administrator may ask for. -/
theorem draft_administrator (h : s.draft caller r = .ok d)
    (hadmin : caller'.privilege.isLocalAdmin = true) : s.draft caller' r = .ok d := by
  obtain ⟨selects, conditions, hselects, hconditions, hplaces, rfl⟩ := Schema.draft_eq_ok.mp h
  refine Schema.draft_eq_ok.mpr ⟨selects, conditions, ?_, ?_, hplaces, rfl⟩
  · exact hselects.imp fun _ _ hselect =>
      ⟨hselect.1, openColumn_administrator hselect.2 hadmin⟩
  · exact hconditions.imp fun _ _ hread =>
      ⟨openColumn_administrator hread.1 hadmin, hread.2⟩

/-- A request that compiles does so to its clauses, narrowed by its filters where the caller is
filtered. -/
theorem Schema.compile_eq_narrowed (hs : s.Registered)
    (h : s.compile dialect caller options r = .ok c) :
    ∃ d links, s.draft caller r = .ok d ∧ (s.resolve (d.requirements s)).1 = .ok links ∧
      ∀ caller' options', s.draft caller' r = .ok d →
        s.compile dialect caller' options' r = .ok (((d.openClauses s dialect links).narrowed
          (if caller'.isFiltered options'.strict options'.anonymousUser
            then r.grantFilters s caller' else [])).compiled
          (dialect.offsetSuffix r.offset) (d.selects.map (·.1))) := by
  obtain ⟨d, hd, hselects, links, hlinks, -⟩ := compile_eq_ok.mp h
  refine ⟨d, links, hd, hlinks, fun caller' options' hd' => ?_⟩
  refine compile_eq_ok.mpr ⟨d, hd', hselects, links, hlinks, ?_, hs.found d caller' options'⟩
  rw [← rowFilters_eq hs.wellFormed hd, ← d.clauses_eq_narrowed s dialect caller' options' links]
  rfl

/-! ## Histories of the policy -/

/-- What a request is compiled to after any changes of the policy. A local administrator gets its
open clauses; so does every other caller whose name is not that of the anonymous user as long as no
change asked for a strict policy. Any other caller gets the same clauses narrowed by one filter for
each protected table from which the request selects: both statements have it behind their other terms,
with the name and the zone of the caller as its values, and are the same in all else. -/
theorem Engine.filters_follow_policy {e : Engine} {changes : List PolicyChange}
    (hs : s.Registered) (he : Engine.create s dialect = .ok e)
    (h : (e.configured changes).compile caller r = .ok c) :
    ∃ d links k suffix, s.draft caller r = .ok d ∧
      (s.resolve (d.requirements s)).1 = .ok links ∧ k = d.openClauses s dialect links ∧
      suffix = dialect.offsetSuffix r.offset ∧
      (∀ admin others, admin.privilege.isLocalAdmin = true →
        (e.configured others).compile admin r = .ok (k.compiled suffix r.select)) ∧
      (caller.privilege.isLocalAdmin = false →
        (∃ change ∈ changes, change.strict = true) ∨
          caller.user = (e.configured changes).access.anonymousUser →
        c = (k.narrowed (r.grantFilters s caller)).compiled suffix r.select ∧
        c.Writes k (k.terms.map (·.render) ++ r.grantFilters s caller) (suffix.getD .blank)) ∧
      (caller.privilege.isLocalAdmin = true ∨
        (∀ change ∈ changes, change.strict = false) ∧
          caller.user ≠ (e.configured changes).access.anonymousUser →
        c = k.compiled suffix r.select ∧
        c.Writes k (k.terms.map (·.render)) (suffix.getD .blank)) := by
  have hengine : e = { schema := s, dialect := dialect } := by
    obtain ⟨_, -, he⟩ := bind_eq_ok.mp he
    exact (Except.ok.inj he).symm
  have hcompile : ∀ changes caller, (e.configured changes).compile caller r
      = s.compile dialect caller ⟨changes.any (·.strict),
          (e.configured changes).access.anonymousUser⟩ r := by
    intro changes caller
    obtain ⟨hschema, hdialect⟩ := e.schema_configured changes
    rw [Engine.compile, hschema, hdialect, e.strict_configured, hengine, Bool.false_or]
  rw [hcompile] at h
  obtain ⟨d, links, hd, hlinks, hall⟩ := Schema.compile_eq_narrowed hs h
  rw [Draft.map_selects_of_draft hd] at hall
  have hc := Except.ok.inj (h.symm.trans (hall caller _ hd))
  refine ⟨d, links, _, _, hd, hlinks, rfl, rfl, fun admin others hadmin => ?_,
    fun hadmin hfilter => ?_, fun hopen => ?_⟩
  · rw [hcompile, hall admin _ (draft_administrator hd hadmin)]
    simp [Caller.isFiltered, hadmin]
  · have hfiltered : caller.isFiltered (changes.any (·.strict))
        (e.configured changes).access.anonymousUser = true := by
      simpa [Caller.isFiltered, hadmin] using hfilter
    rw [if_pos hfiltered] at hc
    exact ⟨hc, hc ▸ Sql.Clauses.writes_narrowed ..⟩
  · have hfiltered : caller.isFiltered (changes.any (·.strict))
        (e.configured changes).access.anonymousUser = false := by
      rcases hopen with hadmin | ⟨hstrict, huser⟩
      · simp [Caller.isFiltered, hadmin]
      · simp [Caller.isFiltered, huser]
        exact fun _ => hstrict
    rw [hfiltered, if_neg Bool.false_ne_true, Sql.Clauses.narrowed_nil] at hc
    exact ⟨hc, hc ▸ Sql.Clauses.writes ..⟩

/-- The roundabout where three tables are protected. -/
def Schema.guarded : Schema :=
  { Schema.roundabout with
    conventions :=
      { Conventions.blank with
        protectedTables := [⟨"data", "id"⟩, ⟨"coll", "id"⟩, ⟨"meta", "id"⟩] } }

/-- How many names there are for each label. -/
def Request.namesPerLabel : Request :=
  { select := [⟨⟨1⟩, .count, .none⟩, ⟨⟨2⟩, .none, .desc⟩], conditions := [⟨⟨1⟩, "like 'a%'"⟩]
    offset := 3 }

/-- A grant to read that reaches a caller, by the usual names of its tables. -/
def GrantChain.usualGrants (column : String) : String :=
  column ++ " in (select object_id from r_objt_access OA, r_user_group UG, r_user_main UM, "
    ++ "r_tokn_main TM where UM.user_name=? and UM.zone_name=? and UM.user_type_name!='rodsgroup' "
    ++ "and UM.user_id = UG.user_id and UG.group_user_id = OA.user_id and OA.object_id = " ++ column
    ++ " and OA.access_type_id >= TM.token_id and TM.token_namespace ='access_type' "
    ++ "and TM.token_name = 'read object')"

/-- Whoever asks after a strict policy was relaxed is filtered on both tables selected from, the
aggregated one too, and not on the third: in the statement and in the count. -/
theorem relaxed_too_late : ∃ (e : Engine) (c : Compiled) (words : String),
    words = "select distinct count(data.name), meta.label from data, base meta "
      ++ "where data.name like ? AND data.id = meta.id AND " ++ GrantChain.usualGrants "data.id"
      ++ " AND " ++ GrantChain.usualGrants "meta.id" ++ " group by meta.label" ∧
    Engine.create .guarded .postgres = .ok e ∧
    (e.configured [.policy true, .settings {}, .policy false]).compile
      ⟨"alice", "north", .localUser⟩ .namesPerLabel = .ok c ∧
    c.statement.sql = words ++ " order by meta.label desc" ++ " offset ?" ∧
    c.statement.binds = ["a%", "alice", "north", "alice", "north"] ++ ["3"] ∧
    c.count.sql = "select count(*) from (" ++ words ++ ") genquery_count" ∧
    c.count.binds = ["a%", "alice", "north", "alice", "north"] := by
  have hs : Schema.guarded.Registered := by
    refine .conventions Schema.registered_roundabout (c := Schema.guarded.conventions) ?_
    decide +kernel
  have he : Engine.create .guarded .postgres = .ok { schema := .guarded, dialect := .postgres } :=
    bind_eq_ok.mpr ⟨(), by decide +kernel, rfl⟩
  obtain ⟨c, hc⟩ : ∃ c, (Engine.configured { schema := .guarded, dialect := .postgres }
      [.policy true, .settings {}, .policy false]).compile ⟨"alice", "north", .localUser⟩
      .namesPerLabel = .ok c := by
    apply exists_of_isOk
    decide +kernel
  obtain ⟨d, links, _, _, hd, hlinks, rfl, rfl, -, hfiltered, -⟩ :=
    Engine.filters_follow_policy hs he hc
  obtain ⟨-, hwrites⟩ := hfiltered rfl (.inl ⟨_, List.mem_cons_self, rfl⟩)
  have hcomputed : (do
      let d ← Schema.guarded.draft ⟨"alice", "north", .localUser⟩ .namesPerLabel
      let links ← (Schema.guarded.resolve (d.requirements .guarded)).1
      let k := d.openClauses .guarded .postgres links
      let terms := k.terms.map Term.render ++
        Request.namesPerLabel.grantFilters .guarded ⟨"alice", "north", .localUser⟩
      return (k.wording terms, terms.flatMap Fragment.binds, k.orderBy))
      = .ok ("select distinct count(data.name), meta.label from data, base meta "
        ++ "where data.name like ? AND data.id = meta.id AND " ++ GrantChain.usualGrants "data.id"
        ++ " AND " ++ GrantChain.usualGrants "meta.id" ++ " group by meta.label",
        ["a%", "alice", "north", "alice", "north"], [⟨"meta.label", true⟩]) := by decide +kernel
  rw [hd, ok_bind, hlinks, ok_bind] at hcomputed
  simp only [pure, Except.pure, Except.ok.injEq, Prod.mk.injEq] at hcomputed
  obtain ⟨hwords, hbinds, horder⟩ := hcomputed
  refine ⟨_, c, _, rfl, he, hc, ?_, ?_, ?_, ?_⟩
  · rw [hwrites.sql, hwords, horder]
    rfl
  · rw [hwrites.binds, hbinds]
    rfl
  · rw [hwrites.countSql, hwords]
  · rw [hwrites.countBinds, hbinds]

end CatalogQuery
