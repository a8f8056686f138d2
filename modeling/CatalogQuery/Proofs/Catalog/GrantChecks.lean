import CatalogQuery.Access.RowFilter
import CatalogQuery.Catalog.Database
import CatalogQuery.Proofs.Catalog.GrantRoutes
import CatalogQuery.Proofs.Sql.ComparisonQueries

/-!
# Checks and filters of access

The permission of one object is checked by a statement of its own, the rows of a page are filtered by
a condition in the statement that selects them. Both ask for a route of grants, in texts of their own.
Only the condition looks at the type of the user.

* `GrantChain.OfCatalog.reads_countGrants`, `GrantChain.OfCatalog.reads_admits_as`: what is read of
  the two texts;
* `Database.hasAccess_catalog`: a check finds the routes that lead to the object;
* `ProtectedTable.filter_admits`: a filter finds those of them that no group has;
* `Database.check_and_filter`: the two agree but for groups of the name of the caller.
-/

namespace CatalogQuery

open Sql Reader

/-! ## Chains of the catalog -/

/-- The chain names the four tables of the catalog, in any letters, and no quote is in what it
quotes. -/
structure GrantChain.OfCatalog (g : GrantChain) : Prop where
  access : lowerText g.accessTable = "r_objt_access"
  group : lowerText g.groupTable = "r_user_group"
  user : lowerText g.userTable = "r_user_main"
  token : lowerText g.tokenTable = "r_tokn_main"
  type : '\'' ∉ g.groupTypeName.toList
  space : '\'' ∉ g.tokenNamespace.toList

namespace GrantChain

variable {g : GrantChain} {name zone object level : String}

/-- The sources of a check as they are written. -/
def checkSources (g : GrantChain) : List Source :=
  [⟨g.userTable, "UM"⟩, ⟨g.groupTable, "UG"⟩, ⟨g.accessTable, "OA"⟩, ⟨g.tokenTable, "TM"⟩]

/-- The sources of a filter as they are written. -/
def filterSources (g : GrantChain) : List Source :=
  [⟨g.accessTable, "OA"⟩, ⟨g.groupTable, "UG"⟩, ⟨g.userTable, "UM"⟩, ⟨g.tokenTable, "TM"⟩]

theorem written_source {table name short bound : String} (htable : lowerText table = name)
    (hname : name ∉ reserved) (hbound : ReadsName short bound) :
    Source.Written ⟨table, short⟩ ⟨name, bound⟩ :=
  ⟨⟨htable, hname⟩, hbound⟩

theorem OfCatalog.checkSources_written (h : g.OfCatalog) :
    List.Forall₂ Source.Written g.checkSources CatalogQuery.checkSources :=
  .cons (written_source h.user (by decide) (by decide))
    (.cons (written_source h.group (by decide) (by decide))
      (.cons (written_source h.access (by decide) (by decide))
        (.cons (written_source h.token (by decide) (by decide)) .nil)))

theorem OfCatalog.filterSources_written (h : g.OfCatalog) :
    List.Forall₂ Source.Written g.filterSources CatalogQuery.filterSources :=
  .cons (written_source h.access (by decide) (by decide))
    (.cons (written_source h.group (by decide) (by decide))
      (.cons (written_source h.user (by decide) (by decide))
        (.cons (written_source h.token (by decide) (by decide)) .nil)))

/-! ## Terms as they are written -/

def callerTokens (name zone : Token) : List (List Token) :=
  [SourceColumn.tokens ⟨"UM", "user_name"⟩ ++ [.mark "=", name],
    SourceColumn.tokens ⟨"UM", "zone_name"⟩ ++ [.mark "=", zone]]

def typeTokens (type : String) : List Token :=
  SourceColumn.tokens ⟨"UM", "user_type_name"⟩ ++ [.mark "!=", .quoted type]

def pathTokens (object : List Token) (space level : Token) : List (List Token) :=
  [SourceColumn.tokens ⟨"UM", "user_id"⟩ ++ .mark "=" :: SourceColumn.tokens ⟨"UG", "user_id"⟩,
    SourceColumn.tokens ⟨"UG", "group_user_id"⟩ ++ .mark "=" :: SourceColumn.tokens ⟨"OA", "user_id"⟩,
    SourceColumn.tokens ⟨"OA", "object_id"⟩ ++ .mark "=" :: object,
    SourceColumn.tokens ⟨"OA", "access_type_id"⟩ ++
      .mark ">=" :: SourceColumn.tokens ⟨"TM", "token_id"⟩,
    SourceColumn.tokens ⟨"TM", "token_namespace"⟩ ++ [.mark "=", space],
    SourceColumn.tokens ⟨"TM", "token_name"⟩ ++ [.mark "=", level]]

theorem written_column {b b' n : String} (hb : ReadsName b b') (hn : ReadsName n n) :
    SourceColumn.Written ⟨b, n⟩ ⟨b', n⟩ := ⟨hb, hn⟩

theorem callerTokens_written (name zone : String) :
    List.Forall₂ IsTerm (callerTokens (.bound name) (.bound zone)) (Route.callerTerms name zone) :=
  .cons (.bound (written_column (by decide) (by decide)) rfl name)
    (.cons (.bound (written_column (by decide) (by decide)) rfl zone) .nil)

theorem typeTokens_written (type : String) : IsTerm (typeTokens type) (Route.typeTerm type) :=
  .quoted (written_column (by decide) (by decide)) rfl type

theorem object_written : SourceColumn.Written ⟨"OA", "object_id"⟩ ⟨"oa", "object_id"⟩ := by decide

theorem pathTokens_written {objectTokens : List Token} {object : Operand}
    (hobject : IsTerm (SourceColumn.tokens ⟨"OA", "object_id"⟩ ++ .mark "=" :: objectTokens)
      (.compare .eq (.column ⟨some "oa", "object_id"⟩) object)) {levelToken : Token} {level : String}
    (hlevel : IsTerm (SourceColumn.tokens ⟨"TM", "token_name"⟩ ++ [.mark "=", levelToken])
      (.compare .eq (.column ⟨some "tm", "token_name"⟩) (.text level))) (space : String) :
    List.Forall₂ IsTerm (pathTokens objectTokens (.quoted space) levelToken)
      (Route.pathTerms object space level) :=
  .cons (.columns (written_column (by decide) (by decide)) rfl
      (written_column (by decide) (by decide)))
    (.cons (.columns (written_column (by decide) (by decide)) rfl
        (written_column (by decide) (by decide)))
      (.cons hobject
        (.cons (.columns (written_column (by decide) (by decide)) rfl
            (written_column (by decide) (by decide)))
          (.cons (.quoted (written_column (by decide) (by decide)) rfl space)
            (.cons hlevel .nil)))))

theorem checkTokens_written (name zone object space level : String) : List.Forall₂ IsTerm
    (callerTokens (.bound name) (.bound zone) ++
      pathTokens [.bound object] (.quoted space) (.bound level))
    (Route.checkTerms name zone (.text object) space level) := by
  apply List.rel_append (callerTokens_written name zone)
  exact pathTokens_written (.bound object_written rfl object)
    (.bound (written_column (by decide) (by decide)) rfl level) space

theorem filterTokens_written {x x' : SourceColumn} (hx : x.Written x')
    (name zone type space level : String) : List.Forall₂ IsTerm
    (callerTokens (.bound name) (.bound zone) ++
      typeTokens type :: pathTokens x.tokens (.quoted space) (.quoted level))
    (Route.filterTerms name zone type (.column x'.ref) space level) := by
  apply List.rel_append (callerTokens_written name zone)
  refine .cons (typeTokens_written type) ?_
  exact pathTokens_written (.columns object_written rfl hx)
    (.quoted (written_column (by decide) (by decide)) rfl level) space

/-! ## Texts -/

/-- A short name is none of a table. -/
theorem tokens_source (short : String) {table name : String} (htable : lowerText table = name)
    (hshort : lowerText short ≠ name) :
    Source.tokens ⟨table, short⟩ = [.word table, .word short] := by
  apply if_neg
  rintro (rfl : table = short)
  exact hshort htable

theorem OfCatalog.sourceTokens_check (h : g.OfCatalog) : sourceTokens g.checkSources =
    [.word g.userTable, .word "UM", .mark ",", .word g.groupTable, .word "UG", .mark ",",
      .word g.accessTable, .word "OA", .mark ",", .word g.tokenTable, .word "TM"] := by
  rw [sourceTokens, checkSources, List.map_cons, List.map_cons, List.map_cons, List.map_cons,
    tokens_source "UM" h.user (by decide), tokens_source "UG" h.group (by decide),
    tokens_source "OA" h.access (by decide), tokens_source "TM" h.token (by decide)]
  rfl

theorem OfCatalog.sourceTokens_filter (h : g.OfCatalog) : sourceTokens g.filterSources =
    [.word g.accessTable, .word "OA", .mark ",", .word g.groupTable, .word "UG", .mark ",",
      .word g.userTable, .word "UM", .mark ",", .word g.tokenTable, .word "TM"] := by
  rw [sourceTokens, filterSources, List.map_cons, List.map_cons, List.map_cons, List.map_cons,
    tokens_source "UM" h.user (by decide), tokens_source "UG" h.group (by decide),
    tokens_source "OA" h.access (by decide), tokens_source "TM" h.token (by decide)]
  rfl

theorem OfCatalog.spells_countGrants (h : g.OfCatalog) : Spells g.countGrants.toList
    (queryTokens countTokens (sourceTokens g.checkSources)
      (conditionTokens (callerTokens (.placeholder (some 1)) (.placeholder (some 2)) ++
        pathTokens [.placeholder (some 3)] (.quoted g.tokenNamespace) (.placeholder (some 4))))) := by
  have hcount : bare <$> tokens "select count(*)" = .ok (.word "select" :: countTokens) := rfl
  have hpath : openingQuotes? ("UM.user_name = ?1 and UM.zone_name = ?2 and UM.user_id = UG.user_id "
      ++ "and UG.group_user_id = OA.user_id and OA.object_id = ?3 "
      ++ "and OA.access_type_id >= TM.token_id and TM.token_namespace = '")
      = some (conditionTokens (callerTokens (.placeholder (some 1)) (.placeholder (some 2)) ++
        (pathTokens [.placeholder (some 3)] (.mark "") (.mark "")).take 4 ++
        [SourceColumn.tokens ⟨"TM", "token_namespace"⟩ ++ [.mark "="]])) := by decide +kernel
  have hlevel : bare <$> tokens "TM.token_name = ?4"
      = .ok (SourceColumn.tokens ⟨"TM", "token_name"⟩ ++ [.mark "=", .placeholder (some 4)]) := rfl
  have hwhere := Spells.gap " and " [.word "and"] (by decide +kernel) (spells_opening hpath h.space)
    (spells_fixed hlevel)
  have huser := spells_word (isWordText_of_lower h.user (by decide))
  have hgroup := spells_word (isWordText_of_lower h.group (by decide))
  have haccess := spells_word (isWordText_of_lower h.access (by decide))
  have htoken := spells_word (isWordText_of_lower h.token (by decide))
  have hsources := Spells.gap " UM, " [.word "UM", .mark ","] (by decide +kernel) huser
    (.gap " UG, " [.word "UG", .mark ","] (by decide +kernel) hgroup
      (.gap " OA, " [.word "OA", .mark ","] (by decide +kernel) haccess
        (.gap " TM where " [.word "TM", .word "where"] (by decide +kernel) htoken hwhere)))
  have hall := Spells.gap " from " [.word "from"] (by decide +kernel) (spells_fixed hcount) hsources
  have hselect : "select count(*) from " = "select count(*)" ++ " from " := rfl
  have hbehind : " TM where UM.user_name = ?1 and UM.zone_name = ?2 and UM.user_id = UG.user_id "
      = " TM where " ++ "UM.user_name = ?1 and UM.zone_name = ?2 and UM.user_id = UG.user_id " := rfl
  have hlast : "' and TM.token_name = ?4" = "'" ++ (" and " ++ "TM.token_name = ?4") := rfl
  unfold GrantChain.countGrants
  rw [hselect, hbehind, hlast, h.sourceTokens_check]
  simp only [String.append_assoc] at hall ⊢
  exact hall

/-- The condition that a column is among the objects of the chain, as it is written. -/
def admitsTokens (g : GrantChain) (x : SourceColumn) (name zone : Token) : List Token :=
  membershipTokens x "object_id" g.filterSources (callerTokens name zone ++
    typeTokens g.groupTypeName :: pathTokens x.tokens (.quoted g.tokenNamespace) (.quoted g.readToken))

theorem OfCatalog.spells_admits (h : g.OfCatalog) (hread : '\'' ∉ g.readToken.toList)
    {x : SourceColumn} (hx : x.Named) : Spells (g.admits x.text).toList
      (g.admitsTokens x (.placeholder none) (.placeholder none)) := by
  have hselect : bare <$> tokens "select object_id" = .ok [.word "select", .word "object_id"] := rfl
  have hcaller : openingQuotes? "UM.user_name=? and UM.zone_name=? and UM.user_type_name!='"
      = some (conditionTokens (callerTokens (.placeholder none) (.placeholder none) ++
        [SourceColumn.tokens ⟨"UM", "user_type_name"⟩ ++ [.mark "!="]])) := by decide +kernel
  have hspace : openingQuotes? "TM.token_namespace ='"
      = some (SourceColumn.tokens ⟨"TM", "token_namespace"⟩ ++ [.mark "="]) := by decide +kernel
  have hlevel : openingQuotes? "TM.token_name = '"
      = some (SourceColumn.tokens ⟨"TM", "token_name"⟩ ++ [.mark "="]) := by decide +kernel
  have huser := spells_word (isWordText_of_lower h.user (by decide))
  have hgroup := spells_word (isWordText_of_lower h.group (by decide))
  have haccess := spells_word (isWordText_of_lower h.access (by decide))
  have htoken := spells_word (isWordText_of_lower h.token (by decide))
  -- The subquery, from its end: three quoted texts, the caller, the tables.
  have hlevels := Spells.gap " and " [.word "and"] (by decide +kernel)
    (spells_opening hspace h.space) (spells_opening hlevel hread)
  have hgrants := Spells.gap " and OA.access_type_id >= TM.token_id and "
    (.word "and" :: (SourceColumn.tokens ⟨"OA", "access_type_id"⟩ ++
      .mark ">=" :: SourceColumn.tokens ⟨"TM", "token_id"⟩ ++ [.word "and"]))
    (by decide +kernel) hx.spells hlevels
  have hlinks := Spells.gap
    " and UM.user_id = UG.user_id and UG.group_user_id = OA.user_id and OA.object_id = "
    (.word "and" :: conditionTokens ((pathTokens [] (.mark "") (.mark "")).take 3))
    (by decide +kernel) (spells_opening hcaller h.type) hgrants
  have htables := Spells.gap " OA, " [.word "OA", .mark ","] (by decide +kernel) haccess
    (.gap " UG, " [.word "UG", .mark ","] (by decide +kernel) hgroup
      (.gap " UM, " [.word "UM", .mark ","] (by decide +kernel) huser
        (.gap " TM where " [.word "TM", .word "where"] (by decide +kernel) htoken hlinks)))
  have hinside := Spells.gap " from " [.word "from"] (by decide +kernel) (spells_fixed hselect)
    htables
  have hall := Spells.gap " in (" [.word "in", .mark "("] (by decide +kernel) hx.spells
    (.gap ")" [.mark ")"] (by decide +kernel) hinside (b := "") spells_nil)
  have hopening : " in (select object_id from " = " in (" ++ ("select object_id" ++ " from ") := rfl
  have hwhere : " TM where UM.user_name=? and UM.zone_name=? and UM.user_type_name!='"
      = " TM where " ++ "UM.user_name=? and UM.zone_name=? and UM.user_type_name!='" := rfl
  have hbehind : "' and UM.user_id = UG.user_id and UG.group_user_id = OA.user_id and OA.object_id = "
      = "'" ++ " and UM.user_id = UG.user_id and UG.group_user_id = OA.user_id and OA.object_id = " :=
    rfl
  have hnamespace : " and OA.access_type_id >= TM.token_id and TM.token_namespace ='"
      = " and OA.access_type_id >= TM.token_id and " ++ "TM.token_namespace ='" := rfl
  have hname : "' and TM.token_name = '" = "'" ++ (" and " ++ "TM.token_name = '") := rfl
  have hclosing : "')" = "'" ++ (")" ++ "") := rfl
  unfold GrantChain.admits admitsTokens membershipTokens
  rw [hopening, hwhere, hbehind, hnamespace, hname, hclosing, h.sourceTokens_filter]
  simp only [String.append_assoc] at hall ⊢
  simpa [queryTokens, conditionTokens, callerTokens, pathTokens, typeTokens] using hall

/-! ## What is read of them -/

/-- A check is read as the count of the routes to an object. -/
theorem OfCatalog.reads_countGrants (h : g.OfCatalog) (name zone object level : String) :
    ∃ ls, tokens g.countGrants = .ok ls ∧ placeholderCount ls = 4 ∧
      Statement.read (fill [name, zone, object, level] 0 ls)
        = .ok (.rows (checkQuery name zone object g.tokenNamespace level)) := by
  obtain ⟨ls, hls, hbare⟩ := h.spells_countGrants.tokens
  refine ⟨ls, hls, ?_, ?_⟩
  · rw [placeholderCount_eq_foldl, hbare, h.sourceTokens_check]
    rfl
  · have hfilled : bare (fill [name, zone, object, level] 0 ls)
        = queryTokens countTokens (sourceTokens g.checkSources) (conditionTokens
          (callerTokens (.bound name) (.bound zone) ++
            pathTokens [.bound object] (.quoted g.tokenNamespace) (.bound level))) := by
      rw [bare, map_fill, hbare, h.sourceTokens_check]
      rfl
    exact reads_count h.checkSources_written (by simp [checkSources])
      (checkTokens_written name zone object g.tokenNamespace level) _ hfilled

/-- A filter is read as the condition that a route leads to the object of a row. -/
theorem OfCatalog.reads_admits_as (h : g.OfCatalog) (hread : '\'' ∉ g.readToken.toList)
    {x : SourceColumn} (hx : x.Named) (name zone : String) :
    ∃ f, Selection.conjunction (Route.filterTerms name zone g.groupTypeName (.column x.ref)
        g.tokenNamespace g.readToken) = some f ∧
      Formula.read (g.admits x.text) [name, zone] = .ok (filterFormula x.ref f) := by
  obtain ⟨ls, hls, hbare⟩ := (h.spells_admits hread hx).tokens
  refine ⟨_, rfl, ?_⟩
  have hfilled : bare (fill [name, zone] 0 ls) = g.admitsTokens x (.bound name) (.bound zone) := by
    rw [bare, map_fill, hbare, admitsTokens, admitsTokens, membershipTokens, membershipTokens,
      h.sourceTokens_filter]
    rfl
  have hobject : ReadsName "object_id" "object_id" := by decide
  rw [Formula.read, hls]
  exact reads_membership hx.written hobject h.filterSources_written (by simp [filterSources])
    (filterTokens_written hx.written name zone g.groupTypeName g.tokenNamespace g.readToken) _ hfilled

end GrantChain

/-! ## Answers -/

variable {g : GrantChain} {c : Catalog}

theorem checkQuery_known (c : Catalog) (name zone object space level : String) :
    Names.checkQuery c.relation? (checkQuery name zone object space level) = .ok () := rfl

theorem Database.run_countGrants (hg : g.OfCatalog) (c : Catalog) (name zone object level : String) :
    (Database.catalog c).run g.countGrants [name, zone, object, level]
      = .ok [[.int ((checkQuery name zone object g.tokenNamespace level).matching
        c.relation?).length]] := by
  obtain ⟨ls, hls, hcount, hread⟩ := hg.reads_countGrants name zone object level
  have hknown := checkQuery_known c name zone object g.tokenNamespace level
  have hrun : Sql.run c.relation? g.countGrants [name, zone, object, level]
      = .ok ((checkQuery name zone object g.tokenNamespace level).answer c.relation?) := by
    have hfits : (checkQuery name zone object g.tokenNamespace level).limitFits = true := rfl
    simp [Sql.run, hls, hread, hcount, hfits, Statement.query, hknown, Except.mapError,
      Statement.answer, bind, Except.bind, pure, Except.pure]
  rw [Database.run_catalog, hrun]
  rfl

/-- A check always answers: whether a route leads to the object. -/
theorem Database.hasAccess_catalog (hg : g.OfCatalog) (c : Catalog) (object name zone : String)
    (level : AccessLevel) :
    ∃ checked, (Database.catalog c).hasAccess g object name zone level = .ok checked ∧
      (checked = true ↔ ∃ r : Route, r.In c ∧ r.Leads name zone g.tokenNamespace level.token ∧
        Denotes object r.grant.object) := by
  have hscalar : (Database.catalog c).scalar g.countGrants [name, zone, object, level.token]
      = .ok ((checkQuery name zone object g.tokenNamespace level.token).matching
        c.relation?).length := by
    rw [Database.scalar, Database.run_countGrants hg c]
    rfl
  refine ⟨_, by rw [Database.hasAccess, hscalar]; rfl, ?_⟩
  rw [decide_eq_true_eq, gt_iff_lt, Int.natCast_pos, List.length_pos_iff_exists_mem]
  constructor
  · rintro ⟨t, ht⟩
    obtain ⟨r, hr, -, hleads⟩ := mem_matching_check.mp ht
    exact ⟨r, hr, hleads⟩
  · rintro ⟨r, hr, hleads⟩
    exact ⟨_, mem_matching_check.mpr ⟨r, hr, rfl, hleads⟩⟩

/-- A user of that kind, with the name and the zone of the caller, has a route to the object at the
level at which rows are seen. -/
def Catalog.Reached (c : Catalog) (g : GrantChain) (caller : Caller) (kind : User → Prop) (n : Int) :
    Prop :=
  ∃ r : Route, r.In c ∧ r.Leads caller.user caller.zone g.tokenNamespace g.readToken ∧
    kind r.user ∧ r.grant.object = n

/-- A filter decides every row: whether a user who is no group has a route to its object. -/
theorem ProtectedTable.filter_admits (hg : g.OfCatalog) (c : Catalog)
    (hread : '\'' ∉ g.readToken.toList) {p : ProtectedTable} (hp : SourceColumn.Named ⟨p.table, p.idColumn⟩)
    (hp' : p.table ∉ ["oa", "ug", "um", "tm"]) (caller : Caller) {s : Scope} {n : Int}
    (hs : s.lookup ⟨some p.table, p.idColumn⟩ = some ⟨.int n, .numeric⟩) :
    ∃ f admitted, Formula.read (p.filter g caller).sql (p.filter g caller).binds = .ok f ∧
      f.truth c.relation? s = some admitted ∧
      (admitted = true ↔ c.Reached g caller (·.type ≠ g.groupTypeName) n) := by
  obtain ⟨f, hf, hfilter⟩ := hg.reads_admits_as hread hp caller.user caller.zone
  obtain ⟨admitted, htruth, hadmitted⟩ := truth_filter c hp' hs hf
  exact ⟨_, admitted, hfilter, htruth, hadmitted⟩

/-- A check of the same object answers whether any user has such a route. So the two differ exactly
where only groups of the name of the caller have one: a filter leaves them out, a check does not. -/
theorem Database.check_and_filter (hg : g.OfCatalog) (c : Catalog)
    (hread : g.readToken = AccessLevel.read.token) {p : ProtectedTable} (hp : SourceColumn.Named ⟨p.table, p.idColumn⟩)
    (hp' : p.table ∉ ["oa", "ug", "um", "tm"]) (caller : Caller) {s : Scope} {n : Int}
    (hs : s.lookup ⟨some p.table, p.idColumn⟩ = some ⟨.int n, .numeric⟩) {object : String}
    (hobject : Denotes object n) :
    ∃ f admitted checked,
      Formula.read (p.filter g caller).sql (p.filter g caller).binds = .ok f ∧
      f.truth c.relation? s = some admitted ∧
      (Database.catalog c).hasAccess g object caller.user caller.zone .read = .ok checked ∧
      (admitted = true ↔ c.Reached g caller (·.type ≠ g.groupTypeName) n) ∧
      (checked = true ↔ admitted = true ∨ c.Reached g caller (·.type = g.groupTypeName) n) ∧
      ((∀ u ∈ c.users, u.name = caller.user → u.zone = caller.zone → u.type ≠ g.groupTypeName) →
        checked = admitted) := by
  have hquotes : '\'' ∉ g.readToken.toList := by
    rw [hread]
    decide
  obtain ⟨f, admitted, hfilter, htruth, hadmitted⟩ :=
    ProtectedTable.filter_admits hg c hquotes hp hp' caller hs
  obtain ⟨checked, hcheck, hchecked⟩ :=
    Database.hasAccess_catalog hg c object caller.user caller.zone .read
  have heither : checked = true ↔
      admitted = true ∨ c.Reached g caller (·.type = g.groupTypeName) n := by
    rw [hchecked, hadmitted]
    constructor
    · rintro ⟨r, hr, hleads, hdenotes⟩
      have hn : r.grant.object = n := hdenotes.unique hobject
      rw [← hread] at hleads
      by_cases htype : r.user.type = g.groupTypeName
      · exact .inr ⟨r, hr, hleads, htype, hn⟩
      · exact .inl ⟨r, hr, hleads, htype, hn⟩
    · rintro (⟨r, hr, hleads, -, rfl⟩ | ⟨r, hr, hleads, -, rfl⟩)
      · exact ⟨r, hr, hread ▸ hleads, hobject⟩
      · exact ⟨r, hr, hread ▸ hleads, hobject⟩
  refine ⟨f, admitted, checked, hfilter, htruth, hcheck, hadmitted, heither, fun hnone => ?_⟩
  have hgroups : ¬c.Reached g caller (·.type = g.groupTypeName) n := by
    rintro ⟨r, hr, hleads, htype, -⟩
    exact hnone r.user hr.user hleads.name hleads.zone htype
  rw [Bool.eq_iff_iff, heither, or_iff_left hgroups]

/-! ## A group in a group -/

/-- A user and a group are in a group that may read an object. -/
def Catalog.staffed : Catalog := Catalog.withTokens
  { users := [⟨1, "alice", "rodsuser", "north"⟩, ⟨2, "crew", "rodsgroup", "north"⟩,
      ⟨3, "staff", "rodsgroup", "north"⟩]
    memberships := [⟨3, 1⟩, ⟨3, 2⟩]
    grants := [⟨7, 3, AccessLevel.read.tokenId⟩] }

/-- The way of the group to the object. -/
def Catalog.crewRoute : Route :=
  ⟨⟨2, "crew", "rodsgroup", "north"⟩, ⟨3, 2⟩, ⟨7, 3, AccessLevel.read.tokenId⟩,
    ⟨"access_type", AccessLevel.read.tokenId, "read object"⟩⟩

theorem GrantChain.ofCatalog_standard : GrantChain.standard.OfCatalog :=
  ⟨by decide, by decide, by decide, by decide, by decide, by decide⟩

theorem SourceColumn.named_dataId : SourceColumn.Named ⟨"r_data_main", "data_id"⟩ :=
  ⟨⟨by decide, by decide, by decide⟩, ⟨by decide, by decide, by decide⟩⟩

/-- The row of that object. -/
def Scope.ofObject (n : Int) : Scope := [⟨"r_data_main", integers ["data_id"], some [.int n]⟩]

/-- A user of the name of no group passes both or none. -/
theorem Catalog.staffed_agrees : ∃ f admitted checked,
    Formula.read (ProtectedTable.filter ⟨"r_data_main", "data_id"⟩ .standard
      ⟨"alice", "north", .localUser⟩).sql ["alice", "north"] = .ok f ∧
    f.truth Catalog.staffed.relation? (Scope.ofObject 7) = some admitted ∧
    (Database.catalog .staffed).hasAccess .standard "7" "alice" "north" .read = .ok checked ∧
    checked = admitted := by
  obtain ⟨f, admitted, checked, hf, htruth, hcheck, -, -, hagree⟩ :=
    Database.check_and_filter GrantChain.ofCatalog_standard .staffed rfl
      (p := ⟨"r_data_main", "data_id"⟩) SourceColumn.named_dataId (by decide)
      ⟨"alice", "north", .localUser⟩ (s := Scope.ofObject 7) (n := 7) rfl
      (denotes_toString (by decide))
  exact ⟨f, admitted, checked, hf, htruth, hcheck, hagree (by decide)⟩

/-- A group that is in a group passes a check, while no filter lets it pass. -/
theorem Catalog.staffed_differs :
    (Database.catalog .staffed).hasAccess .standard "7" "crew" "north" .read = .ok true ∧
    ∃ f, Formula.read (ProtectedTable.filter ⟨"r_data_main", "data_id"⟩ .standard
        ⟨"crew", "north", .localUser⟩).sql ["crew", "north"] = .ok f ∧
      f.truth Catalog.staffed.relation? (Scope.ofObject 7) = some false := by
  constructor
  · obtain ⟨checked, hcheck, hroute⟩ :=
      Database.hasAccess_catalog GrantChain.ofCatalog_standard .staffed "7" "crew" "north" .read
    have hin : Catalog.crewRoute.In .staffed := ⟨by decide, by decide, by decide, by decide⟩
    have hleads : Catalog.crewRoute.Leads "crew" "north" GrantChain.standard.tokenNamespace
        AccessLevel.read.token := ⟨rfl, rfl, rfl, rfl, Int.le_refl _, rfl, rfl⟩
    have hchecked : checked = true :=
      hroute.mpr ⟨Catalog.crewRoute, hin, hleads, denotes_toString (n := 7) (by decide)⟩
    rw [hcheck, hchecked]
  · obtain ⟨f, admitted, hf, htruth, hadmitted⟩ := ProtectedTable.filter_admits
      GrantChain.ofCatalog_standard .staffed (by decide) (p := ⟨"r_data_main", "data_id"⟩)
      SourceColumn.named_dataId (by decide) ⟨"crew", "north", .localUser⟩
      (s := Scope.ofObject 7) (n := 7) rfl
    have hgroups : ∀ u ∈ Catalog.staffed.users,
        u.name = "crew" → u.type = GrantChain.standard.groupTypeName := by decide
    have hrefused : admitted = false := by
      refine Bool.eq_false_iff.mpr fun h => ?_
      obtain ⟨r, hr, hleads, htype, -⟩ := hadmitted.mp h
      exact htype (hgroups r.user hr.user hleads.name)
    exact ⟨f, hf, hrefused ▸ htruth⟩

end CatalogQuery
