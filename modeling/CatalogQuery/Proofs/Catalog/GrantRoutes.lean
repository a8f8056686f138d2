import CatalogQuery.Catalog.Basic
import CatalogQuery.Proofs.Catalog.SelectedRows

/-!
# Routes of grants

A user reaches an object over rows of four tables: his own, one of his groups, a grant on the object
to that group, and the token of a level that the grant is not below. Whatever the order in which a
query names the four tables, what it chooses from them is a route, and its comparisons hold where the
rows of the route lead from one to the next.

* `Route.Leads`: the rows lead from a user to whatever is granted;
* `Route.ShownIn.truth`: the comparisons of a query hold of a route that leads;
* `mem_choices_userFirst`, `mem_choices_grantFirst`: what is chosen from the four tables is a route;
* `mem_matching_check`: a check counts the routes to one object;
* `truth_filter`: a filter asks for a route from a user who is no group.
-/

namespace CatalogQuery

open Sql

/-! ## Routes -/

/-- The rows over which a user reaches an object. -/
structure Route where
  user : User
  membership : Membership
  grant : Grant
  token : TokenRow
  deriving DecidableEq, Repr

namespace Route

/-- All rows are rows of the catalog. -/
structure In (r : Route) (c : Catalog) : Prop where
  user : r.user ∈ c.users
  membership : r.membership ∈ c.memberships
  grant : r.grant ∈ c.grants
  token : r.token ∈ c.tokens

/-- The rows lead from a user of that name and zone over one of his groups to a grant that is not
below the level of that name. -/
structure Leads (r : Route) (name zone space level : String) : Prop where
  name : r.user.name = name
  zone : r.user.zone = zone
  member : r.user.id = r.membership.user
  granted : r.membership.group = r.grant.user
  reached : r.token.id ≤ r.grant.token
  space : r.token.space = space
  level : r.token.name = level

/-! ## Rows that are chosen -/

def userEntry (r : Route) : ScopeEntry := ⟨"um", Row.columns User, some (Row.values r.user)⟩

def membershipEntry (r : Route) : ScopeEntry :=
  ⟨"ug", Row.columns Membership, some (Row.values r.membership)⟩

def grantEntry (r : Route) : ScopeEntry := ⟨"oa", Row.columns Grant, some (Row.values r.grant)⟩

def tokenEntry (r : Route) : ScopeEntry := ⟨"tm", Row.columns TokenRow, some (Row.values r.token)⟩

/-- The columns that are compared have the values of the route. -/
structure ShownIn (r : Route) (t : Scope) : Prop where
  userId : t.lookup ⟨some "um", "user_id"⟩ = some ⟨.int r.user.id, .numeric⟩
  userName : t.lookup ⟨some "um", "user_name"⟩ = some ⟨.text r.user.name, .text⟩
  userType : t.lookup ⟨some "um", "user_type_name"⟩ = some ⟨.text r.user.type, .text⟩
  userZone : t.lookup ⟨some "um", "zone_name"⟩ = some ⟨.text r.user.zone, .text⟩
  member : t.lookup ⟨some "ug", "user_id"⟩ = some ⟨.int r.membership.user, .numeric⟩
  group : t.lookup ⟨some "ug", "group_user_id"⟩ = some ⟨.int r.membership.group, .numeric⟩
  object : t.lookup ⟨some "oa", "object_id"⟩ = some ⟨.int r.grant.object, .numeric⟩
  grantee : t.lookup ⟨some "oa", "user_id"⟩ = some ⟨.int r.grant.user, .numeric⟩
  access : t.lookup ⟨some "oa", "access_type_id"⟩ = some ⟨.int r.grant.token, .numeric⟩
  tokenId : t.lookup ⟨some "tm", "token_id"⟩ = some ⟨.int r.token.id, .numeric⟩
  tokenSpace : t.lookup ⟨some "tm", "token_namespace"⟩ = some ⟨.text r.token.space, .text⟩
  tokenName : t.lookup ⟨some "tm", "token_name"⟩ = some ⟨.text r.token.name, .text⟩

variable {r : Route} {t : Scope}

theorem shownIn_userFirst (r : Route) :
    r.ShownIn [r.userEntry, r.membershipEntry, r.grantEntry, r.tokenEntry] := by
  constructor <;> rfl

theorem shownIn_grantFirst (r : Route) (outer : Scope) :
    r.ShownIn (r.grantEntry :: r.membershipEntry :: r.userEntry :: r.tokenEntry :: outer) := by
  constructor <;> rfl

/-! ## Comparisons -/

/-- Who asks. -/
def callerTerms (name zone : String) : List Formula :=
  [.compare .eq (.column ⟨some "um", "user_name"⟩) (.text name),
    .compare .eq (.column ⟨some "um", "zone_name"⟩) (.text zone)]

/-- A user of another type asks. -/
def typeTerm (type : String) : Formula :=
  .compare .ne (.column ⟨some "um", "user_type_name"⟩) (.text type)

/-- The way from a user to an object. -/
def pathTerms (object : Operand) (space level : String) : List Formula :=
  [.compare .eq (.column ⟨some "um", "user_id"⟩) (.column ⟨some "ug", "user_id"⟩),
    .compare .eq (.column ⟨some "ug", "group_user_id"⟩) (.column ⟨some "oa", "user_id"⟩),
    .compare .eq (.column ⟨some "oa", "object_id"⟩) object,
    .compare .ge (.column ⟨some "oa", "access_type_id"⟩) (.column ⟨some "tm", "token_id"⟩),
    .compare .eq (.column ⟨some "tm", "token_namespace"⟩) (.text space),
    .compare .eq (.column ⟨some "tm", "token_name"⟩) (.text level)]

def checkTerms (name zone : String) (object : Operand) (space level : String) : List Formula :=
  callerTerms name zone ++ pathTerms object space level

def filterTerms (name zone type : String) (object : Operand) (space level : String) :
    List Formula :=
  callerTerms name zone ++ typeTerm type :: pathTerms object space level

/-- A filter has one term more than a check. -/
theorem forall_mem_filterTerms {p : Formula → Prop} {name zone type space level : String}
    {object : Operand} : (∀ f ∈ filterTerms name zone type object space level, p f) ↔
      p (typeTerm type) ∧ ∀ f ∈ checkTerms name zone object space level, p f := by
  simp only [filterTerms, checkTerms, List.forall_mem_append, List.forall_mem_cons]
  exact and_left_comm

theorem isConjunction_check {name zone space level : String} {object : Operand} :
    ∀ f ∈ checkTerms name zone object space level, f.IsConjunction := by
  simp only [checkTerms, callerTerms, pathTerms, List.cons_append, List.nil_append,
    List.forall_mem_cons, List.not_mem_nil, false_imp_iff, implies_true, and_true]
  exact ⟨.compare _ _ _, .compare _ _ _, .compare _ _ _, .compare _ _ _, .compare _ _ _,
    .compare _ _ _, .compare _ _ _, .compare _ _ _⟩

section Truth

variable {tables : Tables} {o : Comparison} {k l : ColumnRef}

/-- A column is compared with an operand that has a value. -/
theorem truth_compare {a : Operand} {x y : Typed} (hx : t.lookup k = some x)
    (hy : a.eval t = some y) :
    (Formula.compare o (.column k) a).truth tables t = some (o.holds x y) := by
  simp [Formula.truth, Operand.eval, hx, hy]

theorem truth_int {a b : Int} (ha : t.lookup k = some ⟨.int a, .numeric⟩)
    (hb : t.lookup l = some ⟨.int b, .numeric⟩) :
    (Formula.compare o (.column k) (.column l)).truth tables t
      = some (o.admits (Ord.compare a b)) := by
  rw [truth_compare (a := .column l) ha hb, Comparison.holds_int]

theorem truth_text {v w : String} (hv : t.lookup k = some ⟨.text v, .text⟩) :
    (Formula.compare o (.column k) (.text w)).truth tables t
      = some (o.admits (Ord.compare v w)) := by
  rw [truth_compare (a := .text w) hv rfl, Comparison.holds_text]

end Truth

namespace ShownIn

variable {tables : Tables} {name zone space level type : String} {object : Operand} {x : Typed}

/-- All comparisons are decided. -/
theorem decided (h : r.ShownIn t) (hobject : object.eval t = some x) :
    ∀ f ∈ checkTerms name zone object space level, ∃ b, f.truth tables t = some b := by
  simp only [checkTerms, callerTerms, pathTerms, List.cons_append, List.nil_append,
    List.forall_mem_cons, List.not_mem_nil, false_imp_iff, implies_true, and_true]
  exact ⟨⟨_, truth_text h.userName⟩, ⟨_, truth_text h.userZone⟩, ⟨_, truth_int h.userId h.member⟩,
    ⟨_, truth_int h.group h.grantee⟩, ⟨_, truth_compare h.object hobject⟩,
    ⟨_, truth_int h.access h.tokenId⟩, ⟨_, truth_text h.tokenSpace⟩, ⟨_, truth_text h.tokenName⟩⟩

theorem truth_type (h : r.ShownIn t) :
    (typeTerm type).truth tables t = some true ↔ r.user.type ≠ type := by
  rw [typeTerm, truth_text h.userType]
  simp [Comparison.admits]

/-- They hold of a route that leads to the object. -/
theorem truth (h : r.ShownIn t) (hobject : object.eval t = some x) :
    (∀ f ∈ checkTerms name zone object space level, f.truth tables t = some true) ↔
      r.Leads name zone space level ∧
        Comparison.eq.holds ⟨.int r.grant.object, .numeric⟩ x = true := by
  simp only [checkTerms, callerTerms, pathTerms, List.cons_append, List.nil_append,
    List.forall_mem_cons, List.not_mem_nil, false_imp_iff, implies_true, and_true]
  rw [truth_text h.userName, truth_text h.userZone, truth_int h.userId h.member,
    truth_int h.group h.grantee, truth_compare h.object hobject, truth_int h.access h.tokenId,
    truth_text h.tokenSpace, truth_text h.tokenName]
  simp only [Option.some.injEq, Comparison.eq_admits, Comparison.ge_admits]
  constructor
  · rintro ⟨hname, hzone, hmember, hgranted, hobject, hreached, hspace, hlevel⟩
    exact ⟨⟨hname, hzone, hmember, hgranted, hreached, hspace, hlevel⟩, hobject⟩
  · rintro ⟨⟨hname, hzone, hmember, hgranted, hreached, hspace, hlevel⟩, hobject⟩
    exact ⟨hname, hzone, hmember, hgranted, hobject, hreached, hspace, hlevel⟩

end ShownIn

end Route

/-! ## Ids as texts -/

/-- The text is that id, as the catalog compares ids with texts. -/
def Denotes (object : String) (n : Int) : Prop :=
  Comparison.eq.holds ⟨.int n, .numeric⟩ ⟨.text object, .none⟩ = true

theorem denotes_iff {object : String} {n : Int} : Denotes object n ↔
    ∃ k, wholeNumber? object = some k ∧ (Number.int n).compare k = .eq := by
  unfold Denotes Comparison.holds
  cases h : wholeNumber? object with
  | none =>
    simp [Affinity.forComparison, Affinity.apply, h, Value.int, Value.compare, Comparison.admits]
  | some k =>
    simp [Affinity.forComparison, Affinity.apply, h, Value.int, Value.compare, Comparison.admits,
      Value.isNull]

/-- A text denotes one id at most. -/
theorem Denotes.unique {object : String} {m n : Int} (hm : Denotes object m)
    (hn : Denotes object n) : m = n := by
  obtain ⟨k, hk, hm⟩ := denotes_iff.mp hm
  obtain ⟨l, hl, hn⟩ := denotes_iff.mp hn
  cases hk.symm.trans hl
  have hexact : ∀ {i : Int}, (Number.int i).compare k = .eq →
      i * twoTo (0 - min 0 k.binary.exponent).toNat = k.binary.mantissaAt (min 0 k.binary.exponent) :=
    fun h => Std.compare_eq_iff_eq.mp h
  have hpos : (twoTo (0 - min 0 k.binary.exponent).toNat : Int) ≠ 0 :=
    Int.natCast_ne_zero.mpr (Nat.ne_of_gt (Nat.two_pow_pos _))
  exact Int.eq_of_mul_eq_mul_right hpos ((hexact hm).trans (hexact hn).symm)

theorem denotes_toString {n : Int} (hn : fits64 n = true) : Denotes (toString n) n :=
  denotes_iff.mpr ⟨_, wholeNumber?_toString hn, (Value.compare_int_eq n n).mpr rfl⟩

/-! ## Choices -/

section Choices

variable {c : Catalog} {refused : Scope → Bool} {t outer : Scope}

/-- The four tables with their rows, the users first. -/
def Catalog.userFirst (c : Catalog) : List OpenEntry :=
  [⟨"um", .of c.users⟩, ⟨"ug", .of c.memberships⟩, ⟨"oa", .of c.grants⟩, ⟨"tm", .of c.tokens⟩]

/-- The four tables with their rows, the grants first. -/
def Catalog.grantFirst (c : Catalog) : List OpenEntry :=
  [⟨"oa", .of c.grants⟩, ⟨"ug", .of c.memberships⟩, ⟨"um", .of c.users⟩, ⟨"tm", .of c.tokens⟩]

/-- What is chosen from four tables is a row of each. -/
theorem mem_choices_four {α β γ δ : Type} [Row α] [Row β] [Row γ] [Row δ] {as : List α}
    {bs : List β} {cs : List γ} {ds : List δ} {i j k l : String} (hrefused : Lasting refused) :
    t ∈ choices refused outer [] [⟨i, .of as⟩, ⟨j, .of bs⟩, ⟨k, .of cs⟩, ⟨l, .of ds⟩] ↔
      ∃ a ∈ as, ∃ b ∈ bs, ∃ c ∈ cs, ∃ d ∈ ds,
        t = [⟨i, Row.columns α, some (Row.values a)⟩, ⟨j, Row.columns β, some (Row.values b)⟩,
          ⟨k, Row.columns γ, some (Row.values c)⟩, ⟨l, Row.columns δ, some (Row.values d)⟩] ++ outer ∧
        refused t = false := by
  rw [mem_choices hrefused]
  simp only [List.forall₂_cons_left_iff, List.forall₂_nil_left_iff]
  constructor
  · rintro ⟨_, ⟨_, _, h₁, ⟨_, _, h₂, ⟨_, _, h₃, ⟨_, _, h₄, rfl, rfl⟩, rfl⟩, rfl⟩, rfl⟩, rfl, hdone⟩
    obtain ⟨a, ha, rfl⟩ := List.mem_map.mp h₁
    obtain ⟨b, hb, rfl⟩ := List.mem_map.mp h₂
    obtain ⟨c, hc, rfl⟩ := List.mem_map.mp h₃
    obtain ⟨d, hd, rfl⟩ := List.mem_map.mp h₄
    exact ⟨a, ha, b, hb, c, hc, d, hd, rfl, hdone (by simp)⟩
  · rintro ⟨a, ha, b, hb, c, hc, d, hd, rfl, hdone⟩
    exact ⟨_, ⟨_, _, List.mem_map_of_mem ha, ⟨_, _, List.mem_map_of_mem hb,
      ⟨_, _, List.mem_map_of_mem hc, ⟨_, _, List.mem_map_of_mem hd, rfl, rfl⟩, rfl⟩, rfl⟩, rfl⟩,
      rfl, fun _ => hdone⟩

/-- What is chosen from the tables of the catalog is a route. -/
theorem mem_choices_userFirst (hrefused : Lasting refused) :
    t ∈ choices refused [] [] c.userFirst ↔ ∃ r : Route, r.In c ∧
      t = [r.userEntry, r.membershipEntry, r.grantEntry, r.tokenEntry] ∧ refused t = false := by
  rw [Catalog.userFirst, mem_choices_four hrefused]
  constructor
  · rintro ⟨u, hu, m, hm, g, hg, k, hk, rfl, hdone⟩
    exact ⟨⟨u, m, g, k⟩, ⟨hu, hm, hg, hk⟩, rfl, hdone⟩
  · rintro ⟨⟨u, m, g, k⟩, ⟨hu, hm, hg, hk⟩, rfl, hdone⟩
    exact ⟨u, hu, m, hm, g, hg, k, hk, rfl, hdone⟩

theorem mem_choices_grantFirst (hrefused : Lasting refused) :
    t ∈ choices refused outer [] c.grantFirst ↔ ∃ r : Route, r.In c ∧
      t = r.grantEntry :: r.membershipEntry :: r.userEntry :: r.tokenEntry :: outer ∧
      refused t = false := by
  rw [Catalog.grantFirst, mem_choices_four hrefused]
  constructor
  · rintro ⟨g, hg, m, hm, u, hu, k, hk, rfl, hdone⟩
    exact ⟨⟨u, m, g, k⟩, ⟨hu, hm, hg, hk⟩, rfl, hdone⟩
  · rintro ⟨⟨u, m, g, k⟩, ⟨hu, hm, hg, hk⟩, rfl, hdone⟩
    exact ⟨g, hg, m, hm, u, hu, k, hk, rfl, hdone⟩

end Choices

/-! ## Checks and filters -/

section Queries

variable {c : Catalog} {name zone space level type : String}

/-- The tables of a check. -/
def checkSources : List Source :=
  [⟨"r_user_main", "um"⟩, ⟨"r_user_group", "ug"⟩, ⟨"r_objt_access", "oa"⟩, ⟨"r_tokn_main", "tm"⟩]

/-- The tables of a filter. -/
def filterSources : List Source :=
  [⟨"r_objt_access", "oa"⟩, ⟨"r_user_group", "ug"⟩, ⟨"r_user_main", "um"⟩, ⟨"r_tokn_main", "tm"⟩]

/-- The query of a check. -/
def checkQuery (name zone object space level : String) : Query where
  distinct := false
  outputs := [.countRows]
  sources := checkSources
  condition := Selection.conjunction (Route.checkTerms name zone (.text object) space level)
  groupBy := []
  orderBy := []
  limit := none

/-- A check counts the routes that lead to the object. -/
theorem mem_matching_check {object : String} {t : Scope} :
    t ∈ (checkQuery name zone object space level).matching c.relation? ↔ ∃ r : Route, r.In c ∧
      t = [r.userEntry, r.membershipEntry, r.grantEntry, r.tokenEntry] ∧
      r.Leads name zone space level ∧ Denotes object r.grant.object := by
  obtain ⟨g, hg⟩ : ∃ g, Selection.conjunction
      (Route.checkTerms name zone (.text object) space level) = some g := ⟨_, rfl⟩
  have hmatching : (checkQuery name zone object space level).matching c.relation?
      = choices (fun t => g.truth c.relation? t == some false) [] [] c.userFirst := by
    simp only [Query.matching, checkQuery, hg]
    rfl
  rw [hmatching, mem_choices_userFirst (Selection.lasting_conjunction hg Route.isConjunction_check)]
  refine exists_congr fun r => and_congr_right fun _ => and_congr_right ?_
  rintro rfl
  have hshown := r.shownIn_userFirst
  rw [Selection.refused_conjunction hg (hshown.decided rfl)]
  exact hshown.truth rfl

/-- The formula of a filter on a column. -/
def filterFormula (k : ColumnRef) (condition : Formula) : Formula :=
  .inRows false (.column k) ⟨none, "object_id"⟩ filterSources condition

/-- A column of another source is found behind those of a route. -/
theorem lookup_outer {b column : String} (hb : b ∉ ["oa", "ug", "um", "tm"]) (r : Route)
    (outer : Scope) :
    Scope.lookup (r.grantEntry :: r.membershipEntry :: r.userEntry :: r.tokenEntry :: outer)
      ⟨some b, column⟩ = outer.lookup ⟨some b, column⟩ := by
  simp only [List.mem_cons, List.not_mem_nil, or_false, not_or] at hb
  simp [Scope.lookup, ScopeEntry.column?, Route.grantEntry, Route.membershipEntry, Route.userEntry,
    Route.tokenEntry, hb]

/-- A filter lets a row pass if a route leads to its object, from a user of another type. -/
theorem truth_filter (c : Catalog) {b column : String} (hb : b ∉ ["oa", "ug", "um", "tm"])
    {s : Scope} {n : Int} (hs : s.lookup ⟨some b, column⟩ = some ⟨.int n, .numeric⟩) {g : Formula}
    (hg : Selection.conjunction (Route.filterTerms name zone type (.column ⟨some b, column⟩) space
      level) = some g) :
    ∃ admitted, (filterFormula ⟨some b, column⟩ g).truth c.relation? s = some admitted ∧
      (admitted = true ↔ ∃ r : Route, r.In c ∧ r.Leads name zone space level ∧
        r.user.type ≠ type ∧ r.grant.object = n) := by
  have hconjunction : ∀ f ∈ Route.filterTerms name zone type (.column ⟨some b, column⟩) space level,
      f.IsConjunction :=
    Route.forall_mem_filterTerms.mpr ⟨.compare _ _ _, Route.isConjunction_check⟩
  have htruth : (filterFormula ⟨some b, column⟩ g).truth c.relation? s
      = some ((choices (fun t => g.truth c.relation? t == some false) s [] c.grantFirst).any fun t =>
        (t.lookup ⟨none, "object_id"⟩).any fun y =>
          Comparison.eq.holds ⟨.int n, .numeric⟩ y) := by
    rw [filterFormula, Formula.truth, Operand.eval, hs]
    simp
    rfl
  have hroute : ∀ r : Route, (g.truth c.relation? (r.grantEntry :: r.membershipEntry :: r.userEntry ::
      r.tokenEntry :: s) == some false) = false ↔
        r.user.type ≠ type ∧ r.Leads name zone space level ∧ r.grant.object = n := by
    intro r
    have hshown := r.shownIn_grantFirst s
    have hobject : (Operand.column ⟨some b, column⟩).eval (r.grantEntry :: r.membershipEntry ::
        r.userEntry :: r.tokenEntry :: s) = some ⟨.int n, .numeric⟩ :=
      (lookup_outer hb r s).trans hs
    rw [Selection.refused_conjunction hg (Route.forall_mem_filterTerms.mpr
        ⟨⟨_, Route.truth_text hshown.userType⟩, hshown.decided hobject⟩),
      Route.forall_mem_filterTerms, hshown.truth_type, hshown.truth hobject, Comparison.holds_int,
      Comparison.eq_admits]
  refine ⟨_, htruth, ?_⟩
  simp only [List.any_eq_true, mem_choices_grantFirst (Selection.lasting_conjunction hg hconjunction)]
  constructor
  · rintro ⟨_, ⟨r, hr, rfl, hall⟩, -⟩
    obtain ⟨htype, hleads, hobject⟩ := (hroute r).mp hall
    exact ⟨r, hr, hleads, htype, hobject⟩
  · rintro ⟨r, hr, hleads, htype, hobject⟩
    refine ⟨_, ⟨r, hr, rfl, (hroute r).mpr ⟨htype, hleads, hobject⟩⟩, ?_⟩
    -- The object of the grant is what the inner query selects.
    show Comparison.eq.holds ⟨.int n, .numeric⟩ ⟨.int r.grant.object, .numeric⟩ = true
    rw [Comparison.holds_int, Comparison.eq_admits, hobject]

end Queries

end CatalogQuery
