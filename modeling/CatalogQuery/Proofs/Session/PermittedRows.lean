import CatalogQuery.Proofs.Catalog.StoreAccount
import CatalogQuery.Proofs.Session.AskingCursor
import CatalogQuery.Proofs.Session.Runs
import Mathlib.Data.List.Induction

/-!
# Permitted rows

No row is delivered for whose object the catalog does not grant what the request demands. A request
that selects no object id by itself is refused before the backend is called; of any other, each call
has the outcome that it has if the catalog is asked for each row of the page, in any run of the
service.

* `AskingCursor.Takes`: what a call can come to;
* `AskingCursor.leftAfter`, `leftAfter_eq_some`: the rows left after some calls, and which they are;
* `AskingCursor.Guards`, `guards_turn`: what is to be said of one call, and that it follows;
* `Service.Stands`: the cursor of a request in the course of a run;
* `RowChecker.make_refused`, `RowChecker.make_first`: the checker of a request;
* `Service.rows_permitted`: all calls for the rows of a request.
-/

namespace CatalogQuery

variable {σ : Type} {b : Backend σ} {a : Account σ} {grants : Grants}

/-! ## What a cursor that asks delivers -/

namespace AskingCursor

variable {g : AskingCursor} {rows rows' : List (List String)} {left : Option (List (List String))}
  {n : Int} {ns : List Int}

/-- The rows have the width of the pages. -/
def Fit (g : AskingCursor) (rows : List (List String)) : Prop :=
  ∀ row ∈ rows, row.length = g.columns.length

/-- The catalog grants what is demanded, for each of the rows. -/
def AllPermitted (grants : Grants) (g : AskingCursor) (rows : List (List String)) : Prop :=
  ∀ row ∈ rows, g.checker.permits grants row = true

/-- What a call for `n` rows can come to when `left` are left: its outcome, and what is left then. -/
inductive Takes (grants : Grants) (g : AskingCursor) (left : Option (List (List String)))
    (n : Int) : Except QueryError Delivery × Option (List (List String)) → Prop where
  | closes : n ≤ 0 → Takes grants g left n (.ok (.final [] g.settings none .closed), none)
  | gone : left = none → Takes grants g left n (.error (.cursorNotFound g.token), none)
  | denied {rows : List (List String)} {row : List String} : left = some rows →
    row ∈ rows.take n.toNat → g.checker.permits grants row = false →
    Takes grants g left n (.error (g.checker.denial (g.checker.objectOf row)), none)
  | full {message : String} : Takes grants g left n (.error (.resource message), none)
  | last {rows : List (List String)} {d : Delivery} : left = some rows →
    d.page.rows = rows.take n.toNat → AllPermitted grants g (rows.take n.toNat) →
    Takes grants g left n (.ok d, none)
  | more {rows : List (List String)} {d : Delivery} : 0 < n → left = some rows →
    d.page.rows = rows.take n.toNat → AllPermitted grants g (rows.take n.toNat) →
    Takes grants g left n (.ok d, some (rows.drop n.toNat))

theorem takes_turn (hfit : ∀ rows, left = some rows → g.Fit rows) :
    Takes grants g left n (g.turn grants left n) := by
  unfold turn
  split
  · next hrows => exact .closes hrows
  · next hrows =>
    split
    · exact .gone rfl
    · next rows =>
      unfold page
      split
      · next err hchecked =>
        have hempty : ∀ row ∈ rows.take n.toNat,
            row.length = (Page.empty g.columns g.settings).columns.length := by
          intro row hrow
          simpa [Page.empty] using hfit rows rfl row (List.mem_of_mem_take hrow)
        rcases Page.pushChecked_error hempty hchecked with ⟨row, hrow, hask⟩ | ⟨message, rfl⟩
        · obtain ⟨hdenied, rfl⟩ := RowChecker.ask_eq_error hask
          exact .denied rfl hrow hdenied
        · exact .full
      · next page hchecked =>
        obtain ⟨hall, hpushed⟩ := Page.pushChecked_ok hchecked
        have hpage := (Page.rows_of_pushAll hpushed).1
        have hpermitted : AllPermitted grants g (rows.take n.toNat) := fun row hrow =>
          RowChecker.ask_eq_ok.mp (hall row hrow)
        split
        · exact .last rfl hpage hpermitted
        · exact .more (Int.not_le.mp hrows) rfl hpage hpermitted

theorem Takes.more_left {out : Except QueryError Delivery}
    (h : Takes grants g left n (out, some rows')) :
    0 < n ∧ ∃ rows, left = some rows ∧ rows' = rows.drop n.toNat ∧
      AllPermitted grants g (rows.take n.toNat) := by
  cases h with
  | more hrows hleft _ hpermitted => exact ⟨hrows, _, hleft, rfl, hpermitted⟩

/-- What is left after calls for these numbers of rows. -/
def leftAfter (g : AskingCursor) (grants : Grants) (left : Option (List (List String)))
    (ns : List Int) : Option (List (List String)) :=
  ns.foldl (fun left n => (g.turn grants left n).2) left

/-- A cursor that is still there was never asked for no rows; it has delivered as many rows as it
was asked for, and all of them are permitted. -/
theorem leftAfter_eq_some (hfit : g.Fit rows) (h : g.leftAfter grants (some rows) ns = some rows') :
    (∀ n ∈ ns, 0 < n) ∧ rows' = rows.drop (ns.map Int.toNat).sum ∧
      AllPermitted grants g (rows.take (ns.map Int.toNat).sum) := by
  induction ns using List.reverseRecOn generalizing rows' with
  | nil =>
    cases h
    exact ⟨nofun, rfl, nofun⟩
  | append_singleton ns n ih =>
    rw [leftAfter, List.foldl_append] at h
    change (g.turn grants (g.leftAfter grants (some rows) ns) n).2 = some rows' at h
    have hbefore : ∀ before, g.leftAfter grants (some rows) ns = some before → g.Fit before := by
      intro before hbefore row hrow
      rw [(ih hbefore).2.1] at hrow
      exact hfit row (List.mem_of_mem_drop hrow)
    have htakes : Takes grants g (g.leftAfter grants (some rows) ns) n
        ((g.turn grants (g.leftAfter grants (some rows) ns) n).1, some rows') := by
      rw [← h]
      exact takes_turn hbefore
    obtain ⟨hrows, before, hleft, rfl, hpermitted⟩ := htakes.more_left
    obtain ⟨hothers, rfl, hearlier⟩ := ih hleft
    rw [List.map_append, List.sum_append, List.map_singleton, List.sum_singleton, List.take_add]
    refine ⟨?_, List.drop_drop, ?_⟩
    · exact List.forall_mem_append.mpr ⟨hothers, List.forall_mem_singleton.mpr hrows⟩
    · exact List.forall_mem_append.mpr ⟨hearlier, hpermitted⟩

theorem fit_leftAfter (hfit : g.Fit rows) (h : g.leftAfter grants (some rows) ns = some rows') :
    g.Fit rows' := by
  intro row hrow
  rw [(leftAfter_eq_some hfit h).2.1] at hrow
  exact hfit row (List.mem_of_mem_drop hrow)

/-- What is to be said of a call for `n` rows when `left` are left, of its outcome and of the
session behind it: the outcome is that of asking the catalog for each row; the object of every row
delivered has the grant; unless there is no room for the page, permission is denied exactly if one
of the next `n` rows does not have it; and then the cursor is gone. -/
structure Guards (grants : Grants) (g : AskingCursor) (left : Option (List (List String))) (n : Int)
    (out : Except QueryError Delivery) (s : Session σ) : Prop where
  same : out = (g.turn grants left n).1
  granted : ∀ d, out = .ok d → ∀ row ∈ d.page.rows, ∃ object,
    row[g.checker.objectColumn]? = some object ∧
      grants object g.checker.user g.checker.zone g.checker.level = true
  denied : (∀ message, out ≠ .error (.resource message)) →
    ((∃ reason, out = .error (.permissionDenied reason)) ↔
      ∃ rows, left = some rows ∧ ∃ row ∈ rows.take n.toNat, g.checker.permits grants row = false)
  closed : ∀ reason, out = .error (.permissionDenied reason) → s.cursors.find? g.token = none

/-- The object of a row that is permitted has the grant. -/
theorem object_granted (hposition : g.checker.objectColumn < g.columns.length) (hfit : g.Fit rows)
    {row : List String} (hrow : row ∈ rows) (hpermitted : g.checker.permits grants row = true) :
    ∃ object, row[g.checker.objectColumn]? = some object ∧
      grants object g.checker.user g.checker.zone g.checker.level = true := by
  have hlt : g.checker.objectColumn < row.length := by
    rw [hfit row hrow]
    exact hposition
  have hobject : row[g.checker.objectColumn]? = some row[g.checker.objectColumn] :=
    List.getElem?_eq_getElem hlt
  refine ⟨_, hobject, ?_⟩
  rwa [RowChecker.permits, RowChecker.objectOf, hobject] at hpermitted

theorem guards_turn {s : Session σ} (hposition : g.checker.objectColumn < g.columns.length)
    (hfit : ∀ rows, left = some rows → g.Fit rows)
    (hs : s.Stands grants a g (g.turn grants left n).2) :
    g.Guards grants left n (g.turn grants left n).1 s := by
  have htakes : Takes grants g left n (g.turn grants left n) := takes_turn hfit
  refine ⟨rfl, ?granted, ?denied, ?closed⟩
  all_goals generalize g.turn grants left n = taken at htakes hs
  case granted =>
    intro d hd row hrow
    cases htakes with
    | closes =>
      cases hd
      rw [Delivery.final, (Page.holds_empty [] g.settings).rows_eq] at hrow
      cases hrow
    | gone | denied | full => cases hd
    | last hleft hpage hpermitted | more _ hleft hpage hpermitted =>
      cases hd
      rw [hpage] at hrow
      have hwidth := hfit _ hleft
      exact object_granted hposition hwidth (List.mem_of_mem_take hrow) (hpermitted row hrow)
  case denied =>
    intro hroom
    cases htakes with
    | closes hrows =>
      have hnone : n.toNat = 0 := Int.toNat_of_nonpos hrows
      simp [hnone]
    | gone hleft => simp [hleft]
    | denied hleft hrow hdenied =>
      exact ⟨fun _ => ⟨_, hleft, _, hrow, hdenied⟩, fun _ => ⟨_, rfl⟩⟩
    | full => exact absurd rfl (hroom _)
    | last hleft _ hpermitted | more _ hleft _ hpermitted =>
      have hnone : ∀ row ∈ _, g.checker.permits grants row ≠ false := fun row hrow =>
        ne_false_of_eq_true (hpermitted row hrow)
      simpa [hleft] using hnone
  case closed =>
    intro reason hdenied
    cases htakes with
    | closes | last | more => cases hdenied
    | gone | denied | full => exact hs

end AskingCursor

/-! ## The cursor of a request in a run -/

/-- How many rows an action demands of the cursor of a token; none where it closes it. -/
def Action.demand? (token : Continuation) : Action → Option Int
  | .execute r => if r.continuation = token then some r.maxRows else none
  | .close t => if t = token then some 0 else none
  | _ => none

theorem Action.names_of_demand {token : Continuation} {action : Action}
    (h : action.demand? token = none) : action.names ≠ some token := by
  intro hnames
  cases action with
  | execute r =>
    simp only [names] at hnames
    split at hnames
    · simp [demand?, Option.some.inj hnames] at h
    · cases hnames
  | close t => simp [demand?, Option.some.inj hnames] at h
  | _ => cases hnames

namespace Service

variable {service : Service σ} {i : Nat} {g : AskingCursor} {left : Option (List (List String))}

/-- How many rows a call demands of the cursor of a token in session `i`. -/
def demand (i : Nat) (token : Continuation) (call : Nat × Action) : Option Int :=
  if call.1 = i then call.2.demand? token else none

/-- What a run demands of the cursor of a token in session `i`, call by call. -/
def demands (i : Nat) (token : Continuation) (calls : List (Nat × Action)) : List Int :=
  calls.filterMap (demand i token)

/-- The cursor of session `i` in the course of a run stands for `g` with these rows left. -/
structure Stands (grants : Grants) (a : Account σ) (i : Nat) (g : AskingCursor)
    (left : Option (List (List String))) (service : Service σ) : Prop where
  runs : service.Runs a
  pages : service.engine.pages = g.settings
  issued : g.token.number < service.engine.nextToken
  session : ∃ s, service.sessions[i]? = some s ∧ s.Stands grants a g left

/-- A call that demands nothing of the cursor leaves it where it is. -/
theorem Stands.idle (hb : b.Lawful a) (h : service.Stands grants a i g left) {call : Nat × Action}
    (hdemand : demand i g.token call = none) : (service.next b call).Stands grants a i g left := by
  have hgrows := next_grows b service call.1 call.2
  refine ⟨h.runs.next hb.orderly call, hgrows.pages.trans h.pages,
    Nat.lt_of_lt_of_le h.issued hgrows.token, next_session h.session ?_⟩
  rintro s action rfl hi hstands
  have hnames : action.names ≠ some g.token :=
    Action.names_of_demand (by simpa [demand] using hdemand)
  have hsound := h.runs.sound i s hi
  have hstep := call_step hb.orderly hsound action
  exact hstep.stands hsound hnames h.issued hstands

/-- A call that demands rows of the cursor is its next turn. -/
theorem Stands.turn (hb : b.Lawful a) (hanswers : b.AnswersBy a grants) (hcloses : b.Closes a)
    (htoken : g.token.isExhausted = false) (h : service.Stands grants a i g left)
    {call : Nat × Action} {n : Int} (hdemand : demand i g.token call = some n) :
    (service.next b call).Stands grants a i g (g.turn grants left n).2 := by
  obtain ⟨j, action⟩ := call
  obtain ⟨s, hi, hstands⟩ := h.session
  have hs := (h.runs.sound i s hi).valid
  have hgrows := next_grows b service j action
  refine ⟨h.runs.next hb.orderly (j, action), hgrows.pages.trans h.pages,
    Nat.lt_of_lt_of_le h.issued hgrows.token, ?_⟩
  obtain ⟨rfl, haction⟩ : j = i ∧ action.demand? g.token = some n := by
    simpa [demand] using hdemand
  refine ⟨_, next_self b action hi, ?_⟩
  cases action with
  | execute r =>
    obtain ⟨hr, rfl⟩ : r.continuation = g.token ∧ r.maxRows = n := by
      simpa [Action.demand?] using haction
    have hcontinues : r.isContinuation = true := by simp [Request.isContinuation, hr, htoken]
    exact (hstands.execute hb hanswers hcloses hs hcontinues hr h.pages).2
  | close t =>
    obtain ⟨rfl, rfl⟩ : t = g.token ∧ 0 = n := by simpa [Action.demand?] using haction
    exact (Session.close_gone hcloses hs g.token).2
  | _ => cases haction

theorem Stands.after (hb : b.Lawful a) (hanswers : b.AnswersBy a grants) (hcloses : b.Closes a)
    (htoken : g.token.isExhausted = false) (h : service.Stands grants a i g left)
    (calls : List (Nat × Action)) : (service.after b calls).Stands grants a i g
      (g.leftAfter grants left (demands i g.token calls)) := by
  induction calls generalizing service left with
  | nil => exact h
  | cons call calls ih =>
    cases hdemand : demand i g.token call with
    | none =>
      have hdemands : demands i g.token (call :: calls) = demands i g.token calls :=
        List.filterMap_cons_none hdemand
      rw [hdemands]
      exact ih (h.idle hb hdemand)
    | some n =>
      have hdemands : demands i g.token (call :: calls) = n :: demands i g.token calls :=
        List.filterMap_cons_some hdemand
      rw [hdemands]
      exact ih (h.turn hb hanswers hcloses htoken hdemand)

/-- Of a continuation in a run holds what is to be said of it. -/
theorem Stands.guards (hb : b.Lawful a) (hanswers : b.AnswersBy a grants) (hcloses : b.Closes a)
    (htoken : g.token.isExhausted = false) (h : service.Stands grants a i g left)
    (hposition : g.checker.objectColumn < g.columns.length)
    (hfit : ∀ rows, left = some rows → g.Fit rows) {s : Session σ}
    (hi : service.sessions[i]? = some s) {next : Request} (hnext : next.continuation = g.token) :
    g.Guards grants left next.maxRows (s.execute b service.engine next).1
      (s.execute b service.engine next).2.2 := by
  obtain ⟨s', hi', hstands⟩ := h.session
  obtain rfl : s' = s := Option.some.inj (hi'.symm.trans hi)
  have hcontinues : next.isContinuation = true := by simp [Request.isContinuation, hnext, htoken]
  obtain ⟨hout, hafter⟩ := hstands.execute hb hanswers hcloses (h.runs.sound i s' hi).valid
    hcontinues hnext h.pages
  rw [hout]
  exact g.guards_turn hposition hfit hafter

end Service

/-! ## The checker of a request -/

/-- The column names an object, and is not aggregated. -/
def Schema.IsObjectId (s : Schema) (c : SelectColumn) : Prop :=
  c.isPlain = true ∧ c.column ∈ s.conventions.objectIdColumns

instance (s : Schema) (c : SelectColumn) : Decidable (s.IsObjectId c) :=
  inferInstanceAs (Decidable (_ ∧ _))

/-- The first position at which an object id is selected. -/
structure Schema.FirstObjectId (s : Schema) (select : List SelectColumn) (position : Nat) :
    Prop where
  found : ∃ c, select[position]? = some c ∧ s.IsObjectId c
  first : ∀ i c, i < position → select[i]? = some c → ¬s.IsObjectId c

namespace RowChecker

variable {check : RowCheck} {zone : String} {s : Schema} {select : List SelectColumn}
  {position : Nat}

/-- A checker that has not decided yet. -/
def start (check : RowCheck) (localZone : String) (position : Nat) : RowChecker where
  user := check.user
  zone := if check.zone = "" then localZone else check.zone
  level := check.level
  objectColumn := position

theorem make_refused (huser : check.user ≠ "") (hnone : ∀ c ∈ select, ¬s.IsObjectId c) :
    make check zone s select = .error (.permissionDenied
      "permission check requires an object id column in the select list") := by
  have hfind : (select.findIdx? fun c =>
      c.isPlain && s.conventions.objectIdColumns.contains c.column) = none := by
    rw [List.findIdx?_eq_none_iff]
    intro c hc
    have hother := hnone c hc
    simpa [Schema.IsObjectId] using hother
  simp only [make, String.isEmpty_iff, huser, if_false, hfind]

theorem make_first (huser : check.user ≠ "") (hfirst : s.FirstObjectId select position) :
    make check zone s select = .ok (some (start check zone position)) := by
  obtain ⟨c, hc, hobject⟩ := hfirst.found
  obtain ⟨hlt, rfl⟩ := List.getElem?_eq_some_iff.mp hc
  have hfind : (select.findIdx? fun c =>
      c.isPlain && s.conventions.objectIdColumns.contains c.column) = some position := by
    rw [List.findIdx?_eq_some_iff_getElem]
    refine ⟨hlt, by simpa [Schema.IsObjectId] using hobject, fun i hi => ?_⟩
    have hother := hfirst.first i _ hi (List.getElem?_eq_getElem (Nat.lt_trans hi hlt))
    simpa [Schema.IsObjectId] using hother
  simp only [make, String.isEmpty_iff, huser, if_false, hfind, start]

end RowChecker

/-! ## Fresh requests -/

/-- The request without its row check. -/
def Request.unchecked (r : Request) : Request := { r with rowCheck := none }

variable {e : Engine} {s : Session σ} {r : Request} {check : RowCheck} {compiled : Compiled}
  {rows : List (List String)}

theorem Engine.select_of_compile {caller : Caller} (h : e.compile caller r = .ok compiled) :
    compiled.select = r.select := by
  obtain ⟨d, hd, -, links, -, rfl, -⟩ := Schema.compile_eq_ok.mp h
  exact Draft.map_selects_of_draft hd

/-- A request is refused before any backend is called if nothing selected names an object. -/
theorem execute_refused (hcompiles : e.compile s.caller r = .ok compiled)
    (hfresh : r.isContinuation = false) (hcheck : r.rowCheck = some check)
    (huser : check.user ≠ "") (hnone : ∀ c ∈ r.select, ¬e.schema.IsObjectId c) (b : Backend σ) :
    s.execute b e r = (.error (.permissionDenied
      "permission check requires an object id column in the select list"), e, s) := by
  have hchecks : e.checker r compiled = .error (.permissionDenied
      "permission check requires an object id column in the select list") := by
    rw [← Engine.select_of_compile hcompiles] at hnone
    simp only [Engine.checker, hcheck]
    exact RowChecker.make_refused huser hnone
  rw [Session.execute_of_fresh b e s hfresh, Session.executeFresh]
  simp only [bind, Except.bind]
  rw [hcompiles]
  simp only [hchecks]

/-- The cursor that a fresh request opens, if the catalog is asked for each row. -/
def AskingCursor.opened (e : Engine) (compiled : Compiled) (k : RowChecker) (total : Option Nat) :
    AskingCursor where
  token := ⟨e.nextToken⟩
  columns := compiled.columns
  settings := e.pages
  total := total
  checker := k

/-- The statement of the request is opened, and its first row, if it has one, fetched ahead, whether
or not rows are to be checked. -/
theorem opened_unchecked (hb : b.Lawful a) (hs : s.Sound a e)
    (h : Offers b a e s.caller r.unchecked compiled none rows) :
    ∃ total store₁ id store₂, countAhead b e r compiled s.store = (.ok total, store₁) ∧
      openStatement b e r compiled store₁ = (.ok (id, (rows.drop r.offset).head?), store₂) ∧
      a.valid store₂ ∧ a.view store₂ id = .holding (rows.drop r.offset).tail := by
  obtain ⟨total, store₁, hcount, hs₁⟩ := h.countAhead_ok hb hs.valid
  obtain ⟨id, store₂, hopen, hs₂, hview⟩ := h.openStatement_ok hb hs₁
  exact ⟨total, store₁, id, store₂, hcount, hopen, hs₂, hview⟩

/-- A fresh request that finds no rows says so. -/
theorem executeFresh_noRows {checker : Option RowChecker} (hb : b.Lawful a) (hs : s.Sound a e)
    (h : Offers b a e s.caller r.unchecked compiled none rows)
    (hchecks : e.checker r compiled = .ok checker) (hnone : rows.length ≤ r.offset) :
    ∃ total, (s.executeFresh b e r).1 = .error (.noRows total) := by
  have hcompiles : e.compile s.caller r = .ok compiled := h.compiles
  obtain ⟨total, store₁, id, store₂, hcount, hopen, -⟩ := opened_unchecked hb hs h
  rw [List.drop_eq_nil_of_le hnone] at hopen
  unfold Session.executeFresh
  rw [hcompiles]
  simp only [bind, Except.bind, hchecks, pure, Except.pure]
  rw [hcount]
  dsimp only
  rw [hopen]
  exact ⟨_, rfl⟩

/-- A fresh request that finds rows is the first turn of the cursor that it opens. -/
theorem executeFresh_stands {k : RowChecker} (hb : b.Lawful a) (hanswers : b.AnswersBy a grants)
    (hs : s.Sound a e) (h : Offers b a e s.caller r.unchecked compiled none rows)
    (hchecks : e.checker r compiled = .ok (some k)) (hfound : r.offset < rows.length) :
    ∃ total, (r.maxRows ≤ 0 → (s.executeFresh b e r).1 =
        .ok (.final compiled.columns e.pages total .exhausted)) ∧
      (0 < r.maxRows →
        (s.executeFresh b e r).1 = ((AskingCursor.opened e compiled k total).turn grants
          (some (rows.drop r.offset)) r.maxRows).1 ∧
        (s.executeFresh b e r).2.1.nextToken = e.nextToken + 1 ∧
        (s.executeFresh b e r).2.2.Stands grants a (.opened e compiled k total)
          ((AskingCursor.opened e compiled k total).turn grants
            (some (rows.drop r.offset)) r.maxRows).2) := by
  obtain ⟨first, left, hleft⟩ : ∃ first left, rows.drop r.offset = first :: left :=
    ⟨_, _, List.drop_eq_getElem_cons hfound⟩
  obtain ⟨total, store₁, id, store₂, hcount, hopen, hs₂, hview₂⟩ := opened_unchecked hb hs h
  rw [hleft] at hopen hview₂
  obtain ⟨total', store₃, htotal, hs₃, hview₃⟩ : ∃ total' store', totalOfRows b r id total store₂ =
    (.ok total', store') ∧ _ ∧ _ := h.totalOfRows_ok hb hs₂ hview₂ total
  have hcompiles : e.compile s.caller r = .ok compiled := h.compiles
  have hfresh := Session.executeFresh_eq hcompiles hchecks hcount hopen htotal
  refine ⟨total', fun hrows => ?_, fun hrows => ?_⟩
  · rw [hfresh, if_pos hrows]
  · let c : Cursor := ⟨id, compiled.columns, some k, some first, 0, total'⟩
    have hstands : c.Stands grants a store₃ (.opened e compiled k total') (rows.drop r.offset) := by
      refine ⟨⟨left, hview₃, hleft.symm⟩, rfl, rfl, ⟨k, rfl, .of_fresh (checker_last hchecks)⟩, ?_⟩
      rw [List.length_drop]
      omega
    have hpositive : 0 < r.maxRows.toNat := by omega
    obtain ⟨hout, hafter⟩ := Session.deliverPage_stands (b := b) (s := { s with store := store₃ })
      hb hanswers hs₃ hs.find?_nextToken hpositive hstands
    rw [hfresh, if_neg (Int.not_le.mpr hrows), AskingCursor.turn, if_neg (Int.not_le.mpr hrows)]
    exact ⟨hout, rfl, hafter⟩

/-! ## All calls for a request -/

namespace Service

variable {service : Service σ} {i : Nat}

/-- The cursor of a fresh request stands for one that asks for each row, from the request on. -/
theorem opens_stands {k : RowChecker} {total : Option Nat}
    {left : Option (List (List String))} (hb : b.Lawful a) (hruns : service.Runs a)
    (hi : service.sessions[i]? = some s) (hfresh : r.isContinuation = false)
    (hissued : (s.executeFresh b service.engine r).2.1.nextToken = service.engine.nextToken + 1)
    (hstands : (s.executeFresh b service.engine r).2.2.Stands grants a
      (.opened service.engine compiled k total) left) :
    (service.next b (i, .execute r)).Stands grants a i (.opened service.engine compiled k total)
      left := by
  have hexecute := Session.execute_of_fresh b service.engine s hfresh
  have hcall : call b service.engine s (.execute r) =
      ((s.executeFresh b service.engine r).1.map .delivery,
        (s.executeFresh b service.engine r).2) := by
    rw [call, hexecute]
  have hgrows := next_grows b service i (.execute r)
  refine ⟨hruns.next hb.orderly _, hgrows.pages, ?_, _, next_self b _ hi, ?_⟩
  · rw [next_of_some b _ hi, hcall]
    exact hissued ▸ Nat.lt_succ_self _
  · rw [hcall]
    exact hstands

/-- No row is delivered without permission. A request whose check names a user is refused, without
any call of the backend, if it selects no object id by itself; else the first one selected is the
object of a row. Each call for rows of the request, in any run, has the outcome that it has if the
catalog is asked for each row: what is delivered is permitted, and permission is denied exactly if
one of the next rows is. -/
theorem rows_permitted (hb : b.Lawful a) (hanswers : b.AnswersBy a grants) (hcloses : b.Closes a)
    (hreached : service.Reached b a) (hi : service.sessions[i]? = some s)
    (h : Offers b a service.engine s.caller r.unchecked compiled none rows)
    (hfresh : r.isContinuation = false) (hcheck : r.rowCheck = some check)
    (huser : check.user ≠ "") :
    ((∀ c ∈ r.select, ¬service.engine.schema.IsObjectId c) → ∀ b' : Backend σ,
      s.execute b' service.engine r = (.error (.permissionDenied
        "permission check requires an object id column in the select list"), service.engine, s)) ∧
    ∀ position, service.engine.schema.FirstObjectId r.select position → ∃ total,
      let g := AskingCursor.opened service.engine compiled
        (.start check service.engine.access.localZone position) total
      let left := some (rows.drop r.offset)
      (rows.length ≤ r.offset → (s.execute b service.engine r).1 = .error (.noRows total)) ∧
      (r.offset < rows.length → r.maxRows ≤ 0 → (s.execute b service.engine r).1 =
        .ok (.final g.columns g.settings total .exhausted)) ∧
      (r.offset < rows.length → 0 < r.maxRows →
        g.Guards grants left r.maxRows (s.execute b service.engine r).1
          (s.execute b service.engine r).2.2 ∧
        ∀ later service', service' = (service.next b (i, .execute r)).after b later →
          let asked := r.maxRows :: demands i g.token later
          (∀ rows', g.leftAfter grants left asked = some rows' →
            rows' = rows.drop (r.offset + (asked.map Int.toNat).sum)) ∧
          ∃ s', service'.sessions[i]? = some s' ∧ ∀ next, next.continuation = g.token →
            g.Guards grants (g.leftAfter grants left asked) next.maxRows
              (s'.execute b service'.engine next).1 (s'.execute b service'.engine next).2.2) := by
  have hcompiles : service.engine.compile s.caller r = .ok compiled := h.compiles
  have hselect := Engine.select_of_compile hcompiles
  have hruns := hreached.runs hb
  have hs := hruns.sound i s hi
  have hexecute := Session.execute_of_fresh b service.engine s hfresh
  refine ⟨execute_refused hcompiles hfresh hcheck huser, fun position hfirst => ?_⟩
  have hchecks : service.engine.checker r compiled =
      .ok (some (.start check service.engine.access.localZone position)) := by
    simp only [Engine.checker, hcheck, hselect]
    exact RowChecker.make_first huser hfirst
  rw [hexecute]
  by_cases hfound : r.offset < rows.length
  · obtain ⟨total, hempty, hpages⟩ := executeFresh_stands hb hanswers hs h hchecks hfound
    refine ⟨total, fun hnone => absurd hfound (Nat.not_lt.mpr hnone), fun _ => hempty,
      fun _ hrows => ?_⟩
    obtain ⟨hout, hissued, hstands⟩ := hpages hrows
    let g := AskingCursor.opened service.engine compiled
      (.start check service.engine.access.localZone position) total
    have hposition : g.checker.objectColumn < g.columns.length := by
      obtain ⟨c, hc, -⟩ := hfirst.found
      show position < compiled.columns.length
      rw [Compiled.columns, List.length_map, hselect]
      exact (List.getElem?_eq_some_iff.mp hc).1
    have hfit : g.Fit (rows.drop r.offset) := h.columns_width
    constructor
    · rw [hout]
      refine g.guards_turn hposition (fun rows' hrows' => ?_) hstands
      cases hrows'
      exact hfit
    · rintro later service' rfl
      have htoken : g.token.isExhausted = false := by
        simpa [g, AskingCursor.opened, Continuation.isExhausted] using Nat.ne_of_gt hruns.token
      have hopened := opens_stands hb hruns hi hfresh hissued hstands
      have hrun : ((service.next b (i, .execute r)).after b later).Stands grants a i g
          (g.leftAfter grants (some (rows.drop r.offset)) (r.maxRows :: demands i g.token later)) :=
        hopened.after hb hanswers hcloses htoken later
      obtain ⟨s', hi', -⟩ := hrun.session
      refine ⟨fun rows' hrows' => ?_, s', hi', fun next hnext => ?_⟩
      · rw [(g.leftAfter_eq_some hfit hrows').2.1, List.drop_drop]
      · exact hrun.guards hb hanswers hcloses htoken hposition
          (fun rows' hrows' => g.fit_leftAfter hfit hrows') hi' hnext
  · obtain ⟨total, hnone⟩ := executeFresh_noRows hb hs h hchecks (Nat.not_lt.mp hfound)
    exact ⟨total, fun _ => hnone, fun hfound' => absurd hfound' hfound,
      fun hfound' => absurd hfound' hfound⟩

/-! ### Links of objects that are not all permitted -/

/-- A store that leaves questions of access to a permission catalog of its own. -/
def permittedStore (grants : Grants) : Backend Store where
  run := Store.run
  fetch := Store.fetch
  rowCount := Store.rowCount
  close := Store.close
  scalar := Store.scalar
  access := fun object user zone level store => (.ok (grants object user zone level), store)

theorem permittedStore_lawful (grants : Grants) (d : Database) (chain : GrantChain) :
    (permittedStore grants).Lawful (Store.account d chain) where
  run_ok := (Store.backend_lawful d chain).run_ok
  run_error := (Store.backend_lawful d chain).run_error
  fetch := (Store.backend_lawful d chain).fetch
  fetch_row := (Store.backend_lawful d chain).fetch_row
  rowCount := (Store.backend_lawful d chain).rowCount
  close := (Store.backend_lawful d chain).close
  scalar := (Store.backend_lawful d chain).scalar
  access _ _ _ _ _ hs := .refl hs

def linksEngine : Engine where
  schema := ⟨{}, [⟨"r_objt_metamap", "r_objt_metamap", false⟩],
    [⟨⟨1⟩, 0, "meta_id"⟩, ⟨⟨2⟩, 0, "object_id"⟩], [],
    { Conventions.blank with objectIdColumns := [⟨2⟩] }⟩
  dialect := .sqlite
  access := { localZone := "home" }

def linked : Database :=
  .catalog { attributeLinks := [⟨10, 7⟩, ⟨10, 8⟩, ⟨10, 9⟩, ⟨20, 7⟩, ⟨30, 7⟩] }

def linksService : Service Store :=
  ⟨linksEngine, List.replicate 2 (Session.start .unknown { database := linked })⟩

/-- All objects but one, in the local zone. -/
def allButOne : Grants := fun object _ zone _ => object != "20" && zone == "home"

def linksRequest : Request where
  select := [⟨⟨1⟩, .none, .none⟩, ⟨⟨2⟩, .none, .asc⟩]
  maxRows := 2
  rowCheck := some ⟨"alice", "", .read⟩

def linksCompiled : Compiled where
  statement := ⟨"select distinct r_objt_metamap.meta_id, r_objt_metamap.object_id "
    ++ "from r_objt_metamap order by r_objt_metamap.object_id", []⟩
  count := ⟨"select count(*) from (select distinct r_objt_metamap.meta_id, "
    ++ "r_objt_metamap.object_id from r_objt_metamap) genquery_count", []⟩
  sources := ["r_objt_metamap"]
  joins := 0
  select := linksRequest.select

def links : List (List String) := [["7", "10"], ["8", "10"], ["9", "10"], ["7", "20"], ["7", "30"]]

theorem offers_links : Offers (permittedStore allButOne) (Store.account linked .standard)
    linksEngine .unknown linksRequest.unchecked linksCompiled none links := by
  have hcompiles : linksEngine.compile .unknown linksRequest.unchecked = .ok linksCompiled := by
    decide +kernel
  have hrun : linked.run linksCompiled.statement.sql linksCompiled.statement.binds =
      .ok [[.int 7, .int 10], [.int 8, .int 10], [.int 9, .int 10], [.int 7, .int 20],
        [.int 7, .int 30]] := by decide +kernel
  have hstore : Offers Store.backend (Store.account linked .standard) linksEngine .unknown
      linksRequest.unchecked linksCompiled none links :=
    Store.offers hcompiles rfl nofun hrun rfl (by decide) nofun
  exact { hstore with granted := nofun }

/-- The service after the request and these calls. -/
def linksAfter (later : List (Nat × Action)) : Service Store :=
  (linksService.next (permittedStore allButOne) (0, .execute linksRequest)).after
    (permittedStore allButOne) later

def linksLater : List (Nat × Action) :=
  [(1, .execute (.next ⟨1⟩ 7)), (0, .identify ⟨"bob", "away", .localUser⟩)]

/-- The first page is full of rows of one object; on the second a row is denied, and then there is
no cursor. -/
theorem links_permitted :
    ((Session.start .unknown { database := linked }).execute (permittedStore allButOne) linksEngine
      linksRequest).1.map (·.page.rows) = .ok [["7", "10"], ["8", "10"]] ∧
    (linksAfter linksLater).turn? (permittedStore allButOne) (0, .execute (.next ⟨1⟩ 2)) =
      some (.error (.permissionDenied "alice#home lacks 'read object' on object 20")) ∧
    (linksAfter (linksLater ++ [(0, .execute (.next ⟨1⟩ 2))])).turn? (permittedStore allButOne)
      (0, .execute (.next ⟨1⟩ 2)) = some (.error (.cursorNotFound ⟨1⟩)) := by
  have hstart : linksService.Starts (Store.account linked .standard) := by
    refine ⟨by decide, fun s hs => ?_⟩
    rw [List.eq_of_mem_replicate hs]
    exact ⟨rfl, Store.valid_start _ _⟩
  have hi : linksService.sessions[0]? =
      some (Session.start .unknown { database := linked }) := rfl
  have hfirst : linksEngine.schema.FirstObjectId linksRequest.select 1 := by
    refine ⟨⟨_, rfl, by decide⟩, fun i c hi hc => ?_⟩
    obtain rfl : i = 0 := by omega
    cases hc
    decide
  obtain ⟨total, -, -, hall⟩ := (rows_permitted (permittedStore_lawful allButOne linked .standard)
    (fun _ _ _ _ _ _ => rfl) (fun _ _ _ => rfl) (.start hstart) hi offers_links rfl rfl
    (by decide)).2 1 hfirst
  obtain ⟨-, hlater⟩ := hall (by decide) (by decide)
  obtain ⟨-, s', hi', hdenied⟩ := hlater linksLater _ rfl
  obtain ⟨-, s'', hi'', hgone⟩ := hlater (linksLater ++ [(0, .execute (.next ⟨1⟩ 2))]) _ rfl
  refine ⟨by decide +kernel, ?_, ?_⟩
  · rw [linksAfter, turn?_execute _ _ hi', (hdenied (.next ⟨1⟩ 2) rfl).same]
    rfl
  · rw [linksAfter, turn?_execute _ _ hi'', (hgone (.next ⟨1⟩ 2) rfl).same]
    rfl

end Service

end CatalogQuery
