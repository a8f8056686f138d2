import CatalogQuery.Proofs.Catalog.StoreAccount
import CatalogQuery.Proofs.Compile.Compiles
import CatalogQuery.Proofs.Session.Runs

/-!
# Total counts

A request may ask for the number of all its rows. There are four ways to it: a statement that counts
them, the rows of the opened statement and those before them, the statement without its offset, or
none at all when nothing was found at offset 0. All give the same number, and the cursor keeps it.

* `Counted`: what is asked of a backend for one request;
* `Tells`: what the answer to the request says of the total;
* `executeFresh_counted`: the answer, and what its cursor keeps;
* `Service.total_told`: the same number on every later page.
-/

namespace CatalogQuery

variable {σ : Type} {b : Backend σ} {a : Account σ} {store : σ}

/-! ## Pages that may be withheld -/

/-- A request has its rows checked if it names the user who is to read them. -/
def Request.checksRows (r : Request) : Bool := r.rowCheck.any fun check => !check.user.isEmpty

/-- Why a page of these rows is not delivered though they could be read: they are to be checked and
one of them is denied, or they do not fit. -/
inductive Page.Withheld (p : Page) (rows : List (List String)) (checked : Bool) :
    QueryError → Prop where
  | denied {err : QueryError} : checked = true → err.kind = .permission →
      p.Withheld rows checked err
  | full {message : String} : p.pushAll rows = .error (.resource message) →
      p.Withheld rows checked (.resource message)

/-- What stops a page behind its first row stops it with that row. -/
theorem Page.Withheld.cons {p q : Page} {row : List String} {rows : List (List String)}
    {checked : Bool} {err : QueryError} (hpush : p.push row = (.ok (), q))
    (h : q.Withheld rows checked err) : p.Withheld (row :: rows) checked err := by
  cases h with
  | denied hchecked hkind => exact .denied hchecked hkind
  | full hfull =>
    refine .full ?_
    simp only [pushAll, hpush]
    exact hfull

/-- Access to an object can always be decided. -/
def Backend.Answers (b : Backend σ) (a : Account σ) : Prop :=
  ∀ object user zone level s, a.valid s → ∃ allowed, (b.access object user zone level s).1 = .ok allowed

theorem RowChecker.check_cases (hanswers : b.Answers a) (hs : a.valid store) (k : RowChecker)
    (row : List String) :
    (k.check b row store).1 = .ok () ∨
    ∃ err, (k.check b row store).1 = .error err ∧ err.kind = .permission := by
  have hask : ∃ allowed, (RowChecker.decide.ask b k (k.objectOf row) store).1 = .ok allowed := by
    obtain ⟨allowed, hallowed⟩ := hanswers (k.objectOf row) k.user k.zone k.level store hs
    unfold RowChecker.decide.ask
    split
    · exact ⟨_, rfl⟩
    · next heq =>
      rw [heq] at hallowed
      cases hallowed
  have hdecide : ∃ allowed, (k.decide b (k.objectOf row) store).1 = .ok allowed := by
    unfold RowChecker.decide
    split
    · split
      · exact ⟨_, rfl⟩
      · exact hask
    · exact hask
  unfold RowChecker.check
  dsimp only
  split
  · exact .inl rfl
  · exact .inr ⟨_, rfl, rfl⟩
  · next heq =>
    rw [heq] at hdecide
    obtain ⟨_, hdecide⟩ := hdecide
    cases hdecide

namespace Cursor

variable {c : Cursor} {rows : List (List String)} {row : List String}

theorem checkRow_cases (hb : b.Lawful a) (hanswers : c.checker.isSome → b.Answers a)
    (hs : a.valid store) (hleft : c.Left a store rows) (row : List String) :
    (∃ c' store', c.checkRow b row store = (.ok (), c', store') ∧ a.valid store' ∧ c.Like c' ∧
      c'.checker.isSome = c.checker.isSome ∧ c'.Left a store' rows) ∨
    ∃ err c' store', c.checkRow b row store = (.error err, c', store') ∧ c.checker.isSome ∧
      err.kind = .permission := by
  unfold checkRow
  split
  · exact .inl ⟨c, store, rfl, hs, .refl c, rfl, hleft⟩
  · next k hk =>
    have hsome : c.checker.isSome := by rw [hk]; rfl
    have hkeeps := k.check_keeps hb.orderly hs row
    rcases k.check_cases (hanswers hsome) hs row with hok | ⟨err, herr, hkind⟩
    · refine .inl ⟨_, _, Prod.ext hok rfl, hkeeps.valid, ⟨rfl, rfl, rfl, rfl⟩, hsome.symm, ?_⟩
      exact hleft.like ⟨rfl, rfl, rfl, rfl⟩ rfl hkeeps
    · exact .inr ⟨err, _, _, Prod.ext herr rfl, hsome, hkind⟩

/-- A page takes all the rows that it may, unless it is withheld. -/
theorem fill_cases (hb : b.Lawful a) (hanswers : c.checker.isSome → b.Answers a) {n : Nat}
    {page : Page} (hs : a.valid store) (hleft : c.Left a store rows)
    (hwidth : ∀ row ∈ rows, row.length = page.columns.length) :
    (∃ c' page', (c.fill b n page store).1 = .ok (decide (rows.length < n), c', page') ∧
      c.Like c' ∧ page'.rowCount = page.rowCount + min n rows.length) ∨
    ∃ err, (c.fill b n page store).1 = .error err ∧
      page.Withheld (rows.take n) c.checker.isSome err := by
  induction n generalizing c page rows store with
  | zero => exact .inl ⟨c, page, rfl, .refl c, by simp⟩
  | succ n ih =>
    unfold fill
    cases rows with
    | nil =>
      obtain ⟨store', hnext, -, -⟩ := nextRow_none hb hs hleft
      rw [hnext]
      exact .inl ⟨c, page, by simp, .refl c, by simp⟩
    | cons row rows =>
      obtain ⟨c₁, store₁, hnext, hs₁, hlike₁, hchecker, hleft₁⟩ := nextRow_some hb hs hleft
      rw [hnext]
      dsimp only
      rw [← hchecker] at hanswers ⊢
      rcases checkRow_cases hb hanswers hs₁ hleft₁ row with
        ⟨c₂, store₂, hcheck, hs₂, hlike₂, hsome, hleft₂⟩ |
        ⟨err, c₂, store₂, hcheck, hsome, hkind⟩
      · rw [hcheck, ← hsome]
        dsimp only
        split
        · next heq =>
          obtain ⟨message, rfl⟩ := Page.push_refused (hwidth row List.mem_cons_self) heq
          refine .inr ⟨_, rfl, .full ?_⟩
          simp only [List.take_succ_cons, Page.pushAll, heq]
        · next page₁ heq =>
          obtain ⟨-, hcount, -, hcolumns⟩ := Page.push_ok heq
          have hwidth₁ : ∀ row ∈ rows, row.length = page₁.columns.length := by
            intro r hr
            rw [hwidth r (List.mem_cons_of_mem row hr), hcolumns]
          rw [← hsome] at hanswers
          rcases ih hanswers hs₂ hleft₂ hwidth₁ with
            ⟨c', page', hfill, hlike, hrest⟩ | ⟨err, hfill, hwithheld⟩
          · refine .inl ⟨c', page', ?_, (hlike₁.trans hlike₂).trans hlike, ?_⟩
            · rw [hfill]
              simp
            · rw [hrest, hcount, List.length_cons]
              omega
          · exact .inr ⟨err, hfill, hwithheld.cons heq⟩
      · rw [hcheck]
        exact .inr ⟨err, rfl, .denied hsome hkind⟩

/-- A delivery tells the total of its cursor. -/
theorem deliver_total (hb : b.Orderly a) (hs : a.valid store) {settings : PageSettings}
    {token : Continuation} {n : Nat} {d : Delivery}
    (h : (c.deliver b settings token n store).1 = .ok d) : d.total = c.total := by
  obtain ⟨-, hlike⟩ := c.fill_touches hb hs (n := n) (.empty c.columns settings)
  unfold deliver at h
  split at h
  · cases h
  · next heq =>
    have htotal := (hlike _ (congrArg (·.1) heq)).total
    dsimp only at h
    split at h
    · split at h
      · cases h
      · cases h
        exact htotal
    · cases h
      exact htotal

/-- A cursor that stays open goes on under its token. -/
theorem deliver_open {settings : PageSettings} {token : Continuation} {n : Nat} {d : Delivery}
    (h : (c.deliver b settings token n store).1 = .ok d) (hopen : d.state = .open) :
    d.continuation = token := by
  unfold deliver at h
  split at h
  · cases h
  · dsimp only at h
    split at h
    · split at h
      · cases h
      · cases h
        cases hopen
    · cases h
      rfl

/-- The first page of a cursor that has rows is delivered, unless it is withheld. -/
theorem deliver_cases_first (hb : b.Lawful a) (hanswers : c.checker.isSome → b.Answers a)
    (settings : PageSettings) (token : Continuation) {n : Nat} (hs : a.valid store) (hn : 0 < n)
    (hleft : c.Left a store (row :: rows))
    (hwidth : ∀ r ∈ row :: rows, r.length = c.columns.length) :
    (∃ d, (c.deliver b settings token n store).1 = .ok d) ∨
    ∃ err, (c.deliver b settings token n store).1 = .error err ∧
      (Page.empty c.columns settings).Withheld ((row :: rows).take n) c.checker.isSome err := by
  have hempty : ∀ r ∈ row :: rows, r.length = (Page.empty c.columns settings).columns.length := by
    intro r hr
    simpa [Page.empty] using hwidth r hr
  have hfill := fill_cases hb hanswers (n := n) hs hleft hempty
  unfold deliver
  split
  · next heq =>
    rw [heq] at hfill
    rcases hfill with ⟨_, _, hok, -⟩ | ⟨_, herr, hwithheld⟩
    · cases hok
    · cases herr
      exact .inr ⟨_, rfl, hwithheld⟩
  · next exhausted c' page' store' heq =>
    rw [heq] at hfill
    rcases hfill with ⟨_, _, hok, -, hcount⟩ | ⟨_, herr, -⟩
    · cases hok
      have hsome : c'.delivered + page'.rowCount ≠ 0 := by
        rw [hcount, List.length_cons]
        omega
      dsimp only
      rw [if_neg hsome]
      split <;> exact .inl ⟨_, rfl⟩
    · cases herr

end Cursor

/-! ## Ways to the total -/

namespace Backend

/-- The store after some fetches of one statement. -/
def fetched (b : Backend σ) (id : StatementId) : Nat → σ → σ
  | 0, store => store
  | n + 1, store => b.fetched id n (b.fetch id store).2

end Backend

/-- The request compiles, and the backend serves `rows` for it in any valid state, at its offset and
without one: a run opens a statement that holds the rows from there on, and however many of them were
fetched, the number of those it opened with can be had. A statement that counts gives the number of
all rows, which is one of 64 bits, and access can be decided where rows are to be checked. -/
structure Counted (b : Backend σ) (a : Account σ) (e : Engine) (caller : Caller) (r : Request)
    (compiled : Compiled) (rows : List (List String)) : Prop where
  compiles : e.compile caller r = .ok compiled
  serves : ∀ offset compiled', offset = r.offset ∨ offset = 0 →
    e.compile caller { r with offset := offset } = .ok compiled' → ∀ s, a.valid s →
    ∃ id s', b.run compiled'.statement.sql compiled'.statement.binds (e.dialect.skipRows offset) s
      = (.ok id, s') ∧ a.view s' id = .holding (rows.drop offset) ∧
      ∀ n, (b.rowCount id (b.fetched id n s')).1 = .ok (rows.length - offset)
  counts : e.dialect.countQuery = true → ∀ s, a.valid s →
    (b.scalar compiled.count.sql compiled.count.binds s).1 = .ok rows.length
  answers : r.checksRows → b.Answers a
  width : ∀ row ∈ rows, row.length = compiled.select.length
  bounded : rows.length < bound64

/-- What the answer to a request for `rows` tells of their number: it is told with those of the page
that was asked for, or without any when there are none behind the offset. The one answer that does
not tell it is that the page is withheld. -/
inductive Tells (r : Request) (page : Page) (rows : List (List String)) :
    Except QueryError Delivery → Prop where
  | rows {d : Delivery} : r.offset < rows.length → d.total = some rows.length →
      Tells r page rows (.ok d)
  | noRows : rows.length ≤ r.offset → Tells r page rows (.error (.noRows (some rows.length)))
  | withheld {err : QueryError} :
      page.Withheld ((rows.drop r.offset).take r.maxRows.toNat) r.checksRows err →
      Tells r page rows (.error err)

namespace Counted

variable {e : Engine} {caller : Caller} {r : Request} {compiled : Compiled}
  {rows : List (List String)}

/-- The number from a statement of its own. -/
theorem countAhead_eq (h : Counted b a e caller r compiled rows) (hb : b.Lawful a)
    (htotal : r.totalCount = true) (hs : a.valid store) :
    ∃ store', countAhead b e r compiled store =
      (.ok (if e.dialect.countQuery then some rows.length else none), store') ∧ a.valid store' := by
  have hkeeps := countAhead_keeps hb.orderly hs e r compiled
  refine ⟨_, Prod.ext ?_ rfl, hkeeps.valid⟩
  unfold countAhead
  cases hquery : e.dialect.countQuery with
  | false => simp
  | true =>
    have hcounts := h.counts hquery store hs
    simp only [htotal, Bool.and_self, if_true]
    split
    · next heq =>
      rw [heq] at hcounts
      cases hcounts
      rfl
    · next heq =>
      rw [heq] at hcounts
      cases hcounts

/-- The statement is opened, and its first row, if it has one, fetched ahead. -/
theorem openStatement_eq (h : Counted b a e caller r compiled rows) (hb : b.Lawful a)
    (hs : a.valid store) :
    ∃ id store', openStatement b e r compiled store = (.ok (id, (rows.drop r.offset).head?), store') ∧
      a.valid store' ∧ a.view store' id = .holding (rows.drop r.offset).tail ∧
      (b.rowCount id store').1 = .ok (rows.length - r.offset) := by
  obtain ⟨id, s₁, hrun, hview, hsizes⟩ := h.serves r.offset compiled (.inl rfl) h.compiles store hs
  obtain ⟨-, -, hkeeps⟩ := hb.run_ok hs hrun
  obtain ⟨hfirst, hfetched⟩ := hb.fetch_row hkeeps.valid hview
  refine ⟨id, (b.fetch id s₁).2, ?_, (hb.fetch id hkeeps.valid).keeps.valid, hfetched, hsizes 1⟩
  unfold openStatement
  rw [hrun]
  dsimp only
  split
  · next heq =>
    rw [heq] at hfirst
    cases hfirst
  · next heq =>
    rw [heq] at hfirst ⊢
    cases hfirst
    rfl

/-- The rows of the statement and those before them. -/
theorem totalOfRows_eq (h : Counted b a e caller r compiled rows) {id : StatementId}
    (hsize : (b.rowCount id store).1 = .ok (rows.length - r.offset)) (htotal : r.totalCount = true)
    (hfound : r.offset < rows.length) {total : Option Nat}
    (hknown : total = none ∨ total = some rows.length) :
    (totalOfRows b r id total store).1 = .ok (some rows.length) := by
  have hsum : (rows.length - r.offset + r.offset) % bound64 = rows.length := by
    rw [Nat.sub_add_cancel (Nat.le_of_lt hfound), Nat.mod_eq_of_lt h.bounded]
  unfold totalOfRows
  rcases hknown with rfl | rfl
  · simp only [htotal, Option.isNone_none, Bool.and_self, if_true]
    split
    · next heq =>
      rw [heq] at hsize
      cases hsize
      rw [hsum]
    · next heq =>
      rw [heq] at hsize
      cases hsize
  · simp

/-- The rows of the statement without the offset. -/
theorem recount_eq (h : Counted b a e caller r compiled rows) (hs : a.valid store) :
    (recount b e caller r store).1 = some rows.length := by
  obtain ⟨compiled', hcompiles, -, -⟩ : ∃ compiled', e.compile caller { r with offset := 0 } =
    .ok compiled' ∧ _ ∧ _ := Schema.compile_offset h.compiles 0
  obtain ⟨id, s₁, hrun, -, hsizes⟩ := h.serves 0 compiled' (.inr rfl) hcompiles store hs
  rw [e.dialect.skipRows_zero] at hrun
  have hsize : (b.rowCount id s₁).1 = .ok (rows.length - 0) := hsizes 0
  unfold recount
  rw [hcompiles]
  dsimp only
  rw [hrun]
  dsimp only
  rw [hsize]
  rfl

theorem totalOfNoRows_eq (h : Counted b a e caller r compiled rows) (hs : a.valid store)
    (htotal : r.totalCount = true) (hnone : rows.length ≤ r.offset) {total : Option Nat}
    (hknown : total = none ∨ total = some rows.length) :
    (totalOfNoRows b e caller r total store).1 = some rows.length := by
  unfold totalOfNoRows
  rcases hknown with rfl | rfl
  · simp only [htotal, Option.isNone_none, Bool.and_self, if_true]
    split
    · exact h.recount_eq hs
    · -- At offset 0 an answer without rows means that there are none.
      have hempty : rows.length = 0 := by omega
      rw [hempty]
  · simp

end Counted

namespace Store

variable {d : Database} {chain : GrantChain} {id : StatementId}

theorem count_fetch (id : StatementId) (s : Store) :
    ((fetch id s).2.find? id).map (·.count) = (s.find? id).map (·.count) := by
  unfold fetch
  split
  · rfl
  · next o hfind =>
    split
    · rfl
    · next left _ =>
      rw [find?_map_left, hfind]
      · simp only [Option.map_some]
        split <;> rfl
      · intro t
        split <;> rfl

theorem rowCount_fetched {count : Nat} (n : Nat) {s : Store}
    (h : (s.find? id).map (·.count) = some count) :
    (rowCount id (Store.backend.fetched id n s)).1 = .ok count := by
  induction n generalizing s with
  | zero =>
    obtain ⟨o, hfind, rfl⟩ := Option.map_eq_some_iff.mp h
    simp [Backend.fetched, rowCount, hfind]
  | succ n ih => exact ih ((count_fetch id s).trans h)

/-- Of what a database answers, its stores tell the number. -/
theorem counted {e : Engine} {caller : Caller} {r : Request} {compiled : Compiled}
    {rows : List (List String)} (hcompiles : e.compile caller r = .ok compiled)
    (hcounts : e.dialect.countQuery = true →
      d.scalar compiled.count.sql compiled.count.binds = .ok rows.length)
    (hruns : ∀ offset compiled', offset = r.offset ∨ offset = 0 →
      e.compile caller { r with offset := offset } = .ok compiled' →
      ∃ values, d.run compiled'.statement.sql compiled'.statement.binds = .ok values ∧
        (values.drop (e.dialect.skipRows offset)).map (fun row => row.map (·.shown))
          = rows.drop offset)
    (hunchecked : r.rowCheck = none) (hwidth : ∀ row ∈ rows, row.length = compiled.select.length)
    (hbounded : rows.length < bound64) :
    Counted backend (account d chain) e caller r compiled rows where
  compiles := hcompiles
  serves := by
    intro offset compiled' hoffset hcompiles' s hs
    obtain ⟨values, hrun, hshown⟩ := hruns offset compiled' hoffset hcompiles'
    have hfind := find?_open_self hs (rows.drop offset)
    refine ⟨⟨s.nextStatement⟩, (s.open_ (rows.drop offset)).2, ?_, ?_, fun n => ?_⟩
    · simp [backend, run, openRows, hs.1, hrun, hshown, open_]
    · exact view_eq_holding.mpr ⟨_, hfind, rfl⟩
    · apply rowCount_fetched
      simp [hfind]
  counts := by
    intro hquery s hs
    simpa [backend, scalar, hs.1] using hcounts hquery
  answers := by
    intro hchecks
    simp [Request.checksRows, hunchecked] at hchecks
  width := hwidth
  bounded := hbounded

end Store

/-! ## Fresh requests -/

variable {e : Engine} {r : Request} {compiled : Compiled} {rows : List (List String)}
  {s : Session σ}

/-- Rows are checked where the request asks for it. -/
theorem checker_isSome {checker : Option RowChecker} (h : e.checker r compiled = .ok checker) :
    checker.isSome = r.checksRows := by
  unfold Engine.checker at h
  unfold Request.checksRows
  split at h
  · next hcheck =>
    cases h
    simp [hcheck]
  · next check hcheck =>
    rw [hcheck, Option.any_some]
    unfold RowChecker.make at h
    split at h
    · next huser =>
      cases h
      simp [huser]
    · next huser =>
      split at h
      · cases h
      · cases h
        simp [huser]

/-- Rows that cannot be checked are denied. -/
theorem checker_denies {err : QueryError} (h : e.checker r compiled = .error err) :
    r.checksRows = true ∧ err.kind = .permission := by
  unfold Engine.checker at h
  split at h
  · cases h
  · next check hcheck =>
    unfold RowChecker.make at h
    split at h
    · cases h
    · next huser =>
      split at h
      · cases h
        exact ⟨by simp [Request.checksRows, hcheck, huser], rfl⟩
      · cases h

/-- The first page of a new cursor tells its total unless it is withheld, and the cursor keeps it. -/
theorem deliverPage_counted (hb : b.Lawful a) {settings : PageSettings} {token : Continuation}
    {c : Cursor} (hs : a.valid s.store) (hmax : 0 < r.maxRows) (hfound : r.offset < rows.length)
    (hleft : c.Left a s.store (rows.drop r.offset))
    (hwidth : ∀ row ∈ rows, row.length = c.columns.length) (htotal : c.total = some rows.length)
    (hchecks : c.checker.isSome = r.checksRows) (hanswers : r.checksRows → b.Answers a)
    (hnone : s.cursors.find? token = none) :
    Tells r (.empty c.columns settings) rows
      (s.deliverPage b settings token c r.maxRows.toNat).1 ∧
    ∀ c', (s.deliverPage b settings token c r.maxRows.toNat).2.cursors.find? token = some c' →
      c'.total = some rows.length := by
  have hn : 0 < r.maxRows.toNat := by omega
  unfold Session.deliverPage
  dsimp only
  constructor
  · rw [List.drop_eq_getElem_cons hfound] at hleft
    have hwidth' : ∀ row ∈ rows[r.offset] :: rows.drop (r.offset + 1),
        row.length = c.columns.length := by
      rw [← List.drop_eq_getElem_cons hfound]
      exact fun row hrow => hwidth row (List.mem_of_mem_drop hrow)
    rw [← hchecks] at hanswers
    rcases c.deliver_cases_first hb hanswers settings token hs hn hleft hwidth' with
      ⟨d, hd⟩ | ⟨err, herr, hwithheld⟩
    · rw [hd]
      exact .rows hfound ((c.deliver_total hb.orderly hs hd).trans htotal)
    · rw [herr]
      rw [hchecks, ← List.drop_eq_getElem_cons hfound] at hwithheld
      exact .withheld hwithheld
  · intro c' hc'
    rcases c.deliver_cases hb.orderly hs settings token r.maxRows.toNat with
      ⟨hgone, -⟩ | ⟨c₁, hback, -, hkept, -⟩
    · rw [hgone, hnone] at hc'
      cases hc'
    · rw [hback, Cursors.find?_put_self] at hc'
      cases hc'
      exact hkept.trans htotal

/-- The total is told, and a cursor opened for the request keeps it. -/
theorem executeFresh_counted (h : Counted b a e s.caller r compiled rows) (hb : b.Lawful a)
    (hs : s.Sound a e) (htotal : r.totalCount = true) :
    Tells r (.empty compiled.columns e.pages) rows (s.executeFresh b e r).1 ∧
    ∀ c, (s.executeFresh b e r).2.2.cursors.find? ⟨e.nextToken⟩ = some c →
      c.total = some rows.length := by
  have hnone : ∀ c, s.cursors.find? ⟨e.nextToken⟩ = some c → c.total = some rows.length := by
    intro c hc
    rw [hs.find?_nextToken] at hc
    cases hc
  obtain ⟨store₁, hcount, hs₁⟩ := h.countAhead_eq hb htotal hs.valid
  obtain ⟨id, store₂, hopen, hs₂, hview, hsize⟩ := h.openStatement_eq hb hs₁
  have hknown : (if e.dialect.countQuery then some rows.length else none) = none ∨
      (if e.dialect.countQuery then some rows.length else none) = some rows.length := by
    split
    · exact .inr rfl
    · exact .inl rfl
  unfold Session.executeFresh
  simp only [h.compiles, bind, Except.bind]
  cases hchecks : e.checker r compiled with
  | error err =>
    obtain ⟨hchecked, hkind⟩ := checker_denies hchecks
    exact ⟨.withheld (.denied hchecked hkind), hnone⟩
  | ok checker =>
    simp only [pure, Except.pure]
    rw [hcount]
    dsimp only
    rw [hopen]
    cases hrows : rows.drop r.offset with
    | nil =>
      have hempty : rows.length ≤ r.offset := List.drop_eq_nil_iff.mp hrows
      have hs₃ : a.valid (b.release id store₂) := (hb.close id hs₂).valid
      dsimp only [List.head?_nil]
      rw [h.totalOfNoRows_eq hs₃ htotal hempty hknown]
      exact ⟨.noRows hempty, hnone⟩
    | cons row left =>
      have hfound : r.offset < rows.length := by
        by_contra hle
        rw [List.drop_eq_nil_iff.mpr (by omega)] at hrows
        cases hrows
      have hsum := h.totalOfRows_eq hsize htotal hfound hknown
      have hkeeps := totalOfRows_keeps hb.orderly hs₂ r id
        (if e.dialect.countQuery then some rows.length else none)
      dsimp only [List.head?_cons]
      split
      · next heq =>
        rw [heq] at hsum
        cases hsum
      · next total store₃ heq =>
        rw [heq] at hsum hkeeps
        obtain rfl : total = some rows.length := Except.ok.inj hsum
        split
        · exact ⟨.rows hfound rfl, hnone⟩
        · next hmax =>
          rw [hrows, List.tail_cons] at hview
          have hleft : (Cursor.mk id compiled.columns checker (some row) 0 (some rows.length)).Left a
              store₃ (rows.drop r.offset) := ⟨left, (hkeeps.view id trivial).trans hview, hrows.symm⟩
          have hwidth : ∀ r' ∈ rows, r'.length = compiled.columns.length := by
            intro r' hr'
            simpa [Compiled.columns] using h.width r' hr'
          exact deliverPage_counted (s := { s with store := store₃ }) hb hkeeps.valid (by omega)
            hfound hleft hwidth rfl (checker_isSome hchecks) h.answers hs.find?_nextToken

/-! ## Later pages -/

/-- A request that stays open can be continued with the token it was issued. -/
theorem executeFresh_open {d : Delivery} {e' : Engine} {s' : Session σ}
    (h : s.executeFresh b e r = (.ok d, e', s')) (hopen : d.state = .open) :
    d.continuation = ⟨e.nextToken⟩ ∧ e'.nextToken = e.nextToken + 1 := by
  unfold Session.executeFresh at h
  dsimp only at h
  split at h
  · cases h
  · split at h
    · cases h
    · split at h
      · cases h
      · cases h
      · split at h
        · cases h
        · split at h
          · cases h
            cases hopen
          · obtain ⟨hd, hrest⟩ := Prod.mk.inj h
            obtain ⟨rfl, -⟩ := Prod.mk.inj hrest
            exact ⟨Cursor.deliver_open hd hopen, rfl⟩

namespace Session

variable {token : Continuation} {total : Option Nat}

/-- The cursor of the token, if there is one, keeps this total. -/
def Keeps (s : Session σ) (token : Continuation) (total : Option Nat) : Prop :=
  ∀ c, s.cursors.find? token = some c → c.total = total

theorem Step.keeps {e' : Engine} {s' : Session σ} {named : Option Continuation} {ok : Bool}
    (hstep : Step b a e s named ok e' s') (hissued : token.number < e.nextToken)
    (h : s.Keeps token total) : s'.Keeps token total := by
  intro c' hc'
  cases hstep with
  | still _ hcursors _ =>
    rw [hcursors] at hc'
    exact h c' hc'
  | opens _ _ hcursors _ =>
    have hne : token ≠ ⟨e.nextToken⟩ := fun heq => by simp [heq] at hissued
    rw [hcursors, Cursors.find?_put_of_ne _ _ hne] at hc'
    exact h c' hc'
  | @turns t c c₁ _ _ hfind hcursors _ hkept _ =>
    by_cases hne : token = t
    · subst hne
      rw [hcursors, Cursors.find?_put_self] at hc'
      cases hc'
      exact hkept.trans (h c hfind)
    · rw [hcursors, Cursors.find?_put_of_ne _ _ hne, Cursors.find?_erase_of_ne _ hne] at hc'
      exact h c' hc'
  | @ends t c _ _ hcursors _ =>
    by_cases hne : token = t
    · subst hne
      rw [hcursors, Cursors.find?_erase_self] at hc'
      cases hc'
    · rw [hcursors, Cursors.find?_erase_of_ne _ hne] at hc'
      exact h c' hc'

/-- A page of a cursor tells the total that the cursor keeps. -/
theorem Keeps.execute (hb : b.Orderly a) (hs : a.valid s.store) (h : s.Keeps r.continuation total)
    (hcontinues : r.isContinuation = true) (hrows : 0 < r.maxRows) {d : Delivery}
    (hd : (s.execute b e r).1 = .ok d) : d.total = total := by
  unfold Session.execute executeNext at hd
  simp only [hcontinues, if_true, Int.not_le.mpr hrows, if_false] at hd
  split at hd
  · cases hd
  · next c hfind => exact (c.deliver_total hb hs hd).trans (h c hfind)

end Session

namespace Service

variable {service : Service σ} {i : Nat} {token : Continuation} {total : Option Nat}

/-- The cursor of the token in session `i`, if there is one, keeps this total. -/
def Keeps (service : Service σ) (i : Nat) (token : Continuation) (total : Option Nat) : Prop :=
  ∀ s, service.sessions[i]? = some s → s.Keeps token total

theorem Keeps.next (hb : b.Orderly a) (hruns : service.Runs a)
    (hissued : token.number < service.engine.nextToken) (h : service.Keeps i token total)
    (call : Nat × Action) : (service.next b call).Keeps i token total := by
  obtain ⟨j, action⟩ := call
  intro s' hi'
  by_cases hne : j = i
  · subst hne
    cases hj : service.sessions[j]? with
    | none =>
      rw [next_of_none b action hj, hj] at hi'
      cases hi'
    | some s =>
      rw [next_self b action hj] at hi'
      cases hi'
      exact (call_step hb (hruns.sound j s hj) action).keeps hissued (h s hj)
  · rw [next_of_ne b action hne] at hi'
    exact h s' hi'

theorem Keeps.after (hb : b.Orderly a) (hruns : service.Runs a)
    (hissued : token.number < service.engine.nextToken) (h : service.Keeps i token total)
    (calls : List (Nat × Action)) :
    (service.after b calls).Runs a ∧ (service.after b calls).Keeps i token total := by
  induction calls generalizing service with
  | nil => exact ⟨hruns, h⟩
  | cons call calls ih =>
    have hgrows := next_grows b service call.1 call.2
    exact ih (hruns.next hb call) (Nat.lt_of_lt_of_le hissued hgrows.token)
      (h.next hb hruns hissued call)

/-- A fresh request that asks for the total is told the number of all its rows, whatever its offset,
its page size and the dialect; and so is every page of its cursor, in any run. -/
theorem total_told (hb : b.Lawful a) (hreached : service.Reached b a)
    (hi : service.sessions[i]? = some s)
    (h : Counted b a service.engine s.caller r compiled rows) (hfresh : r.isContinuation = false)
    (htotal : r.totalCount = true) :
    Tells r (.empty compiled.columns service.engine.pages) rows (s.execute b service.engine r).1 ∧
    ∀ d, (s.execute b service.engine r).1 = .ok d → d.state = .open →
      ∀ later s', ((service.next b (i, .execute r)).after b later).sessions[i]? = some s' →
      ∀ next d', next.continuation = d.continuation → 0 < next.maxRows →
      (s'.execute b ((service.next b (i, .execute r)).after b later).engine next).1 = .ok d' →
      d'.total = some rows.length := by
  have hruns := hreached.runs hb
  have hs := hruns.sound i s hi
  have hexecute : s.execute b service.engine r = s.executeFresh b service.engine r := by
    simp [Session.execute, hfresh]
  obtain ⟨htells, hkept⟩ := executeFresh_counted h hb hs htotal
  rw [hexecute]
  refine ⟨htells, fun d hd hopen later s' hi' next d' hcontinues hrows hd' => ?_⟩
  obtain ⟨htoken, hissued⟩ := executeFresh_open (Prod.ext hd rfl) hopen
  have hengine : (service.next b (i, .execute r)).engine =
      (s.executeFresh b service.engine r).2.1 := by
    rw [next_of_some b _ hi, call, hexecute]
  have hkeeps : (service.next b (i, .execute r)).Keeps i d.continuation (some rows.length) := by
    intro s₁ hi₁
    rw [next_self b _ hi, call, hexecute] at hi₁
    cases hi₁
    rw [htoken]
    exact hkept
  have hbelow : d.continuation.number < (service.next b (i, .execute r)).engine.nextToken := by
    rw [hengine, hissued, htoken]
    exact Nat.lt_succ_self _
  obtain ⟨hruns', hkeeps'⟩ := hkeeps.after hb.orderly (hruns.next hb.orderly _) hbelow later
  have hne : service.engine.nextToken ≠ 0 := Nat.pos_iff_ne_zero.mp hruns.token
  have hstarted : next.isContinuation = true := by
    simp [Request.isContinuation, Continuation.isExhausted, hcontinues, htoken, hne]
  have hown := hkeeps' s' hi'
  rw [← hcontinues] at hown
  exact hown.execute hb.orderly (hruns'.sound i s' hi').valid hstarted hrows hd'

/-! ### Zones behind an offset -/

def countingEngine : Engine where
  schema := ⟨{}, [⟨"r_zone_main", "r_zone_main", false⟩], [⟨⟨1⟩, 0, "zone_name"⟩], [], .blank⟩
  dialect := .sqlite

def countedZones : Database := .catalog { zones := [⟨1, "east"⟩, ⟨2, "north"⟩, ⟨3, "south"⟩] }

def countingSession : Session Store := .start .unknown { database := countedZones }

def countingService : Service Store := ⟨countingEngine, [countingSession]⟩

def zonesFrom (offset : Nat) : Request :=
  { select := [⟨⟨1⟩, .none, .asc⟩], offset := offset, maxRows := 1, totalCount := true }

/-- The service behind its first request, and the request that goes on with it. -/
def openedService : Service Store := countingService.next Store.backend (0, .execute (zonesFrom 1))

def secondPage : Request := { zonesFrom 1 with continuation := ⟨1⟩ }

def zonesBehind (limit : String) : Compiled where
  statement := ⟨"select distinct r_zone_main.zone_name from r_zone_main "
    ++ "order by r_zone_main.zone_name" ++ limit, []⟩
  count := ⟨"select count(*) from (select distinct r_zone_main.zone_name from r_zone_main) "
    ++ "genquery_count", []⟩
  sources := ["r_zone_main"]
  joins := 0
  select := (zonesFrom 0).select

theorem counted_zones {offset : Nat} {limit : String}
    (hcompiles : countingEngine.compile .unknown (zonesFrom offset) = .ok (zonesBehind limit))
    (hrun : ∃ values, countedZones.run (zonesBehind limit).statement.sql [] = .ok values ∧
      values.map (fun row => row.map (·.shown)) = [["east"], ["north"], ["south"]].drop offset) :
    Counted Store.backend (Store.account countedZones .standard) countingEngine .unknown
      (zonesFrom offset) (zonesBehind limit) [["east"], ["north"], ["south"]] := by
  have hall : countingEngine.compile .unknown (zonesFrom 0) = .ok (zonesBehind "") := by
    decide +kernel
  have hrunAll : countedZones.run (zonesBehind "").statement.sql [] =
      .ok [[.text "east"], [.text "north"], [.text "south"]] := by decide +kernel
  have hwidth : ∀ row ∈ [["east"], ["north"], ["south"]],
      row.length = (zonesFrom 0).select.length := by decide
  refine Store.counted hcompiles nofun (fun o compiled' ho hcompiles' => ?_) rfl hwidth
    (by decide)
  rcases ho with rfl | rfl
  · cases hcompiles.symm.trans hcompiles'
    exact hrun
  · cases hall.symm.trans hcompiles'
    exact ⟨_, hrunAll, rfl⟩

/-- Behind the first zone there are two others, a page for each of them; behind the seventh there is
none. The number told is three each time. -/
theorem zones_told :
    (∃ d, (countingSession.execute Store.backend countingService.engine (zonesFrom 1)).1 = .ok d ∧
      d.turn = ⟨[["north"]], ⟨1⟩, .open⟩ ∧ d.total = some 3) ∧
    (∃ s d, openedService.sessions[0]? = some s ∧
      (s.execute Store.backend openedService.engine secondPage).1 = .ok d ∧
      d.turn = ⟨[["south"]], ⟨1⟩, .open⟩ ∧ d.total = some 3) ∧
    (countingSession.execute Store.backend countingService.engine (zonesFrom 7)).1 =
      .error (.noRows (some 3)) := by
  have hstart : countingService.Starts (Store.account countedZones .standard) := by
    refine ⟨by decide, fun s hs => ?_⟩
    rw [List.mem_singleton.mp hs]
    exact ⟨rfl, Store.valid_start _ _⟩
  have hone : countingEngine.compile .unknown (zonesFrom 1) = .ok (zonesBehind " limit 1,-1") := by
    decide +kernel
  have hseven : countingEngine.compile .unknown (zonesFrom 7) = .ok (zonesBehind " limit 7,-1") := by
    decide +kernel
  have hrunOne : countedZones.run (zonesBehind " limit 1,-1").statement.sql [] =
      .ok [[.text "north"], [.text "south"]] := by decide +kernel
  have hrunSeven : countedZones.run (zonesBehind " limit 7,-1").statement.sql [] = .ok [] := by
    decide +kernel
  have hi : countingService.sessions[0]? = some countingSession := rfl
  have hcountedOne := counted_zones hone ⟨_, hrunOne, rfl⟩
  have hcountedSeven := counted_zones hseven ⟨_, hrunSeven, rfl⟩
  have hlawful := Store.backend_lawful countedZones .standard
  have hreached : countingService.Reached Store.backend (Store.account countedZones .standard) :=
    .start hstart
  obtain ⟨htold, hlater⟩ := total_told hlawful hreached hi hcountedOne rfl rfl
  -- The pages are those of a run; what they tell of the number is the theorem's.
  obtain ⟨d, hd, hturn⟩ : ∃ d, (countingSession.execute Store.backend countingService.engine
      (zonesFrom 1)).1 = .ok d ∧ d.turn = ⟨[["north"]], ⟨1⟩, .open⟩ :=
    Fallible.map_eq_ok.mp (by decide +kernel)
  obtain ⟨s, hs⟩ : ∃ s, openedService.sessions[0]? = some s := ⟨_, rfl⟩
  obtain ⟨d', hd', hturn'⟩ : ∃ d',
      (s.execute Store.backend openedService.engine secondPage).1 = .ok d' ∧
      d'.turn = ⟨[["south"]], ⟨1⟩, .open⟩ := by
    have hpage : openedService.sessions[0]?.map (fun s =>
        Delivery.turn <$> (s.execute Store.backend openedService.engine secondPage).1) =
        some (.ok ⟨[["south"]], ⟨1⟩, .open⟩) := by decide +kernel
    rw [hs] at hpage
    exact Fallible.map_eq_ok.mp (Option.some.inj hpage)
  have hcontinues : secondPage.continuation = d.continuation :=
    (congrArg Turn.continuation hturn).symm
  refine ⟨⟨d, hd, hturn, ?_⟩, ⟨s, d', hs, hd', hturn', ?_⟩, ?_⟩
  · rw [hd] at htold
    cases htold with
    | rows _ htotal => exact htotal
  · exact hlater d hd (congrArg Turn.state hturn) [] s hs secondPage d' hcontinues (by decide) hd'
  · obtain ⟨htold, -⟩ := total_told hlawful hreached hi hcountedSeven rfl rfl
    generalize (countingSession.execute Store.backend countingService.engine (zonesFrom 7)).1 = out
      at htold ⊢
    cases htold with
    | rows hfound => exact absurd hfound (by decide)
    | noRows => rfl
    | withheld hwithheld =>
      cases hwithheld with
      | denied hchecked => exact absurd hchecked (by decide)
      | full hfull => cases hfull

end Service

end CatalogQuery
