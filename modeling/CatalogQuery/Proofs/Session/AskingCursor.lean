import CatalogQuery.Proofs.Compile.Compiles
import CatalogQuery.Proofs.Session.Paging

/-!
# Cursors that ask for each row

A checker remembers its last decision, and a cursor keeps its checker from page to page. Behind both
stands a simpler cursor that remembers nothing: it asks the catalog for each row it is about to
deliver, and is gone with the first row that is denied. As long as what is remembered is what the
catalog says, the two cannot be told apart.

* `RowChecker.Recalls`: what a checker may remember, kept by `RowChecker.Recalls.check`;
* `Page.pushChecked`: the rows of a page, each asked for before it is added;
* `AskingCursor.turn`: the outcome of a call, with what is left after it;
* `Cursor.Stands`: the cursor stands for one that asks, kept by `Cursor.Stands.deliver`.
-/

namespace CatalogQuery

variable {σ : Type} {b : Backend σ} {a : Account σ} {store : σ}

/-! ## Decisions -/

/-- Whether a catalog grants to an object, for a user, of a zone, a level of access. -/
abbrev Grants := String → String → String → AccessLevel → Bool

/-- Asked about access in any valid state, the backend answers by the catalog. -/
def Backend.AnswersBy (b : Backend σ) (a : Account σ) (grants : Grants) : Prop :=
  ∀ object user zone level s, a.valid s →
    (b.access object user zone level s).1 = .ok (grants object user zone level)

/-- In any valid state, closing a statement does not fail. -/
def Backend.Closes (b : Backend σ) (a : Account σ) : Prop :=
  ∀ id s, a.valid s → (b.close id s).1 = .ok ()

namespace RowChecker

variable {grants : Grants} {k k' : RowChecker}

/-- The catalog grants what the checker demands for the object of a row. -/
def permits (grants : Grants) (k : RowChecker) (row : List String) : Bool :=
  grants (k.objectOf row) k.user k.zone k.level

/-- The decision on a row by the catalog itself. -/
def ask (grants : Grants) (k : RowChecker) (row : List String) : Except QueryError Unit :=
  if k.permits grants row then .ok () else .error (k.denial (k.objectOf row))

theorem ask_eq_ok {row : List String} :
    k.ask grants row = .ok () ↔ k.permits grants row = true := by
  simp [ask]

theorem ask_eq_error {row : List String} {err : QueryError} (h : k.ask grants row = .error err) :
    k.permits grants row = false ∧ err = k.denial (k.objectOf row) := by
  unfold ask at h
  split at h
  · cases h
  · next hdenied =>
    cases h
    exact ⟨Bool.eq_false_iff.mpr hdenied, rfl⟩

/-- `k'` is the checker `k` after some rows: what it remembers is what the catalog says. -/
structure Recalls (grants : Grants) (k k' : RowChecker) : Prop where
  same : k' = { k with last := k'.last }
  faithful : ∀ object allowed, k'.last = some (object, allowed) →
    allowed = grants object k.user k.zone k.level

theorem Recalls.of_fresh (h : k.last = none) : k.Recalls grants k where
  same := rfl
  faithful := by
    intro object allowed hlast
    rw [h] at hlast
    cases hlast

theorem Recalls.decide (hanswers : b.AnswersBy a grants) (hs : a.valid store)
    (h : k.Recalls grants k') (object : String) :
    ∃ k'' store', k'.decide b object store =
      (.ok (grants object k.user k.zone k.level), k'', store') ∧ k.Recalls grants k'' := by
  obtain ⟨last, rfl⟩ : ∃ last, k' = { k with last := last } := ⟨k'.last, h.same⟩
  have hask : ∃ k'' store', RowChecker.decide.ask b { k with last := last } object store =
      (.ok (grants object k.user k.zone k.level), k'', store') ∧ k.Recalls grants k'' := by
    have hanswer := hanswers object k.user k.zone k.level store hs
    unfold RowChecker.decide.ask
    dsimp only
    split
    · next allowed store' heq =>
      rw [heq] at hanswer
      cases hanswer
      refine ⟨_, _, rfl, rfl, fun object' allowed' hlast => ?_⟩
      cases hlast
      rfl
    · next heq =>
      rw [heq] at hanswer
      cases hanswer
  unfold RowChecker.decide
  split
  · next known allowed hlast =>
    split
    · next hknown =>
      subst hknown
      rw [h.faithful known allowed hlast]
      exact ⟨_, _, rfl, h⟩
    · exact hask
  · exact hask

/-- What is remembered never changes a decision. -/
theorem Recalls.check (hanswers : b.AnswersBy a grants) (hs : a.valid store)
    (h : k.Recalls grants k') (row : List String) :
    (k'.check b row store).1 = k.ask grants row ∧ k.Recalls grants (k'.check b row store).2.1 := by
  have hobject : k'.objectOf row = k.objectOf row := by rw [h.same, objectOf, objectOf]
  obtain ⟨k'', store', hdecide, hrecalls⟩ := h.decide hanswers hs (k.objectOf row)
  have hdenial : k''.denial (k.objectOf row) = k.denial (k.objectOf row) := by
    rw [hrecalls.same, denial, denial]
  unfold RowChecker.check ask permits
  dsimp only
  rw [hobject, hdecide]
  cases grants (k.objectOf row) k.user k.zone k.level with
  | true => exact ⟨rfl, hrecalls⟩
  | false =>
    refine ⟨?_, hrecalls⟩
    dsimp only
    rw [hdenial]
    rfl

end RowChecker

/-! ## Pages -/

namespace Page

variable {p p' : Page} {ask : List String → Except QueryError Unit} {rows : List (List String)}

/-- Adds rows to a page, each of them only if `ask` lets it pass. -/
def pushChecked (ask : List String → Except QueryError Unit) :
    Page → List (List String) → Except QueryError Page
  | p, [] => .ok p
  | p, row :: rows =>
    match ask row with
    | .error err => .error err
    | .ok () =>
      match p.push row with
      | (.error err, _) => .error err
      | (.ok (), p) => pushChecked ask p rows

/-- On a page all rows have passed. -/
theorem pushChecked_ok (h : p.pushChecked ask rows = .ok p') :
    (∀ row ∈ rows, ask row = .ok ()) ∧ p.pushAll rows = .ok p' := by
  induction rows generalizing p with
  | nil => exact ⟨nofun, h⟩
  | cons row rows ih =>
    unfold pushChecked at h
    split at h
    · cases h
    · next hask =>
      split at h
      · cases h
      · next q hpush =>
        obtain ⟨hrest, hall⟩ := ih h
        refine ⟨List.forall_mem_cons.mpr ⟨hask, hrest⟩, ?_⟩
        rw [pushAll, hpush]
        exact hall

/-- A page is refused for a row that does not pass, or for lack of room. -/
theorem pushChecked_error {err : QueryError} (hlen : ∀ row ∈ rows, row.length = p.columns.length)
    (h : p.pushChecked ask rows = .error err) :
    (∃ row ∈ rows, ask row = .error err) ∨ ∃ message, err = .resource message := by
  induction rows generalizing p with
  | nil => cases h
  | cons row rows ih =>
    unfold pushChecked at h
    split at h
    · next hask =>
      cases h
      exact .inl ⟨row, List.mem_cons_self, hask⟩
    · split at h
      · next hpush =>
        cases h
        exact .inr (push_refused (hlen row List.mem_cons_self) hpush)
      · next q hpush =>
        obtain ⟨-, -, -, hcolumns⟩ := push_ok hpush
        have hlen' : ∀ row ∈ rows, row.length = q.columns.length := fun r hr =>
          (hlen r (List.mem_cons_of_mem _ hr)).trans hcolumns.symm
        rcases ih hlen' h with ⟨r, hr, hdenied⟩ | hroom
        · exact .inl ⟨r, List.mem_cons_of_mem _ hr, hdenied⟩
        · exact .inr hroom

end Page

/-! ## Turns -/

/-- What a cursor does that asks the catalog for each row. Its checker stays as it was made. -/
structure AskingCursor where
  token : Continuation
  columns : List ColumnId
  settings : PageSettings
  total : Option Nat
  checker : RowChecker

namespace AskingCursor

/-- The next page of up to `n` rows. Behind it, what is left if the cursor stays open. -/
def page (g : AskingCursor) (grants : Grants) (rows : List (List String)) (n : Nat) :
    Except QueryError Delivery × Option (List (List String)) :=
  match (Page.empty g.columns g.settings).pushChecked (g.checker.ask grants) (rows.take n) with
  | .error err => (.error err, none)
  | .ok page =>
    if rows.length < n then (.ok ⟨page, .exhausted, g.total, .exhausted⟩, none)
    else (.ok ⟨page, g.token, g.total, .open⟩, some (rows.drop n))

/-- A continuation for `n` rows, when `left` are left if the cursor is still there. -/
def turn (g : AskingCursor) (grants : Grants) (left : Option (List (List String))) (n : Int) :
    Except QueryError Delivery × Option (List (List String)) :=
  if n ≤ 0 then (.ok (.final [] g.settings none .closed), none)
  else
    match left with
    | none => (.error (.cursorNotFound g.token), none)
    | some rows => g.page grants rows n.toNat

end AskingCursor

/-! ## Cursors that stand for one that asks -/

namespace Cursor

variable {grants : Grants} {g : AskingCursor} {c : Cursor} {k : RowChecker} {row : List String}
  {rows : List (List String)}

/-- The checker of the cursor is `k` after some rows. -/
def Recalls (grants : Grants) (k : RowChecker) (c : Cursor) : Prop :=
  ∃ k', c.checker = some k' ∧ k.Recalls grants k'

theorem Recalls.checkRow (hanswers : b.AnswersBy a grants) (hs : a.valid store)
    (h : c.Recalls grants k) (row : List String) :
    ∃ c' store', c.checkRow b row store = (k.ask grants row, c', store') ∧
      c'.pending = c.pending ∧ c'.Recalls grants k := by
  obtain ⟨k', hk', hrecalls⟩ := h
  obtain ⟨hask, hafter⟩ := hrecalls.check hanswers hs row
  unfold Cursor.checkRow
  rw [hk', ← hask]
  exact ⟨_, _, rfl, rfl, _, rfl, hafter⟩

/-- A page is filled as if the catalog were asked for each of its rows. -/
theorem Recalls.fill (hb : b.Lawful a) (hanswers : b.AnswersBy a grants) (n : Nat) (page : Page)
    (hs : a.valid store) (hleft : c.Left a store rows) (h : c.Recalls grants k) :
    match page.pushChecked (k.ask grants) (rows.take n) with
    | .error err => (c.fill b n page store).1 = .error err
    | .ok page' => ∃ c' store', c.fill b n page store =
        (.ok (decide (rows.length < n), c', page'), store') ∧
        c.Like c' ∧ c'.Left a store' (rows.drop n) ∧ c'.Recalls grants k := by
  induction n generalizing c page rows store with
  | zero => exact ⟨c, store, rfl, .refl c, hleft, h⟩
  | succ n ih =>
    cases rows with
    | nil =>
      obtain ⟨store', hnext, -, hleft'⟩ := nextRow_none hb hs hleft
      refine ⟨c, store', ?_, .refl c, hleft', h⟩
      simp [Cursor.fill, hnext]
    | cons row rows =>
      obtain ⟨c₁, store₁, hnext, hs₁, hlike₁, hchecker, hleft₁⟩ := nextRow_some hb hs hleft
      have h₁ : c₁.Recalls grants k := by rwa [Recalls, hchecker]
      obtain ⟨c₂, store₂, hcheck, hpending, h₂⟩ := h₁.checkRow hanswers hs₁ row
      have hkeeps := c₁.checkRow_keeps hb.orderly hs₁ row
      have hlike₂ := c₁.checkRow_like b row store₁
      rw [hcheck] at hkeeps hlike₂
      have hleft₂ : c₂.Left a store₂ rows := hleft₁.like hlike₂ hpending hkeeps
      unfold Cursor.fill
      rw [hnext, List.take_succ_cons, Page.pushChecked]
      dsimp only
      rw [hcheck]
      cases k.ask grants row with
      | error err => rfl
      | ok =>
        dsimp only
        obtain ⟨pushed, page₁⟩ := page.push row
        cases pushed with
        | error err => rfl
        | ok =>
          have hrest := ih page₁ hkeeps.valid hleft₂ h₂
          dsimp only
          cases hchecked : page₁.pushChecked (k.ask grants) (rows.take n) with
          | error err =>
            rw [hchecked] at hrest
            exact hrest
          | ok page' =>
            rw [hchecked] at hrest
            obtain ⟨c', store', hfill, hlike, hleft', h'⟩ := hrest
            refine ⟨c', store', ?_, (hlike₁.trans hlike₂).trans hlike, hleft', h'⟩
            rw [hfill]
            simp

/-- The cursor stands for `g`, with the rows that it has left. -/
structure Stands (grants : Grants) (a : Account σ) (store : σ) (c : Cursor) (g : AskingCursor)
    (rows : List (List String)) : Prop where
  held : c.Left a store rows
  columns : c.columns = g.columns
  total : c.total = g.total
  recalls : c.Recalls grants g.checker
  started : 0 < c.delivered + rows.length

theorem Stands.deliver (hb : b.Lawful a) (hanswers : b.AnswersBy a grants) {n : Nat}
    (hs : a.valid store) (hn : 0 < n) (h : c.Stands grants a store g rows) :
    (c.deliver b g.settings g.token n store).1 = (g.page grants rows n).1 ∧
    match (g.page grants rows n).2 with
    | none => (c.deliver b g.settings g.token n store).2.1 = none
    | some left => ∃ c', (c.deliver b g.settings g.token n store).2.1 = some c' ∧
        c'.Stands grants a (c.deliver b g.settings g.token n store).2.2 g left := by
  have hfill := h.recalls.fill hb hanswers n (.empty c.columns g.settings) hs h.held
  unfold Cursor.deliver AskingCursor.page
  rw [← h.columns]
  cases hchecked : (Page.empty c.columns g.settings).pushChecked (g.checker.ask grants)
      (rows.take n) with
  | error err =>
    rw [hchecked] at hfill
    obtain ⟨store', heq⟩ : ∃ store', c.fill b n (.empty c.columns g.settings) store =
        (.error err, store') := ⟨_, Prod.ext hfill rfl⟩
    rw [heq]
    exact ⟨rfl, rfl⟩
  | ok page =>
    rw [hchecked] at hfill
    obtain ⟨c₁, store₁, heq, hlike, hleft₁, hrecalls⟩ := hfill
    obtain ⟨-, hcount⟩ := Page.rows_of_pushAll (Page.pushChecked_ok hchecked).2
    have htotal : c₁.total = g.total := hlike.total.trans h.total
    have hstarted := h.started
    rw [List.length_take] at hcount
    rw [heq]
    dsimp only
    by_cases hend : rows.length < n
    · have hsome : c₁.delivered + page.rowCount ≠ 0 := by
        rw [hlike.delivered, hcount]
        omega
      simp only [hend, decide_true, if_true, hsome, if_false, htotal]
      exact ⟨trivial, trivial⟩
    · simp only [hend, decide_false, Bool.false_eq_true, if_false, htotal]
      refine ⟨trivial, _, rfl, hleft₁, hlike.columns.trans h.columns, rfl, hrecalls, ?_⟩
      simp only [hcount, List.length_drop]
      omega

end Cursor

/-! ## Calls of a session -/

namespace Session

variable {grants : Grants} {g : AskingCursor} {e : Engine} {s : Session σ}
  {left : Option (List (List String))}

/-- The session keeps a cursor that stands for `g` with these rows left, or none. -/
def Stands (grants : Grants) (a : Account σ) (s : Session σ) (g : AskingCursor) :
    Option (List (List String)) → Prop
  | none => s.cursors.find? g.token = none
  | some rows => ∃ c, s.cursors.find? g.token = some c ∧ c.Stands grants a s.store g rows

theorem deliverPage_stands (hb : b.Lawful a) (hanswers : b.AnswersBy a grants) {n : Nat}
    {c : Cursor} {rows : List (List String)} (hs : a.valid s.store)
    (hnone : s.cursors.find? g.token = none) (hn : 0 < n) (h : c.Stands grants a s.store g rows) :
    (deliverPage b g.settings s g.token c n).1 = (g.page grants rows n).1 ∧
    (deliverPage b g.settings s g.token c n).2.Stands grants a g (g.page grants rows n).2 := by
  obtain ⟨hout, hback⟩ := h.deliver hb hanswers hs hn
  refine ⟨hout, ?_⟩
  unfold deliverPage
  dsimp only
  cases hafter : (g.page grants rows n).2 with
  | none =>
    rw [hafter] at hback
    dsimp only at hback
    rw [hback]
    exact hnone
  | some left =>
    rw [hafter] at hback
    obtain ⟨c', hc', hstands⟩ := hback
    rw [hc']
    exact ⟨c', Cursors.find?_put_self _ _ _, hstands⟩

/-- Closing does not fail, and afterwards there is no cursor. -/
theorem close_gone (hcloses : b.Closes a) (hs : a.valid s.store) (token : Continuation) :
    (s.close b token).1 = .ok .exhausted ∧ (s.close b token).2.cursors.find? token = none := by
  unfold close
  split
  · next hnone => exact ⟨rfl, hnone⟩
  · next c hfind =>
    dsimp only
    rw [hcloses c.statement s.store hs]
    exact ⟨rfl, Cursors.find?_erase_self _ _⟩

/-- A continuation has the outcome that it has if the catalog is asked for each row. -/
theorem Stands.execute (hb : b.Lawful a) (hanswers : b.AnswersBy a grants)
    (hcloses : b.Closes a) (hs : a.valid s.store) {r : Request}
    (hr : r.isContinuation = true) (htoken : r.continuation = g.token)
    (hpages : e.pages = g.settings) (h : s.Stands grants a g left) :
    (s.execute b e r).1 = (g.turn grants left r.maxRows).1 ∧
    (s.execute b e r).2.2.Stands grants a g (g.turn grants left r.maxRows).2 := by
  unfold Session.execute executeNext AskingCursor.turn
  simp only [hr, if_true, htoken, hpages]
  by_cases hrows : r.maxRows ≤ 0
  · obtain ⟨hok, hgone⟩ := close_gone hcloses hs g.token
    simp only [hrows, if_true, hok]
    exact ⟨trivial, hgone⟩
  · simp only [hrows, if_false]
    cases left with
    | none =>
      have hnone : s.cursors.find? g.token = none := h
      rw [hnone]
      exact ⟨rfl, hnone⟩
    | some rows =>
      obtain ⟨c, hfind, hstands⟩ := h
      rw [hfind]
      exact deliverPage_stands (s := { s with cursors := s.cursors.erase g.token }) hb hanswers hs
        (Cursors.find?_erase_self _ _) (by omega) hstands

/-- A cursor that a call does not name stands for the same one afterwards. -/
theorem Step.stands {e' : Engine} {s' : Session σ} {named : Option Continuation} {ok : Bool}
    (hstep : Step b a e s named ok e' s') (hs : s.Sound a e) (hnamed : named ≠ some g.token)
    (hissued : g.token.number < e.nextToken) (h : s.Stands grants a g left) :
    s'.Stands grants a g left := by
  obtain ⟨hfind, -⟩ := hstep.frame hs hnamed hissued
  cases left with
  | none => exact hfind.trans h
  | some rows =>
    obtain ⟨c, hc, hstands⟩ := h
    exact ⟨c, hfind.trans hc,
      { hstands with held := hstep.left hs hnamed hissued hc hstands.held }⟩

end Session

end CatalogQuery
