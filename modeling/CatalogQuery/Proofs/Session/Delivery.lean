import CatalogQuery.Proofs.Page.ReadBack
import CatalogQuery.Proofs.Session.Step

/-!
# Exact delivery

A cursor whose rows are not refused delivers them in order: the row fetched ahead first, then those
that its statement holds. It notices the end only when it looks for a row that is not there, so a
page that the last rows fill leaves the cursor open.

* `Cursor.Serves`: what a cursor has still to deliver;
* `Cursor.fill_serves`: the rows of one page;
* `turnOf`: the outcome of one turn, with what is left after it;
* `Cursor.deliver_serves`: the turn of a cursor.
-/

namespace CatalogQuery

variable {σ : Type} {b : Backend σ} {a : Account σ} {store : σ}

/-! ## Rows that pass -/

/-- The checker lets the rows pass in any valid state of the store, and remembers no refusal. -/
structure RowChecker.Admits (b : Backend σ) (a : Account σ) (k : RowChecker)
    (rows : List (List String)) : Prop where
  last : ∀ object allowed, k.last = some (object, allowed) → allowed = true
  granted : ∀ row ∈ rows, ∀ s, a.valid s →
    (b.access (k.objectOf row) k.user k.zone k.level s).1 = .ok true

theorem RowChecker.Admits.mono {k : RowChecker} {rows rows' : List (List String)}
    (h : k.Admits b a rows) (hsub : ∀ row ∈ rows', row ∈ rows) : k.Admits b a rows' :=
  ⟨h.last, fun row hrow => h.granted row (hsub row hrow)⟩

theorem RowChecker.Admits.check {k : RowChecker} {rows : List (List String)} {row : List String}
    (h : k.Admits b a rows) (hs : a.valid store) (hrow : row ∈ rows) :
    (k.check b row store).1 = .ok () ∧ (k.check b row store).2.1.Admits b a rows := by
  have hask : (RowChecker.decide.ask b k (k.objectOf row) store).1 = .ok true ∧
      (RowChecker.decide.ask b k (k.objectOf row) store).2.1.Admits b a rows := by
    have hgranted := h.granted row hrow store hs
    unfold RowChecker.decide.ask
    split
    · next allowed store' heq =>
      rw [heq] at hgranted
      refine ⟨hgranted, fun object allowed' hlast => ?_, h.granted⟩
      cases hlast
      exact Except.ok.inj hgranted
    · next heq =>
      rw [heq] at hgranted
      cases hgranted
  have hdecide : (k.decide b (k.objectOf row) store).1 = .ok true ∧
      (k.decide b (k.objectOf row) store).2.1.Admits b a rows := by
    unfold RowChecker.decide
    split
    · next known allowed hlast =>
      split
      · exact ⟨congrArg Except.ok (h.last known allowed hlast), h⟩
      · exact hask
    · exact hask
  unfold RowChecker.check
  dsimp only
  split
  · next heq =>
    rw [heq] at hdecide
    exact ⟨rfl, hdecide.2⟩
  · next heq =>
    rw [heq] at hdecide
    cases hdecide.1
  · next heq =>
    rw [heq] at hdecide
    cases hdecide.1

namespace Cursor

/-- The checker of the cursor, if it has one, lets the rows pass. -/
def Admits (b : Backend σ) (a : Account σ) (c : Cursor) (rows : List (List String)) : Prop :=
  ∀ k, c.checker = some k → k.Admits b a rows

/-- The rows that the cursor has left, fetched ahead or not. -/
def Left (a : Account σ) (store : σ) (c : Cursor) (rows : List (List String)) : Prop :=
  ∃ left, a.view store c.statement = .holding left ∧ c.pending.toList ++ left = rows

/-- The cursor has exactly the rows still to deliver. -/
structure Serves (b : Backend σ) (a : Account σ) (store : σ) (c : Cursor)
    (rows : List (List String)) : Prop where
  held : c.Left a store rows
  admits : c.Admits b a rows

variable {c : Cursor} {row : List String} {rows : List (List String)}

theorem Serves.opened (h : c.Serves b a store rows) : a.Opened store c.statement := by
  obtain ⟨left, hleft, -⟩ := h.held
  simp [Account.Opened, hleft]

/-! ## One row -/

theorem nextRow_none (hb : b.Lawful a) (hs : a.valid store) (h : c.Left a store []) :
    ∃ store', c.nextRow b store = (.ok none, c, store') ∧ a.valid store' ∧ c.Left a store' [] := by
  obtain ⟨left, hleft, hrows⟩ := h
  obtain ⟨hpending, rfl⟩ := List.append_eq_nil_iff.mp hrows
  have hnone : c.pending = none := by simpa using hpending
  obtain ⟨hrow, hview⟩ := hb.fetch_row hs hleft
  refine ⟨(b.fetch c.statement store).2, ?_, (hb.fetch _ hs).keeps.valid, [], hview,
    by simp [hnone]⟩
  simp [nextRow, hnone, hrow]

theorem nextRow_some (hb : b.Lawful a) (hs : a.valid store) (h : c.Left a store (row :: rows)) :
    ∃ c' store', c.nextRow b store = (.ok (some row), c', store') ∧ a.valid store' ∧
      c.Like c' ∧ c'.checker = c.checker ∧ c'.Left a store' rows := by
  obtain ⟨left, hleft, hrows⟩ := h
  cases hpending : c.pending with
  | some first =>
    rw [hpending, Option.toList_some, List.singleton_append, List.cons.injEq] at hrows
    obtain ⟨rfl, rfl⟩ := hrows
    refine ⟨{ c with pending := none }, store, ?_, hs, ⟨rfl, rfl, rfl, rfl⟩, rfl, left, hleft, rfl⟩
    simp [nextRow, hpending]
  | none =>
    rw [hpending, Option.toList_none, List.nil_append] at hrows
    subst hrows
    obtain ⟨hrow, hview⟩ := hb.fetch_row hs hleft
    refine ⟨c, (b.fetch c.statement store).2, ?_, (hb.fetch _ hs).keeps.valid,
      ⟨rfl, rfl, rfl, rfl⟩, rfl, rows, hview, by simp [hpending]⟩
    simp [nextRow, hpending, hrow]

/-- What a cursor has left does not change with its checker, nor with other statements. -/
theorem Left.like {c' : Cursor} {store' : σ} (h : c.Left a store rows) (hlike : c.Like c')
    (hpending : c'.pending = c.pending) (hkeeps : a.Keeps (fun _ => True) store store') :
    c'.Left a store' rows := by
  obtain ⟨left, hleft, hrows⟩ := h
  refine ⟨left, ?_, by rw [hpending, hrows]⟩
  rw [hlike.statement, hkeeps.view _ trivial, hleft]

theorem checkRow_ok (hb : b.Lawful a) (hs : a.valid store) (h : c.Admits b a rows)
    (hrow : row ∈ rows) :
    ∃ c' store', c.checkRow b row store = (.ok (), c', store') ∧ c.Like c' ∧
      c'.pending = c.pending ∧ c'.Admits b a rows ∧ a.Keeps (fun _ => True) store store' := by
  unfold checkRow
  split
  · next hnone => exact ⟨c, store, rfl, ⟨rfl, rfl, rfl, rfl⟩, rfl, h, .refl hs⟩
  · next k hk =>
    obtain ⟨hok, hadmits⟩ := (h k hk).check hs hrow
    refine ⟨{ c with checker := some (k.check b row store).2.1 }, (k.check b row store).2.2,
      ?_, ⟨rfl, rfl, rfl, rfl⟩, rfl, ?_, k.check_keeps hb.orderly hs row⟩
    · dsimp only
      rw [hok]
    · intro k' hk'
      cases hk'
      exact hadmits

/-! ## One page -/

theorem fill_serves (hb : b.Lawful a) {n : Nat} {page page' : Page} (hs : a.valid store)
    (h : c.Serves b a store rows) (hpush : page.pushAll (rows.take n) = .ok page') :
    ∃ c' store', c.fill b n page store = (.ok (decide (rows.length < n), c', page'), store') ∧
      c.Like c' ∧ a.valid store' ∧ c'.Serves b a store' (rows.drop n) := by
  induction n generalizing c page rows store with
  | zero =>
    rw [List.take_zero, Page.pushAll, Except.ok.injEq] at hpush
    subst hpush
    exact ⟨c, store, rfl, ⟨rfl, rfl, rfl, rfl⟩, hs, h⟩
  | succ n ih =>
    cases rows with
    | nil =>
      rw [List.take_nil, Page.pushAll, Except.ok.injEq] at hpush
      subst hpush
      obtain ⟨store', hnext, hs', h'⟩ := nextRow_none hb hs h.held
      refine ⟨c, store', ?_, ⟨rfl, rfl, rfl, rfl⟩, hs', h', h.admits⟩
      simp [fill, hnext]
    | cons row rows =>
      obtain ⟨c₁, store₁, hnext, hs₁, hlike₁, hchecker, hleft⟩ := nextRow_some hb hs h.held
      have hadmits : c₁.Admits b a (row :: rows) := fun k hk => h.admits k (hchecker ▸ hk)
      obtain ⟨c₂, store₂, hcheck, hlike₂, hpending, hadmits₂, hkeeps⟩ :=
        checkRow_ok hb hs₁ hadmits List.mem_cons_self
      obtain ⟨page₁, hpage₁, hpush⟩ := Page.pushAll_cons hpush
      have h₂ : c₂.Serves b a store₂ rows := by
        refine ⟨hleft.like hlike₂ hpending hkeeps, fun k hk => ?_⟩
        exact (hadmits₂ k hk).mono fun r hr => List.mem_cons_of_mem row hr
      obtain ⟨c', store', hfill, hlike, hs', h'⟩ := ih hkeeps.valid h₂ hpush
      refine ⟨c', store', ?_, (hlike₁.trans hlike₂).trans hlike, hs', h'⟩
      rw [fill, hnext]
      dsimp only
      rw [hcheck]
      dsimp only
      rw [hpage₁]
      dsimp only
      rw [hfill]
      simp

end Cursor

/-! ## One turn -/

/-- What one turn of a cursor delivers. -/
structure Turn where
  rows : List (List String)
  continuation : Continuation
  state : CursorState
  deriving DecidableEq, Repr

def Delivery.turn (d : Delivery) : Turn := ⟨d.page.rows, d.continuation, d.state⟩

/-- The outcome of a turn of `n` rows when `left` are left, if the cursor is still there: all of
them with the end if there are fewer than `n`, else the first `n`. Behind it, what is left then. -/
def turnOf (token : Continuation) :
    Option (List (List String)) → Nat → Except QueryError Turn × Option (List (List String))
  | none, _ => (.error (.cursorNotFound token), none)
  | some left, n =>
    if left.length < n then (.ok ⟨left, .exhausted, .exhausted⟩, none)
    else (.ok ⟨left.take n, token, .open⟩, some (left.drop n))

theorem turnOf_eq_some {token : Continuation} {at_ : Option (List (List String))} {n : Nat}
    {left : List (List String)} (h : (turnOf token at_ n).2 = some left) :
    ∃ before, at_ = some before ∧ left = before.drop n := by
  unfold turnOf at h
  split at h
  · cases h
  · split at h
    · cases h
    · exact ⟨_, rfl, (Option.some.inj h).symm⟩

/-- A cursor that has not come to its end never fails to deliver. -/
theorem turnOf_some_ok {token : Continuation} {left : List (List String)} {n : Nat}
    {out : Except QueryError Delivery}
    (h : out.map Delivery.turn = (turnOf token (some left) n).1) : ∃ d, out = .ok d := by
  cases out with
  | ok d => exact ⟨d, rfl⟩
  | error e =>
    simp only [turnOf] at h
    split at h <;> cases h

/-- What a delivery that is the turn of a cursor brings. -/
theorem Delivery.turn_cases {d : Delivery} {token : Continuation} {left : List (List String)}
    {n : Nat} (h : .ok d.turn = (turnOf token (some left) n).1) :
    (left.length < n ∧ d.page.rows = left ∧ d.continuation = .exhausted) ∨
    (n ≤ left.length ∧ d.page.rows = left.take n ∧ d.continuation = token ∧
      (turnOf token (some left) n).2 = some (left.drop n)) := by
  by_cases hend : left.length < n
  · simp only [turnOf, hend, if_true, Except.ok.injEq, Delivery.turn, Turn.mk.injEq] at h
    exact .inl ⟨hend, h.1, h.2.1⟩
  · simp only [turnOf, hend, if_false, Except.ok.injEq, Delivery.turn, Turn.mk.injEq] at h
    exact .inr ⟨Nat.not_lt.mp hend, h.1, h.2.1, by simp only [turnOf, hend, if_false]⟩

/-- The cursor is ready for its next turn: it has rows to deliver, or has delivered some. -/
structure Cursor.Ready (b : Backend σ) (a : Account σ) (store : σ) (c : Cursor)
    (columns : List ColumnId) (left : List (List String)) : Prop where
  serves : c.Serves b a store left
  columns : c.columns = columns
  started : 0 < c.delivered + left.length

theorem Cursor.deliver_serves (hb : b.Lawful a) {settings : PageSettings} {token : Continuation}
    {n : Nat} {c : Cursor} {columns : List ColumnId} {left : List (List String)} {page : Page}
    (hs : a.valid store) (hn : 0 < n) (h : c.Ready b a store columns left)
    (hpush : (Page.empty columns settings).pushAll (left.take n) = .ok page) :
    ∃ d c? store', c.deliver b settings token n store = (.ok d, c?, store') ∧
      .ok d.turn = (turnOf token (some left) n).1 ∧
      match (turnOf token (some left) n).2 with
      | none => c? = none
      | some left' => ∃ c', c? = some c' ∧ c'.Ready b a store' columns left' := by
  rw [← h.columns] at hpush
  obtain ⟨c₁, store₁, hfill, hlike, hs₁, h₁⟩ := Cursor.fill_serves hb hs h.serves hpush
  obtain ⟨hrows, hcount⟩ := Page.rows_of_pushAll hpush
  have hstarted := h.started
  rw [List.length_take] at hcount
  unfold deliver turnOf
  rw [hfill]
  dsimp only
  by_cases hend : left.length < n
  · have htake : left.take n = left := List.take_of_length_le (Nat.le_of_lt hend)
    have hsome : ¬c₁.delivered + page.rowCount = 0 := by
      rw [hlike.delivered, hcount, Nat.min_eq_right (Nat.le_of_lt hend)]
      omega
    simp only [hend, decide_true, if_true, hsome, if_false]
    refine ⟨_, _, _, rfl, ?_, rfl⟩
    simp [Delivery.turn, hrows, htake]
  · simp only [hend, decide_false, Bool.false_eq_true, if_false]
    refine ⟨_, _, _, rfl, ?_, _, rfl, ⟨h₁.held, h₁.admits⟩, hlike.columns.trans h.columns, ?_⟩
    · simp [Delivery.turn, hrows]
    · simp only [hcount, List.length_drop]
      omega

/-! ## Turns of a session -/

namespace Session

variable {e : Engine} {s : Session σ} {token : Continuation} {columns : List ColumnId}

/-- Where the cursor of a token stands: at its end, or ready with what is left. -/
def At (b : Backend σ) (a : Account σ) (s : Session σ) (token : Continuation)
    (columns : List ColumnId) : Option (List (List String)) → Prop
  | none => s.cursors.find? token = none
  | some left => ∃ c, s.cursors.find? token = some c ∧ c.Ready b a s.store columns left

theorem deliverPage_at (hb : b.Lawful a) {settings : PageSettings} {n : Nat} {c : Cursor}
    {left : List (List String)} {page : Page} (hs : a.valid s.store)
    (hnone : s.cursors.find? token = none) (hn : 0 < n) (h : c.Ready b a s.store columns left)
    (hpush : (Page.empty columns settings).pushAll (left.take n) = .ok page) :
    ∃ d s', deliverPage b settings s token c n = (.ok d, s') ∧
      .ok d.turn = (turnOf token (some left) n).1 ∧
      s'.At b a token columns (turnOf token (some left) n).2 := by
  obtain ⟨d, c?, store', hdeliver, hturn, hback⟩ := Cursor.deliver_serves hb hs hn h hpush
  unfold deliverPage
  rw [hdeliver]
  dsimp only
  cases hafter : (turnOf token (some left) n).2 with
  | none =>
    rw [hafter] at hback
    dsimp only at hback
    rw [hback]
    exact ⟨d, _, rfl, hturn, hnone⟩
  | some left' =>
    rw [hafter] at hback
    obtain ⟨c', rfl, hready⟩ := hback
    exact ⟨d, _, rfl, hturn, c', Cursors.find?_put_self _ _ _, hready⟩

/-- A continuation is the turn of its cursor. -/
theorem execute_at (hb : b.Lawful a) (hs : s.Sound a e) {r : Request}
    {at_ : Option (List (List String))} (hr : r.isContinuation = true)
    (htoken : r.continuation = token) (hrows : 0 < r.maxRows) (h : s.At b a token columns at_)
    (hpush : ∀ left, at_ = some left →
      ∃ page, (Page.empty columns e.pages).pushAll (left.take r.maxRows.toNat) = .ok page) :
    ∃ out s', s.execute b e r = (out, e, s') ∧
      out.map Delivery.turn = (turnOf token at_ r.maxRows.toNat).1 ∧
      s'.At b a token columns (turnOf token at_ r.maxRows.toNat).2 := by
  subst htoken
  unfold execute executeNext
  simp only [hr, if_true, Int.not_le.mpr hrows, if_false]
  cases at_ with
  | none =>
    have hnone : s.cursors.find? r.continuation = none := h
    rw [hnone]
    exact ⟨_, _, rfl, rfl, hnone⟩
  | some left =>
    obtain ⟨c, hfind, hready⟩ := h
    obtain ⟨page, hpage⟩ := hpush left rfl
    obtain ⟨d, s', hdeliver, hturn, hafter⟩ := deliverPage_at (b := b)
      (s := { s with cursors := s.cursors.erase r.continuation }) hb hs.valid
      (Cursors.find?_erase_self _ _) (by omega) hready hpage
    rw [hfind]
    dsimp only
    rw [hdeliver]
    exact ⟨_, s', rfl, hturn, hafter⟩

/-- What a cursor has left does not change with a call that does not name it. -/
theorem Step.left {e' : Engine} {s' : Session σ} {named : Option Continuation} {ok : Bool}
    {c : Cursor} {rows : List (List String)} (hstep : Step b a e s named ok e' s')
    (hs : s.Sound a e) (hnamed : named ≠ some token) (hissued : token.number < e.nextToken)
    (hc : s.cursors.find? token = some c) (h : c.Left a s.store rows) : c.Left a s'.store rows := by
  obtain ⟨-, hview⟩ := hstep.frame hs hnamed hissued
  obtain ⟨held, hheld, hrows⟩ := h
  exact ⟨held, (hview c hc).trans hheld, hrows⟩

/-- A cursor that a call does not name stays where it is. -/
theorem Step.at {e' : Engine} {s' : Session σ} {named : Option Continuation} {ok : Bool}
    {at_ : Option (List (List String))} (hstep : Step b a e s named ok e' s') (hs : s.Sound a e)
    (hnamed : named ≠ some token) (hissued : token.number < e.nextToken)
    (h : s.At b a token columns at_) : s'.At b a token columns at_ := by
  obtain ⟨hfind, -⟩ := hstep.frame hs hnamed hissued
  cases at_ with
  | none => exact hfind.trans h
  | some left =>
    obtain ⟨c, hc, hready⟩ := h
    have hleft := hstep.left hs hnamed hissued hc hready.serves.held
    exact ⟨c, hfind.trans hc, ⟨hleft, hready.serves.admits⟩, hready.columns, hready.started⟩

end Session

end CatalogQuery
