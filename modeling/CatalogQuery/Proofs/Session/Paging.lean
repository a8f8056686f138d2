import CatalogQuery.Proofs.Session.Delivery
import Mathlib.Algebra.GroupWithZero.Nat

/-!
# Paging

Over a backend that serves its rows, a fresh request and its continuations deliver all of them in
order, each page as long as it may be, whatever else the sessions of the service are asked for in
between.

* `Offers`: what is asked of a backend for one request;
* `executeFresh_at`: the first turn of a request;
* `turnsOf`: the turns of a cursor, one after the other;
* `getElem?_turnsOf`, `rows_turnsOf`: what they deliver, one by one and together.
-/

namespace CatalogQuery

variable {σ : Type} {b : Backend σ} {a : Account σ}

/-! ## The first turn -/

/-- The request compiles, and in any valid state the backend serves `rows` for it: a run opens a
statement that holds them from the offset on, totals can be had, and no row is denied. -/
structure Offers (b : Backend σ) (a : Account σ) (e : Engine) (caller : Caller) (r : Request)
    (compiled : Compiled) (checker : Option RowChecker) (rows : List (List String)) : Prop where
  compiles : e.compile caller r = .ok compiled
  checks : e.checker r compiled = .ok checker
  counts : r.totalCount = true → e.dialect.countQuery = true → ∀ s, a.valid s →
    ∃ n, (b.scalar compiled.count.sql compiled.count.binds s).1 = .ok n
  runs : ∀ s, a.valid s → ∃ id s', b.run compiled.statement.sql compiled.statement.binds
    (e.dialect.skipRows r.offset) s = (.ok id, s') ∧ a.view s' id = .holding (rows.drop r.offset)
  sizes : r.totalCount = true → ∀ s id left, a.valid s → a.view s id = .holding left →
    ∃ n, (b.rowCount id s).1 = .ok n
  width : ∀ row ∈ rows, row.length = compiled.select.length
  granted : ∀ k, checker = some k → ∀ row ∈ rows, ∀ s, a.valid s →
    (b.access (k.objectOf row) k.user k.zone k.level s).1 = .ok true

/-- The columns of the pages of a compiled request. -/
def Compiled.columns (c : Compiled) : List ColumnId := c.select.map (·.column)

variable {e : Engine} {caller : Caller} {r : Request} {compiled : Compiled}
  {checker : Option RowChecker} {rows : List (List String)}

/-- A new checker remembers nothing. -/
theorem checker_last {k : RowChecker} (h : e.checker r compiled = .ok (some k)) :
    k.last = none := by
  unfold Engine.checker at h
  split at h
  · cases h
  · unfold RowChecker.make at h
    split at h
    · cases h
    · split at h
      · cases h
      · cases h
        rfl

namespace Offers

theorem admits (h : Offers b a e caller r compiled checker rows) {k : RowChecker}
    (hk : checker = some k) : k.Admits b a (rows.drop r.offset) := by
  subst hk
  constructor
  case last =>
    intro object allowed hlast
    rw [checker_last h.checks] at hlast
    cases hlast
  case granted => exact fun row hrow => h.granted k rfl row (List.mem_of_mem_drop hrow)

theorem columns_width (h : Offers b a e caller r compiled checker rows) :
    ∀ row ∈ rows.drop r.offset, row.length = compiled.columns.length := by
  intro row hrow
  simpa [Compiled.columns] using h.width row (List.mem_of_mem_drop hrow)

theorem countAhead_ok (h : Offers b a e caller r compiled checker rows) (hb : b.Lawful a)
    {store : σ} (hs : a.valid store) :
    ∃ total store', countAhead b e r compiled store = (.ok total, store') ∧ a.valid store' := by
  have hok : ∃ total, (countAhead b e r compiled store).1 = .ok total := by
    unfold countAhead
    split
    · next hwanted =>
      obtain ⟨htotal, hquery⟩ := Bool.and_eq_true_iff.mp hwanted
      obtain ⟨n, hn⟩ := h.counts htotal hquery store hs
      split
      · exact ⟨_, rfl⟩
      · next heq =>
        rw [heq] at hn
        cases hn
    · exact ⟨none, rfl⟩
  obtain ⟨total, htotal⟩ := hok
  exact ⟨total, _, Prod.ext htotal rfl, (countAhead_keeps hb.orderly hs e r compiled).valid⟩

/-- The statement is opened and its first row, if it has one, fetched ahead. -/
theorem openStatement_ok (h : Offers b a e caller r compiled checker rows) (hb : b.Lawful a)
    {store : σ} (hs : a.valid store) :
    ∃ id store', openStatement b e r compiled store =
      (.ok (id, (rows.drop r.offset).head?), store') ∧ a.valid store' ∧
      a.view store' id = .holding (rows.drop r.offset).tail := by
  obtain ⟨id, s₁, hrun, hview⟩ := h.runs store hs
  obtain ⟨-, -, hkeeps⟩ := hb.run_ok hs hrun
  obtain ⟨hfetch, hfetched⟩ := hb.fetch_row hkeeps.valid hview
  refine ⟨id, (b.fetch id s₁).2, ?_, (hb.fetch id hkeeps.valid).keeps.valid, hfetched⟩
  unfold openStatement
  rw [hrun]
  dsimp only
  split
  · next heq =>
    rw [heq] at hfetch
    cases hfetch
  · next heq =>
    rw [heq] at hfetch ⊢
    cases hfetch
    rfl

theorem totalOfRows_ok (h : Offers b a e caller r compiled checker rows) (hb : b.Lawful a)
    {store : σ} {id : StatementId} {left : List (List String)} (hs : a.valid store)
    (hview : a.view store id = .holding left) (total : Option Nat) :
    ∃ total' store', totalOfRows b r id total store = (.ok total', store') ∧
      a.valid store' ∧ a.view store' id = .holding left := by
  have hok : ∃ total', (totalOfRows b r id total store).1 = .ok total' := by
    unfold totalOfRows
    split
    · next hwanted =>
      obtain ⟨n, hn⟩ := h.sizes (Bool.and_eq_true_iff.mp hwanted).1 store id left hs hview
      split
      · exact ⟨_, rfl⟩
      · next heq =>
        rw [heq] at hn
        cases hn
    · exact ⟨total, rfl⟩
  obtain ⟨total', htotal⟩ := hok
  have hkeeps := totalOfRows_keeps hb.orderly hs r id total
  exact ⟨total', _, Prod.ext htotal rfl, hkeeps.valid, (hkeeps.view id trivial).trans hview⟩

end Offers

theorem Session.execute_of_fresh (b : Backend σ) (e : Engine) (s : Session σ)
    (hfresh : r.isContinuation = false) : s.execute b e r = s.executeFresh b e r := by
  simp [execute, hfresh]

/-- A fresh request that finds rows delivers the first page of a new cursor, or, if it asks for no
rows, opens none. -/
theorem Session.executeFresh_eq {s : Session σ} {total total' : Option Nat} {id : StatementId}
    {first : List String} {store₁ store₂ store₃ : σ}
    (hcompiles : e.compile s.caller r = .ok compiled) (hchecks : e.checker r compiled = .ok checker)
    (hcount : countAhead b e r compiled s.store = (.ok total, store₁))
    (hopen : openStatement b e r compiled store₁ = (.ok (id, some first), store₂))
    (htotal : totalOfRows b r id total store₂ = (.ok total', store₃)) :
    s.executeFresh b e r =
      if r.maxRows ≤ 0 then
        (.ok (.final compiled.columns e.pages total' .exhausted), e,
          { s with store := b.release id store₃ })
      else
        let delivered := deliverPage b e.pages { s with store := store₃ } ⟨e.nextToken⟩
          ⟨id, compiled.columns, checker, some first, 0, total'⟩ r.maxRows.toNat
        (delivered.1, e.issue.2, delivered.2) := by
  unfold executeFresh
  rw [hcompiles]
  simp only [bind, Except.bind, hchecks, pure, Except.pure]
  rw [hcount]
  dsimp only
  rw [hopen]
  dsimp only
  rw [htotal]
  rfl

/-- A fresh request that finds rows is the first turn of its cursor. -/
theorem executeFresh_at (h : Offers b a e caller r compiled checker rows) (hb : b.Lawful a)
    {s : Session σ} {page : Page} (hs : s.Sound a e) (hcaller : s.caller = caller)
    (hrows : 0 < r.maxRows) (hfound : r.offset < rows.length)
    (hpush : (Page.empty compiled.columns e.pages).pushAll
      ((rows.drop r.offset).take r.maxRows.toNat) = .ok page) :
    ∃ d e' s', s.executeFresh b e r = (.ok d, e', s') ∧ e'.nextToken = e.nextToken + 1 ∧
      .ok d.turn = (turnOf ⟨e.nextToken⟩ (some (rows.drop r.offset)) r.maxRows.toNat).1 ∧
      s'.At b a ⟨e.nextToken⟩ compiled.columns
        (turnOf ⟨e.nextToken⟩ (some (rows.drop r.offset)) r.maxRows.toNat).2 := by
  subst hcaller
  obtain ⟨first, left, hleft⟩ : ∃ first left, rows.drop r.offset = first :: left :=
    ⟨_, _, List.drop_eq_getElem_cons hfound⟩
  obtain ⟨total, store₁, hcount, hs₁⟩ := h.countAhead_ok hb hs.valid
  obtain ⟨id, store₂, hopen, hs₂, hview₂⟩ := h.openStatement_ok hb hs₁
  rw [hleft] at hopen hview₂
  obtain ⟨total', store₃, htotal, hs₃, hview₃⟩ := h.totalOfRows_ok hb hs₂ hview₂ total
  let c : Cursor := ⟨id, compiled.columns, checker, some first, 0, total'⟩
  have hready : c.Ready b a store₃ compiled.columns (rows.drop r.offset) := by
    refine ⟨⟨⟨left, hview₃, hleft.symm⟩, fun k hk => h.admits hk⟩, rfl, ?_⟩
    rw [List.length_drop]
    omega
  obtain ⟨d, s', hdeliver, hturn, hafter⟩ := Session.deliverPage_at (b := b)
    (s := { s with store := store₃ }) hb hs₃ hs.find?_nextToken (by omega) hready hpush
  refine ⟨d, e.issue.2, s', ?_, rfl, hturn, hafter⟩
  rw [Session.executeFresh_eq h.compiles h.checks hcount hopen htotal]
  rw [if_neg (Int.not_le.mpr hrows)]
  dsimp only
  rw [hdeliver]

/-! ## The turns of a cursor -/

/-- The turns of a cursor whose rows left are known, unless it is gone. -/
def turnsOf (token : Continuation) :
    Option (List (List String)) → List Nat → List (Except QueryError Turn)
  | _, [] => []
  | left, n :: ns => (turnOf token left n).1 :: turnsOf token (turnOf token left n).2 ns

/-- The rows that an outcome brings. -/
def rowsOf : Except QueryError Turn → List (List String)
  | .ok turn => turn.rows
  | .error _ => []

variable {token : Continuation} {left : List (List String)} {ns : List Nat}

theorem length_turnsOf (token : Continuation) (at_ : Option (List (List String))) (ns : List Nat) :
    (turnsOf token at_ ns).length = ns.length := by
  induction ns generalizing at_ with
  | nil => rfl
  | cons n ns ih => simp [turnsOf, ih]

theorem getElem?_turnsOf_none (token : Continuation) (ns : List Nat) (k : Nat) :
    (turnsOf token none ns)[k]? = ns[k]?.map fun _ => .error (.cursorNotFound token) := by
  induction ns generalizing k with
  | nil => rfl
  | cons n ns ih =>
    cases k with
    | zero => rfl
    | succ k => exact ih k

/-- As long as the rows before it were there, a turn is that of what they leave over. -/
theorem getElem?_turnsOf (token : Continuation) (left : List (List String)) (ns : List Nat)
    (k : Nat) :
    (turnsOf token (some left) ns)[k]? = ns[k]?.map fun n =>
      if (ns.take k).sum ≤ left.length then
        (turnOf token (some (left.drop (ns.take k).sum)) n).1
      else .error (.cursorNotFound token) := by
  induction ns generalizing left k with
  | nil => rfl
  | cons n ns ih =>
    cases k with
    | zero => simp [turnsOf]
    | succ k =>
      simp only [turnsOf, List.getElem?_cons_succ, List.take_succ_cons, List.sum_cons]
      by_cases hend : left.length < n
      · have hbeyond : ¬n + (ns.take k).sum ≤ left.length := by omega
        simp only [turnOf, hend, if_true, getElem?_turnsOf_none, hbeyond, if_false]
      · have hsum : (ns.take k).sum ≤ (left.drop n).length ↔
            n + (ns.take k).sum ≤ left.length := by
          rw [List.length_drop]
          omega
        simp only [turnOf, hend, if_false, ih, hsum, List.drop_drop]

theorem rows_turnsOf_none (token : Continuation) (ns : List Nat) :
    (turnsOf token none ns).flatMap rowsOf = [] := by
  induction ns with
  | nil => rfl
  | cons n ns ih => simpa [turnsOf, turnOf, rowsOf] using ih

/-- Together the turns deliver the first rows left, as many as they ask for. -/
theorem rows_turnsOf (token : Continuation) (left : List (List String)) (ns : List Nat) :
    (turnsOf token (some left) ns).flatMap rowsOf = left.take ns.sum := by
  induction ns generalizing left with
  | nil => simp [turnsOf]
  | cons n ns ih =>
    simp only [turnsOf, List.flatMap_cons, List.sum_cons]
    by_cases hend : left.length < n
    · simp only [turnOf, hend, if_true, rows_turnsOf_none, rowsOf, List.append_nil]
      rw [List.take_of_length_le (by omega)]
    · simp only [turnOf, hend, if_false, rowsOf, ih, List.take_add]

theorem noRows_notMem_turnsOf (token : Continuation) (left : Option (List (List String)))
    (ns : List Nat) (total : Option Nat) : .error (.noRows total) ∉ turnsOf token left ns := by
  induction ns generalizing left with
  | nil => simp [turnsOf]
  | cons n ns ih =>
    have hturn : .error (.noRows total) ≠ (turnOf token left n).1 := by
      unfold turnOf
      split
      · simp
      · split <;> simp
    simpa [turnsOf, hturn] using ih _

end CatalogQuery
