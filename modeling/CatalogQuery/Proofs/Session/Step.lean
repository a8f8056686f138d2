import CatalogQuery.Proofs.Session.Account
import CatalogQuery.Session.Service

/-!
# What a call of a session can do

A call leaves the cursors of a session alone, opens one under a new token, or turns over or ends the
one it names; and it changes no statement of any other cursor. A call that fails opens nothing and
turns nothing over. All that is known of a session in the course of its calls follows from this.

* `Session.Step`: what a call can do, with `call_step` for the calls of a session;
* `Step.sound`: cursors stand for different open statements, under tokens issued before;
* `Step.frame`: a cursor that a call does not name is untouched, with its statement.
-/

namespace CatalogQuery

variable {σ : Type} {b : Backend σ} {a : Account σ}

/-! ## Cursors -/

namespace Cursors

variable {cs : Cursors} {t u : Continuation} {c d : Cursor}

theorem mem_of_find? (h : cs.find? t = some c) : (t, c) ∈ cs := by
  unfold find? at h
  obtain ⟨⟨u, d⟩, hfind, rfl⟩ := Option.map_eq_some_iff.mp h
  have hu := List.find?_some hfind
  simp only [beq_iff_eq] at hu
  exact hu ▸ List.mem_of_find?_eq_some hfind

theorem mem_erase : (u, d) ∈ cs.erase t ↔ (u, d) ∈ cs ∧ u ≠ t := by
  simp [erase]

theorem mem_put : (u, d) ∈ cs.put t c ↔ ((u, d) ∈ cs ∧ u ≠ t) ∨ (u = t ∧ d = c) := by
  simp [put, mem_erase]

end Cursors

/-! ## One page -/

theorem RowChecker.decide_keeps (hb : b.Orderly a) {store : σ} (hs : a.valid store)
    (k : RowChecker) (object : String) :
    a.Keeps (fun _ => True) store (k.decide b object store).2.2 := by
  have hask : a.Keeps (fun _ => True) store (decide.ask b k object store).2.2 := by
    have haccess := hb.access object k.user k.zone k.level hs
    unfold decide.ask
    split <;> simp_all
  unfold decide
  split
  · split
    · exact .refl hs
    · exact hask
  · exact hask

theorem RowChecker.check_keeps (hb : b.Orderly a) {store : σ} (hs : a.valid store)
    (k : RowChecker) (row : List String) :
    a.Keeps (fun _ => True) store (k.check b row store).2.2 := by
  have hdecide := k.decide_keeps hb hs (k.objectOf row)
  unfold check
  dsimp only
  split <;> simp_all

namespace Cursor

/-- What a cursor is, apart from the progress of its delivery. -/
structure Like (c c' : Cursor) : Prop where
  statement : c'.statement = c.statement
  columns : c'.columns = c.columns
  delivered : c'.delivered = c.delivered
  total : c'.total = c.total

theorem Like.refl (c : Cursor) : c.Like c := ⟨rfl, rfl, rfl, rfl⟩

theorem Like.trans {c c' c'' : Cursor} (h : c.Like c') (h' : c'.Like c'') : c.Like c'' :=
  ⟨h'.statement.trans h.statement, h'.columns.trans h.columns, h'.delivered.trans h.delivered,
    h'.total.trans h.total⟩

theorem nextRow_like (b : Backend σ) (c : Cursor) (store : σ) : c.Like (c.nextRow b store).2.1 := by
  unfold nextRow
  split
  · exact ⟨rfl, rfl, rfl, rfl⟩
  · exact .refl c

theorem nextRow_touches (hb : b.Orderly a) {store : σ} (hs : a.valid store) (c : Cursor) :
    a.Touches c.statement store (c.nextRow b store).2.2 := by
  unfold nextRow
  split
  · exact .refl hs
  · exact hb.fetch _ hs

theorem checkRow_like (b : Backend σ) (c : Cursor) (row : List String) (store : σ) :
    c.Like (c.checkRow b row store).2.1 := by
  unfold checkRow
  split
  · exact .refl c
  · exact ⟨rfl, rfl, rfl, rfl⟩

theorem checkRow_keeps (hb : b.Orderly a) {store : σ} (hs : a.valid store) (c : Cursor)
    (row : List String) : a.Keeps (fun _ => True) store (c.checkRow b row store).2.2 := by
  unfold checkRow
  split
  · exact .refl hs
  · next k _ => exact k.check_keeps hb hs row

theorem fill_touches (hb : b.Orderly a) {n : Nat} {store : σ} (hs : a.valid store) (c : Cursor)
    (page : Page) :
    a.Touches c.statement store (c.fill b n page store).2 ∧
    ∀ done, (c.fill b n page store).1 = .ok done → c.Like done.2.1 := by
  induction n generalizing c page store with
  | zero =>
    refine ⟨.refl hs, fun done hdone => ?_⟩
    cases hdone
    exact .refl c
  | succ n ih =>
    have hnext := c.nextRow_touches hb hs
    have hnextLike := c.nextRow_like b store
    unfold fill
    split
    · next heq =>
      rw [heq] at hnext
      exact ⟨hnext, fun done hdone => by cases hdone⟩
    · next heq =>
      rw [heq] at hnext hnextLike
      refine ⟨hnext, fun done hdone => ?_⟩
      cases hdone
      exact hnextLike
    · next row c₁ store₁ heq =>
      rw [heq] at hnext hnextLike
      dsimp only at hnext hnextLike
      have hcheck : a.Touches c.statement store₁ (c₁.checkRow b row store₁).2.2 :=
        .of_keeps (c₁.checkRow_keeps hb hnext.keeps.valid row)
      have hcheckLike := c₁.checkRow_like b row store₁
      split
      · next heq =>
        rw [heq] at hcheck
        exact ⟨hnext.trans hcheck, fun done hdone => by cases hdone⟩
      · next c₂ store₂ heq =>
        rw [heq] at hcheck hcheckLike
        have hlike : c.Like c₂ := hnextLike.trans hcheckLike
        dsimp only at hcheck
        split
        · exact ⟨hnext.trans hcheck, fun done hdone => by cases hdone⟩
        · next page' _ =>
          obtain ⟨hrest, hrestLike⟩ := ih hcheck.keeps.valid c₂ page'
          rw [hlike.statement] at hrest
          exact ⟨(hnext.trans hcheck).trans hrest, fun done hdone =>
            hlike.trans (hrestLike done hdone)⟩

/-- A cursor that comes back has its statement open still and the call has succeeded; of one that
does not come back the statement is let go. -/
theorem deliver_cases (hb : b.Orderly a) {store : σ} (hs : a.valid store) (settings : PageSettings)
    (token : Continuation) (n : Nat) (c : Cursor) :
    ((c.deliver b settings token n store).2.1 = none ∧
      b.Drops a c.statement store (c.deliver b settings token n store).2.2) ∨
    ∃ c', (c.deliver b settings token n store).2.1 = some c' ∧ c'.statement = c.statement ∧
      c'.total = c.total ∧ (c.deliver b settings token n store).1.isOk = true ∧
      a.Touches c.statement store (c.deliver b settings token n store).2.2 := by
  obtain ⟨hfill, hfillLike⟩ := c.fill_touches hb hs (n := n) (.empty c.columns settings)
  unfold deliver
  split
  · next heq =>
    rw [heq] at hfill
    exact .inl ⟨rfl, .touches hfill (.close hb hfill.keeps.valid)⟩
  · next exhausted c₁ page store₁ heq =>
    rw [heq] at hfill hfillLike
    have hlike : c.Like c₁ := hfillLike _ rfl
    dsimp only at hfill ⊢
    have hdrops : b.Drops a c.statement store (b.release c₁.statement store₁) := by
      rw [hlike.statement]
      exact .touches hfill (.close hb hfill.keeps.valid)
    split
    · split
      · exact .inl ⟨rfl, hdrops⟩
      · exact .inl ⟨rfl, hdrops⟩
    · exact .inr ⟨_, rfl, hlike.statement, hlike.total, rfl, hfill⟩

end Cursor

/-! ## Fresh requests -/

theorem countAhead_keeps (hb : b.Orderly a) {store : σ} (hs : a.valid store) (e : Engine)
    (r : Request) (compiled : Compiled) :
    a.Keeps (fun _ => True) store (countAhead b e r compiled store).2 := by
  have hscalar := hb.scalar compiled.count.sql compiled.count.binds hs
  unfold countAhead
  split
  · split <;> simp_all
  · exact .refl hs

theorem totalOfRows_keeps (hb : b.Orderly a) {store : σ} (hs : a.valid store) (r : Request)
    (statement : StatementId) (total : Option Nat) :
    a.Keeps (fun _ => True) store (totalOfRows b r statement total store).2 := by
  have hcount := hb.rowCount statement hs
  unfold totalOfRows
  split
  · split <;> simp_all
  · exact .refl hs

/-- A statement that was opened and closed again leaves no trace. -/
theorem Account.Opens.release (hb : b.Orderly a) {s s' : σ} {id : StatementId}
    (h : a.Opens id s s') : b.Settled a s (b.release id s') :=
  .of_opens h (.close hb h.keeps.valid)

/-- Either a statement is open then, or all is as before. -/
theorem openStatement_opens (hb : b.Orderly a) {store : σ} (hs : a.valid store) (e : Engine)
    (r : Request) (compiled : Compiled) :
    (∀ f, (openStatement b e r compiled store).1 = .error f →
      b.Settled a store (openStatement b e r compiled store).2) ∧
    ∀ statement first, (openStatement b e r compiled store).1 = .ok (statement, first) →
      a.Opens statement store (openStatement b e r compiled store).2 := by
  unfold openStatement
  split
  · next hrun =>
    exact ⟨fun _ _ => .of_keeps (hb.run_error hs hrun), fun _ _ hdone => by cases hdone⟩
  · next id s₁ hrun =>
    have hopens := hb.run_ok hs hrun
    have hfetched := hopens.touches (hb.fetch id hopens.keeps.valid)
    split
    · next heq =>
      rw [heq] at hfetched
      exact ⟨fun _ _ => hfetched.release hb, fun _ _ hdone => by cases hdone⟩
    · next heq =>
      rw [heq] at hfetched
      constructor
      · intro f hdone
        cases hdone
      · intro statement first hdone
        cases hdone
        exact hfetched

theorem recount_settled (hb : b.Orderly a) {store : σ} (hs : a.valid store) (e : Engine)
    (caller : Caller) (r : Request) : b.Settled a store (recount b e caller r store).2 := by
  unfold recount
  split
  · exact .of_keeps (.refl hs)
  · split
    · next hrun => exact .of_keeps (hb.run_error hs hrun)
    · next id s₁ hrun =>
      have hopens := hb.run_ok hs hrun
      have hcounted := hopens.touches (.of_keeps (hb.rowCount id hopens.keeps.valid))
      exact hcounted.release hb

theorem totalOfNoRows_settled (hb : b.Orderly a) {store : σ} (hs : a.valid store) (e : Engine)
    (caller : Caller) (r : Request) (total : Option Nat) :
    b.Settled a store (totalOfNoRows b e caller r total store).2 := by
  unfold totalOfNoRows
  split
  · split
    · exact recount_settled hb hs e caller r
    · exact .of_keeps (.refl hs)
  · exact .of_keeps (.refl hs)

/-! ## Calls -/

/-- The token that an action names. -/
def Action.names : Action → Option Continuation
  | .execute r => if r.isContinuation then some r.continuation else none
  | .close token => some token
  | _ => none

namespace Session

/-- What a call that names the token `named`, if any, can do to a session of the engine `e`. `ok` says
whether it succeeds. -/
inductive Step (b : Backend σ) (a : Account σ) (e : Engine) (s : Session σ)
    (named : Option Continuation) (ok : Bool) : Engine → Session σ → Prop where
  | still {e' : Engine} {s' : Session σ} : (∀ t, named = some t → s.cursors.find? t = none) →
    s'.cursors = s.cursors → b.Settled a s.store s'.store → Step b a e s named ok e' s'
  | opens {e' : Engine} {s' : Session σ} {c : Cursor} : ok = true →
    e'.nextToken = e.nextToken + 1 → s'.cursors = s.cursors.put ⟨e.nextToken⟩ c →
    a.Opens c.statement s.store s'.store → Step b a e s named ok e' s'
  | turns {e' : Engine} {s' : Session σ} {t : Continuation} {c c' : Cursor} : ok = true →
    named = some t → s.cursors.find? t = some c → s'.cursors = (s.cursors.erase t).put t c' →
    c'.statement = c.statement → c'.total = c.total →
    a.Touches c.statement s.store s'.store → Step b a e s named ok e' s'
  | ends {e' : Engine} {s' : Session σ} {t : Continuation} {c : Cursor} : named = some t →
    s.cursors.find? t = some c → s'.cursors = s.cursors.erase t →
    b.Drops a c.statement s.store s'.store → Step b a e s named ok e' s'

/-- The cursors of a session stand for different open statements, under tokens issued before. -/
structure Sound (a : Account σ) (e : Engine) (s : Session σ) : Prop where
  valid : a.valid s.store
  issued : ∀ t c, (t, c) ∈ s.cursors → t.number < e.nextToken
  opened : ∀ t c, (t, c) ∈ s.cursors → a.Opened s.store c.statement
  apart : ∀ t c u d, (t, c) ∈ s.cursors → (u, d) ∈ s.cursors → c.statement = d.statement → t = u

variable {e e' : Engine} {s s' : Session σ} {named : Option Continuation} {ok : Bool}
  {t : Continuation}

theorem sound_start (e : Engine) (caller : Caller) {store : σ} (hs : a.valid store) :
    (start caller store).Sound a e := by
  constructor
  case valid => exact hs
  all_goals intros; contradiction

theorem Sound.find?_nextToken (h : s.Sound a e) : s.cursors.find? ⟨e.nextToken⟩ = none := by
  cases hfind : s.cursors.find? ⟨e.nextToken⟩ with
  | none => rfl
  | some c => exact absurd (h.issued _ c (Cursors.mem_of_find? hfind)) (Nat.lt_irrefl _)

theorem Sound.opened_of_find? (h : s.Sound a e) {c : Cursor} (hfind : s.cursors.find? t = some c) :
    a.Opened s.store c.statement :=
  h.opened t c (Cursors.mem_of_find? hfind)

/-! ## The invariant of a step -/

/-- Cursors may go, as long as the statements of the others stay as they are. -/
theorem Sound.mono (hs : s.Sound a e) (hgrows : e.nextToken ≤ e'.nextToken) {caller : Caller}
    {cursors : Cursors} {store : σ} (hvalid : a.valid store)
    (hsub : ∀ t c, (t, c) ∈ cursors → (t, c) ∈ s.cursors ∧
      a.view store c.statement = a.view s.store c.statement) :
    (Session.mk caller cursors store).Sound a e' where
  valid := hvalid
  issued t c hc := Nat.lt_of_lt_of_le (hs.issued t c (hsub t c hc).1) hgrows
  opened t c hc := by
    obtain ⟨hmem, hview⟩ := hsub t c hc
    rw [Account.Opened, hview]
    exact hs.opened t c hmem
  apart t c u d hc hd := hs.apart t c u d (hsub t c hc).1 (hsub u d hd).1

/-- A cursor may be put that stands for an open statement of its own. -/
theorem Sound.put (hs : s.Sound a e) {c : Cursor} (ht : t.number < e.nextToken)
    (hopened : a.Opened s.store c.statement)
    (hown : ∀ u d, (u, d) ∈ s.cursors → d.statement = c.statement → u = t) :
    (Session.mk s.caller (s.cursors.put t c) s.store).Sound a e where
  valid := hs.valid
  issued u d hd := by
    rcases Cursors.mem_put.mp hd with ⟨hd, -⟩ | ⟨rfl, -⟩
    · exact hs.issued u d hd
    · exact ht
  opened u d hd := by
    rcases Cursors.mem_put.mp hd with ⟨hd, -⟩ | ⟨-, rfl⟩
    · exact hs.opened u d hd
    · exact hopened
  apart u d v f hd hf heq := by
    rcases Cursors.mem_put.mp hd with ⟨hd', -⟩ | ⟨rfl, rfl⟩
    · rcases Cursors.mem_put.mp hf with ⟨hf', -⟩ | ⟨rfl, rfl⟩
      · exact hs.apart u d v f hd' hf' heq
      · exact hown u d hd' heq
    · rcases Cursors.mem_put.mp hf with ⟨hf', -⟩ | ⟨rfl, -⟩
      · exact (hown v f hf' heq.symm).symm
      · rfl

/-- Other cursors than that of `v` stay as they are when only its statement changes. -/
theorem Sound.view_of_ne (hs : s.Sound a e) {v : Continuation} {c : Cursor} {store : σ}
    (hfind : s.cursors.find? v = some c) (hkeeps : a.Keeps (· ≠ c.statement) s.store store)
    {d : Cursor} (hd : (t, d) ∈ s.cursors) (hne : t ≠ v) :
    a.view store d.statement = a.view s.store d.statement :=
  hkeeps.view _ fun heq => hne (hs.apart t d v c hd (Cursors.mem_of_find? hfind) heq)

/-- A statement opened now belongs to no cursor yet. -/
theorem Sound.view_of_opens (hs : s.Sound a e) {id : StatementId} {store : σ}
    (hopens : a.Opens id s.store store) {d : Cursor} (hd : (t, d) ∈ s.cursors) :
    d.statement ≠ id ∧ a.view store d.statement = a.view s.store d.statement := by
  have hne : d.statement ≠ id := fun heq => hopens.new (heq ▸ hs.opened t d hd)
  exact ⟨hne, hopens.keeps.view _ hne⟩

theorem Step.sound (h : Step b a e s named ok e' s') (hs : s.Sound a e)
    (hgrows : e.nextToken ≤ e'.nextToken) : s'.Sound a e' := by
  obtain ⟨caller, cursors, store⟩ := s'
  cases h with
  | still _ hcursors hsettled =>
    cases hcursors
    exact hs.mono hgrows hsettled.valid fun t c hc => ⟨hc, hsettled.view _ (.inr (hs.opened t c hc))⟩
  | @opens c _ htoken hcursors hopens =>
    cases hcursors
    have hkept : (Session.mk caller s.cursors store).Sound a e' :=
      hs.mono hgrows hopens.keeps.valid fun t d hd => ⟨hd, (hs.view_of_opens hopens hd).2⟩
    refine hkept.put (by simp [htoken]) hopens.opened fun u d hd heq => ?_
    exact absurd heq (hs.view_of_opens hopens hd).1
  | @turns v c c' _ _ hfind hcursors hstatement _ htouches =>
    cases hcursors
    have hkept : (Session.mk caller (s.cursors.erase v) store).Sound a e' := by
      refine hs.mono hgrows htouches.keeps.valid fun t d hd => ?_
      obtain ⟨hd, hne⟩ := Cursors.mem_erase.mp hd
      exact ⟨hd, hs.view_of_ne hfind htouches.keeps hd hne⟩
    have hc := Cursors.mem_of_find? hfind
    have hopened := htouches.opened (hs.opened v c hc)
    refine hkept.put (Nat.lt_of_lt_of_le (hs.issued v c hc) hgrows) (hstatement ▸ hopened) ?_
    intro u d hd heq
    exact hs.apart u d v c (Cursors.mem_erase.mp hd).1 hc (heq.trans hstatement)
  | @ends v c _ hfind hcursors hdrops =>
    cases hcursors
    refine hs.mono hgrows hdrops.keeps.valid fun t d hd => ?_
    obtain ⟨hd, hne⟩ := Cursors.mem_erase.mp hd
    exact ⟨hd, hs.view_of_ne hfind hdrops.keeps hd hne⟩

/-- A cursor that a call does not name is untouched, and so is what there is to see of its
statement. -/
theorem Step.frame (h : Step b a e s named ok e' s') (hs : s.Sound a e) (ht : named ≠ some t)
    (hissued : t.number < e.nextToken) :
    s'.cursors.find? t = s.cursors.find? t ∧ ∀ c, s.cursors.find? t = some c →
      a.view s'.store c.statement = a.view s.store c.statement := by
  have hother : ∀ {u c}, named = some u → s.cursors.find? u = some c →
      a.Keeps (· ≠ c.statement) s.store s'.store → t ≠ u ∧ ∀ d, s.cursors.find? t = some d →
      a.view s'.store d.statement = a.view s.store d.statement := by
    intro u c hu hfind hkeeps
    have hne : t ≠ u := fun heq => ht (heq ▸ hu)
    exact ⟨hne, fun d hd => hs.view_of_ne hfind hkeeps (Cursors.mem_of_find? hd) hne⟩
  cases h with
  | still _ hcursors hsettled =>
    exact ⟨by rw [hcursors], fun c hfind => hsettled.view _ (.inr (hs.opened_of_find? hfind))⟩
  | opens _ _ hcursors hopens =>
    have hne : t ≠ ⟨e.nextToken⟩ := fun heq => by simp [heq] at hissued
    exact ⟨by rw [hcursors, Cursors.find?_put_of_ne _ _ hne],
      fun c hfind => (hs.view_of_opens hopens (Cursors.mem_of_find? hfind)).2⟩
  | turns _ hu hfind hcursors _ _ htouches =>
    obtain ⟨hne, hview⟩ := hother hu hfind htouches.keeps
    refine ⟨?_, hview⟩
    rw [hcursors, Cursors.find?_put_of_ne _ _ hne, Cursors.find?_erase_of_ne _ hne]
  | ends hu hfind hcursors hdrops =>
    obtain ⟨hne, hview⟩ := hother hu hfind hdrops.keeps
    exact ⟨by rw [hcursors, Cursors.find?_erase_of_ne _ hne], hview⟩

/-! ## The step of each call -/

theorem close_step (hb : b.Orderly a) (hs : s.Sound a e) (token : Continuation) :
    Step b a e s (some token) ok e (s.close b token).2 := by
  unfold close
  split
  · next hnone =>
    refine .still (fun t ht => ?_) rfl (.of_keeps (.refl hs.valid))
    cases ht
    exact hnone
  · next c hfind =>
    have hclose : b.Drops a c.statement s.store (b.close c.statement s.store).2 :=
      .close hb hs.valid
    dsimp only
    split <;> exact .ends rfl hfind rfl hclose

theorem executeNext_step (hb : b.Orderly a) (hs : s.Sound a e) (r : Request) :
    Step b a e s (some r.continuation) (executeNext b e s r).1.isOk e (executeNext b e s r).2 := by
  unfold executeNext
  split
  · dsimp only
    split <;> exact close_step hb hs r.continuation
  · split
    · next hnone =>
      refine .still (fun t ht => ?_) rfl (.of_keeps (.refl hs.valid))
      cases ht
      exact hnone
    · next c hfind =>
      unfold deliverPage
      dsimp only
      rcases c.deliver_cases hb hs.valid e.pages r.continuation r.maxRows.toNat with
        ⟨hnone, hdrops⟩ | ⟨c', hsome, hstatement, htotal, hok, htouches⟩
      · rw [hnone]
        exact .ends rfl hfind rfl hdrops
      · rw [hsome]
        exact .turns hok rfl hfind rfl hstatement htotal htouches

/-- The first page of a new cursor. -/
theorem deliverFirst_step (hb : b.Orderly a) {c : Cursor} {store : σ} {n : Nat}
    (h : a.Opens c.statement s.store store) :
    Step b a e s none
      (deliverPage b e.pages { s with store := store } ⟨e.nextToken⟩ c n).1.isOk e.issue.2
      (deliverPage b e.pages { s with store := store } ⟨e.nextToken⟩ c n).2 := by
  unfold deliverPage
  dsimp only [Engine.issue]
  rcases c.deliver_cases hb h.keeps.valid e.pages ⟨e.nextToken⟩ n with
    ⟨hnone, hdrops⟩ | ⟨c', hsome, hstatement, -, hok, htouches⟩
  · rw [hnone]
    exact .still nofun rfl (.of_opens h hdrops)
  · rw [hsome]
    refine .opens hok rfl rfl ?_
    rw [hstatement]
    exact h.touches htouches

theorem executeFresh_step (hb : b.Orderly a) (hs : s.Sound a e) (r : Request) :
    Step b a e s none (executeFresh b e s r).1.isOk (executeFresh b e s r).2.1
      (executeFresh b e s r).2.2 := by
  unfold executeFresh
  dsimp only
  split
  · exact .still nofun rfl (.of_keeps (.refl hs.valid))
  · next compiled checker _ =>
    have hcount := countAhead_keeps hb hs.valid e r compiled
    split
    · next heq =>
      rw [heq] at hcount
      exact .still nofun rfl (.of_keeps hcount)
    · next total store heq =>
      rw [heq] at hcount
      dsimp only at hcount
      obtain ⟨hfailed, hopened⟩ := openStatement_opens hb hcount.valid e r compiled
      split
      · next f store' heq =>
        rw [heq] at hfailed
        exact .still nofun rfl (.trans (.of_keeps hcount) (hfailed f rfl))
      · next statement store' heq =>
        rw [heq] at hopened
        have hreleased := ((hopened statement none rfl).of_keeps hcount).release hb
        exact .still nofun rfl (hreleased.trans
          (totalOfNoRows_settled hb hreleased.valid e s.caller r total))
      · next statement first store' heq =>
        rw [heq] at hopened
        have hopens := (hopened statement (some first) rfl).of_keeps hcount
        have htotal := totalOfRows_keeps hb hopens.keeps.valid r statement total
        dsimp only at htotal
        split
        · next heq =>
          rw [heq] at htotal
          exact .still nofun rfl ((hopens.touches (.of_keeps htotal)).release hb)
        · next total' store'' heq =>
          rw [heq] at htotal
          have hcounted := hopens.touches (.of_keeps htotal)
          split
          · exact .still nofun rfl (hcounted.release hb)
          · exact deliverFirst_step hb hcounted

end Session

theorem call_step (hb : b.Orderly a) {e : Engine} {s : Session σ} (hs : s.Sound a e)
    (action : Action) :
    Session.Step b a e s action.names (Service.call b e s action).1.isOk
      (Service.call b e s action).2.1 (Service.call b e s action).2.2 := by
  have hmap : ∀ {α β : Type} (f : α → β) (out : Except QueryError α),
      (out.map f).isOk = out.isOk := fun f out => by cases out <;> rfl
  cases action with
  | execute r =>
    by_cases hr : r.isContinuation = true
    · simpa [Service.call, Session.execute, Action.names, hr, hmap] using
        Session.executeNext_step hb hs r
    · simpa [Service.call, Session.execute, Action.names, hr, hmap] using
        Session.executeFresh_step hb hs r
  | close token => exact Session.close_step hb hs token
  | compile r => exact .still nofun rfl (.of_keeps (.refl hs.valid))
  | state token => exact .still nofun rfl (.of_keeps (.refl hs.valid))
  | identify caller => exact .still nofun rfl (.of_keeps (.refl hs.valid))
  | setPolicy strict => exact .still nofun rfl (.of_keeps (.refl hs.valid))
  | reload schema => exact .still nofun rfl (.of_keeps (.refl hs.valid))
  | schema => exact .still nofun rfl (.of_keeps (.refl hs.valid))

/-! ## The engine -/

/-- Tokens are issued in order, and pages keep their settings. -/
structure Engine.Grows (e e' : Engine) : Prop where
  token : e.nextToken ≤ e'.nextToken
  pages : e'.pages = e.pages

theorem Engine.Grows.refl {e : Engine} : e.Grows e := ⟨Nat.le_refl _, rfl⟩

theorem Session.Sound.grows {e e' : Engine} {s : Session σ} (h : s.Sound a e)
    (hgrows : e.Grows e') : s.Sound a e' :=
  { h with issued := fun t c hc => Nat.lt_of_lt_of_le (h.issued t c hc) hgrows.token }

theorem executeFresh_grows (e : Engine) (s : Session σ) (r : Request) :
    e.Grows (s.executeFresh b e r).2.1 := by
  have hsame : e.Grows e := .refl
  unfold Session.executeFresh
  dsimp only
  split
  · exact hsame
  · split
    · exact hsame
    · split
      · exact hsame
      · exact hsame
      · split
        · exact hsame
        · split
          · exact hsame
          · exact ⟨Nat.le_succ _, rfl⟩

theorem call_grows (e : Engine) (s : Session σ) (action : Action) :
    e.Grows (Service.call b e s action).2.1 := by
  have hsame : e.Grows e := .refl
  cases action with
  | execute r =>
    by_cases hr : r.isContinuation = true
    · simpa [Service.call, Session.execute, hr] using hsame
    · simpa [Service.call, Session.execute, hr] using executeFresh_grows e s r
  | setPolicy strict => exact ⟨Nat.le_refl _, rfl⟩
  | reload schema =>
    simp only [Service.call, Engine.reload]
    split <;> exact ⟨Nat.le_refl _, rfl⟩
  | close token => exact hsame
  | compile r => exact hsame
  | state token => exact hsame
  | identify caller => exact hsame
  | schema => exact hsame

theorem Session.Sound.execute (hb : b.Orderly a) {e : Engine} {s : Session σ} (hs : s.Sound a e)
    (r : Request) : (s.execute b e r).2.2.Sound a (s.execute b e r).2.1 :=
  (call_step hb hs (.execute r)).sound hs (call_grows e s (.execute r)).token

end CatalogQuery
