import CatalogQuery.Proofs.Session.OpenStatements

/-!
# Continuation tokens

All sessions of a service take their tokens off one numbering. Whatever the calls are and whatever a
backend answers to them, a token opens a cursor once, in the session it was issued to, and when that
cursor is gone the token is dead. Nothing is asked of the backend here: no account of its statements,
no law.

* `Session.Moves`: what a call can do to the cursors of a session, with `call_moves`;
* `Service.issued`: the tokens of a run, each with its session;
* `Service.Numbered`: what is open was issued, in order and to that session;
* `Service.tokens_never_return`: tokens are unique and never come back to life.
-/

namespace CatalogQuery

variable {σ : Type} {b : Backend σ}

/-- The token under which a reply reports an open cursor. -/
def Reply.opened? : Except QueryError Reply → Option Continuation
  | .ok (.delivery d) => if d.state = .open then some d.continuation else none
  | _ => none

/-! ## One call -/

namespace Session

variable {e e' : Engine} {s s' : Session σ} {named : Option Continuation}
  {out : Except QueryError Reply} {t : Continuation}

/-- What a call that names the token `named`, if any, and is answered by `out` can do to the cursors
of a session and the numbering of the engine `e`. A token can be spent on a cursor that its first
page ends already. -/
inductive Moves (e : Engine) (s : Session σ) (named : Option Continuation)
    (out : Except QueryError Reply) : Engine → Session σ → Prop where
  | still {e' : Engine} {s' : Session σ} : (∀ t, named = some t → s.cursors.find? t = none) →
    Reply.opened? out = none → e'.nextToken = e.nextToken → s'.cursors = s.cursors →
    Moves e s named out e' s'
  | spends {e' : Engine} {s' : Session σ} : named = none → Reply.opened? out = none →
    e'.nextToken = e.nextToken + 1 → s'.cursors = s.cursors → Moves e s named out e' s'
  | opens {e' : Engine} {s' : Session σ} {c : Cursor} : named = none →
    Reply.opened? out = some ⟨e.nextToken⟩ → e'.nextToken = e.nextToken + 1 →
    s'.cursors = s.cursors.put ⟨e.nextToken⟩ c → Moves e s named out e' s'
  | turns {e' : Engine} {s' : Session σ} {t : Continuation} {c c' : Cursor} : named = some t →
    s.cursors.find? t = some c → Reply.opened? out = some t → e'.nextToken = e.nextToken →
    s'.cursors = (s.cursors.erase t).put t c' → Moves e s named out e' s'
  | ends {e' : Engine} {s' : Session σ} {t : Continuation} {c : Cursor} : named = some t →
    s.cursors.find? t = some c → Reply.opened? out = none → e'.nextToken = e.nextToken →
    s'.cursors = s.cursors.erase t → Moves e s named out e' s'

/-- A call that names no token and opens no cursor. -/
theorem Moves.unnamed (hout : Reply.opened? out = none) (htoken : e'.nextToken = e.nextToken)
    (hcursors : s'.cursors = s.cursors) : Moves e s none out e' s' := by
  refine .still (fun t ht => ?_) hout htoken hcursors
  cases ht

end Session

/-- An answer that is no delivery opens no cursor. -/
theorem Reply.opened?_map {α : Type} {f : α → Reply} (hf : ∀ x, opened? (.ok (f x)) = none)
    (out : Except QueryError α) : opened? (out.map f) = none := by
  cases out with
  | error err => rfl
  | ok x => exact hf x

/-- A delivery leaves its cursor open under the token it was asked for, or ends it. -/
theorem Cursor.deliver_opened (b : Backend σ) (settings : PageSettings) (token : Continuation)
    (n : Nat) (c : Cursor) (store : σ) :
    (Reply.opened? ((c.deliver b settings token n store).1.map .delivery) = none ∧
      (c.deliver b settings token n store).2.1 = none) ∨
    (Reply.opened? ((c.deliver b settings token n store).1.map .delivery) = some token ∧
      ∃ c', (c.deliver b settings token n store).2.1 = some c') := by
  unfold deliver
  split
  · exact .inl ⟨rfl, rfl⟩
  · dsimp only
    split
    · split
      · exact .inl ⟨rfl, rfl⟩
      · exact .inl ⟨rfl, rfl⟩
    · exact .inr ⟨rfl, _, rfl⟩

namespace Session

theorem close_moves (b : Backend σ) (e : Engine) (s : Session σ) (token : Continuation)
    (hout : Reply.opened? out = none) : Moves e s (some token) out e (s.close b token).2 := by
  unfold close
  split
  · next hnone =>
    refine .still (fun t ht => ?_) hout rfl rfl
    cases ht
    exact hnone
  · next c hfind =>
    dsimp only
    split <;> exact .ends rfl hfind hout rfl rfl

theorem executeNext_moves (b : Backend σ) (e : Engine) (s : Session σ) (r : Request) :
    Moves e s (some r.continuation) ((executeNext b e s r).1.map .delivery) e
      (executeNext b e s r).2 := by
  unfold executeNext
  split
  · dsimp only
    split <;> exact close_moves b e s r.continuation rfl
  · split
    · next hnone =>
      refine .still (fun t ht => ?_) rfl rfl rfl
      cases ht
      exact hnone
    · next c hfind =>
      unfold deliverPage
      dsimp only
      rcases c.deliver_opened b e.pages r.continuation r.maxRows.toNat s.store with
        ⟨hout, hnone⟩ | ⟨hout, c', hsome⟩
      · rw [hnone]
        exact .ends rfl hfind hout rfl rfl
      · rw [hsome]
        exact .turns rfl hfind hout rfl rfl

theorem executeFresh_moves (b : Backend σ) (e : Engine) (s : Session σ) (r : Request) :
    Moves e s none ((executeFresh b e s r).1.map .delivery) (executeFresh b e s r).2.1
      (executeFresh b e s r).2.2 := by
  unfold executeFresh
  dsimp only
  split
  · exact .unnamed rfl rfl rfl
  · split
    · exact .unnamed rfl rfl rfl
    · split
      · exact .unnamed rfl rfl rfl
      · exact .unnamed rfl rfl rfl
      · split
        · exact .unnamed rfl rfl rfl
        · next store _ =>
          split
          · exact .unnamed rfl rfl rfl
          · unfold deliverPage
            dsimp only [Engine.issue]
            rcases Cursor.deliver_opened b e.pages ⟨e.nextToken⟩ r.maxRows.toNat _ store with
              ⟨hout, hnone⟩ | ⟨hout, c', hsome⟩
            · rw [hnone]
              exact .spends rfl hout rfl rfl
            · rw [hsome]
              exact .opens rfl hout rfl rfl

end Session

theorem call_moves (b : Backend σ) (e : Engine) (s : Session σ) (action : Action) :
    Session.Moves e s action.names (Service.call b e s action).1 (Service.call b e s action).2.1
      (Service.call b e s action).2.2 := by
  cases action with
  | execute r =>
    by_cases hr : r.isContinuation = true
    · simpa [Service.call, Session.execute, Action.names, hr] using Session.executeNext_moves b e s r
    · simpa [Service.call, Session.execute, Action.names, hr] using
        Session.executeFresh_moves b e s r
  | close token =>
    exact Session.close_moves b e s token (Reply.opened?_map (fun _ => rfl) _)
  | compile r => exact .unnamed (Reply.opened?_map (fun _ => rfl) _) rfl rfl
  | reload schema =>
    refine .unnamed (Reply.opened?_map (fun _ => rfl) _) ?_ rfl
    simp only [Service.call, Engine.reload]
    split <;> rfl
  | state token => exact .unnamed rfl rfl rfl
  | identify caller => exact .unnamed rfl rfl rfl
  | setPolicy strict => exact .unnamed rfl rfl rfl
  | schema => exact .unnamed rfl rfl rfl

/-! ## What follows of every call -/

namespace Session

variable {e e' : Engine} {s s' : Session σ} {named : Option Continuation}
  {out : Except QueryError Reply} {t : Continuation}

/-- The session has a cursor under the token. -/
def Knows (s : Session σ) (t : Continuation) : Prop := (s.cursors.find? t).isSome

theorem not_knows_iff : ¬s.Knows t ↔ s.cursors.find? t = none := by
  simp [Knows]

theorem cursorState_eq_open_iff : s.cursorState t = .open ↔ t.isExhausted = false ∧ s.Knows t := by
  unfold cursorState Knows
  cases ht : t.isExhausted <;> cases hfind : (s.cursors.find? t).isSome <;> simp

theorem Moves.nextToken (h : Moves e s named out e' s') :
    e'.nextToken = e.nextToken ∨ e'.nextToken = e.nextToken + 1 := by
  cases h with
  | still _ _ hnext | turns _ _ _ hnext | ends _ _ _ hnext => exact .inl hnext
  | spends _ _ hnext | opens _ _ hnext => exact .inr hnext

/-- A cursor was there before or stands under the token that the call took. -/
theorem Moves.origin (h : Moves e s named out e' s') (hknows : s'.Knows t) :
    s.Knows t ∨ e'.nextToken = e.nextToken + 1 ∧ t = ⟨e.nextToken⟩ := by
  unfold Knows at hknows ⊢
  cases h with
  | still _ _ _ hcursors | spends _ _ _ hcursors => exact .inl (hcursors ▸ hknows)
  | opens _ _ hnext hcursors =>
    by_cases ht : t = ⟨e.nextToken⟩
    · exact .inr ⟨hnext, ht⟩
    · rw [hcursors, Cursors.find?_put_of_ne _ _ ht] at hknows
      exact .inl hknows
  | @turns u c c' _ hfind _ _ hcursors =>
    by_cases ht : t = u
    · simp [ht, hfind]
    · rw [hcursors, Cursors.find?_put_of_ne _ _ ht, Cursors.find?_erase_of_ne _ ht] at hknows
      exact .inl hknows
  | @ends u c _ hfind _ _ hcursors =>
    by_cases ht : t = u
    · simp [ht, hfind]
    · rw [hcursors, Cursors.find?_erase_of_ne _ ht] at hknows
      exact .inl hknows

/-- What a call reports open is open. -/
theorem Moves.knows (h : Moves e s named out e' s') (hout : Reply.opened? out = some t) :
    s'.Knows t := by
  unfold Knows
  cases h with
  | still _ hnone | spends _ hnone | ends _ _ hnone => cases hnone.symm.trans hout
  | opens _ hopened _ hcursors =>
    obtain rfl := Option.some.inj (hopened.symm.trans hout)
    simp [hcursors, Cursors.find?_put_self]
  | turns _ _ hopened _ hcursors =>
    obtain rfl := Option.some.inj (hopened.symm.trans hout)
    simp [hcursors, Cursors.find?_put_self]

/-- The cursor that a call names is gone when the call does not report it open. -/
theorem Moves.ended (h : Moves e s named out e' s') (hnamed : named = some t)
    (hout : Reply.opened? out = none) : ¬s'.Knows t := by
  rw [not_knows_iff]
  cases h with
  | still hnone _ _ hcursors => rw [hcursors, hnone t hnamed]
  | spends hnone | opens hnone => cases hnone.symm.trans hnamed
  | turns _ _ hopened => cases hopened.symm.trans hout
  | ends hu _ _ _ hcursors =>
    obtain rfl := Option.some.inj (hu.symm.trans hnamed)
    rw [hcursors, Cursors.find?_erase_self]

end Session

/-! ## The tokens of a run -/

namespace Service

/-- The reply to a call, if its session is there. -/
def reply? (b : Backend σ) (service : Service σ) (call : Nat × Action) :
    Option (Except QueryError Reply) :=
  (service.perform b call.1 call.2).map (·.1)

/-- The token is that of an open cursor of session `i`. -/
def IsOpen (service : Service σ) (i : Nat) (t : Continuation) : Prop :=
  ∃ s, service.sessions[i]? = some s ∧ s.cursorState t = .open

/-- The token that a call takes off the numbering, with the session of the call. -/
def issued? (b : Backend σ) (service : Service σ) (call : Nat × Action) :
    Option (Nat × Continuation) :=
  if (service.next b call).engine.nextToken = service.engine.nextToken then none
  else some (call.1, ⟨service.engine.nextToken⟩)

/-- The tokens issued in a run, one behind the other. -/
def issued (b : Backend σ) (service : Service σ) : List (Nat × Action) → List (Nat × Continuation)
  | [] => []
  | call :: calls => (service.issued? b call).toList ++ issued b (service.next b call) calls

/-- Session `j` has no use for the token: continuing it fails, it counts as closed, and closing it
does nothing. -/
structure Refuses (b : Backend σ) (service : Service σ) (j : Nat) (t : Continuation) : Prop where
  continued : ∀ r : Request, r.continuation = t → 0 < r.maxRows →
    service.perform b j (.execute r) = some (.error (.cursorNotFound t), service)
  state : service.perform b j (.state t) = some (.ok (.state .closed), service)
  closed : service.perform b j (.close t) = some (.ok (.token .exhausted), service)

/-- The call reports the cursor of the token exhausted, closes it, or fails when it is asked for its
next page. -/
def Finishes (b : Backend σ) (service : Service σ) (call : Nat × Action) (t : Continuation) : Prop :=
  call.2.closes t ∨ (call.2.rows? t).isSome ∧
    ((∃ err, service.reply? b call = some (.error err)) ∨
      ∃ d, service.reply? b call = some (.ok (.delivery d)) ∧ d.state = .exhausted)

variable {service : Service σ} {i j : Nat} {s : Session σ} {t : Continuation}
  {log : List (Nat × Continuation)}

theorem after_concat (b : Backend σ) (service : Service σ) (calls : List (Nat × Action))
    (call : Nat × Action) :
    service.after b (calls ++ [call]) = (service.after b calls).next b call := by
  simp [after]

/-- A session without a cursor under the token refuses it. -/
theorem refuses_of_not_knows (b : Backend σ) (hj : service.sessions[j]? = some s)
    (ht : t.isExhausted = false) (hknows : ¬s.Knows t) : service.Refuses b j t := by
  have hfind := Session.not_knows_iff.mp hknows
  have hsame : (⟨service.engine, service.sessions.set j s⟩ : Service σ) = service := by
    have hset : service.sessions.set j s = service.sessions := by
      obtain ⟨hlt, rfl⟩ := List.getElem?_eq_some_iff.mp hj
      exact List.set_getElem_self hlt
    rw [hset]
  constructor
  case continued =>
    rintro r rfl hpositive
    have hcontinues : r.isContinuation = true := by simp [Request.isContinuation, ht]
    simp [perform, hj, call, Session.execute, hcontinues, Session.executeNext,
      Int.not_le.mpr hpositive, hfind, hsame, Except.map]
  case state => simp [perform, hj, call, Session.cursorState, ht, hfind, hsame]
  case closed => simp [perform, hj, call, Session.close, hfind, hsame, Except.map]

/-- No session of the service has a cursor yet. -/
structure Fresh (service : Service σ) : Prop where
  token : 0 < service.engine.nextToken
  cursors : ∀ s ∈ service.sessions, s.cursors = []

/-- Tokens are numbered from `first` on, and a cursor stands under one issued to its session. -/
structure Numbered (first : Nat) (log : List (Nat × Continuation)) (service : Service σ) : Prop where
  numbers : log.map (·.2.number) = List.range' first log.length
  next : service.engine.nextToken = first + log.length
  owned : ∀ (i : Nat) (s : Session σ) (t : Continuation), service.sessions[i]? = some s →
    s.Knows t → (i, t) ∈ log

theorem Fresh.numbered (h : service.Fresh) : service.Numbered service.engine.nextToken [] where
  numbers := rfl
  next := rfl
  owned := by
    intro i s t hi hknows
    rw [Session.Knows, h.cursors s (List.mem_of_getElem? hi)] at hknows
    cases hknows

/-- A call takes one token at most, the next one. -/
theorem issued?_eq (b : Backend σ) (service : Service σ) (call : Nat × Action) :
    (service.issued? b call = none ∧
      (service.next b call).engine.nextToken = service.engine.nextToken) ∨
    (service.issued? b call = some (call.1, ⟨service.engine.nextToken⟩) ∧
      (service.next b call).engine.nextToken = service.engine.nextToken + 1) := by
  obtain ⟨i, action⟩ := call
  have hnext : (service.next b (i, action)).engine.nextToken = service.engine.nextToken ∨
      (service.next b (i, action)).engine.nextToken = service.engine.nextToken + 1 := by
    cases hi : service.sessions[i]? with
    | none =>
      rw [next_of_none b action hi]
      exact .inl rfl
    | some s =>
      rw [next_of_some b action hi]
      exact (call_moves b service.engine s action).nextToken
  rcases hnext with hsame | hone
  · exact .inl ⟨by simp [issued?, hsame], hsame⟩
  · exact .inr ⟨by simp [issued?, hone], hone⟩

/-- A cursor of a session after a call was there before, or stands under the token that the call took
and the call was one of this session. -/
theorem origin_next (b : Backend σ) (call : Nat × Action) {s' : Session σ}
    (hi : (service.next b call).sessions[i]? = some s') (hknows : s'.Knows t) :
    (∃ s, service.sessions[i]? = some s ∧ s.Knows t) ∨ service.issued? b call = some (i, t) := by
  obtain ⟨j, action⟩ := call
  by_cases hne : j = i
  · subst hne
    cases hj : service.sessions[j]? with
    | none =>
      rw [next_of_none b action hj, hj] at hi
      cases hi
    | some s =>
      rw [next_self b action hj] at hi
      cases hi
      rcases (call_moves b service.engine s action).origin hknows with hbefore | ⟨hnext, rfl⟩
      · exact .inl ⟨s, rfl, hbefore⟩
      · refine .inr ?_
        rw [issued?, next_of_some b action hj]
        simp [hnext]
  · rw [next_of_ne b action hne] at hi
    exact .inl ⟨s', hi, hknows⟩

theorem Numbered.call {first : Nat} (h : service.Numbered first log) (b : Backend σ)
    (call : Nat × Action) :
    (service.next b call).Numbered first (log ++ (service.issued? b call).toList) := by
  have howned : ∀ (i : Nat) (s' : Session σ) (t : Continuation),
      (service.next b call).sessions[i]? = some s' → s'.Knows t →
      (i, t) ∈ log ++ (service.issued? b call).toList := by
    intro i s' t hi hknows
    rcases origin_next b call hi hknows with ⟨s, hs, hbefore⟩ | hissued
    · exact List.mem_append_left _ (h.owned i s t hs hbefore)
    · simp [hissued]
  rcases service.issued?_eq b call with ⟨hnone, hsame⟩ | ⟨hsome, hone⟩
  · refine ⟨?_, ?_, howned⟩
    · simpa [hnone] using h.numbers
    · simpa [hnone, hsame] using h.next
  · refine ⟨?_, ?_, howned⟩
    · simp [hsome, h.numbers, h.next, List.range'_concat]
    · simp [hsome, hone, h.next, Nat.add_assoc]

theorem Numbered.after {first : Nat} (h : service.Numbered first log) (b : Backend σ)
    (calls : List (Nat × Action)) :
    (service.after b calls).Numbered first (log ++ service.issued b calls) := by
  induction calls generalizing service log with
  | nil => simpa [Service.after, issued] using h
  | cons call calls ih =>
    have hrest := ih (h.call b call)
    rwa [List.append_assoc] at hrest

theorem Numbered.nodup {first : Nat} (h : service.Numbered first log) : (log.map (·.2)).Nodup := by
  have hnumbers : (log.map (·.2.number)).Nodup := by
    rw [h.numbers]
    exact List.nodup_range'
  refine .of_map Continuation.number ?_
  rwa [List.map_map]

theorem Numbered.bounds {first : Nat} (h : service.Numbered first log) (ht : (i, t) ∈ log) :
    first ≤ t.number ∧ t.number < service.engine.nextToken := by
  have hmem : t.number ∈ log.map (·.2.number) := List.mem_map_of_mem (f := (·.2.number)) ht
  rw [h.numbers, List.mem_range'_1] at hmem
  exact h.next ▸ hmem

/-- A token was issued to one session. -/
theorem Numbered.eq_of_mem {first : Nat} (h : service.Numbered first log) (hi : (i, t) ∈ log)
    (hj : (j, t) ∈ log) : i = j :=
  congrArg Prod.fst (List.inj_on_of_nodup_map h.nodup hi hj rfl)

theorem Numbered.isExhausted {first : Nat} (h : service.Numbered first log) (hfirst : 0 < first)
    (ht : (i, t) ∈ log) : t.isExhausted = false := by
  have hbounds := h.bounds ht
  simp only [Continuation.isExhausted, beq_eq_false_iff_ne]
  omega

/-- What is gone from a session stays away from it. -/
theorem not_knows_after (b : Backend σ) (calls : List (Nat × Action))
    (hissued : t.number < service.engine.nextToken)
    (hgone : ∀ s, service.sessions[i]? = some s → ¬s.Knows t) :
    ∀ s, (service.after b calls).sessions[i]? = some s → ¬s.Knows t := by
  induction calls generalizing service with
  | nil => exact hgone
  | cons call calls ih =>
    refine ih (Nat.lt_of_lt_of_le hissued (next_grows b service call.1 call.2).token) ?_
    intro s' hi hknows
    rcases origin_next b call hi hknows with ⟨s, hs, hbefore⟩ | htaken
    · exact hgone s hs hbefore
    · rcases service.issued?_eq b call with ⟨hnone, -⟩ | ⟨hsome, -⟩
      · cases hnone.symm.trans htaken
      · obtain ⟨-, rfl⟩ := Prod.mk.inj (Option.some.inj (hsome.symm.trans htaken))
        exact Nat.lt_irrefl _ hissued

theorem length_next (b : Backend σ) (service : Service σ) (call : Nat × Action) :
    (service.next b call).sessions.length = service.sessions.length := by
  obtain ⟨i, action⟩ := call
  cases hi : service.sessions[i]? with
  | none => rw [next_of_none b action hi]
  | some s =>
    rw [next_of_some b action hi]
    exact List.length_set

theorem length_after (b : Backend σ) (service : Service σ) (calls : List (Nat × Action)) :
    (service.after b calls).sessions.length = service.sessions.length := by
  induction calls generalizing service with
  | nil => rfl
  | cons call calls ih => exact (ih (service.next b call)).trans (length_next b service call)

theorem not_knows_of_not_isOpen (ht : t.isExhausted = false) (h : ¬service.IsOpen i t) :
    ∀ s, service.sessions[i]? = some s → ¬s.Knows t :=
  fun s hi hknows => h ⟨s, hi, Session.cursorState_eq_open_iff.mpr ⟨ht, hknows⟩⟩

/-- A call that finishes a cursor names its token and reports no open cursor. -/
theorem names_of_finishes {action : Action} (ht : t.isExhausted = false)
    (hi : service.sessions[i]? = some s) (h : service.Finishes b (i, action) t) :
    action.names = some t ∧ Reply.opened? (call b service.engine s action).1 = none := by
  have hreply : service.reply? b (i, action) = some (call b service.engine s action).1 := by
    simp [reply?, perform, hi]
  have hexecute : ∀ {n : Int}, action.rows? t = some n →
      ∃ r, action = .execute r ∧ r.continuation = t ∧ r.isContinuation = true ∧ r.maxRows = n := by
    intro n hn
    obtain ⟨r, rfl, rfl, rfl⟩ := Action.rows?_eq_some hn
    exact ⟨r, rfl, rfl, by simp [Request.isContinuation, ht], rfl⟩
  rcases h with (rfl | ⟨n, hn, hclosing⟩) | ⟨hsome, hended⟩
  · refine ⟨rfl, ?_⟩
    simp only [call]
    cases (s.close b t).1 <;> rfl
  · obtain ⟨r, rfl, rfl, hcontinues, rfl⟩ := hexecute hn
    refine ⟨by simp [Action.names, hcontinues], ?_⟩
    simp only [call, Session.execute, hcontinues, if_true, Session.executeNext, hclosing]
    cases (s.close b r.continuation).1 <;> rfl
  · obtain ⟨n, hn⟩ := Option.isSome_iff_exists.mp hsome
    obtain ⟨r, rfl, rfl, hcontinues, rfl⟩ := hexecute hn
    refine ⟨by simp [Action.names, hcontinues], ?_⟩
    rw [hreply] at hended
    rcases hended with ⟨err, herr⟩ | ⟨d, hd, hstate⟩
    · rw [Option.some.inj herr]
      rfl
    · rw [Option.some.inj hd]
      simp [Reply.opened?, hstate]

/-- A call that finishes a cursor of its session leaves no cursor under the token. -/
theorem not_knows_of_finishes {action : Action} (ht : t.isExhausted = false)
    (h : service.Finishes b (i, action) t) :
    ∀ s', (service.next b (i, action)).sessions[i]? = some s' → ¬s'.Knows t := by
  intro s' hi'
  cases hi : service.sessions[i]? with
  | none =>
    rw [next_of_none b action hi, hi] at hi'
    cases hi'
  | some s =>
    rw [next_self b action hi] at hi'
    cases hi'
    obtain ⟨hnamed, hout⟩ := names_of_finishes ht hi h
    exact (call_moves b service.engine s action).ended hnamed hout

theorem Numbered.mem_of_isOpen {first : Nat} (h : service.Numbered first log)
    (hopen : service.IsOpen i t) : (i, t) ∈ log := by
  obtain ⟨s, hi, hstate⟩ := hopen
  exact h.owned i s t hi (Session.cursorState_eq_open_iff.mp hstate).2

theorem Numbered.not_knows_of_ne {first : Nat} (h : service.Numbered first log)
    (hissued : (i, t) ∈ log) (hne : j ≠ i) : ∀ s, service.sessions[j]? = some s → ¬s.Knows t :=
  fun s hs hknows => hne (h.eq_of_mem (h.owned j s t hs hknows) hissued)

/-- A token without a cursor in the session it was issued to is refused for good. -/
theorem Numbered.refuses_after {first : Nat} (h : service.Numbered first log) (hfirst : 0 < first)
    (b : Backend σ) (hissued : (i, t) ∈ log)
    (hgone : ∀ s, service.sessions[i]? = some s → ¬s.Knows t) (later : List (Nat × Action))
    (hj : j < service.sessions.length) : (service.after b later).Refuses b j t := by
  have hnowhere : ∀ s, service.sessions[j]? = some s → ¬s.Knows t := by
    by_cases hne : j = i
    · exact hne ▸ hgone
    · exact h.not_knows_of_ne hissued hne
  rw [← length_after b service later] at hj
  have hs := List.getElem?_eq_getElem hj
  exact refuses_of_not_knows b hs (h.isExhausted hfirst hissued)
    (not_knows_after b later (h.bounds hissued).2 hnowhere _ hs)

/-- In a run of any calls on a service none of whose sessions had a cursor, whatever the backend
answers: tokens are different from each other and from zero; what is open was issued to its session,
by the call that opened it; and no other session can do anything with it, nor can any session at any
time after a call has finished it. -/
theorem tokens_never_return (b : Backend σ) (hfresh : service.Fresh) (calls : List (Nat × Action))
    (call : Nat × Action) {now next : Service σ} {log : List (Nat × Continuation)}
    (hnow : service.after b calls = now) (hnext : now.next b call = next)
    (hlog : service.issued b calls = log) :
    ((log.map (·.2)).Nodup ∧ ∀ t ∈ log.map (·.2), t.number ≠ 0) ∧
    (∀ i t, next.IsOpen i t → ¬now.IsOpen i t →
      i = call.1 ∧ now.issued? b call = some (i, t) ∧ t.number ≠ 0 ∧ t ∉ log.map (·.2)) ∧
    (∀ d, now.reply? b call = some (.ok (.delivery d)) → d.state = .open →
      next.IsOpen call.1 d.continuation) ∧
    (∀ i t, now.IsOpen i t → (i, t) ∈ log) ∧
    (∀ i t, (i, t) ∈ log → ∀ j, j ≠ i → j < service.sessions.length → now.Refuses b j t) ∧
    (∀ t, now.IsOpen call.1 t → now.Finishes b call t → ∀ (later : List (Nat × Action)) (j : Nat),
      j < service.sessions.length → (next.after b later).Refuses b j t) ∧
    ∀ i t, (i, t) ∈ log → ¬now.IsOpen i t → ∀ (later : List (Nat × Action)) (j : Nat),
      j < service.sessions.length → (now.after b later).Refuses b j t := by
  have hnumbered : now.Numbered service.engine.nextToken log := by
    simpa [hnow, hlog] using hfresh.numbered.after b calls
  have hlength : now.sessions.length = service.sessions.length := by
    rw [← hnow, length_after]
  have hexhausted : ∀ {i t}, (i, t) ∈ log → t.isExhausted = false :=
    fun ht => hnumbered.isExhausted hfresh.token ht
  have hnonzero : ∀ {t : Continuation}, t.isExhausted = false → t.number ≠ 0 :=
    fun ht => by simpa [Continuation.isExhausted] using ht
  subst hnext
  refine ⟨⟨hnumbered.nodup, ?distinct⟩, ?opening, ?reported, fun i t => hnumbered.mem_of_isOpen,
    ?elsewhere, ?finished, ?gone⟩
  case distinct =>
    intro t ht
    obtain ⟨⟨i, u⟩, hu, rfl⟩ := List.mem_map.mp ht
    exact hnonzero (hexhausted hu)
  case opening =>
    rintro i t ⟨s', hi, hstate⟩ hbefore
    obtain ⟨ht, hknows⟩ := Session.cursorState_eq_open_iff.mp hstate
    rcases origin_next b call hi hknows with ⟨s, hs, hknew⟩ | htaken
    · exact absurd hknew (not_knows_of_not_isOpen ht hbefore s hs)
    · rcases now.issued?_eq b call with ⟨hnone, -⟩ | ⟨hsome, -⟩
      · cases hnone.symm.trans htaken
      · obtain ⟨rfl, rfl⟩ := Prod.mk.inj (Option.some.inj (hsome.symm.trans htaken))
        refine ⟨rfl, hsome, hnonzero ht, fun hmem => ?_⟩
        obtain ⟨⟨j, u⟩, hu, rfl⟩ := List.mem_map.mp hmem
        exact Nat.lt_irrefl _ (hnumbered.bounds hu).2
  case reported =>
    intro d hreply hstate
    obtain ⟨i, action⟩ := call
    cases hi : now.sessions[i]? with
    | none => simp [reply?, perform, hi] at hreply
    | some s =>
      have hout : Reply.opened? (Service.call b now.engine s action).1 = some d.continuation := by
        have hcall : (Service.call b now.engine s action).1 = .ok (.delivery d) := by
          simpa [reply?, perform, hi] using hreply
        simp [hcall, Reply.opened?, hstate]
      have hknows := (call_moves b now.engine s action).knows hout
      have hi' := next_self b action hi
      have hmem := (hnumbered.call b (i, action)).owned i _ _ hi' hknows
      have ht := (hnumbered.call b (i, action)).isExhausted hfresh.token hmem
      exact ⟨_, hi', Session.cursorState_eq_open_iff.mpr ⟨ht, hknows⟩⟩
  case elsewhere =>
    intro i t ht j hne hj
    have hs := List.getElem?_eq_getElem (hlength ▸ hj)
    exact refuses_of_not_knows b hs (hexhausted ht) (hnumbered.not_knows_of_ne ht hne _ hs)
  case finished =>
    intro t hopen hfinishes later j hj
    have hmem := hnumbered.mem_of_isOpen hopen
    have hlater := (hnumbered.call b call).refuses_after (i := call.1) (t := t) (j := j) hfresh.token b
      (List.mem_append_left _ hmem) (not_knows_of_finishes (hexhausted hmem) hfinishes) later
    rw [length_next, hlength] at hlater
    exact hlater hj
  case gone =>
    intro i t ht hclosed later j hj
    exact hnumbered.refuses_after hfresh.token b ht
      (not_knows_of_not_isOpen (hexhausted ht) hclosed) later (hlength ▸ hj)

/-- Two sessions of one engine, each with a backend that loses its connection. -/
def sharedService : Service Playback :=
  ⟨outageEngine, List.replicate 2 (Session.start .unknown { script := outageScript })⟩

/-- The first page of each of two sessions. -/
def firstPages : List (Nat × Action) := [(0, .execute outageRequest), (1, .execute outageRequest)]

/-- Two sessions hold the tokens one and two. When the next page of the first one fails, its token is
dead for both of them. -/
theorem lost_token_never_returns :
    sharedService.issued Playback.backend firstPages = [(0, ⟨1⟩), (1, ⟨2⟩)] ∧
    (sharedService.after Playback.backend firstPages).Refuses Playback.backend 1 ⟨1⟩ ∧
    ∀ later : List (Nat × Action), ∀ j < 2,
      ((sharedService.after Playback.backend
        (firstPages ++ [(0, .execute (.next ⟨1⟩ 5))])).after Playback.backend later).Refuses
          Playback.backend j ⟨1⟩ := by
  have hfresh : sharedService.Fresh := by
    refine ⟨by decide, fun s hs => ?_⟩
    rw [List.eq_of_mem_replicate hs]
    rfl
  have hissued : sharedService.issued Playback.backend firstPages = [(0, ⟨1⟩), (1, ⟨2⟩)] := by
    decide +kernel
  obtain ⟨-, -, -, -, helsewhere, hfinished, -⟩ := tokens_never_return Playback.backend hfresh
    firstPages (0, .execute (.next ⟨1⟩ 5)) rfl rfl hissued
  have hopen : (sharedService.after Playback.backend firstPages).IsOpen 0 ⟨1⟩ := by
    have hstate : (sharedService.after Playback.backend firstPages).sessions[0]?.map
        (·.cursorState ⟨1⟩) = some .open := by decide +kernel
    exact Option.map_eq_some_iff.mp hstate
  have hfails : (sharedService.after Playback.backend firstPages).Finishes Playback.backend
      (0, .execute (.next ⟨1⟩ 5)) ⟨1⟩ := by
    refine .inr ⟨rfl, .inl ⟨.backend (.message "connection lost"), ?_⟩⟩
    rfl
  refine ⟨hissued, helsewhere 0 ⟨1⟩ (by simp) 1 (by decide) (by decide), fun later j hj => ?_⟩
  rw [after_concat]
  exact hfinished ⟨1⟩ hopen hfails later j hj

end Service

end CatalogQuery
