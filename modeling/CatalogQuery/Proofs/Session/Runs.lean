import CatalogQuery.Proofs.Session.Paging

/-!
# Runs of a service

The calls of all sessions of a service, in any order. Whatever they are, each session stays sound;
and the turns of a cursor among them are those of the cursor alone.

* `Service.Reached.runs`: each session of a service is sound, whatever was called before;
* `Service.Watches`: where the cursor of a token stands in the course of a run;
* `Service.Watches.turns_eq`: its turns in any run that does not close it.
-/

namespace CatalogQuery

variable {σ : Type} {b : Backend σ} {a : Account σ}

/-- The number of rows that an action asks for, if it continues the request of that token. -/
def Action.rows? (token : Continuation) : Action → Option Int
  | .execute r => if r.continuation = token then some r.maxRows else none
  | _ => none

/-- The action would close the cursor of that token. -/
def Action.closes (token : Continuation) (action : Action) : Prop :=
  action = .close token ∨ ∃ n, action.rows? token = some n ∧ n ≤ 0

theorem Action.rows?_eq_some {token : Continuation} {action : Action} {n : Int}
    (h : action.rows? token = some n) :
    ∃ r, action = .execute r ∧ r.continuation = token ∧ r.maxRows = n := by
  cases action with
  | execute r =>
    simp only [rows?, Option.ite_none_right_eq_some, Option.some.injEq] at h
    exact ⟨r, rfl, h⟩
  | _ => cases h

theorem Action.names_ne {token : Continuation} {action : Action}
    (hrows : action.rows? token = none) (hcloses : ¬action.closes token) :
    action.names ≠ some token := by
  intro hnames
  cases action with
  | execute r =>
    simp only [names] at hnames
    split at hnames
    · simp [rows?, Option.some.inj hnames] at hrows
    · cases hnames
  | close token' =>
    cases hnames
    exact hcloses (.inl rfl)
  | _ => cases hnames

/-- The turn that is told by a reply to an executed request. -/
def Reply.turn? : Except QueryError Reply → Option (Except QueryError Turn)
  | .error e => some (.error e)
  | .ok (.delivery d) => some (.ok d.turn)
  | .ok _ => none

/-- No page of `ns` rows, one behind the other, meets a limit of the resources. -/
def Unlimited (columns : List ColumnId) (settings : PageSettings) (left : List (List String))
    (ns : List Nat) : Prop :=
  ∀ (k n : Nat) (message : String), ns[k]? = some n → (Page.empty columns settings).pushAll
    ((left.drop (ns.take k).sum).take n) ≠ .error (.resource message)

/-- The pages of `ns` rows, one behind the other, can be made. -/
def Fits (columns : List ColumnId) (settings : PageSettings) (left : List (List String))
    (ns : List Nat) : Prop :=
  ∀ k n, ns[k]? = some n → ∃ page, (Page.empty columns settings).pushAll
    ((left.drop (ns.take k).sum).take n) = .ok page

section Fits

variable {columns : List ColumnId} {settings : PageSettings} {left : List (List String)} {n : Nat}
  {ns : List Nat}

theorem Unlimited.fits (h : Unlimited columns settings left ns)
    (hwidth : ∀ row ∈ left, row.length = columns.length) : Fits columns settings left ns := by
  intro k n hn
  have hlen : ∀ row ∈ (left.drop (ns.take k).sum).take n,
      row.length = (Page.empty columns settings).columns.length := by
    intro row hrow
    simpa [Page.empty] using hwidth row (List.mem_of_mem_drop (List.mem_of_mem_take hrow))
  rcases Page.pushAll_cases hlen with hpage | ⟨message, hrefused⟩
  · exact hpage
  · exact absurd hrefused (h k n message hn)

theorem Fits.unlimited (h : Fits columns settings left ns) :
    Unlimited columns settings left ns := by
  intro k n message hn hrefused
  obtain ⟨page, hpage⟩ := h k n hn
  cases hpage.symm.trans hrefused

theorem Fits.nil : Fits columns settings left [] := by simp [Fits]

theorem Fits.cons (h : ∃ page, (Page.empty columns settings).pushAll (left.take n) = .ok page)
    (hrest : Fits columns settings (left.drop n) ns) : Fits columns settings left (n :: ns) := by
  intro k m hm
  cases k with
  | zero =>
    cases hm
    exact h
  | succ k =>
    rw [List.take_succ_cons, List.sum_cons, ← List.drop_drop]
    exact hrest k m hm

theorem Fits.head (h : Fits columns settings left (n :: ns)) :
    ∃ page, (Page.empty columns settings).pushAll (left.take n) = .ok page := h 0 n rfl

theorem Fits.tail (h : Fits columns settings left (n :: ns)) :
    Fits columns settings (left.drop n) ns := by
  intro k m hm
  rw [List.drop_drop]
  exact h (k + 1) m hm

end Fits

namespace Service

/-! ## One call after the other -/

/-- The service after a call; one of a session that is not there changes nothing. -/
def next (b : Backend σ) (service : Service σ) (call : Nat × Action) : Service σ :=
  (service.perform b call.1 call.2).elim service (·.2)

/-- The service after some calls, one behind the other. -/
def after (b : Backend σ) (service : Service σ) (calls : List (Nat × Action)) : Service σ :=
  calls.foldl (next b) service

variable {service : Service σ} {i j : Nat} {s : Session σ} {action : Action}

theorem next_of_none (b : Backend σ) (action : Action) (hj : service.sessions[j]? = none) :
    service.next b (j, action) = service := by
  simp [next, perform, hj]

theorem next_of_some (b : Backend σ) (action : Action) (hi : service.sessions[i]? = some s) :
    service.next b (i, action) = ⟨(call b service.engine s action).2.1,
      service.sessions.set i (call b service.engine s action).2.2⟩ := by
  simp [next, perform, hi]

theorem next_self (b : Backend σ) (action : Action) (hi : service.sessions[i]? = some s) :
    (service.next b (i, action)).sessions[i]? = some (call b service.engine s action).2.2 := by
  rw [next_of_some b action hi]
  exact List.getElem?_set_self (List.getElem?_eq_some_iff.mp hi).1

/-- A call of another session leaves a session alone. -/
theorem next_of_ne (b : Backend σ) (action : Action) (hne : j ≠ i) :
    (service.next b (j, action)).sessions[i]? = service.sessions[i]? := by
  cases hj : service.sessions[j]? with
  | none => rw [next_of_none b action hj]
  | some t =>
    rw [next_of_some b action hj]
    exact List.getElem?_set_ne hne

/-- What holds of a session is kept by a call if it is kept by the calls of this session. -/
theorem next_session {P : Session σ → Prop} {call : Nat × Action}
    (h : ∃ s, service.sessions[i]? = some s ∧ P s)
    (hown : ∀ s action, call = (i, action) → service.sessions[i]? = some s → P s →
      P (Service.call b service.engine s action).2.2) :
    ∃ s, (service.next b call).sessions[i]? = some s ∧ P s := by
  obtain ⟨j, action⟩ := call
  obtain ⟨s, hi, hP⟩ := h
  by_cases hne : j = i
  · subst hne
    exact ⟨_, next_self b action hi, hown s action rfl hi hP⟩
  · exact ⟨s, (next_of_ne b action hne).trans hi, hP⟩

theorem next_grows (b : Backend σ) (service : Service σ) (j : Nat) (action : Action) :
    service.engine.Grows (service.next b (j, action)).engine := by
  cases hj : service.sessions[j]? with
  | none =>
    rw [next_of_none b action hj]
    exact .refl
  | some t =>
    rw [next_of_some b action hj]
    exact call_grows service.engine t action

/-! ## Every session stays sound -/

/-- A service whose sessions have not been called yet. -/
structure Starts (a : Account σ) (service : Service σ) : Prop where
  token : 0 < service.engine.nextToken
  fresh : ∀ s ∈ service.sessions, s.cursors = [] ∧ a.valid s.store

/-- What holds of a service in any run. -/
structure Runs (a : Account σ) (service : Service σ) : Prop where
  token : 0 < service.engine.nextToken
  sound : ∀ (i : Nat) (s : Session σ), service.sessions[i]? = some s → s.Sound a service.engine

theorem Starts.runs (h : service.Starts a) : service.Runs a where
  token := h.token
  sound := by
    intro i s hi
    obtain ⟨hcursors, hvalid⟩ := h.fresh s (List.mem_of_getElem? hi)
    constructor
    case valid => exact hvalid
    all_goals rw [hcursors]; intros; contradiction

theorem Runs.next (hb : b.Orderly a) (h : service.Runs a) (call : Nat × Action) :
    (service.next b call).Runs a := by
  obtain ⟨j, action⟩ := call
  have hgrows := next_grows b service j action
  refine ⟨Nat.lt_of_lt_of_le h.token hgrows.token, fun i s' hi' => ?_⟩
  by_cases hne : j = i
  · subst hne
    cases hj : service.sessions[j]? with
    | none =>
      rw [next_of_none b action hj, hj] at hi'
      cases hi'
    | some s =>
      rw [next_self b action hj] at hi'
      cases hi'
      rw [next_of_some b action hj] at hgrows ⊢
      exact (call_step hb (h.sound j s hj) action).sound (h.sound j s hj) hgrows.token
  · rw [next_of_ne b action hne] at hi'
    exact (h.sound i s' hi').grows hgrows

/-- The services that calls lead to, in any order and number. -/
inductive Reached (b : Backend σ) (a : Account σ) : Service σ → Prop where
  | start {service : Service σ} : service.Starts a → Reached b a service
  | call {service : Service σ} (call : Nat × Action) : Reached b a service →
    Reached b a (service.next b call)

theorem Reached.runs (hb : b.Lawful a) (h : service.Reached b a) : service.Runs a := by
  induction h with
  | start hstart => exact hstart.runs
  | call call _ ih => exact ih.next hb.orderly call

/-! ## The turns of a cursor in a run -/

/-- The number of rows that a call asks for, if it is one of session `i` and continues the request
of the token. -/
def asks (i : Nat) (token : Continuation) (call : Nat × Action) : Option Nat :=
  if call.1 = i then (call.2.rows? token).map Int.toNat else none

/-- The pages that a run asks for, by their sizes. -/
def sizes (i : Nat) (token : Continuation) (calls : List (Nat × Action)) : List Nat :=
  calls.filterMap (asks i token)

/-- The turn that a call brings. -/
def turn? (b : Backend σ) (service : Service σ) (call : Nat × Action) :
    Option (Except QueryError Turn) :=
  (service.perform b call.1 call.2).bind fun done => Reply.turn? done.1

theorem turn?_execute (b : Backend σ) (r : Request) (hi : service.sessions[i]? = some s) :
    service.turn? b (i, .execute r) = some ((s.execute b service.engine r).1.map Delivery.turn) := by
  simp only [turn?, perform, hi, Option.map_some, Option.bind_some, call]
  cases (s.execute b service.engine r).1 <;> rfl

/-- The turns that the continuations of a request bring in a run. -/
def turns (b : Backend σ) (i : Nat) (token : Continuation) (service : Service σ) :
    List (Nat × Action) → List (Except QueryError Turn)
  | [] => []
  | call :: calls =>
    (if (asks i token call).isSome then (service.turn? b call).toList else [])
      ++ turns b i token (service.next b call) calls

/-- No call of the run closes the cursor of the token. -/
def Spares (i : Nat) (token : Continuation) (calls : List (Nat × Action)) : Prop :=
  ∀ action, (i, action) ∈ calls → ¬action.closes token

/-- Where the cursor of a token stands in the course of a run. -/
structure Watches (b : Backend σ) (a : Account σ) (i : Nat) (token : Continuation)
    (columns : List ColumnId) (settings : PageSettings) (at_ : Option (List (List String)))
    (service : Service σ) : Prop where
  runs : service.Runs a
  pages : service.engine.pages = settings
  issued : token.number < service.engine.nextToken
  session : ∃ s, service.sessions[i]? = some s ∧ s.At b a token columns at_

variable {token : Continuation} {columns : List ColumnId} {settings : PageSettings}
  {at_ : Option (List (List String))}

/-- A call that is no turn of the cursor leaves it where it is. -/
theorem Watches.idle (hb : b.Lawful a) (h : service.Watches b a i token columns settings at_)
    {call : Nat × Action} (hasks : asks i token call = none) (hspares : Spares i token [call]) :
    (service.next b call).Watches b a i token columns settings at_ := by
  have hgrows := next_grows b service call.1 call.2
  refine ⟨h.runs.next hb.orderly call, hgrows.pages.trans h.pages,
    Nat.lt_of_lt_of_le h.issued hgrows.token, next_session h.session ?_⟩
  rintro s action rfl hi hat
  have hrows : action.rows? token = none := by simpa [asks] using hasks
  have hnames := Action.names_ne hrows (hspares action List.mem_cons_self)
  have hsound := h.runs.sound i s hi
  exact (call_step hb.orderly hsound action).at hsound hnames h.issued hat

/-- A continuation is the next turn of the cursor. -/
theorem Watches.turn (hb : b.Lawful a) (h : service.Watches b a i token columns settings at_)
    (htoken : token.isExhausted = false) {call : Nat × Action} {n : Nat}
    (hasks : asks i token call = some n) (hspares : Spares i token [call])
    (hpush : ∀ left, at_ = some left →
      ∃ page, (Page.empty columns settings).pushAll (left.take n) = .ok page) :
    service.turn? b call = some (turnOf token at_ n).1 ∧
    (service.next b call).Watches b a i token columns settings (turnOf token at_ n).2 := by
  obtain ⟨j, action⟩ := call
  obtain ⟨s, hi, hat⟩ := h.session
  have hself : j = i := by
    unfold asks at hasks
    split at hasks
    · assumption
    · cases hasks
  subst hself
  obtain ⟨m, hrows, rfl⟩ : ∃ m, action.rows? token = some m ∧ m.toNat = n := by
    simpa [asks] using hasks
  have hpositive : 0 < m := by
    have hcloses := hspares action List.mem_cons_self
    exact Int.not_le.mp fun hm => hcloses (.inr ⟨m, hrows, hm⟩)
  obtain ⟨r, rfl, hr, rfl⟩ : ∃ r, action = .execute r ∧ r.continuation = token ∧ r.maxRows = m :=
    Action.rows?_eq_some hrows
  have hcontinues : r.isContinuation = true := by simp [Request.isContinuation, hr, htoken]
  obtain ⟨out, s', hexecute, hturn, hafter⟩ := Session.execute_at hb (h.runs.sound j s hi)
    hcontinues hr hpositive hat (h.pages ▸ hpush)
  have hcall : call b service.engine s (.execute r) = (out.map .delivery, service.engine, s') := by
    rw [call, hexecute]
  constructor
  case left => rw [turn?_execute b r hi, hexecute, hturn]
  case right =>
    refine ⟨h.runs.next hb.orderly _, ?_, ?_, s', ?_, hafter⟩
    · rw [next_of_some b _ hi, hcall]
      exact h.pages
    · rw [next_of_some b _ hi, hcall]
      exact h.issued
    · rw [next_self b _ hi, hcall]

/-- The turns of a cursor do not depend on what else there is in a run. -/
theorem Watches.turns_eq (hb : b.Lawful a)
    (h : service.Watches b a i token columns settings at_) (htoken : token.isExhausted = false)
    {calls : List (Nat × Action)} (hspares : Spares i token calls)
    (hfits : ∀ left, at_ = some left → Fits columns settings left (sizes i token calls)) :
    turns b i token service calls = turnsOf token at_ (sizes i token calls) := by
  induction calls generalizing service at_ with
  | nil => rfl
  | cons call calls ih =>
    have hone : Spares i token [call] := fun action hmem =>
      hspares action (by simp_all)
    have hrest : Spares i token calls := fun action hmem =>
      hspares action (List.mem_cons_of_mem call hmem)
    cases hasks : asks i token call with
    | none =>
      have hsizes : sizes i token (call :: calls) = sizes i token calls :=
        List.filterMap_cons_none hasks
      rw [hsizes] at hfits ⊢
      simpa [turns, hasks] using ih (h.idle hb hasks hone) hrest hfits
    | some n =>
      have hsizes : sizes i token (call :: calls) = n :: sizes i token calls :=
        List.filterMap_cons_some hasks
      rw [hsizes] at hfits ⊢
      obtain ⟨hturn, hnext⟩ := h.turn hb htoken hasks hone fun left hleft => (hfits left hleft).head
      have hleft : ∀ left', (turnOf token at_ n).2 = some left' →
          Fits columns settings left' (sizes i token calls) := by
        intro left' hleft'
        obtain ⟨left, rfl, rfl⟩ := turnOf_eq_some hleft'
        exact (hfits left rfl).tail
      simp only [turns, hasks, hturn, Option.isSome_some, if_true, Option.toList_some, turnsOf,
        List.singleton_append, ih hnext hrest hleft]

end Service

end CatalogQuery
