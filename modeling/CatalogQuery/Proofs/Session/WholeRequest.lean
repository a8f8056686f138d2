import CatalogQuery.Proofs.Session.Runs

/-!
# Whole requests

A fresh request opens a cursor, and its turns are those of that cursor. So the pages of a request
are the rows of the backend, cut in the sizes asked for, whatever else the run of the service holds.

* `Delivers`: what the turns of a request are to be, one by one and together;
* `Service.opens_watches`: the first turn of a request, and the cursor behind it;
* `Service.requestTurns_delivers`: all turns of a request in a run.
-/

namespace CatalogQuery

variable {σ : Type} {b : Backend σ} {a : Account σ}

/-- The turns hand out the rows in order, none twice and none left out: each as many as were asked
for, the end with the first turn that asks for more than are left, and nothing behind it. -/
structure Delivers (token : Continuation) (rows : List (List String)) (ns : List Nat)
    (turns : List (Except QueryError Turn)) : Prop where
  length : turns.length = ns.length
  together : turns.flatMap rowsOf = rows.take ns.sum
  each : ∀ k n, ns[k]? = some n → (ns.take k).sum ≤ rows.length →
    ∃ turn, turns[k]? = some (.ok turn) ∧
      turn.rows = (rows.drop (ns.take k).sum).take n ∧
      turn.rows.length = min n (rows.length - (ns.take k).sum) ∧
      (turn.state = .exhausted ∧ turn.continuation = .exhausted ↔
        rows.length - (ns.take k).sum < n) ∧
      (turn.state = .open ∧ turn.continuation = token ↔ n ≤ rows.length - (ns.take k).sum)
  behind : ∀ k n, ns[k]? = some n → rows.length < (ns.take k).sum →
    turns[k]? = some (.error (.cursorNotFound token))
  noRows : ∀ total, .error (.noRows total) ∉ turns

theorem turnsOf_delivers (token : Continuation) (rows : List (List String)) (ns : List Nat) :
    Delivers token rows ns (turnsOf token (some rows) ns) where
  length := length_turnsOf token (some rows) ns
  together := rows_turnsOf token rows ns
  each := by
    intro k n hn hle
    have hturn := getElem?_turnsOf token rows ns k
    rw [hn, Option.map_some, if_pos hle] at hturn
    rw [hturn]
    simp only [turnOf, List.length_drop]
    by_cases hend : rows.length - (ns.take k).sum < n
    · have htake : (rows.drop (ns.take k).sum).take n = rows.drop (ns.take k).sum :=
        List.take_of_length_le (by rw [List.length_drop]; omega)
      rw [if_pos hend]
      refine ⟨_, rfl, htake.symm, ?_, by simp [hend], ?_⟩
      · rw [List.length_drop]
        omega
      · simpa using hend
    · rw [if_neg hend]
      refine ⟨_, rfl, rfl, ?_, by simp [hend], ?_⟩
      · rw [List.length_take, List.length_drop]
      · simpa using hend
  behind := by
    intro k n hn hlt
    rw [getElem?_turnsOf, hn, Option.map_some, if_neg (Nat.not_le.mpr hlt)]
  noRows := noRows_notMem_turnsOf token (some rows) ns

namespace Service

variable {service : Service σ} {i : Nat} {s : Session σ} {r : Request} {compiled : Compiled}
  {checker : Option RowChecker} {rows : List (List String)}

/-- The turns of a request that session `i` starts now, and of its continuations in the run behind.
-/
def requestTurns (b : Backend σ) (i : Nat) (service : Service σ) (r : Request)
    (later : List (Nat × Action)) : List (Except QueryError Turn) :=
  (service.turn? b (i, .execute r)).toList
    ++ turns b i ⟨service.engine.nextToken⟩ (service.next b (i, .execute r)) later

/-- A fresh request is the first turn of a cursor of its own. -/
theorem opens_watches (hb : b.Lawful a) (hruns : service.Runs a)
    (hi : service.sessions[i]? = some s)
    (h : Offers b a service.engine s.caller r compiled checker rows)
    (hfresh : r.isContinuation = false) (hrows : 0 < r.maxRows) (hfound : r.offset < rows.length)
    (hpush : ∃ page, (Page.empty compiled.columns service.engine.pages).pushAll
      ((rows.drop r.offset).take r.maxRows.toNat) = .ok page) :
    service.turn? b (i, .execute r) = some (turnOf ⟨service.engine.nextToken⟩
      (some (rows.drop r.offset)) r.maxRows.toNat).1 ∧
    (service.next b (i, .execute r)).Watches b a i ⟨service.engine.nextToken⟩ compiled.columns
      service.engine.pages (turnOf ⟨service.engine.nextToken⟩
        (some (rows.drop r.offset)) r.maxRows.toNat).2 := by
  obtain ⟨page, hpage⟩ := hpush
  obtain ⟨d, e', s', hexecute, htoken, hturn, hafter⟩ :=
    executeFresh_at h hb (hruns.sound i s hi) rfl hrows hfound hpage
  have hfirst : s.execute b service.engine r = (.ok d, e', s') :=
    (Session.execute_of_fresh b service.engine s hfresh).trans hexecute
  have hcall : call b service.engine s (.execute r) = (.ok (.delivery d), e', s') := by
    rw [call, hfirst]
    rfl
  have hgrows := next_grows b service i (.execute r)
  refine ⟨?_, hruns.next hb.orderly _, hgrows.pages, ?_, s', ?_, hafter⟩
  · rw [turn?_execute b r hi, hfirst, ← hturn]
    rfl
  · rw [next_of_some b _ hi, hcall, htoken]
    exact Nat.lt_succ_self _
  · rw [next_self b _ hi, hcall]

theorem requestTurns_delivers (hb : b.Lawful a) (hruns : service.Runs a)
    (hi : service.sessions[i]? = some s)
    (h : Offers b a service.engine s.caller r compiled checker rows)
    (hfresh : r.isContinuation = false) (hrows : 0 < r.maxRows) (hfound : r.offset < rows.length)
    {later : List (Nat × Action)} (hspares : Spares i ⟨service.engine.nextToken⟩ later)
    (hunlimited : Unlimited compiled.columns service.engine.pages (rows.drop r.offset)
      (r.maxRows.toNat :: sizes i ⟨service.engine.nextToken⟩ later)) :
    Delivers ⟨service.engine.nextToken⟩ (rows.drop r.offset)
      (r.maxRows.toNat :: sizes i ⟨service.engine.nextToken⟩ later)
      (requestTurns b i service r later) := by
  have hfits := hunlimited.fits h.columns_width
  obtain ⟨hturn, hwatches⟩ := opens_watches hb hruns hi h hfresh hrows hfound hfits.head
  have htoken : Continuation.isExhausted ⟨service.engine.nextToken⟩ = false := by
    simpa [Continuation.isExhausted] using Nat.ne_of_gt hruns.token
  have hleft : ∀ left, (turnOf ⟨service.engine.nextToken⟩ (some (rows.drop r.offset))
      r.maxRows.toNat).2 = some left → Fits compiled.columns service.engine.pages left
        (sizes i ⟨service.engine.nextToken⟩ later) := by
    intro left hleft
    obtain ⟨before, hbefore, rfl⟩ := turnOf_eq_some hleft
    cases hbefore
    exact hfits.tail
  have hturns : requestTurns b i service r later = turnsOf ⟨service.engine.nextToken⟩
      (some (rows.drop r.offset))
      (r.maxRows.toNat :: sizes i ⟨service.engine.nextToken⟩ later) := by
    rw [requestTurns, hturn, hwatches.turns_eq hb htoken hspares hleft]
    rfl
  rw [hturns]
  exact turnsOf_delivers _ _ _

end Service

end CatalogQuery
