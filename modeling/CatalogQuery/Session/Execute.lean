import CatalogQuery.Session.Cursor

/-!
# Executing requests

A request without a token is compiled and run, and its first page delivered. A request with a token
delivers the next page, or closes the cursor if it asks for no rows. A statement is closed as soon
as its last row is delivered or anything fails.
-/

namespace CatalogQuery

variable {σ : Type}

/-! ## Pages of a cursor -/

/-- The next row of a cursor: the one fetched ahead, or one from the backend. -/
def Cursor.nextRow (b : Backend σ) (c : Cursor) (store : σ) :
    Except BackendFailure (Option (List String)) × Cursor × σ :=
  match c.pending with
  | some row => (.ok (some row), { c with pending := none }, store)
  | none =>
    let fetched := b.fetch c.statement store
    (fetched.1, c, fetched.2)

/-- Lets the checker of a cursor decide on a row. -/
def Cursor.checkRow (b : Backend σ) (c : Cursor) (row : List String) (store : σ) :
    Except QueryError Unit × Cursor × σ :=
  match c.checker with
  | none => (.ok (), c, store)
  | some checker =>
    let checked := checker.check b row store
    (checked.1, { c with checker := some checked.2.1 }, checked.2.2)

/-- Adds up to `n` rows to a page. The answer says whether the rows ran out before. -/
def Cursor.fill (b : Backend σ) :
    Nat → Cursor → Page → σ → Except QueryError (Bool × Cursor × Page) × σ
  | 0, c, page, store => (.ok (false, c, page), store)
  | n + 1, c, page, store =>
    match c.nextRow b store with
    | (.error e, _, store) => (.error (.backend e), store)
    | (.ok none, c, store) => (.ok (true, c, page), store)
    | (.ok (some row), c, store) =>
      match c.checkRow b row store with
      | (.error e, _, store) => (.error e, store)
      | (.ok (), c, store) =>
        match page.push row with
        | (.error e, _) => (.error e, store)
        | (.ok (), page) => fill b n c page store

/-- Delivers a page of up to `n` rows. The cursor comes back if it stays open. -/
def Cursor.deliver (b : Backend σ) (settings : PageSettings) (token : Continuation) (n : Nat)
    (c : Cursor) (store : σ) : Except QueryError Delivery × Option Cursor × σ :=
  match c.fill b n (.empty c.columns settings) store with
  | (.error e, store) => (.error e, none, b.release c.statement store)
  | (.ok (exhausted, c, page), store) =>
    let c := { c with delivered := c.delivered + page.rowCount }
    if exhausted then
      let store := b.release c.statement store
      if c.delivered = 0 then (.error (.noRows c.total), none, store)
      else (.ok ⟨page, .exhausted, c.total, .exhausted⟩, none, store)
    else (.ok ⟨page, token, c.total, .open⟩, some c, store)

namespace Session

/-- Delivers a page of a cursor and keeps the cursor if it stays open. -/
def deliverPage (b : Backend σ) (settings : PageSettings) (s : Session σ) (token : Continuation)
    (c : Cursor) (n : Nat) : Except QueryError Delivery × Session σ :=
  let delivered := c.deliver b settings token n s.store
  let cursors := match delivered.2.1 with
    | some c => s.cursors.put token c
    | none => s.cursors
  (delivered.1, { s with cursors := cursors, store := delivered.2.2 })

/-! ## Closing -/

/-- Closes a cursor. A token without a cursor is closed already. -/
def close (b : Backend σ) (s : Session σ) (token : Continuation) :
    Except QueryError Continuation × Session σ :=
  match s.cursors.find? token with
  | none => (.ok .exhausted, s)
  | some c =>
    let closed := b.close c.statement s.store
    let s := { s with cursors := s.cursors.erase token, store := closed.2 }
    match closed.1 with
    | .ok () => (.ok .exhausted, s)
    | .error e => (.error (.backend e), s)

end Session

/-! ## Fresh requests -/

/-- The total from a statement of its own, where the dialect wants one. -/
def countAhead (b : Backend σ) (e : Engine) (r : Request) (compiled : Compiled) (store : σ) :
    Except BackendFailure (Option Nat) × σ :=
  if r.totalCount && e.dialect.countQuery then
    match b.scalar compiled.count.sql compiled.count.binds store with
    | (.ok n, store) => (.ok (some n.toNat), store)
    | (.error f, store) => (.error f, store)
  else (.ok none, store)

/-- Runs the statement and fetches its first row. -/
def openStatement (b : Backend σ) (e : Engine) (r : Request) (compiled : Compiled) (store : σ) :
    Except BackendFailure (StatementId × Option (List String)) × σ :=
  match b.run compiled.statement.sql compiled.statement.binds (e.dialect.skipRows r.offset) store with
  | (.error f, store) => (.error f, store)
  | (.ok statement, store) =>
    match b.fetch statement store with
    | (.error f, store) => (.error f, b.release statement store)
    | (.ok first, store) => (.ok (statement, first), store)

/-- Counts the rows of a request without its offset; any failure leaves the total unknown. -/
def recount (b : Backend σ) (e : Engine) (caller : Caller) (r : Request) (store : σ) :
    Option Nat × σ :=
  match e.compile caller { r with offset := 0 } with
  | .error _ => (none, store)
  | .ok compiled =>
    match b.run compiled.statement.sql compiled.statement.binds 0 store with
    | (.error _, store) => (none, store)
    | (.ok statement, store) =>
      let counted := b.rowCount statement store
      (counted.1.toOption, b.release statement counted.2)

/-- The total for an answer without rows: where it is not known yet and an offset may hide rows, they
are counted without it. -/
def totalOfNoRows (b : Backend σ) (e : Engine) (caller : Caller) (r : Request)
    (total : Option Nat) (store : σ) : Option Nat × σ :=
  if r.totalCount && total.isNone then
    if r.offset > 0 then recount b e caller r store else (some 0, store)
  else (total, store)

/-- The total for an answer with rows: the rows of the statement and those before them, in 64 bits. -/
def totalOfRows (b : Backend σ) (r : Request) (statement : StatementId) (total : Option Nat)
    (store : σ) : Except BackendFailure (Option Nat) × σ :=
  if r.totalCount && total.isNone then
    match b.rowCount statement store with
    | (.ok n, store) => (.ok (some ((n + r.offset) % bound64)), store)
    | (.error f, store) => (.error f, store)
  else (.ok total, store)

namespace Session

/-- Executes a request that does not continue another one. -/
def executeFresh (b : Backend σ) (e : Engine) (s : Session σ) (r : Request) :
    Except QueryError Delivery × Engine × Session σ :=
  let prepared : Except QueryError (Compiled × Option RowChecker) := do
    let compiled ← e.compile s.caller r
    let checker ← e.checker r compiled
    return (compiled, checker)
  match prepared with
  | .error err => (.error err, e, s)
  | .ok (compiled, checker) =>
    match countAhead b e r compiled s.store with
    | (.error f, store) => (.error (.backend f), e, { s with store := store })
    | (.ok total, store) =>
      match openStatement b e r compiled store with
      | (.error f, store) => (.error (.backend f), e, { s with store := store })
      | (.ok (statement, none), store) =>
        let store := b.release statement store
        let counted := totalOfNoRows b e s.caller r total store
        (.error (.noRows counted.1), e, { s with store := counted.2 })
      | (.ok (statement, some first), store) =>
        match totalOfRows b r statement total store with
        | (.error f, store) =>
          (.error (.backend f), e, { s with store := b.release statement store })
        | (.ok total, store) =>
          let columns := compiled.select.map (·.column)
          if r.maxRows ≤ 0 then
            (.ok (.final columns e.pages total .exhausted), e,
              { s with store := b.release statement store })
          else
            let (token, e) := e.issue
            let cursor : Cursor := ⟨statement, columns, checker, some first, 0, total⟩
            let delivered := deliverPage b e.pages { s with store := store } token cursor
              r.maxRows.toNat
            (delivered.1, e, delivered.2)

/-- Executes a request that continues another one. -/
def executeNext (b : Backend σ) (e : Engine) (s : Session σ) (r : Request) :
    Except QueryError Delivery × Session σ :=
  if r.maxRows ≤ 0 then
    let closed := s.close b r.continuation
    match closed.1 with
    | .ok _ => (.ok (.final [] e.pages none .closed), closed.2)
    | .error err => (.error err, closed.2)
  else
    match s.cursors.find? r.continuation with
    | none => (.error (.cursorNotFound r.continuation), s)
    | some c =>
      deliverPage b e.pages { s with cursors := s.cursors.erase r.continuation } r.continuation c
        r.maxRows.toNat

def execute (b : Backend σ) (e : Engine) (s : Session σ) (r : Request) :
    Except QueryError Delivery × Engine × Session σ :=
  if r.isContinuation then
    let done := executeNext b e s r
    (done.1, e, done.2)
  else executeFresh b e s r

end Session

end CatalogQuery
