import CatalogQuery.Session.Execute

/-!
# Services

Sessions that share one engine, and the calls that their callers make.
-/

namespace CatalogQuery

structure Service (σ : Type) where
  engine : Engine
  sessions : List (Session σ)

inductive Action where
  | execute (r : Request)
  | compile (r : Request)
  | close (token : Continuation)
  | state (token : Continuation)
  | identify (caller : Caller)
  | setPolicy (strict : Bool)
  | reload (schema : Schema)
  | schema

inductive Reply where
  | delivery (d : Delivery)
  | compiled (c : Compiled)
  | token (t : Continuation)
  | state (s : CursorState)
  | caller (c : Caller)
  | policy (strict : Bool)
  | reloaded (tables : Nat)
  | schema (s : Schema)

namespace Service

variable {σ : Type}

/-- One call of a session: the reply, the engine and the session after it. -/
def call (b : Backend σ) (e : Engine) (s : Session σ) :
    Action → Except QueryError Reply × Engine × Session σ
  | .execute r =>
    let done := s.execute b e r
    (done.1.map .delivery, done.2)
  | .compile r => ((e.compile s.caller r).map .compiled, e, s)
  | .close token =>
    let done := s.close b token
    (done.1.map .token, e, done.2)
  | .state token => (.ok (.state (s.cursorState token)), e, s)
  | .identify caller => (.ok (.caller caller), e, { s with caller := caller })
  | .setPolicy strict =>
    let done := e.setPolicy strict
    (.ok (.policy done.1), done.2, s)
  | .reload schema =>
    let done := e.reload schema
    (done.1.map fun _ => .reloaded schema.tables.length, done.2, s)
  | .schema => (.ok (.schema e.schema), e, s)

/-- One call of the session at `index`; without such a session nothing happens. -/
def perform (b : Backend σ) (service : Service σ) (index : Nat) (action : Action) :
    Option (Except QueryError Reply × Service σ) :=
  service.sessions[index]?.map fun s =>
    let done := call b service.engine s action
    (done.1, ⟨done.2.1, service.sessions.set index done.2.2⟩)

end Service

end CatalogQuery
