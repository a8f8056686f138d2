import CatalogQuery.Proofs.Session.Runs
import CatalogQuery.Proofs.Session.ScriptAccount
import Mathlib.Data.List.Nodup

/-!
# Open statements

Whatever fails, a session keeps no statement open that it cannot reach. The open statements are those
of its cursors, one for each; a call that fails lets go of what it was about, and touches nothing
else.

* `Session.Balanced`: the open statements are those of the cursors, each of one cursor;
* `Session.Contained`: what a call, failed or not, leaves of a session;
* `Service.statements_accounted`: both, in any run of a service.
-/

namespace CatalogQuery

variable {σ : Type} {b : Backend σ} {a : Account σ}

/-! ## Cursors without repetition -/

namespace Cursors

variable {cs : Cursors} {t u : Continuation} {c d : Cursor}

def tokens (cs : Cursors) : List Continuation := cs.map (·.1)

def statements (cs : Cursors) : List StatementId := cs.map (·.2.statement)

theorem mem_tokens : t ∈ cs.tokens ↔ ∃ c, (t, c) ∈ cs := by
  simp [tokens]

theorem mem_statements {id : StatementId} :
    id ∈ cs.statements ↔ ∃ t c, (t, c) ∈ cs ∧ c.statement = id := by
  simp [statements]

theorem nodup_tokens_erase (h : cs.tokens.Nodup) (t : Continuation) : (cs.erase t).tokens.Nodup :=
  h.sublist (List.filter_sublist.map _)

theorem nodup_tokens_put (h : cs.tokens.Nodup) (t : Continuation) (c : Cursor) :
    (cs.put t c).tokens.Nodup := by
  have hgone : t ∉ (cs.erase t).tokens := by
    intro ht
    obtain ⟨d, hd⟩ := mem_tokens.mp ht
    exact (mem_erase.mp hd).2 rfl
  have hput : (cs.put t c).tokens = (cs.erase t).tokens ++ [t] := by
    simp [put, tokens]
  rw [hput]
  refine List.nodup_append.mpr ⟨nodup_tokens_erase h t, by simp, ?_⟩
  intro u hu v hv heq
  rw [List.mem_singleton.mp hv] at heq
  exact hgone (heq ▸ hu)

/-- Under a token that occurs once there is one cursor. -/
theorem eq_of_mem (h : cs.tokens.Nodup) (hc : (t, c) ∈ cs) (hd : (t, d) ∈ cs) : c = d := by
  have heq : (t, c) = (t, d) := List.inj_on_of_nodup_map h hc hd rfl
  exact congrArg Prod.snd heq

end Cursors

namespace Session

variable {e e' : Engine} {s s' : Session σ} {named : Option Continuation} {ok : Bool}

/-! ## The balance of a session -/

/-- Cursors stand one for one for the statements that are open. -/
structure Balanced (a : Account σ) (s : Session σ) : Prop where
  tokens : s.cursors.tokens.Nodup
  statements : s.cursors.statements.Nodup
  opened : ∀ id, a.Opened s.store id ↔ id ∈ s.cursors.statements

/-- No statement is open without a cursor, and no token stands twice. -/
structure Covered (a : Account σ) (s : Session σ) : Prop where
  tokens : s.cursors.tokens.Nodup
  cursor : ∀ id, a.Opened s.store id → ∃ t c, (t, c) ∈ s.cursors ∧ c.statement = id

theorem Sound.balanced (hs : s.Sound a e) (h : s.Covered a) : s.Balanced a where
  tokens := h.tokens
  statements := by
    refine List.Nodup.map_on ?_ (List.Nodup.of_map _ h.tokens)
    rintro ⟨t, c⟩ hc ⟨u, d⟩ hd heq
    obtain rfl : t = u := hs.apart t c u d hc hd heq
    rw [Cursors.eq_of_mem h.tokens hc hd]
  opened := by
    intro id
    rw [Cursors.mem_statements]
    constructor
    · exact h.cursor id
    · rintro ⟨t, c, hc, rfl⟩
      exact hs.opened t c hc

/-- A call leaves no statement open behind. -/
theorem Step.covered (h : Step b a e s named ok e' s') (hs : s.Sound a e) (hfrees : b.Frees a)
    (hcovered : s.Covered a) : s'.Covered a := by
  cases h with
  | still _ hcursors hsettled =>
    constructor
    · rw [hcursors]
      exact hcovered.tokens
    · intro id hid
      rw [Account.Opened, hsettled.view id (.inl hfrees)] at hid
      rw [hcursors]
      exact hcovered.cursor id hid
  | @opens c _ _ hcursors hopens =>
    have hfresh := hs.find?_nextToken
    constructor
    · rw [hcursors]
      exact Cursors.nodup_tokens_put hcovered.tokens _ _
    · intro id hid
      rw [hcursors]
      by_cases hnew : id = c.statement
      · exact ⟨_, c, Cursors.mem_put.mpr (.inr ⟨rfl, rfl⟩), hnew.symm⟩
      · rw [Account.Opened, hopens.keeps.view id hnew] at hid
        obtain ⟨t, d, hd, rfl⟩ := hcovered.cursor id hid
        have hne : t ≠ ⟨e.nextToken⟩ := by
          intro heq
          have hlt := hs.issued t d hd
          simp [heq] at hlt
        exact ⟨t, d, Cursors.mem_put.mpr (.inl ⟨hd, hne⟩), rfl⟩
  | @turns t c c' _ _ hfind hcursors hstatement _ htouches =>
    constructor
    · rw [hcursors]
      exact Cursors.nodup_tokens_put (Cursors.nodup_tokens_erase hcovered.tokens t) _ _
    · intro id hid
      rw [hcursors]
      by_cases hown : id = c.statement
      · exact ⟨t, c', Cursors.mem_put.mpr (.inr ⟨rfl, rfl⟩), hstatement.trans hown.symm⟩
      · rw [Account.Opened, htouches.keeps.view id hown] at hid
        obtain ⟨u, d, hd, rfl⟩ := hcovered.cursor id hid
        have hne : u ≠ t := by
          rintro rfl
          exact hown (by rw [Cursors.eq_of_mem hcovered.tokens hd (Cursors.mem_of_find? hfind)])
        exact ⟨u, d, Cursors.mem_put.mpr (.inl ⟨Cursors.mem_erase.mpr ⟨hd, hne⟩, hne⟩), rfl⟩
  | @ends t c _ hfind hcursors hdrops =>
    constructor
    · rw [hcursors]
      exact Cursors.nodup_tokens_erase hcovered.tokens t
    · intro id hid
      rw [hcursors]
      have hown : id ≠ c.statement := by
        rintro rfl
        exact hdrops.gone hfrees hid
      rw [Account.Opened, hdrops.keeps.view id hown] at hid
      obtain ⟨u, d, hd, rfl⟩ := hcovered.cursor id hid
      have hne : u ≠ t := by
        rintro rfl
        exact hown (by rw [Cursors.eq_of_mem hcovered.tokens hd (Cursors.mem_of_find? hfind)])
      exact ⟨u, d, Cursors.mem_erase.mpr ⟨hd, hne⟩, rfl⟩

/-! ## What a call leaves -/

/-- What a call leaves of a session. Cursors it does not name are as they were, and so is what is left
of their statements. If it fails, the cursor it names is gone and the statement of that cursor closed;
without a named cursor nothing has changed at all. -/
structure Contained (a : Account σ) (s : Session σ) (named : Option Continuation) (failed : Prop)
    (s' : Session σ) : Prop where
  others : ∀ t c, named ≠ some t → s.cursors.find? t = some c →
    s'.cursors.find? t = some c ∧ a.view s'.store c.statement = a.view s.store c.statement
  ended : failed → ∀ t, named = some t → s'.cursors.find? t = none ∧
    ∀ c, s.cursors.find? t = some c → ¬a.Opened s'.store c.statement
  nothing : failed → named = none → s'.cursors = s.cursors ∧
    ∀ id, a.view s'.store id = a.view s.store id

theorem Step.contained (h : Step b a e s named ok e' s') (hs : s.Sound a e) (hfrees : b.Frees a) :
    s.Contained a named (ok = false) s' where
  others := by
    intro t c hnamed hfind
    have hissued := hs.issued t c (Cursors.mem_of_find? hfind)
    obtain ⟨hsame, hview⟩ := h.frame hs hnamed hissued
    exact ⟨hsame.trans hfind, hview c hfind⟩
  ended := by
    intro hfailed t hnamed
    cases h with
    | still hnone hcursors _ =>
      have hfind := hnone t hnamed
      refine ⟨by rw [hcursors, hfind], fun c hc => ?_⟩
      cases hfind.symm.trans hc
    | opens hok => cases hok.symm.trans hfailed
    | turns hok => cases hok.symm.trans hfailed
    | @ends u c hu hfind hcursors hdrops =>
      obtain rfl : u = t := Option.some.inj (hu.symm.trans hnamed)
      refine ⟨by rw [hcursors, Cursors.find?_erase_self], fun d hd => ?_⟩
      obtain rfl : c = d := Option.some.inj (hfind.symm.trans hd)
      exact hdrops.gone hfrees
  nothing := by
    intro hfailed hnamed
    cases h with
    | still _ hcursors hsettled => exact ⟨hcursors, fun id => hsettled.view id (.inl hfrees)⟩
    | opens hok => cases hok.symm.trans hfailed
    | turns hok => cases hok.symm.trans hfailed
    | ends hu => cases hu.symm.trans hnamed

end Session

/-! ## Runs -/

namespace Service

/-- A service without cursors over stores in which no statement is open. -/
structure Idle (a : Account σ) (service : Service σ) : Prop extends service.Starts a where
  closed : ∀ s ∈ service.sessions, ∀ id, ¬a.Opened s.store id

variable {service : Service σ} {i : Nat} {s : Session σ}

/-- No session of the service has a statement open without a cursor. -/
def Covers (a : Account σ) (service : Service σ) : Prop :=
  ∀ (i : Nat) (s : Session σ), service.sessions[i]? = some s → s.Covered a

theorem Idle.covers (h : service.Idle a) : service.Covers a := by
  intro i s hi
  have hmem := List.mem_of_getElem? hi
  constructor
  · rw [(h.fresh s hmem).1]
    exact .nil
  · intro id hid
    exact absurd hid (h.closed s hmem id)

theorem Covers.next (hb : b.Orderly a) (hfrees : b.Frees a) (hruns : service.Runs a)
    (h : service.Covers a) (call : Nat × Action) : (service.next b call).Covers a := by
  obtain ⟨j, action⟩ := call
  intro i s' hi'
  by_cases hne : j = i
  · subst hne
    cases hj : service.sessions[j]? with
    | none =>
      rw [next_of_none b action hj, hj] at hi'
      cases hi'
    | some s =>
      rw [next_self b action hj] at hi'
      cases hi'
      have hs := hruns.sound j s hj
      exact (call_step hb hs action).covered hs hfrees (h j s hj)
  · rw [next_of_ne b action hne] at hi'
    exact h i s' hi'

/-- Both invariants hold in the course of a run. -/
theorem Covers.after (hb : b.Orderly a) (hfrees : b.Frees a) (hruns : service.Runs a)
    (h : service.Covers a) (calls : List (Nat × Action)) :
    (service.after b calls).Runs a ∧ (service.after b calls).Covers a := by
  induction calls generalizing service with
  | nil => exact ⟨hruns, h⟩
  | cons call calls ih => exact ih (hruns.next hb call) (h.next hb hfrees hruns call)

/-- In a run of any calls, each of which may fail at any point, the open statements of a session are
those of its cursors; and whatever the session is called for next, a failure ends what the call was
about, and other cursors are as before. -/
theorem statements_accounted (hb : b.Orderly a) (hfrees : b.Frees a) (hidle : service.Idle a)
    (calls : List (Nat × Action)) (hi : (service.after b calls).sessions[i]? = some s) :
    s.Balanced a ∧ ∀ action : Action,
      s.Contained a action.names
        (∃ err, (call b (service.after b calls).engine s action).1 = .error err)
        (call b (service.after b calls).engine s action).2.2 ∧
      (call b (service.after b calls).engine s action).2.2.Balanced a := by
  obtain ⟨hruns, hcovers⟩ := hidle.covers.after hb hfrees hidle.runs calls
  have hs := hruns.sound i s hi
  have hcovered := hcovers i s hi
  refine ⟨hs.balanced hcovered, fun action => ?_⟩
  have hstep := call_step hb hs action
  have hgrows := call_grows (b := b) (service.after b calls).engine s action
  have hcontained := hstep.contained hs hfrees
  have hfailed : (∃ err, (call b (service.after b calls).engine s action).1 = .error err) →
      (call b (service.after b calls).engine s action).1.isOk = false := by
    rintro ⟨err, herr⟩
    rw [herr]
    rfl
  constructor
  · exact ⟨hcontained.others, fun h => hcontained.ended (hfailed h),
      fun h => hcontained.nothing (hfailed h)⟩
  · exact (hstep.sound hs hgrows.token).balanced (hstep.covered hs hfrees hcovered)

/-! ### Outages -/

def outageEngine : Engine where
  schema := ⟨{}, [⟨"r_zone_main", "r_zone_main", false⟩], [⟨⟨1⟩, 0, "zone_name"⟩], [], .blank⟩
  dialect := .postgres

/-- A fetch that fails behind the second row, one that fails at the first row of a statement which
fails to be closed too, and a statement that cannot be run. -/
def outageScript : Script where
  queries := [
    { rows := [.ok ["east"], .ok ["north"], .error "connection lost"] },
    { rows := [.error "connection lost"], closeError := some "connection lost" },
    { runError := some "connection refused" },
    { rows := [.ok ["south"]] }]

def outageService : Service Playback :=
  ⟨outageEngine, [Session.start .unknown { script := outageScript }]⟩

def outageRequest : Request := { select := [⟨⟨1⟩, .none, .asc⟩], maxRows := 1 }

/-- One request for each query of the script, and what becomes of the last of them. -/
def outages : List (Nat × Action) :=
  List.replicate 4 (0, .execute outageRequest) ++ [(0, .close ⟨7⟩), (0, .execute (.next ⟨2⟩ 5))]

/-- After the outages one cursor is left, that of the first request. The fetch that fails for its
next page ends it. -/
theorem outages_accounted :
    (∃ s, (outageService.after Playback.backend outages).sessions[0]? = some s ∧
      s.cursors.tokens = [⟨1⟩] ∧ s.Balanced Playback.account) ∧
    ∃ s, (outageService.after Playback.backend (outages ++ [(0, .execute (.next ⟨1⟩ 5))])).sessions[0]?
      = some s ∧ s.cursors.tokens = [] ∧ s.Balanced Playback.account := by
  have hidle : outageService.Idle Playback.account := by
    refine ⟨⟨by decide, ?_⟩, ?_⟩
    · intro s hs
      rw [List.mem_singleton.mp hs]
      exact ⟨rfl, Playback.valid_start _⟩
    · intro s hs id hopened
      rw [List.mem_singleton.mp hs] at hopened
      cases Playback.opened_iff.mp hopened
  have hafter : ∀ calls s, (outageService.after Playback.backend calls).sessions[0]? = some s →
      s.Balanced Playback.account := by
    intro calls s hi
    exact (statements_accounted Playback.backend_orderly Playback.backend_frees hidle calls hi).1
  constructor
  · have htokens : (outageService.after Playback.backend outages).sessions[0]?.map
        (·.cursors.tokens) = some [⟨1⟩] := by decide +kernel
    obtain ⟨s, hi, hs⟩ := Option.map_eq_some_iff.mp htokens
    exact ⟨s, hi, hs, hafter _ s hi⟩
  · have htokens : (outageService.after Playback.backend
        (outages ++ [(0, .execute (.next ⟨1⟩ 5))])).sessions[0]?.map (·.cursors.tokens) =
        some [] := by decide +kernel
    obtain ⟨s, hi, hs⟩ := Option.map_eq_some_iff.mp htokens
    exact ⟨s, hi, hs, hafter _ s hi⟩

end Service

end CatalogQuery
