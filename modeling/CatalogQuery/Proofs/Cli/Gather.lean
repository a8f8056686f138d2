import CatalogQuery.Cli.Run
import CatalogQuery.Proofs.Catalog.StoreAccount
import CatalogQuery.Proofs.Session.WholeRequest

/-!
# Gathering all pages

A command that asks for all rows takes page after page until it is told of the end. It comes to that
end with every row once: what a cursor has left to deliver decides how many turns are still to come.

* `gather_at`: the pages behind the first;
* `length_lt_pagesLeft`: the number of pages allowed for is enough;
* `gatherAll_rows`: all pages of a request;
* `every_row_once`: no way of paging loses or repeats a row.
-/

namespace CatalogQuery.Cli

variable {a : Account Store} {e : Engine} {s : Session Store} {g : Gathered} {p : Int} {n : Nat}
  {token : Continuation} {columns : List ColumnId} {left : List (List String)}

theorem gather_of_exhausted (h : g.continuation.isExhausted = true) :
    gather e p n g s = .ok (g, s) := by
  cases n with
  | zero => rfl
  | succ n => rw [gather, if_pos h]

/-- The pages in which a command takes the rows left. -/
def pageSizes (left : List (List String)) (n : Nat) : List Nat :=
  List.replicate (left.length / n + 1) n

theorem pageSizes_of_short (h : left.length < n) : pageSizes left n = [n] := by
  rw [pageSizes, Nat.div_eq_of_lt h]
  rfl

theorem pageSizes_drop (h : 0 < n) (hlong : n ≤ left.length) :
    pageSizes left n = n :: pageSizes (left.drop n) n := by
  rw [pageSizes, pageSizes, List.replicate_succ, List.length_drop, Nat.div_eq_sub_div h hlong]

/-- A command gathers what a cursor has left, if enough turns are allowed for. -/
theorem gather_at (hb : Store.backend.Lawful a) (hs : s.Sound a e)
    (htoken : token.isExhausted = false) (hp : 0 < p)
    (hat : s.At Store.backend a token columns (some left))
    (hfits : Fits columns e.pages left (pageSizes left p.toNat)) (hfuel : left.length < n)
    (hg : g.continuation = token) :
    ∃ s', gather e p n g s = .ok (⟨g.rows ++ left, g.total, .exhausted,
      g.pages + (pageSizes left p.toNat).length⟩, s') := by
  induction n generalizing g s left with
  | zero => exact absurd hfuel (Nat.not_lt_zero _)
  | succ n ih =>
    have hcontinues : (Request.next token p).isContinuation = true := by
      simp [Request.next, Request.isContinuation, htoken]
    have hpush : ∀ before, some left = some before →
        ∃ page, (Page.empty columns e.pages).pushAll (before.take p.toNat) = .ok page := by
      intro before hbefore
      cases hbefore
      exact hfits.head
    obtain ⟨out, s', hexecute, hturn, hafter⟩ :=
      Session.execute_at hb hs hcontinues rfl hp hat hpush
    have hs' := hs.execute hb.orderly (.next token p)
    rw [hexecute] at hs'
    obtain ⟨d, rfl⟩ : ∃ d, out = .ok d := turnOf_some_ok hturn
    rw [gather, if_neg (by simp [hg, htoken]), hg, hexecute]
    dsimp only [Request.next] at hturn hafter ⊢
    rcases Delivery.turn_cases hturn with ⟨hend, hrows, hcontinuation⟩ |
      ⟨hlong, hrows, hcontinuation, hleft⟩
    · refine ⟨s', ?_⟩
      rw [gather_of_exhausted (by simp [Gathered.add, hcontinuation, Continuation.isExhausted,
        Continuation.exhausted])]
      simp [Gathered.add, hrows, hcontinuation, pageSizes_of_short hend]
    · have hpositive : 0 < p.toNat := by omega
      rw [hleft] at hafter
      have hshorter : (left.drop p.toNat).length < n := by
        rw [List.length_drop]
        omega
      rw [pageSizes_drop hpositive hlong] at hfits ⊢
      obtain ⟨s'', hgather⟩ := ih (g := g.add d) hs' hafter hfits.tail hshorter hcontinuation
      refine ⟨s'', ?_⟩
      rw [hgather]
      simp only [Gathered.add, hrows, List.append_assoc, List.take_append_drop, List.length_cons]
      congr 3
      omega

/-! ## Enough pages -/

theorem le_pagesLeft {o : OpenStatement} (h : o ∈ s.store.statements) :
    o.left.length + 2 ≤ pagesLeft s := by
  obtain ⟨before, after, hsplit⟩ := List.append_of_mem h
  have hsum : pagesLeft s = 2 + (s.store.statements.map (·.left.length)).sum :=
    List.foldl_eq_apply_foldr
  rw [hsum, hsplit, List.map_append, List.map_cons, List.sum_append_nat, List.sum_cons]
  omega

/-- A cursor of a store has no more rows left than pages are allowed for. -/
theorem length_lt_pagesLeft {d : Database} {chain : GrantChain}
    (hat : s.At Store.backend (Store.account d chain) token columns (some left)) :
    left.length < pagesLeft s := by
  obtain ⟨c, -, hready⟩ := hat
  obtain ⟨held, hview, hrows⟩ := hready.serves.held
  obtain ⟨o, hfind, rfl⟩ := Store.view_eq_holding.mp hview
  have hle := le_pagesLeft (s := s) (List.mem_of_find?_eq_some hfind)
  have hpending : c.pending.toList.length ≤ 1 := by
    cases c.pending <;> simp
  rw [← hrows, List.length_append]
  omega

/-! ## All pages of a request -/

theorem gatherAll_of_exhausted {r : Request} {d : Delivery} {e' : Engine} {s' : Session Store}
    (hexecute : s.execute Store.backend e r = (.ok d, e', s'))
    (hgather : ∃ s'', gather e' (max r.maxRows 1) (pagesLeft s') (.first d) s' = .ok (g, s''))
    (hend : g.continuation = .exhausted) : gatherAll e s r true = .ok g := by
  obtain ⟨s'', hgather⟩ := hgather
  unfold gatherAll
  rw [hexecute]
  simp [bind, Except.bind, pure, Except.pure, hgather, hend, Continuation.isExhausted,
    Continuation.exhausted]

/-- All pages of a fresh request together are its rows. -/
theorem gatherAll_rows {d : Database} {chain : GrantChain} {r : Request} {compiled : Compiled}
    {checker : Option RowChecker} {rows : List (List String)}
    (h : Offers Store.backend (Store.account d chain) e s.caller r compiled checker rows)
    (hs : s.Sound (Store.account d chain) e) (htoken : 0 < e.nextToken)
    (hfresh : r.isContinuation = false) (hrows : 0 < r.maxRows) (hfound : r.offset < rows.length)
    (hunlimited : Unlimited compiled.columns e.pages (rows.drop r.offset)
      (pageSizes (rows.drop r.offset) r.maxRows.toNat)) :
    ∃ total, gatherAll e s r true = .ok ⟨rows.drop r.offset, total, .exhausted,
      (pageSizes (rows.drop r.offset) r.maxRows.toNat).length⟩ := by
  have hb := Store.backend_lawful d chain
  have hfits := hunlimited.fits h.columns_width
  obtain ⟨page, hpage⟩ := hfits.head
  obtain ⟨first, e', s', hfirst, -, hturn, hafter⟩ :=
    executeFresh_at h hb hs rfl hrows hfound hpage
  have hexecute : s.execute Store.backend e r = (.ok first, e', s') := by
    simpa [Session.execute, hfresh] using hfirst
  have hgrows := executeFresh_grows (b := Store.backend) e s r
  have hs' := hs.execute hb.orderly r
  rw [hfirst] at hgrows
  rw [hexecute] at hs'
  have hsize : max r.maxRows 1 = r.maxRows := Int.max_eq_left hrows
  rcases Delivery.turn_cases hturn with ⟨hend, hpageRows, hcontinuation⟩ |
    ⟨hlong, hpageRows, hcontinuation, hleft⟩
  · refine ⟨first.total, gatherAll_of_exhausted hexecute ⟨s', ?_⟩ rfl⟩
    rw [gather_of_exhausted (by simp [Gathered.first, hcontinuation, Continuation.isExhausted,
      Continuation.exhausted]), Gathered.first, hpageRows, hcontinuation, pageSizes_of_short hend,
      List.length_singleton]
  · have hpositive : 0 < r.maxRows.toNat := by omega
    have hlive : Continuation.isExhausted ⟨e.nextToken⟩ = false := by
      simpa [Continuation.isExhausted] using Nat.ne_of_gt htoken
    rw [hleft] at hafter
    rw [pageSizes_drop hpositive hlong] at hfits ⊢
    rw [← hgrows.pages] at hfits
    obtain ⟨s'', hgather⟩ := gather_at (g := .first first) hb hs' hlive hrows hafter hfits.tail
      (length_lt_pagesLeft hafter) hcontinuation
    refine ⟨first.total, gatherAll_of_exhausted hexecute ⟨s'', ?_⟩ rfl⟩
    rw [hsize, hgather]
    simp only [Gathered.first, hpageRows, List.take_append_drop, List.length_cons]
    congr 3
    omega

/-! ## Every row once -/

/-- Paging loses no row and repeats none. In a service that any calls have led to, the turns of a
fresh request and its continuations hand out its rows in order, whatever is called in between; and a
command that takes all pages comes to the end with all of them. -/
theorem every_row_once :
    (∀ {σ : Type} {b : Backend σ} {a : Account σ} {service : Service σ} {i : Nat} {s : Session σ}
      {r : Request} {compiled : Compiled} {checker : Option RowChecker} {rows : List (List String)}
      {later : List (Nat × Action)},
      b.Lawful a → service.Reached b a → service.sessions[i]? = some s →
      Offers b a service.engine s.caller r compiled checker rows →
      r.isContinuation = false → 0 < r.maxRows → r.offset < rows.length →
      Service.Spares i ⟨service.engine.nextToken⟩ later →
      Unlimited compiled.columns service.engine.pages (rows.drop r.offset)
        (r.maxRows.toNat :: Service.sizes i ⟨service.engine.nextToken⟩ later) →
      Delivers ⟨service.engine.nextToken⟩ (rows.drop r.offset)
        (r.maxRows.toNat :: Service.sizes i ⟨service.engine.nextToken⟩ later)
        (service.requestTurns b i r later)) ∧
    (∀ {e : Engine} {caller : Caller} {d : Database} {r : Request} {compiled : Compiled}
      {checker : Option RowChecker} {rows : List (List String)},
      0 < e.nextToken →
      Offers Store.backend (Store.account d .standard) e caller r compiled checker rows →
      r.isContinuation = false → 0 < r.maxRows → r.offset < rows.length →
      Unlimited compiled.columns e.pages (rows.drop r.offset)
        (pageSizes (rows.drop r.offset) r.maxRows.toNat) →
      ∃ total, gatherAll e (Session.start caller { database := d }) r true =
        .ok ⟨rows.drop r.offset, total, .exhausted,
          (rows.drop r.offset).length / r.maxRows.toNat + 1⟩) := by
  constructor
  case left =>
    intro σ b a service i s r compiled checker rows later hb hreached hi hoffers hfresh hrows hfound
      hspares hunlimited
    exact Service.requestTurns_delivers hb (hreached.runs hb) hi hoffers hfresh hrows hfound hspares
      hunlimited
  case right =>
    intro e caller d r compiled checker rows htoken hoffers hfresh hrows hfound hunlimited
    have hs := Session.sound_start e caller (Store.valid_start d .standard)
    obtain ⟨total, hall⟩ := gatherAll_rows hoffers hs htoken hfresh hrows hfound hunlimited
    rw [pageSizes, List.length_replicate] at hall
    exact ⟨total, hall⟩

/-- Zones by their names, two at a time, behind the first one. -/
def zonesRequest : Request :=
  { select := [⟨⟨1⟩, .none, .asc⟩], offset := 1, maxRows := 2 }

def zonesEngine : Engine where
  schema := ⟨{}, [⟨"r_zone_main", "r_zone_main", false⟩], [⟨⟨1⟩, 0, "zone_name"⟩], [], .blank⟩
  dialect := .sqlite

def zonesDatabase : Database :=
  .catalog { zones := [⟨1, "east"⟩, ⟨2, "north"⟩, ⟨3, "south"⟩, ⟨4, "west"⟩] }

def zonesService : Service Store :=
  ⟨zonesEngine, List.replicate 2 (Session.start .unknown { database := zonesDatabase })⟩

/-- A page of one row and one of five, with calls of other cursors and sessions in between. -/
def zonesLater : List (Nat × Action) :=
  [(1, .execute (.next ⟨1⟩ 7)), (0, .execute (.next ⟨1⟩ 1)), (0, .close ⟨7⟩),
    (0, .identify ⟨"alice", "east", .localUser⟩), (1, .close ⟨1⟩), (0, .execute zonesRequest),
    (0, .setPolicy true), (0, .execute (.next ⟨1⟩ 5))]

def zonesCompiled : Compiled where
  statement := ⟨"select distinct r_zone_main.zone_name from r_zone_main "
    ++ "order by r_zone_main.zone_name limit 1,-1", []⟩
  count := ⟨"select count(*) from (select distinct r_zone_main.zone_name from r_zone_main) "
    ++ "genquery_count", []⟩
  sources := ["r_zone_main"]
  joins := 0
  select := zonesRequest.select

theorem offers_zones : Offers Store.backend (Store.account zonesDatabase .standard) zonesEngine
    .unknown zonesRequest zonesCompiled none [["east"], ["north"], ["south"], ["west"]] := by
  have hcompiles : zonesEngine.compile .unknown zonesRequest = .ok zonesCompiled := by
    decide +kernel
  have hrun : zonesDatabase.run zonesCompiled.statement.sql zonesCompiled.statement.binds =
      .ok [[.text "north"], [.text "south"], [.text "west"]] := by decide +kernel
  exact Store.offers hcompiles rfl nofun hrun rfl (by decide) nofun

/-- The zones behind the first come in pages of two, one and none rows, or gathered. -/
theorem zones_once :
    Delivers ⟨1⟩ [["north"], ["south"], ["west"]] [2, 1, 5]
      (zonesService.requestTurns Store.backend 0 zonesRequest zonesLater) ∧
    ∃ total, gatherAll zonesEngine (Session.start .unknown { database := zonesDatabase })
      zonesRequest true = .ok ⟨[["north"], ["south"], ["west"]], total, .exhausted, 2⟩ := by
  have hstart : zonesService.Starts (Store.account zonesDatabase .standard) := by
    refine ⟨by decide, fun s hs => ?_⟩
    rw [List.eq_of_mem_replicate hs]
    exact ⟨rfl, Store.valid_start _ _⟩
  have hspares : Service.Spares 0 ⟨1⟩ zonesLater := by
    intro action hmem
    simp only [zonesLater, List.mem_cons, Prod.mk.injEq, List.not_mem_nil, or_false] at hmem
    rcases hmem with h | h | h | h | h | h | h | h <;> obtain ⟨hself, rfl⟩ := h <;>
      simp [Action.closes, Action.rows?, Request.next, zonesRequest, Continuation.exhausted]
        at hself ⊢
  have hpages : Fits zonesCompiled.columns zonesEngine.pages [["north"], ["south"], ["west"]]
      [2, 1, 5] :=
    .cons ⟨_, rfl⟩ (.cons ⟨_, rfl⟩ (.cons ⟨_, rfl⟩ .nil))
  have hall : Fits zonesCompiled.columns zonesEngine.pages [["north"], ["south"], ["west"]]
      [2, 2] :=
    .cons ⟨_, rfl⟩ (.cons ⟨_, rfl⟩ .nil)
  have hi : zonesService.sessions[0]? =
      some (Session.start .unknown { database := zonesDatabase }) := rfl
  constructor
  case left =>
    exact every_row_once.1 (Store.backend_lawful _ _) (.start hstart) hi offers_zones rfl
      (by decide) (by decide) hspares hpages.unlimited
  case right =>
    exact every_row_once.2 (by decide) offers_zones rfl (by decide) (by decide) hall.unlimited

end CatalogQuery.Cli
