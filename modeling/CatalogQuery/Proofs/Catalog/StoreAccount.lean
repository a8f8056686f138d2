import CatalogQuery.Catalog.Store
import CatalogQuery.Proofs.Session.Paging

/-!
# The account of a store

Stores over catalogs are lawful backends: each statement holds the rows that were computed when it
was run, and ids are given in order.

* `Store.account`: what is known of a store over a database that nobody else changes;
* `Store.backend_lawful`: the backend of stores keeps to it;
* `Store.offers`: what a database answers, its stores serve.
-/

namespace CatalogQuery.Store

variable {d : Database} {chain : GrantChain} {s : Store} {id : StatementId}

/-- Ids are below the next one; a statement holds the rows that are left of it. -/
def account (d : Database) (chain : GrantChain) : Account Store where
  valid s := s.database = d ∧ s.chain = chain ∧ ∀ o ∈ s.statements, o.id.number < s.nextStatement
  view s id := (s.find? id).elim .gone fun o => .holding o.left

theorem valid_start (d : Database) (chain : GrantChain) :
    (account d chain).valid { database := d, chain := chain } :=
  ⟨rfl, rfl, fun _ ho => absurd ho List.not_mem_nil⟩

theorem opened_iff : (account d chain).Opened s id ↔ (s.find? id).isSome := by
  simp only [Account.Opened, account]
  cases h : s.find? id <;> simp

theorem view_eq_holding {rows : List (List String)} :
    (account d chain).view s id = .holding rows ↔ ∃ o, s.find? id = some o ∧ o.left = rows := by
  simp only [account]
  cases h : s.find? id <;> simp

/-- Stores that find the same statement see the same of it. -/
theorem view_congr {s' : Store} (h : s'.find? id = s.find? id) :
    (account d chain).view s' id = (account d chain).view s id := by
  simp [account, h]

/-! ## Finding statements -/

theorem find?_nextStatement (h : (account d chain).valid s) : s.find? ⟨s.nextStatement⟩ = none := by
  refine List.find?_eq_none.mpr fun o ho => ?_
  have hlt := h.2.2 o ho
  simp only [beq_iff_eq]
  intro heq
  simp [heq] at hlt

theorem find?_open_self (h : (account d chain).valid s) (rows : List (List String)) :
    (s.open_ rows).2.find? ⟨s.nextStatement⟩ = some ⟨⟨s.nextStatement⟩, rows.length, rows⟩ := by
  have hnone : s.statements.find? (·.id == ⟨s.nextStatement⟩) = none := find?_nextStatement h
  exact StatementId.find?_append_self rfl hnone

theorem find?_open_of_ne (rows : List (List String)) (hne : id ≠ ⟨s.nextStatement⟩) :
    (s.open_ rows).2.find? id = s.find? id :=
  StatementId.find?_append_of_ne hne

/-- Changes of what is left of a statement. -/
theorem find?_map_left {f : OpenStatement → OpenStatement} (hf : ∀ o, (f o).id = o.id) :
    { s with statements := s.statements.map f }.find? id = (s.find? id).map f :=
  StatementId.find?_map hf

theorem find?_close_of_ne {other : StatementId} (hne : other ≠ id) :
    { s with statements := s.statements.filter (·.id != id) }.find? other = s.find? other :=
  StatementId.find?_filter_of_ne hne

/-! ## The laws -/

theorem openRows_ok {rows : Except BackendFailure (List (List Value))} {skip : Nat} {s' : Store}
    (hs : (account d chain).valid s) (h : openRows rows skip s = (.ok id, s')) :
    ¬(account d chain).Opened s id ∧ (account d chain).Opened s' id ∧
      (account d chain).Keeps (· ≠ id) s s' := by
  unfold openRows at h
  cases rows with
  | error e => cases h
  | ok rows =>
    obtain ⟨hid, hs'⟩ := Prod.mk.inj h
    obtain rfl : id = ⟨s.nextStatement⟩ := (Except.ok.inj hid).symm
    obtain rfl : s' = (s.open_ ((rows.drop skip).map fun row => row.map (·.shown))).2 := hs'.symm
    refine ⟨?_, ?_, ?_, ?_⟩
    · rw [opened_iff, find?_nextStatement hs]
      exact Bool.false_ne_true
    · rw [opened_iff, find?_open_self hs]
      rfl
    · refine ⟨hs.1, hs.2.1, fun o ho => ?_⟩
      rcases List.mem_append.mp ho with ho | ho
      · exact Nat.lt_succ_of_lt (hs.2.2 o ho)
      · cases List.mem_singleton.mp ho
        exact Nat.lt_succ_self _
    · exact fun other hne => view_congr (find?_open_of_ne _ hne)

theorem fetch_touches (hs : (account d chain).valid s) (id : StatementId) :
    (account d chain).Touches id s (fetch id s).2 := by
  unfold fetch
  split
  · exact .refl hs
  · split
    · exact .refl hs
    · next left _ =>
      let f : OpenStatement → OpenStatement :=
        fun t => if t.id = id then { t with left := left } else t
      have hf : ∀ t, (f t).id = t.id := by
        intro t
        simp only [f]
        split <;> rfl
      have hfind : ∀ other, { s with statements := s.statements.map f }.find? other
          = (s.find? other).map f := fun other => find?_map_left hf
      constructor
      case keeps =>
        refine ⟨⟨hs.1, hs.2.1, fun o ho => ?_⟩, fun other hne => view_congr ?_⟩
        · obtain ⟨t, ht, rfl⟩ := List.mem_map.mp ho
          rw [hf]
          exact hs.2.2 t ht
        · rw [hfind]
          cases hother : s.find? other with
          | none => rfl
          | some o =>
            have ho : o.id = other := by simpa using List.find?_some hother
            simp [f, ho, hne]
      case opened =>
        intro hopened
        rw [opened_iff] at hopened ⊢
        rw [hfind, Option.isSome_map]
        exact hopened

theorem fetch_row {rows : List (List String)} (h : (account d chain).view s id = .holding rows) :
    (fetch id s).1 = .ok rows.head? ∧
    (account d chain).view (fetch id s).2 id = .holding rows.tail := by
  obtain ⟨o, hfind, rfl⟩ := view_eq_holding.mp h
  have ho : o.id = id := by simpa using List.find?_some hfind
  unfold fetch
  rw [hfind]
  dsimp only
  cases hleft : o.left with
  | nil =>
    refine ⟨rfl, view_eq_holding.mpr ⟨o, hfind, hleft⟩⟩
  | cons row left =>
    refine ⟨rfl, view_eq_holding.mpr ⟨{ o with left := left }, ?_, rfl⟩⟩
    rw [find?_map_left, hfind]
    · simp [ho]
    · intro t
      split <;> rfl

theorem close_keeps (hs : (account d chain).valid s) (id : StatementId) :
    (account d chain).Keeps (· ≠ id) s (close id s).2 :=
  ⟨⟨hs.1, hs.2.1, fun o ho => hs.2.2 o ((List.mem_filter.mp ho).1)⟩,
    fun _ hne => view_congr (find?_close_of_ne hne)⟩

theorem backend_lawful (d : Database) (chain : GrantChain) :
    Store.backend.Lawful (account d chain) where
  run_ok hs hrun := openRows_ok hs hrun
  run_error := by
    intro sql binds skip s f s' hs hrun
    simp only [backend, run, openRows] at hrun
    split at hrun
    · cases hrun
      exact .refl hs
    · cases hrun
  fetch id _ hs := fetch_touches hs id
  fetch_row _ hview := fetch_row hview
  rowCount := by
    intro id s hs
    simp only [backend, rowCount]
    split <;> exact .refl hs
  close id _ hs := close_keeps hs id
  scalar _ _ _ hs := .refl hs
  access _ _ _ _ _ hs := .refl hs

/-! ## Requests -/

/-- A database that answers the statement of a request offers what it answers. -/
theorem offers {e : Engine} {caller : Caller} {r : Request} {compiled : Compiled}
    {checker : Option RowChecker} {values : List (List Value)} {rows : List (List String)}
    (hcompiles : e.compile caller r = .ok compiled) (hchecks : e.checker r compiled = .ok checker)
    (hcounts : r.totalCount = true → e.dialect.countQuery = true →
      ∃ n, d.scalar compiled.count.sql compiled.count.binds = .ok n)
    (hrun : d.run compiled.statement.sql compiled.statement.binds = .ok values)
    (hshown : (values.drop (e.dialect.skipRows r.offset)).map (fun row => row.map (·.shown))
      = rows.drop r.offset)
    (hwidth : ∀ row ∈ rows, row.length = compiled.select.length)
    (hgranted : ∀ k, checker = some k → ∀ row ∈ rows,
      d.hasAccess chain (k.objectOf row) k.user k.zone k.level = .ok true) :
    Offers backend (account d chain) e caller r compiled checker rows where
  compiles := hcompiles
  checks := hchecks
  counts := by
    intro htotal hquery s hs
    simpa [backend, scalar, hs.1] using hcounts htotal hquery
  runs := by
    intro s hs
    refine ⟨⟨s.nextStatement⟩, (s.open_ (rows.drop r.offset)).2, ?_, ?_⟩
    · simp [backend, run, openRows, hs.1, hrun, hshown, open_]
    · exact view_eq_holding.mpr ⟨_, find?_open_self hs _, rfl⟩
  sizes := by
    intro _ s id left _ hview
    obtain ⟨o, hfind, -⟩ := view_eq_holding.mp hview
    exact ⟨o.count, by simp [backend, rowCount, hfind]⟩
  width := hwidth
  granted := by
    intro k hk row hrow s hs
    simpa [backend, access, hs.1, hs.2.1] using hgranted k hk row hrow

end CatalogQuery.Store
