import CatalogQuery.Session.Backend

/-!
# Accounts of statements

What a session may rely on when it calls a backend. An account says which states of a store are
valid and what there is to see of each statement; a backend is lawful for it if a call changes at
most the statement it is about, new statements are new, and a statement that holds rows gives them
in order.

* `Account.Keeps`: some statements look as before;
* `Account.Touches`: one statement at most has changed, and was not closed;
* `Backend.Lawful`: the laws of the calls;
* `Backend.Orderly`, `Backend.Frees`: the laws that also hold of a backend whose every call may fail;
* `Account.Opens`, `Backend.Drops`, `Backend.Settled`: a statement was opened, or let go, or all is as
  it was before.
-/

namespace CatalogQuery

variable {σ : Type}

/-- What there is to see of a statement: it is not open, it is open, or it is open and will give
these rows, one with each call. -/
inductive StatementView where
  | gone
  | open
  | holding (rows : List (List String))

structure Account (σ : Type) where
  valid : σ → Prop
  view : σ → StatementId → StatementView

namespace Account

variable {a : Account σ} {P Q : StatementId → Prop} {id : StatementId} {s s' s'' : σ}

/-- The statement is open. -/
def Opened (a : Account σ) (s : σ) (id : StatementId) : Prop := a.view s id ≠ .gone

/-- The statements in `P` look as before. -/
structure Keeps (a : Account σ) (P : StatementId → Prop) (s s' : σ) : Prop where
  valid : a.valid s'
  view : ∀ id, P id → a.view s' id = a.view s id

theorem Keeps.refl (hs : a.valid s) : a.Keeps P s s := ⟨hs, fun _ _ => rfl⟩

theorem Keeps.trans (h : a.Keeps P s s') (h' : a.Keeps P s' s'') : a.Keeps P s s'' :=
  ⟨h'.valid, fun id hid => (h'.view id hid).trans (h.view id hid)⟩

theorem Keeps.mono (h : a.Keeps Q s s') (hPQ : ∀ id, P id → Q id) : a.Keeps P s s' :=
  ⟨h.valid, fun id hid => h.view id (hPQ id hid)⟩

theorem Keeps.of_all (h : a.Keeps (fun _ => True) s s') : a.Keeps P s s' :=
  h.mono fun _ _ => trivial

/-- At most the statement `id` has changed, and it was not closed. -/
structure Touches (a : Account σ) (id : StatementId) (s s' : σ) : Prop where
  keeps : a.Keeps (· ≠ id) s s'
  opened : a.Opened s id → a.Opened s' id

theorem Touches.refl (hs : a.valid s) : a.Touches id s s := ⟨.refl hs, fun h => h⟩

theorem Touches.trans (h : a.Touches id s s') (h' : a.Touches id s' s'') : a.Touches id s s'' :=
  ⟨h.keeps.trans h'.keeps, fun hid => h'.opened (h.opened hid)⟩

theorem Touches.of_keeps (h : a.Keeps (fun _ => True) s s') : a.Touches id s s' :=
  ⟨h.of_all, fun hid => by rwa [Opened, h.view id trivial]⟩

/-- The statement `id` was opened and nothing else has changed. -/
structure Opens (a : Account σ) (id : StatementId) (s s' : σ) : Prop where
  new : ¬a.Opened s id
  opened : a.Opened s' id
  keeps : a.Keeps (· ≠ id) s s'

theorem Opens.of_keeps (h : a.Keeps (fun _ => True) s s') (h' : a.Opens id s' s'') :
    a.Opens id s s'' where
  new := by
    have hnew := h'.new
    rwa [Opened, h.view id trivial] at hnew
  opened := h'.opened
  keeps := h.of_all.trans h'.keeps

theorem Opens.touches (h : a.Opens id s s') (h' : a.Touches id s' s'') : a.Opens id s s'' :=
  ⟨h.new, h'.opened h.opened, h.keeps.trans h'.keeps⟩

end Account

/-! ## Lists of statements -/

section Listed

variable {α : Type} {key : α → StatementId} {entries : List α} {entry : α}
  {id other : StatementId}

theorem StatementId.find?_append_self (hid : key entry = id)
    (hnone : entries.find? (key · == id) = none) :
    (entries ++ [entry]).find? (key · == id) = some entry := by
  simp [List.find?_append, hnone, hid]

theorem StatementId.find?_append_of_ne (hne : other ≠ key entry) :
    (entries ++ [entry]).find? (key · == other) = entries.find? (key · == other) := by
  have hother : (key entry == other) = false := by simpa using hne.symm
  simp [List.find?_append, hother]

theorem StatementId.find?_map {f : α → α} (hf : ∀ o, key (f o) = key o) :
    (entries.map f).find? (key · == id) = (entries.find? (key · == id)).map f := by
  have hsame : ((key · == id) ∘ f) = (key · == id) := by
    funext o
    simp [hf]
  rw [List.find?_map, hsame]

theorem StatementId.find?_filter_of_ne (hne : other ≠ id) :
    (entries.filter (key · != id)).find? (key · == other) = entries.find? (key · == other) := by
  rw [List.find?_filter]
  congr 1
  funext o
  by_cases ho : key o = other
  · simp [ho, hne]
  · simp [ho]

theorem StatementId.find?_filter_self :
    (entries.filter (key · != id)).find? (key · == id) = none := by
  simp [List.find?_eq_none]

end Listed

/-! ## Backends -/

/-- A backend whose calls keep to the account. Of a statement that is merely open nothing is known
but that it stays open; all calls may fail but those that fetch rows held. -/
structure Backend.Lawful (b : Backend σ) (a : Account σ) : Prop where
  run_ok : ∀ {sql binds skip s id s'}, a.valid s → b.run sql binds skip s = (.ok id, s') →
    ¬a.Opened s id ∧ a.Opened s' id ∧ a.Keeps (· ≠ id) s s'
  run_error : ∀ {sql binds skip s f s'}, a.valid s → b.run sql binds skip s = (.error f, s') →
    a.Keeps (fun _ => True) s s'
  fetch : ∀ (id) {s}, a.valid s → a.Touches id s (b.fetch id s).2
  fetch_row : ∀ {id s rows}, a.valid s → a.view s id = .holding rows →
    (b.fetch id s).1 = .ok rows.head? ∧ a.view (b.fetch id s).2 id = .holding rows.tail
  rowCount : ∀ (id) {s}, a.valid s → a.Keeps (fun _ => True) s (b.rowCount id s).2
  close : ∀ (id) {s}, a.valid s → a.Keeps (· ≠ id) s (b.close id s).2
  scalar : ∀ (sql binds) {s}, a.valid s → a.Keeps (fun _ => True) s (b.scalar sql binds s).2
  access : ∀ (object user zone level) {s}, a.valid s →
    a.Keeps (fun _ => True) s (b.access object user zone level s).2

/-- A backend that keeps its statements apart. Nothing is said of the outcome of a call: any may fail
at any time, also one that fetches a row held. -/
structure Backend.Orderly (b : Backend σ) (a : Account σ) : Prop where
  run_ok : ∀ {sql binds skip s id s'}, a.valid s → b.run sql binds skip s = (.ok id, s') →
    a.Opens id s s'
  run_error : ∀ {sql binds skip s f s'}, a.valid s → b.run sql binds skip s = (.error f, s') →
    a.Keeps (fun _ => True) s s'
  fetch : ∀ (id) {s}, a.valid s → a.Touches id s (b.fetch id s).2
  rowCount : ∀ (id) {s}, a.valid s → a.Keeps (fun _ => True) s (b.rowCount id s).2
  close : ∀ (id) {s}, a.valid s → a.Keeps (· ≠ id) s (b.close id s).2
  scalar : ∀ (sql binds) {s}, a.valid s → a.Keeps (fun _ => True) s (b.scalar sql binds s).2
  access : ∀ (object user zone level) {s}, a.valid s →
    a.Keeps (fun _ => True) s (b.access object user zone level s).2

theorem Backend.Lawful.orderly {b : Backend σ} {a : Account σ} (h : b.Lawful a) : b.Orderly a where
  run_ok hs hrun :=
    have ⟨hnew, hopened, hkeeps⟩ := h.run_ok hs hrun
    ⟨hnew, hopened, hkeeps⟩
  run_error := h.run_error
  fetch := h.fetch
  rowCount := h.rowCount
  close := h.close
  scalar := h.scalar
  access := h.access

namespace Backend

/-- A statement is gone once it was closed, whether or not closing it failed. -/
def Frees (b : Backend σ) (a : Account σ) : Prop :=
  ∀ (id : StatementId) (s : σ), a.valid s → ¬a.Opened (b.close id s).2 id

/-- Only the statement `id` has changed; it is gone if closing frees statements. -/
structure Drops (b : Backend σ) (a : Account σ) (id : StatementId) (s s' : σ) : Prop where
  keeps : a.Keeps (· ≠ id) s s'
  gone : b.Frees a → ¬a.Opened s' id

/-- What was open looks as before; if closing frees statements, nothing else is open. -/
def Settled (b : Backend σ) (a : Account σ) (s s' : σ) : Prop :=
  a.Keeps (fun id => b.Frees a ∨ a.Opened s id) s s'

variable {b : Backend σ} {a : Account σ} {id : StatementId} {s s' s'' : σ}

theorem Drops.close (hb : b.Orderly a) (hs : a.valid s) : b.Drops a id s (b.close id s).2 :=
  ⟨hb.close id hs, fun hfrees => hfrees id s hs⟩

theorem Drops.touches (h : a.Touches id s s') (h' : b.Drops a id s' s'') : b.Drops a id s s'' :=
  ⟨h.keeps.trans h'.keeps, h'.gone⟩

theorem Settled.of_keeps (h : a.Keeps (fun _ => True) s s') : b.Settled a s s' := h.of_all

theorem Settled.valid (h : b.Settled a s s') : a.valid s' := Account.Keeps.valid h

theorem Settled.trans (h : b.Settled a s s') (h' : b.Settled a s' s'') : b.Settled a s s'' := by
  refine ⟨h'.valid, fun id hid => ?_⟩
  have hview : a.view s' id = a.view s id := h.view id hid
  have hid' : b.Frees a ∨ a.Opened s' id := by rwa [Account.Opened, hview]
  exact (h'.view id hid').trans hview

/-- A statement that was opened and let go again leaves no trace. -/
theorem Settled.of_opens (h : a.Opens id s s') (h' : b.Drops a id s' s'') : b.Settled a s s'' := by
  refine ⟨h'.keeps.valid, fun other hother => ?_⟩
  by_cases hid : other = id
  · subst hid
    have hfrees : b.Frees a := hother.resolve_right h.new
    have hgone : a.view s'' other = .gone := Classical.not_not.mp (h'.gone hfrees)
    have hbefore : a.view s other = .gone := Classical.not_not.mp h.new
    rw [hgone, hbefore]
  · exact (h'.keeps.view other hid).trans (h.keeps.view other hid)

end Backend

end CatalogQuery
