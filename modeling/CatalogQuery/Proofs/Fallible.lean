import Mathlib.Data.List.Forall2

/-!
# Calls that may fail

A sequence of calls succeeds iff each of them does, and a fold over calls keeps whatever each of its
steps keeps.

* `bind_eq_ok`, `bind_eq_error`: when two calls in a row succeed or fail;
* `map_bind_congr`: when two runs agree step by step;
* `guarded_eq_ok`: when a call behind a refusal succeeds;
* `forM_eq_ok`, `mapM_eq_ok`: when a check of all elements succeeds, and when their results do;
* `mapM_eq_ok_iff_filterMap`, `discard_eq_ok`: when look-ups succeed;
* `foldlM_keeps`: a fold that succeeds ends in a state that satisfies the invariant of its steps;
* `foldlM_replays`: a fold each of whose steps leads to a known state succeeds;
* `foldlM_fails`: a fold that fails does so at one of its steps, in a state of the invariant;
* `foldlM_eq_error`: where no step depends on the state, at the first element that is refused.
-/

namespace CatalogQuery.Fallible

variable {ε α β : Type}

instance decidableEq [DecidableEq ε] [DecidableEq α] : DecidableEq (Except ε α)
  | .ok a, .ok b => decidable_of_iff (a = b) (by simp)
  | .error e, .error f => decidable_of_iff (e = f) (by simp)
  | .ok _, .error _ => isFalse nofun
  | .error _, .ok _ => isFalse nofun

theorem exists_of_isOk {x : Except ε α} (h : x.isOk = true) : ∃ a, x = .ok a := by
  cases x with
  | error e => cases h
  | ok a => exact ⟨a, rfl⟩

theorem ok_bind (a : α) (f : α → Except ε β) : (.ok a : Except ε α) >>= f = f a := rfl

theorem bind_eq_ok {x : Except ε α} {f : α → Except ε β} {b : β} :
    x >>= f = .ok b ↔ ∃ a, x = .ok a ∧ f a = .ok b := by
  cases x with
  | error e => simp [bind, Except.bind]
  | ok a => simp [bind, Except.bind]

theorem bind_eq_error {x : Except ε α} {f : α → Except ε β} {e : ε} :
    x >>= f = .error e ↔ x = .error e ∨ ∃ a, x = .ok a ∧ f a = .error e := by
  cases x with
  | error e => simp [bind, Except.bind]
  | ok a => simp [bind, Except.bind]

theorem map_eq_ok {f : α → β} {x : Except ε α} {b : β} :
    f <$> x = .ok b ↔ ∃ a, x = .ok a ∧ f a = b := by
  cases x with
  | error e => simp [Functor.map, Except.map]
  | ok a => simp [Functor.map, Except.map]

theorem map_eq_error {f : α → β} {x : Except ε α} {e : ε} : f <$> x = .error e ↔ x = .error e := by
  cases x with
  | error e' => simp [Functor.map, Except.map]
  | ok a => simp [Functor.map, Except.map]

/-- Two runs that agree under `f` go on to agree under `h` if their continuations do. -/
theorem map_bind_congr {γ δ : Type} {x y : Except ε α} {f : α → γ} {g g' : α → Except ε β}
    {h : β → δ} (hxy : f <$> x = f <$> y) (hg : ∀ a b, f a = f b → h <$> g a = h <$> g' b) :
    h <$> (x >>= g) = h <$> (y >>= g') := by
  cases x with
  | error e =>
    cases y with
    | error e' => simpa [Functor.map, Except.map, bind, Except.bind] using hxy
    | ok b => simp [Functor.map, Except.map] at hxy
  | ok a =>
    cases y with
    | error e' => simp [Functor.map, Except.map] at hxy
    | ok b => exact hg a b (by simpa [Functor.map, Except.map] using hxy)

/-- A call behind a refusal succeeds iff nothing is refused. -/
theorem guarded_eq_ok {c : Prop} [Decidable c] {e : ε} {f : Unit → Except ε β} {b : β} :
    (if c then (throw e : Except ε Unit) >>= f else f ()) = .ok b ↔ ¬c ∧ f () = .ok b := by
  by_cases h : c
  · simp [h, throw, throwThe, MonadExceptOf.throw, bind, Except.bind]
  · simp [h]

theorem forM_eq_ok {f : α → Except ε Unit} {xs : List α} :
    xs.forM f = .ok () ↔ ∀ x ∈ xs, f x = .ok () := by
  induction xs with
  | nil => simp [pure, Except.pure]
  | cons x xs ih =>
    show (f x >>= fun _ => xs.forM f) = .ok () ↔ _
    rw [bind_eq_ok, List.forall_mem_cons, ← ih]
    constructor
    · rintro ⟨u, hx, hxs⟩
      exact ⟨hx, hxs⟩
    · rintro ⟨hx, hxs⟩
      exact ⟨(), hx, hxs⟩

theorem mapM_eq_ok {f : α → Except ε β} {xs : List α} {ys : List β} :
    xs.mapM f = .ok ys ↔ List.Forall₂ (fun x y => f x = .ok y) xs ys := by
  induction xs generalizing ys with
  | nil => simp [pure, Except.pure, eq_comm]
  | cons x xs ih =>
    rw [List.mapM_cons, bind_eq_ok, List.forall₂_cons_left_iff]
    constructor
    · rintro ⟨y, hy, h⟩
      obtain ⟨ys', hys, h⟩ := bind_eq_ok.mp h
      cases h
      exact ⟨y, ys', hy, ih.mp hys, rfl⟩
    · rintro ⟨y, ys', hy, hys, rfl⟩
      exact ⟨y, hy, bind_eq_ok.mpr ⟨ys', ih.mpr hys, rfl⟩⟩

theorem toOption_eq_some {x : Except ε α} {a : α} : x.toOption = some a ↔ x = .ok a := by
  cases x with
  | error e => simp [Except.toOption]
  | ok b => simp [Except.toOption]

/-- Look-ups succeed together iff each of them does; what is found is then what each of them finds. -/
theorem mapM_eq_ok_iff_filterMap {f : α → Except ε β} {xs : List α} {ys : List β} :
    xs.mapM f = .ok ys ↔
      (∀ x ∈ xs, ∃ y, f x = .ok y) ∧ ys = xs.filterMap fun x => (f x).toOption := by
  induction xs generalizing ys with
  | nil => simp [pure, Except.pure, eq_comm]
  | cons x xs ih =>
    rw [List.mapM_cons, bind_eq_ok, List.forall_mem_cons]
    constructor
    · rintro ⟨y, hy, h⟩
      obtain ⟨ys', hys, h⟩ := bind_eq_ok.mp h
      obtain ⟨hfound, rfl⟩ := ih.mp hys
      cases h
      exact ⟨⟨⟨y, hy⟩, hfound⟩, by simp [hy, Except.toOption]⟩
    · rintro ⟨⟨⟨y, hy⟩, hfound⟩, rfl⟩
      refine ⟨y, hy, bind_eq_ok.mpr ⟨_, ih.mpr ⟨hfound, rfl⟩, ?_⟩⟩
      simp [hy, Except.toOption, pure, Except.pure]

/-- A look-up whose result is not used succeeds iff something is found. -/
theorem discard_eq_ok {x : Except ε α} {u : PUnit} : discard x = .ok u ↔ ∃ a, x = .ok a := by
  cases x with
  | error e => simp [discard, Functor.mapConst, Except.map]
  | ok a => simp [discard, Functor.mapConst, Except.map]

/-- The invariant may speak of the elements that are done: `P before b` is about a fold that has
reached `b` after the elements `before`. -/
theorem foldlM_keeps {f : β → α → Except ε β} {P : List α → β → Prop} {l : List α} {b c : β}
    (start : P [] b)
    (step : ∀ before x after b c, l = before ++ x :: after → P before b → f b x = .ok c →
      P (before ++ [x]) c)
    (h : l.foldlM f b = .ok c) : P l c := by
  -- The induction is on what is left; the elements done are generalised.
  have rest : ∀ left before b, l = before ++ left → P before b → left.foldlM f b = .ok c →
      P l c := by
    intro left
    induction left with
    | nil =>
      intro before b hl hb hc
      simp only [List.foldlM_nil, pure, Except.pure, Except.ok.injEq] at hc
      rw [hl, List.append_nil, ← hc]
      exact hb
    | cons x left ih =>
      intro before b hl hb hc
      rw [List.foldlM_cons] at hc
      obtain ⟨d, hd, hc⟩ := bind_eq_ok.mp hc
      exact ih (before ++ [x]) d (by simp [hl]) (step before x left b d hl hb hd) hc
  exact rest l [] b rfl start h

/-- A fold that reaches a known state after each of its steps succeeds with the last one. -/
theorem foldlM_replays {f : β → α → Except ε β} (state : List α → β) {l : List α}
    (step : ∀ before x after, l = before ++ x :: after →
      f (state before) x = .ok (state (before ++ [x]))) :
    l.foldlM f (state []) = .ok (state l) := by
  have rest : ∀ left before, l = before ++ left → left.foldlM f (state before) = .ok (state l) := by
    intro left
    induction left with
    | nil =>
      intro before hl
      rw [hl, List.append_nil]
      rfl
    | cons x left ih =>
      intro before hl
      rw [List.foldlM_cons]
      exact bind_eq_ok.mpr ⟨_, step before x left hl, ih (before ++ [x]) (by simp [hl])⟩
  exact rest l [] rfl

theorem foldlM_fails {f : β → α → Except ε β} {P : List α → β → Prop} {l : List α} {b : β} {e : ε}
    (start : P [] b)
    (step : ∀ before x after b c, l = before ++ x :: after → P before b → f b x = .ok c →
      P (before ++ [x]) c)
    (h : l.foldlM f b = .error e) :
    ∃ before x after c, l = before ++ x :: after ∧ P before c ∧ f c x = .error e := by
  have rest : ∀ left before b, l = before ++ left → P before b → left.foldlM f b = .error e →
      ∃ before x after c, l = before ++ x :: after ∧ P before c ∧ f c x = .error e := by
    intro left
    induction left with
    | nil =>
      intro before b _ _ hc
      simp [pure, Except.pure] at hc
    | cons x left ih =>
      intro before b hl hb hc
      rw [List.foldlM_cons] at hc
      rcases bind_eq_error.mp hc with hx | ⟨d, hd, hc⟩
      · exact ⟨before, x, left, b, hl, hb, hx⟩
      · exact ih (before ++ [x]) d (by simp [hl]) (step before x left b d hl hb hd) hc
  exact rest l [] b rfl start h

/-- A fold whose steps fail by their elements alone fails with the first of them. -/
theorem foldlM_eq_error {f : β → α → Except ε β} {Refused : α → ε → Prop}
    (step : ∀ b x e, f b x = .error e ↔ Refused x e) {l : List α} {b : β} {e : ε} :
    l.foldlM f b = .error e ↔ ∃ before x after, l = before ++ x :: after ∧
      (∀ y ∈ before, ∀ e', ¬Refused y e') ∧ Refused x e := by
  constructor
  · intro h
    obtain ⟨before, x, after, c, hl, hbefore, hx⟩ :=
      foldlM_fails (P := fun before _ => ∀ y ∈ before, ∀ e', ¬Refused y e') nofun
        (fun before x after b c _ hbefore hc y hy => by
          rcases List.mem_append.mp hy with hy | hy
          · exact hbefore y hy
          · rw [List.mem_singleton.mp hy]
            intro e' hrefused
            cases hc.symm.trans ((step b x e').mpr hrefused)) h
    exact ⟨before, x, after, hl, hbefore, (step c x e).mp hx⟩
  · rintro ⟨before, x, after, rfl, hbefore, hx⟩
    induction before generalizing b with
    | nil =>
      rw [List.nil_append, List.foldlM_cons, (step b x e).mpr hx]
      rfl
    | cons y before ih =>
      cases hy : f b y with
      | error e' => exact absurd ((step b y e').mp hy) (hbefore y List.mem_cons_self e')
      | ok c =>
        rw [List.cons_append, List.foldlM_cons, hy]
        exact ih fun z hz => hbefore z (List.mem_cons_of_mem y hz)

end CatalogQuery.Fallible
