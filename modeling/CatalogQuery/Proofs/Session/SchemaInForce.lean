import CatalogQuery.Proofs.Schema.Forest
import CatalogQuery.Session.Engine

/-!
# Only forests come into force

A definition builds, an engine is created and a schema is reloaded exactly where the ordinary tables
form a forest. So the schema of an engine is always the last one accepted.

* `acceptance_iff_isForest`: the cycle check is exact, and with it all that accepts a schema.
-/

namespace CatalogQuery

open Fallible Schema

namespace Definition

/-- Building is registering and then checking for cycles. -/
theorem build_eq_ok_iff {d : Definition} {s s' : Schema} (h : d.register = .ok s) :
    d.build = .ok s' ↔ s' = s ∧ s.IsForest := by
  have hs := (registered_of_register h).wellFormed
  simp only [build, h, bind_eq_ok, Except.ok.injEq, pure, Except.pure]
  constructor
  · rintro ⟨_, rfl, _, hvalid, rfl⟩
    exact ⟨rfl, (validate_eq_ok_iff hs).mp hvalid⟩
  · rintro ⟨rfl, hforest⟩
    exact ⟨_, rfl, _, (validate_eq_ok_iff hs).mpr hforest, rfl⟩

end Definition

namespace Engine

theorem create_eq_ok_iff {s : Schema} {dialect : Sql.Dialect} {e : Engine} (hs : s.WellFormed) :
    Engine.create s dialect = .ok e ↔ s.IsForest ∧ e = { schema := s, dialect := dialect } := by
  simp only [create, bind_eq_ok, pure, Except.pure, Except.ok.injEq]
  constructor
  · rintro ⟨_, hvalid, rfl⟩
    exact ⟨(validate_eq_ok_iff hs).mp hvalid, rfl⟩
  · rintro ⟨hforest, rfl⟩
    exact ⟨_, (validate_eq_ok_iff hs).mpr hforest, rfl⟩

/-- Reloading either takes over a forest or leaves the engine as it is. -/
theorem reload_cases (e : Engine) {s : Schema} (hs : s.WellFormed) :
    s.IsForest ∧ e.reload s = (.ok (), { e with schema := s }) ∨
    ¬s.IsForest ∧ ∃ err, e.reload s = (.error err, e) := by
  rw [← validate_eq_ok_iff hs]
  unfold reload
  cases s.validate with
  | ok u => exact .inl ⟨rfl, rfl⟩
  | error err => exact .inr ⟨by simp, err, rfl⟩

theorem reload_ok_iff (e : Engine) {s : Schema} (hs : s.WellFormed) :
    (e.reload s).1 = .ok () ↔ s.IsForest := by
  rcases e.reload_cases hs with ⟨hforest, heq⟩ | ⟨hforest, err, heq⟩
  · simp [heq, hforest]
  · simp [heq, hforest]

/-- Hands over schemas one after the other: the answers, and the engine after them. -/
def reloadAll (e : Engine) : List Schema → List (Except QueryError Unit) × Engine
  | [] => ([], e)
  | s :: ss =>
    let rest := reloadAll (e.reload s).2 ss
    ((e.reload s).1 :: rest.1, rest.2)

/-- The schemas that were accepted, by the answers. -/
def accepted : List Schema → List (Except QueryError Unit) → List Schema
  | s :: ss, .ok () :: answers => s :: accepted ss answers
  | _ :: ss, .error _ :: answers => accepted ss answers
  | _, _ => []

/-- Reloading changes nothing but the schema, and that to the last one accepted. -/
theorem reloadAll_eq (e : Engine) {ss : List Schema} (hss : ∀ s ∈ ss, s.WellFormed) :
    (e.reloadAll ss).2 =
      { e with schema := (accepted ss (e.reloadAll ss).1).getLast?.getD e.schema } := by
  induction ss generalizing e with
  | nil => rfl
  | cons s ss ih =>
    have hrest := fun u hu => hss u (List.mem_cons_of_mem s hu)
    rcases e.reload_cases (hss s List.mem_cons_self) with ⟨-, heq⟩ | ⟨-, err, heq⟩
    · simp only [reloadAll, heq, accepted, List.getLast?_cons, Option.getD_some]
      exact ih _ hrest
    · simp only [reloadAll, heq, accepted]
      exact ih e hrest

theorem isForest_of_mem_accepted (e : Engine) {ss : List Schema} (hss : ∀ s ∈ ss, s.WellFormed)
    {s : Schema} (h : s ∈ accepted ss (e.reloadAll ss).1) : s.IsForest := by
  induction ss generalizing e with
  | nil => simp [accepted] at h
  | cons u ss ih =>
    have hrest := fun v hv => hss v (List.mem_cons_of_mem u hv)
    rcases e.reload_cases (hss u List.mem_cons_self) with ⟨hforest, heq⟩ | ⟨-, err, heq⟩
    · simp only [reloadAll, heq, accepted, List.mem_cons] at h
      rcases h with rfl | h
      · exact hforest
      · exact ih _ hrest h
    · simp only [reloadAll, heq, accepted] at h
      exact ih e hrest h

theorem isForest_reloadAll {e : Engine} (he : e.schema.IsForest) {ss : List Schema}
    (hss : ∀ s ∈ ss, s.WellFormed) : (e.reloadAll ss).2.schema.IsForest := by
  rw [reloadAll_eq e hss]
  cases h : (accepted ss (e.reloadAll ss).1).getLast? with
  | none => exact he
  | some s => exact e.isForest_of_mem_accepted hss (List.mem_of_getLast? h)

end Engine

/-! ## The check and its consequences -/

/-- The cycle check is exact: it finds nothing iff the schema is a forest, and what it reports is a
link between ordinary tables with a detour around it. Definitions, new engines and reloads accept
exactly the forests, and after any reloads the last schema accepted is in force. -/
theorem acceptance_iff_isForest {s : Schema} (hs : s.Registered) :
    (s.findCycle = none ↔ s.IsForest) ∧
    (∀ c, s.findCycle = some c → s.Closes c) ∧
    (∀ (d : Definition) (s' : Schema), d.register = .ok s →
      (d.build = .ok s' ↔ s' = s ∧ s.IsForest)) ∧
    (∀ (dialect : Sql.Dialect) (e : Engine), Engine.create s dialect = .ok e ↔
      s.IsForest ∧ e = { schema := s, dialect := dialect }) ∧
    (∀ e : Engine, (e.reload s).1 = .ok () ↔ s.IsForest) ∧
    ∀ (dialect : Sql.Dialect) (e : Engine), Engine.create s dialect = .ok e →
      ∀ ss : List Schema, (∀ s' ∈ ss, s'.Registered) →
        (e.reloadAll ss).2.schema.IsForest ∧
        (e.reloadAll ss).2 =
          { e with schema := (Engine.accepted ss (e.reloadAll ss).1).getLast?.getD s } := by
  have hw := hs.wellFormed
  refine ⟨findCycle_eq_none_iff hw, fun c => closes_of_findCycle hw,
    fun d s' h => Definition.build_eq_ok_iff h, fun dialect e => Engine.create_eq_ok_iff hw,
    fun e => e.reload_ok_iff hw, fun dialect e he ss hss => ?_⟩
  have hss' := fun u hu => (hss u hu).wellFormed
  obtain ⟨hforest, rfl⟩ := (Engine.create_eq_ok_iff hw).mp he
  exact ⟨Engine.isForest_reloadAll hforest hss', Engine.reloadAll_eq _ hss'⟩

theorem roundabout_accepted : Schema.roundabout.Registered ∧ Schema.roundabout.IsForest ∧
    Definition.roundabout.build = .ok .roundabout := by
  have h := acceptance_iff_isForest Schema.registered_roundabout
  have hforest : Schema.roundabout.IsForest := h.1.mp (by decide)
  exact ⟨Schema.registered_roundabout, hforest,
    (h.2.2.1 _ _ Definition.register_roundabout).mpr ⟨rfl, hforest⟩⟩

end CatalogQuery
