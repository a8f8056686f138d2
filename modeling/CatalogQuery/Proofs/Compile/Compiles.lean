import CatalogQuery.Proofs.Compile.LookUps
import CatalogQuery.Proofs.SideBySide

/-!
# When a request compiles

A request compiles iff its columns are open to the caller, its conditions parse, what the conventions
refer to is found, and the tables they need can be connected. Its statement is then that of the
clauses, from its offset on.

* `Draft.complete_eq_ok`, `Draft.finish_eq_ok`: what a completed draft is;
* `Schema.draft_eq_ok`: what is in the draft of a request, with `selects_of_draft` and
  `conditions_of_draft` for its two parts;
* `Schema.compile_offset`: only the statement depends on the offset.
-/

namespace CatalogQuery

open Sql Fallible

/-- The outcome for a draft whose required tables are connected by `links`. -/
def Draft.compiled (d : Draft) (s : Schema) (dialect : Dialect) (caller : Caller)
    (options : CompileOptions) (offset : Nat) (links : List LinkId) : Compiled where
  statement := (d.clauses s dialect caller options links).statement (dialect.offsetSuffix offset)
  count := (d.clauses s dialect caller options links).count
  sources := (d.clauses s dialect caller options links).sources.entries
  joins := (d.clauses s dialect caller options links).joinCount
  select := d.selects.map (·.1)

variable {s : Schema} {dialect : Dialect} {caller : Caller} {options : CompileOptions} {d : Draft}
  {c : Compiled}

theorem Draft.complete_eq_ok {k : Clauses} :
    d.complete s dialect caller options = .ok k ↔ d.selects ≠ [] ∧
      ∃ links, (s.resolve (d.requirements s)).1 = .ok links ∧
        k = d.clauses s dialect caller options links ∧ d.Found s caller options := by
  unfold complete
  rw [guarded_eq_ok, List.isEmpty_iff]
  refine and_congr_right fun _ => ?_
  simp only [bind_eq_ok, lookUpRequirements_eq_ok, Schema.lookUpFilters_eq_ok, lookUpOrder_eq_ok,
    pure, Except.pure, Except.ok.injEq]
  constructor
  · rintro ⟨_, ⟨hvalues, rfl⟩, links, hlinks, _, ⟨hguarded, rfl⟩, _, ⟨hcanonical, rfl⟩, rfl⟩
    exact ⟨links, hlinks, rfl, hvalues, hguarded, hcanonical⟩
  · rintro ⟨links, hlinks, rfl, hvalues, hguarded, hcanonical⟩
    exact ⟨_, ⟨hvalues, rfl⟩, links, hlinks, _, ⟨hguarded, rfl⟩, _, ⟨hcanonical, rfl⟩, rfl⟩

/-- Where nothing is missing, a draft that selects something fails for want of links only. -/
theorem Draft.Found.complete_eq (h : d.Found s caller options) (hselects : d.selects ≠ []) :
    d.complete s dialect caller options
      = d.clauses s dialect caller options <$> (s.resolve (d.requirements s)).1 := by
  have hrequired := lookUpRequirements_eq_ok.mpr ⟨h.values, rfl⟩
  have hfilters : s.lookUpFilters (d.selects.map fun c => c.2.tableId) caller options.strict
      options.anonymousUser = .ok _ := Schema.lookUpFilters_eq_ok.mpr ⟨h.guarded, rfl⟩
  have horders := lookUpOrder_eq_ok.mpr ⟨h.canonical, rfl⟩
  unfold Draft.complete
  rw [hrequired, hfilters, horders]
  simp only [List.isEmpty_iff, hselects, if_false]
  show (do return d.clauses s dialect caller options (← (s.resolve (d.requirements s)).1)) = _
  rw [map_eq_pure_bind]

theorem Draft.finish_eq_ok {offset : Nat} :
    d.finish s dialect caller options offset = .ok c ↔ d.selects ≠ [] ∧
      ∃ links, (s.resolve (d.requirements s)).1 = .ok links ∧
        c = d.compiled s dialect caller options offset links ∧ d.Found s caller options := by
  rw [finish, map_eq_ok]
  simp only [complete_eq_ok]
  constructor
  · rintro ⟨_, ⟨hselects, links, hlinks, rfl, hfound⟩, rfl⟩
    exact ⟨hselects, links, hlinks, rfl, hfound⟩
  · rintro ⟨hselects, links, hlinks, rfl, hfound⟩
    exact ⟨_, ⟨hselects, links, hlinks, rfl, hfound⟩, rfl⟩

/-! ## Columns -/

namespace Schema

theorem openColumn_eq_ok {column : ColumnId} {info : ColumnInfo}
    (h : s.openColumn caller column = .ok info) : s.columnInfo? column = some info := by
  unfold openColumn columnInfo at h
  split at h
  · cases h
  · split at h
    · next heq =>
      cases h
      exact heq
    · cases h

end Schema

/-! ## Drafts of requests -/

namespace Draft

/-- A column selected is open to the caller. -/
def Selects (s : Schema) (caller : Caller) (select : SelectColumn)
    (selected : SelectColumn × ColumnInfo) : Prop :=
  selected.1 = select ∧ s.openColumn caller select.column = .ok selected.2

/-- A condition asked for is about a column open to the caller, and parses. -/
def Reads (s : Schema) (caller : Caller) (asked : RequestCondition)
    (read : Condition × ColumnInfo) : Prop :=
  s.openColumn caller asked.column = .ok read.2 ∧ Condition.parse asked.expression = .ok read.1

def ofItems (selects : List (SelectColumn × ColumnInfo))
    (conditions : List (Condition × ColumnInfo)) : Draft :=
  ⟨selects.map (fun c => .select c.1 c.2) ++ conditions.map fun c => .condition c.1 c.2⟩

variable {selects : List (SelectColumn × ColumnInfo)} {conditions : List (Condition × ColumnInfo)}

@[simp] theorem selects_ofItems : (ofItems selects conditions).selects = selects := by
  simp [ofItems, Draft.selects, List.filterMap_append, List.filterMap_map]

@[simp] theorem conditions_ofItems : (ofItems selects conditions).conditions = conditions := by
  simp [ofItems, Draft.conditions, List.filterMap_append, List.filterMap_map]

theorem roles_ofItems (selects : List (SelectColumn × ColumnInfo))
    (conditions : List (Condition × ColumnInfo)) : (ofItems selects conditions).roles s
      = conditions.map fun c => s.conventions.role c.2.id := by
  rw [roles, conditions_ofItems]

theorem addSelect_eq_ok {select : SelectColumn} {d' : Draft} :
    d.addSelect s caller select = .ok d' ↔
      ∃ y, Selects s caller select y ∧ d' = ⟨d.items ++ [.select y.1 y.2]⟩ := by
  unfold addSelect Selects
  rw [bind_eq_ok]
  constructor
  · rintro ⟨info, hinfo, hd⟩
    cases hd
    exact ⟨(select, info), ⟨rfl, hinfo⟩, rfl⟩
  · rintro ⟨⟨_, info⟩, ⟨rfl, hinfo⟩, rfl⟩
    exact ⟨info, hinfo, rfl⟩

theorem addCondition_eq_ok {asked : RequestCondition} {d' : Draft} :
    d.addCondition s caller asked.column asked.expression = .ok d' ↔
      ∃ y, Reads s caller asked y ∧ s.lookUpPlace (d.roles s) y.2 = .ok () ∧
        d' = ⟨d.items ++ [.condition y.1 y.2]⟩ := by
  unfold addCondition Reads
  simp only [bind_eq_ok]
  constructor
  · rintro ⟨info, hinfo, c, hc, _, hplace, hd⟩
    cases hd
    exact ⟨(c, info), ⟨hinfo, hc⟩, hplace, rfl⟩
  · rintro ⟨⟨c, info⟩, ⟨hinfo, hc⟩, hplace, rfl⟩
    exact ⟨info, hinfo, c, hc, (), hplace, rfl⟩

/-- Items are added one behind the other, each to a draft that allows for it. -/
theorem foldlM_eq_ok {α β : Type} {add : Draft → α → Except QueryError Draft} {R : α → β → Prop}
    {P : Draft → β → Prop} {f : β → Item}
    (hadd : ∀ d x d', add d x = .ok d' ↔ ∃ y, R x y ∧ P d y ∧ d' = ⟨d.items ++ [f y]⟩)
    {xs : List α} {d' : Draft} :
    xs.foldlM add d = .ok d' ↔ ∃ ys, List.Forall₂ R xs ys ∧
      (∀ before y after, ys = before ++ y :: after → P ⟨d.items ++ before.map f⟩ y) ∧
      d' = ⟨d.items ++ ys.map f⟩ := by
  induction xs generalizing d with
  | nil =>
    simp only [List.foldlM_nil, pure, Except.pure, Except.ok.injEq, List.forall₂_nil_left_iff,
      exists_eq_left, List.map_nil, List.append_nil]
    simp [eq_comm]
  | cons x xs ih =>
    simp only [List.foldlM_cons, bind_eq_ok, hadd, ih]
    constructor
    · rintro ⟨_, ⟨y, hy, hP, rfl⟩, ys, hys, hrest, rfl⟩
      refine ⟨y :: ys, .cons hy hys, fun before z after hsplit => ?_, by simp⟩
      cases before with
      | nil =>
        cases hsplit
        simpa using hP
      | cons w before =>
        cases hsplit
        simpa using hrest before z after rfl
    · rintro ⟨_, hall, hP, rfl⟩
      obtain ⟨y, ys, hy, hys, rfl⟩ := List.forall₂_cons_left_iff.mp hall
      refine ⟨_, ⟨y, hy, by simpa using hP [] y ys rfl, rfl⟩, ys, hys, ?_, by simp⟩
      intro before z after hsplit
      simpa using hP (y :: before) z after (by simp [hsplit])

theorem addSelects_eq_ok {select : List SelectColumn} {d' : Draft} :
    select.foldlM (fun d c => d.addSelect s caller c) d = .ok d' ↔ ∃ ys,
      List.Forall₂ (Selects s caller) select ys ∧
      d' = ⟨d.items ++ ys.map fun y => .select y.1 y.2⟩ := by
  rw [foldlM_eq_ok (R := Selects s caller) (P := fun _ _ => True)
    (f := fun y => .select y.1 y.2)]
  · simp
  · intro d c d'
    rw [addSelect_eq_ok]
    simp

theorem addConditions_eq_ok {asked : List RequestCondition} {d' : Draft} :
    asked.foldlM (fun d c => d.addCondition s caller c.column c.expression) d = .ok d' ↔ ∃ ys,
      List.Forall₂ (Reads s caller) asked ys ∧
      (∀ before y after, ys = before ++ y :: after →
        s.lookUpPlace (roles ⟨d.items ++ before.map fun y => .condition y.1 y.2⟩ s) y.2 = .ok ()) ∧
      d' = ⟨d.items ++ ys.map fun y => .condition y.1 y.2⟩ := by
  apply foldlM_eq_ok (P := fun d (y : Condition × ColumnInfo) => s.lookUpPlace (d.roles s) y.2 = .ok ())
  intro d c d'
  exact addCondition_eq_ok

end Draft

theorem Schema.draft_eq_ok {r : Request} :
    s.draft caller r = .ok d ↔ ∃ selects conditions,
      List.Forall₂ (Draft.Selects s caller) r.select selects ∧
      List.Forall₂ (Draft.Reads s caller) r.conditions conditions ∧ s.Places conditions ∧
      d = .ofItems selects conditions := by
  unfold draft
  rw [bind_eq_ok]
  constructor
  · rintro ⟨d₁, hselect, hcondition⟩
    obtain ⟨selects, hselects, rfl⟩ := Draft.addSelects_eq_ok.mp hselect
    obtain ⟨conditions, hconditions, hplaces, rfl⟩ := Draft.addConditions_eq_ok.mp hcondition
    refine ⟨selects, conditions, hselects, hconditions, fun before c after hsplit => ?_,
      by simp [Draft.ofItems]⟩
    rw [← Draft.roles_ofItems selects]
    exact hplaces before c after hsplit
  · rintro ⟨selects, conditions, hselects, hconditions, hplaces, rfl⟩
    refine ⟨_, Draft.addSelects_eq_ok.mpr ⟨selects, hselects, rfl⟩, ?_⟩
    refine Draft.addConditions_eq_ok.mpr
      ⟨conditions, hconditions, fun before c after hsplit => ?_, by simp [Draft.ofItems]⟩
    show s.lookUpPlace ((Draft.ofItems selects before).roles s) c.2 = .ok ()
    rw [Draft.roles_ofItems]
    exact hplaces before c after hsplit

namespace Draft

variable {r : Request}

/-- The selected columns are those of the request, and open to the caller. -/
theorem selects_of_draft (h : s.draft caller r = .ok d) :
    List.Forall₂ (Selects s caller) r.select d.selects := by
  obtain ⟨selects, conditions, hselects, -, -, rfl⟩ := Schema.draft_eq_ok.mp h
  rwa [selects_ofItems]

/-- The conditions are those of the request, as they are read. -/
theorem conditions_of_draft (h : s.draft caller r = .ok d) :
    List.Forall₂ (Reads s caller) r.conditions d.conditions := by
  obtain ⟨selects, conditions, -, hconditions, -, rfl⟩ := Schema.draft_eq_ok.mp h
  rwa [conditions_ofItems]

theorem map_selects_of_draft (h : s.draft caller r = .ok d) : d.selects.map (·.1) = r.select := by
  have hselects := selects_of_draft h
  generalize r.select = asked, d.selects = selected at hselects
  induction hselects with
  | nil => rfl
  | cons hselect _ ih => rw [List.map_cons, ih, hselect.1]

end Draft

theorem Schema.compile_eq_ok {r : Request} :
    s.compile dialect caller options r = .ok c ↔ ∃ d, s.draft caller r = .ok d ∧ d.selects ≠ [] ∧
      ∃ links, (s.resolve (d.requirements s)).1 = .ok links ∧
        c = d.compiled s dialect caller options r.offset links ∧ d.Found s caller options := by
  simp only [compile, bind_eq_ok, Draft.finish_eq_ok]

/-- Whether a request compiles does not depend on its offset, nor do its columns and the statement
that counts its rows. -/
theorem Schema.compile_offset {r : Request} (h : s.compile dialect caller options r = .ok c)
    (offset : Nat) :
    ∃ c', s.compile dialect caller options { r with offset := offset } = .ok c' ∧
      c'.count = c.count ∧ c'.select = c.select := by
  obtain ⟨d, hd, hselects, links, hlinks, rfl, hfound⟩ := compile_eq_ok.mp h
  exact ⟨_, compile_eq_ok.mpr ⟨d, hd, hselects, links, hlinks, rfl, hfound⟩, rfl, rfl⟩

end CatalogQuery
