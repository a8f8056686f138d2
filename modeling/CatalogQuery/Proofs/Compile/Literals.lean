import CatalogQuery.Proofs.Compile.Masking
import CatalogQuery.Proofs.Schema.Registration
import Mathlib.Data.List.Forall2

/-!
# Literals are no part of the text

Two requests that differ in the literals of their conditions only compile alike, for callers who are
both or neither administrators and both or neither anonymous: to statements of the same text with as
many binds, or to the same error.

* `full_of_parse`: how many literals a condition has is decided by its operators;
* `draft_masked`: the drafts of such requests differ in literals only;
* `compile_alike`: so do their statements in binds only.
-/

namespace CatalogQuery

open Sql Fallible

/-! ## The shape of a condition -/

def SimpleCondition.shape (c : SimpleCondition) : Operator × Bool := (c.operator, c.numeric)

/-- The connective with the operators and the numeric marks. -/
def Condition.shape : Condition → Option Connective × List (Operator × Bool)
  | .simple c => (none, [c.shape])
  | .compound connective left right => (some connective, [left.shape, right.shape])

/-- The number of literals that is read for an operator. -/
def SimpleCondition.Full (c : SimpleCondition) : Prop :=
  c.literals.length = if c.operator.takesRange then 2 else 1

def Condition.Full : Condition → Prop
  | .simple c => c.Full
  | .compound _ left right => left.Full ∧ right.Full

namespace Condition

theorem full_of_readSimple {e : List Char} {c : SimpleCondition} (h : readSimple e = .ok c) :
    c.Full := by
  unfold readSimple at h
  dsimp only at h
  split at h
  case h_2 => cases h
  split at h
  case h_2 => cases h
  split at h
  case isFalse => cases h
  split at h
  case isTrue => cases h
  split at h
  case h_2 => cases h
  split at h
  case isTrue hrange =>
    split at h
    case h_2 => cases h
    cases h
    simp [SimpleCondition.Full, hrange]
  case isFalse hrange =>
    cases h
    simp [SimpleCondition.Full, hrange]

/-- Every condition that is read has the literals of its operators. -/
theorem full_of_parse {e : String} {c : Condition} (h : parse e = .ok c) : c.Full := by
  have hpart : ∀ {s : List Char} {k : SimpleCondition}, parseSimpleChars s = .ok k → k.Full := by
    intro s k hk
    unfold parseSimpleChars at hk
    cases hread : readSimple s with
    | error f => simp [hread, Except.mapError] at hk
    | ok k' =>
      simp only [hread, Except.mapError, Except.ok.injEq] at hk
      exact hk ▸ full_of_readSimple hread
  unfold parse at h
  dsimp only at h
  split at h
  · obtain ⟨k, hk, h⟩ := bind_eq_ok.mp h
    cases h
    exact hpart hk
  · obtain ⟨-, h⟩ := guarded_eq_ok.mp h
    obtain ⟨left, hleft, h⟩ := bind_eq_ok.mp h
    obtain ⟨right, hright, h⟩ := bind_eq_ok.mp h
    cases h
    exact ⟨hpart hleft, hpart hright⟩

end Condition

theorem SimpleCondition.masked_eq {c c' : SimpleCondition} (h : c.Full) (h' : c'.Full)
    (hshape : c.shape = c'.shape) : c.masked = c'.masked := by
  obtain ⟨operator, literals, numeric⟩ := c
  obtain ⟨operator', literals', numeric'⟩ := c'
  simp only [shape, Prod.mk.injEq] at hshape
  obtain ⟨rfl, rfl⟩ := hshape
  have hlength : literals.length = literals'.length := h.trans h'.symm
  simp [masked, hlength]

/-- Conditions of one shape differ in their literals only. -/
theorem Condition.masked_eq {c c' : Condition} (h : c.Full) (h' : c'.Full)
    (hshape : c.shape = c'.shape) : c.masked = c'.masked := by
  cases c with
  | simple c =>
    cases c' with
    | simple c' =>
      simp only [shape, Prod.mk.injEq, List.cons.injEq, and_true, true_and] at hshape
      rw [masked, masked, c.masked_eq h h' hshape]
    | compound => simp [shape] at hshape
  | compound connective left right =>
    cases c' with
    | simple c' => simp [shape] at hshape
    | compound connective' left' right' =>
      simp only [shape, Prod.mk.injEq, List.cons.injEq, and_true, Option.some.injEq] at hshape
      obtain ⟨rfl, hleft, hright⟩ := hshape
      rw [masked, masked, left.masked_eq h.1 h'.1 hleft, right.masked_eq h.2 h'.2 hright]

/-! ## Requests and callers -/

/-- Conditions on one column whose expressions are read and have one shape. -/
def RequestCondition.Alike (a b : RequestCondition) : Prop :=
  a.column = b.column ∧ ∃ c c', Condition.parse a.expression = .ok c ∧
    Condition.parse b.expression = .ok c' ∧ c.shape = c'.shape

/-- The same columns and the same offset are asked for, and conditions that differ in literals. -/
structure Request.Alike (a b : Request) : Prop where
  select : a.select = b.select
  offset : a.offset = b.offset
  conditions : List.Forall₂ RequestCondition.Alike a.conditions b.conditions

/-- Both or neither administrate the zone, and both or neither are the anonymous user. -/
structure Caller.Alike (anonymousUser : String) (c c' : Caller) : Prop where
  admin : c.privilege.isLocalAdmin = c'.privilege.isLocalAdmin
  anonymous : (c.user == anonymousUser) = (c'.user == anonymousUser)

variable {s : Schema} {caller caller' : Caller} {options : CompileOptions}

theorem Caller.Alike.isFiltered {anonymousUser : String}
    (h : caller.Alike anonymousUser caller') (strict : Bool) :
    caller.isFiltered strict anonymousUser = caller'.isFiltered strict anonymousUser := by
  unfold Caller.isFiltered
  rw [h.admin, h.anonymous]

theorem openColumn_alike (h : caller.privilege.isLocalAdmin = caller'.privilege.isLocalAdmin)
    (column : ColumnId) : s.openColumn caller column = s.openColumn caller' column := by
  unfold Schema.openColumn
  rw [h]

/-! ## Drafts -/

namespace Draft

theorem addCondition_alike {d d' : Draft} {a b : RequestCondition}
    (h : caller.privilege.isLocalAdmin = caller'.privilege.isLocalAdmin)
    (hd : d.masked = d'.masked) (hab : a.Alike b) :
    masked <$> d.addCondition s caller a.column a.expression
      = masked <$> d'.addCondition s caller' b.column b.expression := by
  obtain ⟨hcolumn, c, c', hc, hc', hshape⟩ := hab
  have hmasked := c.masked_eq (Condition.full_of_parse hc) (Condition.full_of_parse hc') hshape
  have hroles : d.roles s = d'.roles s := by
    rw [← d.roles_masked, hd, d'.roles_masked]
  unfold addCondition
  rw [hcolumn, hc, hc', openColumn_alike h, hroles]
  cases s.openColumn caller' b.column with
  | error e => rfl
  | ok info =>
    cases hplace : s.lookUpPlace (d'.roles s) info with
    | error e => simp [bind, Except.bind, Functor.map, Except.map, hplace]
    | ok u =>
      simp only [masked, mk.injEq] at hd
      simp [bind, Except.bind, pure, Except.pure, Functor.map, Except.map, masked, hd, Item.masked,
        hmasked, hplace]

theorem addConditions_alike {d d' : Draft} {as bs : List RequestCondition}
    (h : caller.privilege.isLocalAdmin = caller'.privilege.isLocalAdmin)
    (hd : d.masked = d'.masked) (hab : List.Forall₂ RequestCondition.Alike as bs) :
    masked <$> as.foldlM (fun d c => d.addCondition s caller c.column c.expression) d
      = masked <$> bs.foldlM (fun d c => d.addCondition s caller' c.column c.expression) d' := by
  induction hab generalizing d d' with
  | nil => simp [pure, Except.pure, Functor.map, Except.map, hd]
  | cons hab _ ih =>
    rw [List.foldlM_cons, List.foldlM_cons]
    exact map_bind_congr (addCondition_alike h hd hab) fun _ _ => ih

end Draft

/-- The drafts of requests that are alike differ in literals only. -/
theorem draft_masked {a b : Request}
    (h : caller.privilege.isLocalAdmin = caller'.privilege.isLocalAdmin) (hab : a.Alike b) :
    Draft.masked <$> s.draft caller a = Draft.masked <$> s.draft caller' b := by
  have hselect : (fun (d : Draft) c => d.addSelect s caller c)
      = fun (d : Draft) c => d.addSelect s caller' c := by
    funext d c
    unfold Draft.addSelect
    rw [openColumn_alike h]
  unfold Schema.draft
  rw [hselect, hab.select]
  exact map_bind_congr rfl fun _ _ hd => Draft.addConditions_alike h hd hab.conditions

/-! ## Statements -/

def Compiled.masked (c : Compiled) : Compiled :=
  { c with statement := c.statement.masked, count := c.count.masked }

/-- The statements have the same text, of rows and of their number, and as many binds. -/
structure Compiled.SameText (c c' : Compiled) : Prop where
  sql : c.statement.sql = c'.statement.sql
  countSql : c.count.sql = c'.count.sql
  sources : c.sources = c'.sources
  joins : c.joins = c'.joins
  select : c.select = c'.select
  binds : c.statement.binds.length = c'.statement.binds.length
  countBinds : c.count.binds.length = c'.count.binds.length

theorem Compiled.sameText_of_masked {c c' : Compiled} (h : c.masked = c'.masked) :
    c.SameText c' := by
  simp only [masked, Compiled.mk.injEq, Fragment.masked_eq_iff] at h
  obtain ⟨⟨hsql, hbinds⟩, ⟨hcount, hcountBinds⟩, hsources, hjoins, hselect⟩ := h
  exact ⟨hsql, hcount, hsources, hjoins, hselect, hbinds, hcountBinds⟩

theorem Draft.complete_masked {d d' : Draft} (hc : caller.Alike options.anonymousUser caller')
    (hd : d.masked = d'.masked) (dialect : Dialect) :
    Clauses.masked <$> d.complete s dialect caller options
      = Clauses.masked <$> d'.complete s dialect caller' options := by
  have hselects : d.selects = d'.selects := by
    rw [← d.selects_masked, hd, d'.selects_masked]
  have hrequired : d.lookUpRequirements s = d'.lookUpRequirements s := by
    rw [← d.lookUpRequirements_masked, hd, d'.lookUpRequirements_masked]
  unfold complete
  rw [hselects, hrequired]
  split
  · rfl
  -- Nothing but the filters depends on the caller.
  refine map_bind_congr (f := id) rfl fun required _ h => ?_
  cases h
  refine map_bind_congr (f := id) rfl fun links _ h => ?_
  cases h
  refine map_bind_congr (lookUpFilters_masked s _ (hc.isFiltered options.strict))
    fun filters filters' hfilters => ?_
  refine map_bind_congr (f := id) rfl fun orders _ h => ?_
  cases h
  show Except.ok _ = Except.ok _
  rw [← d.clausesOf_masked s dialect required links orders hfilters.symm, hd,
    d'.clausesOf_masked s dialect required links orders rfl]

theorem Draft.finish_masked {d d' : Draft} (hc : caller.Alike options.anonymousUser caller')
    (hd : d.masked = d'.masked) (dialect : Dialect) (offset : Nat) :
    Compiled.masked <$> d.finish s dialect caller options offset
      = Compiled.masked <$> d'.finish s dialect caller' options offset := by
  have hselects : d.selects = d'.selects := by
    rw [← d.selects_masked, hd, d'.selects_masked]
  unfold finish
  rw [hselects, map_eq_pure_bind, map_eq_pure_bind]
  refine map_bind_congr (Draft.complete_masked hc hd dialect) fun k k' hclauses => ?_
  have hstatement := fun suffix => congrArg (fun k : Clauses => (k.statement suffix).masked)
    hclauses
  have hcount := congrArg Clauses.count hclauses
  have hjoins := congrArg Clauses.joinCount hclauses
  have hsources := congrArg Clauses.sources hclauses
  simp only [Clauses.statement_masked, Clauses.count_masked, Clauses.joinCount_masked,
    Clauses.sources_masked] at hstatement hcount hjoins hsources
  simp [pure, Except.pure, Functor.map, Except.map, Compiled.masked, Clauses.compiled, hstatement,
    hcount, hjoins, hsources]

/-- Literals never influence the text of a statement: requests and callers that are alike come to
statements of the same text or to the same error. -/
theorem compile_alike (s : Schema) (dialect : Dialect) (options : CompileOptions) {a b : Request}
    {caller caller' : Caller} (hab : a.Alike b)
    (hc : caller.Alike options.anonymousUser caller') :
    (∃ c c', s.compile dialect caller options a = .ok c ∧
      s.compile dialect caller' options b = .ok c' ∧ c.SameText c') ∨
    ∃ e, s.compile dialect caller options a = .error e ∧
      s.compile dialect caller' options b = .error e := by
  have hmasked : Compiled.masked <$> s.compile dialect caller options a
      = Compiled.masked <$> s.compile dialect caller' options b := by
    unfold Schema.compile
    rw [hab.offset]
    exact map_bind_congr (draft_masked hc.admin hab)
      fun _ _ hd => Draft.finish_masked hc hd dialect b.offset
  cases ha : s.compile dialect caller options a with
  | error e =>
    cases hb : s.compile dialect caller' options b with
    | error e' =>
      simp only [ha, hb, Functor.map, Except.map, Except.error.injEq] at hmasked
      exact .inr ⟨e, rfl, by rw [hmasked]⟩
    | ok c' => simp [ha, hb, Functor.map, Except.map] at hmasked
  | ok c =>
    cases hb : s.compile dialect caller' options b with
    | error e' => simp [ha, hb, Functor.map, Except.map] at hmasked
    | ok c' =>
      simp only [ha, hb, Functor.map, Except.map, Except.ok.injEq] at hmasked
      exact .inl ⟨c, c', rfl, rfl, Compiled.sameText_of_masked hmasked⟩

/-- The names of the data with a label. -/
def Request.labelled (label : String) : Request :=
  { select := [⟨⟨1⟩, .none, .none⟩], conditions := [⟨⟨2⟩, "= '" ++ label ++ "'"⟩] }

/-- A label that would close its quotes compiles like any other, whoever asks. -/
theorem labelled_alike :
    ∃ c c', Schema.roundabout.compile .postgres ⟨"alice", "north", .localUser⟩ {}
        (.labelled "x") = .ok c ∧
      Schema.roundabout.compile .postgres ⟨"bob", "south", .remoteUser⟩ {}
        (.labelled "x' or '1'='1") = .ok c' ∧ c.SameText c' := by
  have hread : ∀ label ∈ ["x", "x' or '1'='1"],
      Condition.parse ("= '" ++ label ++ "'") = .ok (.simple ⟨.eq, [label], false⟩) := by
    decide +kernel
  have hlabelled : (Request.labelled "x").Alike (.labelled "x' or '1'='1") :=
    ⟨rfl, rfl, .cons ⟨rfl, _, _, hread _ (by simp), hread _ (by simp), rfl⟩ .nil⟩
  have hcallers : Caller.Alike "anonymous" ⟨"alice", "north", .localUser⟩
      ⟨"bob", "south", .remoteUser⟩ := ⟨by decide, by decide⟩
  rcases compile_alike .roundabout .postgres {} hlabelled hcallers with h | ⟨e, h, -⟩
  · exact h
  · have hok : (Schema.roundabout.compile .postgres ⟨"alice", "north", .localUser⟩ {}
        (.labelled "x")).isOk = true := by decide +kernel
    rw [h] at hok
    cases hok

end CatalogQuery
