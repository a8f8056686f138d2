import CatalogQuery.Compile.Statement
import CatalogQuery.Proofs.Fallible

/-!
# Masked values

To mask is to put the empty text in place of every literal and of every value bound to a
placeholder. The parts of a compilation commute with masking, so what they build has the same text
with and without it, and as many values.

* `masked_eq_iff`: fragments agree when masked iff they have the same text and as many binds;
* `SimpleCondition.render_masked`, `Placed.term_masked`: a masked condition is rendered masked;
* `placed_masked`, `lookUpRequirements_masked`: places and tables do not depend on literals;
* `clausesOf_masked`, `lookUpFilters_masked`: nor do the clauses, up to masking.
-/

namespace CatalogQuery

open Sql Fallible

/-! ## Fragments, terms and clauses -/

namespace Sql

def Fragment.masked (f : Fragment) : Fragment := ⟨f.sql, f.binds.map fun _ => ""⟩

def Term.masked : Term → Term
  | .predicate p => .predicate p.masked
  | .compound connective left right => .compound connective left.masked right.masked
  | .join p => .join p

def Clauses.masked (c : Clauses) : Clauses := { c with terms := c.terms.map Term.masked }

@[simp] theorem Fragment.masked_append (f g : Fragment) :
    (f ++ g).masked = f.masked ++ g.masked := by
  show Fragment.mk _ _ = Fragment.mk _ _
  rw [Fragment.binds_append, List.map_append]
  rfl

@[simp] theorem Fragment.masked_masked (f : Fragment) : f.masked.masked = f.masked := by
  simp [masked]

theorem Fragment.masked_mk (sql : String) (binds : List String) :
    Fragment.masked ⟨sql, binds⟩ = ⟨sql, binds.map fun _ => ""⟩ := rfl

@[simp] theorem Fragment.sql_masked (f : Fragment) : f.masked.sql = f.sql := rfl

@[simp] theorem Fragment.binds_masked (f : Fragment) :
    f.masked.binds = f.binds.map fun _ => "" := rfl

theorem Fragment.masked_eq_iff {f g : Fragment} :
    f.masked = g.masked ↔ f.sql = g.sql ∧ f.binds.length = g.binds.length := by
  simp only [masked, List.map_const', Fragment.mk.injEq]
  constructor
  · rintro ⟨hsql, hbinds⟩
    exact ⟨hsql, by simpa using congrArg List.length hbinds⟩
  · rintro ⟨hsql, hbinds⟩
    exact ⟨hsql, by rw [hbinds]⟩

theorem Term.render_masked (t : Term) : t.masked.render = t.render.masked := by
  cases t with
  | predicate p => rfl
  | compound connective left right => simp [masked, render, Fragment.masked]
  | join p => rfl

theorem Term.isJoin_masked (t : Term) : t.masked.isJoin = t.isJoin := by
  cases t <;> rfl

@[simp] theorem Term.masked_masked (t : Term) : t.masked.masked = t.masked := by
  cases t <;> simp [masked]

@[simp] theorem Clauses.whereText_masked (c : Clauses) : c.masked.whereText = c.whereText := by
  simp [whereText, masked, Function.comp_def, Term.render_masked]

theorem Clauses.binds_masked (c : Clauses) :
    c.masked.terms.flatMap (·.render.binds)
      = (c.terms.flatMap (·.render.binds)).map fun _ => "" := by
  simp [masked, List.flatMap_map, Term.render_masked, List.map_flatMap]

@[simp] theorem Clauses.select_masked (c : Clauses) : c.masked.select = c.select := rfl

@[simp] theorem Clauses.sources_masked (c : Clauses) : c.masked.sources = c.sources := rfl

@[simp] theorem Clauses.groupText_masked (c : Clauses) : c.masked.groupText = c.groupText := rfl

@[simp] theorem Clauses.orderText_masked (c : Clauses) : c.masked.orderText = c.orderText := rfl

theorem Clauses.body_masked (c : Clauses) : c.masked.body = c.body.masked := by
  unfold body
  rw [Fragment.masked_mk, c.binds_masked, c.whereText_masked, c.groupText_masked,
    c.select_masked, c.sources_masked]

theorem Clauses.statement_masked (c : Clauses) (suffix : Option Fragment) :
    (c.masked.statement suffix).masked = (c.statement suffix).masked := by
  rw [statement, statement, body_masked, orderText_masked]
  simp only [Fragment.masked_append, Fragment.masked_masked]

theorem Clauses.count_masked (c : Clauses) : c.masked.count = c.count.masked := by
  unfold count
  rw [body_masked, Fragment.sql_masked, Fragment.binds_masked]
  exact (Fragment.masked_mk _ _).symm

theorem Clauses.joinCount_masked (c : Clauses) : c.masked.joinCount = c.joinCount := by
  simp [joinCount, masked, List.countP_map, Function.comp_def, Term.isJoin_masked]

end Sql

/-! ## Conditions -/

def SimpleCondition.masked (c : SimpleCondition) : SimpleCondition :=
  { c with literals := c.literals.map fun _ => "" }

def Condition.masked : Condition → Condition
  | .simple c => .simple c.masked
  | .compound connective left right => .compound connective left.masked right.masked

/-- Literals become binds only, in whatever form the operator has. -/
theorem SimpleCondition.render_masked (c : SimpleCondition) (column : String) (d : Dialect) :
    c.masked.render column d = (c.render column d).masked := by
  have hoperands : c.masked.operands column = c.operands column := rfl
  have hoperator : c.masked.operator = c.operator := rfl
  simp only [render, hoperands, hoperator]
  cases c.operator <;> simp only [masked, Fragment.masked]
  case beginOf => cases c.literals <;> rfl

def Placed.masked (p : Placed) : Placed := { p with condition := p.condition.masked }

theorem Placed.term_masked (p : Placed) (d : Dialect) : p.masked.term d = (p.term d).masked := by
  obtain ⟨condition, info, role, place⟩ := p
  cases condition with
  | simple c => simp only [term, masked, Condition.masked, Term.masked, c.render_masked]; rfl
  | compound connective left right =>
    simp only [term, masked, Condition.masked, Term.masked, left.render_masked,
      right.render_masked]
    rfl

/-! ## Drafts -/

def Item.masked : Item → Item
  | .select s info => .select s info
  | .condition c info => .condition c.masked info

namespace Draft

def masked (d : Draft) : Draft := ⟨d.items.map Item.masked⟩

@[simp] theorem selects_masked (d : Draft) : d.masked.selects = d.selects := by
  simp only [selects, masked, List.filterMap_map]
  congr 1
  funext i
  cases i <;> rfl

theorem conditions_masked (d : Draft) :
    d.masked.conditions = d.conditions.map fun c => (c.1.masked, c.2) := by
  simp only [conditions, masked, List.filterMap_map, List.map_filterMap]
  congr 1
  funext i
  cases i <;> rfl

theorem placeAll_masked (conventions : Conventions) (all before : List Role)
    (cs : List (Condition × ColumnInfo)) :
    placeAll conventions all before (cs.map fun c => (c.1.masked, c.2))
      = (placeAll conventions all before cs).map Placed.masked := by
  induction cs generalizing before with
  | nil => rfl
  | cons c cs ih => simp [placeAll, ih, Placed.masked]

@[simp] theorem roles_masked (d : Draft) (s : Schema) : d.masked.roles s = d.roles s := by
  rw [roles, conditions_masked, List.map_map]
  rfl

theorem placed_masked (d : Draft) (s : Schema) :
    d.masked.placed s = (d.placed s).map Placed.masked := by
  rw [placed, roles_masked, conditions_masked]
  exact placeAll_masked _ _ _ _

theorem requireInOrder_masked (s : Schema) (items : List Item) (ps : List Placed)
    (r : Requirements) :
    requireInOrder s (items.map Item.masked) (ps.map Placed.masked) r
      = requireInOrder s items ps r := by
  induction items generalizing ps r with
  | nil => rfl
  | cons i items ih =>
    cases i with
    | select c info => exact ih ps _
    | condition c info =>
      cases ps with
      | nil => exact ih [] r
      | cons p ps =>
        simp only [List.map_cons, Item.masked, requireInOrder, ih]
        rfl

theorem lookUpRequirements_masked (d : Draft) (s : Schema) :
    d.masked.lookUpRequirements s = d.lookUpRequirements s := by
  have hvalues : ((d.placed s).map Placed.masked).filter (·.role.isValue)
      = ((d.placed s).filter (·.role.isValue)).map Placed.masked := List.filter_map
  have hstart : requireInOrder s d.masked.items ((d.placed s).map Placed.masked) .empty
      = requireInOrder s d.items (d.placed s) .empty := requireInOrder_masked s _ _ _
  simp only [lookUpRequirements, placed_masked, hvalues, List.foldlM_map, hstart]
  rfl

theorem instancesOf_masked (ps : List Placed) :
    instancesOf (ps.map Placed.masked) = instancesOf ps := by
  have hnames : (ps.map Placed.masked).filter (fun p => !p.role.isValue)
      = (ps.filter fun p => !p.role.isValue).map Placed.masked := List.filter_map
  simp only [instancesOf, hnames, List.foldl_map]
  rfl

/-- The filters of two callers have the same text if both or neither are filtered. -/
theorem lookUpFilters_masked (s : Schema) (selected : List TableId) {c c' : Caller} {strict : Bool}
    {anonymousUser : String}
    (h : c.isFiltered strict anonymousUser = c'.isFiltered strict anonymousUser) :
    List.map Fragment.masked <$> s.lookUpFilters selected c strict anonymousUser
      = List.map Fragment.masked <$> s.lookUpFilters selected c' strict anonymousUser := by
  unfold Schema.lookUpFilters
  rw [h]
  split
  · refine map_bind_congr (f := id) rfl fun found found' hfound => ?_
    obtain rfl : found = found' := hfound
    show Except.ok _ = Except.ok _
    rw [List.map_map, List.map_map]
    rfl
  · rfl

/-- Without literals and names of callers the clauses are the same. -/
theorem clausesOf_masked (d : Draft) (s : Schema) (dialect : Dialect) (required : Requirements)
    (links : List LinkId) {filters filters' : List Fragment} (orders : List OrderItem)
    (h : filters.map Fragment.masked = filters'.map Fragment.masked) :
    (d.masked.clausesOf s dialect required links filters orders).masked
      = (d.clausesOf s dialect required links filters' orders).masked := by
  have hterms : ((d.placed s).map Placed.masked).map (Term.masked <| ·.term dialect)
      = (d.placed s).map (Term.masked <| ·.term dialect) := by
    rw [List.map_map]
    refine List.map_congr_left fun p _ => ?_
    rw [Function.comp_apply, p.term_masked, Term.masked_masked]
  have hfilters : ∀ fs : List Fragment, (fs.map Term.predicate).map Term.masked
      = (fs.map Fragment.masked).map Term.predicate := by
    intro fs
    rw [List.map_map, List.map_map]
    rfl
  simp only [clausesOf, Clauses.masked, selects_masked, placed_masked, instancesOf_masked,
    List.map_append, hfilters, h]
  simp only [List.map_map, Function.comp_def] at hterms ⊢
  rw [hterms]

end Draft

end CatalogQuery
