import CatalogQuery.Compile.Statement
import CatalogQuery.Schema.Cycle

/-!
# Schemas without their limits

The limits of a schema bound its registration and nothing else: the links at a table, the check for
cycles, the join trees and all that is compiled are those of the schema without limits.

* `walk_unlimited`, `scan_unlimited`: both searches take the same links;
* `validate_unlimited`: the same schemas are accepted;
* `compile_unlimited`: every request compiles to the same statement, or fails alike.
-/

namespace CatalogQuery

namespace Schema

/-- The schema with all limits lifted. -/
def unlimited (s : Schema) : Schema := { s with limits := {} }

variable (s : Schema)

theorem incident_unlimited : s.unlimited.incident = s.incident := rfl

/-! ## Cycles -/

theorem walk_unlimited : s.unlimited.walk = s.walk := by
  funext depth
  induction depth with
  | zero => rfl
  | succ depth ih =>
    funext t entry seen
    unfold walk
    rw [ih]
    rfl

theorem validate_unlimited : s.unlimited.validate = s.validate := by
  have hwalks : s.unlimited.walkAll = s.walkAll := by
    unfold walkAll
    rw [walk_unlimited]
    rfl
  have hcycle : s.unlimited.findCycle = s.findCycle := by
    unfold findCycle
    rw [hwalks]
    rfl
  unfold validate
  rw [hcycle]
  rfl

/-! ## Join trees -/

theorem scan_unlimited (required : List TableId) : s.unlimited.scan required = s.scan required := by
  funext depth
  induction depth with
  | zero => rfl
  | succ depth ih =>
    funext t entry w
    unfold scan
    rw [ih]
    rfl

theorem resolve_unlimited : s.unlimited.resolve = s.resolve := by
  have hsearch : s.unlimited.search = s.search := by
    funext required
    unfold search
    rw [scan_unlimited]
    rfl
  funext r
  unfold resolve
  rw [hsearch]
  rfl

end Schema

/-! ## Statements -/

namespace Draft

variable (d : Draft) (s : Schema)

theorem requireInOrder_unlimited (items : List Item) (ps : List Placed) (r : Requirements) :
    requireInOrder s.unlimited items ps r = requireInOrder s items ps r := by
  induction items generalizing ps r with
  | nil => rfl
  | cons item items ih =>
    cases item with
    | select c info => exact ih ps _
    | condition c info =>
      cases ps with
      | nil => exact ih [] r
      | cons p ps =>
        simp only [requireInOrder, ih]
        rfl

theorem lookUpRequirements_unlimited :
    d.lookUpRequirements s.unlimited = d.lookUpRequirements s := by
  unfold lookUpRequirements
  dsimp only
  rw [requireInOrder_unlimited]
  rfl

theorem complete_unlimited (dialect : Sql.Dialect) (caller : Caller) (options : CompileOptions) :
    d.complete s.unlimited dialect caller options = d.complete s dialect caller options := by
  unfold complete
  rw [lookUpRequirements_unlimited, Schema.resolve_unlimited]
  rfl

end Draft

theorem Schema.compile_unlimited (s : Schema) (dialect : Sql.Dialect) (caller : Caller)
    (options : CompileOptions) (r : Request) :
    s.unlimited.compile dialect caller options r = s.compile dialect caller options r := by
  have hdraft : s.unlimited.draft caller r = s.draft caller r := rfl
  unfold compile
  rw [hdraft]
  simp only [Draft.finish, Draft.complete_unlimited]

end CatalogQuery
