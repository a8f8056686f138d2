import CatalogQuery.Request.Basic
import CatalogQuery.Schema.Basic
import CatalogQuery.Session.Backend

/-!
# Row checks

A request may ask that every row delivered belongs to an object to which a user has access. The
object is named by the first plain object id column that is selected. The last decision is kept, so
that rows of one object that follow each other are asked about once.
-/

namespace CatalogQuery

structure RowChecker where
  user : String
  zone : String
  level : AccessLevel
  /-- The position of the object id in a row. -/
  objectColumn : Nat
  last : Option (String × Bool) := none
  deriving DecidableEq, Repr

namespace RowChecker

/-- The checker for a request; without a user there is nothing to check. -/
def make (check : RowCheck) (localZone : String) (s : Schema) (select : List SelectColumn) :
    Except QueryError (Option RowChecker) :=
  if check.user.isEmpty then .ok none
  else
    match select.findIdx? fun c => c.isPlain && s.conventions.objectIdColumns.contains c.column with
    | none =>
      .error (.permissionDenied
        "permission check requires an object id column in the select list")
    | some i =>
      .ok (some
        { user := check.user
          zone := if check.zone.isEmpty then localZone else check.zone
          level := check.level
          objectColumn := i })

/-- The object of a row. -/
def objectOf (c : RowChecker) (row : List String) : String := (row[c.objectColumn]?).getD ""

/-- The refusal of a row. -/
def denial (c : RowChecker) (object : String) : QueryError :=
  .permissionDenied (c.user ++ "#" ++ c.zone ++ " lacks '" ++ c.level.token ++ "' on object "
    ++ object)

/-- Decides on an object and remembers the decision; a failure to decide is not remembered. -/
def decide {σ : Type} (b : Backend σ) (c : RowChecker) (object : String) (store : σ) :
    Except BackendFailure Bool × RowChecker × σ :=
  match c.last with
  | some (known, allowed) =>
    if known = object then (.ok allowed, c, store) else ask
  | none => ask
where
  ask : Except BackendFailure Bool × RowChecker × σ :=
    match b.access object c.user c.zone c.level store with
    | (.ok allowed, store) => (.ok allowed, { c with last := some (object, allowed) }, store)
    | (.error e, store) => (.error e, c, store)

/-- Lets a row pass or refuses it. -/
def check {σ : Type} (b : Backend σ) (c : RowChecker) (row : List String) (store : σ) :
    Except QueryError Unit × RowChecker × σ :=
  let object := c.objectOf row
  match c.decide b object store with
  | (.ok true, c, store) => (.ok (), c, store)
  | (.ok false, c, store) => (.error (c.denial object), c, store)
  | (.error e, c, store) => (.error (.backend e), c, store)

end RowChecker

end CatalogQuery
