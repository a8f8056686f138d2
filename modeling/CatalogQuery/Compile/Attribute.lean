import CatalogQuery.Condition.Basic
import CatalogQuery.Schema.Basic
import CatalogQuery.Sql.Clauses

/-!
# Attribute instances

The conditions on the names of one layout are about different attribute rows: the k-th name is
looked up in instance k. The k-th condition on its values belongs to the k-th name; values beyond
the last name belong to the first instance.
-/

namespace CatalogQuery

open Sql

/-- What a column is to the attribute layouts. A column of values counts as such first. -/
inductive Role where
  | plain
  | name (position : Nat) (layout : AttributeJoin)
  | value (position : Nat) (layout : AttributeJoin)
  deriving DecidableEq, Repr

def Conventions.role (c : Conventions) (column : ColumnId) : Role :=
  match c.layoutByValue column with
  | some (i, j) => .value i j
  | none =>
    match c.layoutByName column with
    | some (i, j) => .name i j
    | none => .plain

namespace Role

def isNameOf (position : Nat) : Role → Bool
  | name i _ => i == position
  | _ => false

def isValueOf (position : Nat) : Role → Bool
  | value i _ => i == position
  | _ => false

def isValue : Role → Bool
  | value _ _ => true
  | _ => false

end Role

/-- Where a condition looks for its column: in the table itself or in an instance of a layout. -/
inductive Place where
  | own
  | inst (layout : AttributeJoin) (index : Nat)
  deriving DecidableEq, Repr

/-- The first instance is the registered table. -/
def Place.ofIndex (layout : AttributeJoin) (index : Nat) : Place :=
  if index ≤ 1 then .own else .inst layout index

/-- The table that a place needs: an instance is joined to the objects of its layout. -/
def Schema.placeTable (s : Schema) (info : ColumnInfo) : Place → Except QueryError TableId
  | .own => .ok info.tableId
  | .inst layout _ => s.tableId layout.objectTable

/-- A condition with the place of its column. -/
structure Placed where
  condition : Condition
  info : ColumnInfo
  role : Role
  place : Place
  deriving DecidableEq, Repr

namespace Placed

/-- The column as SQL names it at its place. -/
def columnText (p : Placed) : String :=
  match p.place with
  | .own => p.info.qualified
  | .inst layout index => layout.metaInstance index ++ "." ++ p.info.name

/-- The table that the condition needs, if it is registered. -/
def requiredTable (p : Placed) (s : Schema) : Option TableId :=
  (s.placeTable p.info p.place).toOption

end Placed

/-- The place of a condition of that role: `before` are the roles of the conditions before it, `all`
those of all conditions. -/
def Role.place (before all : List Role) : Role → Place
  | .plain => .own
  | .name i layout => .ofIndex layout (before.countP (·.isNameOf i) + 1)
  | .value i layout =>
    let ordinal := before.countP (·.isValueOf i) + 1
    .ofIndex layout (if ordinal ≤ all.countP (·.isNameOf i) then ordinal else 1)

/-- Places the conditions, in order. -/
def placeAll (conventions : Conventions) (all : List Role) :
    List Role → List (Condition × ColumnInfo) → List Placed
  | _, [] => []
  | before, (c, info) :: rest =>
    let role := conventions.role info.id
    ⟨c, info, role, role.place before all⟩ :: placeAll conventions all (before ++ [role]) rest

/-! ## Sources and joins of instances -/

/-- Sources with the joins that they need. -/
structure Instances where
  sources : Sources := {}
  joins : List Term := []
  deriving DecidableEq, Repr

/-- Adds one instance: its map, its attribute rows, and the joins from the object to both. An
instance whose two bindings are taken is there already. -/
def Instances.add (n : Instances) (j : AttributeJoin) (index : Nat) : Instances :=
  let map := j.mapInstance index
  let rows := j.metaInstance index
  let sources := (n.sources.add (j.mapTable ++ " " ++ map)).add (j.metaTable ++ " " ++ rows)
  if sources = n.sources then n
  else ⟨sources, n.joins ++
    [.join (map ++ "." ++ j.metaKey ++ " = " ++ rows ++ "." ++ j.metaKey),
      .join (j.objectTable ++ "." ++ j.objectIdColumn ++ " = " ++ map ++ "." ++
        j.mapObjectColumn)]⟩

/-- The instances that the placed conditions address, in the order of the names; a condition on values
is placed only in instances that a name addresses. -/
def instancesOf (ps : List Placed) : Instances :=
  (ps.filter fun p => !p.role.isValue).foldl (fun n p => match p.place with
    | .own => n
    | .inst layout index => n.add layout index) {}

end CatalogQuery
