import CatalogQuery.Compile.Attribute
import CatalogQuery.Condition.Grammar
import CatalogQuery.Request.Basic

/-!
# Drafts

The columns and conditions that a request asks for, each checked when it is added: the column must
be open to the caller and registered, the condition must parse, and the table of its place must be
registered. What fails is not added.
-/

namespace CatalogQuery

/-- Something asked for, with the column it is about. -/
inductive Item where
  | select (s : SelectColumn) (info : ColumnInfo)
  | condition (c : Condition) (info : ColumnInfo)
  deriving DecidableEq, Repr

/-- The items in the order in which they were added. -/
structure Draft where
  items : List Item := []
  deriving DecidableEq, Repr

/-- The column, if the caller may use it. -/
def Schema.openColumn (s : Schema) (caller : Caller) (column : ColumnId) :
    Except QueryError ColumnInfo :=
  if s.conventions.isRestricted column && !caller.privilege.isLocalAdmin then
    .error (.permissionDenied
      ("column " ++ toString column ++ " is restricted to local administrators"))
  else s.columnInfo column

/-- Looks up the table of a condition behind others of the roles `before`. The place of a condition on
values is known only when all names are. -/
def Schema.lookUpPlace (s : Schema) (before : List Role) (info : ColumnInfo) :
    Except QueryError Unit :=
  let role := s.conventions.role info.id
  if role.isValue then .ok () else discard (s.placeTable info (role.place before before))

namespace Draft

def selects (d : Draft) : List (SelectColumn × ColumnInfo) :=
  d.items.filterMap fun
    | .select s info => some (s, info)
    | .condition _ _ => none

def conditions (d : Draft) : List (Condition × ColumnInfo) :=
  d.items.filterMap fun
    | .select _ _ => none
    | .condition c info => some (c, info)

/-- What the columns of the conditions are to the attribute layouts. -/
def roles (d : Draft) (s : Schema) : List Role :=
  d.conditions.map fun c => s.conventions.role c.2.id

/-- The conditions of a draft, each at its place. -/
def placed (d : Draft) (s : Schema) : List Placed :=
  placeAll s.conventions (d.roles s) [] d.conditions

def addSelect (d : Draft) (s : Schema) (caller : Caller) (select : SelectColumn) :
    Except QueryError Draft := do
  let info ← s.openColumn caller select.column
  return ⟨d.items ++ [.select select info]⟩

def addCondition (d : Draft) (s : Schema) (caller : Caller) (column : ColumnId)
    (expression : String) : Except QueryError Draft := do
  let info ← s.openColumn caller column
  let c ← Condition.parse expression
  s.lookUpPlace (d.roles s) info
  return ⟨d.items ++ [.condition c info]⟩

end Draft

end CatalogQuery
