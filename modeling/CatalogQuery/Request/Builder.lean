import CatalogQuery.Request.Basic

/-!
# Building requests

A request built step by step. Asking for an order on a column that is not selected spoils the
build: later columns and conditions are passed over and the build fails.
-/

namespace CatalogQuery

structure Builder where
  request : Request := {}
  spoiled : Bool := false
  deriving Repr

namespace Builder

def start : Builder := {}

/-- Changes the request unless the build is spoiled. -/
def extend (b : Builder) (f : Request → Request) : Builder :=
  if b.spoiled then b else { b with request := f b.request }

def selectWith (b : Builder) (column : ColumnId) (aggregate : Aggregation) (order : SortOrder) :
    Builder :=
  b.extend fun r => { r with select := r.select ++ [⟨column, aggregate, order⟩] }

def select (b : Builder) (column : ColumnId) : Builder := b.selectWith column .none .none

def aggregate (b : Builder) (column : ColumnId) (aggregate : Aggregation) : Builder :=
  b.selectWith column aggregate .none

/-- Gives the order to the first entry of the column. -/
def setOrder (column : ColumnId) (order : SortOrder) : List SelectColumn → List SelectColumn
  | [] => []
  | s :: rest =>
    if s.column = column then { s with order := order } :: rest else s :: setOrder column order rest

def orderWith (b : Builder) (column : ColumnId) (order : SortOrder) : Builder :=
  if b.spoiled then b
  else if b.request.select.any (·.column == column) then
    b.extend fun r => { r with select := setOrder column order r.select }
  else { b with spoiled := true }

def orderBy (b : Builder) (column : ColumnId) : Builder := b.orderWith column .asc

def orderByDesc (b : Builder) (column : ColumnId) : Builder := b.orderWith column .desc

def condition (b : Builder) (column : ColumnId) (expression : String) : Builder :=
  b.extend fun r => { r with conditions := r.conditions ++ [⟨column, expression⟩] }

/-- The column has exactly this value. -/
def equals (b : Builder) (column : ColumnId) (value : String) : Builder :=
  b.condition column ("= '" ++ value ++ "'")

/-- The column begins with this text. -/
def beginsWith (b : Builder) (column : ColumnId) (start : String) : Builder :=
  b.condition column ("begin_of '" ++ start ++ "'")

def offset (b : Builder) (n : Nat) : Builder := { b with request := { b.request with offset := n } }

def maxRows (b : Builder) (n : Int) : Builder :=
  { b with request := { b.request with maxRows := n } }

def totalCount (b : Builder) (wanted : Bool) : Builder :=
  { b with request := { b.request with totalCount := wanted } }

def checkPermission (b : Builder) (user zone : String) (level : AccessLevel) : Builder :=
  { b with request := { b.request with rowCheck := some ⟨user, zone, level⟩ } }

def build (b : Builder) : Except QueryError Request :=
  if b.spoiled then .error (.invalidRequest "order_by requires a selected column")
  else if b.request.select.isEmpty then .error (.invalidRequest "select list is empty")
  else .ok b.request

end Builder

end CatalogQuery
