import CatalogQuery.Access.RowFilter
import CatalogQuery.Compile.Draft
import CatalogQuery.Condition.Render
import CatalogQuery.Join.Tree

/-!
# Compiled statements

A draft becomes one statement: its conditions at their places, the joins that connect its tables,
the joins of attribute instances, and the filters of the caller, in this order.
-/

namespace CatalogQuery

open Sql

structure CompileOptions where
  strict : Bool := false
  anonymousUser : String := "anonymous"
  deriving DecidableEq, Repr

structure Compiled where
  /-- Delivers the rows. -/
  statement : Fragment
  /-- Counts the rows without the offset. -/
  count : Fragment
  sources : List String
  joins : Nat
  select : List SelectColumn
  deriving DecidableEq, Repr

/-- What the clauses of a request with these columns are compiled to. -/
def Sql.Clauses.compiled (k : Clauses) (suffix : Option Fragment) (select : List SelectColumn) :
    Compiled where
  statement := k.statement suffix
  count := k.count
  sources := k.sources.entries
  joins := k.joinCount
  select := select

/-- The expression of a selected column. -/
def SelectColumn.text (s : SelectColumn) (info : ColumnInfo) : String :=
  match s.aggregate.function? with
  | some f => f ++ "(" ++ info.qualified ++ ")"
  | none => info.qualified

/-- The condition at its place. -/
def Placed.term (p : Placed) (d : Dialect) : Term :=
  match p.condition with
  | .simple c => .predicate (c.render p.columnText d)
  | .compound connective left right =>
    .compound connective (left.render p.columnText d) (right.render p.columnText d)

namespace Draft

/-- The items that need a table, values aside: a select, or the next placed condition. -/
def requireInOrder (s : Schema) :
    List Item → List Placed → Requirements → Requirements
  | [], _, r => r
  | .select _ info :: items, ps, r => requireInOrder s items ps (r.require info.tableId)
  | .condition _ _ :: items, [], r => requireInOrder s items [] r
  | .condition _ _ :: items, p :: ps, r =>
    if p.role.isValue then requireInOrder s items ps r
    else requireInOrder s items ps ((p.requiredTable s).elim r r.require)

/-- The required tables in the order of the items; conditions on values come last, since their
places are known only when all names are. -/
def requirements (d : Draft) (s : Schema) : Requirements :=
  let ps := d.placed s
  (ps.filter (·.role.isValue)).foldl (fun r p => (p.requiredTable s).elim r r.require)
    (requireInOrder s d.items ps .empty)

/-- The same tables, if those of the conditions on values are registered. Those of the other
conditions were looked up when these were added. -/
def lookUpRequirements (d : Draft) (s : Schema) : Except QueryError Requirements :=
  let ps := d.placed s
  (ps.filter (·.role.isValue)).foldlM (fun r p => r.require <$> s.placeTable p.info p.place)
    (requireInOrder s d.items ps .empty)

/-- Adds the sources of the required tables and of both ends of every link. -/
def addSources (s : Schema) (required : List TableId) (links : List LinkId) (from_ : Sources) :
    Sources :=
  let from_ := required.foldl (fun f t => f.add (s.source t)) from_
  (links.filterMap (s.links[·]?)).foldl
    (fun f l => (f.add (s.source l.left)).add (s.source l.right)) from_

/-- Joins of a tree, as terms. -/
def joinTerms (s : Schema) (links : List LinkId) : List Term :=
  (links.filterMap (s.links[·]?)).map fun l => .join l.predicate

/-- An aggregate beside plain columns groups by the plain ones. -/
def groupBy (selects : List (SelectColumn × ColumnInfo)) : List String :=
  if selects.any (fun c => !c.1.isPlain) then
    ((selects.filter fun c => c.1.isPlain).map fun c => c.2.qualified).foldl
      (fun done name => if done.contains name then done else done ++ [name]) []
  else []

def addOrder (done : List OrderItem) (item : OrderItem) : List OrderItem :=
  if done.any (·.column == item.column) then done else done ++ [item]

/-- The canonical columns that are selected plain. -/
def canonicalColumns (s : Schema) (selects : List (SelectColumn × ColumnInfo)) : List ColumnId :=
  s.conventions.canonicalOrder.filter fun column =>
    selects.any fun c => c.1.isPlain && c.1.column == column

/-- The order asked for, then the canonical columns. Of several orders on one column the first
counts. -/
def orderOf (selects : List (SelectColumn × ColumnInfo)) (canonical : List ColumnInfo) :
    List OrderItem :=
  let asked := (selects.filter fun c => c.1.isPlain && c.1.order != .none).map
    fun c => OrderItem.mk c.2.qualified (c.1.order == .desc)
  (asked ++ canonical.map fun info => OrderItem.mk info.qualified false).foldl addOrder []

/-- The order of the rows where the canonical columns are registered. -/
def orderBy (s : Schema) (selects : List (SelectColumn × ColumnInfo)) : List OrderItem :=
  orderOf selects ((canonicalColumns s selects).filterMap s.columnInfo?)

/-- The same order, if they are. -/
def lookUpOrder (s : Schema) (selects : List (SelectColumn × ColumnInfo)) :
    Except QueryError (List OrderItem) :=
  orderOf selects <$> (canonicalColumns s selects).mapM s.columnInfo

/-- The clauses of a draft whose required tables are connected by `links`. -/
def clausesOf (d : Draft) (s : Schema) (dialect : Dialect) (required : Requirements)
    (links : List LinkId) (filters : List Fragment) (orders : List OrderItem) : Clauses :=
  let ps := d.placed s
  let instances := instancesOf ps
  { select := d.selects.map fun c => c.1.text c.2
    sources := addSources s required.tables links instances.sources
    terms := ps.map (·.term dialect) ++ joinTerms s links ++ instances.joins
      ++ filters.map .predicate
    groupBy := groupBy d.selects
    orderBy := orders }

/-- The clauses where all that they are made of is registered. -/
def clauses (d : Draft) (s : Schema) (dialect : Dialect) (caller : Caller)
    (options : CompileOptions) (links : List LinkId) : Clauses :=
  d.clausesOf s dialect (d.requirements s) links
    (s.rowFilters (d.selects.map fun c => c.2.tableId) caller options.strict options.anonymousUser)
    (orderBy s d.selects)

theorem terms_clauses (d : Draft) (s : Schema) (dialect : Dialect) (caller : Caller)
    (options : CompileOptions) (links : List LinkId) :
    (d.clauses s dialect caller options links).terms =
      (d.placed s).map (·.term dialect) ++ joinTerms s links ++ (instancesOf (d.placed s)).joins ++
        (s.rowFilters (d.selects.map fun c => c.2.tableId) caller options.strict
          options.anonymousUser).map .predicate := rfl

/-- The clauses of a draft that selects something. What the conventions refer to is looked up where
it is needed. -/
def complete (d : Draft) (s : Schema) (dialect : Dialect) (caller : Caller)
    (options : CompileOptions) : Except QueryError Clauses := do
  if d.selects.isEmpty then throw (.invalidRequest "select list is empty")
  let required ← d.lookUpRequirements s
  let links ← (s.resolve required).1
  let filters ← s.lookUpFilters (d.selects.map fun c => c.2.tableId) caller options.strict
    options.anonymousUser
  let orders ← lookUpOrder s d.selects
  return d.clausesOf s dialect required links filters orders

/-- Completes a draft. -/
def finish (d : Draft) (s : Schema) (dialect : Dialect) (caller : Caller)
    (options : CompileOptions) (offset : Nat) : Except QueryError Compiled :=
  (·.compiled (dialect.offsetSuffix offset) (d.selects.map (·.1))) <$>
    d.complete s dialect caller options

end Draft

/-- The draft of a request: its columns, then its conditions. -/
def Schema.draft (s : Schema) (caller : Caller) (r : Request) : Except QueryError Draft := do
  let d ← r.select.foldlM (fun d c => d.addSelect s caller c) ({} : Draft)
  r.conditions.foldlM (fun d c => d.addCondition s caller c.column c.expression) d

/-- Compiles a request. -/
def Schema.compile (s : Schema) (dialect : Dialect) (caller : Caller) (options : CompileOptions)
    (r : Request) : Except QueryError Compiled := do
  let d ← s.draft caller r
  d.finish s dialect caller options r.offset

end CatalogQuery
