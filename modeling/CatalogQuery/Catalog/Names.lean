import CatalogQuery.Catalog.Evaluate
import CatalogQuery.Sql.Token

/-!
# Names in statements

Before a statement runs, every table it names has to exist, then every column and function. Tables of
inner queries are looked up before columns.
-/

namespace CatalogQuery.Sql

/-- A name that nothing bears. -/
inductive Unknown where
  | table (name : String)
  | column (c : ColumnRef)
  | ambiguous (c : ColumnRef)
  | function (name : String)
  deriving DecidableEq, Repr

namespace Names

def checkSources (tables : Tables) (sources : List Source) : Except Unknown Unit :=
  sources.forM fun s => if (tables s.table).isSome then .ok () else .error (.table s.table)

/-- The tables of the queries inside a formula. -/
def checkInnerSources (tables : Tables) : Formula → Except Unknown Unit
  | .inRows _ _ _ sources condition => do
    checkSources tables sources
    checkInnerSources tables condition
  | .and f g => do
    checkInnerSources tables f
    checkInnerSources tables g
  | .or f g => do
    checkInnerSources tables f
    checkInnerSources tables g
  | _ => .ok ()

/-- The sources of each query around a name, the innermost first. -/
abbrev Levels := List Scope

/-- A column is looked for in the innermost query that has one of its name. -/
def checkColumn : Levels → ColumnRef → Except Unknown Unit
  | [], c => .error (.column c)
  | level :: outer, c =>
    match level.countP fun e => (e.column? c).isSome with
    | 0 => checkColumn outer c
    | 1 => .ok ()
    | _ => .error (.ambiguous c)

def checkFunction (known : List String) (name : String) : Except Unknown Unit :=
  if known.contains name then .ok () else .error (.function name)

def checkOperand (levels : Levels) : Operand → Except Unknown Unit
  | .column c => checkColumn levels c
  | .cast a => checkOperand levels a
  | .call function a => do
    checkFunction ["length", "octet_length"] function
    checkOperand levels a
  | .call₃ function a b c => do
    checkFunction ["substr", "substring"] function
    checkOperand levels a
    checkOperand levels b
    checkOperand levels c
  | _ => .ok ()

/-- The sources of a query, no row of which is chosen. -/
def levelOf (tables : Tables) (sources : List Source) : Scope :=
  sources.map fun s => (s.entry tables).unchosen

def checkFormula (tables : Tables) : Levels → Formula → Except Unknown Unit
  | levels, .compare _ a b => do
    checkOperand levels a
    checkOperand levels b
  | levels, .like _ a b => do
    checkOperand levels a
    checkOperand levels b
  | levels, .between _ a b c => do
    checkOperand levels a
    checkOperand levels b
    checkOperand levels c
  | levels, .inList _ a items => do
    checkOperand levels a
    items.forM (checkOperand levels)
  | levels, .inRows _ a column sources condition => do
    checkOperand levels a
    let inner := levelOf tables sources :: levels
    checkColumn inner column
    checkFormula tables inner condition
  | levels, .and f g => do
    checkFormula tables levels f
    checkFormula tables levels g
  | levels, .or f g => do
    checkFormula tables levels f
    checkFormula tables levels g
  | levels, .nonzero a => checkOperand levels a

def checkOutput (levels : Levels) : Output → Except Unknown Unit
  | .column c => checkColumn levels c
  | .aggregate _ c => checkColumn levels c
  | .countRows => .ok ()

def checkQuery (tables : Tables) (q : Query) : Except Unknown Unit := do
  checkSources tables q.sources
  q.condition.forM (checkInnerSources tables)
  let levels := [levelOf tables q.sources]
  q.outputs.forM (checkOutput levels)
  q.condition.forM (checkFormula tables levels)
  q.orderBy.forM fun k => checkColumn levels k.column
  q.groupBy.forM (checkColumn levels)

/-! ## Places of unknown names -/

/-- The first word of that name with what follows it. -/
def findWord (name : String) (p : List Lexeme → Bool) : List Lexeme → Option Lexeme
  | [] => none
  | l :: ls => if l.token.isWord name && p ls then some l else findWord name p ls

/-- The tokens go on with a point and the name of a column. -/
def followedBy (column : String) : List Lexeme → Bool
  | p :: c :: _ => p.token == .mark "." && c.token.isWord column
  | _ => false

/-- The spelling and the place of a column where it is named first. -/
def locate (c : ColumnRef) (ls : List Lexeme) : String × Nat :=
  match c.binding with
  | none => ((findWord c.column (fun _ => true) ls).map fun l => (l.token.spelling, l.place)).getD
      (c.column, 0)
  | some b =>
    ((findWord b (followedBy c.column) ls).map fun l =>
      (l.token.spelling ++ "." ++ c.column, l.place)).getD (b ++ "." ++ c.column, 0)

/-- The fault that an unknown name is in the statement of these tokens. -/
def Unknown.fault (ls : List Lexeme) : Unknown → Fault
  | .table name => .noTable (((findWord name (fun _ => true) ls).map (·.token.spelling)).getD name)
  | .column c =>
    let (spelling, place) := locate c ls
    .noColumn spelling place
  | .ambiguous c =>
    let (spelling, place) := locate c ls
    .ambiguousColumn spelling place
  | .function name =>
    match findWord name (fun _ => true) ls with
    | some l => .noFunction l.token.spelling l.place
    | none => .noFunction name 0

end Names

end CatalogQuery.Sql
