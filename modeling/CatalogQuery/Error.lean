import CatalogQuery.Identifier

/-!
# Errors

The causes for which a call can fail, each with its kind, its code and its wording.
-/

namespace CatalogQuery

/-- A failure reported by a backend, passed on unchanged. -/
inductive BackendFailure where
  /-- The catalog database refused a statement. -/
  | database (reason : String)
  | notOpen (statement : StatementId)
  | message (reason : String)
  deriving DecidableEq, Repr

def BackendFailure.text : BackendFailure → String
  | .database reason => "sqlite: " ++ reason
  | .notOpen statement => "statement " ++ toString statement.number ++ " is not open"
  | .message reason => reason

/-- A registry of a schema that can be full. -/
inductive Registry where
  | tables
  | columns
  | links
  deriving DecidableEq, Repr

def Registry.name : Registry → String
  | .tables => "tables"
  | .columns => "columns"
  | .links => "links"

inductive ErrorKind where
  | schema
  | graph
  | conditionSyntax
  | permission
  | notFound
  | resource
  | backend
  | invalidRequest
  deriving DecidableEq, Repr

inductive QueryError where
  | duplicateTable (name : String)
  | duplicateColumn (column : ColumnId)
  | unknownTable (name : String)
  | unknownColumn (column : ColumnId)
  | registryFull (registry : Registry) (max : Nat)
  | schemaCycle (table link : String)
  | invalidSchema (reason : String)
  | unlinkedTables (unreachable : List String)
  | conditionSyntax (condition reason : String)
  | permissionDenied (reason : String)
  /-- Carries the total number of rows, where it was asked for and could be found. -/
  | noRows (total : Option Nat)
  | cursorNotFound (token : Continuation)
  | resource (reason : String)
  | invalidRequest (reason : String)
  | backend (failure : BackendFailure)
  deriving DecidableEq, Repr

namespace QueryError

def kind : QueryError → ErrorKind
  | duplicateTable _ | duplicateColumn _ | unknownTable _ | unknownColumn _ | registryFull _ _
  | schemaCycle _ _ | invalidSchema _ => .schema
  | unlinkedTables _ => .graph
  | conditionSyntax _ _ => .conditionSyntax
  | permissionDenied _ => .permission
  | noRows _ | cursorNotFound _ => .notFound
  | resource _ => .resource
  | invalidRequest _ => .invalidRequest
  | backend _ => .backend

def code : QueryError → String
  | duplicateTable _ => "DuplicateTable"
  | duplicateColumn _ => "DuplicateColumn"
  | unknownTable _ => "UnknownTable"
  | unknownColumn _ => "UnknownColumn"
  | registryFull _ _ => "SchemaLimitExceeded"
  | schemaCycle _ _ => "SchemaCycle"
  | invalidSchema _ => "InvalidSchema"
  | unlinkedTables _ => "FailedToLinkTables"
  | conditionSyntax _ _ => "ConditionSyntax"
  | permissionDenied _ => "PermissionDenied"
  | noRows _ => "NoRowsFound"
  | cursorNotFound _ => "CursorNotFound"
  | resource _ => "ResourceExhausted"
  | invalidRequest _ => "InvalidRequest"
  | backend _ => "Backend"

def message : QueryError → String
  | duplicateTable name => "table '" ++ name ++ "' is already registered"
  | duplicateColumn column => "column " ++ toString column ++ " is already registered"
  | unknownTable name => "unknown table '" ++ name ++ "'"
  | unknownColumn column => "unknown column " ++ toString column
  | registryFull registry max =>
    "schema registry for " ++ registry.name ++ " is full (max " ++ toString max ++ ")"
  | schemaCycle table link =>
    "schema graph has a cycle closing at table '" ++ table ++ "' via link '" ++ link ++ "'"
  | invalidSchema reason => "invalid schema definition: " ++ reason
  | unlinkedTables unreachable =>
    "failed to link tables: " ++ ", ".intercalate unreachable ++ " unreachable"
  | conditionSyntax condition reason => "invalid condition '" ++ condition ++ "': " ++ reason
  | permissionDenied reason => "permission denied: " ++ reason
  | noRows _ => "no rows found"
  | cursorNotFound token => "no open cursor for continuation token " ++ toString token
  | resource reason => "result buffer: " ++ reason
  | invalidRequest reason => "invalid request: " ++ reason
  | backend failure => failure.text

/-- The message with its code in front. -/
def messageWithCode (e : QueryError) : String := "[" ++ e.code ++ "] " ++ e.message

/-- Only a failure of the backend may go away when the call is repeated. -/
def isRetryable : QueryError → Bool
  | backend _ => true
  | _ => false

/-- The total number of rows that an empty answer still carries. -/
def recoveredTotal : QueryError → Option Nat
  | noRows total => total
  | _ => none

end QueryError

end CatalogQuery
