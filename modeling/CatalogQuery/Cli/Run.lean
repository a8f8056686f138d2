import CatalogQuery.Catalog.Demo
import CatalogQuery.Catalog.Store
import CatalogQuery.Cli.Arguments
import CatalogQuery.Cli.Files
import CatalogQuery.Cli.Report
import CatalogQuery.Config.Document
import CatalogQuery.Json.Printer
import CatalogQuery.Request.Format
import CatalogQuery.Schema.Document
import CatalogQuery.Schema.Standard
import CatalogQuery.Session.Execute
import CatalogQuery.Text.Csv

/-!
# Commands

What the commands do: check or write the schema, compile a request, run one over a database, and make
a demo database. A command reads its configuration first and writes its output last, so that a
failure leaves no output behind.
-/

namespace CatalogQuery.Cli

inductive Outcome where
  /-- The arguments were not understood. -/
  | misuse
  | done (code : Nat) (output errors : String)
  deriving DecidableEq, Repr

def usage : String :=
  "Usage: genquery [OPTIONS] <COMMAND>\n\n"
    ++ "Commands:\n"
    ++ "  check-schema         Validate the schema graph (exit 2 on a cycle)\n"
    ++ "  dump-schema          Print the active schema as a TOML definition\n"
    ++ "  compile REQUEST      Compile a request to SQL without executing it\n"
    ++ "  run DB REQUEST       Execute a request against a catalog\n"
    ++ "  seed-demo DB         Create and populate a demo catalog\n\n"
    ++ "Options:\n"
    ++ "  --config FILE --schema FILE --dialect NAME --format text|json|csv\n"
    ++ "  --user NAME --zone NAME --privilege LEVEL -v --plain --version\n"
    ++ "  run: --page-size N --offset N --all --strict\n"

namespace Outcome

def code : Outcome → Nat
  | misuse => 2
  | done code _ _ => code

def output : Outcome → String
  | misuse => ""
  | done _ output _ => output

def errors : Outcome → String
  | misuse => usage
  | done _ _ errors => errors

/-- A success that only has output. -/
def success (output : String) : Outcome := done 0 output ""

def failure (reason : String) : Outcome := done 1 "" ("error: " ++ reason ++ "\n")

end Outcome

variable {m : Type → Type} [Monad m]

/-- A command that may fail with a reason. -/
abbrev Attempt (m : Type → Type) (α : Type) := ExceptT String m α

/-- Fails with the wording of an error. -/
def orFail {ε α : Type} (message : ε → String) (x : Except ε α) : Attempt m α :=
  ExceptT.mk (pure (x.mapError message))

/-! ## Configuration and schema -/

/-- The configuration at a named path, or at the default one, where it may be missing. -/
def loadConfig (host : Host m) (named : Option String) (e : Environment) :
    m (Except ConfigError Config) := do
  match named <|> e.defaultConfig with
  | none => return .ok {}
  | some path =>
    match ← host.readText path with
    | .ok text =>
      match Config.ofToml? text with
      | some c => return .ok c
      | none => return .error (.malformed path "not a configuration")
    | .error fault =>
      if !fault.isAbsence then return .error (.unreadable path fault.text)
      else if named.isSome then return .error (.unreadable path "file not found")
      else return .ok {}

/-- The schema of a definition at a path. -/
def loadDefinition (host : Host m) (path : String) : m (Except QueryError Schema) := do
  match ← host.readText path with
  | .error fault => return .error (.invalidSchema ("failed to read " ++ path ++ ": " ++ fault.text))
  | .ok text =>
    match Definition.ofToml? text with
    | none => return .error (.invalidSchema "not a definition")
    | some d => return d.build

def loadSchema (host : Host m) (c : Config) : m (Except QueryError Schema) :=
  match c.schemaPath with
  | none => pure Standard.schema
  | some path => loadDefinition host path

/-- The engine of a configuration. The dialect is looked at before the schema is read. -/
def loadEngine (host : Host m) (c : Config) : Attempt m Engine := do
  let _ ← orFail ConfigError.message c.dialect.resolve
  let schema ← ExceptT.lift (loadSchema host c)
  orFail ConfigError.message (c.engine schema)

/-- A request from a file, or from the standard input for a hyphen. -/
def loadRequest (host : Host m) (path : String) : Attempt m Request := do
  let text ← if path = "-" then host.readInput else host.readText path
  match Request.ofJson? (← orFail FileFault.text text) with
  | some r => return r
  | none => throw "not a request"

def callerOf (i : Invocation) : Attempt m Caller := do
  return ⟨i.user, i.zone, ← orFail QueryError.message (Privilege.parse i.privilege)⟩

/-! ## Schema commands -/

def json (d : Data) : String := Json.pretty d ++ "\n"

def checkedSchema (format : OutputFormat) (s : Schema) : String :=
  let cyclers := (s.tables.filter (·.cycler)).map (·.name)
  let sizes := [("tables", s.tables.length), ("columns", s.columns.length),
    ("links", s.links.length)]
  match format with
  | .json => json (.record ([("valid", .bool true), ("cyclers", Data.texts cyclers)]
      ++ sizes.map fun p => (p.1, .nat p.2)))
  | _ => Report.values "Schema" (sizes.map fun p => (p.1, toString p.2))
      ++ Report.entries "Cyclers" cyclers ++ Report.success "schema graph is acyclic"

/-- A cycle is an answer, with an exit code of its own; other errors are failures. -/
def checkSchema (format : OutputFormat) (schema : Except QueryError Schema) : Attempt m Outcome :=
  match schema, format with
  | .ok s, _ => return .success (checkedSchema format s)
  | .error (.schemaCycle table link), .json =>
    let e := QueryError.schemaCycle table link
    return .done 2 (json (.record [("valid", .bool false), ("code", .text e.code),
      ("error", .text e.message)])) ""
  | .error (.schemaCycle table link), _ =>
    return .done 2 "" (Report.warning (QueryError.schemaCycle table link).messageWithCode)
  | .error e, _ => throw e.message

def dumpSchema (schema : Except QueryError Schema) : Attempt m Outcome := do
  let s ← orFail QueryError.message schema
  match s.definition.toToml? with
  | some text => return .success text
  | none => throw (QueryError.invalidSchema "out of range").message

/-! ## Compiling -/

def compiledReport (format : OutputFormat) (e : Engine) (c : Compiled) : String :=
  let numbered := c.statement.binds.zipIdx.map fun (bind, i) => (toString (i + 1), bind)
  match format with
  | .json => json (.record [("sql", .text c.statement.sql), ("binds", Data.texts c.statement.binds),
      ("count_sql", .text c.count.sql), ("count_binds", Data.texts c.count.binds),
      ("from", Data.texts c.sources), ("joins", .nat c.joins)])
  | .csv => Csv.document (["position", "bind"] :: numbered.map fun p => [p.1, p.2])
  | .text => c.statement.sql ++ "\n\n" ++ Report.values "Binds" numbered
      ++ Report.info (toString c.sources.length ++ " tables, " ++ toString c.joins ++ " joins ("
        ++ e.dialect.name ++ " dialect)")

def compile (host : Host m) (i : Invocation) (c : Config) (request : String) :
    Attempt m Outcome := do
  let r ← loadRequest host request
  let e ← loadEngine host c
  let caller ← callerOf i
  let compiled ← orFail QueryError.message (e.compile caller r)
  return .success (compiledReport i.format e compiled)

/-! ## Running -/

/-- Rows from one or more pages. -/
structure Gathered where
  rows : List (List String)
  total : Option Nat
  continuation : Continuation
  pages : Nat
  deriving DecidableEq, Repr

def Gathered.first (d : Delivery) : Gathered := ⟨d.page.rows, d.total, d.continuation, 1⟩

def Gathered.add (g : Gathered) (d : Delivery) : Gathered :=
  { g with rows := g.rows ++ d.page.rows, continuation := d.continuation, pages := g.pages + 1 }

/-- Gathers the pages that follow, up to a number of them. -/
def gather (e : Engine) (pageSize : Int) :
    Nat → Gathered → Session Store → Except QueryError (Gathered × Session Store)
  | 0, g, s => .ok (g, s)
  | n + 1, g, s =>
    if g.continuation.isExhausted then .ok (g, s)
    else
      match s.execute Store.backend e (.next g.continuation pageSize) with
      | (.error err, _, _) => .error err
      | (.ok d, e, s) => gather e pageSize n (g.add d) s

/-- Every page takes a row at least, but for the last one. -/
def pagesLeft (s : Session Store) : Nat :=
  (s.store.statements.map (·.left.length)).foldl (· + ·) 2

/-- Executes a request, takes all pages if they are asked for, and closes what is left open. -/
def gatherAll (e : Engine) (s : Session Store) (r : Request) (all : Bool) :
    Except QueryError Gathered := do
  let (first, e, s) := s.execute Store.backend e r
  let g := Gathered.first (← first)
  let (g, s) ← if all then gather e (max r.maxRows 1) (pagesLeft s) g s else .ok (g, s)
  if !g.continuation.isExhausted then
    let _ ← (s.close Store.backend g.continuation).1
  return g

def rowsReport (format : OutputFormat) (headers : List String) (g : Gathered) : String :=
  match format with
  | .json => json (.record [("columns", Data.texts headers),
      ("rows", .list (g.rows.map fun row => .record (headers.zip (row.map .text)))),
      ("total_count", Data.option .nat g.total), ("continuation", .nat g.continuation.number),
      ("pages", .nat g.pages)])
  | .csv => Csv.document (headers :: g.rows)
  | .text =>
    let total := match g.total with
      | some n => [("total", toString n)]
      | none => []
    let continuation := if g.continuation.isExhausted then []
      else [("continuation", toString g.continuation.number)]
    Report.table headers g.rows ++ "\n"
      ++ Report.values "Result" ([("rows", toString g.rows.length)] ++ total ++ continuation)

def headersOf (s : Schema) (r : Request) : Except QueryError (List String) :=
  r.select.mapM fun c => do return c.text (← s.columnInfo c.column)

/-- A database that is kept in no file. -/
def privatePath : String := ":memory:"

def openDatabase (host : Host m) (path : String) : Attempt m Database := do
  if path = privatePath then return .blank
  match ← host.openDatabase path with
  | .ok d => return d
  | .error _ =>
    throw (BackendFailure.database ("unable to open database file: " ++ path)).text

/-- The configuration of a run: its dialect is that of the store unless another one is named. -/
def runConfig (i : Invocation) (options : RunOptions) (c : Config) : Config :=
  { c with
    dialect := if i.dialect.isSome then c.dialect else { c.dialect with preset := "sqlite" }
    access := { c.access with strict := c.access.strict || options.strict } }

def runRequest (host : Host m) (i : Invocation) (c : Config) (database request : String)
    (options : RunOptions) : Attempt m Outcome := do
  let r ← loadRequest host request
  let r := { r with
    maxRows := options.pageSize.getD r.maxRows
    offset := options.offset.getD r.offset }
  let e ← loadEngine host (runConfig i options c)
  let headers ← orFail QueryError.message (headersOf e.schema r)
  let caller ← callerOf i
  let d ← openDatabase host database
  match gatherAll e (Session.start caller { database := d }) r options.all with
  | .ok g => return .success (rowsReport i.format headers g)
  | .error (.noRows total) =>
    let known := match total with
      | some n => " (total " ++ toString n ++ ")"
      | none => ""
    return .done 0 "" (Report.warning ("no rows found" ++ known))
  | .error err => throw err.message

/-! ## The demo catalog -/

def seedDemo (host : Host m) (i : Invocation) (path : String) : Attempt m Outcome := do
  let d ← openDatabase host path
  let (done, seeder) := Seeder.perform Demo.fill (Seeder.start d)
  if path ≠ privatePath then host.saveDatabase path seeder.database
  let s ← orFail BackendFailure.text done
  match i.format with
  | .json => return .success (json (.record [("data_objects", .nat s.dataObjects),
      ("collections", .nat s.collections), ("attributes", .nat s.attributes)]))
  | _ => return .success (Report.success ("Seeded " ++ toString s.dataObjects
      ++ " data objects in " ++ toString s.collections ++ " collections ("
      ++ toString s.attributes ++ " attributes) into " ++ path))

/-! ## Commands -/

/-- The configuration with the schema and the dialect that the arguments name. -/
def adjusted (i : Invocation) (c : Config) : Config :=
  { c with
    schemaPath := i.schema <|> c.schemaPath
    dialect := { c.dialect with preset := i.dialect.getD c.dialect.preset } }

def perform (host : Host m) (e : Environment) (i : Invocation) : Attempt m Outcome := do
  let c ← orFail ConfigError.message (← ExceptT.lift (loadConfig host i.config e))
  let c := adjusted i c
  match i.command with
  | .checkSchema => checkSchema i.format (← ExceptT.lift (loadSchema host c))
  | .dumpSchema => dumpSchema (← ExceptT.lift (loadSchema host c))
  | .compile request => compile host i c request
  | .run database request options => runRequest host i c database request options
  | .seedDemo database => seedDemo host i database

/-- What comes of the arguments. -/
def run (host : Host m) (e : Environment) (args : List String) : m Outcome := do
  match Invocation.read args e with
  | .error .misuse => return .misuse
  | .error .version => return .success "genquery 0.1.0\n"
  | .error .help => return .success usage
  | .ok i =>
    match ← (perform host e i).run with
    | .ok outcome => return outcome
    | .error reason => return .failure reason

end CatalogQuery.Cli
