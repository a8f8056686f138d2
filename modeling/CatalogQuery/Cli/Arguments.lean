import CatalogQuery.Number.Word

/-!
# Arguments

The arguments of a command line: options, of which the general ones may stand before or after the
name of the command, and the operands of the command. They are read from left to right, so that the
first of several faults counts, and a request for the version counts unless a fault stands before it.
-/

namespace CatalogQuery.Cli

inductive OutputFormat where
  | text
  | json
  | csv
  deriving DecidableEq, Repr

def OutputFormat.parse? (s : String) : Option OutputFormat :=
  match s with
  | "text" => some .text
  | "json" => some .json
  | "csv" => some .csv
  | _ => none

/-- Options of every command. -/
structure GeneralOptions where
  config : Option String := none
  schema : Option String := none
  dialect : Option String := none
  format : Option OutputFormat := none
  user : Option String := none
  zone : Option String := none
  privilege : Option String := none
  plain : Bool := false
  deriving DecidableEq, Repr

/-- Options of the command that runs a request. -/
structure RunOptions where
  pageSize : Option Int := none
  offset : Option Nat := none
  all : Bool := false
  strict : Bool := false
  deriving DecidableEq, Repr

inductive CommandName where
  | checkSchema
  | dumpSchema
  | compile
  | run
  | seedDemo
  deriving DecidableEq, Repr

namespace CommandName

def parse? (s : String) : Option CommandName :=
  match s with
  | "check-schema" => some checkSchema
  | "dump-schema" => some dumpSchema
  | "compile" => some compile
  | "run" => some run
  | "seed-demo" => some seedDemo
  | _ => none

/-- How many operands a command takes. -/
def operands : CommandName → Nat
  | checkSchema | dumpSchema => 0
  | compile | seedDemo => 1
  | run => 2

end CommandName

/-- Why no command is run. -/
inductive Refusal where
  | misuse
  | version
  | help
  deriving DecidableEq, Repr

/-! ## Numbers -/

def digitsValue? (s : List Char) : Option Nat :=
  if s.isEmpty ∨ !s.all Char.isDigit then none
  else some (s.foldl (fun n c => 10 * n + (c.toNat - 48)) 0)

/-- A natural number of 64 bits; a plus may stand before it. -/
def word64? (s : String) : Option Nat := do
  let n ← digitsValue? (match s.toList with
    | '+' :: r => r
    | r => r)
  if n < bound64 then some n else none

/-- An integer of 64 bits; a sign may stand before it. -/
def int64? (s : String) : Option Int := do
  let n : Int ← match s.toList with
    | '-' :: r => (digitsValue? r).map fun n => -(n : Int)
    | '+' :: r => (digitsValue? r).map fun n => (n : Int)
    | r => (digitsValue? r).map fun n => (n : Int)
  if fits64 n then some n else none

def path? (s : String) : Option String := if s.isEmpty then none else some s

/-! ## Reading -/

/-- Where the reading stands. The options before the command are kept apart from those behind it. -/
structure Scan where
  outer : GeneralOptions := {}
  command : Option CommandName := none
  options : GeneralOptions := {}
  run : RunOptions := {}
  operands : List String := []
  /-- An option that waits for its value. -/
  pending : Option String := none
  /-- Everything that follows is an operand. -/
  closed : Bool := false
  deriving DecidableEq, Repr

namespace Scan

/-- An option is given once. -/
def filled {α : Type} (old new : Option α) : Except Refusal (Option α) :=
  match old, new with
  | none, some v => .ok (some v)
  | _, _ => .error .misuse

def raised (old : Bool) : Except Refusal Bool := if old then .error .misuse else .ok true

/-- Whether an option takes a value; `none` for an option that there is not. -/
def takesValue? (s : Scan) (name : String) : Option Bool :=
  if ["config", "schema", "dialect", "format", "user", "zone", "privilege"].contains name then
    some true
  else if ["verbose", "plain"].contains name then some false
  else if s.command = some .run ∧ (name = "page-size" ∨ name = "offset") then some true
  else if s.command = some .run ∧ (name = "all" ∨ name = "strict") then some false
  else none

def setValue (s : Scan) (name value : String) : Except Refusal Scan := do
  let o := s.options
  let s := { s with pending := none }
  match name with
  | "config" => return { s with options := { o with config := ← filled o.config (path? value) } }
  | "schema" => return { s with options := { o with schema := ← filled o.schema (path? value) } }
  | "dialect" => return { s with options := { o with dialect := ← filled o.dialect (some value) } }
  | "format" =>
    return { s with options := { o with format := ← filled o.format (OutputFormat.parse? value) } }
  | "user" => return { s with options := { o with user := ← filled o.user (some value) } }
  | "zone" => return { s with options := { o with zone := ← filled o.zone (some value) } }
  | "privilege" =>
    return { s with options := { o with privilege := ← filled o.privilege (some value) } }
  | "page-size" =>
    return { s with run := { s.run with pageSize := ← filled s.run.pageSize (int64? value) } }
  | "offset" => return { s with run := { s.run with offset := ← filled s.run.offset (word64? value) } }
  | _ => throw .misuse

def setFlag (s : Scan) (name : String) : Except Refusal Scan := do
  match name with
  | "verbose" => return s
  | "plain" => return { s with options := { s.options with plain := ← raised s.options.plain } }
  | "all" => return { s with run := { s.run with all := ← raised s.run.all } }
  | "strict" => return { s with run := { s.run with strict := ← raised s.run.strict } }
  | _ => throw .misuse

/-- An option spelt out, with its value if an equals sign joins one to it. -/
def long (s : Scan) (name : String) (value : Option String) : Except Refusal Scan :=
  if name = "help" ∧ value = none then .error .help
  else if name = "version" ∧ value = none ∧ s.command = none then .error .version
  else
    match s.takesValue? name, value with
    | some true, some v => s.setValue name v
    | some true, none => .ok { s with pending := some name }
    | some false, none => s.setFlag name
    | _, _ => .error .misuse

/-- Options of one letter. -/
def short (s : Scan) : List Char → Except Refusal Scan
  | [] => .ok s
  | 'v' :: r => short s r
  | 'h' :: _ => .error .help
  | 'V' :: _ => if s.command = none then .error .version else .error .misuse
  | _ => .error .misuse

/-- An argument that is no option: the name of the command, or an operand of it. -/
def operand (s : Scan) (a : String) : Except Refusal Scan :=
  match s.command with
  | none =>
    match CommandName.parse? a with
    | some c =>
      if s.closed then .error .misuse
      else .ok { s with outer := s.options, options := {}, command := some c }
    | none => .error .misuse
  | some c =>
    if a.isEmpty ∨ c.operands ≤ s.operands.length then .error .misuse
    else .ok { s with operands := s.operands ++ [a] }

def splitEquals : List Char → List Char × Option (List Char)
  | [] => ([], none)
  | '=' :: r => ([], some r)
  | c :: r =>
    let p := splitEquals r
    (c :: p.1, p.2)

def next (s : Scan) (a : String) : Except Refusal Scan :=
  if s.closed then s.operand a
  else
    match a.toList, s.pending with
    | ['-'], none => s.operand a
    | '-' :: _ :: _, some _ => .error .misuse
    | ['-', '-'], none => .ok { s with closed := true }
    | '-' :: '-' :: r, none =>
      let p := splitEquals r
      s.long (String.ofList p.1) (p.2.map String.ofList)
    | '-' :: r, none => s.short r
    | _, some name => s.setValue name a
    | _, none => s.operand a

end Scan

/-! ## Invocations -/

inductive Command where
  | checkSchema
  | dumpSchema
  | compile (request : String)
  | run (database request : String) (options : RunOptions)
  | seedDemo (database : String)
  deriving DecidableEq, Repr

/-- What the environment tells a command. -/
structure Environment where
  config : Option String := none
  user : Option String := none
  configHome : Option String := none
  home : Option String := none
  deriving DecidableEq, Repr

namespace Environment

/-- Reads the variables of a command. -/
def read {m : Type → Type} [Monad m] (lookup : String → m (Option String)) : m Environment := do
  return ⟨← lookup "GENQUERY_CONFIG", ← lookup "GENQUERY_USER", ← lookup "XDG_CONFIG_HOME",
    ← lookup "HOME"⟩

def under (directory file : String) : String :=
  if directory.endsWith "/" then directory ++ file else directory ++ "/" ++ file

/-- The configuration that is read if none is named: in the directory for configurations, which
counts only if its path is complete, or else in that of the user. -/
def defaultConfig (e : Environment) : Option String :=
  let homely := e.home.map fun h => under h ".config"
  let directory := match e.configHome with
    | some d => if d.startsWith "/" then some d else homely
    | none => homely
  directory.map fun d => under d "genquery/config.toml"

end Environment

structure Invocation where
  command : Command
  config : Option String
  schema : Option String
  dialect : Option String
  format : OutputFormat
  user : String
  zone : String
  privilege : String
  deriving DecidableEq, Repr

namespace Invocation

/-- An option behind the command counts before one in front of it. -/
def pick {α : Type} (s : Scan) (f : GeneralOptions → Option α) : Option α :=
  f s.options <|> f s.outer

/-- The command with its operands, which have to be complete. -/
def command? (s : Scan) : Option Command :=
  match s.command, s.operands with
  | some .checkSchema, [] => some .checkSchema
  | some .dumpSchema, [] => some .dumpSchema
  | some .compile, [request] => some (.compile request)
  | some .run, [database, request] => some (.run database request s.run)
  | some .seedDemo, [database] => some (.seedDemo database)
  | _, _ => none

/-- An empty path in the environment is refused unless no place leaves it to the environment. -/
def environmentFits (s : Scan) (e : Environment) : Bool :=
  e.config != some "" || (s.options.config.isSome && s.outer.config.isSome)

def read (args : List String) (e : Environment) : Except Refusal Invocation := do
  let s ← args.foldlM Scan.next {}
  if s.pending.isSome || !environmentFits s e then throw .misuse
  match command? s with
  | none => throw .misuse
  | some command =>
    return {
      command := command
      config := pick s (·.config) <|> e.config
      schema := pick s (·.schema)
      dialect := pick s (·.dialect)
      format := (pick s (·.format)).getD .text
      user := (pick s (·.user) <|> e.user).getD "rods"
      zone := (pick s (·.zone)).getD "tempZone"
      privilege := (pick s (·.privilege)).getD "local-user" }

end Invocation

end CatalogQuery.Cli
