import CatalogQuery.Catalog.Document

/-!
# Files

What commands do with files, for any monad that can do it, and a directory in memory that does it
without an operating system. Paths may be relative to the directory or start at it.
-/

namespace CatalogQuery.Cli

inductive FileFault where
  | notFound
  | notDirectory
  | isDirectory
  | notText
  | other (reason : String)
  deriving DecidableEq, Repr

def FileFault.text : FileFault → String
  | notFound => "No such file or directory (os error 2)"
  | notDirectory => "Not a directory (os error 20)"
  | isDirectory => "Is a directory (os error 21)"
  | notText => "stream did not contain valid UTF-8"
  | other reason => reason

/-- Nothing has that path. -/
def FileFault.isAbsence : FileFault → Bool
  | notFound | notDirectory => true
  | _ => false

/-- What a command needs of its surroundings. -/
structure Host (m : Type → Type) where
  readText : String → m (Except FileFault String)
  /-- All of the standard input. -/
  readInput : m (Except FileFault String)
  /-- Opens a database; a file that is not there is created empty. -/
  openDatabase : String → m (Except FileFault Database)
  saveDatabase : String → Database → m Unit

/-! ## A directory in memory -/

inductive File where
  | text (s : String)
  | catalog (c : Catalog)
  deriving DecidableEq, Repr

/-- A file by its contents. -/
def File.ofContents (s : String) : File :=
  match Catalog.ofText? s with
  | some c => catalog c
  | none => text s

/-- An empty file is a database without tables. -/
def File.database : File → Database
  | text s => if s.isEmpty then .blank else .foreign
  | catalog c => .catalog c

/-- The contents of a file as a text; those of a catalog are none. -/
def File.readText : File → Except FileFault String
  | text s => .ok s
  | catalog _ => .error .notText

/-- What is written to keep a database; nothing for a file that is none. -/
def contentsOf : Database → Option String
  | .blank => some ""
  | .catalog c => some c.toText
  | .foreign => none

/-- Files by the names on the way to them. Every part of a way is a directory. -/
structure Directory where
  files : List (List String × File) := []
  deriving Repr

namespace Directory

def file? (d : Directory) (way : List String) : Option File :=
  (d.files.find? (·.1 == way)).map (·.2)

def isDirectory (d : Directory) (way : List String) : Bool :=
  way.isEmpty || d.files.any fun f => way.isPrefixOf f.1 && f.1 != way

def put (d : Directory) (way : List String) (f : File) : Directory :=
  ⟨d.files.filter (·.1 != way) ++ [(way, f)]⟩

/-- Goes on from a way; only directories have something inside. -/
def walk (d : Directory) : List String → List String → Except FileFault (List String)
  | way, [] => .ok way
  | way, part :: parts =>
    if (d.file? way).isSome then .error .notDirectory
    else if !d.isDirectory way then .error .notFound
    else if part = "" ∨ part = "." then walk d way parts
    else if part = ".." then walk d way.dropLast parts
    else walk d (way ++ [part]) parts

/-- The way of a path, whose last part need not exist. -/
def resolve (d : Directory) (path : String) : Except FileFault (List String) :=
  if path.isEmpty then .error .notFound else d.walk [] (path.splitOn "/")

def readText (d : Directory) (path : String) : Except FileFault String := do
  let way ← d.resolve path
  match d.file? way with
  | some f => f.readText
  | none => throw (if d.isDirectory way then .isDirectory else .notFound)

def openDatabase (d : Directory) (path : String) : Except FileFault (Database × Directory) := do
  let way ← d.resolve path
  match d.file? way with
  | some f => return (f.database, d)
  | none =>
    if d.isDirectory way then throw .isDirectory
    return (.blank, d.put way (.text ""))

/-- A file that is no database stays as it is. -/
def saveDatabase (d : Directory) (path : String) (database : Database) : Directory :=
  match d.resolve path, database with
  | .ok way, .blank => d.put way (.text "")
  | .ok way, .catalog c => d.put way (.catalog c)
  | _, _ => d

/-- The directory as the surroundings of a command, with a given standard input. -/
def host (input : String) : Host (StateM Directory) where
  readText path := do return (← get).readText path
  readInput := return .ok input
  openDatabase path := do
    match (← get).openDatabase path with
    | .ok (database, d) =>
      set d
      return .ok database
    | .error fault => return .error fault
  saveDatabase path database := modify (·.saveDatabase path database)

end Directory

end CatalogQuery.Cli
