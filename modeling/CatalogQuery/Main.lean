import CatalogQuery.Cli.Run

/-!
# The program

Commands over the files and the environment of the operating system.
-/

namespace CatalogQuery.Cli

def faultOf : IO.Error → FileFault
  | .noFileOrDirectory _ _ _ => .notFound
  | .inappropriateType _ _ _ => .isDirectory
  | .userError _ => .notText
  | e => .other (toString e)

/-- A file with its contents, or the reason why they cannot be read. -/
def readFile (path : String) : IO (Except FileFault File) := do
  try return .ok (.ofContents (← IO.FS.readFile path))
  catch e => return .error (faultOf e)

/-- All lines that are left of a stream. -/
partial def readAll (stream : IO.FS.Stream) : IO String := do
  let line ← stream.getLine
  if line.isEmpty then return ""
  return line ++ (← readAll stream)

/-- Creates an empty file. -/
def createFile (path : String) : IO (Except FileFault Database) := do
  try
    IO.FS.writeFile path ""
    return .ok .blank
  catch e => return .error (faultOf e)

def systemHost : Host IO where
  readText path := do return (← readFile path).bind (·.readText)
  readInput := do
    try return .ok (← readAll (← IO.getStdin))
    catch e => return .error (faultOf e)
  openDatabase path := do
    match ← readFile path with
    | .ok f => return .ok f.database
    | .error .notFound => createFile path
    | .error .notText => return .ok .foreign
    | .error fault => return .error fault
  saveDatabase path database := do
    match contentsOf database with
    | some s => IO.FS.writeFile path s
    | none => return ()

end CatalogQuery.Cli

open CatalogQuery.Cli in
def main (args : List String) : IO UInt32 := do
  let outcome ← run systemHost (← Environment.read fun name => IO.getEnv name) args
  (← IO.getStdout).putStr outcome.output
  (← IO.getStderr).putStr outcome.errors
  return UInt32.ofNat outcome.code
