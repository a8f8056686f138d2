/-!
# Reports

Plain texts for people: marked lines, named values in a column, entries of a list, and tables whose
cells are as wide as the widest in their column.
-/

namespace CatalogQuery.Cli.Report

def blanks (n : Nat) : String := String.ofList (List.replicate n ' ')

def padLeft (width : Nat) (s : String) : String := blanks (width - s.length) ++ s

def padRight (width : Nat) (s : String) : String := s ++ blanks (width - s.length)

def lineOf (s : String) : String := s ++ "\n"

def heading (title : String) : String := lineOf ("▸ " ++ title)

def success (message : String) : String := lineOf ("✔ " ++ message)

def info (message : String) : String := lineOf ("ℹ " ++ message)

def warning (message : String) : String := lineOf ("⚠ " ++ message)

/-- Named values, the names flush right. Without any there is no heading either. -/
def values (title : String) (rows : List (String × String)) : String :=
  if rows.isEmpty then ""
  else
    let width := (rows.map fun r => r.1.utf8ByteSize).foldl max 0
    heading title
      ++ String.join (rows.map fun r => lineOf ("  " ++ padLeft width r.1 ++ ": " ++ r.2))

/-- The entries of a list. Without any there is no heading either. -/
def entries (title : String) (items : List String) : String :=
  if items.isEmpty then ""
  else heading title ++ String.join (items.map fun i => lineOf ("  - " ++ i))

/-- The widths that the cells of a row ask for, at least those before. -/
def widen (widths : List Nat) (row : List String) : List Nat :=
  widths.zipIdx.map fun (w, i) => max w ((row[i]?.map (·.length)).getD 0)

def tableLine (widths : List Nat) (row : List String) : String :=
  lineOf ("  ".intercalate ((row.zip widths).map fun (cell, w) => padRight w cell))

def table (headers : List String) (rows : List (List String)) : String :=
  let widths := rows.foldl widen (headers.map (·.length))
  tableLine widths headers ++ String.join (rows.map (tableLine widths))

end CatalogQuery.Cli.Report
