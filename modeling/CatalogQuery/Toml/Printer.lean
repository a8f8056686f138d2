import CatalogQuery.Data.Basic
import CatalogQuery.Number.Word

/-!
# Printing TOML

Data as sections: the values of a table come first, in the order of its fields, then its tables and
arrays of tables, each under a header. What has no written form (an integer of more than 64 bits, a
null in an array) makes the whole text fail; a null field is left out.

* `TextStyle.of`: a text takes the plainest of five forms that can hold it.
-/

namespace CatalogQuery.Toml

/-! ## Texts -/

/-- The longest run of a character. -/
def longestRun (q : Char) (s : List Char) : Nat :=
  let step (acc : Nat × Nat) (c : Char) : Nat × Nat :=
    if c = q then (acc.1 + 1, max acc.2 (acc.1 + 1)) else (0, acc.2)
  (s.foldl step (0, 0)).2

inductive TextStyle where
  | basic
  | literal
  | basicBlock
  | literalBlock
  deriving DecidableEq, Repr

/-- A control character that no form takes as it is. -/
def isControl (c : Char) : Bool := c != '\t' && c != '\n' && (c.toNat < 0x20 || c.toNat == 0x7F)

def TextStyle.of (s : List Char) : TextStyle :=
  let lines := s.contains '\n'
  if s.any isControl then (if lines then .basicBlock else .basic)
  else if !s.contains '\\' && !s.contains '"' && !lines then .basic
  else if !s.contains '\'' && !lines then .literal
  else if !s.contains '\\' && longestRun '"' s ≤ 2 then .basicBlock
  else if longestRun '\'' s ≤ 2 then .literalBlock
  else if lines then .basicBlock
  else .basic

def hexDigit (n : Nat) : Char :=
  if n < 10 then Char.ofNat (48 + n) else Char.ofNat (55 + n)

/-- A character in a basic text, quotes and line ends aside. -/
def escapeChar (c : Char) : List Char :=
  match c with
  | '\\' => ['\\', '\\']
  | '\x08' => ['\\', 'b']
  | '\t' => ['\\', 't']
  | '\x0c' => ['\\', 'f']
  | '\r' => ['\\', 'r']
  | c =>
    if isControl c then
      ['\\', 'u', '0', '0', hexDigit (c.toNat / 16), hexDigit (c.toNat % 16)]
    else [c]

def escapeLine : List Char → List Char
  | [] => []
  | '"' :: r => '\\' :: '"' :: escapeLine r
  | '\n' :: r => '\\' :: 'n' :: escapeLine r
  | c :: r => escapeChar c ++ escapeLine r

/-- In a block every third quote of a run is escaped; `run` quotes stand before. -/
def escapeBlock (run : Nat) : List Char → List Char
  | [] => []
  | '"' :: r =>
    if run < 2 then '"' :: escapeBlock (run + 1) r else '\\' :: '"' :: escapeBlock 0 r
  | '\n' :: r => '\n' :: escapeBlock 0 r
  | c :: r => escapeChar c ++ escapeBlock 0 r

/-- A block of several lines starts on a line of its own. -/
def block (quote : Char) (s body : List Char) : List Char :=
  let quotes := List.replicate 3 quote
  quotes ++ (if s.contains '\n' then ['\n'] else []) ++ body ++ quotes

def quoted (s : String) : String :=
  let cs := s.toList
  String.ofList <| match TextStyle.of cs with
    | .basic => '"' :: (escapeLine cs ++ ['"'])
    | .literal => '\'' :: (cs ++ ['\''])
    | .basicBlock => block '"' cs (escapeBlock 0 cs)
    | .literalBlock => block '\'' cs cs

/-! ## Values -/

def plain : Data → Option String
  | .bool b => some (if b then "true" else "false")
  | .int n => if fits64 n then some (toString n) else none
  | .text s => some (quoted s)
  | _ => none

/-- An array of two or more values has each on a line of its own. -/
def array : List String → String
  | [] => "[]"
  | [v] => "[" ++ v ++ "]"
  | vs => "[\n" ++ String.join (vs.map fun v => "    " ++ v ++ ",\n") ++ "]"

def Value.print : Data → Option String
  | .list items => (items.mapM plain).map array
  | d => plain d

/-! ## Sections -/

structure Section where
  header : String
  lines : List String

def Section.text (s : Section) : String :=
  String.join ((if s.header.isEmpty then s.lines else s.header :: s.lines).map (· ++ "\n"))

def isRecord : Data → Bool
  | .record _ => true
  | _ => false

/-- Tables and arrays of tables have sections of their own; an empty array is a value. -/
def hasSections : Data → Bool
  | .record _ => true
  | .list (d :: ds) => (d :: ds).all isRecord
  | _ => false

def isNull : Data → Bool
  | .null => true
  | _ => false

/-- The lines of the fields that are values. -/
def valueLines (fields : List (String × Data)) : Option (List String) :=
  (fields.filter fun f => !hasSections f.2 && !isNull f.2).mapM fun f =>
    (Value.print f.2).map fun v => f.1 ++ " = " ++ v

def tableHeader (path : List String) : String :=
  if path.isEmpty then "" else "[" ++ ".".intercalate path ++ "]"

def arrayHeader (path : List String) : String := "[[" ++ ".".intercalate path ++ "]]"

mutual

/-- The sections of a table or of an array of tables. -/
def sections (path : List String) : Data → Option (List Section)
  | .record fields => do
    return ⟨tableHeader path, ← valueLines fields⟩ :: (← fieldSections path fields)
  | .list items => itemSections path items
  | _ => some []

def fieldSections (path : List String) : List (String × Data) → Option (List Section)
  | [] => some []
  | (name, d) :: fs => do
    let own ← if hasSections d then sections (path ++ [name]) d else some []
    return own ++ (← fieldSections path fs)

def itemSections (path : List String) : List Data → Option (List Section)
  | [] => some []
  | .record fields :: ds => do
    let own := ⟨arrayHeader path, ← valueLines fields⟩ :: (← fieldSections path fields)
    return own ++ (← itemSections path ds)
  | _ :: ds => itemSections path ds

end

/-- The text of a record. A blank line stands before every header but at the start. -/
def print (d : Data) : Option String :=
  (sections [] d).map fun parts =>
    "\n".intercalate ((parts.filter fun p => !(p.header.isEmpty && p.lines.isEmpty)).map (·.text))

end CatalogQuery.Toml
