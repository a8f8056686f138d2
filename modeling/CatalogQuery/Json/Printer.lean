import CatalogQuery.Data.Basic

/-!
# Printing JSON

Data on one line, or with its members on lines of their own, indented by two blanks. Only quotes,
backslashes and control characters are escaped.
-/

namespace CatalogQuery.Json

def hexDigit (n : Nat) : Char :=
  if n < 10 then Char.ofNat (48 + n) else Char.ofNat (87 + n)

def escapeChar (c : Char) : List Char :=
  match c with
  | '"' => ['\\', '"']
  | '\\' => ['\\', '\\']
  | '\x08' => ['\\', 'b']
  | '\x0c' => ['\\', 'f']
  | '\n' => ['\\', 'n']
  | '\r' => ['\\', 'r']
  | '\t' => ['\\', 't']
  | c =>
    if c.toNat < 0x20 then ['\\', 'u', '0', '0', hexDigit (c.toNat / 16), hexDigit (c.toNat % 16)]
    else [c]

def quoted (s : String) : String :=
  "\"" ++ String.ofList (s.toList.flatMap escapeChar) ++ "\""

/-- Data without members. Reals and times are not written by this library. -/
def plain : Data → String
  | .bool b => if b then "true" else "false"
  | .int n => toString n
  | .text s => quoted s
  | _ => "null"

mutual

def compact : Data → String
  | .list items => "[" ++ ",".intercalate (compactList items) ++ "]"
  | .record fields => "\x7b" ++ ",".intercalate (compactFields fields) ++ "\x7d"
  | d => plain d

def compactList : List Data → List String
  | [] => []
  | d :: ds => compact d :: compactList ds

def compactFields : List (String × Data) → List String
  | [] => []
  | (name, d) :: fs => (quoted name ++ ":" ++ compact d) :: compactFields fs

end

/-- A container with its members on lines of their own; an empty one stays on its line. -/
def block (indent : String) (opening closing : String) (members : List String) : String :=
  if members.isEmpty then opening ++ closing
  else
    let inner := indent ++ "  "
    opening ++ "\n" ++ ",\n".intercalate (members.map (inner ++ ·)) ++ "\n" ++ indent ++ closing

mutual

def indented (indent : String) : Data → String
  | .list items => block indent "[" "]" (indentedList (indent ++ "  ") items)
  | .record fields => block indent "\x7b" "\x7d" (indentedFields (indent ++ "  ") fields)
  | d => plain d

def indentedList (indent : String) : List Data → List String
  | [] => []
  | d :: ds => indented indent d :: indentedList indent ds

def indentedFields (indent : String) : List (String × Data) → List String
  | [] => []
  | (name, d) :: fs => (quoted name ++ ": " ++ indented indent d) :: indentedFields indent fs

end

/-- The layout for readers: fields sorted by name, two blanks per level. -/
def pretty (d : Data) : String := indented "" d.sorted

end CatalogQuery.Json
