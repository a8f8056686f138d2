import CatalogQuery.Toml.Scalar
import CatalogQuery.Toml.Table
import CatalogQuery.Toml.Token

/-!
# Reading TOML

Tokens to a table by a machine that keeps the containers still open on a stack, one token at a
time. The state says what may come next; a document is read when its last line is.
-/

namespace CatalogQuery.Toml

/-- Arrays, inline tables and keys go less deep than this. -/
def depthLimit : Nat := 80

/-- Where a key stands. -/
inductive KeyPlace where
  | line
  | tableHeader
  | arrayHeader
  | inlineTable
  deriving DecidableEq, Repr

/-- What waits for a value, the innermost first. -/
inductive Frame where
  | line (key : List String)
  /-- Items in reverse. -/
  | list (items : List Data)
  | inlineTable (fields : Table) (key : List String)

inductive Expect where
  | lineStart
  | lineEnd
  /-- The second bracket of a header of an array, or a key. -/
  | headerStart
  /-- A part of a key; the parts before it in reverse. -/
  | keyPart (place : KeyPlace) (parts : List String)
  | keyMore (place : KeyPlace) (parts : List String)
  /-- The second closing bracket. -/
  | headerEnd (parts : List String)
  | value
  | listItem
  | firstField
  /-- More of an unquoted value. -/
  | word (done : List Char)
  /-- Perhaps a time after a date. -/
  | afterDate (done : List Char)
  /-- What follows a value in a container. -/
  | more

structure State where
  root : Table
  /-- The path of the last header. -/
  section_ : List String
  stack : List Frame
  expect : Expect

namespace State

def start : State := ⟨⟨.header, []⟩, [], [], .lineStart⟩

def goto (s : State) (e : Expect) : State := { s with expect := e }

/-- A key has its last part apart. -/
def splitKey (parts : List String) : Option (List String × String) :=
  parts.getLast?.map fun last => (parts.dropLast, last)

/-- Adds a value under the table of the last header. -/
def assign (s : State) (key : List String) (d : Data) : Option State := do
  let (dots, last) ← splitKey key
  let root ← s.root.descend .innerHeader (Table.insert dots last d) s.section_
  return { s with root := root, stack := [], expect := .lineEnd }

/-- A complete value goes to what waits for it. -/
def deliver (s : State) (d : Data) : Option State :=
  match s.stack with
  | [] => none
  | .line key :: _ => s.assign key d
  | .list items :: rest => some { s with stack := .list (d :: items) :: rest, expect := .more }
  | .inlineTable fields key :: rest => do
    let (dots, last) ← splitKey key
    let fields ← fields.insert dots last d
    return { s with stack := .inlineTable fields [] :: rest, expect := .more }

def push (s : State) (f : Frame) (e : Expect) : Option State :=
  if s.stack.length < depthLimit then some { s with stack := f :: s.stack, expect := e } else none

/-- Ends the innermost container. -/
def close (s : State) (c : Char) : Option State :=
  match s.stack with
  | .list items :: rest =>
    if c = ']' then deliver { s with stack := rest } (.list items.reverse) else none
  | .inlineTable fields _ :: rest =>
    if c = '\x7d' then deliver { s with stack := rest } fields.data else none
  | _ => none

/-- A complete key in its place. -/
def endKey (s : State) (place : KeyPlace) (parts : List String) (c : Char) : Option State := do
  let key := parts.reverse
  if depthLimit ≤ key.length then none
  match place, c with
  | .line, '=' => some { s with stack := [.line key], expect := .value }
  | .inlineTable, '=' =>
    match s.stack with
    | .inlineTable fields _ :: rest =>
      some { s with stack := .inlineTable fields key :: rest, expect := .value }
    | _ => none
  | .tableHeader, ']' =>
    let (path, last) ← splitKey key
    return { s with root := ← s.root.openTable path last, section_ := key, expect := .lineEnd }
  | .arrayHeader, ']' => some (s.goto (.headerEnd parts))
  | _, _ => none

def keyPart (s : State) (place : KeyPlace) (parts : List String) : Token → Option State
  | .blank => some (s.goto (.keyPart place parts))
  | .word w =>
    if w.all isKeyChar then some (s.goto (.keyMore place (String.ofList w :: parts))) else none
  | .text t false => some (s.goto (.keyMore place (t :: parts)))
  | _ => none

/-- The first token of a value. -/
def beginValue (s : State) : Token → Option State
  | .word w => some (s.goto (.word w))
  | .text t _ => s.deliver (.text t)
  | .mark '[' => s.push (.list []) .listItem
  | .mark '\x7b' => s.push (.inlineTable ⟨.header, []⟩ []) .firstField
  | _ => none

/-- A token after a value, inside its container or on its line. -/
def afterValue (s : State) (t : Token) : Option State :=
  match s.expect, s.stack, t with
  | .lineEnd, _, .blank => some s
  | .lineEnd, _, .newline => some (s.goto .lineStart)
  | .more, _, .blank => some s
  | .more, .list _ :: _, .newline => some s
  | .more, .list _ :: _, .mark ',' => some (s.goto .listItem)
  | .more, .inlineTable _ _ :: _, .mark ',' => some (s.goto (.keyPart .inlineTable []))
  | .more, _, .mark c => s.close c
  | _, _, _ => none

/-- Ends an unquoted value in front of a token. -/
def endWord (s : State) (done : List Char) (t : Token) : Option State := do
  (← s.deliver (← scalar done)).afterValue t

def next (s : State) (t : Token) : Option State :=
  match s.expect with
  | .lineStart => match t with
    | .newline => some s
    | .mark '[' => some (s.goto .headerStart)
    | _ => if t = .blank then some s else s.keyPart .line [] t
  | .headerStart => match t with
    | .mark '[' => some (s.goto (.keyPart .arrayHeader []))
    | _ => s.keyPart .tableHeader [] t
  | .keyPart place parts => s.keyPart place parts t
  | .keyMore place parts => match t with
    | .blank => some s
    | .mark '.' => some (s.goto (.keyPart place parts))
    | .mark c => s.endKey place parts c
    | _ => none
  | .headerEnd parts => match t with
    | .mark ']' => do
      let key := parts.reverse
      let (path, last) ← splitKey key
      return { s with root := ← s.root.addTable path last, section_ := key, expect := .lineEnd }
    | _ => none
  | .value => if t = .blank then some s else s.beginValue t
  | .listItem => match t with
    | .blank | .newline => some s
    | .mark ']' => s.close ']'
    | _ => s.beginValue t
  | .firstField => match t with
    | .mark '\x7d' => s.close '\x7d'
    | .blank => some s
    | _ => s.keyPart .inlineTable [] t
  | .word done => match t with
    | .word w => some (s.goto (.word (done ++ w)))
    | .mark '.' => some (s.goto (.word (done ++ ['.'])))
    | .blank => if isDate done then some (s.goto (.afterDate done)) else s.endWord done t
    | _ => s.endWord done t
  | .afterDate done => match t with
    | .word w => some (s.goto (.word (done ++ ' ' :: w)))
    | _ => s.endWord done t
  | .lineEnd | .more => s.afterValue t

end State

/-- The table of a document; the end of the text ends its last line. -/
def read (s : String) : Option Data := do
  let ts ← tokens s
  let last ← (ts ++ [Token.newline]).foldlM State.next State.start
  match last.expect with
  | .lineStart => some last.root.data
  | _ => none

end CatalogQuery.Toml
