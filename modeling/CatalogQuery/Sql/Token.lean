import CatalogQuery.Sql.Fault
import CatalogQuery.Request.Level

/-!
# Tokens of SQL

A statement as a list of words, numbers, quoted texts, placeholders and marks, read by a machine with
one mode per place in a token. Words keep their spelling; they are compared without case.
-/

namespace CatalogQuery.Sql

inductive Token where
  | word (s : String)
  | number (n : Nat)
  | quoted (s : String)
  /-- A placeholder, with its number where it has one. -/
  | placeholder (n : Option Nat)
  /-- A placeholder with its value. -/
  | bound (s : String)
  | mark (s : String)
  deriving DecidableEq, Repr

/-- A token with the place where it begins. -/
structure Lexeme where
  token : Token
  place : Nat
  deriving DecidableEq, Repr

namespace Token

def spelling : Token → String
  | word s => s
  | number n => toString n
  | quoted s => "'" ++ s ++ "'"
  | placeholder none => "?"
  | placeholder (some n) => "?" ++ toString n
  | bound _ => "?"
  | mark s => s

/-- The word in lower case. -/
def lower? : Token → Option String
  | word s => some (lowerText s)
  | _ => none

def isWord (t : Token) (s : String) : Bool := t.lower? == some s

end Token

/-- Where the reading of a token stands, with what is read of it in reverse and its place. -/
inductive Lexing where
  | idle
  | word (done : List Char) (place : Nat)
  | quoted (done : List Char) (place : Nat)
  /-- Behind a quote in a quoted text: it ends the text, or another one follows. -/
  | quote (done : List Char) (place : Nat)
  | placeholder (digits : List Char) (place : Nat)
  /-- Behind a character that may begin a mark of two. -/
  | mark (c : Char) (place : Nat)
  deriving Repr

namespace Lexing

def isSpace (c : Char) : Bool := c == ' ' || c == '\t' || c == '\n' || c == '\r' || c == '\x0c'

def isWordChar (c : Char) : Bool :=
  c.isAlphanum || c == '_' || c == '$' || 0x80 ≤ c.toNat

def isMark (c : Char) : Bool := "(),.*;+-/%&~".toList.contains c

/-- A mark of two characters. -/
def pair? (a b : Char) : Option String :=
  let s := String.ofList [a, b]
  if ["<=", "<>", "<<", ">=", ">>", "!=", "==", "||"].contains s then some s else none

def opensPair (c : Char) : Bool := "<>!=|".toList.contains c

def refused (text : List Char) (place : Nat) : Fault := .unrecognized (String.ofList text) place

/-- A complete run of word characters: a number if it holds digits only. -/
def endWord (done : List Char) (place : Nat) : Except Fault Lexeme :=
  let cs := done.reverse
  if cs.all Char.isDigit then
    .ok ⟨.number (cs.foldl (fun n c => 10 * n + (c.toNat - 48)) 0), place⟩
  else if cs.head?.any Char.isDigit then .error (refused cs place)
  else .ok ⟨.word (String.ofList cs), place⟩

def endPlaceholder (digits : List Char) (place : Nat) : Lexeme :=
  ⟨.placeholder (if digits.isEmpty then none
    else some (digits.reverse.foldl (fun n c => 10 * n + (c.toNat - 48)) 0)), place⟩

/-- One character between tokens. -/
def start (c : Char) (place : Nat) : Except Fault (List Lexeme × Lexing) :=
  if isSpace c then .ok ([], idle)
  else if isWordChar c then .ok ([], word [c] place)
  else if c = '\'' then .ok ([], quoted [] place)
  else if c = '?' then .ok ([], placeholder [] place)
  else if isMark c then .ok ([⟨.mark c.toString, place⟩], idle)
  else if opensPair c then .ok ([], mark c place)
  else .error (refused [c] place)

/-- The token at which the machine stands is complete. -/
def finish : Lexing → Except Fault (List Lexeme)
  | idle => .ok []
  | word done place => (endWord done place).map fun l => [l]
  | quoted done place => .error (refused ('\'' :: done.reverse) place)
  | quote done place => .ok [⟨.quoted (String.ofList done.reverse), place⟩]
  | placeholder digits place => .ok [endPlaceholder digits place]
  | mark c place => .ok [⟨.mark c.toString, place⟩]

/-- One character: the tokens that it completes and the mode behind it. -/
def step (m : Lexing) (c : Char) (place : Nat) : Except Fault (List Lexeme × Lexing) :=
  let begin_ : Except Fault (List Lexeme × Lexing) := do
    let done ← m.finish
    let (more, m) ← start c place
    return (done ++ more, m)
  match m with
  | idle => start c place
  | word done at_ => if isWordChar c then .ok ([], word (c :: done) at_) else begin_
  | quoted done at_ => .ok ([], if c = '\'' then quote done at_ else quoted (c :: done) at_)
  | quote done at_ => if c = '\'' then .ok ([], quoted (c :: done) at_) else begin_
  | placeholder digits at_ =>
    if c.isDigit then .ok ([], placeholder (c :: digits) at_) else begin_
  | mark a at_ =>
    match pair? a c with
    | some s => .ok ([⟨.mark s, at_⟩], idle)
    | none => begin_

end Lexing

/-- The tokens of a text that begins at `place`. -/
def tokensFrom (m : Lexing) (place : Nat) : List Char → Except Fault (List Lexeme)
  | [] => m.finish
  | c :: r => do
    let (ls, m) ← m.step c place
    let rest ← tokensFrom m (place + c.utf8Size) r
    return ls ++ rest

def tokens (sql : String) : Except Fault (List Lexeme) := tokensFrom .idle 0 sql.toList

/-! ## Placeholders -/

/-- Gives the placeholders their values; one without a number has the number behind the greatest one
before it. -/
def fill (binds : List String) (greatest : Nat) : List Lexeme → List Lexeme
  | [] => []
  | l :: ls =>
    match l.token with
    | .placeholder n =>
      let n := n.getD (greatest + 1)
      ⟨.bound ((binds[n - 1]?).getD ""), l.place⟩ :: fill binds (max greatest n) ls
    | _ => l :: fill binds greatest ls

/-- The greatest number of a placeholder. -/
def placeholderCount (ls : List Lexeme) : Nat :=
  ls.foldl (fun greatest l => match l.token with
    | .placeholder n => max greatest (n.getD (greatest + 1))
    | _ => greatest) 0

end CatalogQuery.Sql
