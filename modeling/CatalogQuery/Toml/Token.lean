/-!
# Tokens of TOML

Characters to tokens by a machine with one mode per place in a token, structural in the text. A
line may end with a carriage return before the line feed; it is dropped first, so that no other
carriage return is left to accept. Blanks stay in the tokens, one each, because a header takes no
blank between its brackets and a date takes exactly one before a time.
-/

namespace CatalogQuery.Toml

inductive Token where
  | newline
  | blank
  /-- Letters, digits and the marks of numbers and times, the point aside. -/
  | word (s : List Char)
  /-- A quoted text; a block may have lines, and is no key. -/
  | text (s : String) (block : Bool)
  /-- One of `= . , [ ]` and the braces. -/
  | mark (c : Char)
  deriving DecidableEq, Repr

/-! ## Characters -/

def isBlank (c : Char) : Bool := c == ' ' || c == '\t'

def isKeyChar (c : Char) : Bool := c.isAlphanum || c == '_' || c == '-'

def isWordChar (c : Char) : Bool := isKeyChar c || c == '+' || c == ':'

def isMark (c : Char) : Bool := "=.,[]\x7b\x7d".toList.contains c

/-- Stands in comments and texts: no control character but the tab. -/
def isPlain (c : Char) : Bool := c == '\t' || (0x20 ≤ c.toNat && c.toNat != 0x7F)

def hexValue (c : Char) : Option Nat :=
  if '0' ≤ c ∧ c ≤ '9' then some (c.toNat - 48)
  else if 'a' ≤ c ∧ c ≤ 'f' then some (c.toNat - 87)
  else if 'A' ≤ c ∧ c ≤ 'F' then some (c.toNat - 55)
  else none

def unescape (c : Char) : Option Char :=
  match c with
  | '"' => some '"'
  | '\\' => some '\\'
  | 'b' => some '\x08'
  | 'f' => some '\x0c'
  | 'n' => some '\n'
  | 'r' => some '\r'
  | 't' => some '\t'
  | _ => none

/-! ## The machine -/

/-- A text that is still open, its characters in reverse. -/
structure OpenText where
  quote : Char
  block : Bool
  done : List Char
  deriving DecidableEq, Repr

namespace OpenText

def add (t : OpenText) (c : Char) : OpenText := { t with done := c :: t.done }

def addMany (t : OpenText) (n : Nat) : OpenText :=
  { t with done := List.replicate n t.quote ++ t.done }

def close (t : OpenText) : Token := .text (String.ofList t.done.reverse) t.block

end OpenText

inductive Mode where
  | between
  | inWord (done : List Char)
  | comment
  /-- One, two or three quotes stand at the start of a text. -/
  | opening (quote : Char) (count : Nat)
  | inText (t : OpenText)
  /-- Quotes in a row inside a block. -/
  | quotes (t : OpenText) (count : Nat)
  | escape (t : OpenText)
  /-- `left` hexadecimal digits are missing. -/
  | scalar (t : OpenText) (left value : Nat)
  /-- A backslash ends the line: blanks and line ends are dropped, one line end at least. -/
  | fold (t : OpenText) (ended : Bool)
  deriving DecidableEq, Repr

/-- One character outside words, comments and texts. -/
def start (c : Char) : Option (List Token × Mode) :=
  if c = '\n' then some ([.newline], .between)
  else if isBlank c then some ([.blank], .between)
  else if c = '#' then some ([], .comment)
  else if c = '"' ∨ c = '\'' then some ([], .opening c 1)
  else if isWordChar c then some ([], .inWord [c])
  else if isMark c then some ([.mark c], .between)
  else none

/-- One character in a text. -/
def inText (t : OpenText) (c : Char) : Option (List Token × Mode) :=
  if c = t.quote then
    if t.block then some ([], .quotes t 1) else some ([t.close], .between)
  else if c = '\\' ∧ t.quote = '"' then some ([], .escape t)
  else if isPlain c ∨ (t.block ∧ c = '\n') then some ([], .inText (t.add c))
  else none

/-- Three quotes end a block; up to two more before them belong to it. -/
def afterQuotes (t : OpenText) (count : Nat) (c : Char) : Option (List Token × Mode) :=
  if count < 3 then inText (t.addMany count) c
  else do
    let (ts, mode) ← start c
    return ((t.addMany (count - 3)).close :: ts, mode)

def isScalar (n : Nat) : Bool := n < 0xD800 || (0xE000 ≤ n && n < 0x110000)

/-- One character: the tokens that it completes and the mode after it. -/
def step (mode : Mode) (c : Char) : Option (List Token × Mode) :=
  match mode with
  | .between => start c
  | .inWord done =>
    if isWordChar c then some ([], .inWord (c :: done))
    else do
      let (ts, mode) ← start c
      return (.word done.reverse :: ts, mode)
  | .comment =>
    if c = '\n' then some ([.newline], .between)
    else if isPlain c then some ([], .comment)
    else none
  | .opening q count =>
    if c = q ∧ count < 3 then some ([], .opening q (count + 1))
    else if count = 1 then inText ⟨q, false, []⟩ c
    else if count = 2 then do
      let (ts, mode) ← start c
      return (.text "" false :: ts, mode)
    else if c = '\n' then some ([], .inText ⟨q, true, []⟩)
    else inText ⟨q, true, []⟩ c
  | .inText t => inText t c
  | .quotes t count =>
    if c = t.quote ∧ count < 5 then some ([], .quotes t (count + 1)) else afterQuotes t count c
  | .escape t =>
    if c = 'u' then some ([], .scalar t 4 0)
    else if c = 'U' then some ([], .scalar t 8 0)
    else if t.block ∧ isBlank c then some ([], .fold t false)
    else if t.block ∧ c = '\n' then some ([], .fold t true)
    else (unescape c).map fun e => ([], .inText (t.add e))
  | .scalar t left value => do
    let v := 16 * value + (← hexValue c)
    if 1 < left then return ([], .scalar t (left - 1) v)
    else if isScalar v then return ([], .inText (t.add (Char.ofNat v)))
    else none
  | .fold t ended =>
    if isBlank c then some ([], .fold t ended)
    else if c = '\n' then some ([], .fold t true)
    else if ended then inText t c
    else none

def tokensFrom (mode : Mode) : List Char → Option (List Token)
  | [] =>
    match mode with
    | .between => some []
    | .inWord done => some [.word done.reverse]
    | .comment => some []
    | .opening _ 2 => some [.text "" false]
    | .quotes t count => if count < 3 then none else some [(t.addMany (count - 3)).close]
    | _ => none
  | c :: r => do
    let (ts, mode) ← step mode c
    let rest ← tokensFrom mode r
    return ts ++ rest

/-- Drops the carriage returns before line feeds. -/
def unifyLines : List Char → List Char
  | [] => []
  | c :: r => if c = '\r' ∧ r.head? = some '\n' then unifyLines r else c :: unifyLines r

/-- The tokens of a document, which may begin with a byte order mark. -/
def tokens (s : String) : Option (List Token) :=
  tokensFrom .between (unifyLines (match s.toList with
    | '\uFEFF' :: r => r
    | r => r))

end CatalogQuery.Toml
