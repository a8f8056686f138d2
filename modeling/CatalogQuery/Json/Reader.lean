import CatalogQuery.Data.Basic

/-!
# Reading JSON

Strict JSON in two passes, both structural: characters to tokens by a machine with one mode per
place in a token, tokens to data by a machine that keeps the containers still open on a stack.
A raw control character in a string and a lone surrogate are refused.
-/

namespace CatalogQuery.Json

inductive Token where
  | openRecord
  | closeRecord
  | openList
  | closeList
  | comma
  | colon
  | text (s : String)
  /-- A number, a truth value or null. -/
  | plain (d : Data)

/-! ## Words -/

def digits (s : List Char) : Option (Nat × List Char) :=
  match s.takeWhile Char.isDigit with
  | [] => none
  | ds => some (ds.foldl (fun n c => 10 * n + (c.toNat - 48)) 0, s.dropWhile Char.isDigit)

/-- The digits before the point: a leading zero stands alone. -/
def wholePart (s : List Char) : Option (Nat × List Char) :=
  match s with
  | '0' :: r => some (0, r)
  | _ => digits s

def fractionPart (s : List Char) : Option (Bool × List Char) :=
  match s with
  | '.' :: r => (digits r).map fun p => (true, p.2)
  | _ => some (false, s)

def exponentPart (s : List Char) : Option (Bool × List Char) :=
  match s with
  | [] => some (false, [])
  | c :: r =>
    if c = 'e' ∨ c = 'E' then
      match r with
      | '+' :: t => (digits t).map fun p => (true, p.2)
      | '-' :: t => (digits t).map fun p => (true, p.2)
      | _ => (digits r).map fun p => (true, p.2)
    else some (false, s)

/-- An integer is a number without fraction and exponent; minus zero counts as a real. -/
def number (s : List Char) : Option Data := do
  let (negative, s) := match s with
    | '-' :: r => (true, r)
    | _ => (false, s)
  let (n, s) ← wholePart s
  let (fraction, s) ← fractionPart s
  let (exponent, s) ← exponentPart s
  if !s.isEmpty then none
  else if fraction || exponent || (negative && n == 0) then some .real
  else some (.int (if negative then -(n : Int) else n))

def word (s : List Char) : Option Token :=
  if s = "null".toList then some (.plain .null)
  else if s = "true".toList then some (.plain (.bool true))
  else if s = "false".toList then some (.plain (.bool false))
  else (number s).map .plain

/-! ## Characters to tokens -/

/-- Where the reading of a token stands. Texts are kept in reverse. -/
inductive Mode where
  | between
  | inWord (done : List Char)
  | inText (done : List Char)
  | escape (done : List Char)
  /-- `left` hexadecimal digits are missing; `high` is a leading surrogate before this unit. -/
  | unit (done : List Char) (high : Option Nat) (left : Nat) (value : Nat)
  | lowBackslash (done : List Char) (high : Nat)
  | lowMark (done : List Char) (high : Nat)

def isSpace (c : Char) : Bool := c == ' ' || c == '\t' || c == '\n' || c == '\r'

def isWordChar (c : Char) : Bool := c.isAlphanum || c == '-' || c == '+' || c == '.'

def hexValue (c : Char) : Option Nat :=
  if '0' ≤ c ∧ c ≤ '9' then some (c.toNat - 48)
  else if 'a' ≤ c ∧ c ≤ 'f' then some (c.toNat - 87)
  else if 'A' ≤ c ∧ c ≤ 'F' then some (c.toNat - 55)
  else none

def unescape (c : Char) : Option Char :=
  match c with
  | '"' => some '"'
  | '\\' => some '\\'
  | '/' => some '/'
  | 'b' => some '\x08'
  | 'f' => some '\x0c'
  | 'n' => some '\n'
  | 'r' => some '\r'
  | 't' => some '\t'
  | _ => none

/-- What a complete 16-bit unit does to the text before it. -/
def endUnit (done : List Char) (high : Option Nat) (value : Nat) : Option Mode :=
  match high with
  | none =>
    if 0xD800 ≤ value ∧ value < 0xDC00 then some (.lowBackslash done value)
    else if 0xDC00 ≤ value ∧ value < 0xE000 then none
    else some (.inText (Char.ofNat value :: done))
  | some h =>
    if 0xDC00 ≤ value ∧ value < 0xE000 then
      some (.inText (Char.ofNat (0x10000 + (h - 0xD800) * 0x400 + (value - 0xDC00)) :: done))
    else none

def punctuation (c : Char) : Option Token :=
  match c with
  | '{' => some .openRecord
  | '}' => some .closeRecord
  | '[' => some .openList
  | ']' => some .closeList
  | ',' => some .comma
  | ':' => some .colon
  | _ => none

/-- One character in a place outside words and texts. -/
def startToken (c : Char) : Option (List Token × Mode) :=
  if isSpace c then some ([], .between)
  else if c = '"' then some ([], .inText [])
  else if isWordChar c then some ([], .inWord [c])
  else (punctuation c).map fun t => ([t], .between)

/-- One character: the tokens that it completes and the mode after it. -/
def step (mode : Mode) (c : Char) : Option (List Token × Mode) :=
  match mode with
  | .between => startToken c
  | .inWord done =>
    if isWordChar c then some ([], .inWord (c :: done))
    else do
      let t ← word done.reverse
      let (ts, mode) ← startToken c
      return (t :: ts, mode)
  | .inText done =>
    if c = '"' then some ([.text (String.ofList done.reverse)], .between)
    else if c = '\\' then some ([], .escape done)
    else if c.toNat < 0x20 then none
    else some ([], .inText (c :: done))
  | .escape done =>
    if c = 'u' then some ([], .unit done none 4 0)
    else (unescape c).map fun e => ([], .inText (e :: done))
  | .unit done high left value => do
    let v := 16 * value + (← hexValue c)
    if left ≤ 1 then return ([], ← endUnit done high v)
    else return ([], .unit done high (left - 1) v)
  | .lowBackslash done high => if c = '\\' then some ([], .lowMark done high) else none
  | .lowMark done high => if c = 'u' then some ([], .unit done (some high) 4 0) else none

def tokens (mode : Mode) : List Char → Option (List Token)
  | [] =>
    match mode with
    | .between => some []
    | .inWord done => (word done.reverse).map fun t => [t]
    | _ => none
  | c :: r => do
    let (ts, mode) ← step mode c
    let rest ← tokens mode r
    return ts ++ rest

/-! ## Tokens to data -/

/-- A container that is still open, its members in reverse. -/
inductive Frame where
  | list (items : List Data)
  | record (fields : List (String × Data)) (name : Option String)

inductive Expect where
  | value
  | firstItem
  | firstName
  | name
  | colon
  /-- A comma or the end of the innermost container. -/
  | more
  | finished (d : Data)

structure State where
  expect : Expect
  open_ : List Frame

/-- A complete value goes into the innermost open container. -/
def deliver (d : Data) : List Frame → Option State
  | [] => some ⟨.finished d, []⟩
  | .list items :: rest => some ⟨.more, .list (d :: items) :: rest⟩
  | .record fields (some name) :: rest => some ⟨.more, .record ((name, d) :: fields) none :: rest⟩
  | .record _ none :: _ => none

def close : List Frame → Option State
  | .list items :: rest => deliver (.list items.reverse) rest
  | .record fields none :: rest => deliver (.record fields.reverse) rest
  | _ => none

def startValue (t : Token) (stack : List Frame) : Option State :=
  match t with
  | .plain d => deliver d stack
  | .text s => deliver (.text s) stack
  | .openList => some ⟨.firstItem, .list [] :: stack⟩
  | .openRecord => some ⟨.firstName, .record [] none :: stack⟩
  | _ => none

def startName (t : Token) (stack : List Frame) : Option State :=
  match t, stack with
  | .text s, .record fields none :: rest => some ⟨.colon, .record fields (some s) :: rest⟩
  | _, _ => none

def State.next (s : State) (t : Token) : Option State :=
  match s.expect with
  | .value => startValue t s.open_
  | .firstItem => match t with
    | .closeList => close s.open_
    | _ => startValue t s.open_
  | .firstName => match t with
    | .closeRecord => close s.open_
    | _ => startName t s.open_
  | .name => startName t s.open_
  | .colon => match t with
    | .colon => some ⟨.value, s.open_⟩
    | _ => none
  | .more => match t, s.open_ with
    | .comma, .list _ :: _ => some ⟨.value, s.open_⟩
    | .comma, .record _ _ :: _ => some ⟨.name, s.open_⟩
    | .closeList, .list _ :: _ => close s.open_
    | .closeRecord, .record _ _ :: _ => close s.open_
    | _, _ => none
  | .finished _ => none

/-- The data of a JSON text; blanks may surround it. -/
def read (s : String) : Option Data := do
  let ts ← tokens .between s.toList
  match ← ts.foldlM State.next ⟨.value, []⟩ with
  | ⟨.finished d, _⟩ => some d
  | _ => none

end CatalogQuery.Json
