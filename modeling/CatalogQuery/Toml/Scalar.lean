import CatalogQuery.Data.Basic
import CatalogQuery.Number.Word

/-!
# Numbers and times of TOML

What an unquoted value says. Integers have 64 bits; underscores stand between digits only. A
fraction, an exponent, an infinity or a date makes a value that no field takes, so that only its
form is checked.
-/

namespace CatalogQuery.Toml

/-! ## Digits -/

/-- Digits with single underscores between them, without the underscores. -/
def digitRun (isDigit : Char → Bool) : List Char → Option (List Char)
  | [] => none
  | [c] => if isDigit c then some [c] else none
  | c :: d :: r =>
    if !isDigit c then none
    else if d = '_' then (digitRun isDigit r).map (c :: ·)
    else (digitRun isDigit (d :: r)).map (c :: ·)

def valueOf (base : Nat) (ds : List Char) : Nat :=
  ds.foldl (fun n c =>
    base * n + (if c.isDigit then c.toNat - 48 else if c.isLower then c.toNat - 87 else c.toNat - 55))
    0

/-- Digits without a zero in front of others. -/
def wholeDigits (s : List Char) : Option (List Char) := do
  let ds ← digitRun Char.isDigit s
  match ds with
  | '0' :: _ :: _ => none
  | _ => some ds

def splitSign : List Char → Bool × List Char
  | '-' :: r => (true, r)
  | '+' :: r => (false, r)
  | r => (false, r)

/-! ## Integers -/

def isHexDigit (c : Char) : Bool :=
  c.isDigit || ('a' ≤ c && c ≤ 'f') || ('A' ≤ c && c ≤ 'F')

def integer (s : List Char) : Option Int :=
  match s with
  | '0' :: 'x' :: r => (digitRun isHexDigit r).map fun ds => valueOf 16 ds
  | '0' :: 'o' :: r => (digitRun (fun c => '0' ≤ c && c ≤ '7') r).map fun ds => valueOf 8 ds
  | '0' :: 'b' :: r => (digitRun (fun c => c == '0' || c == '1') r).map fun ds => valueOf 2 ds
  | _ =>
    let (negative, r) := splitSign s
    (wholeDigits r).map fun ds => if negative then -(valueOf 10 ds : Int) else valueOf 10 ds

/-! ## Reals -/

/-- The least integer that 53 bits with a finite exponent do not round down. -/
def leastInfinity : Nat := twoTo 1024 - twoTo 970

/-- Whether `digits · 10 ^ scale`, rounded to 53 bits, has an exponent above all finite ones. -/
def overflows (digits : Nat) (scale : Int) : Bool :=
  let places := ((toString digits).length : Int) + scale
  if digits = 0 ∨ places < 309 then false
  else if 309 < places then true
  else if 0 ≤ scale then leastInfinity ≤ digits * tenTo scale.toNat
  else leastInfinity * tenTo (-scale).toNat ≤ digits

def special (s : List Char) : Bool :=
  let r := (splitSign s).2
  r = "inf".toList || r = "nan".toList

/-- A number with a fraction, an exponent or both; a positive one must not be too large. -/
def isReal (s : List Char) : Bool :=
  let (negative, r) := splitSign s
  let isExponentMark (c : Char) : Bool := c == 'e' || c == 'E'
  let body := r.takeWhile (! isExponentMark ·)
  let tail := r.dropWhile (! isExponentMark ·)
  let whole := body.takeWhile (· != '.')
  let fraction := body.dropWhile (· != '.')
  let number : Option (List Char × List Char × Int) := do
    let wholeDs ← wholeDigits whole
    let fractionDs ← match fraction with
      | [] => if tail.isEmpty then none else some []
      | _ :: f => digitRun Char.isDigit f
    let exponent : Int ← match tail with
      | [] => some 0
      | _ :: e => do
        let (down, e) := splitSign e
        let ds ← digitRun Char.isDigit e
        some (if down then -(valueOf 10 ds : Int) else valueOf 10 ds)
    return (wholeDs, fractionDs, exponent)
  match number with
  | none => false
  | some (w, f, e) => negative || !overflows (valueOf 10 (w ++ f)) (e - f.length)

/-! ## Times -/

def isLeapYear (y : Nat) : Bool := (y % 4 == 0 && y % 100 != 0) || y % 400 == 0

def daysIn (year month : Nat) : Nat :=
  if month = 2 then (if isLeapYear year then 29 else 28)
  else if [4, 6, 9, 11].contains month then 30
  else 31

/-- The number in the next `n` characters, which must be digits, and the rest. -/
def fixedDigits (n : Nat) (s : List Char) : Option (Nat × List Char) :=
  let ds := s.take n
  if ds.length = n ∧ ds.all Char.isDigit then some (valueOf 10 ds, s.drop n) else none

def expectChar (p : Char → Bool) : List Char → Option (List Char)
  | [] => none
  | c :: r => if p c then some r else none

def date (s : List Char) : Option (List Char) := do
  let (year, s) ← fixedDigits 4 s
  let s ← expectChar (· == '-') s
  let (month, s) ← fixedDigits 2 s
  let s ← expectChar (· == '-') s
  let (day, s) ← fixedDigits 2 s
  if 1 ≤ month ∧ month ≤ 12 ∧ 1 ≤ day ∧ day ≤ daysIn year month then some s else none

def clock (s : List Char) : Option (List Char) := do
  let (hour, s) ← fixedDigits 2 s
  let s ← expectChar (· == ':') s
  let (minute, s) ← fixedDigits 2 s
  if 23 < hour ∨ 59 < minute then none else some s

/-- A time of day; the seconds may have a fraction and count to sixty. -/
def dayTime (s : List Char) : Option (List Char) := do
  let s ← clock s
  let s ← expectChar (· == ':') s
  let (second, s) ← fixedDigits 2 s
  if 60 < second then none
  match s with
  | '.' :: f => if f.takeWhile Char.isDigit = [] then none else some (f.dropWhile Char.isDigit)
  | _ => some s

/-- The distance from universal time. -/
def zoneShift (s : List Char) : Option (List Char) :=
  match s with
  | [] => some []
  | c :: r =>
    if c = 'Z' ∨ c = 'z' then some r
    else if c = '+' ∨ c = '-' then clock r
    else none

def isDate (s : List Char) : Bool := date s = some []

def isTime (s : List Char) : Bool :=
  isDate s || dayTime s = some [] ||
    (do
      let s ← date s
      let s ← expectChar (fun c => c == 'T' || c == 't' || c == ' ') s
      let s ← dayTime s
      zoneShift s) = some []

/-! ## Values -/

def scalar (s : List Char) : Option Data :=
  if s = "true".toList then some (.bool true)
  else if s = "false".toList then some (.bool false)
  else
    match integer s with
    | some n => if fits64 n then some (.int n) else none
    | none =>
      if special s || isReal s then some .real
      else if isTime s then some .time
      else none

end CatalogQuery.Toml
