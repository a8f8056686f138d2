import CatalogQuery.Sql.Query

/-!
# Aggregates

One value from the values of a column. A sum of integers is an integer. As soon as a value is no
integer the sum goes on with binary numbers, and what is lost by rounding is summed beside it and
added at the end.
-/

namespace CatalogQuery.Sql

/-- A running sum: exact while all values are integers, else a binary number with a correction. -/
inductive Sum where
  | whole (n : Int)
  | approximate (sum correction : Binary)
  deriving DecidableEq, Repr

namespace Sum

/-- Integers of at least this size are added in two parts. -/
def splitBound : Int := 4503599627370496

/-- A large integer as a multiple of 2 ^ 14 and the rest. -/
def split (n : Int) : Int × Int :=
  if -splitBound < n ∧ n < splitBound then (n, 0)
  else (n - n.tmod 16384, n.tmod 16384)

/-- Adds a binary number; what the rounding loses goes to the correction. -/
def addBinary (sum correction r : Binary) : Binary × Binary :=
  let t := sum.add r
  let lost := if r.abs.compare sum.abs == .lt then (sum.sub t).add r else (r.sub t).add sum
  (t, correction.add lost)

def addInt (sum correction : Binary) (n : Int) : Binary × Binary :=
  let parts := split n
  let s := addBinary sum correction (.ofInt parts.1)
  if parts.2 = 0 then s else addBinary s.1 s.2 (.ofInt parts.2)

/-- A value counts as an integer if it is one or is a text that looks like one. -/
def integer? : Value → Option Int
  | .number (.int n) => some n
  | .text s =>
    match wholeNumber? s with
    | some (.int n) => some n
    | _ => none
  | _ => none

def add (s : Sum) (v : Value) : Sum :=
  match s, integer? v with
  | whole n, some m => whole (n + m)
  | whole n, none =>
    let parts := split n
    let s := addBinary (.ofInt parts.1) (.ofInt parts.2) v.asNumber.rounded
    approximate s.1 s.2
  | approximate sum correction, some m =>
    let s := addInt sum correction m
    approximate s.1 s.2
  | approximate sum correction, none =>
    let s := addBinary sum correction v.asNumber.rounded
    approximate s.1 s.2

def total : Sum → Number
  | whole n => .int n
  | approximate sum correction => .real (sum.add correction)

def of (vs : List Value) : Sum := vs.foldl add (whole 0)

end Sum

/-- The first of the greatest values in an order. -/
def extremum (better : Ordering) : List Value → Value
  | [] => .null
  | v :: vs => vs.foldl (fun best w => if w.compare best == better then w else best) v

/-- The value of an aggregate; without values only a count has one. -/
def Aggregate.value (f : Aggregate) (vs : List Value) : Value :=
  let vs := vs.filter fun v => !v.isNull
  match f with
  | .count => .int vs.length
  | .min => extremum .lt vs
  | .max => extremum .gt vs
  | .sum => if vs.isEmpty then .null else .number (Sum.of vs).total
  | .avg =>
    if vs.isEmpty then .null
    else .number (.real ((Sum.of vs).total.rounded.divNat vs.length))

end CatalogQuery.Sql
