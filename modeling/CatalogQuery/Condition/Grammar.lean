import CatalogQuery.Condition.Basic
import CatalogQuery.Error
import CatalogQuery.Text.Blank
import CatalogQuery.Text.Cut

/-!
# The grammar of conditions

A simple condition is an optional `n`, an operator and a literal in single quotes. The literal runs
from the first quote to the last one, so that quotes inside it are content. A compound condition is
two simple ones around `||` or `&&`.
-/

namespace CatalogQuery

open Text

/-- The operator that a text spells; blanks around and between its words and the case of ASCII
letters do not matter. -/
def Operator.parse (s : List Char) : Option Operator :=
  let spelled := (words s).map fun w => String.ofList (w.map Char.toLower)
  Operator.all.find? fun o => o.spellings.contains spelled

namespace Condition

/-- No operator text is longer than this many bytes. -/
def maxOperatorBytes : Nat := 11

/-- The length of a text in UTF-8. -/
def byteLength (s : List Char) : Nat := s.foldr (fun c n => c.utf8Size + n) 0

/-- Takes off the mark of a numeric condition: an `n` right before `<`, `>` or `=`. -/
def stripNumeric (s : List Char) : Bool × List Char :=
  match s with
  | 'n' :: c :: r => if c = '<' ∨ c = '>' ∨ c = '=' then (true, c :: r) else (false, s)
  | _ => (false, s)

/-- Takes off an `and` of any case with the blanks around it. -/
def stripAnd (s : List Char) : List Char :=
  match trimStart s with
  | a :: n :: d :: r =>
    if [a, n, d].map Char.toLower = ['a', 'n', 'd'] then trimStart r else a :: n :: d :: r
  | r => r

/-- Splits the content of a range at the first quote that is followed, after an optional `and`, by
another quote. -/
def splitRange (content : List Char) : Option (List Char × List Char) :=
  (cuts '\'' content).findSome? fun p =>
    match stripAnd p.2 with
    | '\'' :: high => some (p.1, high)
    | _ => none

/-- Reads one operator with its literals. -/
def readSimple (expression : List Char) : Except ConditionFault SimpleCondition := do
  let (numeric, body) := stripNumeric (trimStart expression)
  let some (before, rest) := cutFirst '\'' body | throw .missingLiteral
  let some (content, after) := cutLast '\'' rest | throw .unterminatedLiteral
  unless (trim after).isEmpty do throw .textAfterLiteral
  let operatorText := trim before
  if byteLength operatorText > maxOperatorBytes then throw .operatorTooLong
  let some operator := Operator.parse operatorText | throw .unsupportedOperator
  if operator.takesRange then
    let some (low, high) := splitRange content | throw .missingRange
    return ⟨operator, [String.ofList low, String.ofList high], numeric⟩
  else return ⟨operator, [String.ofList content], numeric⟩

/-- The text before its first quote spells an operator. -/
def startsWithOperator (s : List Char) : Bool :=
  match cutFirst '\'' (stripNumeric (trimStart s)).2 with
  | some (before, _) => (Operator.parse before).isSome
  | none => false

/-- The first place where a doubled mark stands between a closing quote and an operator. -/
def splitAtMark (mark : Char) (s : List Char) : Option (List Char × List Char) :=
  (doubledCuts mark s).find? fun p =>
    (trimEnd p.1).getLast? == some '\'' && startsWithOperator p.2

/-- The parts of a compound condition; `||` is looked for before `&&`. -/
def splitCompound (s : List Char) : Option (Connective × List Char × List Char) :=
  match splitAtMark '|' s with
  | some p => some (.or, p)
  | none => (splitAtMark '&' s).map fun p => (.and, p)

/-- Names the text in which the fault was found. -/
def faultIn (s : List Char) (f : ConditionFault) : QueryError :=
  .conditionSyntax (String.ofList s) f.reason

def parseSimpleChars (s : List Char) : Except QueryError SimpleCondition :=
  (readSimple s).mapError (faultIn s)

/-- Reads a simple condition. -/
def parseSimple (expression : String) : Except QueryError SimpleCondition :=
  parseSimpleChars expression.toList

/-- Reads a simple or a compound condition. A fault in a part names that part, a nested compound
the whole text. -/
def parse (expression : String) : Except QueryError Condition := do
  let s := expression.toList
  match splitCompound s with
  | none => return .simple (← parseSimpleChars s)
  | some (connective, left, right) =>
    if (splitCompound left).isSome || (splitCompound right).isSome then
      throw (faultIn s .nestedCompound)
    let left ← parseSimpleChars left
    let right ← parseSimpleChars right
    return .compound connective left right

end Condition

end CatalogQuery
