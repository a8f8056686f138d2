/-!
# Conditions

A condition is one operator with its literals, or two such conditions joined by a connective.
-/

namespace CatalogQuery

inductive Operator where
  | eq
  | ne
  | lt
  | le
  | gt
  | ge
  | like
  | notLike
  | isIn
  | notIn
  | between
  | notBetween
  | beginOf
  deriving DecidableEq, Repr

namespace Operator

def all : List Operator :=
  [eq, ne, lt, le, gt, ge, like, notLike, isIn, notIn, between, notBetween, beginOf]

theorem mem_all (o : Operator) : o ∈ all := by cases o <;> decide

/-- The operator in SQL. -/
def sql : Operator → String
  | eq => "="
  | ne => "<>"
  | lt => "<"
  | le => "<="
  | gt => ">"
  | ge => ">="
  | like => "like"
  | notLike => "not like"
  | isIn => "in"
  | notIn => "not in"
  | between => "between"
  | notBetween => "not between"
  | beginOf => "begin_of"

/-- The words that spell the operator in a condition, in lower case. -/
def spellings : Operator → List (List String)
  | eq => [["="]]
  | ne => [["<>"], ["!="]]
  | lt => [["<"]]
  | le => [["<="]]
  | gt => [[">"]]
  | ge => [[">="]]
  | like => [["like"]]
  | notLike => [["not", "like"]]
  | isIn => [["in"]]
  | notIn => [["not", "in"]]
  | between => [["between"]]
  | notBetween => [["not", "between"]]
  | beginOf => [["begin_of"]]

/-- The operator takes a low and a high literal. -/
def takesRange : Operator → Bool
  | between | notBetween => true
  | _ => false

end Operator

inductive Connective where
  | or
  | and
  deriving DecidableEq, Repr

def Connective.sql : Connective → String
  | .or => "OR"
  | .and => "AND"

/-- One operator with its literals; a numeric condition compares numbers instead of texts. -/
structure SimpleCondition where
  operator : Operator
  literals : List String
  numeric : Bool
  deriving DecidableEq, Repr

inductive Condition where
  | simple (c : SimpleCondition)
  | compound (connective : Connective) (left right : SimpleCondition)
  deriving DecidableEq, Repr

/-- Why a text is not a condition. -/
inductive ConditionFault where
  | missingLiteral
  | unterminatedLiteral
  | textAfterLiteral
  | operatorTooLong
  | unsupportedOperator
  | missingRange
  | nestedCompound
  deriving DecidableEq, Repr

def ConditionFault.reason : ConditionFault → String
  | .missingLiteral => "missing quoted literal"
  | .unterminatedLiteral => "unterminated literal"
  | .textAfterLiteral => "unexpected text after literal"
  | .operatorTooLong => "operator text too long"
  | .unsupportedOperator => "unsupported operator"
  | .missingRange => "between requires two literals"
  | .nestedCompound => "nested compound conditions are not supported"

end CatalogQuery
