import CatalogQuery.Condition.Basic
import CatalogQuery.Sql.Dialect

/-!
# Conditions in SQL

A condition on a column becomes a fragment whose literals are all binds.
-/

namespace CatalogQuery

open Sql

/-- The column side and the placeholder of a condition. -/
def SimpleCondition.operands (c : SimpleCondition) (column : String) : String × String :=
  if c.numeric then ("cast(" ++ column ++ " as decimal)", "cast(? as decimal)")
  else (column, "?")

/-- The condition on `column`. A text that begins with the literal has it as its first characters
and is not empty; the literal is bound twice, for its length and for the comparison. -/
def SimpleCondition.render (c : SimpleCondition) (column : String) (d : Dialect) : Fragment :=
  let (target, placeholder) := c.operands column
  match c.operator with
  | .beginOf =>
    let literal := c.literals.headD ""
    ⟨"substr(" ++ target ++ ",1," ++ d.lengthFunction ++ "(?))=? AND " ++ d.lengthFunction ++ "("
        ++ target ++ ")>0",
      [literal, literal]⟩
  | .isIn | .notIn =>
    ⟨target ++ " " ++ c.operator.sql ++ " (" ++ placeholder ++ ")", c.literals⟩
  | .between | .notBetween =>
    ⟨target ++ " " ++ c.operator.sql ++ " " ++ placeholder ++ " and " ++ placeholder, c.literals⟩
  | o => ⟨target ++ " " ++ o.sql ++ " " ++ placeholder, c.literals⟩

end CatalogQuery
