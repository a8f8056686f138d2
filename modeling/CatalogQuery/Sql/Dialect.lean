import CatalogQuery.Sql.Fragment

/-!
# Dialects

What a database can do, as far as compiled statements depend on it: the name of the function for
the length of a text, how an offset is written, and whether totals need a statement of their own.
-/

namespace CatalogQuery.Sql

inductive Pagination where
  /-- `offset ?`, with the offset among the binds. -/
  | offsetBind
  /-- `limit offset,count`. -/
  | limitComma
  /-- The statement holds no offset; the backend skips rows. -/
  | manual
  deriving DecidableEq, Repr

structure Dialect where
  name : String
  lengthFunction : String
  pagination : Pagination
  /-- The count that stands for "all rows" after an offset. -/
  unboundedLimit : String
  countQuery : Bool
  deriving DecidableEq, Repr

namespace Dialect

def postgres : Dialect := ⟨"postgres", "char_length", .offsetBind, "", false⟩

def mysql : Dialect := ⟨"mysql", "char_length", .limitComma, "18446744073709551615", false⟩

def oracle : Dialect := ⟨"oracle", "length", .manual, "", true⟩

def sqlite : Dialect := ⟨"sqlite", "length", .limitComma, "-1", false⟩

/-- The dialect of that name, in any case of ASCII letters. -/
def preset (name : String) : Option Dialect :=
  match String.ofList (name.toList.map Char.toLower) with
  | "postgres" => some postgres
  | "postgresql" => some postgres
  | "mysql" => some mysql
  | "oracle" => some oracle
  | "sqlite" => some sqlite
  | _ => none

/-- What stands behind a statement to leave out its first rows. -/
def offsetSuffix (d : Dialect) (offset : Nat) : Option Fragment :=
  if offset = 0 then none
  else match d.pagination with
    | .offsetBind => some ⟨" offset ?", [toString offset]⟩
    | .limitComma => some ⟨" limit " ++ toString offset ++ "," ++ d.unboundedLimit, []⟩
    | .manual => none

/-- The rows that the backend has to skip. -/
def skipRows (d : Dialect) (offset : Nat) : Nat :=
  match d.pagination with
  | .manual => offset
  | _ => 0

theorem skipRows_zero (d : Dialect) : d.skipRows 0 = 0 := by
  unfold skipRows
  split <;> rfl

end Dialect

end CatalogQuery.Sql
