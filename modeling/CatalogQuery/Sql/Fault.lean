/-!
# Faults of statements

Why a catalog refuses a statement. Places are byte offsets into the text of the statement.
-/

namespace CatalogQuery.Sql

inductive Fault where
  | unexpected (word : String) (place : Nat)
  | incomplete
  | unrecognized (text : String) (place : Nat)
  | noTable (name : String)
  | noColumn (name : String) (place : Nat)
  | ambiguousColumn (name : String) (place : Nat)
  | noFunction (name : String) (place : Nat)
  | bindCount (given needed : Nat)
  /-- A limit that is no integer of 64 bits. -/
  | mismatch
  deriving DecidableEq, Repr

namespace Fault

def located (reason sql : String) (place : Nat) : String :=
  reason ++ " in " ++ sql ++ " at offset " ++ toString place

/-- The wording of a fault in the statement `sql`. -/
def message (sql : String) : Fault → String
  | unexpected word place => located ("near \"" ++ word ++ "\": syntax error") sql place
  | incomplete => "incomplete input"
  | unrecognized text place => located ("unrecognized token: \"" ++ text ++ "\"") sql place
  | noTable name => "no such table: " ++ name
  | noColumn name place => located ("no such column: " ++ name) sql place
  | ambiguousColumn name place => located ("ambiguous column name: " ++ name) sql place
  | noFunction name place => located ("no such function: " ++ name) sql place
  | bindCount given needed =>
    "Wrong number of parameters passed to query. Got " ++ toString given ++ ", needed "
      ++ toString needed
  | mismatch => "datatype mismatch"

end Fault

end CatalogQuery.Sql
