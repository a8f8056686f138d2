import CatalogQuery.Error
import CatalogQuery.Text.Blank

/-!
# Levels of trust and access

Who asks, how far the catalog trusts them, and what they may do with an object.
-/

namespace CatalogQuery

/-- Lower case of ASCII letters. -/
def lowerText (s : String) : String := String.ofList (s.toList.map Char.toLower)

/-- How far a caller is trusted, from least to most. -/
inductive Privilege where
  | none
  | remoteUser
  | localUser
  | remoteAdmin
  | localAdmin
  deriving DecidableEq, Repr

namespace Privilege

def rank : Privilege → Nat
  | none => 0
  | remoteUser => 1
  | localUser => 2
  | remoteAdmin => 3
  | localAdmin => 4

def name : Privilege → String
  | none => "none"
  | remoteUser => "remote_user"
  | localUser => "local_user"
  | remoteAdmin => "remote_admin"
  | localAdmin => "local_admin"

def all : List Privilege := [none, remoteUser, localUser, remoteAdmin, localAdmin]

def isLocalAdmin (p : Privilege) : Bool := p == localAdmin

/-- Reads a level; case does not matter and a hyphen stands for an underscore. -/
def parse (s : String) : Except QueryError Privilege :=
  let wanted := String.ofList ((lowerText s).toList.map fun c => if c = '-' then '_' else c)
  match all.find? (·.name == wanted) with
  | some p => .ok p
  | Option.none => .error (.invalidRequest "unknown privilege level")

end Privilege

/-- What a user may do with an object, from least to most. -/
inductive AccessLevel where
  | read
  | modify
  | own
  deriving DecidableEq, Repr

namespace AccessLevel

def rank : AccessLevel → Nat
  | read => 0
  | modify => 1
  | own => 2

def name : AccessLevel → String
  | read => "read"
  | modify => "modify"
  | own => "own"

/-- The name of the level among the tokens of a catalog. -/
def token : AccessLevel → String
  | read => "read object"
  | modify => "modify object"
  | own => "own"

def all : List AccessLevel := [read, modify, own]

/-- Reads a level by its name or its token; blanks around it and case do not matter. -/
def parse (s : String) : Except QueryError AccessLevel :=
  match lowerText (Text.trimmed s) with
  | "read" => .ok read
  | "read object" => .ok read
  | "modify" => .ok modify
  | "write" => .ok modify
  | "modify object" => .ok modify
  | "own" => .ok own
  | _ => .error (.invalidRequest "unknown access level")

end AccessLevel

/-- Who asks. -/
structure Caller where
  user : String
  zone : String
  privilege : Privilege
  deriving DecidableEq, Repr

/-- Nobody, without any trust. -/
def Caller.unknown : Caller := ⟨"", "", .none⟩

end CatalogQuery
