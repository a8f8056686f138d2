import CatalogQuery.Identifier

/-!
# Conventions of a catalog

Rules for compiling requests that belong to one catalog: which columns order a result, which are
reserved, how attribute rows hang on objects, and which tables are seen through grants only.
-/

namespace CatalogQuery

/-- A closed range of column numbers. -/
structure ColumnRange where
  first : Nat
  last : Nat
  deriving DecidableEq, Repr

def ColumnRange.contains (r : ColumnRange) (c : ColumnId) : Bool :=
  r.first ≤ c.number && c.number ≤ r.last

/-- A layout of attributes: objects are joined to rows of names and values through a map.

A request that asks for several names means several rows of the same object; each name after the
first is looked up in an instance of its own of the map and the attribute table. -/
structure AttributeJoin where
  nameColumn : ColumnId
  valueColumn : ColumnId
  /-- Base table of the map. -/
  mapTable : String
  /-- Binding of the first instance of the map. -/
  mapBinding : String
  /-- Base table of the attribute rows. -/
  metaTable : String
  /-- Binding of the first instance of the attribute rows. -/
  metaBinding : String
  /-- The column that map and attribute rows share. -/
  metaKey : String
  /-- The column of the map that names the object. -/
  mapObjectColumn : String
  objectTable : String
  objectIdColumn : String
  deriving DecidableEq, Repr

/-- The binding of an instance, counted from one; the first one has the plain name. -/
def instanceBinding (base : String) (index : Nat) : String :=
  if index ≤ 1 then base else base ++ "_" ++ toString index

namespace AttributeJoin

def mapInstance (j : AttributeJoin) (index : Nat) : String := instanceBinding j.mapBinding index

def metaInstance (j : AttributeJoin) (index : Nat) : String := instanceBinding j.metaBinding index

end AttributeJoin

/-- A table whose rows are seen through grants only. -/
structure ProtectedTable where
  table : String
  idColumn : String
  deriving DecidableEq, Repr

/-- The tables and names on the way from a user over groups and access entries to a token. -/
structure GrantChain where
  accessTable : String
  groupTable : String
  userTable : String
  tokenTable : String
  /-- The type of users that are groups; they never match as callers. -/
  groupTypeName : String
  tokenNamespace : String
  /-- The least level at which a row is seen. -/
  readToken : String
  deriving DecidableEq, Repr

def GrantChain.standard : GrantChain where
  accessTable := "r_objt_access"
  groupTable := "r_user_group"
  userTable := "r_user_main"
  tokenTable := "r_tokn_main"
  groupTypeName := "rodsgroup"
  tokenNamespace := "access_type"
  readToken := "read object"

structure Conventions where
  /-- Columns that order a result in which they are selected. -/
  canonicalOrder : List ColumnId
  /-- Columns for local administrators only. -/
  restrictedColumns : List ColumnRange
  attributeJoins : List AttributeJoin
  protectedTables : List ProtectedTable
  grantChain : GrantChain
  /-- Columns that identify an object in a row. -/
  objectIdColumns : List ColumnId
  deriving DecidableEq, Repr

namespace Conventions

def blank : Conventions := ⟨[], [], [], [], .standard, []⟩

def isRestricted (c : Conventions) (column : ColumnId) : Bool :=
  c.restrictedColumns.any (·.contains column)

/-- The position of the first layout of which `p` holds, with the layout. -/
def findLayout (c : Conventions) (p : AttributeJoin → Bool) : Option (Nat × AttributeJoin) :=
  (c.attributeJoins.zipIdx.find? fun j => p j.1).map fun j => (j.2, j.1)

def layoutByName (c : Conventions) (column : ColumnId) : Option (Nat × AttributeJoin) :=
  c.findLayout fun j => j.nameColumn == column

def layoutByValue (c : Conventions) (column : ColumnId) : Option (Nat × AttributeJoin) :=
  c.findLayout fun j => j.valueColumn == column

end Conventions

end CatalogQuery
