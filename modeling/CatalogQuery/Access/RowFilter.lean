import CatalogQuery.Request.Level
import CatalogQuery.Schema.Basic
import CatalogQuery.Sql.Fragment

/-!
# Row filters

A caller who is filtered sees of the protected tables only rows of objects for which a grant reaches
him through one of his groups.
-/

namespace CatalogQuery

open Sql

/-- The grants that reach the caller at the level at which rows are seen, as a condition on `column`;
the two placeholders stand for the name and the zone of the caller. -/
def GrantChain.admits (g : GrantChain) (column : String) : String :=
  column ++ " in (select object_id from " ++ g.accessTable ++ " OA, " ++ g.groupTable ++ " UG, "
    ++ g.userTable ++ " UM, " ++ g.tokenTable
    ++ " TM where UM.user_name=? and UM.zone_name=? and UM.user_type_name!='" ++ g.groupTypeName
    ++ "' and UM.user_id = UG.user_id and UG.group_user_id = OA.user_id and OA.object_id = "
    ++ column ++ " and OA.access_type_id >= TM.token_id and TM.token_namespace ='"
    ++ g.tokenNamespace ++ "' and TM.token_name = '" ++ g.readToken ++ "')"

/-- Who is filtered: nobody who administrates the zone; else the anonymous user, and everyone under a
strict policy. -/
def Caller.isFiltered (c : Caller) (strict : Bool) (anonymousUser : String) : Bool :=
  !c.privilege.isLocalAdmin && (strict || c.user == anonymousUser)

/-- The filter of one protected table. -/
def ProtectedTable.filter (p : ProtectedTable) (g : GrantChain) (c : Caller) : Fragment :=
  ⟨g.admits (p.table ++ "." ++ p.idColumn), [c.user, c.zone]⟩

/-- The filters for a caller who selects from the tables `selected`. -/
def Schema.rowFilters (s : Schema) (selected : List TableId) (c : Caller) (strict : Bool)
    (anonymousUser : String) : List Fragment :=
  if c.isFiltered strict anonymousUser then
    (s.conventions.protectedTables.filter fun p => (s.tableId? p.table).any selected.contains).map
      fun p => p.filter s.conventions.grantChain c
  else []

/-- The same filters, if every protected table is registered, whether or not it is selected from. -/
def Schema.lookUpFilters (s : Schema) (selected : List TableId) (c : Caller) (strict : Bool)
    (anonymousUser : String) : Except QueryError (List Fragment) := do
  if c.isFiltered strict anonymousUser then
    let found ← s.conventions.protectedTables.mapM fun p => (p, ·) <$> s.tableId p.table
    return (found.filter fun x => selected.contains x.2).map
      fun x => x.1.filter s.conventions.grantChain c
  else return []

end CatalogQuery
