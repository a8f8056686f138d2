import CatalogQuery.Catalog.Rows
import CatalogQuery.Request.Level

/-!
# Catalogs

The tables of a catalog and how rows are added to them. Tables with an id keep their rows in the order
of the ids, the others in the order of adding; ids and some names occur once only.

* `AccessLevel.tokenId_le_iff`: the ids of tokens are in the order of the levels.
-/

namespace CatalogQuery

structure Catalog where
  zones : List Zone := []
  users : List User := []
  memberships : List Membership := []
  resources : List Resource := []
  collections : List Collection := []
  replicas : List Replica := []
  attributeRows : List AttributeRow := []
  attributeLinks : List AttributeLink := []
  grants : List Grant := []
  tokens : List TokenRow := []
  audit : List AuditEntry := []
  deriving DecidableEq, Repr

/-- A table refuses a row whose value in a column occurs there already. -/
structure Repeated where
  table : String
  column : String
  deriving DecidableEq, Repr

namespace Catalog

/-- The table of that name. -/
def relation? (c : Catalog) (name : String) : Option Relation :=
  match name with
  | "r_zone_main" => some (.of c.zones)
  | "r_user_main" => some (.of c.users)
  | "r_user_group" => some (.of c.memberships)
  | "r_resc_main" => some (.of c.resources)
  | "r_coll_main" => some (.of c.collections)
  | "r_data_main" => some (.of c.replicas)
  | "r_meta_main" => some (.of c.attributeRows)
  | "r_objt_metamap" => some (.of c.attributeLinks)
  | "r_objt_access" => some (.of c.grants)
  | "r_tokn_main" => some (.of c.tokens)
  | "r_objt_audit" => some (.of c.audit)
  | _ => none

/-! ## Adding rows -/

/-- Adds a row before the first one with a greater id. -/
def insertById {α : Type} (id : α → Int) (a : α) : List α → List α
  | [] => [a]
  | b :: bs => if id a < id b then a :: b :: bs else b :: insertById id a bs

/-- Nothing in a column is equal to a new value. -/
def checkNew {α β : Type} [DecidableEq β] (rows : List α) (f : α → β) (value : β)
    (table column : String) : Except Repeated Unit :=
  if rows.any fun r => f r == value then .error ⟨table, column⟩ else .ok ()

def addZone (c : Catalog) (z : Zone) : Except Repeated Catalog := do
  checkNew c.zones (·.id) z.id "r_zone_main" "zone_id"
  checkNew c.zones (·.name) z.name "r_zone_main" "zone_name"
  return { c with zones := insertById (·.id) z c.zones }

def addUser (c : Catalog) (u : User) : Except Repeated Catalog := do
  checkNew c.users (·.id) u.id "r_user_main" "user_id"
  return { c with users := insertById (·.id) u c.users }

def addMembership (c : Catalog) (m : Membership) : Catalog :=
  { c with memberships := c.memberships ++ [m] }

def addResource (c : Catalog) (r : Resource) : Except Repeated Catalog := do
  checkNew c.resources (·.id) r.id "r_resc_main" "resc_id"
  checkNew c.resources (·.name) r.name "r_resc_main" "resc_name"
  return { c with resources := insertById (·.id) r c.resources }

def addCollection (c : Catalog) (x : Collection) : Except Repeated Catalog := do
  checkNew c.collections (·.id) x.id "r_coll_main" "coll_id"
  checkNew c.collections (·.path) x.path "r_coll_main" "coll_name"
  return { c with collections := insertById (·.id) x c.collections }

def addReplica (c : Catalog) (d : Replica) : Catalog := { c with replicas := c.replicas ++ [d] }

def addAttributeRow (c : Catalog) (a : AttributeRow) : Except Repeated Catalog := do
  checkNew c.attributeRows (·.id) a.id "r_meta_main" "meta_id"
  return { c with attributeRows := insertById (·.id) a c.attributeRows }

def addAttributeLink (c : Catalog) (l : AttributeLink) : Catalog :=
  { c with attributeLinks := c.attributeLinks ++ [l] }

def addGrant (c : Catalog) (g : Grant) : Catalog := { c with grants := c.grants ++ [g] }

def addAudit (c : Catalog) (a : AuditEntry) : Catalog := { c with audit := c.audit ++ [a] }

/-! ## Tokens of the access levels -/

/-- The namespace of the tokens of access levels. -/
def accessSpace : String := "access_type"

end Catalog

/-- The id of the token of a level; a higher level has a greater one. -/
def AccessLevel.tokenId : AccessLevel → Int
  | .read => 1050
  | .modify => 1120
  | .own => 1200

theorem AccessLevel.tokenId_le_iff (a b : AccessLevel) :
    a.tokenId ≤ b.tokenId ↔ a.rank ≤ b.rank := by
  cases a <;> cases b <;> decide

namespace Catalog

/-- Adds the token of a level unless there is one of its id. -/
def addToken (c : Catalog) (l : AccessLevel) : Catalog :=
  if c.tokens.any fun t => t.space == accessSpace && t.id == l.tokenId then c
  else { c with tokens := c.tokens ++ [⟨accessSpace, l.tokenId, l.token⟩] }

/-- Makes sure that all levels have their tokens. -/
def withTokens (c : Catalog) : Catalog := AccessLevel.all.foldl addToken c

end Catalog

end CatalogQuery
