import CatalogQuery.Catalog.Database
import CatalogQuery.Text.Cut

/-!
# Filling catalogs

A seeder adds rows to a catalog and gives out ids, one after the other. An id that was given out stays
used, also where the row is refused.
-/

namespace CatalogQuery

/-- A database that is being filled, with the next id. -/
structure Seeder where
  database : Database
  nextId : Int
  deriving Repr

/-- A step of filling. What it changed before it fails stays changed. -/
abbrev Seeding := ExceptT BackendFailure (StateM Seeder)

namespace Seeder

/-- The first id of a seeder. -/
def firstId : Int := 10000

/-- When all rows are said to be added. -/
def timestamp : String := "01700000000"

def start (d : Database) : Seeder := ⟨d, firstId⟩

/-- Gives out an id. -/
def allocate : Seeding Int :=
  modifyGet fun s => (s.nextId, { s with nextId := s.nextId + 1 })

/-- The database with a change of its catalog; without tables the change is refused. -/
def changed (table : String) (f : Catalog → Except Repeated Catalog) :
    Database → Except BackendFailure Database
  | .foreign => .error (.database Database.foreignReason)
  | .blank => .error (.database (Sql.Fault.message "" (.noTable table)))
  | .catalog c =>
    match f c with
    | .ok c => .ok (.catalog c)
    | .error r => .error (.database ("UNIQUE constraint failed: " ++ r.table ++ "." ++ r.column))

/-- Replaces the database, unless that fails. -/
def replace (f : Database → Except BackendFailure Database) : Seeding Unit := do
  let d ← f (← get).database
  modify fun s => { s with database := d }

def change (table : String) (f : Catalog → Except Repeated Catalog) : Seeding Unit :=
  replace (changed table f)

/-- Adds a row with an id of its own, and answers that id. -/
def changeWithId (table : String) (f : Int → Catalog → Except Repeated Catalog) : Seeding Int := do
  let id ← allocate
  change table (f id)
  return id

def create : Seeding Unit := replace Database.create

/-- Does a step: its answer, and the seeder after it. -/
def perform {α : Type} (step : Seeding α) (s : Seeder) : Except BackendFailure α × Seeder :=
  step.run.run s

def zone (name : String) : Seeding Int :=
  changeWithId "r_zone_main" fun id c => c.addZone ⟨id, name⟩

/-- Makes a user a member of a group. -/
def addToGroup (user group : Int) : Seeding Unit :=
  change "r_user_group" fun c => .ok (c.addMembership ⟨group, user⟩)

/-- Adds a user, who is a member of the group that he is himself. -/
def user (name zone type : String) : Seeding Int := do
  let id ← changeWithId "r_user_main" fun id c => c.addUser ⟨id, name, type, zone⟩
  addToGroup id id
  return id

/-- Adds a group. It has no members at first, itself included. -/
def group (name zone : String) : Seeding Int :=
  changeWithId "r_user_main" fun id c => c.addUser ⟨id, name, "rodsgroup", zone⟩

def resource (name zone location : String) : Seeding Int :=
  changeWithId "r_resc_main" fun id c => c.addResource ⟨id, name, zone, "unixfilesystem", location⟩

/-- The path of the parent: what stands before the last slash, the root if that is nothing. -/
def parentPath (path : String) : String :=
  match Text.cutLast '/' path.toList with
  | some (c :: before, _) => String.ofList (c :: before)
  | _ => "/"

def collection (path owner zone : String) : Seeding Int :=
  changeWithId "r_coll_main" fun id c => c.addCollection ⟨id, path, parentPath path, owner, zone⟩

/-- Where the replica of an object is stored. -/
def storagePath (resource collection name : String) : String :=
  "/var/lib/" ++ resource ++ collection ++ "/" ++ name

/-- What is known of a replica before it has a place in the catalog. -/
structure ReplicaSpec where
  collection : Int
  collectionPath : String
  name : String
  resource : String
  owner : String
  zone : String
  size : Int
  deriving DecidableEq, Repr

def ReplicaSpec.row (r : ReplicaSpec) (object number : Int) : Replica where
  object := object
  collection := r.collection
  name := r.name
  number := number
  size := r.size
  resource := r.resource
  path := storagePath r.resource r.collectionPath r.name
  owner := r.owner
  zone := r.zone
  created := timestamp
  modified := timestamp

/-- Adds a replica of an object. -/
def replica (object : Int) (r : ReplicaSpec) (number : Int) : Seeding Unit :=
  change "r_data_main" fun c => .ok (c.addReplica (r.row object number))

/-- Adds a data object with its first replica. -/
def dataObject (r : ReplicaSpec) : Seeding Int :=
  changeWithId "r_data_main" fun id c => .ok (c.addReplica (r.row id 0))

/-- Adds an attribute of an object: its row, then its place in the map. -/
def metadata (object : Int) (name value unit : String) : Seeding Int := do
  let id ← changeWithId "r_meta_main" fun id c => c.addAttributeRow ⟨id, name, value, unit⟩
  change "r_objt_metamap" fun c => .ok (c.addAttributeLink ⟨object, id⟩)
  return id

/-- Gives a user or a group access to an object. -/
def grant (object user : Int) (level : AccessLevel) : Seeding Unit :=
  change "r_objt_access" fun c => .ok (c.addGrant ⟨object, user, level.tokenId⟩)

def audit (object user action : Int) (comment : String) : Seeding Unit :=
  change "r_objt_audit" fun c => .ok (c.addAudit ⟨object, user, action, comment, timestamp⟩)

end Seeder

end CatalogQuery
