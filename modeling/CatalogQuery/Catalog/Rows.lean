import CatalogQuery.Catalog.Value

/-!
# Rows of a catalog

What a catalog records: zones, users and groups, memberships, resources, collections, replicas of data
objects, attributes with their map to objects, grants with the tokens of their levels, and audit
entries. Every kind of row can be seen as a list of values under named columns.
-/

namespace CatalogQuery

/-- A column with what its values are. -/
abbrev ColumnSpec := String × Affinity

/-- Rows under named columns. -/
structure Relation where
  columns : List ColumnSpec
  rows : List (List Value)
  deriving DecidableEq, Repr

def integers (names : List String) : List ColumnSpec := names.map fun n => (n, .numeric)

def textual (names : List String) : List ColumnSpec := names.map fun n => (n, .text)

/-- How rows are shown. -/
class Row (α : Type) where
  columns : List ColumnSpec
  values : α → List Value

def Relation.of {α : Type} [Row α] (rows : List α) : Relation :=
  ⟨Row.columns α, rows.map Row.values⟩

structure Zone where
  id : Int
  name : String
  deriving DecidableEq, Repr

instance : Row Zone where
  columns := integers ["zone_id"] ++ textual ["zone_name"]
  values z := [.int z.id, .text z.name]

/-- A user, or a group; its type tells them apart. -/
structure User where
  id : Int
  name : String
  type : String
  zone : String
  deriving DecidableEq, Repr

instance : Row User where
  columns := integers ["user_id"] ++ textual ["user_name", "user_type_name", "zone_name"]
  values u := [.int u.id, .text u.name, .text u.type, .text u.zone]

structure Membership where
  group : Int
  user : Int
  deriving DecidableEq, Repr

instance : Row Membership where
  columns := integers ["group_user_id", "user_id"]
  values m := [.int m.group, .int m.user]

structure Resource where
  id : Int
  name : String
  zone : String
  type : String
  location : String
  deriving DecidableEq, Repr

instance : Row Resource where
  columns := integers ["resc_id"] ++ textual ["resc_name", "zone_name", "resc_type_name", "resc_loc"]
  values r := [.int r.id, .text r.name, .text r.zone, .text r.type, .text r.location]

structure Collection where
  id : Int
  path : String
  parent : String
  owner : String
  zone : String
  deriving DecidableEq, Repr

instance : Row Collection where
  columns := integers ["coll_id"]
    ++ textual ["coll_name", "parent_coll_name", "coll_owner_name", "coll_owner_zone"]
  values c := [.int c.id, .text c.path, .text c.parent, .text c.owner, .text c.zone]

/-- A replica of a data object. Replicas of one object share its id. -/
structure Replica where
  object : Int
  collection : Int
  name : String
  number : Int
  version : String := ""
  type : String := "generic"
  size : Int
  resource : String
  path : String
  owner : String
  zone : String
  created : String
  modified : String
  deriving DecidableEq, Repr

instance : Row Replica where
  columns := integers ["data_id", "coll_id"] ++ textual ["data_name"] ++ integers ["data_repl_num"]
    ++ textual ["data_version", "data_type_name"] ++ integers ["data_size"]
    ++ textual ["resc_name", "data_path", "data_owner_name", "data_owner_zone", "create_ts",
      "modify_ts"]
  values d := [.int d.object, .int d.collection, .text d.name, .int d.number, .text d.version,
    .text d.type, .int d.size, .text d.resource, .text d.path, .text d.owner, .text d.zone,
    .text d.created, .text d.modified]

/-- An attribute: a name with a value and its unit. -/
structure AttributeRow where
  id : Int
  name : String
  value : String
  unit : String
  deriving DecidableEq, Repr

instance : Row AttributeRow where
  columns := integers ["meta_id"] ++ textual ["meta_attr_name", "meta_attr_value", "meta_attr_unit"]
  values a := [.int a.id, .text a.name, .text a.value, .text a.unit]

/-- The object has the attribute. -/
structure AttributeLink where
  object : Int
  metaId : Int
  deriving DecidableEq, Repr

instance : Row AttributeLink where
  columns := integers ["object_id", "meta_id"]
  values l := [.int l.object, .int l.metaId]

/-- The user or group has access to the object at the level of the token. -/
structure Grant where
  object : Int
  user : Int
  token : Int
  deriving DecidableEq, Repr

instance : Row Grant where
  columns := integers ["object_id", "user_id", "access_type_id"]
  values g := [.int g.object, .int g.user, .int g.token]

structure TokenRow where
  space : String
  id : Int
  name : String
  deriving DecidableEq, Repr

instance : Row TokenRow where
  columns := textual ["token_namespace"] ++ integers ["token_id"] ++ textual ["token_name"]
  values t := [.text t.space, .int t.id, .text t.name]

structure AuditEntry where
  object : Int
  user : Int
  action : Int
  comment : String
  created : String
  deriving DecidableEq, Repr

instance : Row AuditEntry where
  columns := integers ["object_id", "user_id", "action_id"] ++ textual ["r_comment", "create_ts"]
  values a := [.int a.object, .int a.user, .int a.action, .text a.comment, .text a.created]

end CatalogQuery
