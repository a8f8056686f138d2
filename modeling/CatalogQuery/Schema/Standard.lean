import CatalogQuery.Schema.Definition

/-!
# The standard schema

Zones, users, storage resources, collections, data objects, attribute rows of data objects and
collections, access entries with their tokens, and audit rows. The zone table is a cycler: users and
resources both refer to it, and no join passes through it.
-/

namespace CatalogQuery.Standard

def tables : List TableDefinition :=
  [
    ⟨"r_zone_main", "", true⟩,
    ⟨"r_user_main", "", false⟩,
    ⟨"r_resc_main", "", false⟩,
    ⟨"r_coll_main", "", false⟩,
    ⟨"r_data_main", "", false⟩,
    ⟨"r_data_metamap", "r_objt_metamap r_data_metamap", false⟩,
    ⟨"r_data_meta_main", "r_meta_main r_data_meta_main", false⟩,
    ⟨"r_coll_metamap", "r_objt_metamap r_coll_metamap", false⟩,
    ⟨"r_coll_meta_main", "r_meta_main r_coll_meta_main", false⟩,
    ⟨"r_data_access", "r_objt_access r_data_access", false⟩,
    ⟨"r_data_tokn_main", "r_tokn_main r_data_tokn_main", false⟩,
    ⟨"r_objt_audit", "", false⟩]

def columns : List ColumnDefinition :=
  [
    ⟨⟨101⟩, "r_zone_main", "zone_id"⟩,
    ⟨⟨102⟩, "r_zone_main", "zone_name"⟩,
    ⟨⟨201⟩, "r_user_main", "user_id"⟩,
    ⟨⟨202⟩, "r_user_main", "user_name"⟩,
    ⟨⟨203⟩, "r_user_main", "user_type_name"⟩,
    ⟨⟨204⟩, "r_user_main", "zone_name"⟩,
    ⟨⟨301⟩, "r_resc_main", "resc_id"⟩,
    ⟨⟨302⟩, "r_resc_main", "resc_name"⟩,
    ⟨⟨303⟩, "r_resc_main", "zone_name"⟩,
    ⟨⟨304⟩, "r_resc_main", "resc_type_name"⟩,
    ⟨⟨305⟩, "r_resc_main", "resc_loc"⟩,
    ⟨⟨401⟩, "r_data_main", "data_id"⟩,
    ⟨⟨402⟩, "r_data_main", "coll_id"⟩,
    ⟨⟨403⟩, "r_data_main", "data_name"⟩,
    ⟨⟨404⟩, "r_data_main", "data_repl_num"⟩,
    ⟨⟨405⟩, "r_data_main", "data_version"⟩,
    ⟨⟨406⟩, "r_data_main", "data_type_name"⟩,
    ⟨⟨407⟩, "r_data_main", "data_size"⟩,
    ⟨⟨409⟩, "r_data_main", "resc_name"⟩,
    ⟨⟨410⟩, "r_data_main", "data_path"⟩,
    ⟨⟨411⟩, "r_data_main", "data_owner_name"⟩,
    ⟨⟨412⟩, "r_data_main", "data_owner_zone"⟩,
    ⟨⟨419⟩, "r_data_main", "create_ts"⟩,
    ⟨⟨420⟩, "r_data_main", "modify_ts"⟩,
    ⟨⟨500⟩, "r_coll_main", "coll_id"⟩,
    ⟨⟨501⟩, "r_coll_main", "coll_name"⟩,
    ⟨⟨502⟩, "r_coll_main", "parent_coll_name"⟩,
    ⟨⟨503⟩, "r_coll_main", "coll_owner_name"⟩,
    ⟨⟨504⟩, "r_coll_main", "coll_owner_zone"⟩,
    ⟨⟨600⟩, "r_data_meta_main", "meta_attr_name"⟩,
    ⟨⟨601⟩, "r_data_meta_main", "meta_attr_value"⟩,
    ⟨⟨602⟩, "r_data_meta_main", "meta_attr_unit"⟩,
    ⟨⟨603⟩, "r_data_meta_main", "meta_id"⟩,
    ⟨⟨610⟩, "r_coll_meta_main", "meta_attr_name"⟩,
    ⟨⟨611⟩, "r_coll_meta_main", "meta_attr_value"⟩,
    ⟨⟨612⟩, "r_coll_meta_main", "meta_attr_unit"⟩,
    ⟨⟨700⟩, "r_data_access", "access_type_id"⟩,
    ⟨⟨701⟩, "r_data_tokn_main", "token_name"⟩,
    ⟨⟨702⟩, "r_data_tokn_main", "token_namespace"⟩,
    ⟨⟨703⟩, "r_data_access", "user_id"⟩,
    ⟨⟨704⟩, "r_data_access", "object_id"⟩,
    ⟨⟨1000⟩, "r_objt_audit", "object_id"⟩,
    ⟨⟨1001⟩, "r_objt_audit", "user_id"⟩,
    ⟨⟨1002⟩, "r_objt_audit", "action_id"⟩,
    ⟨⟨1003⟩, "r_objt_audit", "r_comment"⟩,
    ⟨⟨1004⟩, "r_objt_audit", "create_ts"⟩]

/-- The order of links is the order in which joins try them: from a data object the resource comes
before the access entries, so that a zone is reached through the resource. -/
def links : List LinkDefinition :=
  [
    ⟨"r_coll_main", "r_data_main", "r_coll_main.coll_id = r_data_main.coll_id"⟩,
    ⟨"r_data_main", "r_data_metamap", "r_data_main.data_id = r_data_metamap.object_id"⟩,
    ⟨"r_data_metamap", "r_data_meta_main", "r_data_metamap.meta_id = r_data_meta_main.meta_id"⟩,
    ⟨"r_coll_main", "r_coll_metamap", "r_coll_main.coll_id = r_coll_metamap.object_id"⟩,
    ⟨"r_coll_metamap", "r_coll_meta_main", "r_coll_metamap.meta_id = r_coll_meta_main.meta_id"⟩,
    ⟨"r_data_main", "r_resc_main", "r_data_main.resc_name = r_resc_main.resc_name"⟩,
    ⟨"r_resc_main", "r_zone_main", "r_resc_main.zone_name = r_zone_main.zone_name"⟩,
    ⟨"r_user_main", "r_zone_main", "r_user_main.zone_name = r_zone_main.zone_name"⟩,
    ⟨"r_data_main", "r_data_access", "r_data_main.data_id = r_data_access.object_id"⟩,
    ⟨"r_data_access", "r_data_tokn_main",
      "r_data_access.access_type_id = r_data_tokn_main.token_id"⟩,
    ⟨"r_data_access", "r_user_main", "r_data_access.user_id = r_user_main.user_id"⟩,
    ⟨"r_data_main", "r_objt_audit", "r_data_main.data_id = r_objt_audit.object_id"⟩]

/-- Attributes hang on objects through the map of object and attribute rows. -/
def layout (nameColumn valueColumn : Nat)
    (mapBinding metaBinding objectTable objectIdColumn : String) : AttributeJoin where
  nameColumn := ⟨nameColumn⟩
  valueColumn := ⟨valueColumn⟩
  mapTable := "r_objt_metamap"
  mapBinding := mapBinding
  metaTable := "r_meta_main"
  metaBinding := metaBinding
  metaKey := "meta_id"
  mapObjectColumn := "object_id"
  objectTable := objectTable
  objectIdColumn := objectIdColumn

def conventions : Conventions where
  canonicalOrder := [⟨501⟩, ⟨403⟩, ⟨404⟩]
  restrictedColumns := [⟨1000, 1099⟩]
  attributeJoins :=
    [layout 600 601 "r_data_metamap" "r_data_meta_main" "r_data_main" "data_id",
      layout 610 611 "r_coll_metamap" "r_coll_meta_main" "r_coll_main" "coll_id"]
  protectedTables := [⟨"r_data_main", "data_id"⟩, ⟨"r_coll_main", "coll_id"⟩]
  grantChain := .standard
  objectIdColumns := [⟨401⟩, ⟨500⟩]

def definition : Definition := ⟨{}, tables, columns, links, conventions⟩

def schema : Except QueryError Schema := definition.build

end CatalogQuery.Standard
