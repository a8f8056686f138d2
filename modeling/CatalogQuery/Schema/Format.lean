import CatalogQuery.Data.Decode
import CatalogQuery.Schema.Definition

/-!
# Definitions as structured data

How definitions and conventions are read from and written to records. Limits, tables and so on may
all be missing from a definition; the parts of a layout may not.
-/

namespace CatalogQuery

open Data

/-! ## Reading -/

def ColumnId.decode : Decoder ColumnId := fun d => (asWord32 d).map ColumnId.mk

def ColumnRange.decode : Decoder ColumnRange := fun d => do
  let f ← Fields.read ["start", "end"] d
  return ⟨← f.need "start" asWord32, ← f.need "end" asWord32⟩

def AttributeJoin.fieldNames : List String :=
  ["name_column", "value_column", "map_table", "map_binding", "meta_table", "meta_binding",
    "meta_key", "map_object_column", "object_table", "object_id_column"]

def AttributeJoin.decode : Decoder AttributeJoin := fun d => do
  let f ← Fields.read fieldNames d
  return {
    nameColumn := ← f.need "name_column" ColumnId.decode
    valueColumn := ← f.need "value_column" ColumnId.decode
    mapTable := ← f.need "map_table" asText
    mapBinding := ← f.need "map_binding" asText
    metaTable := ← f.need "meta_table" asText
    metaBinding := ← f.need "meta_binding" asText
    metaKey := ← f.need "meta_key" asText
    mapObjectColumn := ← f.need "map_object_column" asText
    objectTable := ← f.need "object_table" asText
    objectIdColumn := ← f.need "object_id_column" asText }

def ProtectedTable.decode : Decoder ProtectedTable := fun d => do
  let f ← Fields.read ["table", "id_column"] d
  return ⟨← f.need "table" asText, ← f.need "id_column" asText⟩

def GrantChain.fieldNames : List String :=
  ["access_table", "group_table", "user_table", "token_table", "group_type_name",
    "token_namespace", "read_token"]

def GrantChain.decode : Decoder GrantChain := fun d => do
  let f ← Fields.read fieldNames d
  let s := standard
  return {
    accessTable := ← f.withDefault "access_table" s.accessTable asText
    groupTable := ← f.withDefault "group_table" s.groupTable asText
    userTable := ← f.withDefault "user_table" s.userTable asText
    tokenTable := ← f.withDefault "token_table" s.tokenTable asText
    groupTypeName := ← f.withDefault "group_type_name" s.groupTypeName asText
    tokenNamespace := ← f.withDefault "token_namespace" s.tokenNamespace asText
    readToken := ← f.withDefault "read_token" s.readToken asText }

def Conventions.fieldNames : List String :=
  ["canonical_order", "restricted_columns", "attribute_joins", "protected_tables", "grant_chain",
    "object_id_columns"]

def Conventions.decode : Decoder Conventions := fun d => do
  let f ← Fields.read fieldNames d
  return {
    canonicalOrder := ← f.withDefault "canonical_order" [] (asList ColumnId.decode)
    restrictedColumns := ← f.withDefault "restricted_columns" [] (asList ColumnRange.decode)
    attributeJoins := ← f.withDefault "attribute_joins" [] (asList AttributeJoin.decode)
    protectedTables := ← f.withDefault "protected_tables" [] (asList ProtectedTable.decode)
    grantChain := ← f.withDefault "grant_chain" .standard GrantChain.decode
    objectIdColumns := ← f.withDefault "object_id_columns" [] (asList ColumnId.decode) }

def Limits.decode : Decoder Limits := fun d => do
  let f ← Fields.read ["max_tables", "max_columns", "max_links"] d
  return ⟨← f.optional "max_tables" asWord64, ← f.optional "max_columns" asWord64,
    ← f.optional "max_links" asWord64⟩

def TableDefinition.decode : Decoder TableDefinition := fun d => do
  let f ← Fields.read ["name", "alias", "cycler"] d
  return ⟨← f.need "name" asText, ← f.withDefault "alias" "" asText,
    ← f.withDefault "cycler" false asBool⟩

def ColumnDefinition.decode : Decoder ColumnDefinition := fun d => do
  let f ← Fields.read ["id", "table", "name"] d
  return ⟨← f.need "id" ColumnId.decode, ← f.need "table" asText, ← f.need "name" asText⟩

def LinkDefinition.decode : Decoder LinkDefinition := fun d => do
  let f ← Fields.read ["left", "right", "predicate"] d
  return ⟨← f.need "left" asText, ← f.need "right" asText, ← f.need "predicate" asText⟩

def Definition.decode : Decoder Definition := fun d => do
  let f ← Fields.read ["limits", "tables", "columns", "links", "conventions"] d
  return {
    limits := ← f.withDefault "limits" {} Limits.decode
    tables := ← f.withDefault "tables" [] (asList TableDefinition.decode)
    columns := ← f.withDefault "columns" [] (asList ColumnDefinition.decode)
    links := ← f.withDefault "links" [] (asList LinkDefinition.decode)
    conventions := ← f.withDefault "conventions" .blank Conventions.decode }

/-! ## Writing -/

def ColumnId.encode (c : ColumnId) : Data := .nat c.number

def ColumnRange.encode (r : ColumnRange) : Data :=
  .record [("start", .nat r.first), ("end", .nat r.last)]

def AttributeJoin.encode (j : AttributeJoin) : Data :=
  .record [("name_column", j.nameColumn.encode), ("value_column", j.valueColumn.encode),
    ("map_table", .text j.mapTable), ("map_binding", .text j.mapBinding),
    ("meta_table", .text j.metaTable), ("meta_binding", .text j.metaBinding),
    ("meta_key", .text j.metaKey), ("map_object_column", .text j.mapObjectColumn),
    ("object_table", .text j.objectTable), ("object_id_column", .text j.objectIdColumn)]

def ProtectedTable.encode (p : ProtectedTable) : Data :=
  .record [("table", .text p.table), ("id_column", .text p.idColumn)]

def GrantChain.encode (g : GrantChain) : Data :=
  .record [("access_table", .text g.accessTable), ("group_table", .text g.groupTable),
    ("user_table", .text g.userTable), ("token_table", .text g.tokenTable),
    ("group_type_name", .text g.groupTypeName), ("token_namespace", .text g.tokenNamespace),
    ("read_token", .text g.readToken)]

def Conventions.encode (c : Conventions) : Data :=
  .record [("canonical_order", .list (c.canonicalOrder.map (·.encode))),
    ("restricted_columns", .list (c.restrictedColumns.map (·.encode))),
    ("attribute_joins", .list (c.attributeJoins.map (·.encode))),
    ("protected_tables", .list (c.protectedTables.map (·.encode))),
    ("grant_chain", c.grantChain.encode),
    ("object_id_columns", .list (c.objectIdColumns.map (·.encode)))]

def Limits.encode (l : Limits) : Data :=
  .record [("max_tables", Data.option .nat l.maxTables),
    ("max_columns", Data.option .nat l.maxColumns), ("max_links", Data.option .nat l.maxLinks)]

/-- An empty source is left out. -/
def TableDefinition.encode (t : TableDefinition) : Data :=
  .record ([("name", .text t.name)] ++ (if t.source.isEmpty then [] else [("alias", .text t.source)])
    ++ [("cycler", .bool t.cycler)])

def ColumnDefinition.encode (c : ColumnDefinition) : Data :=
  .record [("id", c.id.encode), ("table", .text c.table), ("name", .text c.name)]

def LinkDefinition.encode (l : LinkDefinition) : Data :=
  .record [("left", .text l.left), ("right", .text l.right), ("predicate", .text l.predicate)]

def Definition.encode (d : Definition) : Data :=
  .record [("limits", d.limits.encode), ("tables", .list (d.tables.map (·.encode))),
    ("columns", .list (d.columns.map (·.encode))), ("links", .list (d.links.map (·.encode))),
    ("conventions", d.conventions.encode)]

end CatalogQuery
