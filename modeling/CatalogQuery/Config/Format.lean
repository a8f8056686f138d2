import CatalogQuery.Config.Basic
import CatalogQuery.Data.Decode

/-!
# Configurations as structured data

Every field has a default. How a plain case may be written as a record depends on the notation, so
that the readers of choices take the test for an empty value.
-/

namespace CatalogQuery

open Data Sql

namespace Sql

def Pagination.name : Pagination → String
  | .offsetBind => "offset_bind"
  | .limitComma => "limit_comma"
  | .manual => "manual"

def Pagination.decode (isUnit : Data → Bool) : Decoder Pagination :=
  asCaseOf isUnit
    ([Pagination.offsetBind, .limitComma, .manual].map fun p => (p.name, p))

def Dialect.decode (isUnit : Data → Bool) : Decoder Dialect := fun d => do
  let f ← Fields.read
    ["name", "length_function", "pagination", "unbounded_limit", "count_query"] d
  return ⟨← f.need "name" asText, ← f.need "length_function" asText,
    ← f.need "pagination" (Pagination.decode isUnit), ← f.need "unbounded_limit" asText,
    ← f.need "count_query" asBool⟩

def Dialect.encode (d : Dialect) : Data :=
  .record [("name", .text d.name), ("length_function", .text d.lengthFunction),
    ("pagination", .text d.pagination.name), ("unbounded_limit", .text d.unboundedLimit),
    ("count_query", .bool d.countQuery)]

end Sql

def DialectChoice.decode (isUnit : Data → Bool) : Decoder DialectChoice := fun d => do
  let f ← Fields.read ["preset", "length_function", "pagination", "count_query"] d
  let c : DialectChoice := {}
  return {
    preset := ← f.withDefault "preset" c.preset asText
    lengthFunction := ← f.withDefault "length_function" none (asOption asText)
    pagination := ← f.withDefault "pagination" none (asOption (Pagination.decode isUnit))
    countQuery := ← f.withDefault "count_query" none (asOption asBool) }

def AccessSettings.decode : Decoder AccessSettings := fun d => do
  let f ← Fields.read ["strict", "anonymous_user", "local_zone"] d
  let a : AccessSettings := {}
  return {
    strict := ← f.withDefault "strict" a.strict asBool
    anonymousUser := ← f.withDefault "anonymous_user" a.anonymousUser asText
    localZone := ← f.withDefault "local_zone" a.localZone asText }

def PageSettings.decode : Decoder PageSettings := fun d => do
  let f ← Fields.read ["min_column_width", "column_headroom", "max_result_bytes"] d
  let p : PageSettings := {}
  return {
    minColumnWidth := ← f.withDefault "min_column_width" p.minColumnWidth asWord64
    columnHeadroom := ← f.withDefault "column_headroom" p.columnHeadroom asWord64
    maxResultBytes := ← f.withDefault "max_result_bytes" none (asOption asWord64) }

def Config.decode (isUnit : Data → Bool) : Decoder Config := fun d => do
  let f ← Fields.read ["dialect", "access", "results", "log_sql", "schema"] d
  return {
    dialect := ← f.withDefault "dialect" {} (DialectChoice.decode isUnit)
    access := ← f.withDefault "access" {} AccessSettings.decode
    pages := ← f.withDefault "results" {} PageSettings.decode
    logSql := ← f.withDefault "log_sql" false asBool
    schemaPath := ← f.withDefault "schema" none (asOption asText) }

/-! ## Writing -/

/-- A field that is left out where there is no value. -/
def optionalField {α : Type} (name : String) (f : α → Data) : Option α → List (String × Data)
  | none => []
  | some a => [(name, f a)]

def DialectChoice.encode (c : DialectChoice) : Data :=
  .record ([("preset", .text c.preset)]
    ++ optionalField "length_function" .text c.lengthFunction
    ++ optionalField "pagination" (fun p => .text p.name) c.pagination
    ++ optionalField "count_query" .bool c.countQuery)

def AccessSettings.encode (a : AccessSettings) : Data :=
  .record [("strict", .bool a.strict), ("anonymous_user", .text a.anonymousUser),
    ("local_zone", .text a.localZone)]

def PageSettings.encode (p : PageSettings) : Data :=
  .record [("min_column_width", .nat p.minColumnWidth),
    ("column_headroom", .nat p.columnHeadroom),
    ("max_result_bytes", Data.option .nat p.maxResultBytes)]

def Config.encode (c : Config) : Data :=
  .record ([("dialect", c.dialect.encode), ("access", c.access.encode),
      ("results", c.pages.encode), ("log_sql", .bool c.logSql)]
    ++ optionalField "schema" .text c.schemaPath)

end CatalogQuery
