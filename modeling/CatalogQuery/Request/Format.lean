import CatalogQuery.Data.Decode
import CatalogQuery.Json.Reader
import CatalogQuery.Request.Basic
import CatalogQuery.Schema.Format

/-!
# Requests as structured data

Every field of a request has a default.
-/

namespace CatalogQuery

open Data

def Aggregation.decode : Decoder Aggregation :=
  asCaseOf isNull (all.map fun a => (a.name, a))

def SortOrder.decode : Decoder SortOrder :=
  asCaseOf isNull (all.map fun a => (a.name, a))

def Privilege.decode : Decoder Privilege :=
  asCaseOf isNull (all.map fun a => (a.name, a))

def AccessLevel.decode : Decoder AccessLevel :=
  asCaseOf isNull (all.map fun a => (a.name, a))

def Continuation.decode : Decoder Continuation := fun d => (asWord64 d).map Continuation.mk

def SelectColumn.decode : Decoder SelectColumn := fun d => do
  let f ← Fields.read ["column", "aggregate", "order"] d
  return ⟨← f.need "column" ColumnId.decode, ← f.withDefault "aggregate" .none Aggregation.decode,
    ← f.withDefault "order" .none SortOrder.decode⟩

def RequestCondition.decode : Decoder RequestCondition := fun d => do
  let f ← Fields.read ["column", "expression"] d
  return ⟨← f.need "column" ColumnId.decode, ← f.need "expression" asText⟩

def RowCheck.decode : Decoder RowCheck := fun d => do
  let f ← Fields.read ["user", "zone", "level"] d
  return ⟨← f.withDefault "user" "" asText, ← f.withDefault "zone" "" asText,
    ← f.withDefault "level" .read AccessLevel.decode⟩

def Caller.decode : Decoder Caller := fun d => do
  let f ← Fields.read ["user", "zone", "privilege"] d
  return ⟨← f.need "user" asText, ← f.need "zone" asText, ← f.need "privilege" Privilege.decode⟩

def Request.fieldNames : List String :=
  ["select", "conditions", "offset", "max_rows", "continuation", "total_count",
    "permission_check"]

def Request.decode : Decoder Request := fun d => do
  let f ← Fields.read fieldNames d
  let r : Request := {}
  return {
    select := ← f.withDefault "select" r.select (asList SelectColumn.decode)
    conditions := ← f.withDefault "conditions" r.conditions (asList RequestCondition.decode)
    offset := ← f.withDefault "offset" r.offset asWord64
    maxRows := ← f.withDefault "max_rows" r.maxRows asInt64
    continuation := ← f.withDefault "continuation" r.continuation Continuation.decode
    totalCount := ← f.withDefault "total_count" r.totalCount asBool
    rowCheck := ← f.withDefault "permission_check" r.rowCheck (asOption RowCheck.decode) }

/-- Reads a request from a JSON text. -/
def Request.ofJson? (text : String) : Option Request := (Json.read text).bind decode

end CatalogQuery
