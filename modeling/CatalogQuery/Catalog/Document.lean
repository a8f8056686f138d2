import CatalogQuery.Catalog.Database
import CatalogQuery.Json.Printer
import CatalogQuery.Json.Reader

/-!
# Catalogs as documents

The form in which a catalog is kept in a file: a record with the rows of every table, each a list of
its values in the order of the columns.

* `Catalog.decode_encode`: a catalog is read back as it was written.
-/

namespace CatalogQuery

/-- Rows hold integers and texts only. -/
def Value.encode : Value → Data
  | .number (.int n) => .int n
  | .text s => .text s
  | _ => .null

/-- Rows that can be read back. -/
class StoredRow (α : Type) extends Row α where
  read : List Data → Option α
  read_values (a : α) : read ((Row.values a).map Value.encode) = some a

instance : StoredRow Zone where
  read
    | [.int id, .text name] => some ⟨id, name⟩
    | _ => none
  read_values _ := rfl

instance : StoredRow User where
  read
    | [.int id, .text name, .text type, .text zone] => some ⟨id, name, type, zone⟩
    | _ => none
  read_values _ := rfl

instance : StoredRow Membership where
  read
    | [.int group, .int user] => some ⟨group, user⟩
    | _ => none
  read_values _ := rfl

instance : StoredRow Resource where
  read
    | [.int id, .text name, .text zone, .text type, .text location] =>
      some ⟨id, name, zone, type, location⟩
    | _ => none
  read_values _ := rfl

instance : StoredRow Collection where
  read
    | [.int id, .text path, .text parent, .text owner, .text zone] =>
      some ⟨id, path, parent, owner, zone⟩
    | _ => none
  read_values _ := rfl

instance : StoredRow Replica where
  read
    | [.int object, .int collection, .text name, .int number, .text version, .text type, .int size,
        .text resource, .text path, .text owner, .text zone, .text created, .text modified] =>
      some ⟨object, collection, name, number, version, type, size, resource, path, owner, zone,
        created, modified⟩
    | _ => none
  read_values _ := rfl

instance : StoredRow AttributeRow where
  read
    | [.int id, .text name, .text value, .text unit] => some ⟨id, name, value, unit⟩
    | _ => none
  read_values _ := rfl

instance : StoredRow AttributeLink where
  read
    | [.int object, .int metaId] => some ⟨object, metaId⟩
    | _ => none
  read_values _ := rfl

instance : StoredRow Grant where
  read
    | [.int object, .int user, .int token] => some ⟨object, user, token⟩
    | _ => none
  read_values _ := rfl

instance : StoredRow TokenRow where
  read
    | [.text space, .int id, .text name] => some ⟨space, id, name⟩
    | _ => none
  read_values _ := rfl

instance : StoredRow AuditEntry where
  read
    | [.int object, .int user, .int action, .text comment, .text created] =>
      some ⟨object, user, action, comment, created⟩
    | _ => none
  read_values _ := rfl

def encodeRows {α : Type} [StoredRow α] (rows : List α) : Data :=
  .list (rows.map fun a => .list ((Row.values a).map Value.encode))

def decodeRow {α : Type} [StoredRow α] : Data → Option α
  | .list values => StoredRow.read values
  | _ => none

def decodeRows {α : Type} [StoredRow α] : Data → Option (List α)
  | .list rows => rows.mapM decodeRow
  | _ => none

theorem decodeRows_encodeRows {α : Type} [StoredRow α] (rows : List α) :
    decodeRows (encodeRows rows) = some rows := by
  simp only [encodeRows, decodeRows]
  induction rows with
  | nil => rfl
  | cons a as ih => simp [decodeRow, StoredRow.read_values, ih]

namespace Catalog

def encode (c : Catalog) : Data :=
  .list [encodeRows c.zones, encodeRows c.users, encodeRows c.memberships, encodeRows c.resources,
    encodeRows c.collections, encodeRows c.replicas, encodeRows c.attributeRows,
    encodeRows c.attributeLinks, encodeRows c.grants, encodeRows c.tokens, encodeRows c.audit]

def decode : Data → Option Catalog
  | .list [zones, users, memberships, resources, collections, replicas, attributeRows,
      attributeLinks, grants, tokens, audit] => do
    return ⟨← decodeRows zones, ← decodeRows users, ← decodeRows memberships,
      ← decodeRows resources, ← decodeRows collections, ← decodeRows replicas,
      ← decodeRows attributeRows, ← decodeRows attributeLinks, ← decodeRows grants,
      ← decodeRows tokens, ← decodeRows audit⟩
  | _ => none

theorem decode_encode (c : Catalog) : decode c.encode = some c := by
  simp [encode, decode, decodeRows_encodeRows]

/-- The first line of a file that holds a catalog. -/
def mark : String := "catalog 1\n"

def toText (c : Catalog) : String := mark ++ Json.compact c.encode ++ "\n"

def ofText? (s : String) : Option Catalog := do
  if s.startsWith mark then decode (← Json.read (String.ofList (s.toList.drop mark.length)))
  else none

end Catalog

end CatalogQuery
