import CatalogQuery.Error
import CatalogQuery.Number.Word
import CatalogQuery.Page.Buffer

/-!
# Pages

A page holds rows of text, one buffer per column. A column starts with a least width and grows, with
some headroom, when a value does not fit; the values are laid out anew then. A page may be refused
another row because it would take too many bytes.
-/

namespace CatalogQuery

structure PageSettings where
  /-- The least width of a column that holds a value. -/
  minColumnWidth : Nat := 50
  /-- What is added to the width that a value needs when a column grows. -/
  columnHeadroom : Nat := 50
  maxResultBytes : Option Nat := none
  deriving DecidableEq, Repr

structure Page where
  columns : List ColumnBuffer
  rowCount : Nat
  settings : PageSettings
  deriving DecidableEq, Repr

/-- No buffer can be larger. -/
def maxBufferBytes : Nat := signedBound64 - 1

/-- The refusal of a buffer that would be larger. -/
def bufferTooLarge : QueryError :=
  .resource
    "memory allocation failed because the computed capacity exceeded the collection's maximum"

namespace Page

def empty (columns : List ColumnId) (settings : PageSettings) : Page :=
  ⟨columns.map .empty, 0, settings⟩

def widths (p : Page) : List Nat := p.columns.map (·.width)

def columnIds (p : Page) : List ColumnId := p.columns.map (·.id)

/-- The width for a value that takes `needed` bytes with its end. -/
def widthFor (settings : PageSettings) (current needed : Nat) : Nat :=
  if needed ≤ current then current
  else if current = 0 then max needed settings.minColumnWidth
  else needed + settings.columnHeadroom

/-- Widens the columns for a row, from the left; a column that cannot grow stops it. -/
def widenAll (settings : PageSettings) (rows : Nat) :
    List ColumnBuffer → List String → Except QueryError Unit × List ColumnBuffer
  | [], _ => (.ok (), [])
  | b :: bs, [] => (.ok (), b :: bs)
  | b :: bs, v :: vs =>
    let width := widthFor settings b.width (v.utf8ByteSize + 1)
    if width = b.width then
      let rest := widenAll settings rows bs vs
      (rest.1, b :: rest.2)
    else if maxBufferBytes < width * (rows + 1) then (.error bufferTooLarge, b :: bs)
    else
      let rest := widenAll settings rows bs vs
      (rest.1, b.widen rows width :: rest.2)

/-- A page of `rows` rows does not take more bytes than allowed. -/
def checkCap (settings : PageSettings) (widths : List Nat) (rows : Nat) :
    Except QueryError Unit :=
  match settings.maxResultBytes with
  | none => .ok ()
  | some max =>
    let total := min (widths.foldr (· + ·) 0 * rows) (bound64 - 1)
    if total > max then
      .error (.resource ("page needs " ++ toString total ++ " bytes, cap is " ++ toString max))
    else .ok ()

/-- Writes a row behind the slots, from the left; a column without room for another slot stops it, and
the columns before it keep theirs. -/
def writeAll : List ColumnBuffer → List String → Except QueryError Unit × List ColumnBuffer
  | [], _ => (.ok (), [])
  | b :: bs, [] => (.ok (), b :: bs)
  | b :: bs, v :: vs =>
    if maxBufferBytes < b.bytes.length + b.width then (.error bufferTooLarge, b :: bs)
    else
      let rest := writeAll bs vs
      (rest.1, b.push v :: rest.2)

/-- Adds a row. A refused row leaves the values as they are, but columns may have grown, and some may
hold a slot behind those of the rows. -/
def push (p : Page) (row : List String) : Except QueryError Unit × Page :=
  if row.length ≠ p.columns.length then
    (.error (.backend (.message ("row has " ++ toString row.length ++ " values, expected "
      ++ toString p.columns.length))), p)
  else
    let widened := widenAll p.settings p.rowCount p.columns row
    let q := { p with columns := widened.2 }
    let checked : Except QueryError Unit := do
      widened.1
      checkCap p.settings q.widths (p.rowCount + 1)
    match checked with
    | .error e => (.error e, q)
    | .ok () =>
      match writeAll q.columns row with
      | (.error e, columns) => (.error e, { q with columns := columns })
      | (.ok (), columns) => (.ok (), { q with columns := columns, rowCount := p.rowCount + 1 })

/-- The value in a row and a column. -/
def value? (p : Page) (row column : Nat) : Option String :=
  if row < p.rowCount then p.columns[column]?.bind (·.value? row) else none

def row (p : Page) (row : Nat) : List String := p.columns.map fun b => (b.value? row).getD ""

def rows (p : Page) : List (List String) := (List.range p.rowCount).map p.row

end Page

end CatalogQuery
