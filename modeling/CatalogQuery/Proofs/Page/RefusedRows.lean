import CatalogQuery.Proofs.Page.ReadBack

/-!
# Pages after refused rows

A row may be refused after some columns have grown for it, and even after some have got a slot for it.
A slot of a refused row stays behind those of the rows. No later row comes to stand behind it: the
column without room that stopped the row is in the way of every other row, however the columns grow.

* `Page.Full`, `Page.Full.not_added`: a page with such a column takes no row;
* `Page.Stores`: a page keeps its rows, and has nothing behind them while it takes others;
* `Page.Stores.refused`, `Page.Stores.added`: what one push does, with `Page.Stores.offerAll` for many;
* `Page.accepted_rows_read_back`: pages give back the accepted rows, whatever was refused in between.
-/

namespace CatalogQuery

open ColumnBuffer (Widened Written)

namespace Page

variable {p q : Page} {rows : List (List String)} {row : List String} {e : QueryError}
  {out : Except QueryError Unit}

/-! ## Full pages -/

/-- Some column has no room for a slot more than there are rows. -/
def Full (p : Page) : Prop := ∃ b ∈ p.columns, maxBufferBytes < (p.rowCount + 1) * b.width

theorem Full.replaced {columns : List ColumnBuffer} (hp : p.Full)
    (h : List.Forall₂ (fun b b' => b.width ≤ b'.width) p.columns columns) :
    Full { p with columns := columns } := by
  obtain ⟨b, hb, hwide⟩ := hp
  obtain ⟨b', hb', hle⟩ := exists_right_of_forall₂ h hb
  exact ⟨b', hb', Nat.lt_of_lt_of_le hwide (Nat.mul_le_mul_left _ hle)⟩

theorem Full.widened {columns : List ColumnBuffer} (hp : p.Full)
    (h : List.Forall₂ (Widened p.rowCount) p.columns columns) :
    Full { p with columns := columns } :=
  hp.replaced (h.imp fun _ _ hb => hb.1)

theorem Full.written {columns : List ColumnBuffer} (hp : p.Full)
    (h : List.Forall₂ Written p.columns columns) : Full { p with columns := columns } :=
  hp.replaced (h.imp fun _ _ hb => Nat.le_of_eq hb.width_eq.symm)

/-- The slots of the rows alone fill such a column. -/
theorem Full.not_added (hp : p.Keeps rows) (hfull : p.Full) : ¬Pushed p row (.ok ()) q := by
  intro h
  cases h with
  | added hlen hwidened hfits hcap hroom =>
    obtain ⟨b, hb, hwide⟩ := hfull.widened hwidened
    obtain ⟨j, hj⟩ := List.getElem?_of_mem hb
    have hkeeps := (hp.widened hwidened ColumnBuffer.Widened.keeps).columns j b hj
    have hbytes := hkeeps.le_length_bytes
    rw [List.length_map, ← hp.count] at hbytes
    have hfree := hroom b hb
    have hnone : maxBufferBytes < (p.rowCount + 1) * b.width := hwide
    rw [Nat.succ_mul] at hnone
    omega

/-- A column that holds the rows and has no room for another slot makes the page full. -/
theorem Holds.full (hp : p.Holds rows)
    (h : ∃ b ∈ p.columns, maxBufferBytes < b.bytes.length + b.width) : p.Full := by
  obtain ⟨b, hb, hwide⟩ := h
  obtain ⟨j, hj⟩ := List.getElem?_of_mem hb
  refine ⟨b, hb, ?_⟩
  rwa [(hp.columns j b hj).length_bytes, List.length_map, ← hp.count, ← Nat.succ_mul] at hwide

/-! ## Pushes -/

/-- The page begins with the rows; where something stands behind them, it takes no other rows. -/
structure Stores (p : Page) (rows : List (List String)) : Prop where
  keeps : p.Keeps rows
  holds_or_full : p.Holds rows ∨ p.Full

theorem stores_empty (columns : List ColumnId) (settings : PageSettings) :
    (empty columns settings).Stores [] :=
  ⟨(holds_empty columns settings).keeps, .inl (holds_empty columns settings)⟩

theorem Stores.refused (hp : p.Stores rows) (h : Pushed p row (.error e) q) : q.Stores rows := by
  cases h with
  | misfit => exact hp
  | tooLarge message hlen hwidened =>
    refine ⟨hp.keeps.widened hwidened ColumnBuffer.Widened.keeps, ?_⟩
    rcases hp.holds_or_full with hholds | hfull
    · exact .inl (hholds.widened hwidened ColumnBuffer.Widened.holds)
    · exact .inr (hfull.widened hwidened)
  | cutOff hlen hwidened hwritten hnone =>
    have hwide := hp.keeps.widened hwidened ColumnBuffer.Widened.keeps
    refine ⟨hwide.replaced hwritten fun _ => ColumnBuffer.Written.keeps, .inr ?_⟩
    rcases hp.holds_or_full with hholds | hfull
    · have hwideHolds : Holds _ rows := hholds.widened hwidened ColumnBuffer.Widened.holds
      exact (hwideHolds.full hnone).written hwritten
    · exact (hfull.widened hwidened).written hwritten

theorem Stores.added (hp : p.Stores rows) (h : Pushed p row (.ok ()) q) :
    q.Stores (rows ++ [row]) := by
  rcases hp.holds_or_full with hholds | hfull
  · cases h with
    | added hlen hwidened hfits =>
      have hadded := hholds.added hlen hwidened hfits
      exact ⟨hadded.keeps, .inl hadded⟩
  · exact absurd h (hfull.not_added hp.keeps)

theorem widths_written {columns written : List ColumnBuffer}
    (h : List.Forall₂ Written columns written) : written.map (·.width) = columns.map (·.width) := by
  induction h with
  | nil => rfl
  | cons hb _ ih => rw [List.map_cons, List.map_cons, hb.width_eq, ih]

theorem widths_added {columns : List ColumnBuffer} (hlen : row.length = columns.length) :
    (columns.zipWith ColumnBuffer.push row).map (·.width) = columns.map (·.width) :=
  List.ext_getElem (by simp [hlen]) fun i hi hi' => by simp [ColumnBuffer.push]

/-- No column becomes narrower. -/
theorem Pushed.widths_le (h : Pushed p row out q) : List.Forall₂ (· ≤ ·) p.widths q.widths := by
  have hwide : ∀ {columns : List ColumnBuffer},
      List.Forall₂ (Widened p.rowCount) p.columns columns →
      List.Forall₂ (· ≤ ·) p.widths (columns.map (·.width)) := fun hwidened =>
    List.forall₂_map_left_iff.mpr (List.forall₂_map_right_iff.mpr (hwidened.imp fun _ _ hb => hb.1))
  cases h with
  | misfit => exact List.forall₂_same.mpr fun _ _ => Nat.le_refl _
  | tooLarge message hlen hwidened => exact hwide hwidened
  | cutOff hlen hwidened hwritten =>
    have hle := hwide hwidened
    rwa [← widths_written hwritten] at hle
  | added hlen hwidened =>
    have hle := hwide hwidened
    rwa [← widths_added (hlen.trans hwidened.length_eq)] at hle

theorem Pushed.settings_eq (h : Pushed p row out q) : q.settings = p.settings := by
  cases h <;> rfl

/-- A page that took a row is not larger than allowed. The product is compared as a word; one that is
no word counts as the largest. -/
theorem Pushed.capped {cap : Nat} (h : Pushed p row (.ok ()) q)
    (hcap : p.settings.maxResultBytes = some cap) :
    min (q.rowCount * q.widths.sum) (bound64 - 1) ≤ cap := by
  cases h with
  | added hlen hwidened hfits hallowed =>
    have hle := checkCap_ok hallowed hcap
    rwa [← widths_added (hlen.trans hwidened.length_eq)] at hle

/-! ## Many pushes -/

/-- Pushes rows, whether or not some are refused: the accepted rows, and the page after all. -/
def offerAll : Page → List (List String) → List (List String) × Page
  | p, [] => ([], p)
  | p, row :: rows =>
    match p.push row with
    | (.ok (), p) =>
      let rest := offerAll p rows
      (row :: rest.1, rest.2)
    | (.error _, p) => offerAll p rows

theorem Stores.offerAll {done : List (List String)} (hp : p.Stores done)
    (offers : List (List String)) :
    (p.offerAll offers).2.Stores (done ++ (p.offerAll offers).1) ∧
      (p.offerAll offers).2.settings = p.settings := by
  induction offers generalizing p done with
  | nil => simpa [Page.offerAll] using hp
  | cons row offers ih =>
    simp only [Page.offerAll]
    split
    · next q hpush =>
      have hpushed := pushed_of_eq hpush
      obtain ⟨hstores, hsettings⟩ := ih (hp.added hpushed)
      exact ⟨by simpa using hstores, hsettings.trans hpushed.settings_eq⟩
    · next e q hpush =>
      have hpushed := pushed_of_eq hpush
      obtain ⟨hstores, hsettings⟩ := ih (hp.refused hpushed)
      exact ⟨hstores, hsettings.trans hpushed.settings_eq⟩

/-! ## What is read -/

/-- Reading the page gives the rows, and their values are in the slots where they are looked for. -/
structure ReadsBack (p : Page) (rows : List (List String)) : Prop where
  rows_eq : p.rows = rows
  count : p.rowCount = rows.length
  /-- Outside of the rows and columns there is no value. -/
  value?_eq : ∀ i j, p.value? i j = rows[i]?.bind (·[j]?)
  /-- Each value fits its column with its end, and the slot of row `i` is at `i` times the width. -/
  slots : ∀ (j : Nat) (b : ColumnBuffer), p.columns[j]? = some b →
    ∀ (i : Nat) (row : List String) (v : String), rows[i]? = some row → row[j]? = some v →
      v.utf8ByteSize + 1 ≤ b.width ∧
      (b.bytes.drop (i * b.width)).take b.width = slot b.width (textBytes v)

theorem Keeps.readsBack (hp : p.Keeps rows) : p.ReadsBack rows where
  rows_eq := hp.rows_eq
  count := hp.count
  value?_eq := hp.value?_eq
  slots := by
    intro j b hb i row v hrow hv
    obtain ⟨hi, rfl⟩ := List.getElem?_eq_some_iff.mp hrow
    have hkeeps := hp.columns j b hb
    have hi' : i < (rows.map fun row => (row[j]?).getD "").length := by simpa using hi
    have hvalue : (rows.map fun row => (row[j]?).getD "")[i] = v := by simp [hv]
    rw [← hvalue]
    exact ⟨hkeeps.fits _ (List.getElem_mem hi'), hkeeps.slot_eq hi'⟩

/-- What a push must not do to a page: lose what is stored, make a column narrower, or take a row for
which there is no room. -/
structure Careful (settings : PageSettings) (p : Page) (out : Except QueryError Unit) (q : Page) :
    Prop where
  refused : ∀ e, out = .error e → q.rowCount = p.rowCount ∧ ∀ i j, q.value? i j = p.value? i j
  wider : List.Forall₂ (· ≤ ·) p.widths q.widths
  /-- Where the bytes of the page are no word, nothing is said about the greatest word as a cap. -/
  capped : out = .ok () → ∀ cap, settings.maxResultBytes = some cap →
    cap < bound64 - 1 ∨ q.rowCount * q.widths.sum < bound64 → q.rowCount * q.widths.sum ≤ cap

theorem Stores.careful (hp : p.Stores rows) (h : Pushed p row out q) :
    Careful p.settings p out q where
  refused := by
    rintro e rfl
    have hq := (hp.refused h).keeps
    exact ⟨hq.count.trans hp.keeps.count.symm,
      fun i j => (hq.value?_eq i j).trans (hp.keeps.value?_eq i j).symm⟩
  wider := h.widths_le
  capped := by
    rintro rfl cap hcap hword
    have hle := h.capped hcap
    omega

/-- After any pushes to an empty page, accepted or refused, reading it gives the accepted rows in their
order; and each further push is careful with them. -/
theorem accepted_rows_read_back (columns : List ColumnId) (settings : PageSettings)
    (offers : List (List String)) :
    ((empty columns settings).offerAll offers).2.ReadsBack
      ((empty columns settings).offerAll offers).1 ∧
    ∀ row, Careful settings ((empty columns settings).offerAll offers).2
      (((empty columns settings).offerAll offers).2.push row).1
      (((empty columns settings).offerAll offers).2.push row).2 := by
  obtain ⟨hstores, hsettings⟩ := (stores_empty columns settings).offerAll offers
  rw [List.nil_append] at hstores
  refine ⟨hstores.keeps.readsBack, fun row => ?_⟩
  have hcareful := hstores.careful (pushed _ row)
  rwa [hsettings] at hcareful

/-- A column that may not grow refuses the long value, and goes on with the next row. -/
example : ((empty [⟨1⟩, ⟨2⟩] { minColumnWidth := 3, columnHeadroom := 2 ^ 63 }).offerAll
    [["a", "\x00"], ["b", "long"], ["", "c"]]).2.rows = [["a", "\x00"], ["", "c"]] := by
  decide +kernel

end Page

end CatalogQuery
