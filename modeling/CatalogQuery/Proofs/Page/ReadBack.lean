import Mathlib.Algebra.GroupWithZero.Nat
import CatalogQuery.Page.Basic
import CatalogQuery.Proofs.Fallible
import CatalogQuery.Proofs.Page.Slots
import CatalogQuery.Proofs.SideBySide

/-!
# Pages read back what was pushed

Under a new row the columns are laid out anew, or stay as they are, and then each of them gets a slot.
So a page to which rows were added holds their values, and gives them back as they were.

* `Page.Pushed`: all that can become of a row;
* `Page.Has`, `Page.Holds`: what the columns of a page have;
* `Page.Holds.pushAll`: rows are added at the end;
* `Page.Keeps.value?_eq`, `Page.Keeps.rows_eq`: reading a page gives the rows it has;
* `Page.pushAll_cases`: rows of the right width are refused for lack of room only.
-/

namespace CatalogQuery

open Fallible

namespace ColumnBuffer

/-- A column of a page of `rows` rows under a new row: as it was, or laid out for a greater width. -/
def Widened (rows : Nat) (b b' : ColumnBuffer) : Prop :=
  b.width ≤ b'.width ∧ (b' = b ∨ b' = b.widen rows b'.width)

theorem Widened.refl (rows : Nat) (b : ColumnBuffer) : b.Widened rows b := ⟨Nat.le_refl _, .inl rfl⟩

theorem Widened.keeps {b b' : ColumnBuffer} {values : List String}
    (h : b.Widened values.length b') (hb : b.Keeps values) : b'.Keeps values := by
  obtain ⟨hle, rfl | heq⟩ := h
  · exact hb
  · rw [heq]
    exact hb.widen hle

theorem Widened.holds {b b' : ColumnBuffer} {values : List String}
    (h : b.Widened values.length b') (hb : b.Holds values) : b'.Holds values := by
  obtain ⟨hle, rfl | heq⟩ := h
  · exact hb
  · rw [heq]
    exact hb.widen hle

/-- A column behind which a value may have been written. -/
def Written (b b' : ColumnBuffer) : Prop := b' = b ∨ ∃ v, b' = b.push v

theorem Written.width_eq {b b' : ColumnBuffer} (h : b.Written b') : b'.width = b.width := by
  obtain rfl | ⟨v, rfl⟩ := h <;> rfl

theorem Written.keeps {b b' : ColumnBuffer} {values : List String} (h : b.Written b')
    (hb : b.Keeps values) : b'.Keeps values := by
  obtain rfl | ⟨v, rfl⟩ := h
  · exact hb
  · exact hb.push v

end ColumnBuffer

open ColumnBuffer (Widened Written)

namespace Page

/-! ## Columns under a new row -/

section Columns

variable {settings : PageSettings} {rows : Nat} {bs : List ColumnBuffer} {vs : List String}

/-- The width chosen for a value is enough for it and for those before it. -/
theorem le_widthFor (settings : PageSettings) (current needed : Nat) :
    current ≤ widthFor settings current needed ∧ needed ≤ widthFor settings current needed := by
  unfold widthFor
  split
  · omega
  · split <;> omega

/-- Whether or not all columns can grow, each is laid out anew or stays. -/
theorem widenAll_widened (settings : PageSettings) (rows : Nat) (bs : List ColumnBuffer)
    (vs : List String) : List.Forall₂ (Widened rows) bs (widenAll settings rows bs vs).2 := by
  have stay : ∀ bs : List ColumnBuffer, List.Forall₂ (Widened rows) bs bs :=
    fun bs => List.forall₂_same.mpr fun b _ => .refl rows b
  induction bs generalizing vs with
  | nil => exact .nil
  | cons b bs ih =>
    cases vs with
    | nil => exact stay _
    | cons v vs =>
      have hwide := (le_widthFor settings b.width (v.utf8ByteSize + 1)).1
      simp only [widenAll]
      split
      · exact .cons (.refl rows b) (ih vs)
      · split
        · exact stay _
        · exact .cons ⟨hwide, .inr rfl⟩ (ih vs)

/-- If they all can, each value has room for its end. -/
theorem widenAll_fits (hlen : vs.length = bs.length)
    (h : (widenAll settings rows bs vs).1 = .ok ()) :
    List.Forall₂ (fun b v => (textBytes v).length < b.width) (widenAll settings rows bs vs).2 vs := by
  induction bs generalizing vs with
  | nil =>
    rw [List.length_eq_zero_iff.mp hlen]
    exact .nil
  | cons b bs ih =>
    cases vs with
    | nil => cases hlen
    | cons v vs =>
      have hwide := (le_widthFor settings b.width (v.utf8ByteSize + 1)).2
      have hrest := @ih vs (Nat.succ.inj hlen)
      simp only [widenAll] at h ⊢
      split at h
      · next hsame =>
        rw [if_pos hsame]
        exact .cons (hsame ▸ hwide) (hrest h)
      · next hsame =>
        split at h
        · cases h
        · next hroom =>
          rw [if_neg hsame, if_neg hroom]
          exact .cons hwide (hrest h)

theorem widenAll_refused {e : QueryError} (h : (widenAll settings rows bs vs).1 = .error e) :
    e = bufferTooLarge := by
  induction bs generalizing vs with
  | nil => cases h
  | cons b bs ih =>
    cases vs with
    | nil => cases h
    | cons v vs =>
      simp only [widenAll] at h
      split at h
      · exact ih h
      · split at h
        · cases h
          rfl
        · exact ih h

theorem checkCap_refused {widths : List Nat} {e : QueryError}
    (h : checkCap settings widths rows = .error e) : ∃ message, e = .resource message := by
  unfold checkCap at h
  split at h
  · cases h
  · dsimp only at h
    split at h
    · cases h
      exact ⟨_, rfl⟩
    · cases h

/-- A page that is allowed takes no more bytes than the cap, unless their number is no word. -/
theorem checkCap_ok {widths : List Nat} (h : checkCap settings widths rows = .ok ()) {cap : Nat}
    (hcap : settings.maxResultBytes = some cap) :
    min (rows * widths.sum) (bound64 - 1) ≤ cap := by
  rw [checkCap, hcap] at h
  dsimp only at h
  split at h
  · cases h
  · rw [Nat.mul_comm, List.sum_eq_foldr]
    omega

/-- If every column has room, each gets its slot. -/
theorem writeAll_ok (h : (writeAll bs vs).1 = .ok ()) (hlen : vs.length = bs.length) :
    (writeAll bs vs).2 = bs.zipWith ColumnBuffer.push vs ∧
      ∀ b ∈ bs, b.bytes.length + b.width ≤ maxBufferBytes := by
  induction bs generalizing vs with
  | nil => simp [writeAll]
  | cons b bs ih =>
    cases vs with
    | nil => cases hlen
    | cons v vs =>
      simp only [writeAll] at h ⊢
      split at h
      · cases h
      · next hroom =>
        obtain ⟨hwritten, hrest⟩ := ih h (Nat.succ.inj hlen)
        rw [if_neg hroom, List.zipWith_cons_cons, hwritten]
        exact ⟨rfl, List.forall_mem_cons.mpr ⟨Nat.le_of_not_lt hroom, hrest⟩⟩

/-- Where a column has none, those before it have got their slots already. -/
theorem writeAll_refused {e : QueryError} (h : (writeAll bs vs).1 = .error e) :
    e = bufferTooLarge ∧ List.Forall₂ Written bs (writeAll bs vs).2 ∧
      ∃ b ∈ bs, maxBufferBytes < b.bytes.length + b.width := by
  induction bs generalizing vs with
  | nil => cases h
  | cons b bs ih =>
    cases vs with
    | nil => cases h
    | cons v vs =>
      simp only [writeAll] at h ⊢
      split at h
      · next hroom =>
        rw [if_pos hroom]
        cases h
        exact ⟨rfl, List.forall₂_same.mpr fun _ _ => .inl rfl, b, List.mem_cons_self, hroom⟩
      · next hroom =>
        obtain ⟨rfl, hwritten, b', hb', hfull⟩ := ih h
        rw [if_neg hroom]
        exact ⟨rfl, .cons (.inr ⟨v, rfl⟩) hwritten, b', List.mem_cons_of_mem b hb', hfull⟩

end Columns

/-! ## Pushes -/

/-- What becomes of a row, and of the page. -/
inductive Pushed (p : Page) (row : List String) : Except QueryError Unit → Page → Prop
  /-- The row has another number of values than the page columns. -/
  | misfit (message : String) (hlen : row.length ≠ p.columns.length) :
    Pushed p row (.error (.backend (.message message))) p
  /-- A column cannot grow, or the page would take too many bytes. -/
  | tooLarge (message : String) {columns : List ColumnBuffer} (hlen : row.length = p.columns.length)
    (hwidened : List.Forall₂ (Widened p.rowCount) p.columns columns) :
    Pushed p row (.error (.resource message)) { p with columns := columns }
  /-- A column has no room for another slot. -/
  | cutOff {columns written : List ColumnBuffer} (hlen : row.length = p.columns.length)
    (hwidened : List.Forall₂ (Widened p.rowCount) p.columns columns)
    (hwritten : List.Forall₂ Written columns written)
    (hfull : ∃ b ∈ columns, maxBufferBytes < b.bytes.length + b.width) :
    Pushed p row (.error bufferTooLarge) { p with columns := written }
  /-- The row is added. -/
  | added {columns : List ColumnBuffer} (hlen : row.length = p.columns.length)
    (hwidened : List.Forall₂ (Widened p.rowCount) p.columns columns)
    (hfits : List.Forall₂ (fun b v => (textBytes v).length < b.width) columns row)
    (hcap : checkCap p.settings (columns.map (·.width)) (p.rowCount + 1) = .ok ())
    (hroom : ∀ b ∈ columns, b.bytes.length + b.width ≤ maxBufferBytes) :
    Pushed p row (.ok ()) { p with
      columns := columns.zipWith ColumnBuffer.push row
      rowCount := p.rowCount + 1 }

variable {p p' : Page} {rows done : List (List String)} {row : List String}

theorem pushed (p : Page) (row : List String) : Pushed p row (p.push row).1 (p.push row).2 := by
  unfold push
  split
  · next hlen => exact .misfit _ hlen
  · next hlen =>
    simp only [ne_eq, Decidable.not_not] at hlen
    have hwidened := widenAll_widened p.settings p.rowCount p.columns row
    have hcount := hwidened.length_eq
    dsimp only
    split
    · next e hchecked =>
      rcases bind_eq_error.mp hchecked with hwiden | ⟨-, -, hcap⟩
      · rw [widenAll_refused hwiden]
        exact .tooLarge _ hlen hwidened
      · obtain ⟨message, rfl⟩ := checkCap_refused hcap
        exact .tooLarge _ hlen hwidened
    · next hchecked =>
      obtain ⟨⟨⟩, hwiden, hcap⟩ := bind_eq_ok.mp hchecked
      split
      · next e columns hwrite =>
        obtain ⟨rfl, hwritten, hfull⟩ := writeAll_refused (congrArg Prod.fst hwrite)
        rw [hwrite] at hwritten
        exact .cutOff hlen hwidened hwritten hfull
      · next columns hwrite =>
        obtain ⟨hcolumns, hroom⟩ :=
          writeAll_ok (congrArg Prod.fst hwrite) (hlen.trans hcount)
        rw [hwrite] at hcolumns
        cases hcolumns
        exact .added hlen hwidened (widenAll_fits hlen hwiden) hcap hroom

theorem pushed_of_eq {out : Except QueryError Unit} (h : p.push row = (out, p')) :
    Pushed p row out p' := by
  have hpushed := p.pushed row
  rwa [h] at hpushed

/-- A push keeps the columns and the settings, and counts the row if it is added. -/
theorem push_ok (h : p.push row = (.ok (), p')) :
    row.length = p.columns.length ∧ p'.rowCount = p.rowCount + 1 ∧ p'.settings = p.settings ∧
      p'.columns.length = p.columns.length := by
  cases pushed_of_eq h with
  | added hlen hwidened => exact ⟨hlen, rfl, rfl, by simp [← hwidened.length_eq, hlen]⟩

theorem push_refused {e : QueryError} (hlen : row.length = p.columns.length)
    (h : p.push row = (.error e, p')) : ∃ message, e = .resource message := by
  cases pushed_of_eq h with
  | misfit message hne => exact absurd hlen hne
  | tooLarge message => exact ⟨message, rfl⟩
  | cutOff => exact ⟨_, rfl⟩

/-! ## Rows of a page -/

/-- Each column of the page has the values of the rows there. -/
structure Has (C : ColumnBuffer → List String → Prop) (p : Page) (rows : List (List String)) :
    Prop where
  count : p.rowCount = rows.length
  width : ∀ row ∈ rows, row.length = p.columns.length
  columns : ∀ (j : Nat) (b : ColumnBuffer), p.columns[j]? = some b →
    C b (rows.map fun row => (row[j]?).getD "")

/-- The page holds the rows, and nothing else. -/
abbrev Holds : Page → List (List String) → Prop := Has ColumnBuffer.Holds

/-- The page begins with the rows. -/
abbrev Keeps : Page → List (List String) → Prop := Has ColumnBuffer.Keeps

section Has

variable {C D : ColumnBuffer → List String → Prop}

theorem Has.mono (hp : p.Has C rows) (h : ∀ b values, C b values → D b values) : p.Has D rows :=
  ⟨hp.count, hp.width, fun j b hj => h b _ (hp.columns j b hj)⟩

/-- Columns may be replaced by others that have the same values. -/
theorem Has.replaced {R : ColumnBuffer → ColumnBuffer → Prop} {columns : List ColumnBuffer}
    (hp : p.Has C rows) (hcolumns : List.Forall₂ R p.columns columns)
    (hR : ∀ {b b' : ColumnBuffer} {values : List String}, values.length = p.rowCount → R b b' →
      C b values → C b' values) :
    { p with columns := columns }.Has C rows where
  count := hp.count
  width := fun row hrow => (hp.width row hrow).trans hcolumns.length_eq
  columns := by
    intro j b' hj
    obtain ⟨b, hb, hbb'⟩ := getElem?_of_forall₂ hcolumns hj
    exact hR (by rw [List.length_map, hp.count]) hbb' (hp.columns j b hb)

theorem Has.widened {columns : List ColumnBuffer} (hp : p.Has C rows)
    (hcolumns : List.Forall₂ (Widened p.rowCount) p.columns columns)
    (hC : ∀ {b b' : ColumnBuffer} {values : List String}, b.Widened values.length b' → C b values →
      C b' values) :
    { p with columns := columns }.Has C rows :=
  hp.replaced hcolumns fun hlen h => hC (hlen ▸ h)

/-- A value is that of its row, in its column. -/
theorem Keeps.value?_eq (hp : p.Keeps rows) (i j : Nat) :
    p.value? i j = rows[i]?.bind (·[j]?) := by
  unfold value?
  rw [hp.count]
  split
  · next hi =>
    have hwidth := hp.width rows[i] (List.getElem_mem hi)
    rw [List.getElem?_eq_getElem hi, Option.bind_some]
    cases hj : p.columns[j]? with
    | none =>
      rw [List.getElem?_eq_none_iff] at hj
      rw [Option.bind_none, List.getElem?_eq_none (hwidth ▸ hj)]
    | some b =>
      obtain ⟨hj', -⟩ := List.getElem?_eq_some_iff.mp hj
      have hkeeps := hp.columns j b hj
      rw [Option.bind_some, hkeeps.value?_eq (by simpa using hi)]
      simp [hwidth, hj']
  · next hi => rw [List.getElem?_eq_none (Nat.le_of_not_lt hi), Option.bind_none]

/-- Reading a page gives the rows it has. -/
theorem Keeps.rows_eq (hp : p.Keeps rows) : p.rows = rows := by
  refine List.ext_getElem (by simp [Page.rows, hp.count]) fun i hi hi' => ?_
  have hlen := hp.width rows[i] (List.getElem_mem hi')
  simp only [Page.rows, List.getElem_map, List.getElem_range, Page.row]
  refine List.ext_getElem (by simp [hlen]) fun j hj hj' => ?_
  have hcolumn : j < p.columns.length := by simpa using hj
  have hkeeps := hp.columns j _ (List.getElem?_eq_getElem hcolumn)
  rw [List.getElem_map, hkeeps.value?_eq (by simpa using hi')]
  simp [hj']

end Has

theorem Holds.keeps (hp : p.Holds rows) : p.Keeps rows :=
  hp.mono fun _ _ => ColumnBuffer.Holds.keeps

theorem Holds.rows_eq (hp : p.Holds rows) : p.rows = rows := hp.keeps.rows_eq

theorem holds_empty (columns : List ColumnId) (settings : PageSettings) :
    (empty columns settings).Holds [] where
  count := rfl
  width := by simp
  columns := by
    intro j b hj
    rw [empty, List.getElem?_map] at hj
    obtain ⟨id, -, rfl⟩ := Option.map_eq_some_iff.mp hj
    exact ColumnBuffer.holds_empty id

/-- A row that is added is the last one. -/
theorem Holds.added {columns : List ColumnBuffer} (hp : p.Holds done)
    (hlen : row.length = p.columns.length)
    (hwidened : List.Forall₂ (Widened p.rowCount) p.columns columns)
    (hfits : List.Forall₂ (fun b v => (textBytes v).length < b.width) columns row) :
    Holds { p with
      columns := columns.zipWith ColumnBuffer.push row
      rowCount := p.rowCount + 1 } (done ++ [row]) := by
  have hq := hp.widened hwidened ColumnBuffer.Widened.holds
  have hcount := hwidened.length_eq
  constructor
  case count => simp [hp.count]
  case width =>
    intro r hr
    rcases List.mem_append.mp hr with hr | hr
    · simp [hp.width r hr, ← hcount, hlen]
    · simp [List.mem_singleton.mp hr, ← hcount, hlen]
  case columns =>
    intro j b' hj
    obtain ⟨b, v, hb, hv, rfl⟩ := List.getElem?_zipWith_eq_some.mp hj
    obtain ⟨b₁, hb₁, hfit⟩ := getElem?_of_forall₂ hfits hv
    cases hb.symm.trans hb₁
    simpa [hv] using (hq.columns j b hb).push hfit

theorem Holds.push (hp : p.Holds done) (h : p.push row = (.ok (), p')) :
    p'.Holds (done ++ [row]) := by
  cases pushed_of_eq h with
  | added hlen hwidened hfits => exact hp.added hlen hwidened hfits

/-! ## Several rows -/

/-- Pushes rows until one is refused. -/
def pushAll : Page → List (List String) → Except QueryError Page
  | p, [] => .ok p
  | p, row :: rows =>
    match p.push row with
    | (.ok (), p) => pushAll p rows
    | (.error e, _) => .error e

theorem pushAll_cons {row : List String} {rows : List (List String)} {p' : Page}
    (h : p.pushAll (row :: rows) = .ok p') :
    ∃ q, p.push row = (.ok (), q) ∧ q.pushAll rows = .ok p' := by
  simp only [pushAll] at h
  split at h
  · next q hq => exact ⟨q, hq, h⟩
  · cases h

theorem Holds.pushAll (hp : p.Holds done) (h : p.pushAll rows = .ok p') :
    p'.Holds (done ++ rows) := by
  induction rows generalizing p done with
  | nil =>
    cases h
    simpa using hp
  | cons row rows ih =>
    obtain ⟨q, hq, h⟩ := pushAll_cons h
    rw [List.append_cons]
    exact ih (hp.push hq) h

/-- Rows pushed to an empty page are read back. -/
theorem rows_of_pushAll {columns : List ColumnId} {settings : PageSettings}
    (h : (empty columns settings).pushAll rows = .ok p) :
    p.rows = rows ∧ p.rowCount = rows.length := by
  have hheld := (holds_empty columns settings).pushAll h
  exact ⟨hheld.rows_eq, hheld.count⟩

/-- Rows of the right width are refused for lack of room only. -/
theorem pushAll_cases (hlen : ∀ row ∈ rows, row.length = p.columns.length) :
    (∃ p', p.pushAll rows = .ok p') ∨ ∃ message, p.pushAll rows = .error (.resource message) := by
  induction rows generalizing p with
  | nil => exact .inl ⟨p, rfl⟩
  | cons row rows ih =>
    have hrow := hlen row List.mem_cons_self
    simp only [pushAll]
    split
    · next q hq =>
      obtain ⟨-, -, -, hcolumns⟩ := push_ok hq
      exact ih fun r hr => (hlen r (List.mem_cons_of_mem _ hr)).trans hcolumns.symm
    · next e q hq =>
      obtain ⟨message, rfl⟩ := push_refused hrow hq
      exact .inr ⟨message, rfl⟩

end Page

end CatalogQuery
