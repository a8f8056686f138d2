import CatalogQuery.Page.Buffer

/-!
# Slots of a column

A buffer is a row of slots. Wider slots keep their values, a value pushed to a buffer without anything
behind its slots is in the next slot, and the slot of a row is found by its position.

* `ColumnBuffer.Keeps`: a buffer begins with the slots of some values; more may stand behind them;
* `ColumnBuffer.Holds`: a buffer consists of the slots of some values;
* `ColumnBuffer.Keeps.widen`, `ColumnBuffer.Holds.widen`, `ColumnBuffer.Holds.push`: new widths and
  new values;
* `ColumnBuffer.Keeps.slot_eq`, `ColumnBuffer.Keeps.value?_eq`: the slot and the value of a row.
-/

namespace CatalogQuery

theorem bytesText?_textBytes (v : String) : bytesText? (textBytes v) = some v := by
  unfold bytesText? textBytes String.fromUTF8?
  rw [Array.toArray_toList, dif_pos v.isValidUTF8]
  rfl

theorem slot_slot {old new : Nat} {bs : List UInt8} (h : bs.length ≤ old) (hle : old ≤ new) :
    slot new (slot old bs) = slot new bs := by
  rw [slot, length_slot h]
  simp only [slot, List.append_assoc, List.replicate_append_replicate]
  congr 2
  omega

/-! ## Slots one behind the other -/

/-- The slots of some values. -/
def slots (width : Nat) (values : List String) : List UInt8 :=
  values.flatMap fun v => slot width (textBytes v)

variable {width : Nat} {values : List String} {v : String}

theorem slots_cons : slots width (v :: values) = slot width (textBytes v) ++ slots width values := rfl

theorem slots_concat :
    slots width (values ++ [v]) = slots width values ++ slot width (textBytes v) := by
  simp [slots]

theorem length_slots (hfits : ∀ v ∈ values, (textBytes v).length < width) :
    (slots width values).length = values.length * width := by
  induction values with
  | nil => simp [slots]
  | cons v values ih =>
    have hv : (slot width (textBytes v)).length = width :=
      length_slot (Nat.le_of_lt (hfits v List.mem_cons_self))
    rw [slots_cons, List.length_append, hv, ih fun u hu => hfits u (List.mem_cons_of_mem v hu),
      List.length_cons, Nat.succ_mul, Nat.add_comm]

/-- The slots from a row on. -/
theorem drop_slots (hfits : ∀ v ∈ values, (textBytes v).length < width) (row : Nat) :
    (slots width values).drop (row * width) = slots width (values.drop row) := by
  induction row generalizing values with
  | zero => simp
  | succ row ih =>
    cases values with
    | nil => simp [slots]
    | cons v values =>
      have hv : (slot width (textBytes v)).length = width :=
        length_slot (Nat.le_of_lt (hfits v List.mem_cons_self))
      rw [slots_cons, Nat.succ_mul, Nat.add_comm, ← List.drop_drop, List.drop_left' hv,
        ih fun u hu => hfits u (List.mem_cons_of_mem v hu), List.drop_succ_cons]

/-- Slots are laid out anew one by one; what stands behind them is left out. -/
theorem relaid_slots {old new : Nat} {bytes : List UInt8} (hle : old ≤ new)
    (hfits : ∀ v ∈ values, (textBytes v).length < old) (h : slots old values <+: bytes) :
    relaid old new values.length bytes = slots new values := by
  induction values generalizing bytes with
  | nil => rfl
  | cons v values ih =>
    obtain ⟨behind, rfl⟩ := h
    have hv := Nat.le_of_lt (hfits v List.mem_cons_self)
    have hlen : (slot old (textBytes v)).length = old := length_slot hv
    rw [slots_cons, slots_cons, List.append_assoc, List.length_cons, relaid, List.take_left' hlen,
      List.drop_left' hlen, slot_slot hv hle,
      ih (fun u hu => hfits u (List.mem_cons_of_mem v hu)) (List.prefix_append _ _)]

/-! ## Buffers -/

namespace ColumnBuffer

/-- The buffer begins with the slots of the values, and each value has room for its end. -/
structure Keeps (b : ColumnBuffer) (values : List String) : Prop where
  lengths : (values.map fun v => (textBytes v).length) <+: b.lengths
  bytes : slots b.width values <+: b.bytes
  fits : ∀ v ∈ values, (textBytes v).length < b.width

/-- The buffer consists of these slots. -/
structure Holds (b : ColumnBuffer) (values : List String) : Prop where
  lengths : b.lengths = values.map fun v => (textBytes v).length
  bytes : b.bytes = slots b.width values
  fits : ∀ v ∈ values, (textBytes v).length < b.width

variable {b : ColumnBuffer}

theorem holds_empty (id : ColumnId) : (empty id).Holds [] :=
  ⟨rfl, rfl, by simp⟩

theorem Holds.keeps (h : b.Holds values) : b.Keeps values :=
  ⟨h.lengths ▸ List.prefix_rfl, h.bytes ▸ List.prefix_rfl, h.fits⟩

theorem Holds.length_bytes (h : b.Holds values) : b.bytes.length = values.length * b.width := by
  rw [h.bytes, length_slots h.fits]

theorem Keeps.le_length_bytes (h : b.Keeps values) : values.length * b.width ≤ b.bytes.length := by
  rw [← length_slots h.fits]
  exact h.bytes.length_le

theorem Holds.push (h : b.Holds values) (hv : (textBytes v).length < b.width) :
    (b.push v).Holds (values ++ [v]) where
  lengths := by simp [ColumnBuffer.push, h.lengths]
  bytes := by simp [ColumnBuffer.push, h.bytes, slots_concat]
  fits := by
    intro u hu
    rcases List.mem_append.mp hu with hu | hu
    · exact h.fits u hu
    · rw [List.mem_singleton.mp hu]
      exact hv

/-- Wherever a value is written, it is behind the slots. -/
theorem Keeps.push (h : b.Keeps values) (v : String) : (b.push v).Keeps values where
  lengths := h.lengths.trans (List.prefix_append _ _)
  bytes := h.bytes.trans (List.prefix_append _ _)
  fits := h.fits

theorem Keeps.widen (h : b.Keeps values) (hle : b.width ≤ width) :
    (b.widen values.length width).Keeps values where
  lengths := h.lengths
  bytes := by
    have hrelaid : relaid b.width width values.length b.bytes = slots width values :=
      relaid_slots hle h.fits h.bytes
    exact hrelaid ▸ List.prefix_rfl
  fits := fun v hv => Nat.lt_of_lt_of_le (h.fits v hv) hle

theorem Holds.widen (h : b.Holds values) (hle : b.width ≤ width) :
    (b.widen values.length width).Holds values where
  lengths := h.lengths
  bytes := relaid_slots hle h.fits (h.bytes ▸ List.prefix_rfl)
  fits := (h.keeps.widen hle).fits

/-- The slot of a row: its value with zeros behind it. -/
theorem Keeps.slot_eq {row : Nat} (h : b.Keeps values) (hrow : row < values.length) :
    (b.bytes.drop (row * b.width)).take b.width = slot b.width (textBytes values[row]) := by
  obtain ⟨behind, hbytes⟩ := h.bytes
  have hlen : (slot b.width (textBytes values[row])).length = b.width :=
    length_slot (Nat.le_of_lt (h.fits _ (List.getElem_mem hrow)))
  have hbefore : row * b.width ≤ (slots b.width values).length := by
    rw [length_slots h.fits]
    exact Nat.mul_le_mul_right _ (Nat.le_of_lt hrow)
  rw [← hbytes, List.drop_append_of_le_length hbefore, drop_slots h.fits,
    List.drop_eq_getElem_cons hrow, slots_cons, List.append_assoc, List.take_left' hlen]

theorem Keeps.value?_eq {row : Nat} (h : b.Keeps values) (hrow : row < values.length) :
    b.value? row = some values[row] := by
  obtain ⟨behind, hlengths⟩ := h.lengths
  have hlength : b.lengths[row]? = some (textBytes values[row]).length := by
    rw [← hlengths, List.getElem?_append_left (by simpa using hrow)]
    simp [hrow]
  have hshort : (textBytes values[row]).length ≤ b.width :=
    Nat.le_of_lt (h.fits _ (List.getElem_mem hrow))
  rw [value?, hlength, Option.bind_some, ← Nat.min_eq_left hshort, ← List.take_take, h.slot_eq hrow,
    take_slot, bytesText?_textBytes]

end ColumnBuffer

end CatalogQuery
