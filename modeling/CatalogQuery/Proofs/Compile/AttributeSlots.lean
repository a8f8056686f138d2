import CatalogQuery.Compile.Attribute
import CatalogQuery.Proofs.Sql.Selections
import CatalogQuery.Schema.Standard

/-!
# Slots of an attribute search

A search for data objects by attributes chooses a row for the object and, for each attribute row that
it looks for, that row and its place in the map. Each of these is a slot with a name of its own in the
statement: the second and later ones of a kind carry their number behind the name.

* `Slot.binding_injective`: different slots have different names;
* `Slot.named_source`: the names are read as names;
* `Slot.sourcesOf_add`: an entry is added to FROM unless its slot is there.
-/

namespace CatalogQuery

open Sql

/-! ## Last words -/

namespace Text

theorem words_eq_singleton {w : List Char} (hne : w ≠ []) (hw : ∀ c ∈ w, isBlank c = false) :
    words w = [w] := by
  induction w with
  | nil => exact absurd rfl hne
  | cons c w ih =>
    have hc : isBlank c = false := hw c List.mem_cons_self
    cases w with
    | nil => simp [words, hc]
    | cons d w =>
      have hd : isBlank d = false := hw d (by simp)
      have htail := ih (by simp) fun e he => hw e (List.mem_cons_of_mem _ he)
      rw [words, htail]
      simp [hc, hd]

/-- A blank ends a word. -/
theorem words_append_blank (a : List Char) {w : List Char} (hne : w ≠ [])
    (hw : ∀ c ∈ w, isBlank c = false) : words (a ++ ' ' :: w) = words a ++ [w] := by
  induction a with
  | nil =>
    have hspace : isBlank ' ' = true := by decide
    have hhead : words (' ' :: w) = words w := by rw [words]; simp [hspace]
    rw [List.nil_append, hhead, words_eq_singleton hne hw]
    rfl
  | cons c a ih =>
    rw [List.cons_append, words, words, ih]
    cases hc : isBlank c with
    | true => rfl
    | false =>
      have hspace : isBlank ' ' = true := by decide
      cases a with
      | nil => simp [words, hspace]
      | cons d a =>
        cases hd : isBlank d with
        | true => cases hwords : words (d :: a) <;> simp [hd]
        | false =>
          cases hwords : words (d :: a) with
          | nil =>
            have := (words_eq_nil_iff (d :: a)).mp hwords
            simp [hd] at this
          | cons v vs => simp [hd]

theorem lastWord_append {table binding : String} (hne : binding.toList ≠ [])
    (hbinding : ∀ c ∈ binding.toList, isBlank c = false) :
    lastWord (table ++ " " ++ binding) = binding := by
  have hwords : words (table ++ " " ++ binding).toList
      = words table.toList ++ [binding.toList] := by
    simpa using words_append_blank table.toList hne hbinding
  rw [lastWord, hwords]
  simp

end Text

/-! ## Slots -/

/-- The layout of the attributes of data objects. -/
def Standard.dataLayout : AttributeJoin :=
  layout 600 601 "r_data_metamap" "r_data_meta_main" "r_data_main" "data_id"

/-- What a row is chosen for: the object, and for each attribute row that is looked for the row and
its place in the map, counted from zero. -/
inductive Slot where
  | object
  | map (i : Nat)
  | row (i : Nat)
  deriving DecidableEq, Repr

namespace Slot

def table : Slot → String
  | object => "r_data_main"
  | map _ => "r_objt_metamap"
  | row _ => "r_meta_main"

def binding : Slot → String
  | object => "r_data_main"
  | map i => Standard.dataLayout.mapInstance (i + 1)
  | row i => Standard.dataLayout.metaInstance (i + 1)

def source (x : Slot) : Source := ⟨x.table, x.binding⟩

/-- What stands behind the name of an instance. -/
def suffix (i : Nat) : String := if i = 0 then "" else "_" ++ toString (i + 1)

theorem instanceBinding_eq (base : String) (i : Nat) :
    instanceBinding base (i + 1) = base ++ suffix i := by
  unfold instanceBinding suffix
  cases i with
  | zero => simp
  | succ i => simp [String.append_assoc]

theorem toString_injective {m n : Nat} (h : toString m = toString n) : m = n := by
  rw [Nat.toString_eq_ofList_toDigits, Nat.toString_eq_ofList_toDigits] at h
  have hdigits : Nat.toDigits 10 m = Nat.toDigits 10 n := by simpa using congrArg String.toList h
  calc m = Nat.ofDigitChars 10 (Nat.toDigits 10 m) 0 := Nat.ofDigitChars_ten_toDigits.symm
    _ = n := by rw [hdigits, Nat.ofDigitChars_ten_toDigits]

theorem suffix_injective : Function.Injective suffix := by
  intro i j h
  cases i with
  | zero =>
    cases j with
    | zero => rfl
    | succ j => simp [suffix] at h
  | succ i =>
    cases j with
    | zero => simp [suffix] at h
    | succ j =>
      have hnumbers : toString (i + 1 + 1) = toString (j + 1 + 1) := by simpa [suffix] using h
      have := toString_injective hnumbers
      omega

@[simp] theorem binding_object : object.binding = "r_data_main" := rfl

@[simp] theorem binding_map (i : Nat) : (map i).binding = "r_data_metamap" ++ suffix i :=
  instanceBinding_eq _ i

@[simp] theorem binding_row (i : Nat) : (row i).binding = "r_data_meta_main" ++ suffix i :=
  instanceBinding_eq _ i

/-- Different slots have different names. -/
theorem binding_injective : Function.Injective binding := by
  intro x y h
  have hlists := congrArg String.toList h
  cases x with
  | object =>
    cases y with
    | object => rfl
    | map j => simp at hlists
    | row j => simp at hlists
  | map i =>
    cases y with
    | object => simp at hlists
    | map j => exact congrArg map (suffix_injective (by simpa using h))
    | row j => simp at hlists
  | row i =>
    cases y with
    | object => simp at hlists
    | map j => simp at hlists
    | row j => exact congrArg row (suffix_injective (by simpa using h))

/-! ### Names -/

theorem mem_suffix {i : Nat} {c : Char} (hc : c ∈ (suffix i).toList) :
    c = '_' ∨ c.isDigit = true := by
  unfold suffix at hc
  split at hc
  · simp at hc
  · rw [Nat.toString_eq_ofList_toDigits] at hc
    simp only [String.toList_append, String.toList_ofList, List.mem_append] at hc
    rcases hc with hc | hc
    · exact .inl (by simpa using hc)
    · exact .inr (Nat.isDigit_of_mem_toDigits (by decide) (by decide) hc)

theorem isWordChar_of_mem_suffix {i : Nat} {c : Char} (hc : c ∈ (suffix i).toList) :
    Lexing.isWordChar c = true := by
  rcases mem_suffix hc with rfl | hdigit
  · decide
  · simp [Lexing.isWordChar, Char.isAlphanum, hdigit]

/-- An instance of a name is a name. -/
theorem isName_suffix {base : String} (hbase : IsName base)
    (hfree : ∀ w ∈ Reader.reserved, w.toList.head? ≠ base.toList.head?) (i : Nat) :
    IsName (base ++ suffix i) := by
  constructor
  case word => exact isWordText_append hbase.word fun _ hc => isWordChar_of_mem_suffix hc
  case lower =>
    have hlower : base.toList.map Char.toLower = base.toList := by
      simpa [lowerText] using congrArg String.toList hbase.lower
    have hsuffix : (suffix i).toList.map Char.toLower = (suffix i).toList := by
      have hid : (suffix i).toList.map Char.toLower = (suffix i).toList.map id := by
        apply List.map_congr_left
        intro d hd
        rcases mem_suffix hd with rfl | hdigit
        · decide
        · exact toLower_of_isDigit hdigit
      rw [hid, List.map_id]
    rw [lowerText, String.toList_append, List.map_append, hlower, hsuffix, ← String.toList_append,
      String.ofList_toList]
  case free =>
    intro hmem
    apply hfree _ hmem
    have hword := hbase.word
    cases hchars : base.toList with
    | nil => simp [hchars, isWordText] at hword
    | cons c r => simp [hchars]

/-- The names of tables and columns that a search mentions. -/
def fixedNames : List String :=
  ["r_data_main", "r_objt_metamap", "r_meta_main", "r_data_metamap", "r_data_meta_main", "data_id",
    "object_id", "meta_id", "meta_attr_name", "meta_attr_value"]

theorem isName_fixed {name : String} (h : name ∈ fixedNames) : IsName name := by
  have hall : ∀ name ∈ fixedNames, isWordText name.toList = true ∧ lowerText name = name ∧
      name ∉ Reader.reserved := by decide +kernel
  obtain ⟨hword, hlower, hfree⟩ := hall name h
  exact ⟨hword, hlower, hfree⟩

theorem named_source (x : Slot) : x.source.Named := by
  have hfree : ∀ w ∈ Reader.reserved, w.toList.head? ≠ some 'r' := by decide +kernel
  cases x with
  | object => exact ⟨isName_fixed (by decide), isName_fixed (by decide)⟩
  | map i =>
    have htable : IsName "r_objt_metamap" := isName_fixed (by decide)
    refine ⟨htable, ?_⟩
    rw [source, binding_map]
    exact isName_suffix (isName_fixed (by decide)) (by simpa using hfree) i
  | row i =>
    have htable : IsName "r_meta_main" := isName_fixed (by decide)
    refine ⟨htable, ?_⟩
    rw [source, binding_row]
    exact isName_suffix (isName_fixed (by decide)) (by simpa using hfree) i

/-! ### Entries of FROM -/

theorem text_map (i : Nat) : (map i).source.text
    = Standard.dataLayout.mapTable ++ " " ++ Standard.dataLayout.mapInstance (i + 1) := by
  have hne : (map i).source.table ≠ (map i).source.binding := by
    intro h
    have hlists := congrArg String.toList h
    simp [source, table] at hlists
  exact if_neg hne

theorem text_row (i : Nat) : (row i).source.text
    = Standard.dataLayout.metaTable ++ " " ++ Standard.dataLayout.metaInstance (i + 1) := by
  have hne : (row i).source.table ≠ (row i).source.binding := by
    intro h
    have hlists := congrArg String.toList h
    simp [source, table] at hlists
  exact if_neg hne

theorem isBlank_of_isDigit {c : Char} (h : c.isDigit = true) : Text.isBlank c = false := by
  simp only [Char.isDigit, Bool.and_eq_true, decide_eq_true_eq, ge_iff_le, UInt32.le_iff_toNat_le]
    at h
  have hlow : 48 ≤ c.toNat := h.1
  have hhigh : c.toNat ≤ 57 := h.2
  simp [Text.isBlank, Text.blankRanges]
  omega

theorem isBlank_suffix {base : String} (hbase : base.toList.all (!Text.isBlank ·) = true) (i : Nat) :
    ∀ c ∈ (base ++ suffix i).toList, Text.isBlank c = false := by
  intro c hc
  rw [String.toList_append] at hc
  rcases List.mem_append.mp hc with hc | hc
  · simpa using List.all_eq_true.mp hbase c hc
  · rcases mem_suffix hc with rfl | hdigit
    · decide
    · exact isBlank_of_isDigit hdigit

/-- An entry binds the name of its slot. -/
theorem lastWord_text (x : Slot) : Text.lastWord x.source.text = x.binding := by
  cases x with
  | object => decide +kernel
  | map i =>
    rw [text_map, ← binding, binding_map]
    exact Text.lastWord_append (by simp) (isBlank_suffix (by decide +kernel) i)
  | row i =>
    rw [text_row, ← binding, binding_row]
    exact Text.lastWord_append (by simp) (isBlank_suffix (by decide +kernel) i)

/-- The entries of some slots. -/
def sourcesOf (xs : List Slot) : Sources := ⟨xs.map (·.source.text)⟩

/-- Adds a slot unless it is there. -/
def insertNew (xs : List Slot) (x : Slot) : List Slot := if x ∈ xs then xs else xs ++ [x]

theorem sourcesOf_add (xs : List Slot) (x : Slot) :
    (sourcesOf xs).add x.source.text = sourcesOf (insertNew xs x) := by
  have hbinds : (sourcesOf xs).binds (Text.lastWord x.source.text) = true ↔ x ∈ xs := by
    rw [lastWord_text]
    simp only [Sources.binds, Sources.bindings, sourcesOf, List.map_map, List.contains_eq_mem,
      decide_eq_true_eq, List.mem_map, Function.comp_apply, lastWord_text]
    constructor
    · rintro ⟨y, hy, h⟩
      rwa [← binding_injective h]
    · exact fun hx => ⟨x, hx, rfl⟩
  unfold Sources.add insertNew
  by_cases hx : x ∈ xs
  · rw [if_pos (hbinds.mpr hx), if_pos hx]
  · rw [if_neg (mt hbinds.mp hx), if_neg hx]
    simp [sourcesOf]

end Slot

end CatalogQuery
