/-!
# Blank characters and words

Blanks are the 25 characters of the Unicode property White_Space, held as ascending closed ranges.
Text is handled as a list of characters.

* `trim_eq_self`: a text whose ends are not blank is its own trimmed form;
* `words_eq_nil_iff`: a text has no word iff all its characters are blank.
-/

namespace CatalogQuery.Text

/-- Closed ranges of code points, ascending and apart. -/
def blankRanges : List (Nat × Nat) :=
  [(0x09, 0x0D), (0x20, 0x20), (0x85, 0x85), (0xA0, 0xA0), (0x1680, 0x1680), (0x2000, 0x200A),
    (0x2028, 0x2029), (0x202F, 0x202F), (0x205F, 0x205F), (0x3000, 0x3000)]

def isBlank (c : Char) : Bool :=
  blankRanges.any fun r => r.1 ≤ c.toNat && c.toNat ≤ r.2

/-! ## Trimming -/

def trimStart (s : List Char) : List Char := s.dropWhile isBlank

def trimEnd (s : List Char) : List Char := (s.reverse.dropWhile isBlank).reverse

def trim (s : List Char) : List Char := trimEnd (trimStart s)

/-- `trim` on a string. -/
def trimmed (s : String) : String := String.ofList (trim s.toList)

theorem trim_eq_self {s : List Char} (hs : s.head?.any isBlank = false)
    (he : s.getLast?.any isBlank = false) : trim s = s := by
  have hstart : trimStart s = s := by
    cases s with
    | nil => rfl
    | cons c r => simp_all [trimStart]
  have hend : trimEnd s = s := by
    unfold trimEnd
    cases h : s.reverse with
    | nil => simpa using h.symm
    | cons c r =>
      have hl : s.getLast? = some c := by
        rw [← List.head?_reverse, h]; rfl
      have hc : isBlank c = false := by simpa [hl] using he
      rw [List.dropWhile_cons_of_neg (by simp [hc]), ← h, List.reverse_reverse]
  rw [trim, hstart, hend]

/-! ## Words -/

/-- The maximal runs of characters that are not blank, from left to right. -/
def words : List Char → List (List Char)
  | [] => []
  | c :: r =>
    if isBlank c then words r
    else match r.head?, words r with
      | some d, w :: ws => if isBlank d then [c] :: w :: ws else (c :: w) :: ws
      | _, ws => [c] :: ws

theorem words_eq_nil_iff (s : List Char) : words s = [] ↔ s.all isBlank = true := by
  induction s with
  | nil => simp [words]
  | cons c r ih =>
    cases hc : isBlank c with
    | true => simpa [words, hc] using ih
    | false =>
      simp only [words, hc, List.all_cons, Bool.false_and, Bool.false_eq_true, if_false, iff_false]
      split
      · split <;> simp
      · simp

/-- The last word of a text, or the whole text if it has no word. -/
def lastWord (s : String) : String :=
  match (words s.toList).getLast? with
  | some w => String.ofList w
  | none => s

end CatalogQuery.Text
