import CatalogQuery.Sql.Fragment
import CatalogQuery.Sql.Reader
import Mathlib.Data.List.Forall2

/-!
# Tokens of composed texts

A statement is composed of pieces with separators between them, and its tokens are those of the
pieces, whatever their places. Filling the placeholders goes piece by piece as well, as long as each
piece brings its own values.

* `spells_word`: a word is one token;
* `Fragment.Says.intercalate`: the tokens of a list of pieces;
* `Fragment.Says.tokens`: what a catalog reads when it is given a fragment.
-/

namespace CatalogQuery.Sql

open Lexing

/-! ## Texts -/

/-- Here every token ends that the texts of this library begin. -/
def EndsToken (rest : List Char) : Prop := ∀ c ∈ rest.head?, isSpace c = true ∨ isMark c = true

/-- The text has these tokens wherever it stands, provided its last token ends with it. -/
def Spells (text : List Char) (ts : List Token) : Prop :=
  ∀ place, ∃ ls place', ls.map (·.token) = ts ∧ ∀ rest, EndsToken rest →
    tokensFrom .idle place (text ++ rest) = (ls ++ ·) <$> tokensFrom .idle place' rest

theorem map_append_append {a b : List Lexeme} {x : Except Fault (List Lexeme)} :
    (a ++ ·) <$> ((b ++ ·) <$> x) = ((a ++ b) ++ ·) <$> x := by
  cases x with
  | error e => rfl
  | ok ls => simp [Functor.map, Except.map]

/-- The token at which the machine stands ends where another one begins. -/
theorem tokensFrom_of_finish {m : Lexing} {ls : List Lexeme} {rest : List Char} {place : Nat}
    (hfinish : m.finish = .ok ls)
    (hstep : ∀ c ∈ rest.head?, m.step c place = do
      let (more, m') ← start c place
      return (ls ++ more, m')) :
    tokensFrom m place rest = (ls ++ ·) <$> tokensFrom .idle place rest := by
  cases rest with
  | nil =>
    rw [tokensFrom, tokensFrom, hfinish]
    simp [Lexing.finish, Functor.map, Except.map]
  | cons c r =>
    rw [tokensFrom, hstep c (by simp), tokensFrom]
    cases hstart : start c place with
    | error e => simp [step, hstart, bind, Except.bind, Functor.map, Except.map]
    | ok p =>
      cases htail : tokensFrom p.2 (place + c.utf8Size) r with
      | error e => simp [step, hstart, htail, bind, Except.bind, pure, Except.pure, Functor.map,
          Except.map]
      | ok more => simp [step, hstart, htail, bind, Except.bind, pure, Except.pure, Functor.map,
          Except.map]

def marks : List Char := ['(', ')', ',', '.', '*', ';', '+', '-', '/', '%', '&', '~']

theorem mem_marks {c : Char} (h : isMark c = true) : c ∈ marks := by
  simpa [isMark, marks] using h

theorem mem_spaces {c : Char} (h : isSpace c = true) : c ∈ [' ', '\t', '\n', '\r', '\x0c'] := by
  simpa [isSpace, or_assoc] using h

/-- No character that ends a token is part of one that this library writes. -/
theorem of_ends {c : Char} (h : isSpace c = true ∨ isMark c = true) :
    isWordChar c = false ∧ c.isDigit = false ∧ pair? '=' c = none := by
  have hall : ([' ', '\t', '\n', '\r', '\x0c'] ++ marks).all (fun d =>
      !isWordChar d && !d.isDigit && (pair? '=' d).isNone) = true := by decide
  have hmem : c ∈ [' ', '\t', '\n', '\r', '\x0c'] ++ marks := by
    rcases h with h | h
    · exact List.mem_append_left _ (mem_spaces h)
    · exact List.mem_append_right _ (mem_marks h)
  have hc := List.all_eq_true.mp hall c hmem
  simpa [and_assoc] using hc

/-- A mark is a token of its own. -/
theorem start_mark {c : Char} (h : isMark c = true) (place : Nat) :
    start c place = .ok ([⟨.mark c.toString, place⟩], .idle) := by
  have hall : marks.all (fun d => !isSpace d && !isWordChar d && d != '\'' && d != '?') = true := by
    decide
  have hc := List.all_eq_true.mp hall c (mem_marks h)
  simp only [Bool.and_eq_true, Bool.not_eq_true', bne_iff_ne] at hc
  obtain ⟨⟨⟨hspace, hword⟩, hquote⟩, hplace⟩ := hc
  simp [start, hspace, hword, hquote, hplace, h]

/-! ## Single tokens -/

/-- The characters of a word. -/
def isWordText : List Char → Bool
  | [] => false
  | c :: r => !c.isDigit && (c :: r).all isWordChar

theorem isWordText_append {s t : String} (hs : isWordText s.toList = true)
    (ht : ∀ c ∈ t.toList, isWordChar c = true) : isWordText (s ++ t).toList = true := by
  cases hchars : s.toList with
  | nil => simp [hchars, isWordText] at hs
  | cons c r =>
    simp only [hchars, isWordText, Bool.and_eq_true, List.all_eq_true] at hs
    simp only [String.toList_append, hchars, List.cons_append, isWordText, Bool.and_eq_true,
      List.all_eq_true]
    refine ⟨hs.1, fun d hd => ?_⟩
    rw [← List.cons_append] at hd
    rcases List.mem_append.mp hd with hd | hd
    · exact hs.2 d hd
    · exact ht d hd

theorem toLower_of_isDigit {c : Char} (h : c.isDigit = true) : c.toLower = c := by
  have hupper : ¬ c.val ≥ 'A'.val := by
    simp only [Char.isDigit, Bool.and_eq_true, decide_eq_true_eq] at h
    have hlt : '9'.val < 'A'.val := by decide
    exact fun hge => UInt32.not_lt.mpr h.2 (UInt32.lt_of_lt_of_le hlt hge)
  unfold Char.toLower
  exact dif_neg fun h => hupper h.1

theorem isWordChar_of_toLower {c : Char} (h : isWordChar c.toLower = true) :
    isWordChar c = true := by
  unfold Char.toLower at h
  split at h
  case isTrue hupper =>
    have hupper : c.isUpper = true := decide_eq_true hupper
    have halpha : c.isAlpha = true := Bool.or_eq_true_iff.mpr (.inl hupper)
    simp [isWordChar, Char.isAlphanum, halpha]
  case isFalse => exact h

/-- A word in lower case is a word in any case. -/
theorem isWordText_of_lower {w s : String} (h : lowerText w = s) (hs : isWordText s.toList = true) :
    isWordText w.toList = true := by
  subst h
  rw [lowerText, String.toList_ofList] at hs
  cases hw : w.toList with
  | nil => simp [hw, isWordText] at hs
  | cons c r =>
    simp only [hw, List.map_cons, isWordText, Bool.and_eq_true, Bool.not_eq_true',
      List.all_eq_true] at hs ⊢
    obtain ⟨hfirst, hall⟩ := hs
    constructor
    · refine Bool.eq_false_iff.mpr fun hdigit => ?_
      rw [toLower_of_isDigit hdigit, hdigit] at hfirst
      cases hfirst
    · intro d hd
      exact isWordChar_of_toLower (hall _ (List.mem_map_of_mem (f := Char.toLower) hd))

theorem tokensFrom_word {w : List Char} (hw : ∀ c ∈ w, isWordChar c = true) (done : List Char)
    (at_ place : Nat) : ∃ place', ∀ rest, tokensFrom (.word done at_) place (w ++ rest)
      = tokensFrom (.word (w.reverse ++ done) at_) place' rest := by
  induction w generalizing done place with
  | nil => exact ⟨place, fun rest => rfl⟩
  | cons c w ih =>
    obtain ⟨place', htail⟩ := ih (fun d hd => hw d (List.mem_cons_of_mem _ hd)) (c :: done)
      (place + c.utf8Size)
    refine ⟨place', fun rest => ?_⟩
    have hc := hw c List.mem_cons_self
    rw [List.cons_append, tokensFrom]
    simp only [step, hc, if_true, bind, Except.bind, htail, List.nil_append]
    cases h : tokensFrom (.word (w.reverse ++ c :: done) at_) place' rest with
    | error e => simp [h]
    | ok ls => simp [h, pure, Except.pure]

theorem spells_word {w : String} (hw : isWordText w.toList = true) :
    Spells w.toList [.word w] := by
  intro place
  cases hchars : w.toList with
  | nil => simp [hchars, isWordText] at hw
  | cons c r =>
    simp only [hchars, isWordText, Bool.and_eq_true, Bool.not_eq_true', List.all_eq_true] at hw
    obtain ⟨hdigit, hall⟩ := hw
    obtain ⟨place', hword⟩ := tokensFrom_word
      (fun d hd => hall d (List.mem_cons_of_mem _ hd)) [c] place (place + c.utf8Size)
    have hend : (Lexing.word (r.reverse ++ [c]) place).finish = .ok [⟨.word w, place⟩] := by
      have hw : String.ofList (c :: r) = w := by rw [← hchars, String.ofList_toList]
      simp [Lexing.finish, endWord, hdigit, Except.map, hw]
    refine ⟨[⟨.word w, place⟩], place', rfl, fun rest hrest => ?_⟩
    have hspace : isSpace c = false := by
      by_contra h
      have := (of_ends (.inl (Bool.of_not_eq_false h))).1
      simp [hall c List.mem_cons_self] at this
    rw [List.cons_append, tokensFrom]
    have hstart : start c place = .ok ([], .word [c] place) := by
      simp [start, hspace, hall c List.mem_cons_self]
    simp only [step, hstart, bind, Except.bind, hword, List.nil_append]
    rw [tokensFrom_of_finish hend]
    · cases tokensFrom .idle place' rest <;> rfl
    · intro d hd
      simp [step, (of_ends (hrest d hd)).1, hend, bind, Except.bind]

theorem spells_placeholder : Spells ['?'] [.placeholder none] := by
  intro place
  refine ⟨[⟨.placeholder none, place⟩], place + '?'.utf8Size, rfl, fun rest hrest => ?_⟩
  have hend : (Lexing.placeholder [] place).finish = .ok [⟨.placeholder none, place⟩] := rfl
  have hstart : start '?' place = .ok ([], .placeholder [] place) := rfl
  rw [List.singleton_append, tokensFrom]
  simp only [step, hstart, bind, Except.bind, List.nil_append]
  rw [tokensFrom_of_finish hend]
  · cases tokensFrom .idle (place + '?'.utf8Size) rest <;> rfl
  · intro d hd
    simp [step, (of_ends (hrest d hd)).2.1, hend, bind, Except.bind]

theorem spells_equals : Spells ['='] [.mark "="] := by
  intro place
  refine ⟨[⟨.mark "=", place⟩], place + '='.utf8Size, rfl, fun rest hrest => ?_⟩
  have hend : (Lexing.mark '=' place).finish = .ok [⟨.mark "=", place⟩] := rfl
  have hstart : start '=' place = .ok ([], .mark '=' place) := rfl
  rw [List.singleton_append, tokensFrom]
  simp only [step, hstart, bind, Except.bind, List.nil_append]
  rw [tokensFrom_of_finish hend]
  · cases tokensFrom .idle (place + '='.utf8Size) rest <;> rfl
  · intro d hd
    simp [step, (of_ends (hrest d hd)).2.2, hend, bind, Except.bind]

/-! ## Pieces behind each other -/

variable {a b : List Char} {ts us : List Token}

theorem spells_nil : Spells [] [] := by
  intro place
  refine ⟨[], place, rfl, fun rest _ => ?_⟩
  rw [List.nil_append]
  cases tokensFrom .idle place rest <;> rfl

theorem Spells.space (ha : Spells a ts) (hb : Spells b us) : Spells (a ++ ' ' :: b) (ts ++ us) := by
  intro place
  obtain ⟨ls, middle, hls, hleft⟩ := ha place
  obtain ⟨ks, place', hks, hright⟩ := hb (middle + ' '.utf8Size)
  refine ⟨ls ++ ks, place', by rw [List.map_append, hls, hks], fun rest hrest => ?_⟩
  have hends : EndsToken (' ' :: (b ++ rest)) := by
    intro c hc
    cases hc
    exact .inl rfl
  have hspace : tokensFrom .idle middle (' ' :: (b ++ rest))
      = tokensFrom .idle (middle + ' '.utf8Size) (b ++ rest) := by
    have hstart : start ' ' middle = .ok ([], .idle) := rfl
    rw [tokensFrom]
    simp only [step, hstart, bind, Except.bind]
    cases tokensFrom .idle (middle + ' '.utf8Size) (b ++ rest) <;> rfl
  rw [List.append_assoc, List.cons_append, hleft _ hends, hspace, hright rest hrest,
    map_append_append]

theorem Spells.mark {c : Char} (hc : isMark c = true) (ha : Spells a ts) (hb : Spells b us) :
    Spells (a ++ c :: b) (ts ++ .mark c.toString :: us) := by
  intro place
  obtain ⟨ls, middle, hls, hleft⟩ := ha place
  obtain ⟨ks, place', hks, hright⟩ := hb (middle + c.utf8Size)
  refine ⟨ls ++ ⟨.mark c.toString, middle⟩ :: ks, place',
    by rw [List.map_append, List.map_cons, hls, hks], fun rest hrest => ?_⟩
  have hends : EndsToken (c :: (b ++ rest)) := by
    intro d hd
    cases hd
    exact .inr hc
  have hmark : tokensFrom .idle middle (c :: (b ++ rest))
      = ([⟨.mark c.toString, middle⟩] ++ ·) <$>
        tokensFrom .idle (middle + c.utf8Size) (b ++ rest) := by
    rw [tokensFrom]
    simp only [step, start_mark hc, bind, Except.bind]
    cases tokensFrom .idle (middle + c.utf8Size) (b ++ rest) <;> rfl
  rw [List.append_assoc, List.cons_append, hleft _ hends, hmark, hright rest hrest,
    map_append_append, map_append_append, List.append_assoc, List.singleton_append]

theorem Spells.tokens {text : String} (h : Spells text.toList ts) :
    ∃ ls, Sql.tokens text = .ok ls ∧ ls.map (·.token) = ts := by
  obtain ⟨ls, place', hls, hread⟩ := h 0
  refine ⟨ls, ?_, hls⟩
  have hend := hread [] (by simp [EndsToken])
  rw [List.append_nil] at hend
  rw [Sql.tokens, hend]
  simp [tokensFrom, Lexing.finish, Functor.map, Except.map]

/-! ## Values in the places of placeholders -/

/-- The tokens with the values in their places, whatever their own places are. -/
def filled (binds : List String) : Nat → List Token → List Token
  | _, [] => []
  | greatest, .placeholder n :: ts =>
    .bound ((binds[n.getD (greatest + 1) - 1]?).getD "") ::
      filled binds (max greatest (n.getD (greatest + 1))) ts
  | greatest, t :: ts => t :: filled binds greatest ts

theorem map_fill (binds : List String) (greatest : Nat) (ls : List Lexeme) :
    (fill binds greatest ls).map (·.token) = filled binds greatest (ls.map (·.token)) := by
  induction ls generalizing greatest with
  | nil => rfl
  | cons l ls ih =>
    obtain ⟨t, place⟩ := l
    cases t <;> simp [fill, filled, ih]

/-- The greatest number of a placeholder up to a token. -/
def counted (greatest : Nat) : Token → Nat
  | .placeholder n => max greatest (n.getD (greatest + 1))
  | _ => greatest

theorem placeholderCount_eq_foldl (ls : List Lexeme) :
    placeholderCount ls = (ls.map (·.token)).foldl counted 0 := by
  rw [List.foldl_map, placeholderCount]
  rfl

/-- The tokens behind the last list are those before with the values, each in the place of one
placeholder. -/
inductive Fills : List String → List Token → List Token → Prop
  | nil : Fills [] [] []
  | hole {binds : List String} {ts us : List Token} (b : String) :
    Fills binds ts us → Fills (b :: binds) (.placeholder none :: ts) (.bound b :: us)
  | keep {binds : List String} {ts us : List Token} {t : Token} (ht : ∀ n, t ≠ .placeholder n) :
    Fills binds ts us → Fills binds (t :: ts) (t :: us)

namespace Fills

variable {binds binds' : List String} {ts ts' us us' : List Token}

theorem append (h : Fills binds ts us) (h' : Fills binds' ts' us') :
    Fills (binds ++ binds') (ts ++ ts') (us ++ us') := by
  induction h with
  | nil => exact h'
  | hole b _ ih => exact .hole b ih
  | keep ht _ ih => exact .keep ht ih

theorem refl (h : ∀ t ∈ ts, ∀ n, t ≠ .placeholder n) : Fills [] ts ts := by
  induction ts with
  | nil => exact .nil
  | cons t ts ih =>
    exact .keep (h t List.mem_cons_self) (ih fun u hu => h u (List.mem_cons_of_mem _ hu))

/-- The values fill the placeholders in their order; those before `before` are used up. -/
theorem tokens_fill {ls : List Lexeme} (before : List String)
    (h : Fills binds (ls.map (·.token)) us) :
    (fill (before ++ binds) before.length ls).map (·.token) = us := by
  induction ls generalizing before binds us with
  | nil =>
    cases h
    rfl
  | cons l ls ih =>
    obtain ⟨t, place⟩ := l
    rw [List.map_cons] at h
    cases h with
    | @hole binds _ us b h =>
      have htail := ih (before ++ [b]) h
      simp only [List.append_assoc, List.singleton_append, List.length_append, List.length_singleton]
        at htail
      simp [fill, htail]
    | keep ht h =>
      cases t with
      | placeholder n => exact absurd rfl (ht n)
      | _ => simp [fill, ih before h]

/-- Placeholders without numbers are counted one by one; nothing else counts. -/
theorem foldl_counted (h : Fills binds ts us) (n : Nat) :
    ts.foldl counted n = n + binds.length := by
  induction h generalizing n with
  | nil => rfl
  | hole b _ ih =>
    rw [List.foldl_cons, ih, List.length_cons]
    simp [counted]
    omega
  | @keep binds ts us t ht _ ih =>
    rw [List.foldl_cons, ih]
    cases t with
    | placeholder k => exact absurd rfl (ht k)
    | _ => rfl

theorem placeholderCount_eq {ls : List Lexeme} (h : Fills binds (ls.map (·.token)) us) :
    placeholderCount ls = binds.length := by
  rw [placeholderCount_eq_foldl, h.foldl_counted, Nat.zero_add]

end Fills

/-! ## Fragments -/

/-- The fragment has these tokens once its values are in their places. -/
def Fragment.Says (f : Fragment) (us : List Token) : Prop :=
  ∃ ts, Spells f.sql.toList ts ∧ Fills f.binds ts us

/-- What stands between pieces, with its own tokens. -/
structure Separates (separator : String) (st : List Token) : Prop where
  spells : ∀ {a b ts us}, Spells a ts → Spells b us →
    Spells (a ++ (separator.toList ++ b)) (ts ++ (st ++ us))
  fills : Fills [] st st

theorem separates_space : Separates " " [] := by
  constructor
  case spells => exact fun ha hb => ha.space hb
  case fills => exact .nil

theorem separates_comma : Separates ", " [.mark ","] := by
  constructor
  case spells =>
    intro a b ts us ha hb
    exact ha.mark (c := ',') rfl (spells_nil.space hb)
  case fills => exact .refl (by simp)

/-- A piece between blanks separates. -/
theorem separates_of_spells {separator : String} {st : List Token} {text : List Char}
    (htext : separator.toList = ' ' :: (text ++ [' '])) (hspells : Spells text st)
    (hst : ∀ t ∈ st, ∀ n, t ≠ .placeholder n) : Separates separator st := by
  constructor
  case spells =>
    intro a b ts us ha hb
    have h := ha.space (hspells.space hb)
    simpa [htext] using h
  case fills => exact .refl hst

/-- A word between blanks separates. -/
theorem separates_word {separator w : String} (htext : separator = " " ++ w ++ " ")
    (hw : isWordText w.toList = true) : Separates separator [.word w] := by
  apply separates_of_spells _ (spells_word hw)
  · simp
  · simp [htext]

namespace Fragment.Says

variable {f g : Fragment} {separator : String} {st ts us : List Token}

theorem of_spells {text : String} (h : Spells text.toList us)
    (hus : ∀ t ∈ us, ∀ n, t ≠ .placeholder n) : Fragment.Says ⟨text, []⟩ us :=
  ⟨us, h, .refl hus⟩

theorem append (hs : Separates separator st) (hf : f.Says ts) (hg : g.Says us) :
    Fragment.Says ⟨f.sql ++ (separator ++ g.sql), f.binds ++ g.binds⟩ (ts ++ (st ++ us)) := by
  obtain ⟨ts', htext, hts⟩ := hf
  obtain ⟨us', htext', hus⟩ := hg
  refine ⟨ts' ++ (st ++ us'), ?_, ?_⟩
  · simpa using hs.spells htext htext'
  · simpa using hts.append (hs.fills.append hus)

theorem intercalate {fs : List Fragment} {tss : List (List Token)} (hs : Separates separator st)
    (hne : fs ≠ []) (h : List.Forall₂ Fragment.Says fs tss) :
    Fragment.Says ⟨separator.intercalate (fs.map (·.sql)), fs.flatMap (·.binds)⟩
      (st.intercalate tss) := by
  induction h with
  | nil => exact absurd rfl hne
  | @cons f ts fs tss hf hrest ih =>
    cases hrest with
    | nil => simpa using hf
    | @cons g us fs tss hg hrest =>
      have htail := ih (by simp)
      have h := append hs hf htail
      simpa [String.intercalate_cons_cons, List.intercalate_cons_cons, String.append_assoc] using h

/-- What a catalog reads when it is given the fragment. -/
theorem tokens (h : f.Says us) : ∃ ls, Sql.tokens f.sql = .ok ls ∧
    (fill f.binds 0 ls).map (·.token) = us ∧ placeholderCount ls = f.binds.length := by
  obtain ⟨ts, htext, hfills⟩ := h
  obtain ⟨ls, hread, hls⟩ := htext.tokens
  exact ⟨ls, hread, (hls ▸ hfills).tokens_fill [], (hls ▸ hfills).placeholderCount_eq⟩

end Fragment.Says

end CatalogQuery.Sql
