import CatalogQuery.Proofs.Sql.Precedence

/-!
# Texts in parentheses

What stands in parentheses cuts nothing outside of them, whatever words are in it, as long as its own
parentheses are closed. So a condition is put together from texts that leave everything as it was, and
each kind of condition is closed in its own way: by having no AND, by the AND of a range, by two closed
parts, or by parentheses.

* `Reader.Neutral`, `Reader.Level`: texts that leave their surroundings as they are, anywhere or in
  parentheses;
* `separates_of_gap`: a text between two others, by what is read of it;
* `standsAlone`: what a text of any origin has to be to stand between ANDs;
* `Reads.enclose`, `Reads.range`, `Reads.both`: the kinds of conditions.
-/

namespace CatalogQuery.Sql

namespace Reader

variable {ts us : List Token}

/-! ## Surroundings -/

/-- The token joins alternatives or terms, or opens a range. -/
def joinsTerms (t : Token) : Bool := t.isWord "or" || t.isWord "and" || t.isWord "between"

/-- The text leaves parentheses and ranges as they are and has no alternatives of its own. -/
def Neutral (ts : List Token) : Prop :=
  ∀ depth ranged, closesAt depth ranged ts = some (depth, ranged)

/-- So does the text in parentheses. -/
def Level (ts : List Token) : Prop :=
  ∀ depth ranged, closesAt (depth + 1) ranged ts = some (depth + 1, ranged)

/-- A text that can stand between ANDs, and in parentheses. -/
structure Standing (ts : List Token) : Prop where
  closed : Closed ts
  level : Level ts

theorem depthBehind_of_flat {t : Token} (hopening : t ≠ .mark "(") (hclosing : t ≠ .mark ")")
    (depth : Nat) : depthBehind depth t = depth := by
  unfold depthBehind
  split
  · exact absurd rfl hopening
  · exact absurd rfl hclosing
  · rfl

/-- Within parentheses no word matters. -/
theorem closesAt_inside (depth : Nat) (ranged : Bool) (t : Token) (ts : List Token) :
    closesAt (depth + 1) ranged (t :: ts) = closesAt (depthBehind (depth + 1) t) ranged ts := by
  simp [closesAt]

theorem Neutral.of_flat (h : Flat joinsTerms ts) : Neutral ts := by
  intro depth ranged
  induction ts with
  | nil => rfl
  | cons t ts ih =>
    obtain ⟨hopening, hclosing, hjoins⟩ := h t List.mem_cons_self
    simp only [joinsTerms, Bool.or_eq_false_iff] at hjoins
    simp only [closesAt, hjoins, Bool.false_eq_true, and_false, if_false,
      depthBehind_of_flat hopening hclosing]
    exact ih fun u hu => h u (List.mem_cons_of_mem _ hu)

theorem Neutral.append (hts : Neutral ts) (hus : Neutral us) : Neutral (ts ++ us) := by
  intro depth ranged
  rw [closesAt_append, hts, Option.bind_some, hus]

theorem Neutral.level (h : Neutral ts) : Level ts := fun _ _ => h _ _

theorem Neutral.standing (h : Neutral ts) : Standing ts := ⟨h _ _, h.level⟩

theorem Level.of_flat {p : Token → Bool} (h : Flat p ts) : Level ts := by
  intro depth ranged
  induction ts with
  | nil => rfl
  | cons t ts ih =>
    obtain ⟨hopening, hclosing, -⟩ := h t List.mem_cons_self
    rw [closesAt_inside, depthBehind_of_flat hopening hclosing]
    exact ih fun u hu => h u (List.mem_cons_of_mem _ hu)

theorem Level.append (hts : Level ts) (hus : Level us) : Level (ts ++ us) := by
  intro depth ranged
  rw [closesAt_append, hts, Option.bind_some, hus]

theorem Level.enclosed (h : Level ts) : Neutral (.mark "(" :: (ts ++ [.mark ")"])) := by
  intro depth ranged
  have hopen : ∀ w, (Token.mark "(").isWord w = false := fun _ => rfl
  have hdepth : depthBehind depth (.mark "(") = depth + 1 := rfl
  simp only [closesAt, hopen, Bool.false_eq_true, and_false, if_false, hdepth]
  rw [closesAt_append, h, Option.bind_some, closesAt_inside]
  rfl

/-- The AND of a range belongs to its BETWEEN. -/
theorem Neutral.range {low high : List Token} (hts : Neutral ts) (hlow : Neutral low)
    (hhigh : Neutral high) :
    Standing (ts ++ (.word "between" :: (low ++ .word "and" :: high))) := by
  have hbetween : joinsTerms (.word "between") = true := by decide
  have hor : (Token.word "between").isWord "or" = false ∧ (Token.word "and").isWord "or" = false := by
    decide
  have hand : (Token.word "between").isWord "and" = false ∧
    (Token.word "between").isWord "between" = true ∧ (Token.word "and").isWord "and" = true := by
    decide
  constructor
  · rw [Closed, closesAt_append, hts, Option.bind_some, closesAt]
    simp only [hor, hand, Bool.false_eq_true, and_false, and_self, if_false, if_true]
    rw [closesAt_append, hlow, Option.bind_some, closesAt]
    simp only [hor, hand, Bool.false_eq_true, and_false, and_self, if_false, if_true]
    exact hhigh _ _
  · have hword : ∀ w, Level [.word w] := fun w =>
      .of_flat (p := fun _ => false) (.singleton (by simp) (by simp) rfl)
    exact hts.level.append ((hword _).append (hlow.level.append ((hword _).append hhigh.level)))

theorem Standing.both (hts : Standing ts) (hus : Standing us) :
    Standing (ts ++ .word "AND" :: us) := by
  constructor
  · exact hts.closed.and (by decide) hus.closed
  · have hand : Level [.word "AND"] := .of_flat (p := fun _ => false)
      (.singleton (by simp) (by simp) rfl)
    exact hts.level.append (hand.append hus.level)

end Reader

/-! ## Gaps -/

open Reader

instance {p : Token → Bool} {ts : List Token} : Decidable (Flat p ts) :=
  inferInstanceAs (Decidable (∀ t ∈ ts, t ≠ .mark "(" ∧ t ≠ .mark ")" ∧ p t = false))

def Token.isPlaceholder : Token → Bool
  | .placeholder _ => true
  | _ => false

/-- The tokens of a text that ends the token before it and leaves none open. -/
def gap? (separator : String) : Option (List Token) :=
  match separator.toList, Lexing.run .idle 0 separator.toList with
  | c :: _, .ok (ls, .idle, _) =>
    if Lexing.isSpace c || Lexing.isMark c then some (bare ls) else none
  | _, _ => none

theorem separates_of_gap {separator : String} {st : List Token} (h : gap? separator = some st)
    (hst : ∀ t ∈ st, ∀ n, t ≠ .placeholder n) : Separates separator st := by
  unfold gap? at h
  split at h
  case h_2 => cases h
  case h_1 c cs ls p hchars hrun =>
    split at h
    case isFalse => cases h
    case isTrue hc =>
    cases h
    have hc : Lexing.isSpace c = true ∨ Lexing.isMark c = true := by simpa using hc
    constructor
    case fills => exact .refl hst
    case spells =>
      intro a b ts us ha hb place
      obtain ⟨ls₁, middle, rfl, hleft⟩ := ha place
      obtain ⟨ks, m, behind, hks, hbare, hm⟩ := Lexing.run_unplaced rfl hrun middle
      obtain rfl : m = .idle := by cases m <;> cases hm; rfl
      obtain ⟨ls₂, place', rfl, hright⟩ := hb behind
      refine ⟨ls₁ ++ (ks ++ ls₂), place', ?_, fun rest hrest => ?_⟩
      · rw [← hbare]
        simp [bare]
      · have hends : EndsToken (separator.toList ++ (b ++ rest)) := by
          intro d hd
          rw [hchars] at hd
          cases hd
          exact hc
        rw [List.append_assoc, List.append_assoc, hleft _ hends, Lexing.tokensFrom_run hks,
          hright rest hrest, map_append_append, map_append_append, List.append_assoc]

/-- A gap without placeholders separates. -/
theorem separates_of_holeless {separator : String} {st : List Token}
    (h : gap? separator = some st ∧ ∀ t ∈ st, t.isPlaceholder = false) : Separates separator st := by
  refine separates_of_gap h.1 fun t ht n heq => ?_
  have hnone := h.2 t ht
  rw [heq] at hnone
  cases hnone

/-- The tokens of a text before the quotes that it opens. -/
def openingQuotes? (text : String) : Option (List Token) :=
  match Lexing.run .idle 0 text.toList with
  | .ok (ls, .quoted [] _, _) => some (bare ls)
  | _ => none

/-- A fixed text. -/
theorem spells_fixed {a : String} {ts : List Token} (h : bare <$> tokens a = .ok ts) :
    Spells a.toList ts := by
  obtain ⟨ls, hls, rfl⟩ := Fallible.map_eq_ok.mp h
  exact spells_of_tokens hls

/-- A fixed text that opens quotes, whatever is quoted then. -/
theorem spells_opening {a b : String} {ts : List Token} (h : openingQuotes? a = some ts)
    (hb : '\'' ∉ b.toList) : Spells (a ++ (b ++ "'")).toList (ts ++ [.quoted b]) := by
  unfold openingQuotes? at h
  split at h
  case h_2 => cases h
  case h_1 ls at_ place hrun =>
    cases h
    simpa using spells_quoted hrun hb

/-- Two texts with a gap between them. -/
theorem Spells.gap {a b : String} {ts us : List Token} (separator : String) (st : List Token)
    (hs : gap? separator = some st ∧ ∀ t ∈ st, t.isPlaceholder = false) (ha : Spells a.toList ts)
    (hb : Spells b.toList us) : Spells (a ++ (separator ++ b)).toList (ts ++ (st ++ us)) := by
  simpa using (separates_of_holeless hs).spells ha hb

/-! ## Texts of others -/

/-- Every parenthesis that is closed was opened, if `depth` of them are open before. -/
def opensFirst : Nat → List Token → Bool
  | _, [] => true
  | 0, .mark ")" :: _ => false
  | depth, t :: ts => opensFirst (depthBehind depth t) ts

/-- A comment begins with the first of them: the second stands right behind it. -/
def opensComment (l k : Lexeme) : Bool :=
  k.place == l.place + 1 &&
    [(Token.mark "-", Token.mark "-"), (.mark "/", .mark "*")].contains (l.token, k.token)

/-- No comment begins in the text. -/
def uncommented : List Lexeme → Bool
  | l :: k :: ls => !opensComment l k && uncommented (k :: ls)
  | _ => true

/-- The text can be joined to others by AND. It has no alternatives and no placeholders, leaves no
parenthesis and no range open, closes only what it opened, and what stands behind it is neither
commented out nor in another statement. -/
def standsAlone (text : String) : Bool :=
  match tokens text with
  | .ok ls =>
    decide (Closed (bare ls)) && opensFirst 0 (bare ls) && uncommented ls &&
      (bare ls).all fun t => !t.isPlaceholder && t != .mark ";"
  | .error _ => false

/-! ## Kinds of conditions -/

/-- The tokens of the text, with these values in their places, are of that kind. -/
def Reads (P : List Token → Prop) (text : String) (binds : List String) : Prop :=
  ∃ us, Fragment.Says ⟨text, binds⟩ us ∧ P us

namespace Reads

variable {a b c : String} {as bs cs : List String} {P Q : List Token → Prop}
  {separator opening closing : String} {st ts us : List Token}

theorem imp (ha : Reads P a as) (hP : ∀ us, P us → Q us) : Reads Q a as := by
  obtain ⟨us, hsays, hus⟩ := ha
  exact ⟨us, hsays, hP us hus⟩

theorem blank : Reads Neutral "" [] := ⟨[], .of_spells spells_nil (by simp), fun _ _ => rfl⟩

/-- A text without a condition in it. -/
theorem plain (ha : Plainly a ts) (hts : Flat joinsTerms ts) : Reads Neutral a [] :=
  ⟨ts, ha, .of_flat hts⟩

/-- A fixed text without a value. -/
theorem fixed (htokens : bare <$> tokens a = .ok ts) (hts : Flat joinsTerms ts)
    (hholes : ∀ t ∈ ts, ∀ n, t ≠ .placeholder n) : Reads Neutral a [] :=
  .plain (.of_spells (spells_fixed htokens) hholes) hts

/-- A fixed text with a value at its end. -/
theorem fixedHole (htokens : bare <$> tokens a = .ok (ts ++ [.placeholder none]))
    (hts : Flat joinsTerms ts) (hholes : ∀ t ∈ ts, ∀ n, t ≠ .placeholder n) (v : String) :
    Reads Neutral a [v] := by
  exact ⟨ts ++ [.bound v], ⟨_, spells_fixed htokens, (Fills.refl hholes).append (.hole v .nil)⟩,
    .of_flat (hts.append (.singleton (by simp) (by simp) rfl))⟩

/-- A text that stands by itself. -/
theorem alone (ha : standsAlone a = true) : Reads Closed a [] := by
  unfold standsAlone at ha
  split at ha
  case h_2 => cases ha
  case h_1 ls hls =>
    simp only [Bool.and_eq_true, decide_eq_true_eq, List.all_eq_true, Bool.not_eq_true'] at ha
    obtain ⟨⟨⟨hclosed, -⟩, -⟩, hholes⟩ := ha
    refine ⟨bare ls, .of_spells (spells_of_tokens hls) fun t ht n heq => ?_, hclosed⟩
    obtain ⟨hnone, -⟩ := hholes t ht
    rw [heq] at hnone
    cases hnone

/-- A text that opens quotes, whatever is quoted then. -/
theorem quoted (hopen : openingQuotes? a = some ts) (hts : Flat joinsTerms ts)
    (hholes : ∀ t ∈ ts, ∀ n, t ≠ .placeholder n) (hb : '\'' ∉ b.toList) :
    Reads Neutral (a ++ (b ++ "'")) [] := by
  have hquoted : Flat joinsTerms [.quoted b] := .singleton (by simp) (by simp) rfl
  refine .plain (.of_spells (spells_opening hopen hb) fun t ht => ?_) (hts.append hquoted)
  rcases List.mem_append.mp ht with ht | ht
  · exact hholes t ht
  · simp [List.mem_singleton.mp ht]

theorem says_append (hs : Separates separator st) (ha : Fragment.Says ⟨a, as⟩ ts)
    (hb : Fragment.Says ⟨b, bs⟩ us) :
    Fragment.Says ⟨a ++ (separator ++ b), as ++ bs⟩ (ts ++ (st ++ us)) :=
  Fragment.Says.append (f := ⟨a, as⟩) (g := ⟨b, bs⟩) hs ha hb

theorem neutral (hs : Separates separator st) (hst : Flat joinsTerms st) (ha : Reads Neutral a as)
    (hb : Reads Neutral b bs) : Reads Neutral (a ++ (separator ++ b)) (as ++ bs) := by
  obtain ⟨ts, hts, ha⟩ := ha
  obtain ⟨us, hus, hb⟩ := hb
  exact ⟨_, says_append hs hts hus, ha.append ((Neutral.of_flat hst).append hb)⟩

theorem level {p : Token → Bool} (hs : Separates separator st) (hst : Flat p st)
    (ha : Reads Level a as) (hb : Reads Level b bs) :
    Reads Level (a ++ (separator ++ b)) (as ++ bs) := by
  obtain ⟨ts, hts, ha⟩ := ha
  obtain ⟨us, hus, hb⟩ := hb
  exact ⟨_, says_append hs hts hus, ha.append ((Level.of_flat hst).append hb)⟩

/-- In parentheses any gap without parentheses and placeholders will do. -/
theorem gap (separator : String)
    (hs : (gap? separator).any (fun st => decide (Flat Token.isPlaceholder st)) = true)
    (ha : Reads Level a as) (hb : Reads Level b bs) :
    Reads Level (a ++ (separator ++ b)) (as ++ bs) := by
  obtain ⟨st, hst, hflat⟩ := (Option.any_eq_true _ _).mp hs
  have hflat : Flat Token.isPlaceholder st := of_decide_eq_true hflat
  exact level (separates_of_holeless ⟨hst, fun t ht => (hflat t ht).2.2⟩) hflat ha hb

/-- Whatever stands in parentheses, with something before them and behind them. -/
theorem enclose (ho : Separates opening (st ++ [.mark "("])) (hst : Flat joinsTerms st)
    (hc : Separates closing [.mark ")"]) (ha : Reads Neutral a as) (hb : Reads Level b bs)
    (hc' : Reads Neutral c cs) :
    Reads Neutral (a ++ (opening ++ (b ++ (closing ++ c)))) (as ++ (bs ++ cs)) := by
  obtain ⟨ts, hts, ha⟩ := ha
  obtain ⟨us, hus, hb⟩ := hb
  obtain ⟨vs, hvs, hc'⟩ := hc'
  have hneutral := ha.append ((Neutral.of_flat hst).append (hb.enclosed.append hc'))
  have hassoc : ts ++ ((st ++ [.mark "("]) ++ (us ++ ([.mark ")"] ++ vs)))
      = ts ++ (st ++ (.mark "(" :: (us ++ [.mark ")"]) ++ vs)) := by simp
  have hsays := says_append ho hts (says_append hc hus hvs)
  rw [hassoc] at hsays
  exact ⟨_, hsays, hneutral⟩

/-- A range, with its low and its high end. -/
theorem range (hbetween : Separates opening (st ++ [.word "between"])) (hst : Flat joinsTerms st)
    (hand : Separates separator [.word "and"]) (ha : Reads Neutral a as) (hb : Reads Neutral b bs)
    (hc : Reads Neutral c cs) :
    Reads Standing (a ++ (opening ++ (b ++ (separator ++ c)))) (as ++ (bs ++ cs)) := by
  obtain ⟨ts, hts, ha⟩ := ha
  obtain ⟨us, hus, hb⟩ := hb
  obtain ⟨vs, hvs, hc⟩ := hc
  have hstanding := (ha.append (Neutral.of_flat hst)).range hb hc
  have hassoc : ts ++ ((st ++ [.word "between"]) ++ (us ++ ([.word "and"] ++ vs)))
      = ts ++ st ++ (.word "between" :: (us ++ .word "and" :: vs)) := by simp
  have hsays := says_append hbetween hts (says_append hand hus hvs)
  rw [hassoc] at hsays
  exact ⟨_, hsays, hstanding⟩

/-- Two conditions joined by AND. -/
theorem both (hs : Separates separator [.word "AND"]) (ha : Reads Standing a as)
    (hb : Reads Standing b bs) : Reads Standing (a ++ (separator ++ b)) (as ++ bs) := by
  obtain ⟨ts, hts, ha⟩ := ha
  obtain ⟨us, hus, hb⟩ := hb
  exact ⟨_, says_append hs hts hus, ha.both hb⟩

end Reads

/-! ## Terms joined by AND -/

/-- What is read of a fragment, with its values in their places. -/
def Fragment.lexemes (f : Fragment) : Except Fault (List Lexeme) := fill f.binds 0 <$> tokens f.sql

theorem Fragment.Says.lexemes {f : Fragment} {ts : List Token} (h : f.Says ts) :
    ∃ ls, f.lexemes = .ok ls ∧ bare ls = ts := by
  obtain ⟨ls, hls, hfill, -⟩ := h.tokens
  exact ⟨fill f.binds 0 ls, Fallible.map_eq_ok.mpr ⟨ls, hls, rfl⟩, hfill⟩

namespace Clauses

/-- What stands behind WHERE, with its values. -/
def condition (k : Clauses) : Fragment :=
  ⟨" AND ".intercalate (k.terms.map (·.render.sql)), k.terms.flatMap (·.render.binds)⟩

theorem whereText_eq {k : Clauses} (h : k.terms ≠ []) :
    k.whereText = " where " ++ k.condition.sql := by
  rw [whereText, if_neg (by simpa using h), condition]

/-- The term is read as these tokens, places aside. -/
def IsPart (t : Term) (part : List Lexeme) : Prop :=
  ∃ own, t.render.lexemes = .ok own ∧ bare own = bare part

/-- Closed terms are the conjuncts of what stands behind WHERE. -/
theorem reads_conjunction {k : Clauses} (hne : k.terms ≠ [])
    (h : ∀ t ∈ k.terms, Reads Closed t.render.sql t.render.binds) :
    ∃ ls parts, k.condition.lexemes = .ok ls ∧ List.Forall₂ IsPart k.terms parts ∧
      Conjunction ls parts := by
  have hand : Separates " AND " [.word "AND"] := separates_word rfl (by decide)
  obtain ⟨tss, htss⟩ := exists_forall₂ h
  have hsays : List.Forall₂ Fragment.Says (k.terms.map Term.render) tss :=
    List.forall₂_map_left_iff.mpr (htss.imp fun _ _ hread => hread.1)
  have hclosed : ∀ ts ∈ tss, Closed ts := fun ts hts => by
    obtain ⟨t, -, -, hts⟩ := exists_of_forall₂ htss hts
    exact hts
  have hnonempty : k.terms.map Term.render ≠ [] := by simpa using hne
  have htssNe : tss ≠ [] := by
    rintro rfl
    exact hnonempty (List.forall₂_nil_right_iff.mp hsays)
  obtain ⟨ls, hls, hbare⟩ := (Fragment.Says.intercalate hand hnonempty hsays).lexemes
  obtain ⟨parts, rfl, hclosedAll, hterms⟩ := exists_parts htssNe hclosed hbare
  refine ⟨ls, parts, ?_, ?_, conjunction_of_closed hclosedAll (by simpa using hclosed) hterms⟩
  · rwa [List.map_map, List.flatMap_map] at hls
  · exact (List.forall₂_map_right_iff.mp htss).imp fun _ _ hread => hread.1.lexemes

end Clauses

end CatalogQuery.Sql
