import CatalogQuery.Catalog.Evaluate
import CatalogQuery.Proofs.SideBySide
import CatalogQuery.Proofs.Sql.Standing

/-!
# Conditions joined by AND

A condition is cut at OR first, then at AND, where the AND of a range cuts nothing. Texts that leave
no parenthesis and no range open and have no alternatives of their own can be joined by AND: the whole
is read as the conjunction of the parts.

* `Reader.holds`: what a condition says, by its terms, with `Reader.truth_condition` for its formula;
* `Reader.closesAt`: how a text leaves its surroundings, part by part;
* `Reader.exists_parts`: closed texts joined by AND have the terms of all of them;
* `Reader.conjunction_of_closed`: so they are read as their conjunction.
-/

namespace CatalogQuery.Sql

open Fallible

namespace Reader

/-! ## What a condition says -/

/-- A condition holds if all terms of one of its alternatives do; `v` tells which terms hold. -/
def holds (v : List Lexeme → Bool) (ls : List Lexeme) : Bool :=
  (pieces (·.isWord "or") 0 ls).any fun alternative => (terms 0 false alternative).all v

section Truth

variable {tables : Tables} {s : Scope}

theorem truth_and {f g : Formula} : (Formula.and f g).truth tables s = some true ↔
    f.truth tables s = some true ∧ g.truth tables s = some true := by
  rw [Formula.truth]
  rcases f.truth tables s with _ | _ | _ <;> rcases g.truth tables s with _ | _ | _ <;>
    simp [bothTrue]

theorem truth_or {f g : Formula} : (Formula.or f g).truth tables s = some true ↔
    f.truth tables s = some true ∨ g.truth tables s = some true := by
  rw [Formula.truth]
  rcases f.truth tables s with _ | _ | _ <;> rcases g.truth tables s with _ | _ | _ <;>
    simp [eitherTrue]

theorem truth_joined_and {fs : List Formula} {f : Formula} (h : joined .and fs = .ok f) :
    f.truth tables s = some true ↔ ∀ g ∈ fs, g.truth tables s = some true := by
  cases fs with
  | nil => cases h
  | cons g fs =>
    cases h
    induction fs generalizing g with
    | nil => simp
    | cons k fs ih => simp [ih, truth_and, and_assoc]

theorem truth_joined_or {fs : List Formula} {f : Formula} (h : joined .or fs = .ok f) :
    f.truth tables s = some true ↔ ∃ g ∈ fs, g.truth tables s = some true := by
  cases fs with
  | nil => cases h
  | cons g fs =>
    cases h
    induction fs generalizing g with
    | nil => simp
    | cons k fs ih => simp [ih, truth_or, or_assoc]

/-- The term is read as a formula that is true. -/
def termHolds (fuel : Nat) (tables : Tables) (s : Scope) (ls : List Lexeme) : Bool :=
  match term (condition fuel) ls with
  | .ok g => g.truth tables s == some true
  | .error _ => false

/-- The formula of a condition is true where the condition holds. -/
theorem truth_condition {fuel : Nat} {ls : List Lexeme} {f : Formula}
    (h : condition (fuel + 1) ls = .ok f) :
    f.truth tables s = some true ↔ holds (termHolds fuel tables s) ls = true := by
  have halternative : ∀ (alternative : List Lexeme) (g : Formula),
      (do joined .and (← (terms 0 false alternative).mapM (term (condition fuel)))) = .ok g →
      (terms 0 false alternative).all (termHolds fuel tables s)
        = (g.truth tables s == some true) := by
    intro alternative g hg
    obtain ⟨gs, hgs, hg⟩ := bind_eq_ok.mp hg
    have hterms : (terms 0 false alternative).all (termHolds fuel tables s)
        = gs.all fun g => g.truth tables s == some true := by
      apply all_eq_of_forall₂
      exact (mapM_eq_ok.mp hgs).imp fun _ _ hx => by rw [termHolds, hx]
    rw [hterms, Bool.eq_iff_iff, List.all_eq_true, beq_iff_eq, truth_joined_and hg]
    simp only [beq_iff_eq]
  obtain ⟨fs, hfs, hf⟩ := bind_eq_ok.mp h
  have halternatives : holds (termHolds fuel tables s) ls
      = fs.any fun g => g.truth tables s == some true := by
    apply any_eq_of_forall₂
    exact (mapM_eq_ok.mp hfs).imp halternative
  rw [halternatives, truth_joined_or hf, List.any_eq_true]
  simp only [beq_iff_eq]

end Truth

/-! ## Closed texts -/

/-- The depth behind a text, and whether a range is open there, if nothing in it cuts alternatives. -/
def closesAt : Nat → Bool → List Token → Option (Nat × Bool)
  | depth, ranged, [] => some (depth, ranged)
  | depth, ranged, t :: ts =>
    if depth = 0 ∧ t.isWord "or" then none
    else if depth = 0 ∧ t.isWord "and" then closesAt 0 false ts
    else if depth = 0 ∧ t.isWord "between" then closesAt 0 true ts
    else closesAt (depthBehind depth t) ranged ts

/-- A text without alternatives that leaves no parenthesis and no range open. -/
def Closed (ts : List Token) : Prop := closesAt 0 false ts = some (0, false)

instance (ts : List Token) : Decidable (Closed ts) :=
  inferInstanceAs (Decidable (closesAt 0 false ts = some (0, false)))

theorem closesAt_append (depth : Nat) (ranged : Bool) (ts us : List Token) :
    closesAt depth ranged (ts ++ us)
      = (closesAt depth ranged ts).bind fun r => closesAt r.1 r.2 us := by
  induction ts generalizing depth ranged with
  | nil => rfl
  | cons t ts ih =>
    rw [List.cons_append, closesAt, closesAt]
    split_ifs
    · rfl
    · exact ih _ _
    · exact ih _ _
    · exact ih _ _

variable {ls : List Lexeme} {depth : Nat} {ranged : Bool}

theorem terms_ne_nil (depth : Nat) (ranged : Bool) (ls : List Lexeme) :
    terms depth ranged ls ≠ [] := by
  have hglue : ∀ (l : Lexeme) (ps : List (List Lexeme)), glue l ps ≠ [] := by
    intro l ps
    cases ps <;> simp [glue]
  cases ls with
  | nil => simp [terms]
  | cons l ls =>
    rw [terms]
    split_ifs
    · exact hglue _ _
    · simp
    · exact hglue _ _
    · exact hglue _ _

theorem glue_append (l : Lexeme) {ps : List (List Lexeme)} (h : ps ≠ []) (qs : List (List Lexeme)) :
    glue l (ps ++ qs) = glue l ps ++ qs := by
  cases ps with
  | nil => exact absurd rfl h
  | cons p ps => rfl

theorem depthBehind_of_isWord {t : Token} {w : String} (h : t.isWord w = true) (depth : Nat) :
    depthBehind depth t = depth := by
  cases t with
  | mark m => simp [Token.isWord, Token.lower?] at h
  | _ => rfl

/-- Nothing is cut off a text without alternatives. -/
theorem pieces_closed (h : (closesAt depth ranged (bare ls)).isSome = true) :
    pieces (·.isWord "or") depth ls = [ls] := by
  induction ls generalizing depth ranged with
  | nil => rfl
  | cons l ls ih =>
    rw [bare_cons, closesAt] at h
    split_ifs at h with hor hand hbetween
    · cases h
    · rw [pieces, if_neg hor, depthBehind_of_isWord hand.2, hand.1, ih h, glue]
    · rw [pieces, if_neg hor, depthBehind_of_isWord hbetween.2, hbetween.1, ih h, glue]
    · rw [pieces, if_neg hor, ih h, glue]

/-- At an AND behind a closed text its terms are complete. -/
theorem terms_closed {l : Lexeme} (hl : l.token.isWord "and" = true) (rest : List Lexeme)
    (h : closesAt depth ranged (bare ls) = some (0, false)) :
    terms depth ranged (ls ++ l :: rest) = terms depth ranged ls ++ terms 0 false rest := by
  induction ls generalizing depth ranged with
  | nil =>
    cases h
    simp [terms, hl]
  | cons b ls ih =>
    rw [bare_cons, closesAt] at h
    rw [List.cons_append, terms, terms]
    split_ifs at h ⊢ with hor hand hranged hbetween
    · rw [ih h, glue_append _ (terms_ne_nil _ _ _)]
    · rw [ih h, List.cons_append]
    · rw [ih h, glue_append _ (terms_ne_nil _ _ _)]
    · rw [ih h, glue_append _ (terms_ne_nil _ _ _)]

theorem Closed.and {ts us : List Token} {t : Token} (hts : Closed ts) (ht : t.isWord "and" = true)
    (hus : Closed us) : Closed (ts ++ t :: us) := by
  have hor : t.isWord "or" = false := by
    rw [Token.isWord, beq_iff_eq] at ht
    simp [Token.isWord, ht]
  rw [Closed, closesAt_append, show closesAt 0 false ts = some (0, false) from hts,
    Option.bind_some, closesAt]
  simp only [hor, ht, Bool.false_eq_true, and_false, if_false, and_self, if_true]
  exact hus

/-- Closed texts between ANDs are closed together, and have the terms of all of them. -/
theorem exists_parts {tss : List (List Token)} (hne : tss ≠ []) (hclosed : ∀ ts ∈ tss, Closed ts)
    (hls : bare ls = [.word "AND"].intercalate tss) :
    ∃ parts : List (List Lexeme), parts.map bare = tss ∧ Closed (bare ls) ∧
      terms 0 false ls = parts.flatMap (terms 0 false) := by
  induction tss generalizing ls with
  | nil => exact absurd rfl hne
  | cons ts tss ih =>
    have hts : Closed ts := hclosed ts List.mem_cons_self
    cases tss with
    | nil =>
      rw [List.intercalate_singleton] at hls
      exact ⟨[ls], by rw [List.map_singleton, hls], hls ▸ hts, by simp⟩
    | cons us tss =>
      rw [List.intercalate_cons_cons, List.append_assoc] at hls
      obtain ⟨before, rest, rfl, hbefore, hrest⟩ := bare_eq_append.mp hls
      obtain ⟨l, after, rfl, hl, hafter⟩ := bare_eq_cons.mp hrest
      have hand : l.token.isWord "and" = true := by
        rw [hl]
        decide
      obtain ⟨parts, hparts, hclosedAfter, hterms⟩ :=
        ih (by simp) (fun us hus => hclosed us (List.mem_cons_of_mem _ hus)) hafter
      refine ⟨before :: parts, by rw [List.map_cons, hbefore, hparts], ?_, ?_⟩
      · have hbare : bare (before ++ l :: after) = bare before ++ l.token :: bare after := by
          simp [bare]
        rw [hbare, hbefore]
        exact hts.and hand hclosedAfter
      · rw [terms_closed hand _ (hbefore ▸ hts), hterms, List.flatMap_cons]

/-! ## Conjunctions -/

theorem holds_closed (h : Closed (bare ls)) (v : List Lexeme → Bool) :
    holds v ls = (terms 0 false ls).all v := by
  have hsome : (closesAt 0 false (bare ls)).isSome = true := by
    rw [show closesAt 0 false (bare ls) = some (0, false) from h]
    rfl
  rw [holds, pieces_closed hsome, List.any_cons, List.any_nil, Bool.or_false]

theorem condition_closed (h : Closed (bare ls)) {fuel : Nat} {f : Formula} :
    condition (fuel + 1) ls = .ok f ↔
      ∃ fs, List.Forall₂ (fun x g => term (condition fuel) x = .ok g) (terms 0 false ls) fs ∧
        joined .and fs = .ok f := by
  have hsome : (closesAt 0 false (bare ls)).isSome = true := by
    rw [show closesAt 0 false (bare ls) = some (0, false) from h]
    rfl
  rw [condition, pieces_closed hsome, bind_eq_ok]
  simp only [mapM_eq_ok, List.forall₂_cons_left_iff, List.forall₂_nil_left_iff, bind_eq_ok]
  constructor
  · rintro ⟨_, ⟨g, _, ⟨fs, hfs, hg⟩, rfl, rfl⟩, hf⟩
    cases hf
    exact ⟨fs, hfs, hg⟩
  · rintro ⟨fs, hfs, hf⟩
    exact ⟨[f], ⟨f, [], ⟨fs, hfs, hf⟩, rfl, rfl⟩, rfl⟩

/-- The condition is read as the conjunction of its parts: whatever its terms say, it holds iff all
parts do, and if it has a formula, so have the parts, and it is true where all of these are. -/
structure Conjunction (ls : List Lexeme) (parts : List (List Lexeme)) : Prop where
  holds : ∀ v, Reader.holds v ls = parts.all (Reader.holds v)
  truth : ∀ fuel f, condition fuel ls = .ok f → ∃ gs,
    List.Forall₂ (fun part g => condition fuel part = .ok g) parts gs ∧
    ∀ (tables : Tables) (s : Scope),
      f.truth tables s = some true ↔ ∀ g ∈ gs, g.truth tables s = some true

/-- Closed texts whose terms are those of a closed text make up a conjunction. -/
theorem conjunction_of_closed {parts : List (List Lexeme)} (hls : Closed (bare ls))
    (hparts : ∀ part ∈ parts, Closed (bare part))
    (hterms : terms 0 false ls = parts.flatMap (terms 0 false)) : Conjunction ls parts := by
  have hholds : ∀ v, Reader.holds v ls = parts.all (Reader.holds v) := by
    intro v
    rw [holds_closed hls, hterms, List.all_flatMap]
    rw [Bool.eq_iff_iff, List.all_eq_true, List.all_eq_true]
    exact forall₂_congr fun part hpart => by rw [holds_closed (hparts part hpart) v]
  refine ⟨hholds, fun fuel f hf => ?_⟩
  cases fuel with
  | zero => cases hf
  | succ fuel =>
    obtain ⟨fs, hfs, -⟩ := (condition_closed hls).mp hf
    have hpart : ∀ part ∈ parts, ∃ g, condition (fuel + 1) part = .ok g := by
      intro part hpart
      have hread : ∀ x ∈ terms 0 false part, ∃ g, term (condition fuel) x = .ok g := by
        intro x hx
        have hmem : x ∈ terms 0 false ls := hterms ▸ List.mem_flatMap.mpr ⟨part, hpart, hx⟩
        obtain ⟨g, -, hg⟩ := exists_right_of_forall₂ hfs hmem
        exact ⟨g, hg⟩
      obtain ⟨ks, hks⟩ := exists_forall₂ hread
      obtain ⟨g, hg⟩ : ∃ g, joined .and ks = .ok g := by
        have hne := terms_ne_nil 0 false part
        generalize terms 0 false part = ts at hks hne
        cases hks with
        | nil => exact absurd rfl hne
        | cons _ _ => exact ⟨_, rfl⟩
      exact ⟨g, (condition_closed (hparts part hpart)).mpr ⟨ks, hks, hg⟩⟩
    obtain ⟨gs, hgs⟩ := exists_forall₂ hpart
    refine ⟨gs, hgs, fun tables s => ?_⟩
    have hall : parts.all (Reader.holds (termHolds fuel tables s))
        = gs.all fun g => g.truth tables s == some true := by
      apply all_eq_of_forall₂
      refine hgs.imp fun part g hg => ?_
      rw [Bool.eq_iff_iff, ← truth_condition hg, beq_iff_eq]
    rw [truth_condition hf, hholds, hall, List.all_eq_true]
    simp only [beq_iff_eq]

end Reader

end CatalogQuery.Sql
