import CatalogQuery.Proofs.Sql.Sections

/-!
# Texts that stand by themselves

A text that is a list of tokens when it stands alone is the same list wherever it stands, as long as
its last token ends with it. So what is known of a text alone is known of it in a statement.

* `Lexing.run_append`: a text is read part by part;
* `Lexing.run_unplaced`: the place of a text changes no token;
* `spells_of_tokens`: a text has its tokens wherever it stands;
* `spells_quoted`: so has a text that ends in quotes, whatever is quoted.
-/

namespace CatalogQuery.Sql

open Fallible

namespace Lexing

variable {m m' n : Lexing} {c : Char} {cs ds : List Char} {place place' : Nat}
  {ls ks : List Lexeme}

/-! ## Reading a part -/

/-- The mode behind a text and its place, with the tokens that are complete by then. -/
def run (m : Lexing) (place : Nat) : List Char → Except Fault (List Lexeme × Lexing × Nat)
  | [] => .ok ([], m, place)
  | c :: cs => do
    let (ls, m) ← m.step c place
    let (more, r) ← run m (place + c.utf8Size) cs
    return (ls ++ more, r)

theorem run_cons {r : Lexing × Nat} : run m place (c :: cs) = .ok (ls, r) ↔
    ∃ first n more, m.step c place = .ok (first, n) ∧
      run n (place + c.utf8Size) cs = .ok (more, r) ∧ ls = first ++ more := by
  rw [run, bind_eq_ok]
  constructor
  · rintro ⟨⟨first, n⟩, hstep, h⟩
    obtain ⟨⟨more, r'⟩, hrun, h⟩ := bind_eq_ok.mp h
    cases h
    exact ⟨first, n, more, hstep, hrun, rfl⟩
  · rintro ⟨first, n, more, hstep, hrun, rfl⟩
    exact ⟨(first, n), hstep, bind_eq_ok.mpr ⟨(more, r), hrun, rfl⟩⟩

theorem run_append (h : run m place cs = .ok (ls, n, place'))
    {r : Lexing × Nat} (h' : run n place' ds = .ok (ks, r)) :
    run m place (cs ++ ds) = .ok (ls ++ ks, r) := by
  induction cs generalizing m place ls with
  | nil =>
    cases h
    exact h'
  | cons c cs ih =>
    obtain ⟨first, m₁, more, hstep, hrun, rfl⟩ := run_cons.mp h
    rw [List.cons_append, run_cons]
    exact ⟨first, m₁, more ++ ks, hstep, ih hrun, List.append_assoc ..⟩

/-- The tokens of a text are those complete behind a part of it, then those of the rest. -/
theorem tokensFrom_run (h : run m place cs = .ok (ls, n, place')) (rest : List Char) :
    tokensFrom m place (cs ++ rest) = (ls ++ ·) <$> tokensFrom n place' rest := by
  induction cs generalizing m place ls with
  | nil =>
    cases h
    rw [List.nil_append]
    cases tokensFrom n place' rest <;> rfl
  | cons c cs ih =>
    obtain ⟨first, m₁, more, hstep, hrun, rfl⟩ := run_cons.mp h
    rw [List.cons_append, tokensFrom, hstep]
    simp only [bind, Except.bind, ih hrun]
    cases tokensFrom n place' rest with
    | error e => rfl
    | ok ks => simp [Functor.map, Except.map, pure, Except.pure]

/-- A whole text is read up to its end, where its last token is complete. -/
theorem tokensFrom_eq_ok (h : tokensFrom m place cs = .ok ls) :
    ∃ first n place' last, run m place cs = .ok (first, n, place') ∧ n.finish = .ok last ∧
      ls = first ++ last := by
  induction cs generalizing m place ls with
  | nil => exact ⟨[], m, place, ls, rfl, h, rfl⟩
  | cons c cs ih =>
    rw [tokensFrom] at h
    obtain ⟨⟨first, m₁⟩, hstep, h⟩ := bind_eq_ok.mp h
    obtain ⟨rest, hrest, h⟩ := bind_eq_ok.mp h
    cases h
    obtain ⟨more, n, place', last, hrun, hlast, rfl⟩ := ih hrest
    exact ⟨first ++ more, n, place', last, run_cons.mpr ⟨first, m₁, more, hstep, hrun, rfl⟩, hlast,
      (List.append_assoc ..).symm⟩

/-! ## Places -/

/-- The mode without the place of its token. -/
def unplaced : Lexing → Lexing
  | idle => idle
  | word done _ => word done 0
  | quoted done _ => quoted done 0
  | quote done _ => quote done 0
  | placeholder digits _ => placeholder digits 0
  | mark c _ => mark c 0

/-- The tokens and the mode behind a character, without places. -/
def bareStep : Except Fault (List Lexeme × Lexing) → Option (List Token × Lexing)
  | .ok (ls, m) => some (bare ls, m.unplaced)
  | .error _ => none

theorem bareStep_eq {a b : Except Fault (List Lexeme × Lexing)} (h : bareStep a = bareStep b)
    (ha : a = .ok (ls, n)) :
    ∃ ks n', b = .ok (ks, n') ∧ bare ks = bare ls ∧ n'.unplaced = n.unplaced := by
  subst ha
  cases b with
  | error e => cases h
  | ok r =>
    obtain ⟨ks, n'⟩ := r
    simp only [bareStep, Option.some.injEq, Prod.mk.injEq] at h
    exact ⟨ks, n', rfl, h.1.symm, h.2.symm⟩

theorem start_unplaced (c : Char) (place place' : Nat) :
    bareStep (start c place) = bareStep (start c place') := by
  unfold start
  split_ifs <;> rfl

theorem finish_unplaced (m : Lexing) :
    (m.finish.toOption).map bare = (m.unplaced.finish.toOption).map bare := by
  cases m with
  | word done at_ =>
    simp only [finish, unplaced, endWord]
    split_ifs <;> rfl
  | _ => rfl

/-- What a token that ends here and the next one come to. -/
theorem begin_unplaced (h : m.unplaced = m'.unplaced) (c : Char) (place place' : Nat) :
    bareStep (do
        let done ← m.finish
        let (more, m) ← start c place
        return (done ++ more, m))
      = bareStep (do
        let done ← m'.finish
        let (more, m) ← start c place'
        return (done ++ more, m)) := by
  have hfinish : (m.finish.toOption).map bare = (m'.finish.toOption).map bare := by
    rw [finish_unplaced m, finish_unplaced m', h]
  have hstart := start_unplaced c place place'
  cases hm : m.finish with
  | error e =>
    cases hm' : m'.finish with
    | error e' => rfl
    | ok ks => simp [hm, hm', Except.toOption] at hfinish
  | ok ls =>
    cases hm' : m'.finish with
    | error e' => simp [hm, hm', Except.toOption] at hfinish
    | ok ks =>
      simp only [hm, hm', Except.toOption, Option.map_some, Option.some.injEq] at hfinish
      cases hs : start c place with
      | error e =>
        cases hs' : start c place' with
        | error e' => rfl
        | ok r => simp [hs, hs', bareStep] at hstart
      | ok r =>
        cases hs' : start c place' with
        | error e' => simp [hs, hs', bareStep] at hstart
        | ok r' =>
          simp only [hs, hs', bareStep, Option.some.injEq, Prod.mk.injEq] at hstart
          simp [bind, Except.bind, pure, Except.pure, bareStep, bare] at hfinish hstart ⊢
          exact ⟨by rw [hfinish, hstart.1], hstart.2⟩

theorem step_unplaced (h : m.unplaced = m'.unplaced) (c : Char) (place place' : Nat) :
    bareStep (m.step c place) = bareStep (m'.step c place') := by
  have hbegin := begin_unplaced h c place place'
  cases m <;> cases m' <;> simp only [unplaced, word.injEq, quoted.injEq, quote.injEq,
    placeholder.injEq, mark.injEq, and_true, reduceCtorEq] at h
  case idle.idle => exact start_unplaced c place place'
  case word.word =>
    subst h
    simp only [step]
    split_ifs
    · rfl
    · exact hbegin
  case quoted.quoted =>
    subst h
    simp only [step]
    split_ifs <;> rfl
  case quote.quote =>
    subst h
    simp only [step]
    split_ifs
    · rfl
    · exact hbegin
  case placeholder.placeholder =>
    subst h
    simp only [step]
    split_ifs
    · rfl
    · exact hbegin
  case mark.mark =>
    subst h
    simp only [step]
    split
    · rfl
    · exact hbegin

/-- The place of a text changes no token. -/
theorem run_unplaced (h : m.unplaced = m'.unplaced) (hrun : run m place cs = .ok (ls, n, place'))
    (at_ : Nat) : ∃ ks n' place'', run m' at_ cs = .ok (ks, n', place'') ∧ bare ks = bare ls ∧
      n'.unplaced = n.unplaced := by
  induction cs generalizing m m' place at_ ls with
  | nil =>
    cases hrun
    exact ⟨[], m', at_, rfl, rfl, h.symm⟩
  | cons c cs ih =>
    obtain ⟨first, m₁, more, hstep, hrest, rfl⟩ := run_cons.mp hrun
    obtain ⟨first', m₁', hstep', hfirst, hm₁⟩ := bareStep_eq (step_unplaced h c place at_) hstep
    obtain ⟨more', n', place'', hrest', hmore, hn⟩ := ih hm₁.symm hrest (at_ + c.utf8Size)
    refine ⟨first' ++ more', n', place'', run_cons.mpr ⟨_, _, _, hstep', hrest', rfl⟩, ?_, hn⟩
    simp only [bare, List.map_append] at hfirst hmore ⊢
    rw [hfirst, hmore]

/-! ## Ends of tokens -/

theorem pair?_of_ends (a : Char) (hc : isSpace c = true ∨ isMark c = true) : pair? a c = none := by
  have hlast : ∀ s ∈ ["<=", "<>", "<<", ">=", ">>", "!=", "==", "||"],
      s.toList.getLast? ∈ [some '=', some '>', some '<', some '|'] := by decide
  unfold pair?
  rw [if_neg]
  intro h
  have hmem := hlast _ (List.contains_iff_mem.mp h)
  simp only [String.toList_ofList, List.getLast?_cons_cons, List.getLast?_singleton, List.mem_cons,
    Option.some.injEq, List.not_mem_nil, or_false] at hmem
  rcases hmem with rfl | rfl | rfl | rfl <;> revert hc <;> decide

/-- Where a token ends it is complete, and the next one starts. -/
theorem step_of_ends (hm : m.finish = .ok ls) (hc : isSpace c = true ∨ isMark c = true)
    (place : Nat) : m.step c place = do
      let (more, n) ← start c place
      return (ls ++ more, n) := by
  obtain ⟨hword, hdigit, -⟩ := of_ends hc
  cases m with
  | idle =>
    cases hm
    simp only [step]
    cases start c place <;> rfl
  | word done at_ => simp [step, hword, hm, bind, Except.bind]
  | quoted done at_ => cases hm
  | quote done at_ =>
    have hquote : c ≠ '\'' := by
      rintro rfl
      revert hc
      decide
    simp [step, hquote, hm, bind, Except.bind]
  | placeholder digits at_ => simp [step, hdigit, hm, bind, Except.bind]
  | mark a at_ =>
    have hpair : pair? a c = none := pair?_of_ends a hc
    simp [step, hpair, hm, bind, Except.bind]

end Lexing

/-- A text has the tokens that are read of it alone wherever it stands. -/
theorem spells_of_run {text : List Char} {ls last : List Lexeme} {m : Lexing} {place : Nat}
    (hrun : Lexing.run .idle 0 text = .ok (ls, m, place)) (hlast : m.finish = .ok last) :
    Spells text (bare (ls ++ last)) := by
  intro at_
  obtain ⟨ks, n, place', hks, hbare, hn⟩ := Lexing.run_unplaced rfl hrun at_
  obtain ⟨last', hlast', hbareLast⟩ : ∃ last', n.finish = .ok last' ∧ bare last' = bare last := by
    have hfinish : (n.finish.toOption).map bare = (m.finish.toOption).map bare := by
      rw [Lexing.finish_unplaced n, Lexing.finish_unplaced m, hn]
    rw [hlast] at hfinish
    cases hn' : n.finish with
    | error e => simp [hn', Except.toOption] at hfinish
    | ok last' => exact ⟨last', rfl, by simpa [hn', Except.toOption] using hfinish⟩
  refine ⟨ks ++ last', place', ?_, fun rest hrest => ?_⟩
  · simp only [bare, List.map_append] at hbare hbareLast ⊢
    rw [hbare, hbareLast]
  · rw [Lexing.tokensFrom_run hks, tokensFrom_of_finish hlast', map_append_append]
    exact fun c hc => Lexing.step_of_ends hlast' (hrest c hc) place'

theorem spells_of_tokens {text : String} {ls : List Lexeme} (h : tokens text = .ok ls) :
    Spells text.toList (bare ls) := by
  obtain ⟨first, m, place, last, hrun, hlast, rfl⟩ := Lexing.tokensFrom_eq_ok h
  exact spells_of_run hrun hlast

/-! ## Quoted texts -/

theorem Lexing.run_quoted {q : List Char} (hq : '\'' ∉ q) (done : List Char) (at_ place : Nat) :
    ∃ place', Lexing.run (.quoted done at_) place q
      = .ok ([], .quoted (q.reverse ++ done) at_, place') := by
  induction q generalizing done place with
  | nil => exact ⟨place, rfl⟩
  | cons c q ih =>
    obtain ⟨hc, hq⟩ : '\'' ≠ c ∧ '\'' ∉ q := by simpa using hq
    obtain ⟨place', hrun⟩ := ih hq (c :: done) (place + c.utf8Size)
    refine ⟨place', Lexing.run_cons.mpr ⟨[], .quoted (c :: done) at_, [], ?_, ?_, rfl⟩⟩
    · simp [Lexing.step, Ne.symm hc]
    · simpa using hrun

/-- A text that opens quotes, whatever is quoted then. -/
theorem spells_quoted {text q : List Char} {ls : List Lexeme} {at_ place : Nat}
    (htext : Lexing.run .idle 0 text = .ok (ls, .quoted [] at_, place)) (hq : '\'' ∉ q) :
    Spells (text ++ (q ++ ['\''])) (bare ls ++ [.quoted (String.ofList q)]) := by
  obtain ⟨place', hquoted⟩ := Lexing.run_quoted hq [] at_ place
  have hclose : Lexing.run (.quoted (q.reverse ++ []) at_) place' ['\'']
      = .ok ([], .quote (q.reverse ++ []) at_, place' + '\''.utf8Size) := rfl
  have hrun := Lexing.run_append htext (Lexing.run_append hquoted hclose)
  have hspells := spells_of_run hrun rfl
  simpa [bare] using hspells

end CatalogQuery.Sql
