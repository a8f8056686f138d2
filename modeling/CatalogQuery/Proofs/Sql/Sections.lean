import CatalogQuery.Proofs.Fallible
import CatalogQuery.Proofs.Sql.Spelling
import CatalogQuery.Sql.Clauses

/-!
# The sections of a statement

Clauses are written section by section, and a statement is read the same way: each section goes up to
the word that begins the next one. What stands in the sections may not hold such a word, and no
parentheses, within which no section ends.

* `Flat`: tokens among which a text is not cut;
* `Clauses.says_statement`: the tokens that clauses are written as;
* `Reader.sections_bare`: the sections that are read of such tokens.
-/

namespace CatalogQuery.Sql

/-! ## Writing -/

/-- The text has these tokens, and no placeholder among them. -/
def Plainly (text : String) (ts : List Token) : Prop := Fragment.Says ⟨text, []⟩ ts

/-- A section of a statement, behind the words that begin it. -/
def sectionTokens (words : List String) : Option (List Token) → List Token
  | none => []
  | some ts => words.map .word ++ ts

/-- The tokens of a statement by its sections. -/
def statementTokens (outputs sources : List Token) (condition order : Option (List Token)) :
    List Token :=
  .word "select" :: .word "distinct" :: (outputs ++ .word "from" :: (sources ++
    (sectionTokens ["where"] condition ++ sectionTokens ["order", "by"] order)))

/-- Pieces with a separator between them, if there are any. -/
def listed? (st : List Token) (tss : List (List Token)) : Option (List Token) :=
  if tss.isEmpty then none else some (st.intercalate tss)

theorem spells_words {v w : String} (hv : isWordText v.toList = true)
    (hw : isWordText w.toList = true) : Spells (v ++ " " ++ w).toList [.word v, .word w] := by
  simpa using (spells_word hv).space (spells_word hw)

theorem plainly_intercalate {separator : String} {st : List Token} {texts : List String}
    {tss : List (List Token)} (hs : Separates separator st) (hne : texts ≠ [])
    (h : List.Forall₂ Plainly texts tss) :
    Plainly (separator.intercalate texts) (st.intercalate tss) := by
  have hmap : List.Forall₂ Fragment.Says (texts.map fun t => ⟨t, []⟩) tss :=
    List.forall₂_map_left_iff.mpr h
  have hsays := Fragment.Says.intercalate hs (by simpa using hne) hmap
  have hbinds : texts.flatMap (fun _ => ([] : List String)) = [] := by simp
  simpa [Plainly, List.map_map, Function.comp_def, List.flatMap_map, hbinds] using hsays

/-- A section is written behind the words that begin it, or not at all. -/
theorem Fragment.Says.appendSection {f : Fragment} {ts : List Token} {lead separator : String}
    {words : List String} {st : List Token} {pieces : List Fragment} {tss : List (List Token)}
    (hf : f.Says ts) (hlead : Separates lead (words.map .word)) (hs : Separates separator st)
    (hpieces : List.Forall₂ Fragment.Says pieces tss) :
    Fragment.Says ⟨f.sql ++ (if pieces.isEmpty then ""
        else lead ++ separator.intercalate (pieces.map (·.sql))),
      f.binds ++ pieces.flatMap (·.binds)⟩ (ts ++ sectionTokens words (listed? st tss)) := by
  cases hpieces with
  | nil => simpa [listed?, sectionTokens] using hf
  | cons hp hrest =>
    have hlist := Fragment.Says.intercalate hs (by simp) (.cons hp hrest)
    simpa [listed?, sectionTokens] using hf.append hlead hlist

namespace Clauses

variable {c : Clauses} {outputs sources terms order : List (List Token)}

/-- What a statement without groups says. -/
theorem says_statement (hgroup : c.groupBy = []) (hselect : c.select ≠ [])
    (hsources : c.sources.entries ≠ [])
    (houtputs : List.Forall₂ Plainly c.select outputs)
    (hentries : List.Forall₂ Plainly c.sources.entries sources)
    (hterms : List.Forall₂ Fragment.Says (c.terms.map Term.render) terms)
    (horder : List.Forall₂ Plainly (c.orderBy.map OrderItem.render) order) :
    (c.statement none).Says (statementTokens ([.mark ","].intercalate outputs)
      ([.mark ","].intercalate sources) (listed? [.word "AND"] terms)
      (listed? [.mark ","] order)) := by
  have hhead : Plainly "select distinct" [.word "select", .word "distinct"] := by
    apply Fragment.Says.of_spells
    · exact spells_words (v := "select") (w := "distinct") (by decide) (by decide)
    · simp
  have hand : Separates " AND " [.word "AND"] := separates_word rfl (by decide)
  have hfrom : Separates " from " [.word "from"] := separates_word rfl (by decide)
  have hwhere : Separates " where " (["where"].map .word) := separates_word rfl (by decide)
  have hby : Separates " order by " (["order", "by"].map .word) := by
    apply separates_of_spells (by rfl)
      (spells_words (v := "order") (w := "by") (by decide) (by decide))
    simp
  have hselected := hhead.append separates_space
    (plainly_intercalate separates_comma hselect houtputs)
  have hsourced := hselected.append hfrom (plainly_intercalate separates_comma hsources hentries)
  have hfiltered := hsourced.appendSection hwhere hand hterms
  have hordered := hfiltered.appendSection hby separates_comma (List.forall₂_map_left_iff.mpr horder)
  have hsql : (c.statement none).sql = "select distinct" ++ (" " ++ ", ".intercalate c.select) ++
      (" from " ++ ", ".intercalate c.sources.entries) ++ c.whereText ++ c.orderText := by
    have hbody : c.body.sql = "select distinct" ++ " " ++ ", ".intercalate c.select ++ " from "
        ++ ", ".intercalate c.sources.entries ++ c.whereText ++ c.groupText := rfl
    simp [statement, hbody, groupText, hgroup, Fragment.blank, ← String.append_assoc]
  have hbinds : (c.statement none).binds = c.terms.flatMap (·.render.binds) := by
    have hbody : c.body.binds = c.terms.flatMap (·.render.binds) := rfl
    simp [statement, hbody, Fragment.blank]
  have hnone : c.orderBy.flatMap (fun _ => ([] : List String)) = [] := by simp
  have heq : c.statement none = ⟨(c.statement none).sql, (c.statement none).binds⟩ := rfl
  rw [heq, hsql, hbinds]
  simpa [statementTokens, whereText, orderText, List.map_map, Function.comp_def,
    List.flatMap_map, hnone] using hordered

end Clauses

/-! ## Reading -/

/-- The tokens without their places. -/
def bare (ls : List Lexeme) : List Token := ls.map (·.token)

@[simp] theorem bare_nil : bare [] = [] := rfl

@[simp] theorem bare_cons {l : Lexeme} {ls : List Lexeme} : bare (l :: ls) = l.token :: bare ls :=
  rfl

theorem bare_eq_nil {ls : List Lexeme} : bare ls = [] ↔ ls = [] := List.map_eq_nil_iff

theorem bare_eq_cons {ls : List Lexeme} {t : Token} {ts : List Token} :
    bare ls = t :: ts ↔ ∃ l ls', ls = l :: ls' ∧ l.token = t ∧ bare ls' = ts :=
  List.map_eq_cons_iff

theorem bare_eq_append {ls : List Lexeme} {ts us : List Token} :
    bare ls = ts ++ us ↔ ∃ before after, ls = before ++ after ∧ bare before = ts ∧
      bare after = us :=
  List.map_eq_append_iff

/-- The token begins a section. -/
def isHeading (t : Token) : Bool := ["from", "where", "group", "order", "limit"].any t.isWord

/-- No parentheses, and nothing at which a text is cut. -/
def Flat (p : Token → Bool) (ts : List Token) : Prop :=
  ∀ t ∈ ts, t ≠ .mark "(" ∧ t ≠ .mark ")" ∧ p t = false

namespace Flat

variable {p q : Token → Bool} {ts us : List Token}

theorem mono (h : ∀ t, q t = true → p t = true) (hts : Flat p ts) : Flat q ts := by
  intro t ht
  obtain ⟨hopen, hclose, hp⟩ := hts t ht
  refine ⟨hopen, hclose, Bool.eq_false_iff.mpr fun hq => ?_⟩
  rw [h t hq] at hp
  cases hp

theorem nil : Flat p [] := by
  intro t ht
  cases ht

theorem singleton {t : Token} (hopening : t ≠ .mark "(") (hclosing : t ≠ .mark ")")
    (ht : p t = false) : Flat p [t] := by
  intro u hu
  cases List.mem_singleton.mp hu
  exact ⟨hopening, hclosing, ht⟩

theorem append (hts : Flat p ts) (hus : Flat p us) : Flat p (ts ++ us) := by
  intro t ht
  rcases List.mem_append.mp ht with ht | ht
  · exact hts t ht
  · exact hus t ht

theorem intercalate {st : List Token} {tss : List (List Token)} (hst : Flat p st)
    (htss : ∀ ts ∈ tss, Flat p ts) : Flat p (st.intercalate tss) := by
  induction tss with
  | nil => exact nil
  | cons ts tss ih =>
    have hts : Flat p ts := htss ts List.mem_cons_self
    cases tss with
    | nil => simpa using hts
    | cons us tss =>
      rw [List.intercalate_cons_cons]
      exact (hts.append hst).append (ih fun us hus => htss us (List.mem_cons_of_mem _ hus))

theorem listed {st : List Token} {tss : List (List Token)} (hst : Flat p st)
    (htss : ∀ ts ∈ tss, Flat p ts) : ∀ ts ∈ listed? st tss, Flat p ts := by
  intro ts hts
  unfold listed? at hts
  split at hts
  · cases hts
  · cases hts
    exact hst.intercalate htss

end Flat

/-- Whatever ends a section begins another one. -/
theorem Flat.stops {ts : List Token} (hts : Flat isHeading ts) (next : List String)
    (hnext : next ⊆ ["from", "where", "group", "order", "limit"]) :
    Flat (fun t => next.any t.isWord) ts := by
  apply hts.mono
  intro t ht
  obtain ⟨w, hw, h⟩ := List.any_eq_true.mp ht
  exact List.any_eq_true.mpr ⟨w, hnext hw, h⟩

theorem head?_sectionTokens {w : String} {more : List String} {part : Option (List Token)}
    {rest : List Token} {t : Token} (ht : t ∈ (sectionTokens (w :: more) part ++ rest).head?) :
    t = .word w ∨ t ∈ rest.head? := by
  cases part with
  | none => exact .inr ht
  | some ts =>
    left
    simpa [sectionTokens, eq_comm] using ht

namespace Reader

variable {p : Token → Bool} {ts rest : List Token} {ls : List Lexeme}

theorem depthBehind_zero {t : Token} (ht : t ≠ .mark "(") : depthBehind 0 t = 0 := by
  unfold depthBehind
  split
  · exact absurd rfl ht
  · rfl
  · rfl

/-- A text is cut before the first token at which it is to be. -/
theorem cutAt_bare (hts : Flat p ts) (hrest : ∀ t ∈ rest.head?, p t = true)
    (hls : bare ls = ts ++ rest) :
    ∃ before after, cutAt p 0 ls = (before, after) ∧ bare before = ts ∧ bare after = rest := by
  induction ts generalizing ls with
  | nil =>
    refine ⟨[], ls, ?_, rfl, hls⟩
    cases ls with
    | nil => rfl
    | cons l ls =>
      have hl : p l.token = true := hrest l.token (by rw [← hls.trans rest.nil_append]; rfl)
      simp [cutAt, hl]
  | cons t ts ih =>
    obtain ⟨l, ls, rfl, rfl, htail⟩ := bare_eq_cons.mp hls
    obtain ⟨hopen, -, hp⟩ := hts l.token List.mem_cons_self
    obtain ⟨before, after, hcut, hbefore, hafter⟩ :=
      ih (fun u hu => hts u (List.mem_cons_of_mem _ hu)) htail
    refine ⟨l :: before, after, ?_, by simp [hbefore], hafter⟩
    simp [cutAt, hp, depthBehind_zero hopen, hcut]

theorem expectWord_cons {w : String} {l : Lexeme} (h : l.token.isWord w = true) :
    expectWord w (l :: ls) = .ok ls := by
  simp [expectWord, expect, h]

/-- The words of a section are passed over. -/
theorem foldlM_expectWord {words : List String} (hwords : ∀ w ∈ words, (Token.word w).isWord w = true)
    (hls : bare ls = words.map .word ++ rest) :
    ∃ after, words.foldlM (fun r w => expectWord w r) ls = .ok after ∧ bare after = rest := by
  induction words generalizing ls with
  | nil => exact ⟨ls, rfl, hls⟩
  | cons w words ih =>
    obtain ⟨l, ls, rfl, hl, htail⟩ := bare_eq_cons.mp hls
    obtain ⟨after, hfold, hafter⟩ := ih (fun v hv => hwords v (List.mem_cons_of_mem _ hv)) htail
    have hw : l.token.isWord w = true := hl ▸ hwords w List.mem_cons_self
    refine ⟨after, ?_, hafter⟩
    rw [List.foldlM_cons, expectWord_cons hw]
    exact hfold

/-- A section that is not there is passed over. -/
theorem section?_none {w : String} {more next : List String}
    (h : ∀ t ∈ (bare ls).head?, t.isWord w = false) : section? (w :: more) next ls
      = .ok (none, ls) := by
  cases ls with
  | nil => rfl
  | cons l ls =>
    have hl : l.token.isWord w = false := h l.token (by simp)
    simp [section?, hl, pure, Except.pure]

theorem section?_bare {w : String} {more next : List String} {part : Option (List Token)}
    (hwords : ∀ v ∈ w :: more, (Token.word v).isWord v = true)
    (hpart : ∀ ts ∈ part, Flat (fun t => next.any t.isWord) ts)
    (hrest : ∀ t ∈ rest.head?, t.isWord w = false ∧ next.any t.isWord = true)
    (hls : bare ls = sectionTokens (w :: more) part ++ rest) :
    ∃ got after, section? (w :: more) next ls = .ok (got, after) ∧ got.map bare = part ∧
      bare after = rest := by
  cases part with
  | none =>
    have hnone : section? (w :: more) next ls = .ok (none, ls) := by
      apply section?_none
      intro t ht
      rw [hls] at ht
      exact (hrest t ht).1
    exact ⟨none, ls, hnone, rfl, hls⟩
  | some ts =>
    rw [sectionTokens, List.map_cons, List.cons_append, List.cons_append, List.append_assoc] at hls
    obtain ⟨l, ls, rfl, hl, htail⟩ := bare_eq_cons.mp hls
    have hw : l.token.isWord w = true := hl ▸ hwords w List.mem_cons_self
    obtain ⟨after, hmore, hafter⟩ := foldlM_expectWord
      (fun v hv => hwords v (List.mem_cons_of_mem _ hv)) htail
    obtain ⟨got, rest', hcut, hgot, hrest'⟩ := cutAt_bare (hpart ts rfl)
      (fun t ht => (hrest t ht).2) hafter
    refine ⟨some got, rest', ?_, by simp [hgot], hrest'⟩
    simp [section?, hw, hmore, hcut, bind, Except.bind, pure, Except.pure]

/-- What is read of a statement, section by section. -/
theorem sections_bare {outputs sources : List Token} {condition order : Option (List Token)}
    (houtputs : Flat isHeading outputs) (hsources : Flat isHeading sources)
    (hcondition : ∀ ts ∈ condition, Flat isHeading ts) (horder : ∀ ts ∈ order, Flat isHeading ts)
    (hls : bare ls = statementTokens outputs sources condition order) :
    ∃ s, sections ls = .ok s ∧ s.distinct = true ∧ bare s.outputs = outputs ∧
      bare s.sources = sources ∧ s.condition.map bare = condition ∧ s.groupBy = none ∧
      s.orderBy.map bare = order ∧ s.limit = none := by
  have hby : ∀ t ∈ (sectionTokens ["order", "by"] order ++ []).head?, t = .word "order" := by
    intro t ht
    simpa using head?_sectionTokens ht
  have hwhere : ∀ t ∈ (sectionTokens ["where"] condition ++
      (sectionTokens ["order", "by"] order ++ [])).head?, t = .word "where" ∨ t = .word "order" :=
    fun t ht => (head?_sectionTokens ht).imp_right (hby t)
  rw [statementTokens, ← (sectionTokens ["order", "by"] order).append_nil] at hls
  obtain ⟨select, ls, rfl, hselect, hls⟩ := bare_eq_cons.mp hls
  obtain ⟨distinct, ls, rfl, hdistinct, hls⟩ := bare_eq_cons.mp hls
  obtain ⟨outs, ls, houts, houtsBare, hls⟩ := cutAt_bare (p := (·.isWord "from"))
    (by simpa using houtputs.stops ["from"] (by simp)) (by simp; decide) hls
  obtain ⟨from_, ls, rfl, hfrom, hls⟩ := bare_eq_cons.mp hls
  obtain ⟨srcs, ls, hsrcs, hsrcsBare, hls⟩ := cutAt_bare
    (hsources.stops ["where", "group", "order", "limit"] (by simp))
    (fun t ht => by rcases hwhere t ht with rfl | rfl <;> decide) hls
  obtain ⟨cond, ls, hcond, hcondBare, hls⟩ := section?_bare (by decide)
    (fun ts hts => (hcondition ts hts).stops ["group", "order", "limit"] (by simp))
    (fun t ht => by rw [hby t ht]; decide) hls
  have hgroup : section? ["group", "by"] ["order", "limit"] ls = .ok (none, ls) := by
    apply section?_none
    intro t ht
    rw [hby t (hls ▸ ht)]
    decide
  obtain ⟨ord, ls, hord, hordBare, hls⟩ := section?_bare (by decide)
    (fun ts hts => (horder ts hts).stops ["limit"] (by simp)) (by simp) hls
  obtain rfl : ls = [] := bare_eq_nil.mp hls
  have hlimit : section? ["limit"] [] [] = .ok (none, []) := rfl
  refine ⟨⟨true, outs, srcs, cond, none, ord, none⟩, ?_, rfl, houtsBare, hsrcsBare, hcondBare, rfl,
    hordBare, rfl⟩
  have hword : ∀ {w} {l : Lexeme} {r}, l.token = .word w → (Token.word w).isWord w = true →
      expectWord w (l :: r) = .ok r := fun hl hw => expectWord_cons (hl ▸ hw)
  rw [sections, hword hselect (by decide)]
  simp only [bind, Except.bind, hword hdistinct (by decide), houts, hword hfrom (by decide), hsrcs,
    hcond, hgroup, hord, hlimit, done, List.isEmpty_nil, if_true]

end Reader

end CatalogQuery.Sql
