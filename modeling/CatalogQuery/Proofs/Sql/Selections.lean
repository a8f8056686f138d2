import CatalogQuery.Proofs.Sql.Sections

/-!
# Selections

A selection asks for the values of one column where some equations hold between the rows of its
sources. Written as clauses and read again it is the same query, whatever its names, as long as they
are names: then nothing in a section is taken for the beginning of another one.

* `ReadsAs`: tokens that are read as something wherever they stand;
* `Reader.Cuts.intercalate`, `Reader.commaSeparated_reads`: lists are read piece by piece;
* `Selection.Named.saysTokens`: the tokens of a selection;
* `Selection.Named.reads`: the query that is read of them.
-/

namespace CatalogQuery.Sql

/-! ## Reading lists -/

/-- Wherever these tokens stand, they are read as `x`. -/
def ReadsAs {α : Type} (item : List Lexeme → Except Fault α) (ts : List Token) (x : α) : Prop :=
  ∀ ls, bare ls = ts → item ls = .ok x

namespace Reader

variable {p : Token → Bool} {separator : Token} {tss : List (List Token)} {ls : List Lexeme}

theorem pieces_flat (h : Flat p (bare ls)) : pieces p 0 ls = [ls] := by
  induction ls with
  | nil => rfl
  | cons l ls ih =>
    obtain ⟨hopen, -, hp⟩ := h l.token (by simp)
    have htail := ih fun t ht => h t (List.mem_cons_of_mem _ ht)
    simp [pieces, hp, depthBehind_zero hopen, htail, glue]

theorem pieces_append {before after : List Lexeme} {l : Lexeme} (h : Flat p (bare before))
    (hl : p l.token = true) : pieces p 0 (before ++ l :: after) = before :: pieces p 0 after := by
  induction before with
  | nil => simp [pieces, hl]
  | cons b before ih =>
    obtain ⟨hopen, -, hp⟩ := h b.token (by simp)
    have htail := ih fun t ht => h t (List.mem_cons_of_mem _ ht)
    simp [pieces, hp, depthBehind_zero hopen, htail, glue]

/-- A way to cut texts: flat ones are whole, and a separator ends a piece. -/
structure Cuts (cut : List Lexeme → List (List Lexeme)) (p : Token → Bool) (separator : Token) :
    Prop where
  flat : ∀ {ls}, Flat p (bare ls) → cut ls = [ls]
  append : ∀ {before after l}, Flat p (bare before) → l.token = separator →
    cut (before ++ l :: after) = before :: cut after

/-- A list is cut at its separators. -/
theorem Cuts.intercalate {cut : List Lexeme → List (List Lexeme)} (hcut : Cuts cut p separator)
    (htss : ∀ ts ∈ tss, Flat p ts) (hne : tss ≠ []) (hls : bare ls = [separator].intercalate tss) :
    (cut ls).map bare = tss := by
  induction tss generalizing ls with
  | nil => exact absurd rfl hne
  | cons ts tss ih =>
    have hts : Flat p ts := htss ts List.mem_cons_self
    cases tss with
    | nil =>
      rw [List.intercalate_singleton] at hls
      rw [hcut.flat (hls ▸ hts), List.map_singleton, hls]
    | cons us tss =>
      rw [List.intercalate_cons_cons, List.append_assoc] at hls
      obtain ⟨before, rest, rfl, hbefore, hrest⟩ := bare_eq_append.mp hls
      obtain ⟨l, after, rfl, hl, hafter⟩ := bare_eq_cons.mp hrest
      have htail := ih (fun us hus => htss us (List.mem_cons_of_mem _ hus)) (by simp) hafter
      rw [hcut.append (hbefore ▸ hts) hl, List.map_cons, htail, hbefore]

theorem cuts_pieces (h : p separator = true) : Cuts (pieces p 0) p separator :=
  ⟨pieces_flat, fun hbefore hl => pieces_append hbefore (hl ▸ h)⟩

/-- Neither joins terms nor opens a range. -/
def cutsTerms (t : Token) : Bool := t.isWord "and" || t.isWord "between"

theorem terms_flat (h : Flat cutsTerms (bare ls)) : terms 0 false ls = [ls] := by
  induction ls with
  | nil => rfl
  | cons l ls ih =>
    obtain ⟨hopen, -, hp⟩ := h l.token (by simp)
    obtain ⟨hand, hbetween⟩ := Bool.or_eq_false_iff.mp hp
    have htail := ih fun t ht => h t (List.mem_cons_of_mem _ ht)
    simp [terms, hand, hbetween, depthBehind_zero hopen, htail, glue]

theorem terms_append {before after : List Lexeme} {l : Lexeme} (h : Flat cutsTerms (bare before))
    (hl : l.token.isWord "and" = true) :
    terms 0 false (before ++ l :: after) = before :: terms 0 false after := by
  induction before with
  | nil => simp [terms, hl]
  | cons b before ih =>
    obtain ⟨hopen, -, hp⟩ := h b.token (by simp)
    obtain ⟨hand, hbetween⟩ := Bool.or_eq_false_iff.mp hp
    have htail := ih fun t ht => h t (List.mem_cons_of_mem _ ht)
    simp [terms, hand, hbetween, depthBehind_zero hopen, htail, glue]

theorem cuts_terms (h : separator.isWord "and" = true) :
    Cuts (terms 0 false) cutsTerms separator :=
  ⟨terms_flat, fun hbefore hl => terms_append hbefore (hl ▸ h)⟩

theorem mapM_reads {α : Type} {item : List Lexeme → Except Fault α} {lss : List (List Lexeme)}
    {xs : List α} (h : List.Forall₂ (ReadsAs item) tss xs) (hls : lss.map bare = tss) :
    lss.mapM item = .ok xs := by
  subst hls
  rw [List.forall₂_map_left_iff] at h
  exact Fallible.mapM_eq_ok.mpr (h.imp fun ls _ hx => hx ls rfl)

theorem commaSeparated_reads {α : Type} {item : List Lexeme → Except Fault α} {xs : List α}
    (hne : tss ≠ []) (hflat : ∀ ts ∈ tss, Flat (· == .mark ",") ts)
    (h : List.Forall₂ (ReadsAs item) tss xs) :
    ReadsAs (commaSeparated item) ([.mark ","].intercalate tss) xs := by
  intro ls hls
  exact mapM_reads h ((cuts_pieces (by simp)).intercalate hflat hne hls)

/-- A list that is there only if it has items. -/
theorem optional_reads {α : Type} {item : List Lexeme → Except Fault α} {xs : List α}
    {part : Option (List Lexeme)} (hflat : ∀ ts ∈ tss, Flat (· == .mark ",") ts)
    (h : List.Forall₂ (ReadsAs item) tss xs) (hpart : part.map bare = listed? [.mark ","] tss) :
    ∃ got, optional (commaSeparated item) part = .ok got ∧ got.getD [] = xs := by
  unfold listed? at hpart
  cases h with
  | nil =>
    obtain rfl : part = none := by simpa using hpart
    exact ⟨none, rfl, rfl⟩
  | @cons ts x tss xs hx hrest =>
    obtain ⟨ls, rfl, hls⟩ : ∃ ls, part = some ls ∧ bare ls = [.mark ","].intercalate (ts :: tss) := by
      simpa [Option.map_eq_some_iff] using hpart
    have hread := commaSeparated_reads (by simp) hflat (.cons hx hrest) ls hls
    exact ⟨some (x :: xs), by simp [optional, hread, Except.map], rfl⟩

end Reader

/-! ## Names and columns -/

/-- A name in lower case that is not taken by the language. -/
structure IsName (s : String) : Prop where
  word : isWordText s.toList = true
  lower : lowerText s = s
  free : s ∉ Reader.reserved

/-- The word is read as this name: the case of its letters does not matter, and the language has not
taken it. -/
structure ReadsName (w s : String) : Prop where
  lower : lowerText w = s
  free : s ∉ Reader.reserved

instance (w s : String) : Decidable (ReadsName w s) :=
  decidable_of_iff (lowerText w = s ∧ s ∉ Reader.reserved)
    ⟨fun h => ⟨h.1, h.2⟩, fun h => ⟨h.lower, h.free⟩⟩

/-- A column behind the name of its source. -/
structure SourceColumn where
  binding : String
  name : String
  deriving DecidableEq, Repr

namespace SourceColumn

def text (c : SourceColumn) : String := c.binding ++ "." ++ c.name

def tokens (c : SourceColumn) : List Token := [.word c.binding, .mark ".", .word c.name]

def ref (c : SourceColumn) : ColumnRef := ⟨some c.binding, c.name⟩

structure Named (c : SourceColumn) : Prop where
  binding : IsName c.binding
  name : IsName c.name

/-- Written as the first column, the second one is read. -/
structure Written (c c' : SourceColumn) : Prop where
  binding : ReadsName c.binding c'.binding
  name : ReadsName c.name c'.name

instance (c c' : SourceColumn) : Decidable (Written c c') :=
  decidable_of_iff (ReadsName c.binding c'.binding ∧ ReadsName c.name c'.name)
    ⟨fun h => ⟨h.1, h.2⟩, fun h => ⟨h.binding, h.name⟩⟩

end SourceColumn

theorem IsName.reads {s : String} (h : IsName s) : ReadsName s s := ⟨h.lower, h.free⟩

theorem SourceColumn.Named.written {c : SourceColumn} (h : c.Named) : Written c c :=
  ⟨h.binding.reads, h.name.reads⟩

namespace ReadsName

variable {w s : String}

theorem isWord_of_mem (h : ReadsName w s) {v : String} (hv : v ∈ Reader.reserved) :
    (Token.word w).isWord v = false := by
  have hne : s ≠ v := fun e => h.free (e ▸ hv)
  simpa [Token.isWord, Token.lower?, h.lower] using hne

theorem name?_eq (h : ReadsName w s) : Reader.name? (.word w) = some s := by
  simp [Reader.name?, Token.lower?, h.lower, h.free]

theorem name_cons (h : ReadsName w s) {l : Lexeme} {ls : List Lexeme} (hl : l.token = .word w) :
    Reader.name (l :: ls) = .ok (s, ls) := by
  simp [Reader.name, hl, h.name?_eq]

end ReadsName

/-! ## Tokens at which nothing is cut -/

/-- Neither parenthesis nor comma nor word of the language. -/
structure Inert (t : Token) : Prop where
  opening : t ≠ .mark "("
  closing : t ≠ .mark ")"
  comma : t ≠ .mark ","
  word : ∀ w ∈ Reader.reserved, t.isWord w = false

/-- A text is cut at commas and words of the language. -/
def CutsAt (p : Token → Bool) : Prop :=
  ∀ t, p t = true → t = .mark "," ∨ ∃ w ∈ Reader.reserved, t.isWord w = true

theorem ReadsName.inert {w s : String} (h : ReadsName w s) : Inert (.word w) :=
  ⟨by simp, by simp, by simp, fun _ hw => h.isWord_of_mem hw⟩

theorem flat_of_inert {p : Token → Bool} {ts : List Token} (hp : CutsAt p)
    (hts : ∀ t ∈ ts, Inert t) : Flat p ts := by
  intro t ht
  obtain ⟨hopening, hclosing, hcomma, hword⟩ := hts t ht
  refine ⟨hopening, hclosing, Bool.eq_false_iff.mpr fun h => ?_⟩
  rcases hp t h with h | ⟨w, hw, h⟩
  · exact hcomma h
  · rw [hword w hw] at h
    cases h

theorem cutsAt_comma : CutsAt (· == .mark ",") := fun t ht => .inl (by simpa using ht)

theorem cutsAt_words {ws : List String} (h : ws ⊆ Reader.reserved) :
    CutsAt fun t => ws.any t.isWord := by
  intro t ht
  obtain ⟨w, hw, hword⟩ := List.any_eq_true.mp ht
  exact .inr ⟨w, h hw, hword⟩

theorem wholeOperand_bound {v : String} :
    ReadsAs Reader.wholeOperand [.bound v] (.text v) := by
  intro ls hls
  obtain ⟨⟨t, place⟩, ls, rfl, rfl, hrest⟩ := bare_eq_cons.mp hls
  obtain rfl := bare_eq_nil.mp hrest
  simp [Reader.wholeOperand, Reader.operand, Reader.done, bind, Except.bind]

theorem cutsAt_word {w : String} (h : w ∈ Reader.reserved) : CutsAt (·.isWord w) :=
  fun _ ht => .inr ⟨w, h, ht⟩

theorem cutsAt_terms : CutsAt Reader.cutsTerms := by
  intro t ht
  rcases Bool.or_eq_true_iff.mp ht with ht | ht
  · exact .inr ⟨"and", by decide, ht⟩
  · exact .inr ⟨"between", by decide, ht⟩

namespace SourceColumn

variable {c c' : SourceColumn}

theorem Written.inert (h : Written c c') : ∀ t ∈ c.tokens, Inert t := by
  intro t ht
  simp only [tokens, List.mem_cons, List.not_mem_nil, or_false] at ht
  rcases ht with rfl | rfl | rfl
  · exact h.binding.inert
  · exact ⟨by decide, by decide, by decide, by decide⟩
  · exact h.name.inert

theorem Named.spells (h : c.Named) : Spells c.text.toList c.tokens := by
  have hspells := (spells_word h.binding.word).mark (c := '.') rfl (spells_word h.name.word)
  simpa [text, tokens] using hspells

theorem Named.plainly (h : c.Named) : Plainly c.text c.tokens :=
  .of_spells h.spells (by simp [tokens])

/-- A column is read up to what stands behind it. -/
theorem Written.column_bare (h : Written c c') {ls : List Lexeme} {rest : List Token}
    (hls : bare ls = c.tokens ++ rest) :
    ∃ after, Reader.column ls = .ok (c'.ref, after) ∧ bare after = rest := by
  obtain ⟨b, ls, rfl, hb, hls⟩ := bare_eq_cons.mp hls
  obtain ⟨dot, ls, rfl, hdot, hls⟩ := bare_eq_cons.mp hls
  obtain ⟨n, ls, rfl, hn, hls⟩ := bare_eq_cons.mp hls
  refine ⟨ls, ?_, hls⟩
  simp [Reader.column, h.binding.name_cons hb, hdot, h.name.name_cons hn, bind, Except.bind, pure,
    Except.pure, ref]

theorem Written.wholeColumn (h : Written c c') :
    ReadsAs Reader.wholeColumn c.tokens c'.ref := by
  intro ls hls
  obtain ⟨after, hcolumn, hafter⟩ := h.column_bare (hls.trans (List.append_nil _).symm)
  obtain rfl := bare_eq_nil.mp hafter
  simp [Reader.wholeColumn, hcolumn, Reader.done, bind, Except.bind]

/-- No word is followed by a parenthesis in a column. -/
theorem Written.operand_bare (h : Written c c') {ls : List Lexeme} {rest : List Token} (fuel : Nat)
    (hls : bare ls = c.tokens ++ rest) :
    ∃ after, Reader.operand (fuel + 1) ls = .ok (.column c'.ref, after) ∧ bare after = rest := by
  obtain ⟨after, hcolumn, hafter⟩ := h.column_bare hls
  refine ⟨after, ?_, hafter⟩
  obtain ⟨⟨_, _⟩, ls, rfl, rfl, hrest⟩ := bare_eq_cons.mp hls
  obtain ⟨⟨_, _⟩, ls, rfl, rfl, -⟩ := bare_eq_cons.mp hrest
  simp [Reader.operand, hcolumn, bind, Except.bind, pure, Except.pure]

theorem Written.wholeOperand (h : Written c c') :
    ReadsAs Reader.wholeOperand c.tokens (.column c'.ref) := by
  intro ls hls
  obtain ⟨l, ls', rfl, -, -⟩ := bare_eq_cons.mp hls
  obtain ⟨after, hoperand, hafter⟩ := h.operand_bare ls'.length (hls.trans (List.append_nil _).symm)
  obtain rfl := bare_eq_nil.mp hafter
  simp [Reader.wholeOperand, hoperand, Reader.done, bind, Except.bind]

/-- A comparison of a column with an operand. -/
theorem Written.term_reads (h : Written c c') {mark : String} {o : Comparison}
    (hmark : Reader.comparison? (.mark mark) = some o) {ts : List Token} {x : Operand}
    (hx : ReadsAs Reader.wholeOperand ts x) (condition : List Lexeme → Except Fault Formula) :
    ReadsAs (Reader.term condition) (c.tokens ++ .mark mark :: ts)
      (.compare o (.column c'.ref) x) := by
  intro ls hls
  obtain ⟨l, ls', rfl, hl, -⟩ := bare_eq_cons.mp hls
  obtain ⟨after, hoperand, hafter⟩ := h.operand_bare ls'.length hls
  obtain ⟨compares, right, rfl, hcompares, hright⟩ := bare_eq_cons.mp hafter
  have hword : l.token ≠ .mark "(" := by simp [hl]
  simp [Reader.term, Reader.enclosed?, hword, hoperand, Reader.predicate, hcompares, hmark,
    hx right hright, bind, Except.bind, pure, Except.pure]

theorem Named.output (h : c.Named) : ReadsAs Reader.output c.tokens (.column c.ref) := by
  intro ls hls
  have hwhole := h.written.wholeColumn ls hls
  obtain ⟨⟨_, _⟩, ls, rfl, rfl, hrest⟩ := bare_eq_cons.mp hls
  obtain ⟨⟨_, _⟩, ls, rfl, rfl, -⟩ := bare_eq_cons.mp hrest
  simp [Reader.output, hwhole, bind, Except.bind, pure, Except.pure]

/-- The key of a row order on the column. -/
def sortKeyTokens (c : SourceColumn) (descending : Bool) : List Token :=
  if descending then c.tokens ++ [.word "desc"] else c.tokens

theorem Named.sortKey_plainly (h : c.Named) (descending : Bool) :
    Plainly (OrderItem.render ⟨c.text, descending⟩) (c.sortKeyTokens descending) := by
  cases descending with
  | false => exact h.plainly
  | true =>
    have hdesc : Plainly "desc" [.word "desc"] :=
      .of_spells (spells_word (w := "desc") (by decide)) (by simp)
    have hsays := h.plainly.append separates_space hdesc
    simpa [Plainly, OrderItem.render, sortKeyTokens] using hsays

theorem Named.sortKey_inert (h : c.Named) (descending : Bool) :
    ∀ t ∈ c.sortKeyTokens descending, Inert t := by
  cases descending with
  | false => exact h.written.inert
  | true =>
    intro t ht
    rcases List.mem_append.mp ht with ht | ht
    · exact h.written.inert t ht
    · cases List.mem_singleton.mp ht
      exact ⟨by decide, by decide, by decide, by decide⟩

theorem Named.sortKey (h : c.Named) (descending : Bool) :
    ReadsAs Reader.sortKey (c.sortKeyTokens descending) ⟨c.ref, descending⟩ := by
  intro ls hls
  cases descending with
  | false =>
    obtain ⟨after, hcolumn, hafter⟩ := h.written.column_bare (hls.trans (List.append_nil _).symm)
    obtain rfl := bare_eq_nil.mp hafter
    simp [Reader.sortKey, hcolumn, Reader.expectWord, Reader.expect, Reader.done, bind, Except.bind]
  | true =>
    obtain ⟨after, hcolumn, hafter⟩ := h.written.column_bare hls
    obtain ⟨l, ls, rfl, hl, hls⟩ := bare_eq_cons.mp hafter
    obtain rfl := bare_eq_nil.mp hls
    have hdesc : l.token.isWord "desc" = true := by rw [hl]; decide
    simp [Reader.sortKey, hcolumn, Reader.expectWord_cons hdesc, Reader.done, bind, Except.bind]

end SourceColumn

/-! ## Sources -/

namespace Source

variable {s s' : Source}

/-- A table that is its own binding is named once. -/
def text (s : Source) : String := if s.table = s.binding then s.table else s.table ++ " " ++ s.binding

def tokens (s : Source) : List Token :=
  if s.table = s.binding then [.word s.table] else [.word s.table, .word s.binding]

structure Named (s : Source) : Prop where
  table : IsName s.table
  binding : IsName s.binding

/-- Written as the first source, the second one is read. -/
structure Written (s s' : Source) : Prop where
  table : ReadsName s.table s'.table
  binding : ReadsName s.binding s'.binding

theorem Named.written (h : s.Named) : Written s s := ⟨h.table.reads, h.binding.reads⟩

theorem Written.inert (h : Written s s') : ∀ t ∈ s.tokens, Inert t := by
  intro t ht
  unfold tokens at ht
  split at ht
  · cases List.mem_singleton.mp ht
    exact h.table.inert
  · simp only [List.mem_cons, List.not_mem_nil, or_false] at ht
    rcases ht with rfl | rfl
    · exact h.table.inert
    · exact h.binding.inert

theorem Named.plainly (h : s.Named) : Plainly s.text s.tokens := by
  unfold text tokens
  split
  · exact .of_spells (spells_word h.table.word) (by simp)
  · exact .of_spells (spells_words h.table.word h.binding.word) (by simp)

theorem Written.source (h : Written s s') : ReadsAs Reader.source s.tokens s' := by
  intro ls hls
  unfold tokens at hls
  split at hls
  case isTrue heq =>
    obtain ⟨l, ls, rfl, hl, hls⟩ := bare_eq_cons.mp hls
    obtain rfl := bare_eq_nil.mp hls
    have hs : (⟨s'.table, s'.table⟩ : Source) = s' := by
      have hbinding : s'.table = s'.binding := by rw [← h.table.lower, heq, h.binding.lower]
      cases s'
      simp_all
    simp [Reader.source, h.table.name_cons hl, bind, Except.bind, pure, Except.pure, hs]
  case isFalse =>
    obtain ⟨l, ls, rfl, hl, hls⟩ := bare_eq_cons.mp hls
    obtain ⟨k, ls, rfl, hk, hls⟩ := bare_eq_cons.mp hls
    obtain rfl := bare_eq_nil.mp hls
    have has : k.token.isWord "as" = false := hk ▸ h.binding.isWord_of_mem (by decide)
    simp [Reader.source, h.table.name_cons hl, h.binding.name_cons hk, Reader.expectWord,
      Reader.expect, has, Reader.done, bind, Except.bind]

end Source

/-! ## Equations -/

/-- A column is equal to another one or to a value that is bound. -/
inductive Equation where
  | columns (a b : SourceColumn)
  | literal (a : SourceColumn) (v : String)
  deriving DecidableEq, Repr

namespace Equation

/-- The equation as a term of a WHERE clause. -/
def term : Equation → Term
  | columns a b => .join (a.text ++ " = " ++ b.text)
  | literal a v => .predicate ⟨a.text ++ " = ?", [v]⟩

def tokens : Equation → List Token
  | columns a b => a.tokens ++ .mark "=" :: b.tokens
  | literal a v => a.tokens ++ [.mark "=", .bound v]

def formula : Equation → Formula
  | columns a b => .compare .eq (.column a.ref) (.column b.ref)
  | literal a v => .compare .eq (.column a.ref) (.text v)

/-- The columns that are compared. -/
def mentioned : Equation → List SourceColumn
  | columns a b => [a, b]
  | literal a _ => [a]

def Named (e : Equation) : Prop := ∀ c ∈ e.mentioned, c.Named

theorem named_columns {a b : SourceColumn} : (columns a b).Named ↔ a.Named ∧ b.Named := by
  simp [Named, mentioned]

theorem named_literal {a : SourceColumn} {v : String} : (literal a v).Named ↔ a.Named := by
  simp [Named, mentioned]

variable {e : Equation}

theorem Named.inert (h : e.Named) : ∀ t ∈ e.tokens, Inert t := by
  have hequals : Inert (.mark "=") := ⟨by decide, by decide, by decide, by decide⟩
  have hbound : ∀ v, Inert (.bound v) := fun v => ⟨by simp, by simp, by simp, fun w _ => rfl⟩
  cases e with
  | columns a b =>
    obtain ⟨ha, hb⟩ := named_columns.mp h
    intro t ht
    simp only [tokens, List.mem_append, List.mem_cons] at ht
    rcases ht with ht | rfl | ht
    · exact ha.written.inert t ht
    · exact hequals
    · exact hb.written.inert t ht
  | literal a v =>
    have ha := named_literal.mp h
    intro t ht
    simp only [tokens, List.mem_append, List.mem_cons, List.not_mem_nil, or_false] at ht
    rcases ht with ht | rfl | rfl
    · exact ha.written.inert t ht
    · exact hequals
    · exact hbound _

theorem Named.saysTokens (h : e.Named) : e.term.render.Says e.tokens := by
  have hequals : Separates " = " [.mark "="] := by
    apply separates_of_spells (by rfl) spells_equals
    simp
  have hvalue : ∀ v, Fragment.Says ⟨"?", [v]⟩ [.bound v] := fun v =>
    ⟨_, by simpa using spells_placeholder, .hole v .nil⟩
  cases e with
  | columns a b =>
    obtain ⟨ha, hb⟩ := named_columns.mp h
    have hsays := ha.plainly.append hequals hb.plainly
    simpa [term, Term.render, tokens, String.append_assoc] using hsays
  | literal a v =>
    have ha := named_literal.mp h
    have hsays := ha.plainly.append hequals (hvalue v)
    simpa [term, Term.render, tokens] using hsays

theorem Named.term_reads (h : e.Named) (condition : List Lexeme → Except Fault Formula) :
    ReadsAs (Reader.term condition) e.tokens e.formula := by
  cases e with
  | columns a b =>
    obtain ⟨ha, hb⟩ := named_columns.mp h
    exact ha.written.term_reads rfl hb.written.wholeOperand condition
  | literal a v => exact (named_literal.mp h).written.term_reads rfl wholeOperand_bound condition

end Equation

/-! ## Selections -/

/-- The values of a column where the equations hold between the rows of the sources, sorted by the
column if that is asked for, descending or not. -/
structure Selection where
  output : SourceColumn
  sources : List Source
  equations : List Equation
  order : Option Bool
  deriving DecidableEq, Repr

namespace Selection

/-- All of them at once, one behind the other. -/
def conjunction : List Formula → Option Formula
  | [] => none
  | f :: fs => some (fs.foldl .and f)

def clauses (s : Selection) : Clauses where
  select := [s.output.text]
  sources := ⟨s.sources.map (·.text)⟩
  terms := s.equations.map (·.term)
  orderBy := s.order.toList.map fun descending => ⟨s.output.text, descending⟩

def query (s : Selection) : Query where
  distinct := true
  outputs := [.column s.output.ref]
  sources := s.sources
  condition := conjunction (s.equations.map (·.formula))
  groupBy := []
  orderBy := s.order.toList.map fun descending => ⟨s.output.ref, descending⟩
  limit := none

/-- The columns that are mentioned. -/
def columns (s : Selection) : List SourceColumn := s.output :: s.equations.flatMap (·.mentioned)

structure Named (s : Selection) : Prop where
  sources : ∀ x ∈ s.sources, x.Named
  columns : ∀ c ∈ s.columns, c.Named
  sourced : s.sources ≠ []

def tokens (s : Selection) : List Token :=
  statementTokens s.output.tokens ([.mark ","].intercalate (s.sources.map (·.tokens)))
    (listed? [.word "AND"] (s.equations.map (·.tokens)))
    (listed? [.mark ","] (s.order.toList.map fun descending => s.output.sortKeyTokens descending))

variable {s : Selection}

theorem mem_columns {c : SourceColumn} :
    c ∈ s.columns ↔ c = s.output ∨ ∃ e ∈ s.equations, c ∈ e.mentioned := by
  simp [columns]

theorem Named.output (h : s.Named) : s.output.Named := h.columns _ (mem_columns.mpr (.inl rfl))

theorem Named.equations (h : s.Named) : ∀ e ∈ s.equations, e.Named :=
  fun e he c hc => h.columns c (mem_columns.mpr (.inr ⟨e, he, hc⟩))

theorem forall₂_map {α β γ : Type} {R : β → γ → Prop} {f : α → β} {g : α → γ} {xs : List α}
    (h : ∀ x ∈ xs, R (f x) (g x)) : List.Forall₂ R (xs.map f) (xs.map g) := by
  rw [List.forall₂_map_left_iff, List.forall₂_map_right_iff]
  exact List.forall₂_same.mpr h

theorem Named.saysTokens (h : s.Named) : (s.clauses.statement none).Says s.tokens := by
  have houtputs : List.Forall₂ Plainly s.clauses.select [s.output.tokens] :=
    .cons h.output.plainly .nil
  have hentries : List.Forall₂ Plainly s.clauses.sources.entries (s.sources.map (·.tokens)) :=
    forall₂_map fun x hx => (h.sources x hx).plainly
  have hterms : List.Forall₂ Fragment.Says (s.clauses.terms.map Term.render)
      (s.equations.map (·.tokens)) := by
    simp only [clauses, List.map_map]
    exact forall₂_map fun e he => (h.equations e he).saysTokens
  have horder : List.Forall₂ Plainly (s.clauses.orderBy.map OrderItem.render)
      (s.order.toList.map fun descending => s.output.sortKeyTokens descending) := by
    simp only [clauses, List.map_map]
    apply forall₂_map
    exact fun descending _ => h.output.sortKey_plainly descending
  have hsays := Clauses.says_statement rfl (by simp [clauses]) (by simpa [clauses] using h.sourced)
    houtputs hentries hterms horder
  simpa [tokens] using hsays

/-- A conjunction is read term by term. -/
theorem condition_reads {w : String} (hw : (Token.word w).isWord "and" = true)
    {tss : List (List Token)} {fs : List Formula} (hinert : ∀ ts ∈ tss, ∀ t ∈ ts, Inert t)
    (h : ∀ condition, List.Forall₂ (ReadsAs (Reader.term condition)) tss fs) {ts : List Token}
    (hts : listed? [.word w] tss = some ts) :
    ∃ f, conjunction fs = some f ∧ ∀ fuel, ReadsAs (Reader.condition (fuel + 1)) ts f := by
  have hlength : tss.length = fs.length := (h fun _ => .error .incomplete).length_eq
  unfold listed? at hts
  split at hts
  case isTrue => cases hts
  case isFalse hne =>
  cases hts
  cases fs with
  | nil => simp [List.length_eq_zero_iff.mp hlength] at hne
  | cons f fs =>
    refine ⟨fs.foldl .and f, rfl, fun fuel ls hls => ?_⟩
    have hjoins : (Token.word w).isWord "or" = false := by
      have hlower : lowerText w = "and" := by simpa [Token.isWord, Token.lower?] using hw
      simp [Token.isWord, Token.lower?, hlower]
    have hor : Flat (·.isWord "or") (bare ls) := by
      rw [hls]
      apply Flat.intercalate
      · exact .singleton (by simp) (by simp) hjoins
      · exact fun ts hts => flat_of_inert (cutsAt_word (by decide)) (hinert ts hts)
    have hterms := (Reader.cuts_terms hw).intercalate
      (fun ts hts => flat_of_inert cutsAt_terms (hinert ts hts)) (by simpa using hne) hls
    simp [Reader.condition, Reader.pieces_flat hor, Reader.mapM_reads (h _) hterms, Reader.joined,
      bind, Except.bind, pure, Except.pure]

theorem Named.output_reads (h : s.Named) :
    ReadsAs (Reader.commaSeparated Reader.output) s.output.tokens [.column s.output.ref] := by
  have hreads : ReadsAs (Reader.commaSeparated Reader.output)
      ([.mark ","].intercalate [s.output.tokens]) [.column s.output.ref] := by
    apply Reader.commaSeparated_reads (by simp)
    · simpa using flat_of_inert cutsAt_comma h.output.written.inert
    · exact .cons h.output.output .nil
  simpa using hreads

theorem Named.sources_read (h : s.Named) : ReadsAs (Reader.commaSeparated Reader.source)
    ([.mark ","].intercalate (s.sources.map (·.tokens))) s.sources := by
  apply Reader.commaSeparated_reads (by simpa using h.sourced)
  · exact List.forall_mem_map.mpr fun x hx =>
      flat_of_inert cutsAt_comma (h.sources x hx).written.inert
  · rw [List.forall₂_map_left_iff]
    exact List.forall₂_same.mpr fun x hx => (h.sources x hx).written.source

theorem Named.condition_read (h : s.Named) {part : Option (List Lexeme)}
    (hpart : part.map bare = listed? [.word "AND"] (s.equations.map (·.tokens))) :
    Reader.optional Reader.wholeCondition part
      = .ok (conjunction (s.equations.map (·.formula))) := by
  cases part with
  | none =>
    have hnone : s.equations = [] := by simpa [listed?] using hpart.symm
    simp [Reader.optional, hnone, conjunction]
  | some ls =>
    obtain ⟨f, hf, hreads⟩ := condition_reads (w := "AND") (by decide)
      (List.forall_mem_map.mpr fun e he => (h.equations e he).inert)
      (fun condition => forall₂_map fun e he => (h.equations e he).term_reads condition)
      hpart.symm
    simp [Reader.optional, Reader.wholeCondition, hreads ls.length ls rfl, hf, Except.map]

/-- The tokens of a selection are read as its query. -/
theorem Named.reads (h : s.Named) : ReadsAs Statement.read s.tokens (.rows s.query) := by
  intro ls hls
  have hheading : CutsAt isHeading := cutsAt_words (by decide)
  have hcomma : Flat isHeading [.mark ","] := .singleton (by decide) (by decide) (by decide)
  have hand : Flat isHeading [.word "AND"] := .singleton (by decide) (by decide) (by decide)
  have houtput : Flat isHeading s.output.tokens := flat_of_inert hheading h.output.written.inert
  have hsources := hcomma.intercalate (List.forall_mem_map.mpr fun x hx =>
    flat_of_inert hheading (h.sources x hx).written.inert)
  have hcondition := hand.listed (List.forall_mem_map.mpr fun e he =>
    flat_of_inert hheading (h.equations e he).inert)
  have hkeys : ∀ ts ∈ s.order.toList.map s.output.sortKeyTokens, ∀ t ∈ ts, Inert t :=
    List.forall_mem_map.mpr fun descending _ => h.output.sortKey_inert descending
  have horder := hcomma.listed fun ts hts => flat_of_inert hheading (hkeys ts hts)
  obtain ⟨p, hsections, hdistinct, houtputs, hsrcs, hcond, hgroup, hord, hlimit⟩ :=
    Reader.sections_bare houtput hsources hcondition horder hls
  have hout := h.output_reads p.outputs (by simpa using houtputs)
  have hsrc := h.sources_read p.sources hsrcs
  have hwhere := h.condition_read hcond
  obtain ⟨keys, hkeysRead, hkeysEq⟩ := Reader.optional_reads
    (fun ts hts => flat_of_inert cutsAt_comma (hkeys ts hts))
    (forall₂_map fun descending _ => h.output.sortKey descending) hord
  have hquery : Reader.query p = .ok s.query := by
    have habsent : ∀ {α : Type} (item : List Lexeme → Except Fault α),
        Reader.optional item none = .ok none := fun _ => rfl
    simp only [Reader.query, hout, hsrc, hwhere, hgroup, hkeysRead, hlimit, habsent, hkeysEq,
      hdistinct, bind, Except.bind, pure, Except.pure, query, Option.getD_none]
  simp only [Statement.read, Reader.statement, hsections, bind, Except.bind]
  split
  case h_1 place r heq =>
    -- No query stands in the place of a source.
    exact absurd rfl (hsources (.mark "(") (by rw [← hsrcs, heq]; simp)).1
  case h_2 => simp [hquery, pure, Except.pure]

end Selection

end CatalogQuery.Sql
