import CatalogQuery.Sql.Clauses
import Mathlib.Data.List.Basic

/-!
# Pieces of a statement

A statement is written piece by piece, and values come with the pieces that hold their placeholders.
Where each piece has as many placeholders as values, every value of the statement stands at a
placeholder of its own piece.

* `Fragment.linedUp_concat`: balanced pieces line up one behind the other;
* `Clauses.concat_statementPieces`, `Clauses.concat_countPieces`: a statement is its pieces;
* `Clauses.Balanced.statementPieces`, `Clauses.Balanced.countPieces`: they are balanced where the
  terms are.
-/

namespace CatalogQuery.Sql

/-! ## Placeholders of a text -/

/-- How many placeholders a text has. -/
def holes (text : String) : Nat := text.toList.count '?'

@[simp] theorem holes_append (a b : String) : holes (a ++ b) = holes a + holes b := by
  simp [holes]

theorem holes_literal {chars : List Char} {n : Nat} (h : chars.count '?' = n) :
    holes (String.ofList chars) = n := by
  rw [holes, String.toList_ofList, h]

theorem holes_eq_zero {text : String} : holes text = 0 ↔ '?' ∉ text.toList := List.count_eq_zero

theorem holes_intercalate {separator : String} (hs : holes separator = 0) {texts : List String}
    (h : ∀ t ∈ texts, holes t = 0) : holes (separator.intercalate texts) = 0 := by
  induction texts with
  | nil => rfl
  | cons t texts ih =>
    have ht : holes t = 0 := h t List.mem_cons_self
    cases texts with
    | nil => simpa using ht
    | cons u texts =>
      rw [String.intercalate_cons_cons, holes_append, holes_append, ht, hs,
        ih fun v hv => h v (List.mem_cons_of_mem _ hv)]

@[simp] theorem holes_toString (n : Nat) : holes (toString n) = 0 := by
  rw [holes_eq_zero, Nat.toString_eq_ofList_toDigits, String.toList_ofList]
  intro h
  have := Nat.isDigit_of_mem_toDigits (by decide) (by decide) h
  simp [Char.isDigit] at this

/-! ## Pieces -/

attribute [ext] Fragment

namespace Fragment

/-- The pieces one behind the other. -/
def concat (pieces : List Fragment) : Fragment := pieces.foldr (· ++ ·) .blank

variable {pieces : List Fragment} {f : Fragment}

@[simp] theorem concat_nil : concat [] = .blank := rfl

@[simp] theorem concat_cons : concat (f :: pieces) = f ++ concat pieces := rfl

@[simp] theorem append_blank (f : Fragment) : f ++ blank = f := by
  ext <;> simp [blank]

@[simp] theorem blank_append (f : Fragment) : blank ++ f = f := by
  ext <;> simp [blank]

theorem append_assoc (f g k : Fragment) : f ++ g ++ k = f ++ (g ++ k) := by
  ext
  · simp [String.append_assoc]
  · simp

theorem concat_append (ps qs : List Fragment) : concat (ps ++ qs) = concat ps ++ concat qs := by
  induction ps with
  | nil => simp
  | cons f ps ih => rw [List.cons_append, concat_cons, concat_cons, ih, append_assoc]

/-- A separator without values between lists of pieces stands between their texts. -/
theorem concat_intercalate {separator : String} (pss : List (List Fragment)) :
    concat ([⟨separator, []⟩].intercalate pss)
      = ⟨separator.intercalate (pss.map fun ps => (concat ps).sql),
        pss.flatMap fun ps => (concat ps).binds⟩ := by
  induction pss with
  | nil => rfl
  | cons ps pss ih =>
    cases pss with
    | nil => simp
    | cons qs pss =>
      rw [List.intercalate_cons_cons, concat_append, concat_append, ih]
      ext
      · simp [String.intercalate_cons_cons]
      · simp

/-- As many values as placeholders. -/
def Balanced (f : Fragment) : Prop := holes f.sql = f.binds.length

theorem balanced_text {text : String} : Balanced ⟨text, []⟩ ↔ holes text = 0 := Iff.rfl

/-- The pieces make up the fragment. It has as many values as placeholders, and the piece in which
the `j`-th placeholder stands, between `u` and `v`, is the one that brings the `j`-th value. -/
structure LinedUp (f : Fragment) (pieces : List Fragment) : Prop where
  spelled : concat pieces = f
  balanced : f.Balanced
  supplied : ∀ j b, f.binds[j]? = some b → ∃ before piece after u v,
    pieces = before ++ piece :: after ∧ piece.sql.toList = u ++ '?' :: v ∧
    j = holes (concat before).sql + u.count '?' ∧
    j = (concat before).binds.length + u.count '?' ∧ piece.binds[u.count '?']? = some b

theorem Balanced.append {f g : Fragment} (hf : f.Balanced) (hg : g.Balanced) :
    (f ++ g).Balanced := by
  unfold Balanced at *
  rw [sql_append, holes_append, binds_append, List.length_append, hf, hg]

theorem balanced_concat (h : ∀ f ∈ pieces, f.Balanced) : (concat pieces).Balanced := by
  induction pieces with
  | nil => rfl
  | cons f pieces ih =>
    exact (h f List.mem_cons_self).append (ih fun g hg => h g (List.mem_cons_of_mem _ hg))

/-- The `j`-th placeholder of a text has `j` placeholders before it. -/
theorem exists_hole {text : List Char} {j : Nat} (h : j < text.count '?') :
    ∃ u v, text = u ++ '?' :: v ∧ u.count '?' = j := by
  induction text generalizing j with
  | nil => simp at h
  | cons c text ih =>
    by_cases hc : c = '?'
    · subst hc
      cases j with
      | zero => exact ⟨[], text, rfl, rfl⟩
      | succ j =>
        obtain ⟨u, v, rfl, hu⟩ := ih (j := j) (by simpa using h)
        exact ⟨'?' :: u, v, rfl, by simp [hu]⟩
    · obtain ⟨u, v, rfl, hu⟩ := ih (j := j) (by simpa [List.count_cons, hc] using h)
      exact ⟨c :: u, v, rfl, by simp [hc, hu]⟩

/-- Balanced pieces line up one behind the other. -/
theorem linedUp_concat (h : ∀ f ∈ pieces, f.Balanced) : (concat pieces).LinedUp pieces where
  spelled := rfl
  balanced := balanced_concat h
  supplied := by
    induction pieces with
    | nil =>
      intro j b hb
      simp [blank] at hb
    | cons f pieces ih =>
      intro j b hb
      have hf : f.Balanced := h f List.mem_cons_self
      have hrest := fun g hg => h g (List.mem_cons_of_mem f hg)
      rw [concat_cons, binds_append] at hb
      by_cases hj : j < f.binds.length
      · -- The value is one of the first piece.
        rw [List.getElem?_append_left hj] at hb
        have hlt : j < f.sql.toList.count '?' := Nat.lt_of_lt_of_eq hj hf.symm
        obtain ⟨u, v, htext, hu⟩ := exists_hole hlt
        exact ⟨[], f, pieces, u, v, rfl, htext, by simp [blank, holes, hu], by simp [blank, hu],
          by rw [hu, hb]⟩
      · rw [List.getElem?_append_right (by omega)] at hb
        obtain ⟨before, piece, after, u, v, rfl, htext, hholes, hbinds, hvalue⟩ := ih hrest _ _ hb
        refine ⟨f :: before, piece, after, u, v, rfl, htext, ?_, ?_, hvalue⟩
        · rw [concat_cons, sql_append, holes_append, hf]
          omega
        · rw [concat_cons, binds_append, List.length_append]
          omega

end Fragment

/-! ## Pieces of clauses -/

open Fragment

/-- Each side of a compound is a piece of its own. -/
def Term.pieces : Term → List Fragment
  | predicate p => [p]
  | compound connective left right =>
    [⟨"( ", []⟩, left, ⟨" " ++ connective.sql ++ " ", []⟩, right, ⟨" )", []⟩]
  | join p => [⟨p, []⟩]

theorem Term.concat_pieces (t : Term) : concat t.pieces = t.render := by
  cases t with
  | predicate p => simp [pieces, render]
  | compound connective left right =>
    ext
    · simp [pieces, render, String.append_assoc]
    · simp [pieces, render]
  | join p => simp [pieces, render]

/-- All placeholders of a term are those of its values. -/
def Term.Balanced (t : Term) : Prop := ∀ f ∈ t.pieces, f.Balanced

namespace Clauses

/-- The pieces behind WHERE, a separator in front of each term. -/
def wherePieces (k : Clauses) : List Fragment :=
  if k.terms.isEmpty then []
  else ⟨" where ", []⟩ :: [⟨" AND ", []⟩].intercalate (k.terms.map (·.pieces))

def bodyPieces (k : Clauses) : List Fragment :=
  ⟨"select distinct " ++ ", ".intercalate k.select ++ " from "
    ++ ", ".intercalate k.sources.entries, []⟩ :: k.wherePieces ++ [⟨k.groupText, []⟩]

def statementPieces (k : Clauses) (suffix : Option Fragment) : List Fragment :=
  k.bodyPieces ++ ⟨k.orderText, []⟩ :: suffix.toList

def countPieces (k : Clauses) : List Fragment :=
  ⟨"select count(*) from (", []⟩ :: k.bodyPieces ++ [⟨") genquery_count", []⟩]

variable (k : Clauses)

theorem concat_wherePieces :
    concat k.wherePieces = ⟨k.whereText, k.terms.flatMap (·.render.binds)⟩ := by
  unfold wherePieces whereText
  cases hterms : k.terms with
  | nil => rfl
  | cons t ts =>
    have hpieces : ((t :: ts).map (·.pieces)).map (fun ps => (concat ps).sql)
        = (t :: ts).map (·.render.sql) := by
      rw [List.map_map]
      exact List.map_congr_left fun t _ => congrArg Fragment.sql t.concat_pieces
    have hbinds : ((t :: ts).map (·.pieces)).flatMap (fun ps => (concat ps).binds)
        = (t :: ts).flatMap (·.render.binds) := by
      simp only [List.flatMap_map, Term.concat_pieces]
    simp only [List.isEmpty_cons, Bool.false_eq_true, if_false, concat_cons, concat_intercalate,
      hpieces, hbinds]
    rfl

theorem sql_body : k.body.sql = "select distinct " ++ ", ".intercalate k.select ++ " from "
    ++ ", ".intercalate k.sources.entries ++ k.whereText ++ k.groupText := rfl

theorem binds_body : k.body.binds = k.terms.flatMap (·.render.binds) := rfl

theorem sql_count : k.count.sql = "select count(*) from (" ++ k.body.sql ++ ") genquery_count" := rfl

theorem binds_count : k.count.binds = k.body.binds := rfl

theorem concat_bodyPieces : concat k.bodyPieces = k.body := by
  rw [bodyPieces, List.cons_append, concat_cons, concat_append, concat_wherePieces]
  ext
  · simp only [sql_body, concat_cons, concat_nil, append_blank, sql_append, String.append_assoc]
  · simp only [binds_body, concat_cons, concat_nil, append_blank, binds_append, List.nil_append,
      List.append_nil]

/-- A statement is its pieces. -/
theorem concat_statementPieces (suffix : Option Fragment) :
    concat (k.statementPieces suffix) = k.statement suffix := by
  rw [statementPieces, concat_append, concat_bodyPieces, concat_cons, statement, append_assoc]
  cases suffix <;> simp

theorem concat_countPieces : concat k.countPieces = k.count := by
  rw [countPieces, List.cons_append, concat_cons, concat_append, concat_bodyPieces]
  ext
  · simp only [sql_count, concat_cons, concat_nil, append_blank, sql_append, String.append_assoc]
  · simp only [binds_count, concat_cons, concat_nil, append_blank, binds_append, List.nil_append,
      List.append_nil]

theorem mem_intercalate {α : Type} {separator : List α} {xss : List (List α)} {x : α}
    (hx : x ∈ separator.intercalate xss) : x ∈ separator ∨ ∃ xs ∈ xss, x ∈ xs := by
  induction xss with
  | nil => simp at hx
  | cons xs xss ih =>
    cases xss with
    | nil => exact .inr ⟨xs, List.mem_singleton_self xs, by simpa using hx⟩
    | cons ys xss =>
      rw [List.intercalate_cons_cons, List.mem_append, List.mem_append] at hx
      rcases hx with (hx | hx) | hx
      · exact .inr ⟨xs, List.mem_cons_self, hx⟩
      · exact .inl hx
      · exact (ih hx).imp_right fun ⟨zs, hzs, hx⟩ => ⟨zs, List.mem_cons_of_mem _ hzs, hx⟩

/-- Only terms bring placeholders, and as many as values. -/
structure Balanced (k : Clauses) : Prop where
  select : ∀ t ∈ k.select, holes t = 0
  sources : ∀ t ∈ k.sources.entries, holes t = 0
  terms : ∀ t ∈ k.terms, t.Balanced
  groupBy : ∀ t ∈ k.groupBy, holes t = 0
  orderBy : ∀ o ∈ k.orderBy, holes o.column = 0

variable {k}

theorem Balanced.wherePieces (h : k.Balanced) : ∀ f ∈ k.wherePieces, f.Balanced := by
  have hwhere : Fragment.Balanced ⟨" where ", []⟩ := balanced_text.mpr (holes_literal (by decide))
  have hand : Fragment.Balanced ⟨" AND ", []⟩ := balanced_text.mpr (holes_literal (by decide))
  intro f hf
  unfold Clauses.wherePieces at hf
  split at hf
  · cases hf
  · rcases List.mem_cons.mp hf with rfl | hf
    · exact hwhere
    · rcases mem_intercalate hf with hf | ⟨ps, hps, hf⟩
      · rwa [List.mem_singleton.mp hf]
      · obtain ⟨t, ht, rfl⟩ := List.mem_map.mp hps
        exact h.terms t ht f hf

theorem Balanced.bodyPieces (h : k.Balanced) : ∀ f ∈ k.bodyPieces, f.Balanced := by
  have hcomma : holes ", " = 0 := holes_literal (by decide)
  have hhead : Fragment.Balanced ⟨"select distinct " ++ ", ".intercalate k.select ++ " from "
      ++ ", ".intercalate k.sources.entries, []⟩ := by
    have hselect : holes "select distinct " = 0 := holes_literal (by decide)
    have hfrom : holes " from " = 0 := holes_literal (by decide)
    simp [balanced_text, hselect, hfrom, holes_intercalate hcomma h.select,
      holes_intercalate hcomma h.sources]
  have hgroup : Fragment.Balanced ⟨k.groupText, []⟩ := by
    have hby : holes " group by " = 0 := holes_literal (by decide)
    rw [balanced_text, groupText]
    split
    · rfl
    · simp [hby, holes_intercalate hcomma h.groupBy]
  intro f hf
  simp only [Clauses.bodyPieces, List.cons_append, List.mem_cons, List.mem_append,
    List.not_mem_nil, or_false] at hf
  rcases hf with rfl | hf | rfl
  · exact hhead
  · exact h.wherePieces f hf
  · exact hgroup

theorem Balanced.statementPieces (h : k.Balanced) {suffix : Option Fragment}
    (hsuffix : ∀ f ∈ suffix, f.Balanced) : ∀ f ∈ k.statementPieces suffix, f.Balanced := by
  have horder : Fragment.Balanced ⟨k.orderText, []⟩ := by
    have hby : holes " order by " = 0 := holes_literal (by decide)
    have hdesc : holes " desc" = 0 := holes_literal (by decide)
    have hitems : ∀ t ∈ k.orderBy.map (·.render), holes t = 0 := by
      intro t ht
      obtain ⟨o, ho, rfl⟩ := List.mem_map.mp ht
      unfold OrderItem.render
      split
      · rw [holes_append, h.orderBy o ho, hdesc]
      · exact h.orderBy o ho
    rw [balanced_text, orderText]
    split
    · rfl
    · rw [holes_append, hby, holes_intercalate (by decide) hitems]
  intro f hf
  simp only [Clauses.statementPieces, List.mem_append, List.mem_cons, Option.mem_toList] at hf
  rcases hf with hf | rfl | hf
  · exact h.bodyPieces f hf
  · exact horder
  · exact hsuffix f hf

theorem Balanced.countPieces (h : k.Balanced) : ∀ f ∈ k.countPieces, f.Balanced := by
  intro f hf
  simp only [Clauses.countPieces, List.cons_append, List.mem_cons, List.mem_append,
    List.not_mem_nil, or_false] at hf
  rcases hf with rfl | hf | rfl
  · exact balanced_text.mpr (holes_literal (by decide))
  · exact h.bodyPieces f hf
  · exact balanced_text.mpr (holes_literal (by decide))

end Clauses

end CatalogQuery.Sql
