import CatalogQuery.Catalog.Answer
import CatalogQuery.Proofs.Sql.Selections

/-!
# Answers of plain queries

The rows of the sources are chosen one after the other, and a choice is given up as soon as the
condition is false. A condition that is false in part of a choice stays so: what is left are the
complete choices in which the condition is not false. A plain query, without groups and limit, answers
with the values of these, each once.

* `Formula.IsConjunction.truth_grows`: what is decided stays so when more rows are chosen;
* `mem_choices`: the choices that are left;
* `lookup_scopeOf`: the value of a column in a complete choice;
* `Query.Plain.answer`: the rows of the answer.
-/

namespace CatalogQuery.Sql

/-! ## Choosing more rows -/

/-- The second entry is the first one, at most with a row chosen that was not. -/
structure ScopeEntry.Grows (e e' : ScopeEntry) : Prop where
  binding : e'.binding = e.binding
  columns : e'.columns = e.columns
  row : ∀ row, e.row = some row → e'.row = some row

theorem ScopeEntry.Grows.refl (e : ScopeEntry) : e.Grows e := ⟨rfl, rfl, fun _ h => h⟩

/-- Rows are chosen for more sources. -/
def Scope.Grows (s s' : Scope) : Prop := List.Forall₂ ScopeEntry.Grows s s'

namespace Scope.Grows

variable {s s' : Scope} {tables : Tables}

theorem refl (s : Scope) : s.Grows s := List.forall₂_same.mpr fun e _ => .refl e

theorem lookup (h : s.Grows s') {c : ColumnRef} {v : Typed} (hv : s.lookup c = some v) :
    s'.lookup c = some v := by
  induction h with
  | nil => exact hv
  | @cons e e' es es' he _ ih =>
    have hcolumn : e'.column? c = e.column? c := by
      simp [ScopeEntry.column?, he.binding, he.columns]
    rw [Scope.lookup] at hv ⊢
    rw [hcolumn]
    split at hv
    · exact ih hv
    · obtain ⟨row, hrow, hv⟩ := Option.bind_eq_some_iff.mp hv
      exact Option.bind_eq_some_iff.mpr ⟨row, he.row row hrow, hv⟩

theorem eval (h : s.Grows s') {a : Operand} {v : Typed} (hv : a.eval s = some v) :
    a.eval s' = some v := by
  induction a generalizing v with
  | column c => exact h.lookup hv
  | number n => exact hv
  | text t => exact hv
  | cast a ih =>
    obtain ⟨x, hx, hv⟩ := Option.map_eq_some_iff.mp hv
    exact Option.map_eq_some_iff.mpr ⟨x, ih hx, hv⟩
  | call f a ih =>
    obtain ⟨x, hx, hv⟩ := Option.map_eq_some_iff.mp hv
    exact Option.map_eq_some_iff.mpr ⟨x, ih hx, hv⟩
  | call₃ f a b c iha ihb ihc =>
    obtain ⟨x, hx, hv⟩ := Option.bind_eq_some_iff.mp hv
    obtain ⟨y, hy, hv⟩ := Option.bind_eq_some_iff.mp hv
    obtain ⟨z, hz, hv⟩ := Option.bind_eq_some_iff.mp hv
    simpa [Operand.eval, iha hx, ihb hy, ihc hz] using hv

end Scope.Grows

theorem bothTrue_false (a : Option Bool) : (bothTrue a fun _ => some false) = some false := by
  rcases a with _ | _ | _ <;> rfl

namespace Formula

/-- Comparisons, all of which hold at once. -/
inductive IsConjunction : Formula → Prop
  | compare (c : Comparison) (a b : Operand) : IsConjunction (.compare c a b)
  | and {f g : Formula} : IsConjunction f → IsConjunction g → IsConjunction (.and f g)

variable {f : Formula} {tables : Tables} {s s' : Scope}

/-- What is decided stays so when more rows are chosen. -/
theorem IsConjunction.truth_grows (hf : f.IsConjunction) (h : s.Grows s') {b : Bool}
    (hb : f.truth tables s = some b) : f.truth tables s' = some b := by
  induction hf generalizing b with
  | compare c x y =>
    rw [truth] at hb ⊢
    obtain ⟨v, hv, hb⟩ := Option.bind_eq_some_iff.mp hb
    obtain ⟨w, hw, hb⟩ := Option.bind_eq_some_iff.mp hb
    simpa [h.eval hv, h.eval hw] using hb
  | @and f g _ _ ihf ihg =>
    rw [truth] at hb ⊢
    cases hf : f.truth tables s with
    | none =>
      rw [hf, bothTrue] at hb
      split at hb
      · next hg => rw [ihg hg, bothTrue_false]; exact hb
      · cases hb
    | some c =>
      rw [ihf hf]
      rw [hf] at hb
      cases c with
      | false => exact hb
      | true => exact ihg hb

end Formula

/-! ## Choices -/

/-- What is refused stays so when more rows are chosen. -/
def Lasting (refused : Scope → Bool) : Prop :=
  ∀ s s' : Scope, s.Grows s' → refused s = true → refused s' = true

theorem grows_unchosen {os : List OpenEntry} {rows : List (List Value)}
    (h : os.length = rows.length) :
    Scope.Grows (os.map OpenEntry.unchosen) (List.zipWith OpenEntry.choose os rows) := by
  induction os generalizing rows with
  | nil => exact .nil
  | cons o os ih =>
    cases rows with
    | nil => cases h
    | cons row rows =>
      exact .cons ⟨rfl, rfl, by intro _ h; cases h⟩ (ih (Nat.succ.inj h))

theorem mem_choices {refused : Scope → Bool} (hrefused : Lasting refused) {outer chosen s : Scope}
    {os : List OpenEntry} : s ∈ choices refused outer chosen os ↔
      ∃ rows, List.Forall₂ (fun o row => row ∈ o.relation.rows) os rows ∧
        s = chosen ++ List.zipWith OpenEntry.choose os rows ++ outer ∧
        (os ≠ [] → refused s = false) := by
  induction os generalizing chosen with
  | nil => simp [choices]
  | cons o os ih =>
    simp only [choices, List.mem_flatMap]
    constructor
    · rintro ⟨row, hrow, hs⟩
      split at hs
      case isTrue => cases hs
      case isFalse hopen =>
      obtain ⟨rows, hrows, rfl, hdone⟩ := ih.mp hs
      refine ⟨row :: rows, .cons hrow hrows, by simp, fun _ => ?_⟩
      cases hrows with
      | nil => simpa using hopen
      | cons => exact hdone (by simp)
    · rintro ⟨rows, hrows, rfl, hdone⟩
      obtain ⟨row, rows, hrow, htail, rfl⟩ := List.forall₂_cons_left_iff.mp hrows
      have hgrows : Scope.Grows (chosen ++ [o.choose row] ++ os.map OpenEntry.unchosen ++ outer)
          (chosen ++ List.zipWith OpenEntry.choose (o :: os) (row :: rows) ++ outer) := by
        have hrest : Scope.Grows (os.map OpenEntry.unchosen)
            (List.zipWith OpenEntry.choose os rows) := grows_unchosen htail.length_eq
        have happend := List.rel_append (Scope.Grows.refl (chosen ++ [o.choose row])) hrest
        simpa [Scope.Grows] using List.rel_append happend (Scope.Grows.refl outer)
      refine ⟨row, hrow, ?_⟩
      split
      case isTrue hclosed =>
        have := hrefused _ _ hgrows hclosed
        rw [hdone (by simp)] at this
        cases this
      case isFalse =>
        exact ih.mpr ⟨rows, htail, by simp, fun _ => hdone (by simp)⟩

/-! ## Rows by the names of sources -/

/-- The choice of a row for each source, by its binding. -/
def scopeOf (rowOf : String → List Value) (os : List OpenEntry) : Scope :=
  os.map fun o => o.choose (rowOf o.binding)

/-- Every source has one of its rows. -/
def Chooses (rowOf : String → List Value) (os : List OpenEntry) : Prop :=
  ∀ o ∈ os, rowOf o.binding ∈ o.relation.rows

variable {os : List OpenEntry} {rowOf : String → List Value}

theorem exists_chooses (hnodup : (os.map (·.binding)).Nodup) {rows : List (List Value)}
    (h : List.Forall₂ (fun o row => row ∈ o.relation.rows) os rows) :
    ∃ rowOf, Chooses rowOf os ∧ List.zipWith OpenEntry.choose os rows = scopeOf rowOf os := by
  induction h with
  | nil => exact ⟨fun _ => [], by simp [Chooses], rfl⟩
  | @cons o row os rows hrow _ ih =>
    rw [List.map_cons, List.nodup_cons] at hnodup
    obtain ⟨rowOf, hchooses, hzip⟩ := ih hnodup.2
    have hkept : ∀ k ∈ os, Function.update rowOf o.binding row k.binding = rowOf k.binding := by
      intro k hk
      have hne : k.binding ≠ o.binding := fun e => hnodup.1 (e ▸ List.mem_map_of_mem hk)
      exact Function.update_of_ne hne _ _
    refine ⟨Function.update rowOf o.binding row, ?_, ?_⟩
    · intro k hk
      rcases List.mem_cons.mp hk with rfl | hk
      · simpa using hrow
      · rw [hkept k hk]
        exact hchooses k hk
    · have htail : scopeOf (Function.update rowOf o.binding row) os = scopeOf rowOf os :=
        List.map_congr_left fun k hk => by rw [hkept k hk]
      rw [List.zipWith_cons_cons, hzip, ← htail]
      simp [scopeOf]

theorem forall₂_chooses (h : Chooses rowOf os) :
    List.Forall₂ (fun o row => row ∈ o.relation.rows) os (os.map fun o => rowOf o.binding) :=
  List.forall₂_map_right_iff.mpr (List.forall₂_same.mpr h)

theorem zipWith_choose : List.zipWith OpenEntry.choose os (os.map fun o => rowOf o.binding)
    = scopeOf rowOf os := by
  induction os with
  | nil => rfl
  | cons o os ih => simpa [scopeOf] using ih

/-- The value of a column is that in the row of its source. -/
theorem lookup_scopeOf (hnodup : (os.map (·.binding)).Nodup) {o : OpenEntry} (ho : o ∈ os)
    {c : SourceColumn} {i : Nat} {affinity : Affinity} (hbinding : o.binding = c.binding)
    (hc : o.unchosen.column? c.ref = some (i, affinity)) :
    (scopeOf rowOf os).lookup c.ref = (rowOf c.binding)[i]?.map fun v => ⟨v, affinity⟩ := by
  induction os with
  | nil => cases ho
  | cons k os ih =>
    rw [List.map_cons, List.nodup_cons] at hnodup
    have hcolumn : ∀ row, (k.choose row).column? c.ref = k.unchosen.column? c.ref := fun _ => rfl
    rw [scopeOf, List.map_cons, Scope.lookup, hcolumn]
    rcases List.mem_cons.mp ho with rfl | hmem
    · simp [hc, OpenEntry.choose, hbinding]
    · have hne : c.binding ≠ k.binding := by
        rw [← hbinding]
        exact fun e => hnodup.1 (e ▸ List.mem_map_of_mem hmem)
      have hnone : k.unchosen.column? c.ref = none := by
        simp [ScopeEntry.column?, SourceColumn.ref, OpenEntry.unchosen, hne]
      rw [hnone]
      exact ih hnodup.2 hmem

/-! ## Answers -/

namespace Query

/-- Values that count as the same are the same. -/
def Distinguished (rs : List Keyed) : Prop :=
  ∀ r ∈ rs, ∀ r' ∈ rs, sameValues r.values r'.values = true ↔ r.values = r'.values

theorem withoutRepetition_values {done rs : List Keyed} (h : Distinguished (done ++ rs))
    (hdone : (done.map (·.values)).Nodup) :
    ((withoutRepetition done rs).map (·.values)).Nodup ∧
      ∀ vs, vs ∈ (withoutRepetition done rs).map (·.values) ↔
        vs ∈ (done ++ rs).map (·.values) := by
  induction rs generalizing done with
  | nil => simpa [withoutRepetition] using hdone
  | cons r rs ih =>
    have hr : r ∈ done ++ r :: rs := by simp
    have hany : (done.any fun d => sameValues d.values r.values) = true ↔
        r.values ∈ done.map (·.values) := by
      rw [List.any_eq_true, List.mem_map]
      exact exists_congr fun d => and_congr_right fun hd => h d (by simp [hd]) r hr
    rw [withoutRepetition]
    split
    case isTrue hrepeated =>
      have hless : Distinguished (done ++ rs) := fun x hx y hy =>
        h x (by simp at hx ⊢; tauto) y (by simp at hy ⊢; tauto)
      obtain ⟨hnodup, hmem⟩ := ih hless hdone
      refine ⟨hnodup, fun vs => ?_⟩
      have := hany.mp hrepeated
      rw [hmem]
      simp only [List.map_append, List.map_cons, List.mem_append, List.mem_cons]
      constructor
      · tauto
      · rintro (hvs | rfl | hvs)
        · exact .inl hvs
        · exact .inl this
        · exact .inr hvs
    case isFalse hnew =>
      have hfresh : r.values ∉ done.map (·.values) := fun hmem => hnew (hany.mpr hmem)
      have hlonger : ((done ++ [r]).map (·.values)).Nodup := by
        rw [List.map_append, List.map_singleton, List.nodup_append]
        refine ⟨hdone, by simp, fun vs hvs ws hws e => hfresh ?_⟩
        rw [← List.mem_singleton.mp hws, ← e]
        exact hvs
      have hsame : Distinguished (done ++ [r] ++ rs) := by simpa using h
      obtain ⟨hnodup, hmem⟩ := ih hsame hlonger
      exact ⟨hnodup, by simpa using hmem⟩

theorem perm_insertSorted (ks : List SortKey) (r : Keyed) (rs : List Keyed) :
    (insertSorted ks r rs).Perm (r :: rs) := by
  induction rs with
  | nil => exact .refl _
  | cons x rs ih =>
    rw [insertSorted]
    split
    · exact .refl _
    · exact (ih.cons x).trans (.swap r x rs)

theorem perm_sorted (ks : List SortKey) (rs : List Keyed) : (sorted ks rs).Perm rs := by
  have hfold : ∀ done, (rs.foldl (fun done r => insertSorted ks r done) done).Perm (done ++ rs) := by
    induction rs with
    | nil => simp
    | cons r rs ih =>
      intro done
      rw [List.foldl_cons]
      refine (ih _).trans (((perm_insertSorted ks r done).append_right rs).trans ?_)
      exact List.perm_middle.symm
  unfold sorted
  split
  · exact .refl _
  · exact hfold []

/-- A query of the values of columns, each once, and all of them. -/
structure Plain (q : Query) : Prop where
  distinct : q.distinct = true
  groupBy : q.groupBy = []
  outputs : q.outputs.any isAggregate = false
  limit : q.limit = none

variable {q : Query} {tables : Tables}

/-- The answer has the values of every choice, each once. -/
theorem Plain.answer (h : q.Plain)
    (hsame : Distinguished ((q.matching tables).map fun s => q.keyed [s])) :
    (q.answer tables).Nodup ∧ ∀ row, row ∈ q.answer tables ↔
      ∃ s ∈ q.matching tables, row = q.outputs.map (outputValue [s]) := by
  have hportions : (q.portions (q.matching tables)).map q.keyed
      = (q.matching tables).map fun s => q.keyed [s] := by
    simp [portions, h.groupBy, h.outputs]
  have hall : Distinguished ([] ++ (q.matching tables).map fun s => q.keyed [s]) := hsame
  obtain ⟨hnodup, hmem⟩ := withoutRepetition_values hall .nil
  have hanswer : q.answer tables = (sorted q.orderBy (withoutRepetition []
      ((q.matching tables).map fun s => q.keyed [s]))).map (·.values) := by
    simp [Query.answer, hportions, h.distinct, h.limit, cut]
  have hperm := (perm_sorted q.orderBy (withoutRepetition []
    ((q.matching tables).map fun s => q.keyed [s]))).map (·.values)
  rw [hanswer]
  refine ⟨hperm.nodup_iff.mpr hnodup, fun row => ?_⟩
  rw [hperm.mem_iff, hmem]
  simp [keyed, eq_comm]

end Query

end CatalogQuery.Sql
