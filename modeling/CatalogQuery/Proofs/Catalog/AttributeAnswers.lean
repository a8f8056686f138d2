import CatalogQuery.Catalog.Database
import CatalogQuery.Proofs.Catalog.SelectedRows
import CatalogQuery.Proofs.Compile.AttributeSearch
import Mathlib.Logic.Function.Basic

/-!
# Answers to attribute searches

What a catalog answers to a search for data objects by attributes. The rows of the object, of its
places in the map and of the attributes are chosen independently; the equations of the statement bind
them to one object and to the tests.

* `Catalog.Bears`: a data object has attribute rows of which the tests hold;
* `AttributeTest.truth_joins`: what the joins say of an object, a link and an attribute row;
* `AttributeTest.Shows.truth_equations`: what the tests say of the attribute rows;
* `AttributeTest.delivers_iff`: the selection delivers the objects that have such rows;
* `AttributeTest.bearers_found`: a search finds the objects that have such rows, each once.
-/

namespace CatalogQuery

open Sql

/-! ## What is looked for -/

/-- The data object has these attribute rows, and the tests hold of them: each name of the row with
its number, each value of the row that it belongs to. -/
structure Catalog.Bears (c : Catalog) (object : Int) (ts : List AttributeTest)
    (as : List AttributeRow) : Prop where
  count : as.length = AttributeTest.rowCount ts
  mapped : ∀ a ∈ as, a ∈ c.attributeRows ∧ ⟨object, a.id⟩ ∈ c.attributeLinks
  names : ∀ (i : Nat) (n : String), (AttributeTest.names ts)[i]? = some n →
    as[i]?.map (·.name) = some n
  values : ∀ (j : Nat) (v : String), (AttributeTest.values ts)[j]? = some v →
    as[AttributeTest.rowOfValue (AttributeTest.names ts).length j]?.map (·.value) = some v

/-! ## Comparing -/

/-- Columns of integers are equal if the integers are. -/
theorem Equation.truth_columns {tables : Tables} {t : Scope} {x y : SourceColumn} {a b : Int}
    (hx : t.lookup x.ref = some ⟨.int a, .numeric⟩) (hy : t.lookup y.ref = some ⟨.int b, .numeric⟩) :
    (Equation.columns x y).formula.truth tables t = some true ↔ a = b := by
  simp [Equation.formula, Formula.truth, Operand.eval, hx, hy, Comparison.holds_int,
    Comparison.admits]

/-- A column of texts is compared character by character, also with a text that looks like a
number. -/
theorem Equation.truth_literal {tables : Tables} {t : Scope} {x : SourceColumn} {w v : String}
    (hx : t.lookup x.ref = some ⟨.text w, .text⟩) :
    (Equation.literal x v).formula.truth tables t = some true ↔ w = v := by
  simp [Equation.formula, Formula.truth, Operand.eval, hx, Comparison.holds_text, Comparison.admits]

/-! ## Columns of slots -/

namespace Slot

/-- The rows from which a slot is filled. -/
def relation (c : Catalog) : Slot → Relation
  | object => .of c.replicas
  | map _ => .of c.attributeLinks
  | row _ => .of c.attributeRows

theorem relation?_table (c : Catalog) (x : Slot) : c.relation? x.table = some (x.relation c) := by
  cases x <;> rfl

/-- The columns that a search mentions, with their places in a row. -/
inductive HasColumn : Slot → String → Nat → Affinity → Prop
  | object : HasColumn object "data_id" 0 .numeric
  | mapObject (i : Nat) : HasColumn (map i) "object_id" 0 .numeric
  | mapMeta (i : Nat) : HasColumn (map i) "meta_id" 1 .numeric
  | rowMeta (i : Nat) : HasColumn (row i) "meta_id" 0 .numeric
  | rowName (i : Nat) : HasColumn (row i) "meta_attr_name" 1 .text
  | rowValue (i : Nat) : HasColumn (row i) "meta_attr_value" 2 .text

namespace HasColumn

variable {x : Slot} {name : String} {i : Nat} {affinity : Affinity}

theorem named (h : HasColumn x name i affinity) : SourceColumn.Named ⟨x.binding, name⟩ := by
  have hname : name ∈ fixedNames := by cases h <;> decide
  exact ⟨(named_source x).binding, isName_fixed hname⟩

theorem column? (h : HasColumn x name i affinity) (c : Catalog) :
    (x.source.entry c.relation?).unchosen.column? (SourceColumn.ref ⟨x.binding, name⟩)
      = some (i, affinity) := by
  have hcolumns : ((x.relation c).columns.findIdx? (·.1 == name)).bind
      (fun i => (x.relation c).columns[i]?.map fun s => (i, s.2)) = some (i, affinity) := by
    cases h <;> rfl
  simpa [ScopeEntry.column?, SourceColumn.ref, OpenEntry.unchosen, Source.entry, source,
    relation?_table] using hcolumns

theorem wide (h : HasColumn x name i affinity) (c : Catalog) :
    ∀ row ∈ (x.source.entry c.relation?).relation.rows, i < row.length := by
  rw [Source.entry, source, relation?_table]
  cases h <;> exact List.forall_mem_map.mpr fun _ _ => by simp [Row.values]

end HasColumn

end Slot

namespace AttributeTest

open Slot

variable {ts : List AttributeTest} {c : Catalog} {rowOf : String → List Value}

/-! ## The selection -/

/-- Every column that is mentioned is one of a slot. -/
theorem hasColumn_of_mem {order : SortOrder} {d : SourceColumn}
    (hd : d ∈ (selection order ts).columns) :
    ∃ x ∈ slots (rowCount ts), ∃ i affinity, HasColumn x d.name i affinity ∧
      d.binding = x.binding := by
  rcases Selection.mem_columns.mp hd with rfl | ⟨e, he, hde⟩
  · exact ⟨object, object_mem_slots _, _, _, .object, rfl⟩
  rcases mem_selection.mp he with he | ⟨i, hi, he⟩
  · rcases mem_equations.mp he with ⟨i, s, hs, rfl⟩ | ⟨j, s, hs, rfl⟩
    · obtain rfl := List.mem_singleton.mp hde
      rw [Nat.zero_add]
      exact ⟨row i, row_mem_slots (lt_rowCount_of_name hs), _, _, .rowName i, rfl⟩
    · obtain rfl := List.mem_singleton.mp hde
      rw [Nat.zero_add]
      exact ⟨row _, row_mem_slots (rowOfValue_lt hs), _, _, .rowValue _, rfl⟩
  · simp only [joins, List.mem_cons, List.not_mem_nil, or_false] at he
    rcases he with rfl | rfl
    · simp only [Equation.mentioned, List.mem_cons, List.not_mem_nil, or_false] at hde
      rcases hde with rfl | rfl
      · exact ⟨map i, map_mem_slots hi, _, _, .mapMeta i, rfl⟩
      · exact ⟨row i, row_mem_slots hi, _, _, .rowMeta i, rfl⟩
    · simp only [Equation.mentioned, List.mem_cons, List.not_mem_nil, or_false] at hde
      rcases hde with rfl | rfl
      · exact ⟨object, object_mem_slots _, _, _, .object, rfl⟩
      · exact ⟨map i, map_mem_slots hi, _, _, .mapObject i, rfl⟩

theorem selection_named (order : SortOrder) (ts : List AttributeTest) :
    (selection order ts).Named := by
  constructor
  case sources => exact List.forall_mem_map.mpr fun x _ => named_source x
  case columns =>
    intro d hd
    obtain ⟨x, -, i, affinity, hcolumn, hbinding⟩ := hasColumn_of_mem hd
    have hnamed := hcolumn.named
    rwa [← hbinding] at hnamed
  case sourced => simp [selection, slots]

theorem selection_scoped (order : SortOrder) (ts : List AttributeTest) (c : Catalog) :
    (selection order ts).Scoped c.relation? := by
  constructor
  case nodup =>
    simp only [selection, List.map_map]
    exact (nodup_slots _).map binding_injective
  case known =>
    refine List.forall_mem_map.mpr fun x _ => ?_
    rw [source, relation?_table]
    rfl
  case columns =>
    intro d hd
    obtain ⟨x, hx, i, affinity, hcolumn, hbinding⟩ := hasColumn_of_mem hd
    refine ⟨x.source, List.mem_map_of_mem hx, hbinding.symm, i, affinity, ?_, hcolumn.wide c⟩
    have hfound := hcolumn.column? c
    rwa [← hbinding] at hfound

/-! ## What is chosen -/

/-- A data object is chosen and some attribute rows, each with its place in the map of the object. -/
structure Shows (rowOf : String → List Value) (d : Replica) (as : List AttributeRow) : Prop where
  replica : rowOf object.binding = Row.values d
  links : ∀ i a, as[i]? = some a →
    rowOf (map i).binding = Row.values (⟨d.object, a.id⟩ : AttributeLink)
  attributes : ∀ i a, as[i]? = some a → rowOf (row i).binding = Row.values a

/-- What a search looks for is chosen, if it exists. -/
theorem exists_shows (d : Replica) (as : List AttributeRow) : ∃ rowOf, Shows rowOf d as := by
  let rows : Slot → List Value
    | .object => Row.values d
    | .map i => (as[i]?.map fun a => Row.values (⟨d.object, a.id⟩ : AttributeLink)).getD []
    | .row i => (as[i]?.map Row.values).getD []
  have hrows : ∀ x, Function.extend binding rows (fun _ => []) x.binding = rows x :=
    binding_injective.extend_apply _ _
  refine ⟨Function.extend binding rows fun _ => [], hrows _, fun i a ha => ?_, fun i a ha => ?_⟩
  · rw [hrows]
    simp [rows, ha]
  · rw [hrows]
    simp [rows, ha]

/-- The scope in which the equations of a search are read. -/
def searchScope (order : SortOrder) (ts : List AttributeTest) (c : Catalog)
    (rowOf : String → List Value) : Scope :=
  scopeOf rowOf ((selection order ts).entries c.relation?)

variable {order : SortOrder}

/-- Everything that is compared has the value that was chosen. -/
theorem lookup_slot {x : Slot} {name : String} {i : Nat} {affinity : Affinity}
    (hx : x ∈ slots (rowCount ts)) (h : HasColumn x name i affinity) {row : List Value}
    (hrow : rowOf x.binding = row) {v : Value} (hv : row[i]? = some v) :
    (searchScope order ts c rowOf).lookup (SourceColumn.ref ⟨x.binding, name⟩)
      = some ⟨v, affinity⟩ := by
  have hentry : x.source.entry c.relation? ∈ (selection order ts).entries c.relation? :=
    List.mem_map_of_mem (List.mem_map_of_mem hx)
  have hlookup : (searchScope order ts c rowOf).lookup (SourceColumn.ref ⟨x.binding, name⟩)
      = (rowOf x.binding)[i]?.map fun v => ⟨v, affinity⟩ :=
    lookup_scopeOf (selection_scoped order ts c).nodup_entries hentry rfl (h.column? c)
  rw [hlookup, hrow, hv]
  rfl

/-- The joins hold if the place in the map is that of the attribute row at the object. -/
theorem truth_joins {d : Replica} {l : AttributeLink} {a : AttributeRow} {i : Nat}
    (hi : i < rowCount ts) (hobject : rowOf object.binding = Row.values d)
    (hmap : rowOf (map i).binding = Row.values l) (hrow : rowOf (row i).binding = Row.values a) :
    (∀ e ∈ joins i, e.formula.truth c.relation? (searchScope order ts c rowOf) = some true) ↔
      l = ⟨d.object, a.id⟩ := by
  have hmapSlot : map i ∈ slots (rowCount ts) := map_mem_slots hi
  have hattribute : (Equation.columns ⟨(map i).binding, "meta_id"⟩
      ⟨(row i).binding, "meta_id"⟩).formula.truth c.relation? (searchScope order ts c rowOf)
        = some true ↔ l.metaId = a.id :=
    Equation.truth_columns (lookup_slot hmapSlot (.mapMeta i) hmap rfl)
      (lookup_slot (row_mem_slots hi) (.rowMeta i) hrow rfl)
  have hbelongs : (Equation.columns ⟨object.binding, "data_id"⟩
      ⟨(map i).binding, "object_id"⟩).formula.truth c.relation? (searchScope order ts c rowOf)
        = some true ↔ d.object = l.object :=
    Equation.truth_columns (lookup_slot (object_mem_slots _) .object hobject rfl)
      (lookup_slot hmapSlot (.mapObject i) hmap rfl)
  simp only [joins, List.forall_mem_cons, hattribute, hbelongs]
  obtain ⟨object, metaId⟩ := l
  simp [and_comm, eq_comm]

/-- The tests hold if the attribute rows have the names and the values. -/
theorem Shows.truth_equations {d : Replica} {as : List AttributeRow} (h : Shows rowOf d as)
    (hcount : as.length = rowCount ts) :
    (∀ e ∈ equations (names ts).length 0 0 ts,
        e.formula.truth c.relation? (searchScope order ts c rowOf) = some true) ↔
      (∀ (i : Nat) (n : String), (names ts)[i]? = some n → as[i]?.map (·.name) = some n) ∧
      ∀ (j : Nat) (v : String), (values ts)[j]? = some v →
        as[rowOfValue (names ts).length j]?.map (·.value) = some v := by
  have htext : ∀ {i : Nat} {name : String} {k : Nat} (f : AttributeRow → String) {s : String},
      i < rowCount ts → HasColumn (row i) name k .text →
      (∀ a : AttributeRow, (Row.values a)[k]? = some (.text (f a))) →
      ((Equation.literal ⟨(row i).binding, name⟩ s).formula.truth c.relation?
        (searchScope order ts c rowOf) = some true ↔ as[i]?.map f = some s) := by
    intro i name k f s hi hcolumn hf
    have ha : as[i]? = some as[i] := List.getElem?_eq_getElem (hcount ▸ hi)
    have hlookup : (searchScope order ts c rowOf).lookup (SourceColumn.ref ⟨(row i).binding, name⟩)
        = some ⟨.text (f as[i]), .text⟩ :=
      lookup_slot (row_mem_slots hi) hcolumn (h.attributes i _ ha) (hf _)
    rw [ha, Equation.truth_literal hlookup]
    simp
  have hname : ∀ {i : Nat} {n : String}, i < rowCount ts →
      ((Equation.literal ⟨(row i).binding, "meta_attr_name"⟩ n).formula.truth c.relation?
        (searchScope order ts c rowOf) = some true ↔ as[i]?.map (·.name) = some n) :=
    fun hi => htext _ hi (.rowName _) fun _ => rfl
  have hvalue : ∀ {i : Nat} {v : String}, i < rowCount ts →
      ((Equation.literal ⟨(row i).binding, "meta_attr_value"⟩ v).formula.truth c.relation?
        (searchScope order ts c rowOf) = some true ↔ as[i]?.map (·.value) = some v) :=
    fun hi => htext _ hi (.rowValue _) fun _ => rfl
  constructor
  · intro hall
    refine ⟨fun i n hn => ?_, fun j v hv => ?_⟩
    · have he := hall _ (mem_equations.mpr (.inl ⟨i, n, hn, rfl⟩))
      rw [Nat.zero_add] at he
      exact (hname (lt_rowCount_of_name hn)).mp he
    · have he := hall _ (mem_equations.mpr (.inr ⟨j, v, hv, rfl⟩))
      rw [Nat.zero_add] at he
      exact (hvalue (rowOfValue_lt hv)).mp he
  · rintro ⟨hnames, hvalues⟩ e he
    rcases mem_equations.mp he with ⟨i, n, hn, rfl⟩ | ⟨j, v, hv, rfl⟩
    · rw [Nat.zero_add]
      exact (hname (lt_rowCount_of_name hn)).mpr (hnames i n hn)
    · rw [Nat.zero_add]
      exact (hvalue (rowOfValue_lt hv)).mpr (hvalues j v hv)

/-- The rows of the slots are those of an object, its places in the map and attribute rows. -/
theorem mem_rows {x : Slot} (hrows : Chooses rowOf ((selection order ts).entries c.relation?))
    (hx : x ∈ slots (rowCount ts)) : rowOf x.binding ∈ (x.relation c).rows := by
  have hentry : x.source.entry c.relation? ∈ (selection order ts).entries c.relation? :=
    List.mem_map_of_mem (List.mem_map_of_mem hx)
  have hrow := hrows _ hentry
  rwa [Source.entry, source, relation?_table] at hrow

theorem exists_list_of_forall_lt {α : Type} {P : Nat → α → Prop} {n : Nat} (h : ∀ i < n, ∃ a, P i a) :
    ∃ as : List α, as.length = n ∧ ∀ i a, as[i]? = some a → P i a := by
  induction n with
  | zero => exact ⟨[], rfl, by simp⟩
  | succ n ih =>
    obtain ⟨as, hlength, hall⟩ := ih fun i hi => h i (by omega)
    obtain ⟨a, ha⟩ := h n (by omega)
    refine ⟨as ++ [a], by simp [hlength], fun i b hb => ?_⟩
    rcases Nat.lt_or_ge i n with hi | hi
    · rw [List.getElem?_append_left (hlength ▸ hi)] at hb
      exact hall i b hb
    · rw [List.getElem?_append_right (hlength ▸ hi), List.getElem?_singleton] at hb
      split at hb
      · obtain rfl : i = n := by omega
        cases hb
        exact ha
      · cases hb

/-- What satisfies the joins is an object with attribute rows that are mapped to it. -/
theorem exists_shown (hrows : Chooses rowOf ((selection order ts).entries c.relation?))
    (hjoins : ∀ i < rowCount ts, ∀ e ∈ joins i,
      e.formula.truth c.relation? (searchScope order ts c rowOf) = some true) :
    ∃ d ∈ c.replicas, ∃ as, as.length = rowCount ts ∧ Shows rowOf d as ∧
      ∀ a ∈ as, a ∈ c.attributeRows ∧ ⟨d.object, a.id⟩ ∈ c.attributeLinks := by
  obtain ⟨d, hd, hobject⟩ := List.mem_map.mp (mem_rows hrows (object_mem_slots _))
  have hmapped : ∀ i < rowCount ts, ∃ a, a ∈ c.attributeRows ∧
      ⟨d.object, a.id⟩ ∈ c.attributeLinks ∧ rowOf (row i).binding = Row.values a ∧
      rowOf (map i).binding = Row.values (⟨d.object, a.id⟩ : AttributeLink) := by
    intro i hi
    obtain ⟨l, hl, hmap⟩ := List.mem_map.mp (mem_rows hrows (map_mem_slots hi))
    obtain ⟨a, ha, hrow⟩ := List.mem_map.mp (mem_rows hrows (row_mem_slots hi))
    -- A link is its object and its attribute, so the joins leave no choice in the map.
    obtain rfl := (truth_joins hi hobject.symm hmap.symm hrow.symm).mp (hjoins i hi)
    exact ⟨a, ha, hl, hrow.symm, hmap.symm⟩
  obtain ⟨as, hlength, hall⟩ := exists_list_of_forall_lt hmapped
  refine ⟨d, hd, as, hlength, ⟨hobject.symm, ?_, ?_⟩, ?_⟩
  · exact fun i a ha => (hall i a ha).2.2.2
  · exact fun i a ha => (hall i a ha).2.2.1
  · intro a ha
    obtain ⟨i, hi⟩ := List.getElem?_of_mem ha
    exact ⟨(hall i a hi).1, (hall i a hi).2.1⟩

/-- An object with attribute rows that are mapped to it can be chosen, and satisfies the joins. -/
theorem Shows.fits {d : Replica} {as : List AttributeRow} (h : Shows rowOf d as)
    (hd : d ∈ c.replicas) (hcount : as.length = rowCount ts)
    (hmapped : ∀ a ∈ as, a ∈ c.attributeRows ∧ ⟨d.object, a.id⟩ ∈ c.attributeLinks) :
    Chooses rowOf ((selection order ts).entries c.relation?) ∧ ∀ i < rowCount ts, ∀ e ∈ joins i,
      e.formula.truth c.relation? (searchScope order ts c rowOf) = some true := by
  have hget : ∀ {i}, i < rowCount ts → ∃ a ∈ as, as[i]? = some a := fun hi =>
    ⟨_, List.getElem_mem (hcount ▸ hi), List.getElem?_eq_getElem (hcount ▸ hi)⟩
  constructor
  · refine List.forall_mem_map.mpr (List.forall_mem_map.mpr fun x hx => ?_)
    show rowOf x.binding ∈ _
    rw [Source.entry, source, relation?_table]
    rcases mem_slots.mp hx with rfl | ⟨i, hi, rfl | rfl⟩
    · rw [h.replica]
      exact List.mem_map_of_mem hd
    · obtain ⟨a, ha, hai⟩ := hget hi
      rw [h.links i a hai]
      exact List.mem_map_of_mem (hmapped a ha).2
    · obtain ⟨a, ha, hai⟩ := hget hi
      rw [h.attributes i a hai]
      exact List.mem_map_of_mem (hmapped a ha).1
  · intro i hi
    obtain ⟨a, ha, hai⟩ := hget hi
    exact (truth_joins hi h.replica (h.links i a hai) (h.attributes i a hai)).mpr rfl

end AttributeTest

/-! ## Answers -/

namespace AttributeTest

open Slot

variable {ts : List AttributeTest} {c : Catalog} {order : SortOrder}

/-- A search selects the ids of the objects that have such attribute rows. -/
theorem delivers_iff {v : Value} :
    (∃ rowOf, (selection order ts).Delivers c.relation? rowOf v) ↔
      ∃ d ∈ c.replicas, v = .int d.object ∧ ∃ as, c.Bears d.object ts as := by
  have hvalue : ∀ {rowOf} {d : Replica}, rowOf object.binding = Row.values d →
      (selection order ts).value (searchScope order ts c rowOf) = .int d.object := by
    intro rowOf d hobject
    have hlookup : (searchScope order ts c rowOf).lookup (selection order ts).output.ref
        = some ⟨.int d.object, .numeric⟩ :=
      lookup_slot (object_mem_slots _) .object hobject rfl
    rw [Selection.value, Query.valueOf, hlookup]
    rfl
  constructor
  · rintro ⟨rowOf, hrows, hall, rfl⟩
    have htests : ∀ e ∈ equations (names ts).length 0 0 ts, _ := fun e he =>
      hall e (mem_selection.mpr (.inl he))
    obtain ⟨d, hd, as, hcount, hshows, hmapped⟩ := exists_shown hrows fun i hi e he =>
      hall e (mem_selection.mpr (.inr ⟨i, hi, he⟩))
    obtain ⟨hnames, hvalues⟩ := (hshows.truth_equations hcount).mp htests
    exact ⟨d, hd, hvalue hshows.replica, as, hcount, hmapped, hnames, hvalues⟩
  · rintro ⟨d, hd, rfl, as, hcount, hmapped, hnames, hvalues⟩
    obtain ⟨rowOf, hshows⟩ := exists_shows d as
    obtain ⟨hrows, hjoins⟩ : Chooses rowOf ((selection order ts).entries c.relation?) ∧ _ :=
      hshows.fits hd hcount hmapped
    refine ⟨rowOf, hrows, fun e he => ?_, (hvalue hshows.replica).symm⟩
    rcases mem_selection.mp he with he | ⟨i, hi, he⟩
    · exact (hshows.truth_equations hcount).mpr ⟨hnames, hvalues⟩ e he
    · exact hjoins i hi e he

/-- A search for data objects by attributes means what it says: it compiles to one statement, and on
every catalog that statement has the ids of the objects that have such attribute rows, each once. -/
theorem bearers_found {s : Schema} (hs : Standard.schema = .ok s) (dialect : Dialect)
    {caller : Caller} {options : CompileOptions} (hpolicy : options.strict = false)
    (huser : caller.user ≠ options.anonymousUser) {r : Request} (hr : r.Searches order ts) :
    ∃ compiled, s.compile dialect caller options r = .ok compiled ∧ ∀ c : Catalog, ∃ rows,
      (Database.catalog c).run compiled.statement.sql compiled.statement.binds = .ok rows ∧
      rows.Nodup ∧ ∀ row, row ∈ rows ↔
        ∃ d ∈ c.replicas, row = [.int d.object] ∧ ∃ as, c.Bears d.object ts as := by
  have hfilter : caller.isFiltered options.strict options.anonymousUser = false := by
    simp [Caller.isFiltered, hpolicy, huser]
  obtain ⟨compiled, hcompile, hstatement⟩ := compile_eq hs dialect hfilter hr
  refine ⟨compiled, hcompile, fun c => ?_⟩
  -- Only ids are delivered, and these are distinct as values if they are distinct.
  have hsame : ∀ {rowOf rowOf' v w}, (selection order ts).Delivers c.relation? rowOf v →
      (selection order ts).Delivers c.relation? rowOf' w → (v.compare w = .eq ↔ v = w) := by
    intro rowOf rowOf' v w hv hw
    obtain ⟨d, -, rfl, -⟩ := delivers_iff.mp ⟨rowOf, hv⟩
    obtain ⟨d', -, rfl, -⟩ := delivers_iff.mp ⟨rowOf', hw⟩
    exact (Value.compare_int_eq _ _).trans (by simp [Value.int])
  obtain ⟨rows, hrun, hnodup, hmem⟩ := Selection.run_statement (selection_named order ts)
    (selection_scoped order ts c) hsame
  rw [hstatement]
  refine ⟨rows, ?_, hnodup, fun row => (hmem row).trans ?_⟩
  · rw [Database.run_catalog, hrun]
    rfl
  · constructor
    · rintro ⟨rowOf, v, hv, rfl⟩
      obtain ⟨d, hd, rfl, has⟩ := delivers_iff.mp ⟨rowOf, hv⟩
      exact ⟨d, hd, rfl, has⟩
    · rintro ⟨d, hd, rfl, has⟩
      obtain ⟨rowOf, hv⟩ := delivers_iff.mpr ⟨d, hd, rfl, has⟩
      exact ⟨rowOf, _, hv, rfl⟩

/-- Runs with their quality and, if it was measured, their temperature. -/
def runs : Catalog where
  replicas := [10, 20, 20].map fun n => ⟨n, 1, "run.dat", 0, "", "generic", 5, "disk", "/run.dat",
    "alice", "north", "0", "0"⟩
  attributeRows := [⟨1, "quality", "good", ""⟩, ⟨2, "temperature", "60", "K"⟩]
  attributeLinks := [⟨10, 1⟩, ⟨20, 1⟩, ⟨20, 2⟩]

/-- Asks for runs of good quality that have a temperature. -/
def measuredRuns : Request where
  select := [⟨⟨401⟩, .none, .desc⟩]
  conditions := [⟨⟨600⟩, "= 'quality'"⟩, ⟨⟨601⟩, " = 'good' "⟩, ⟨⟨600⟩, "='temperature'"⟩]

/-- The value between two names belongs to the first one; of both runs the one with a temperature is
found, and only once. -/
theorem measured_run_found : ∃ s, Standard.schema = .ok s ∧
    ∃ compiled, s.compile .postgres ⟨"alice", "north", .localUser⟩ {} measuredRuns = .ok compiled ∧
      (Database.catalog runs).run compiled.statement.sql compiled.statement.binds
        = .ok [[.int 20]] := by
  have hok : Standard.schema.isOk = true := by decide +kernel
  have hread : Condition.parse "= 'quality'" = .ok (name "quality").condition ∧
      Condition.parse " = 'good' " = .ok (value "good").condition ∧
      Condition.parse "='temperature'" = .ok (name "temperature").condition := by decide +kernel
  have hsearches : measuredRuns.Searches .desc [name "quality", value "good", name "temperature"] :=
    ⟨rfl, rfl, .cons ⟨rfl, hread.1⟩ (.cons ⟨rfl, hread.2.1⟩ (.cons ⟨rfl, hread.2.2⟩ .nil))⟩
  have huser : Caller.user ⟨"alice", "north", .localUser⟩ ≠ CompileOptions.anonymousUser {} := by
    decide
  cases hs : Standard.schema with
  | error e =>
    rw [hs] at hok
    cases hok
  | ok s =>
    obtain ⟨compiled, hcompile, hanswer⟩ := bearers_found hs .postgres rfl huser hsearches
    obtain ⟨rows, hrun, hnodup, hmem⟩ := hanswer runs
    have honly : ∀ row, row ∈ rows ↔ row ∈ [[Value.int 20]] := by
      intro row
      rw [hmem, List.mem_singleton]
      constructor
      · rintro ⟨d, hd, rfl, as, has⟩
        obtain ⟨a, ha, hname⟩ := Option.map_eq_some_iff.mp (has.names 1 "temperature" rfl)
        obtain ⟨hrow, hlink⟩ := has.mapped a (List.mem_of_getElem? ha)
        have hmapped : ∀ d ∈ runs.replicas, ∀ a ∈ runs.attributeRows, a.name = "temperature" →
            ⟨d.object, a.id⟩ ∈ runs.attributeLinks → d.object = 20 := by decide
        rw [hmapped d hd a hrow hname hlink]
      · rintro rfl
        refine ⟨_, List.mem_of_getElem? (i := 1) rfl, rfl, runs.attributeRows, rfl, by decide, ?_, ?_⟩
        · intro i n hn
          have hrows : runs.attributeRows.map (·.name) = ["quality", "temperature"] := rfl
          rw [← List.getElem?_map, hrows]
          exact hn
        · intro j v hv
          cases j with
          | zero => exact hv
          | succ j => cases hv
    have hperm := (List.perm_ext_iff_of_nodup hnodup (List.nodup_singleton _)).mpr honly
    rw [List.perm_singleton.mp hperm] at hrun
    exact ⟨s, rfl, compiled, hcompile, hrun⟩

end AttributeTest

end CatalogQuery
