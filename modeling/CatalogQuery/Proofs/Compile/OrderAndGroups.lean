import CatalogQuery.Proofs.Compile.Parts
import CatalogQuery.Proofs.Compile.RowFilters

/-!
# Order and groups of a statement

By which columns a statement orders and groups its rows depends on its selected columns alone. The
statement selects distinct rows, so it may order them by selected expressions only, and where it
groups them, by columns of the groups only.

* `Request.orderedNames`, `Request.canonicalNames`, `Request.plainNames`: the names that are listed;
* `Draft.orderBy_eq_names`, `Draft.groupBy_eq_names`: the order and the groups of a draft;
* `Draft.plain_of_mem_orderBy`: rows are ordered by plain columns;
* `Schema.compile_arranged`: both are determined by the request, and legal for distinct rows.
-/

namespace CatalogQuery

open Sql Fallible

/-! ## Names of selected columns -/

namespace Request

variable (r : Request) (s : Schema)

/-- The selected columns, each with its table. -/
def selected : List (SelectColumn × ColumnInfo) :=
  r.select.filterMap fun c => (s.columnInfo? c.column).map fun info => (c, info)

/-- The columns that are selected plain, repetitions included. -/
def plain : List (SelectColumn × ColumnInfo) := (r.selected s).filter (·.1.isPlain)

def plainNames : List String := (r.plain s).map (·.2.qualified)

/-- Those of them for which an order is asked. -/
def ordered : List (SelectColumn × ColumnInfo) := (r.plain s).filter (·.1.order != .none)

def orderedNames : List String := (r.ordered s).map (·.2.qualified)

/-- Of the orders asked on this name the first one descends. -/
def descends (name : String) : Bool :=
  ((r.ordered s).find? (·.2.qualified == name)).any (·.1.order == .desc)

/-- The canonical columns that are selected plain and for which no order is asked. -/
def canonicalNames : List String :=
  ((s.conventions.canonicalOrder.filter fun column =>
      (r.plain s).any (·.1.column == column)).filterMap fun column =>
    (s.columnInfo? column).map (·.qualified)).filter (· ∉ r.orderedNames s)

theorem columnInfo?_of_selected {c : SelectColumn × ColumnInfo} (hc : c ∈ r.selected s) :
    c.1 ∈ r.select ∧ s.columnInfo? c.1.column = some c.2 := by
  obtain ⟨select, hselect, h⟩ := List.mem_filterMap.mp hc
  obtain ⟨info, hinfo, rfl⟩ := Option.map_eq_some_iff.mp h
  exact ⟨hselect, hinfo⟩

end Request

variable {s : Schema} {dialect : Dialect} {caller : Caller} {options : CompileOptions} {r : Request}
  {d : Draft} {c : Compiled} {o : OrderItem}

theorem SelectColumn.text_of_isPlain {select : SelectColumn} (h : select.isPlain = true)
    (info : ColumnInfo) : select.text info = info.qualified := by
  have hnone : select.aggregate = .none := by
    simpa [isPlain, Aggregation.isAggregate] using h
  rw [text, hnone]
  rfl

theorem Draft.selects_eq_selected (h : s.draft caller r = .ok d) : d.selects = r.selected s := by
  have hselects := selects_of_draft h
  unfold Request.selected
  generalize r.select = asked, d.selects = selected at hselects
  induction hselects with
  | nil => rfl
  | cons hselect _ ih =>
    obtain ⟨rfl, hopen⟩ := hselect
    rw [List.filterMap_cons, Schema.openColumn_eq_ok hopen, ← ih]
    rfl

namespace Draft

/-! ## The order -/

theorem askedOrders_selected : askedOrders (r.selected s)
    = (r.ordered s).map fun c => ⟨c.2.qualified, c.1.order == .desc⟩ := by
  rw [askedOrders, Request.ordered, Request.plain, List.filter_filter]
  simp only [Bool.and_comm]

theorem canonicalOrders_selected :
    (canonicalOrders s (r.selected s)).filter (fun o => o.column ∉ r.orderedNames s)
      = (r.canonicalNames s).map fun name => ⟨name, false⟩ := by
  have hplain : ∀ column, ((r.selected s).any fun c => c.1.isPlain && c.1.column == column)
      = (r.plain s).any (·.1.column == column) := by
    intro column
    rw [Request.plain, List.any_filter]
  have horders : canonicalOrders s (r.selected s)
      = ((s.conventions.canonicalOrder.filter fun column =>
          (r.plain s).any (·.1.column == column)).filterMap fun column =>
        (s.columnInfo? column).map (·.qualified)).map fun name => OrderItem.mk name false := by
    simp only [canonicalOrders, hplain, List.map_filterMap, Option.map_map]
    rfl
  rw [horders, List.filter_map]
  rfl

theorem map_askedOrders : (askedOrders (r.selected s)).map (·.column) = r.orderedNames s := by
  rw [askedOrders_selected, List.map_map]
  rfl

/-- Of the orders asked on one name the first is kept. -/
theorem firsts_askedOrders : firsts OrderItem.column (askedOrders (r.selected s))
    = (r.orderedNames s).eraseDups.map fun name => ⟨name, r.descends s name⟩ := by
  rw [← map_askedOrders]
  refine firsts_eq_map fun name hname => ?_
  rw [map_askedOrders] at hname
  obtain ⟨c, hc, rfl⟩ := exists_first hname
  rw [askedOrders_selected, List.find?_map, Request.descends, hc]
  show (List.find? (fun c : SelectColumn × ColumnInfo => c.2.qualified == _) _).map _ = _
  rw [hc]
  rfl

theorem firsts_ascending (names : List String) :
    firsts OrderItem.column (names.map fun name => ⟨name, false⟩)
      = names.eraseDups.map fun name => ⟨name, false⟩ := by
  have hnames : (names.map fun name => OrderItem.mk name false).map (·.column) = names := by
    rw [List.map_map]
    exact List.map_id names
  rw [firsts_eq_map (f := fun name => ⟨name, false⟩), hnames]
  intro name hname
  obtain ⟨o, ho, rfl⟩ := exists_first hname
  obtain ⟨name, -, rfl⟩ := List.mem_map.mp (List.mem_of_find?_eq_some ho)
  exact ho

/-- The names for which an order is asked, each with the first one, then the other canonical columns. -/
theorem orderBy_eq_names : orderBy s (r.selected s)
    = (r.orderedNames s).eraseDups.map (fun name => ⟨name, r.descends s name⟩)
      ++ (r.canonicalNames s).eraseDups.map fun name => ⟨name, false⟩ := by
  rw [orderBy_eq, firsts_append, map_askedOrders, canonicalOrders_selected, firsts_askedOrders,
    firsts_ascending]

/-- Rows are ordered by plain columns, by each once. -/
theorem nodup_orderBy (s : Schema) (selects : List (SelectColumn × ColumnInfo)) :
    ((orderBy s selects).map (·.column)).Nodup := by
  rw [orderBy_eq, map_firsts]
  exact nodup_eraseDups _

theorem plain_of_mem_orderBy (h : o ∈ orderBy s (r.selected s)) : o.column ∈ r.plainNames s := by
  rw [orderBy_eq_names] at h
  rcases List.mem_append.mp h with h | h
  · obtain ⟨name, hname, rfl⟩ := List.mem_map.mp h
    obtain ⟨c, hc, rfl⟩ := List.mem_map.mp (List.mem_eraseDups.mp hname)
    exact List.mem_map.mpr ⟨c, List.mem_of_mem_filter hc, rfl⟩
  · obtain ⟨name, hname, rfl⟩ := List.mem_map.mp h
    obtain ⟨column, hcolumn, hinfo⟩ :=
      List.mem_filterMap.mp (List.mem_of_mem_filter (List.mem_eraseDups.mp hname))
    obtain ⟨c, hc, heq⟩ := List.any_eq_true.mp (List.mem_filter.mp hcolumn).2
    -- The canonical column is registered as the one that is selected.
    have hselected := (r.columnInfo?_of_selected s (List.mem_of_mem_filter hc)).2
    rw [eq_of_beq heq] at hselected
    rw [hselected, Option.map_some, Option.some.injEq] at hinfo
    exact List.mem_map.mpr ⟨c, hc, hinfo⟩

/-! ## The groups -/

theorem groupBy_eq_names : groupBy (r.selected s)
    = if (r.selected s).any (fun c => !c.1.isPlain) then (r.plainNames s).eraseDups else [] :=
  groupBy_eq _

end Draft

/-! ## Statements -/

/-- The clauses order and group by columns of the request, as a statement for distinct rows must. -/
structure Request.Arranges (r : Request) (s : Schema) (k : Clauses) : Prop where
  select : k.select = (r.selected s).map fun c => c.1.text c.2
  orderBy : k.orderBy = (r.orderedNames s).eraseDups.map (fun name => ⟨name, r.descends s name⟩)
    ++ (r.canonicalNames s).eraseDups.map fun name => ⟨name, false⟩
  nodup_orderBy : (k.orderBy.map (·.column)).Nodup
  /-- Every order is on a selected expression. -/
  orders_selected : ∀ o ∈ k.orderBy, o.column ∈ k.select
  groupBy_ne_nil : k.groupBy ≠ [] ↔
    (∃ c ∈ r.select, c.isPlain = true) ∧ ∃ c ∈ r.select, c.isPlain = false
  groupBy : k.groupBy ≠ [] → k.groupBy = (r.plainNames s).eraseDups
  nodup_groupBy : k.groupBy.Nodup
  /-- Where rows are grouped, every order is on a column of the groups. -/
  orders_grouped : k.groupBy ≠ [] → ∀ o ∈ k.orderBy, o.column ∈ k.groupBy
  aggregates : (∀ c ∈ r.select, c.isPlain = false) → k.orderBy = [] ∧ k.groupBy = []

/-- A request selects plain columns and aggregates as its registered columns do. -/
theorem Request.exists_selected (hselect : (r.selected s).map (·.1) = r.select)
    (p : SelectColumn → Prop) : (∃ c ∈ r.selected s, p c.1) ↔ ∃ c ∈ r.select, p c := by
  rw [← hselect]
  simp

theorem Request.plainNames_ne_nil (hselect : (r.selected s).map (·.1) = r.select) :
    r.plainNames s ≠ [] ↔ ∃ c ∈ r.select, c.isPlain = true := by
  rw [← Request.exists_selected hselect]
  simp [plainNames, plain]

/-- The clauses of a request whose columns are all registered. -/
theorem Request.arranges (hselect : (r.selected s).map (·.1) = r.select) {k : Clauses}
    (htexts : k.select = (r.selected s).map fun c => c.1.text c.2)
    (horder : k.orderBy = Draft.orderBy s (r.selected s))
    (hgroup : k.groupBy = Draft.groupBy (r.selected s)) : r.Arranges s k := by
  have hplain : ∀ o ∈ k.orderBy, o.column ∈ r.plainNames s := fun o ho =>
    Draft.plain_of_mem_orderBy (horder ▸ ho)
  have haggregated : (r.selected s).any (fun c => !c.1.isPlain) = true ↔
      ∃ c ∈ r.select, c.isPlain = false := by
    rw [← Request.exists_selected hselect, List.any_eq_true]
    simp
  rw [Draft.groupBy_eq_names] at hgroup
  have hgroups : k.groupBy ≠ [] → k.groupBy = (r.plainNames s).eraseDups := by
    intro hne
    split at hgroup
    · exact hgroup
    · exact absurd hgroup hne
  refine ⟨htexts, ?orderBy, ?nodup_orderBy, ?orders_selected, ?groupBy_ne_nil, hgroups,
    ?nodup_groupBy, ?orders_grouped, ?aggregates⟩
  case orderBy => rw [horder, Draft.orderBy_eq_names]
  case nodup_orderBy =>
    rw [horder]
    exact Draft.nodup_orderBy _ _
  case orders_selected =>
    intro o ho
    obtain ⟨c, hc, heq⟩ := List.mem_map.mp (hplain o ho)
    obtain ⟨hselected, hisPlain⟩ := List.mem_filter.mp hc
    rw [htexts, ← heq]
    exact List.mem_map.mpr ⟨c, hselected, SelectColumn.text_of_isPlain hisPlain _⟩
  case groupBy_ne_nil =>
    rw [← plainNames_ne_nil hselect, ← haggregated, hgroup]
    split
    · next hany => simp [hany, eraseDups_eq_nil]
    · next hany => simp [hany]
  case nodup_groupBy =>
    rw [hgroup]
    split
    · exact nodup_eraseDups _
    · exact .nil
  case orders_grouped =>
    intro hne o ho
    rw [hgroups hne, List.mem_eraseDups]
    exact hplain o ho
  case aggregates =>
    intro hall
    have hnone : r.plainNames s = [] := by
      by_contra hne
      obtain ⟨c, hc, hisPlain⟩ := (plainNames_ne_nil hselect).mp hne
      rw [hall c hc] at hisPlain
      cases hisPlain
    constructor
    · refine List.eq_nil_iff_forall_not_mem.mpr fun o ho => ?_
      have hmem := hplain o ho
      rw [hnone] at hmem
      cases hmem
    · rw [hgroup, hnone]
      split <;> rfl

/-- By what the rows of a compiled statement are ordered and grouped: its GROUP BY and its ORDER BY
are written from the clauses of its draft, and both are determined by the request. -/
theorem Schema.compile_arranged (h : s.compile dialect caller options r = .ok c) :
    (r.selected s).map (·.1) = r.select ∧
    ∃ d links k, s.draft caller r = .ok d ∧ (s.resolve (d.requirements s)).1 = .ok links ∧
      k = d.clauses s dialect caller options links ∧
      c = k.compiled (dialect.offsetSuffix r.offset) r.select ∧
      c.Writes k (k.terms.map (·.render)) ((dialect.offsetSuffix r.offset).getD .blank) ∧
      r.Arranges s k := by
  obtain ⟨d, hd, -, links, hlinks, rfl, -⟩ := compile_eq_ok.mp h
  have hselects := Draft.selects_eq_selected hd
  have hselect := Draft.map_selects_of_draft hd
  have hcompiled : d.compiled s dialect caller options r.offset links
      = (d.clauses s dialect caller options links).compiled (dialect.offsetSuffix r.offset)
        r.select := by
    rw [← hselect]
    rfl
  rw [hselects] at hselect
  refine ⟨hselect, d, links, _, hd, hlinks, rfl, hcompiled, hcompiled ▸ Clauses.writes .., ?_⟩
  refine Request.arranges hselect ?_ ?_ ?_ <;> rw [← hselects] <;> rfl

/-- Data with a name under two numbers; results are ordered by size and name. -/
def Schema.sized : Schema where
  limits := {}
  tables := [⟨"data", "data", false⟩]
  columns := [⟨⟨1⟩, 0, "name"⟩, ⟨⟨2⟩, 0, "size"⟩, ⟨⟨3⟩, 0, "name"⟩]
  links := []
  conventions := { Conventions.blank with canonicalOrder := [⟨2⟩, ⟨1⟩] }

/-- The name is asked to descend before it is asked to ascend, and the size stands beside its sum. -/
def Request.nameAndSize : Request where
  select := [⟨⟨3⟩, .none, .desc⟩, ⟨⟨2⟩, .sum, .desc⟩, ⟨⟨1⟩, .none, .asc⟩, ⟨⟨2⟩, .none, .none⟩]

theorem nameAndSize_arranged : ∃ (c : Compiled) (words : String),
    words = "select distinct data.name, sum(data.size), data.name, data.size from data" ++
      " group by data.name, data.size" ∧
    Schema.sized.compile .postgres .unknown {} .nameAndSize = .ok c ∧
    c.statement.sql = words ++ " order by data.name desc, data.size" ∧
    c.count.sql = "select count(*) from (" ++ words ++ ") genquery_count" := by
  obtain ⟨c, hc⟩ := exists_of_isOk (x := Schema.sized.compile .postgres .unknown {}
    .nameAndSize) (by decide +kernel)
  obtain ⟨-, d, links, k, hd, hlinks, hk, -, hwrites, harranges⟩ := Schema.compile_arranged hc
  have hselect : k.select = ["data.name", "sum(data.size)", "data.name", "data.size"] :=
    harranges.select.trans (by decide +kernel)
  have horder : k.orderBy = [⟨"data.name", true⟩, ⟨"data.size", false⟩] :=
    harranges.orderBy.trans (by decide +kernel)
  have hgroups : k.groupBy ≠ [] :=
    harranges.groupBy_ne_nil.mpr ⟨⟨_, .head _, rfl⟩, ⟨_, .tail _ (.head _), rfl⟩⟩
  have hgroup : k.groupBy = ["data.name", "data.size"] :=
    (harranges.groupBy hgroups).trans (by decide +kernel)
  -- Data is the only source, and there are no terms.
  have hcomputed : (do
      let d ← Schema.sized.draft .unknown .nameAndSize
      let links ← (Schema.sized.resolve (d.requirements .sized)).1
      let k := d.clauses .sized .postgres .unknown {} links
      return (k.sources.entries, k.terms)) = .ok (["data"], []) := by decide +kernel
  rw [hd, ok_bind, hlinks, ok_bind] at hcomputed
  simp only [pure, Except.pure, Except.ok.injEq, Prod.mk.injEq, ← hk] at hcomputed
  have hwords : k.wording (k.terms.map (·.render)) = "select distinct data.name, sum(data.size), "
      ++ "data.name, data.size from data" ++ " group by data.name, data.size" := by
    unfold Clauses.wording
    rewrite [hselect, hgroup, hcomputed.1, hcomputed.2]
    decide +kernel
  refine ⟨c, _, rfl, hc, ?_, ?_⟩
  · rw [hwrites.sql, hwords, horder]
    rfl
  · rw [hwrites.countSql, hwords]
    rfl

end CatalogQuery
