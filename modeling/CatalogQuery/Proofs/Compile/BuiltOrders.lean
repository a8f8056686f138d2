import CatalogQuery.Proofs.Compile.OrderAndGroups
import CatalogQuery.Proofs.Request.BuilderCalls

/-!
# Orders that a builder asks for

A builder gives an order to the first selection of a column, and the rows of a statement are ordered
by plain columns only. So an order takes effect on a column that was selected plain before any
aggregate over it was; on one that was aggregated first the order is lost on the aggregate.

* `Draft.mem_orderBy_names`, `Request.descends_of_first`: by which names rows are ordered, and in which
  direction;
* `Builder.Heeds`: the columns by which the rows of a built request are ordered, from the calls;
* `Sql.Clauses.Follows`: what becomes of the orders that are asked for;
* `Builder.asked_orders_heeded`: which builds fail, and how the statements of the others are ordered.
-/

namespace CatalogQuery

open Sql Builder

variable {s : Schema} {dialect : Dialect} {caller : Caller} {options : CompileOptions} {r : Request}
  {q : Compiled} {column : ColumnId} {info : ColumnInfo} {t : SelectColumn} {calls : List Builder.Call}

/-! ## Names by which rows are ordered -/

theorem Sql.Clauses.ordersOn_iff {k : Clauses} {name : String} :
    k.ordersOn name = true ↔ name ∈ k.orderBy.map (·.column) := by
  simp [ordersOn]

theorem Request.mem_selected (ht : t ∈ r.select) (hinfo : s.columnInfo? t.column = some info) :
    (t, info) ∈ r.selected s :=
  List.mem_filterMap.mpr ⟨t, ht, by rw [hinfo, Option.map_some]⟩

/-- The names for which an order is asked are those of the columns with an order. -/
theorem Request.mem_orderedNames {name : String} : name ∈ r.orderedNames s ↔
    ∃ column info, s.columnInfo? column = some info ∧ info.qualified = name ∧
      HasOrder r.select column := by
  constructor
  · intro hname
    obtain ⟨c, hc, rfl⟩ := List.mem_map.mp hname
    obtain ⟨hplain, horder⟩ := List.mem_filter.mp hc
    obtain ⟨hselected, hisPlain⟩ := List.mem_filter.mp hplain
    obtain ⟨hselect, hinfo⟩ := r.columnInfo?_of_selected s hselected
    exact ⟨c.1.column, c.2, hinfo, rfl, c.1, hselect, rfl, hisPlain, by simpa using horder⟩
  · rintro ⟨column, info, hinfo, rfl, t, ht, rfl, hisPlain, horder⟩
    have hplain : (t, info) ∈ r.plain s := List.mem_filter.mpr ⟨mem_selected ht hinfo, hisPlain⟩
    exact List.mem_map.mpr ⟨(t, info), List.mem_filter.mpr ⟨hplain, by simpa using horder⟩, rfl⟩

/-- A canonical column orders the rows where it is selected plain. -/
theorem Draft.mem_canonicalOrders {name : String} :
    name ∈ (canonicalOrders s (r.selected s)).map (·.column) ↔
    ∃ column info, s.columnInfo? column = some info ∧ info.qualified = name ∧
      column ∈ s.conventions.canonicalOrder ∧
      ∃ t ∈ r.select, t.column = column ∧ t.isPlain = true := by
  constructor
  · intro hname
    obtain ⟨o, ho, rfl⟩ := List.mem_map.mp hname
    obtain ⟨column, hcolumn, ho⟩ := List.mem_filterMap.mp ho
    obtain ⟨info, hinfo, rfl⟩ := Option.map_eq_some_iff.mp ho
    obtain ⟨hcanonical, hany⟩ := List.mem_filter.mp hcolumn
    obtain ⟨c, hc, hplain⟩ := List.any_eq_true.mp hany
    rw [Bool.and_eq_true, beq_iff_eq] at hplain
    exact ⟨column, info, hinfo, rfl, hcanonical, c.1, (r.columnInfo?_of_selected s hc).1,
      hplain.2, hplain.1⟩
  · rintro ⟨column, info, hinfo, rfl, hcanonical, t, ht, rfl, hisPlain⟩
    have hany : ((r.selected s).any fun c => c.1.isPlain && c.1.column == t.column) = true :=
      List.any_eq_true.mpr ⟨(t, info), Request.mem_selected ht hinfo, by simp [hisPlain]⟩
    refine List.mem_map.mpr ⟨⟨info.qualified, false⟩, List.mem_filterMap.mpr ⟨t.column, ?_, ?_⟩, rfl⟩
    · exact List.mem_filter.mpr ⟨hcanonical, hany⟩
    · rw [hinfo, Option.map_some]

/-- Rows are ordered by the plain columns that are selected with an order or are canonical. -/
theorem Draft.mem_orderBy_names {name : String} : name ∈ (orderBy s (r.selected s)).map (·.column) ↔
    ∃ column info, s.columnInfo? column = some info ∧ info.qualified = name ∧
      (HasOrder r.select column ∨ column ∈ s.conventions.canonicalOrder ∧
        ∃ t ∈ r.select, t.column = column ∧ t.isPlain = true) := by
  rw [orderBy_eq, map_firsts, List.mem_eraseDups, List.map_append, List.mem_append, map_askedOrders,
    Request.mem_orderedNames, mem_canonicalOrders]
  simp only [and_or_left, exists_or]

/-- Where no other column of its name is selected, the first selection of a column decides the
direction, if it is plain and has an order. -/
theorem Request.descends_of_first (hfirst : r.select.find? (·.column == column) = some t)
    (hisPlain : t.isPlain = true) (horder : t.order ≠ .none)
    (hinfo : s.columnInfo? column = some info)
    (halone : ∀ u ∈ r.select, ∀ other, s.columnInfo? u.column = some other →
      other.qualified = info.qualified → u.column = column) :
    r.descends s info.qualified = (t.order == .desc) := by
  obtain ⟨hcolumn, before, behind, hsplit, hbefore⟩ := List.find?_eq_some_iff_append.mp hfirst
  rw [beq_iff_eq] at hcolumn
  have hordered : r.ordered s = ordered { r with select := before } s
      ++ (t, info) :: ordered { r with select := behind } s := by
    simp [ordered, plain, selected, hsplit, hcolumn, hinfo, hisPlain, horder]
  -- No selection before it has the name: there is none of its column.
  have hnone : (ordered { r with select := before } s).find? (·.2.qualified == info.qualified)
      = none := by
    refine List.find?_eq_none.mpr fun c hc heq => ?_
    obtain ⟨hselect, hother⟩ := columnInfo?_of_selected _ s
      (List.mem_of_mem_filter (List.mem_of_mem_filter hc))
    have hsame := halone c.1 (hsplit ▸ List.mem_append_left _ hselect) c.2 hother (eq_of_beq heq)
    simpa [hsame] using hbefore c.1 hselect
  rw [descends, hordered, List.find?_append, hnone, Option.none_or,
    List.find?_cons_of_pos (by simp), Option.any_some]

/-! ## Columns by which a built request orders its rows -/

/-- Why the rows of a built request are ordered by a column: an order is asked on it and its first
selection is plain, or a plain selection of it has an order of its own or is canonical. -/
inductive Builder.Heeds (calls : List Builder.Call) (s : Schema) (column : ColumnId) : Prop where
  | asked (order : SortOrder) (hasked : (column, order) ∈ orders calls)
      (hfirst : plainFirst (selections calls) column = true)
  | selected (horder : HasOrder (selections calls) column)
  | canonical (hcanonical : column ∈ s.conventions.canonicalOrder)
      (hplain : ∃ t ∈ selections calls, t.column = column ∧ t.isPlain = true)

/-- An arrangement selects the same columns plain. -/
theorem Builder.exists_plain_arrange (os : List (ColumnId × SortOrder)) (ts : List SelectColumn) :
    (∃ t ∈ arrange os ts, t.column = column ∧ t.isPlain = true) ↔
      ∃ t ∈ ts, t.column = column ∧ t.isPlain = true := by
  have hmem : ∀ us : List SelectColumn, (∃ t ∈ us, t.column = column ∧ t.isPlain = true) ↔
      (column, true) ∈ us.map fun t => (t.column, t.isPlain) := by simp
  rw [hmem, hmem, map_arrange fun _ _ => rfl]

theorem Builder.heeds_iff (hbuild : (after calls).build = .ok r) : Heeds calls s column ↔
    HasOrder r.select column ∨ column ∈ s.conventions.canonicalOrder ∧
      ∃ t ∈ r.select, t.column = column ∧ t.isPlain = true := by
  rw [select_of_build hbuild, exists_plain_arrange, hasOrder_arrange fun _ => order_ne_none]
  constructor
  · rintro (⟨order, hasked, hfirst⟩ | horder | ⟨hcanonical, hplain⟩)
    · exact .inl (.inr ⟨List.mem_map_of_mem (f := (·.1)) hasked, hfirst⟩)
    · exact .inl (.inl horder)
    · exact .inr ⟨hcanonical, hplain⟩
  · rintro ((horder | ⟨hasked, hfirst⟩) | ⟨hcanonical, hplain⟩)
    · exact .selected horder
    · obtain ⟨o, ho, rfl⟩ := List.mem_map.mp hasked
      exact .asked o.2 ho hfirst
    · exact .canonical hcanonical hplain

/-- The first selection of a column has the order that was asked on it last. -/
theorem Builder.exists_first_of_asked (hbuild : (after calls).build = .ok r) {order : SortOrder}
    (hasked : (column, order) ∈ orders calls)
    (hfirst : plainFirst (selections calls) column = true) :
    ∃ t, r.select.find? (·.column == column) = some t ∧ t.isPlain = true ∧ t.order ≠ .none ∧
      lastOrder? (orders calls) column = some t.order := by
  obtain ⟨t, ht, hisPlain⟩ := (Option.any_eq_true _ _).mp hfirst
  obtain ⟨last, hlast, hmem⟩ := exists_lastOrder? hasked
  refine ⟨{ t with order := last }, ?_, hisPlain, order_ne_none hmem, hlast⟩
  rw [select_of_build hbuild, find?_arrange, ht, hlast]
  rfl

/-! ## Statements of built requests -/

/-- The clauses order their rows as the calls of a builder ask. -/
structure Sql.Clauses.Follows (k : Clauses) (calls : List Builder.Call) (s : Schema) : Prop where
  /-- Rows are ordered by the names of the columns that the calls give a reason for, and no others. -/
  names : ∀ name, k.ordersOn name = true ↔
    ∃ column info, s.columnInfo? column = some info ∧ info.qualified = name ∧ Heeds calls s column
  /-- An order takes effect if the first selection of its column is plain. -/
  asked : ∀ before column order, Asks calls before column order →
    plainFirst (selections before) column = true →
    ∃ info, s.columnInfo? column = some info ∧ k.ordersOn info.qualified = true
  /-- It is the last one that counts, unless another selected column has the same name. -/
  direction : ∀ before column order info, Asks calls before column order →
    plainFirst (selections before) column = true → s.columnInfo? column = some info →
    (∀ u ∈ selections calls, ∀ other, s.columnInfo? u.column = some other →
      other.qualified = info.qualified → u.column = column) →
    ⟨info.qualified, lastOrder? (orders calls) column == some .desc⟩ ∈ k.orderBy

/-- The order of a built request is as its calls ask. -/
theorem Builder.follows (hbuild : (after calls).build = .ok r)
    (hselect : (r.selected s).map (·.1) = r.select) {k : Clauses}
    (horder : k.orderBy = Draft.orderBy s (r.selected s)) : k.Follows calls s := by
  have hnames : ∀ name, k.ordersOn name = true ↔
      ∃ column info, s.columnInfo? column = some info ∧ info.qualified = name ∧
        Heeds calls s column := by
    intro name
    rw [Clauses.ordersOn_iff, horder, Draft.mem_orderBy_names]
    simp only [heeds_iff hbuild]
  refine ⟨hnames, ?asked, ?direction⟩
  case asked =>
    intro before column order hasks hbefore
    have hfirst := hasks.plainFirst hbefore
    obtain ⟨t, ht, -⟩ := exists_first_of_asked hbuild hasks.mem_orders hfirst
    have hselected := List.mem_of_find?_eq_some ht
    rw [← hselect] at hselected
    obtain ⟨c, hc, rfl⟩ := List.mem_map.mp hselected
    obtain rfl : c.1.column = column := by simpa using List.find?_some ht
    have hinfo := (r.columnInfo?_of_selected s hc).2
    exact ⟨c.2, hinfo, (hnames _).mpr ⟨_, c.2, hinfo, rfl, .asked order hasks.mem_orders hfirst⟩⟩
  case direction =>
    intro before column order info hasks hbefore hinfo halone
    obtain ⟨t, ht, hisPlain, hne, hlast⟩ :=
      exists_first_of_asked hbuild hasks.mem_orders (hasks.plainFirst hbefore)
    have hcolumns : r.select.map (·.column) = (selections calls).map (·.column) := by
      rw [select_of_build hbuild, map_arrange fun _ _ => rfl]
    have halone' : ∀ u ∈ r.select, ∀ other, s.columnInfo? u.column = some other →
        other.qualified = info.qualified → u.column = column := by
      intro u hu other hother hname
      have hmem : u.column ∈ (selections calls).map (·.column) :=
        hcolumns ▸ List.mem_map_of_mem hu
      obtain ⟨v, hv, heq⟩ := List.mem_map.mp hmem
      exact heq ▸ halone v hv other (heq ▸ hother) hname
    have hordered : info.qualified ∈ r.orderedNames s := by
      obtain rfl : t.column = column := by simpa using List.find?_some ht
      exact Request.mem_orderedNames.mpr ⟨t.column, info, hinfo, rfl, t, List.mem_of_find?_eq_some ht,
        rfl, hisPlain, hne⟩
    rw [horder, Draft.orderBy_eq_names]
    refine List.mem_append_left _ (List.mem_map.mpr
      ⟨info.qualified, List.mem_eraseDups.mpr hordered, ?_⟩)
    rw [Request.descends_of_first ht hisPlain hne hinfo halone', hlast]
    rfl

/-- A build fails iff an order is asked on a column that is not selected before, or nothing is
selected. Wherever a built request compiles, its rows are ordered by each column that was selected
plain first and on which an order is asked; the order is lost where an aggregate came first, unless
there is another reason for it. -/
theorem Builder.asked_orders_heeded (calls : List Builder.Call) :
    ((∃ e, (after calls).build = .error e) ↔ OrdersUnselected calls ∨ selections calls = []) ∧
    ∀ {s : Schema} {dialect : Dialect} {caller : Caller} {options : CompileOptions} {r : Request}
      {q : Compiled}, (after calls).build = .ok r → s.compile dialect caller options r = .ok q →
      ∃ d links k, s.draft caller r = .ok d ∧ (s.resolve (d.requirements s)).1 = .ok links ∧
        k = d.clauses s dialect caller options links ∧
        q = d.compiled s dialect caller options r.offset links ∧
        q.Writes k (k.terms.map (·.render)) ((dialect.offsetSuffix r.offset).getD .blank) ∧
        k.Follows calls s := by
  constructor
  · simp only [build_eq_error]
    constructor
    · rintro ⟨e, ⟨hunselected, -⟩ | ⟨-, hnone, -⟩⟩
      · exact .inl hunselected
      · exact .inr hnone
    · intro h
      by_cases hunselected : OrdersUnselected calls
      · exact ⟨_, .inl ⟨hunselected, rfl⟩⟩
      · exact ⟨_, .inr ⟨hunselected, h.resolve_left hunselected, rfl⟩⟩
  · intro s dialect caller options r q hbuild hcompile
    obtain ⟨d, hd, -, links, hlinks, rfl, -⟩ := Schema.compile_eq_ok.mp hcompile
    have hselects := Draft.selects_eq_selected hd
    have hselect := Draft.map_selects_of_draft hd
    rw [hselects] at hselect
    refine ⟨d, links, _, hd, hlinks, rfl, rfl, Clauses.writes .., follows hbuild hselect ?_⟩
    rw [← hselects]
    rfl

/-- The name is selected plain and then counted, and is asked to ascend and then to descend. -/
def Builder.nameThenCount : List Builder.Call :=
  [.select ⟨3⟩, .orderBy ⟨3⟩, .aggregate ⟨3⟩ .count, .orderByDesc ⟨3⟩]

def Request.nameThenCount : Request where
  select := [⟨⟨3⟩, .none, .desc⟩, ⟨⟨3⟩, .count, .none⟩]

theorem Builder.name_descends : ∃ (q : Compiled) (columns : List String),
    (after nameThenCount).build = .ok .nameThenCount ∧
    Schema.sized.compile .postgres .unknown {} .nameThenCount = .ok q ∧
    Asks nameThenCount [.select ⟨3⟩] ⟨3⟩ .asc ∧ plainFirst (selections [.select ⟨3⟩]) ⟨3⟩ = true ∧
    "data.name desc" ∈ columns ∧
    q.statement.sql = "select distinct data.name, count(data.name) from data group by data.name"
      ++ " order by " ++ ", ".intercalate columns := by
  have hbuild : (after nameThenCount).build = .ok .nameThenCount := by decide +kernel
  obtain ⟨q, hq⟩ := Fallible.exists_of_isOk (x := Schema.sized.compile .postgres .unknown {}
    .nameThenCount) (by decide +kernel)
  obtain ⟨d, links, k, hd, hlinks, hk, -, hwrites, hfollows⟩ :=
    (asked_orders_heeded nameThenCount).2 hbuild hq
  have hasks : Asks nameThenCount [.select ⟨3⟩] ⟨3⟩ .asc := ⟨.orderBy ⟨3⟩, _, rfl, rfl⟩
  have hname : Schema.sized.columnInfo? ⟨3⟩ = some ⟨⟨3⟩, 0, ⟨"data", "data", false⟩, "name"⟩ := by
    decide +kernel
  have horder : ⟨"data.name", true⟩ ∈ k.orderBy :=
    hfollows.direction _ _ _ _ hasks rfl hname (by decide +kernel)
  have hcomputed : (do
      let d ← Schema.sized.draft .unknown .nameThenCount
      let links ← (Schema.sized.resolve (d.requirements .sized)).1
      let k := d.clauses .sized .postgres .unknown {} links
      return k.wording (k.terms.map Term.render)) =
      .ok "select distinct data.name, count(data.name) from data group by data.name" := by
    decide +kernel
  rw [hd, Fallible.ok_bind, hlinks, Fallible.ok_bind, ← hk] at hcomputed
  refine ⟨q, k.orderBy.map fun o => if o.descending then o.column ++ " desc" else o.column, hbuild, hq,
    hasks, rfl, List.mem_map.mpr ⟨_, horder, rfl⟩, ?_⟩
  have hsome : (k.orderBy.map fun o => if o.descending then o.column ++ " desc" else o.column) ≠ [] :=
    List.ne_nil_of_mem (List.mem_map_of_mem horder)
  have hsuffix : (Dialect.postgres.offsetSuffix Request.nameThenCount.offset).getD .blank = .blank :=
    rfl
  rw [hwrites.sql, Except.ok.inj hcomputed, clauseText, if_neg hsome, hsuffix]
  simp only [Fragment.blank, String.append_empty, String.append_assoc]

/-- The name is counted before it is selected plain and asked to ascend. -/
def Builder.countThenName : List Builder.Call :=
  [.aggregate ⟨3⟩ .count, .select ⟨3⟩, .orderBy ⟨3⟩]

/-- The order goes to the count, by which no rows are ordered, and not to the name. Where nothing is
counted the same call takes effect. -/
theorem Builder.order_lost_on_count : ∃ (r : Request) (q : Compiled) (d : Draft) (links : List LinkId),
    (after countThenName).build = .ok r ∧
    Asks countThenName [.aggregate ⟨3⟩ .count, .select ⟨3⟩] ⟨3⟩ .asc ∧
    ⟨⟨3⟩, .none, .none⟩ ∈ selections [.aggregate ⟨3⟩ .count, .select ⟨3⟩] ∧
    (Schema.sized.columnInfo? ⟨3⟩).map (·.qualified) = some "data.name" ∧
    Schema.sized.compile .postgres .unknown {} r = .ok q ∧
    Schema.sized.draft .unknown r = .ok d ∧
    (Schema.sized.resolve (d.requirements .sized)).1 = .ok links ∧
    (d.clauses .sized .postgres .unknown {} links).ordersOn "data.name" = false ∧
    q.statement.sql = "select distinct count(data.name), data.name from data group by data.name" ∧
    ((after [.select ⟨3⟩, .orderBy ⟨3⟩]).build >>= Schema.sized.compile .postgres .unknown {}).map
      (·.statement.sql) = .ok "select distinct data.name from data order by data.name" := by
  have hcomputed : (do
      let r ← (after countThenName).build
      let q ← Schema.sized.compile .postgres .unknown {} r
      let d ← Schema.sized.draft .unknown r
      let links ← (Schema.sized.resolve (d.requirements .sized)).1
      return ((d.clauses .sized .postgres .unknown {} links).ordersOn "data.name", q.statement.sql))
      = .ok (false, "select distinct count(data.name), data.name from data group by data.name") := by
    decide +kernel
  obtain ⟨r, hr, hcomputed⟩ := Fallible.bind_eq_ok.mp hcomputed
  obtain ⟨q, hq, hcomputed⟩ := Fallible.bind_eq_ok.mp hcomputed
  obtain ⟨d, hd, hcomputed⟩ := Fallible.bind_eq_ok.mp hcomputed
  obtain ⟨links, hlinks, hcomputed⟩ := Fallible.bind_eq_ok.mp hcomputed
  obtain ⟨hnone, hsql⟩ := Prod.mk.inj (Except.ok.inj hcomputed)
  exact ⟨r, q, d, links, hr, ⟨.orderBy ⟨3⟩, [], rfl, rfl⟩, by decide, by decide +kernel, hq, hd, hlinks,
    hnone, hsql, by decide +kernel⟩

end CatalogQuery
