import CatalogQuery.Proofs.FirstMentions
import CatalogQuery.Request.Builder

/-!
# Calls of a builder

What a builder holds after any calls. An order goes to the first selection of its column, which stays
the first whatever is selected later. So the outcome is the same as if everything had been selected
before any order was given.

* `Builder.arrange`: selections with orders given to them;
* `Builder.find?_arrange`: of several orders on one column the last one counts;
* `Builder.hasOrder_arrange`: which orders reach plain selections;
* `Builder.unspoiled_after`: what is selected as long as the build is not spoiled;
* `Builder.spoiled_after`: by which calls it is spoiled;
* `Builder.select_of_build`, `Builder.build_eq_error`: the outcome of a build.
-/

namespace CatalogQuery.Builder

/-- A call of a builder. -/
inductive Call where
  | select (column : ColumnId)
  | aggregate (column : ColumnId) (aggregation : Aggregation)
  | selectWith (column : ColumnId) (aggregation : Aggregation) (order : SortOrder)
  | orderBy (column : ColumnId)
  | orderByDesc (column : ColumnId)
  | condition (column : ColumnId) (expression : String)
  | equals (column : ColumnId) (value : String)
  | beginsWith (column : ColumnId) (start : String)
  | offset (n : Nat)
  | maxRows (n : Int)
  | totalCount (wanted : Bool)
  | checkPermission (user zone : String) (level : AccessLevel)
  deriving DecidableEq, Repr

namespace Call

/-- What a call selects. -/
def selection? : Call → Option SelectColumn
  | select column => some ⟨column, .none, .none⟩
  | aggregate column aggregation => some ⟨column, aggregation, .none⟩
  | selectWith column aggregation order => some ⟨column, aggregation, order⟩
  | _ => none

/-- The order that a call asks for, with its column. -/
def order? : Call → Option (ColumnId × SortOrder)
  | orderBy column => some (column, .asc)
  | orderByDesc column => some (column, .desc)
  | _ => none

end Call

def perform (b : Builder) : Call → Builder
  | .select column => b.select column
  | .aggregate column aggregation => b.aggregate column aggregation
  | .selectWith column aggregation order => b.selectWith column aggregation order
  | .orderBy column => b.orderBy column
  | .orderByDesc column => b.orderByDesc column
  | .condition column expression => b.condition column expression
  | .equals column value => b.equals column value
  | .beginsWith column start => b.beginsWith column start
  | .offset n => b.offset n
  | .maxRows n => b.maxRows n
  | .totalCount wanted => b.totalCount wanted
  | .checkPermission user zone level => b.checkPermission user zone level

/-- The builder after some calls, one behind the other. -/
def after (calls : List Call) : Builder := calls.foldl perform start

/-- What the calls select, as it is selected. -/
def selections (calls : List Call) : List SelectColumn := calls.filterMap Call.selection?

/-- The orders that the calls ask for. -/
def orders (calls : List Call) : List (ColumnId × SortOrder) := calls.filterMap Call.order?

/-- Behind the calls `before` an order is asked on the column. -/
def Asks (calls before : List Call) (column : ColumnId) (order : SortOrder) : Prop :=
  ∃ call behind, calls = before ++ call :: behind ∧ call.order? = some (column, order)

/-- An order is asked on a column that no call before it selects. -/
def OrdersUnselected (calls : List Call) : Prop :=
  ∃ before column order, Asks calls before column order ∧
    ∀ t ∈ selections before, t.column ≠ column

variable {b : Builder} {calls before : List Call} {call : Call} {column c : ColumnId}
  {order : SortOrder} {ts us : List SelectColumn} {os : List (ColumnId × SortOrder)}

/-! ## Orders given to selections -/

/-- The selections with these orders, each given to the first selection of its column. -/
def arrange (os : List (ColumnId × SortOrder)) (ts : List SelectColumn) : List SelectColumn :=
  os.foldl (fun ts o => setOrder o.1 o.2 ts) ts

/-- The last of the orders on the column. -/
def lastOrder? (os : List (ColumnId × SortOrder)) (column : ColumnId) : Option SortOrder :=
  (os.reverse.find? (·.1 == column)).map (·.2)

/-- An order is given to nothing but the order of a selection. -/
theorem map_setOrder {β : Type} {f : SelectColumn → β}
    (hf : ∀ t order, f { t with order := order } = f t) (column : ColumnId) (order : SortOrder)
    (ts : List SelectColumn) : (setOrder column order ts).map f = ts.map f := by
  induction ts with
  | nil => rfl
  | cons t ts ih =>
    rw [setOrder]
    split
    · rw [List.map_cons, List.map_cons, hf]
    · rw [List.map_cons, List.map_cons, ih]

/-- What is selected later does not matter for an order on a column that is selected already. -/
theorem setOrder_append (h : column ∈ ts.map (·.column)) :
    setOrder column order (ts ++ us) = setOrder column order ts ++ us := by
  induction ts with
  | nil => cases h
  | cons t ts ih =>
    by_cases ht : t.column = column
    · simp [setOrder, ht]
    · have hrest : column ∈ ts.map (·.column) := by simpa [Ne.symm ht] using h
      simp [setOrder, ht, ih hrest]

theorem find?_setOrder :
    (setOrder column order ts).find? (·.column == c) = (ts.find? (·.column == c)).map fun t =>
      if c = column then { t with order := order } else t := by
  induction ts with
  | nil => rfl
  | cons t ts ih =>
    by_cases ht : t.column = column
    · by_cases hc : c = column
      · simp [setOrder, ht, hc]
      · have hne : (column == c) = false := by simpa using Ne.symm hc
        simp [setOrder, ht, hc, hne]
    · by_cases htc : t.column = c
      · have hc : c ≠ column := htc ▸ ht
        simp [setOrder, htc, hc]
      · simp [setOrder, ht, htc, ih]

theorem map_arrange {β : Type} {f : SelectColumn → β}
    (hf : ∀ t order, f { t with order := order } = f t) (os : List (ColumnId × SortOrder))
    (ts : List SelectColumn) : (arrange os ts).map f = ts.map f := by
  induction os generalizing ts with
  | nil => rfl
  | cons o os ih => rw [arrange, List.foldl_cons, ← arrange, ih, map_setOrder hf]

theorem arrange_append_orders (os os' : List (ColumnId × SortOrder)) (ts : List SelectColumn) :
    arrange (os ++ os') ts = arrange os' (arrange os ts) := List.foldl_append

/-- Orders on columns that are selected can be given before or after selecting more. -/
theorem arrange_append (h : ∀ o ∈ os, o.1 ∈ ts.map (·.column)) :
    arrange os (ts ++ us) = arrange os ts ++ us := by
  induction os generalizing ts with
  | nil => rfl
  | cons o os ih =>
    obtain ⟨ho, hos⟩ := List.forall_mem_cons.mp h
    have hselected : ∀ o' ∈ os, o'.1 ∈ (setOrder o.1 o.2 ts).map (·.column) := by
      rwa [map_setOrder fun _ _ => rfl]
    rw [arrange, List.foldl_cons, setOrder_append ho, ← arrange, ih hselected]
    rfl

/-- Of several orders on one column the last one counts, for the first selection of the column. -/
theorem find?_arrange : (arrange os ts).find? (·.column == column)
    = (ts.find? (·.column == column)).map fun t =>
      { t with order := (lastOrder? os column).getD t.order } := by
  induction os using List.reverseRecOn with
  | nil => simp [arrange, lastOrder?]
  | append_singleton os o ih =>
    have hstep : arrange (os ++ [o]) ts = setOrder o.1 o.2 (arrange os ts) :=
      arrange_append_orders os [o] ts
    rw [hstep, find?_setOrder, ih, Option.map_map]
    congr 1
    funext t
    by_cases ho : column = o.1
    · simp [lastOrder?, ho]
    · have hne : (o.1 == column) = false := by simpa using Ne.symm ho
      simp [lastOrder?, ho, hne]

/-! ## Orders on plain selections -/

/-- The first selection of the column is plain. -/
def plainFirst (ts : List SelectColumn) (column : ColumnId) : Bool :=
  (ts.find? (·.column == column)).any (·.isPlain)

/-- A plain selection of the column has an order. -/
def HasOrder (ts : List SelectColumn) (column : ColumnId) : Prop :=
  ∃ t ∈ ts, t.column = column ∧ t.isPlain = true ∧ t.order ≠ .none

theorem hasOrder_nil : ¬HasOrder [] column := nofun

theorem hasOrder_cons {t : SelectColumn} : HasOrder (t :: ts) column ↔
    (t.column = column ∧ t.isPlain = true ∧ t.order ≠ .none) ∨ HasOrder ts column := by
  simp [HasOrder]

theorem plainFirst_setOrder : plainFirst (setOrder column order ts) c = plainFirst ts c := by
  rw [plainFirst, find?_setOrder, Option.any_map, plainFirst]
  congr 1
  funext t
  by_cases hc : c = column
  · simp only [hc, if_true]
    rfl
  · simp only [hc, if_false]

/-- An order reaches a plain selection iff the first selection of its column is plain. -/
theorem hasOrder_setOrder (horder : order ≠ .none) : HasOrder (setOrder column order ts) c ↔
    HasOrder ts c ∨ c = column ∧ plainFirst ts column = true := by
  induction ts with
  | nil => simp [setOrder, plainFirst, hasOrder_nil]
  | cons t ts ih =>
    by_cases ht : t.column = column
    · have hfirst : plainFirst (t :: ts) column = t.isPlain := by simp [plainFirst, ht]
      have hplain : ({ t with order := order } : SelectColumn).isPlain = t.isPlain := rfl
      rw [setOrder, if_pos ht, hasOrder_cons, hasOrder_cons, hfirst, hplain, ht]
      constructor
      · rintro (⟨rfl, hp, -⟩ | hrest)
        · exact .inr ⟨rfl, hp⟩
        · exact .inl (.inr hrest)
      · rintro ((⟨rfl, hp, -⟩ | hrest) | ⟨rfl, hp⟩)
        · exact .inl ⟨rfl, hp, horder⟩
        · exact .inr hrest
        · exact .inl ⟨rfl, hp, horder⟩
    · have hfirst : plainFirst (t :: ts) column = plainFirst ts column := by simp [plainFirst, ht]
      rw [setOrder, if_neg ht, hasOrder_cons, hasOrder_cons, ih, hfirst, or_assoc]

theorem hasOrder_arrange (hos : ∀ o ∈ os, o.2 ≠ .none) : HasOrder (arrange os ts) c ↔
    HasOrder ts c ∨ c ∈ os.map (·.1) ∧ plainFirst ts c = true := by
  induction os generalizing ts with
  | nil => simp [arrange]
  | cons o os ih =>
    obtain ⟨ho, hos⟩ := List.forall_mem_cons.mp hos
    rw [arrange, List.foldl_cons, ← arrange, ih hos, hasOrder_setOrder ho, plainFirst_setOrder,
      List.map_cons, List.mem_cons]
    constructor
    · rintro ((hts | ⟨rfl, hp⟩) | ⟨hc, hp⟩)
      · exact .inl hts
      · exact .inr ⟨.inl rfl, hp⟩
      · exact .inr ⟨.inr hc, hp⟩
    · rintro (hts | ⟨rfl | hc, hp⟩)
      · exact .inl (.inl hts)
      · exact .inl (.inr ⟨rfl, hp⟩)
      · exact .inr ⟨hc, hp⟩

/-- Every order that a builder is asked for is a direction. -/
theorem order_ne_none {o : ColumnId × SortOrder} (ho : o ∈ orders calls) : o.2 ≠ .none := by
  obtain ⟨call, -, horder⟩ := List.mem_filterMap.mp ho
  cases call with
  | orderBy | orderByDesc =>
    cases horder
    exact nofun
  | _ => cases horder

theorem Asks.mem_orders (h : Asks calls before column order) : (column, order) ∈ orders calls := by
  obtain ⟨call, behind, rfl, horder⟩ := h
  exact List.mem_filterMap.mpr ⟨call, by simp, horder⟩

/-- Selecting more does not change which selection of a column is the first. -/
theorem Asks.plainFirst (h : Asks calls before column order)
    (hplain : plainFirst (selections before) column = true) :
    Builder.plainFirst (selections calls) column = true := by
  obtain ⟨call, behind, rfl, -⟩ := h
  obtain ⟨t, ht, hisPlain⟩ := (Option.any_eq_true _ _).mp hplain
  have hsplit : selections (before ++ call :: behind)
      = selections before ++ selections (call :: behind) := List.filterMap_append
  rw [hsplit, Builder.plainFirst, List.find?_append, ht, Option.some_or, Option.any_some, hisPlain]

theorem exists_lastOrder? (h : (column, order) ∈ os) :
    ∃ last, lastOrder? os column = some last ∧ (column, last) ∈ os := by
  have hasked : column ∈ os.reverse.map (·.1) :=
    List.mem_map.mpr ⟨(column, order), List.mem_reverse.mpr h, rfl⟩
  obtain ⟨o, ho, rfl⟩ := exists_first hasked
  refine ⟨o.2, ?_, List.mem_reverse.mp (List.mem_of_find?_eq_some ho)⟩
  rw [lastOrder?, ho, Option.map_some]

/-! ## Builders after calls -/

theorem after_concat (calls : List Call) (call : Call) :
    after (calls ++ [call]) = (after calls).perform call := by
  simp [after]

theorem selections_concat (calls : List Call) (call : Call) :
    selections (calls ++ [call]) = selections calls ++ call.selection?.toList := by
  cases h : call.selection? <;> simp [selections, h]

theorem orders_concat (calls : List Call) (call : Call) :
    orders (calls ++ [call]) = orders calls ++ call.order?.toList := by
  cases h : call.order? <;> simp [orders, h]

theorem spoiled_extend (b : Builder) (f : Request → Request) : (b.extend f).spoiled = b.spoiled := by
  unfold extend
  split <;> rfl

/-- A build is spoiled by an order on a column that is not selected. -/
theorem spoiled_orderWith (b : Builder) (column : ColumnId) (order : SortOrder) :
    (b.orderWith column order).spoiled
      = (b.spoiled || !b.request.select.any (·.column == column)) := by
  unfold orderWith
  split
  · next hb => simp [hb]
  · next hb =>
    split
    · next hany => rw [spoiled_extend, hany, Bool.not_true, Bool.or_false]
    · next hany => simp [hany]

theorem select_orderWith (h : (b.orderWith column order).spoiled = false) :
    (b.orderWith column order).request.select = setOrder column order b.request.select := by
  rw [spoiled_orderWith, Bool.or_eq_false_iff, Bool.not_eq_false'] at h
  simp [orderWith, extend, h.1, h.2]

theorem select_selectWith (hb : b.spoiled = false) (column : ColumnId) (aggregation : Aggregation)
    (order : SortOrder) : (b.selectWith column aggregation order).request.select
      = b.request.select ++ [⟨column, aggregation, order⟩] := by
  simp [selectWith, extend, hb]

theorem select_condition (b : Builder) (column : ColumnId) (expression : String) :
    (b.condition column expression).request.select = b.request.select := by
  unfold condition extend
  split <;> rfl

/-- Only orders can spoil a build. -/
theorem spoiled_perform (b : Builder) (call : Call) :
    (b.perform call).spoiled
      = (b.spoiled || call.order?.any fun o => !b.request.select.any (·.column == o.1)) := by
  have hnone : b.spoiled = (b.spoiled || false) := (Bool.or_false _).symm
  cases call with
  | orderBy column => exact spoiled_orderWith b column .asc
  | orderByDesc column => exact spoiled_orderWith b column .desc
  | offset | maxRows | totalCount | checkPermission => exact hnone
  | _ => exact (spoiled_extend b _).trans hnone

/-- As long as the build is not spoiled, a call gives the order that it asks for and adds what it
selects. -/
theorem select_perform (h : (b.perform call).spoiled = false) :
    (b.perform call).request.select
      = arrange call.order?.toList b.request.select ++ call.selection?.toList := by
  have hb : b.spoiled = false := by
    rw [spoiled_perform, Bool.or_eq_false_iff] at h
    exact h.1
  have hnone : b.request.select = b.request.select ++ [] := (List.append_nil _).symm
  cases call with
  | select column => exact select_selectWith hb column .none .none
  | aggregate column aggregation => exact select_selectWith hb column aggregation .none
  | selectWith column aggregation order => exact select_selectWith hb column aggregation order
  | orderBy column => exact (select_orderWith h).trans (List.append_nil _).symm
  | orderByDesc column => exact (select_orderWith h).trans (List.append_nil _).symm
  | offset | maxRows | totalCount | checkPermission => exact hnone
  | condition | equals | beginsWith => exact (select_condition b _ _).trans hnone

/-- What spoils the build is an order on a column that is not among the selected ones, however they
are arranged. -/
theorem spoiled_perform_arranged (hb : b.spoiled = false) (hselect : b.request.select = arrange os ts) :
    (b.perform call).spoiled = true ↔
      ∃ column order, call.order? = some (column, order) ∧ column ∉ ts.map (·.column) := by
  have hany : ∀ column, (b.request.select.any (·.column == column)) = true ↔
      column ∈ ts.map (·.column) := by
    intro column
    rw [hselect, ← map_arrange (f := fun t => t.column) (fun _ _ => rfl) os ts]
    simp
  rw [spoiled_perform, hb, Bool.false_or, Option.any_eq_true]
  simp only [Prod.exists, Bool.not_eq_true', ← Bool.not_eq_true, hany]

/-- As long as the build is not spoiled, the orders are on columns that are selected, and are given to
what is selected. -/
theorem unspoiled_after (h : (after calls).spoiled = false) :
    (after calls).request.select = arrange (orders calls) (selections calls) ∧
      ∀ o ∈ orders calls, o.1 ∈ (selections calls).map (·.column) := by
  induction calls using List.reverseRecOn with
  | nil => exact ⟨rfl, nofun⟩
  | append_singleton calls call ih =>
    rw [after_concat] at h ⊢
    have hb : (after calls).spoiled = false := by
      rw [spoiled_perform, Bool.or_eq_false_iff] at h
      exact h.1
    obtain ⟨hselect, hbefore⟩ := ih hb
    have horders : ∀ o ∈ orders calls ++ call.order?.toList,
        o.1 ∈ (selections calls).map (·.column) := by
      intro o ho
      rcases List.mem_append.mp ho with ho | ho
      · exact hbefore o ho
      · by_contra hnot
        have hspoiled := (spoiled_perform_arranged hb hselect).mpr
          ⟨o.1, o.2, Option.mem_toList.mp ho, hnot⟩
        cases h.symm.trans hspoiled
    rw [orders_concat, selections_concat]
    refine ⟨?select, fun o ho => ?selected⟩
    case select =>
      rw [select_perform h, hselect, arrange_append horders, arrange_append_orders]
    case selected =>
      rw [List.map_append]
      exact List.mem_append_left _ (horders o ho)

/-! ## Outcomes of a build -/

/-- The call that asks is the last one or one before it. -/
theorem asks_concat : Asks (calls ++ [call]) before column order ↔
    Asks calls before column order ∨ before = calls ∧ call.order? = some (column, order) := by
  constructor
  · rintro ⟨asking, behind, heq, horder⟩
    rcases List.eq_nil_or_concat behind with rfl | ⟨behind, last, rfl⟩
    · obtain ⟨rfl, hlast⟩ := List.append_inj' heq rfl
      cases hlast
      exact .inr ⟨rfl, horder⟩
    · rw [List.concat_eq_append, ← List.cons_append, ← List.append_assoc] at heq
      obtain ⟨rfl, -⟩ := List.append_inj' heq rfl
      exact .inl ⟨asking, behind, rfl, horder⟩
  · rintro (⟨asking, behind, rfl, horder⟩ | ⟨rfl, horder⟩)
    · exact ⟨asking, behind ++ [call], by simp, horder⟩
    · exact ⟨call, [], rfl, horder⟩

theorem ordersUnselected_concat : OrdersUnselected (calls ++ [call]) ↔ OrdersUnselected calls ∨
    ∃ column order, call.order? = some (column, order) ∧
      column ∉ (selections calls).map (·.column) := by
  have hselected : ∀ column, column ∉ (selections calls).map (·.column) ↔
      ∀ t ∈ selections calls, t.column ≠ column := by simp
  simp only [hselected]
  constructor
  · rintro ⟨before, column, order, hasks, hnone⟩
    rcases asks_concat.mp hasks with hasks | ⟨rfl, horder⟩
    · exact .inl ⟨before, column, order, hasks, hnone⟩
    · exact .inr ⟨column, order, horder, hnone⟩
  · rintro (⟨before, column, order, hasks, hnone⟩ | ⟨column, order, horder, hnone⟩)
    · exact ⟨before, column, order, asks_concat.mpr (.inl hasks), hnone⟩
    · exact ⟨calls, column, order, asks_concat.mpr (.inr ⟨rfl, horder⟩), hnone⟩

/-- A build is spoiled iff an order is asked too early for its column. -/
theorem spoiled_after : (after calls).spoiled = true ↔ OrdersUnselected calls := by
  induction calls using List.reverseRecOn with
  | nil =>
    refine ⟨nofun, ?_⟩
    rintro ⟨before, column, order, ⟨call, behind, heq, -⟩, -⟩
    simp at heq
  | append_singleton calls call ih =>
    rw [after_concat, ordersUnselected_concat, ← ih]
    cases hspoiled : (after calls).spoiled with
    | true => simp [spoiled_perform, hspoiled]
    | false =>
      rw [spoiled_perform_arranged hspoiled (unspoiled_after hspoiled).1]
      simp

/-- A request that is built selects what the calls select, with their orders. -/
theorem select_of_build {r : Request} (h : (after calls).build = .ok r) :
    r.select = arrange (orders calls) (selections calls) := by
  unfold build at h
  split at h
  · cases h
  · next hspoiled =>
    split at h
    · cases h
    · cases h
      exact (unspoiled_after (Bool.eq_false_iff.mpr hspoiled)).1

/-- A build fails for the first order that is asked too early, else for want of a selection. -/
theorem build_eq_error {e : QueryError} : (after calls).build = .error e ↔
    OrdersUnselected calls ∧ e = .invalidRequest "order_by requires a selected column" ∨
    ¬OrdersUnselected calls ∧ selections calls = [] ∧
      e = .invalidRequest "select list is empty" := by
  rw [← spoiled_after]
  by_cases hspoiled : (after calls).spoiled = true
  · simp only [build, hspoiled, if_true, Except.error.injEq, true_and, not_true, false_and, or_false]
    exact eq_comm
  · have hempty : (after calls).request.select.isEmpty = true ↔ selections calls = [] := by
      rw [(unspoiled_after (Bool.eq_false_iff.mpr hspoiled)).1, List.isEmpty_iff,
        ← List.map_eq_nil_iff (f := fun t => t.column), map_arrange fun _ _ => rfl,
        List.map_eq_nil_iff]
    by_cases hselect : (after calls).request.select.isEmpty = true
    · rw [build, if_neg hspoiled, if_pos hselect, Except.error.injEq]
      constructor
      · rintro rfl
        exact .inr ⟨hspoiled, hempty.mp hselect, rfl⟩
      · rintro (⟨h, -⟩ | ⟨-, -, rfl⟩)
        · exact absurd h hspoiled
        · rfl
    · rw [build, if_neg hspoiled, if_neg hselect]
      refine ⟨nofun, ?_⟩
      rintro (⟨h, -⟩ | ⟨-, h, -⟩)
      · exact absurd h hspoiled
      · exact absurd (hempty.mpr h) hselect

end CatalogQuery.Builder
