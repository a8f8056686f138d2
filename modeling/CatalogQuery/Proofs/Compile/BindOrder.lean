import CatalogQuery.Proofs.Compile.Literals
import CatalogQuery.Proofs.Compile.Parts
import CatalogQuery.Proofs.Compile.RowFilters
import CatalogQuery.Proofs.Sql.Pieces

/-!
# Values stand in the order of their placeholders

The values of a compiled statement are the literals of its conditions in the order of the request,
then the caller once for each filter, then the offset where it is bound. Where no text of the schema
holds a placeholder, each piece of the statement has as many placeholders as it brings values.

* `SimpleCondition.balanced_render`, `ProtectedTable.balanced_filter`: conditions and filters are
  balanced;
* `Draft.balanced_clauses`: so are the clauses of a draft;
* `Schema.binds_line_up`: the values of a statement and their placeholders.
-/

namespace CatalogQuery

open Sql Fragment

/-! ## Conditions -/

/-- The values of a condition are its literals; a text that begins with the literal needs it
twice. -/
def SimpleCondition.values (c : SimpleCondition) : List String :=
  if c.operator = .beginOf then c.literals ++ c.literals else c.literals

/-- The values of both sides, the left ones first. -/
def Condition.values : Condition → List String
  | .simple c => c.values
  | .compound _ left right => left.values ++ right.values

section Conditions

variable {d : Dialect} {column : String}

theorem SimpleCondition.binds_render {c : SimpleCondition} (h : c.Full) :
    (c.render column d).binds = c.values := by
  obtain ⟨operator, literals, numeric⟩ := c
  cases operator with
  | beginOf =>
    obtain ⟨literal, rfl⟩ := List.length_eq_one_iff.mp h
    rfl
  | _ => rfl

/-- An operator has one placeholder for each of its values. -/
theorem SimpleCondition.balanced_render {c : SimpleCondition} (h : c.Full)
    (hcolumn : holes column = 0) (hd : holes d.lengthFunction = 0) :
    (c.render column d).Balanced := by
  have hoperands : holes (c.operands column).1 = 0 ∧ holes (c.operands column).2 = 1 := by
    have hcast : holes "cast(" = 0 ∧ holes " as decimal)" = 0 ∧ holes "cast(? as decimal)" = 1 ∧
      holes "?" = 1 := by
      and_intros <;> exact holes_literal (by decide)
    unfold operands
    split <;> simp [hcast, hcolumn]
  have hsql : ∀ o : Operator, holes o.sql = 0 := by
    intro o
    cases o <;> decide
  have hspace : holes " " = 0 := holes_literal (by decide)
  obtain ⟨operator, literals, numeric⟩ := c
  obtain ⟨htarget, hplaceholder⟩ := hoperands
  unfold SimpleCondition.Full at h
  unfold Fragment.Balanced render
  generalize SimpleCondition.operands _ column = operands at htarget hplaceholder
  cases operator with
  | beginOf =>
    have htexts : holes "substr(" = 0 ∧ holes ",1," = 0 ∧ holes "(?))=? AND " = 2 ∧ holes "(" = 0 ∧
      holes ")>0" = 0 := by
      and_intros <;> exact holes_literal (by decide)
    simp only [holes_append, htexts, htarget, hd, List.length_cons, List.length_nil]
  | isIn | notIn =>
    have htexts : holes " (" = 0 ∧ holes ")" = 0 := by
      and_intros <;> exact holes_literal (by decide)
    simp only [holes_append, htexts, htarget, hsql, hspace, hplaceholder, h, Operator.takesRange]
    rfl
  | between | notBetween =>
    have htexts : holes " and " = 0 := holes_literal (by decide)
    simp only [holes_append, htexts, htarget, hsql, hspace, hplaceholder, h, Operator.takesRange]
    rfl
  | _ =>
    simp only [holes_append, htarget, hsql, hspace, hplaceholder, h, Operator.takesRange]
    rfl

theorem Placed.binds_term {p : Placed} (h : p.condition.Full) :
    (p.term d).render.binds = p.condition.values := by
  obtain ⟨condition, info, role, place⟩ := p
  cases condition with
  | simple c => exact c.binds_render h
  | compound connective left right =>
    show (left.render _ d).binds ++ (right.render _ d).binds = _
    rw [left.binds_render h.1, right.binds_render h.2]
    rfl

theorem Placed.balanced_term {p : Placed} (h : p.condition.Full)
    (hcolumn : holes p.columnText = 0) (hd : holes d.lengthFunction = 0) :
    (p.term d).Balanced := by
  obtain ⟨condition, info, role, place⟩ := p
  cases condition with
  | simple c =>
    intro f hf
    rw [List.mem_singleton.mp hf]
    exact c.balanced_render h hcolumn hd
  | compound connective left right =>
    have hleft := left.balanced_render h.1 hcolumn hd
    have hright := right.balanced_render h.2 hcolumn hd
    have hconnective : holes (" " ++ connective.sql ++ " ") = 0 := by cases connective <;> decide
    intro f hf
    simp only [Placed.term, Term.pieces, List.mem_cons, List.not_mem_nil, or_false] at hf
    rcases hf with rfl | rfl | rfl | rfl | rfl
    · exact balanced_text.mpr (holes_literal (by decide))
    · exact hleft
    · exact balanced_text.mpr hconnective
    · exact hright
    · exact balanced_text.mpr (holes_literal (by decide))

end Conditions

/-! ## Texts of a schema -/

/-- The names of a layout that come into a statement. -/
def AttributeJoin.texts (j : AttributeJoin) : List String :=
  [j.mapTable, j.mapBinding, j.metaTable, j.metaBinding, j.metaKey, j.mapObjectColumn,
    j.objectTable, j.objectIdColumn]

def GrantChain.texts (g : GrantChain) : List String :=
  [g.accessTable, g.groupTable, g.userTable, g.tokenTable, g.groupTypeName, g.tokenNamespace,
    g.readToken]

def Conventions.texts (c : Conventions) : List String :=
  c.attributeJoins.flatMap (·.texts) ++ c.protectedTables.flatMap (fun p => [p.table, p.idColumn])
    ++ c.grantChain.texts

/-- All texts that a schema can bring into a statement: names of tables with their entries, columns,
predicates of links, and the names of the conventions. -/
def Schema.texts (s : Schema) : List String :=
  s.tables.flatMap (fun t => [t.name, t.source]) ++ s.columns.map (·.name)
    ++ s.links.map (·.predicate) ++ s.conventions.texts

def Sql.Dialect.texts (d : Dialect) : List String := [d.lengthFunction, d.unboundedLimit]

section Texts

variable {s : Schema} {caller : Caller} {options : CompileOptions} {dialect : Dialect} {r : Request}
  {d : Draft} {c : Compiled}

namespace Schema

theorem mem_texts_of_conventions {t : String} (ht : t ∈ s.conventions.texts) : t ∈ s.texts :=
  List.mem_append_right _ ht

theorem holes_layout (h : ∀ t ∈ s.texts, holes t = 0) {j : AttributeJoin}
    (hj : j ∈ s.conventions.attributeJoins) : ∀ t ∈ j.texts, holes t = 0 := by
  intro t ht
  apply h t (mem_texts_of_conventions _)
  exact List.mem_append_left _ (List.mem_append_left _ (List.mem_flatMap.mpr ⟨j, hj, ht⟩))

theorem holes_table (h : ∀ t ∈ s.texts, holes t = 0) {table : Table} (ht : table ∈ s.tables) :
    holes table.name = 0 ∧ holes table.source = 0 := by
  have hmem : ∀ t ∈ [table.name, table.source], t ∈ s.texts := by
    intro t htext
    simp only [texts, List.mem_append, List.mem_flatMap]
    exact .inl (.inl (.inl ⟨table, ht, htext⟩))
  exact ⟨h _ (hmem _ (by simp)), h _ (hmem _ (by simp))⟩

theorem holes_source (h : ∀ t ∈ s.texts, holes t = 0) (t : TableId) : holes (s.source t) = 0 := by
  unfold source
  cases ht : s.tables[t]? with
  | none => rfl
  | some table => exact (holes_table h (List.mem_of_getElem? ht)).2

theorem holes_column (h : ∀ t ∈ s.texts, holes t = 0) {id : ColumnId} {info : ColumnInfo}
    (hinfo : s.columnInfo? id = some info) : holes info.name = 0 ∧ holes info.qualified = 0 := by
  obtain ⟨-, htable, column, hcolumn, hname⟩ := columnInfo?_eq_some hinfo
  have hinfoName : holes info.name = 0 := by
    rw [← hname]
    apply h
    simp only [texts, List.mem_append, List.mem_map]
    exact .inl (.inl (.inr ⟨column, hcolumn, rfl⟩))
  have hdot : holes "." = 0 := holes_literal (by decide)
  refine ⟨hinfoName, ?_⟩
  simp [ColumnInfo.qualified, hinfoName, hdot, holes_table h (List.mem_of_getElem? htable)]

theorem holes_link (h : ∀ t ∈ s.texts, holes t = 0) {l : Link} (hl : l ∈ s.links) :
    holes l.predicate = 0 := by
  apply h
  simp only [texts, List.mem_append, List.mem_map]
  exact .inl (.inr ⟨l, hl, rfl⟩)

end Schema

theorem holes_instanceBinding {base : String} (h : holes base = 0) (index : Nat) :
    holes (instanceBinding base index) = 0 := by
  have hline : holes "_" = 0 := holes_literal (by decide)
  unfold instanceBinding
  split
  · exact h
  · rw [holes_append, holes_append, h, hline, holes_toString]

theorem AttributeJoin.holes_joins {j : AttributeJoin} (h : ∀ t ∈ j.texts, holes t = 0)
    (index : Nat) : ∀ t ∈ j.joins index, t.Balanced := by
  simp only [texts, List.forall_mem_cons] at h
  obtain ⟨-, hmap, -, hmeta, hkey, hobject, htable, hid, -⟩ := h
  have htexts : holes "." = 0 ∧ holes " = " = 0 := by
    and_intros <;> exact holes_literal (by decide)
  intro t ht f hf
  simp only [joins, List.mem_cons, List.not_mem_nil, or_false] at ht
  rcases ht with rfl | rfl
  · rw [List.mem_singleton.mp hf, balanced_text]
    simp [htexts, mapInstance, metaInstance, holes_instanceBinding hmap, holes_instanceBinding hmeta,
      hkey]
  · rw [List.mem_singleton.mp hf, balanced_text]
    simp [htexts, mapInstance, holes_instanceBinding hmap, hobject, htable, hid]

theorem AttributeJoin.holes_entries {j : AttributeJoin} (h : ∀ t ∈ j.texts, holes t = 0)
    (index : Nat) : ∀ e ∈ j.entries index, holes e = 0 := by
  simp only [texts, List.forall_mem_cons] at h
  obtain ⟨hmapTable, hmap, hmetaTable, hmeta, -⟩ := h
  have hspace : holes " " = 0 := holes_literal (by decide)
  intro e he
  simp only [entries, List.mem_cons, List.not_mem_nil, or_false] at he
  rcases he with rfl | rfl
  · simp [hspace, mapInstance, holes_instanceBinding hmap, hmapTable]
  · simp [hspace, metaInstance, holes_instanceBinding hmeta, hmetaTable]

/-- A filter has two placeholders, for the name and the zone of the caller. -/
theorem GrantChain.holes_admits {g : GrantChain} (h : ∀ t ∈ g.texts, holes t = 0) {column : String}
    (hcolumn : holes column = 0) : holes (g.admits column) = 2 := by
  simp only [GrantChain.texts, List.forall_mem_cons] at h
  obtain ⟨haccess, hgroup, huser, htoken, htype, hnamespace, hread, -⟩ := h
  have htexts : holes " in (select object_id from " = 0 ∧ holes " OA, " = 0 ∧
    holes " UG, " = 0 ∧ holes " UM, " = 0 ∧
    holes " TM where UM.user_name=? and UM.zone_name=? and UM.user_type_name!='" = 2 ∧
    holes "' and UM.user_id = UG.user_id and UG.group_user_id = OA.user_id and OA.object_id = " = 0 ∧
    holes " and OA.access_type_id >= TM.token_id and TM.token_namespace ='" = 0 ∧
    holes "' and TM.token_name = '" = 0 ∧ holes "')" = 0 := by
    and_intros <;> exact holes_literal (by decide)
  unfold admits
  simp only [holes_append, htexts, haccess, hgroup, huser, htoken, htype, hnamespace, hread, hcolumn]

theorem ProtectedTable.balanced_filter (h : ∀ t ∈ s.texts, holes t = 0) {p : ProtectedTable}
    (hp : p ∈ s.conventions.protectedTables) :
    (p.filter s.conventions.grantChain caller).Balanced := by
  have htable : ∀ t ∈ [p.table, p.idColumn], holes t = 0 := by
    intro t ht
    apply h t (Schema.mem_texts_of_conventions _)
    exact List.mem_append_left _ (List.mem_append_right _ (List.mem_flatMap.mpr ⟨p, hp, ht⟩))
  have hchain : ∀ t ∈ s.conventions.grantChain.texts, holes t = 0 := fun t ht =>
    h t (Schema.mem_texts_of_conventions (List.mem_append_right _ ht))
  have hcolumn : holes (p.table ++ "." ++ p.idColumn) = 0 := by
    have hdot : holes "." = 0 := holes_literal (by decide)
    rw [holes_append, holes_append, hdot, htable p.table (by simp), htable p.idColumn (by simp)]
  have hsql : (p.filter s.conventions.grantChain caller).sql
      = s.conventions.grantChain.admits (p.table ++ "." ++ p.idColumn) := rfl
  have hbinds : (p.filter s.conventions.grantChain caller).binds = [caller.user, caller.zone] := rfl
  rw [Fragment.Balanced, hsql, hbinds, GrantChain.holes_admits hchain hcolumn]
  rfl

/-! ## Clauses of drafts -/

theorem SelectColumn.holes_text {column : SelectColumn} {info : ColumnInfo}
    (h : holes info.qualified = 0) : holes (column.text info) = 0 := by
  have hfunction : ∀ f, column.aggregate.function? = some f → holes f = 0 := by
    cases column.aggregate <;> decide
  have htexts : holes "(" = 0 ∧ holes ")" = 0 := by
    and_intros <;> exact holes_literal (by decide)
  unfold text
  split
  · next f hf => simp [htexts, h, hfunction f hf]
  · exact h

/-- Where no text of the schema has a placeholder, all placeholders of the clauses are those of
conditions and filters. -/
theorem Draft.balanced_clauses (h : ∀ t ∈ s.texts, holes t = 0)
    (hdialect : ∀ t ∈ dialect.texts, holes t = 0) (hd : s.draft caller r = .ok d)
    (links : List LinkId) (selected : List TableId) (strict : Bool) (anonymousUser : String) :
    ((d.openClauses s dialect links).narrowed
      (s.rowFilters selected caller strict anonymousUser)).Balanced where
  select := by
    intro t ht
    obtain ⟨c, hc, rfl⟩ := List.mem_map.mp ht
    obtain ⟨asked, -, -, hopen⟩ := exists_of_forall₂ (selects_of_draft hd) hc
    exact SelectColumn.holes_text (Schema.holes_column h (Schema.openColumn_eq_ok hopen)).2
  sources := by
    intro e he
    rcases mem_sources he with he | ⟨t, rfl⟩
    · obtain ⟨j, hj, index, he⟩ := mem_instance_sources e he
      exact AttributeJoin.holes_entries (Schema.holes_layout h hj) index e he
    · exact Schema.holes_source h t
  terms := by
    intro t ht
    simp only [Clauses.narrowed, openClauses, List.mem_append] at ht
    rcases ht with ((ht | ht) | ht) | ht
    · obtain ⟨p, hp, rfl⟩ := List.mem_map.mp ht
      obtain ⟨expression, hparse⟩ := parsed_of_placed hd hp
      obtain ⟨column, hinfo⟩ := columnInfo_of_placed hd hp
      obtain ⟨hname, hqualified⟩ := Schema.holes_column h hinfo
      refine p.balanced_term (Condition.full_of_parse hparse) ?_ (hdialect _ (by simp [Dialect.texts]))
      rcases columnText_cases hp with htext | ⟨j, hj, index, htext⟩
      · rw [htext, hqualified]
      · have hdot : holes "." = 0 := holes_literal (by decide)
        have hrows : holes j.metaBinding = 0 :=
          Schema.holes_layout h hj _ (by simp [AttributeJoin.texts])
        simp [htext, hdot, hname, AttributeJoin.metaInstance, holes_instanceBinding hrows]
    · obtain ⟨l, hl, rfl⟩ := mem_joinTerms ht
      intro f hf
      rw [List.mem_singleton.mp hf, balanced_text]
      exact Schema.holes_link h hl
    · obtain ⟨j, hj, index, ht⟩ := mem_instance_joins t ht
      exact AttributeJoin.holes_joins (Schema.holes_layout h hj) index t ht
    · obtain ⟨f, hf, rfl⟩ := List.mem_map.mp ht
      unfold Schema.rowFilters at hf
      split at hf
      · obtain ⟨p, hp, rfl⟩ := List.mem_map.mp hf
        intro g hg
        rw [List.mem_singleton.mp hg]
        exact ProtectedTable.balanced_filter h (List.mem_of_mem_filter hp)
      · cases hf
  groupBy := by
    intro name hname
    obtain ⟨c, hc, rfl⟩ := mem_groupBy hname
    obtain ⟨asked, -, -, hopen⟩ := exists_of_forall₂ (selects_of_draft hd) hc
    exact (Schema.holes_column h (Schema.openColumn_eq_ok hopen)).2
  orderBy := by
    intro o ho
    rcases mem_orderBy ho with ⟨c, hc, hcolumn⟩ | ⟨column, info, hinfo, hcolumn⟩
    · obtain ⟨asked, -, -, hopen⟩ := exists_of_forall₂ (selects_of_draft hd) hc
      rw [hcolumn]
      exact (Schema.holes_column h (Schema.openColumn_eq_ok hopen)).2
    · rw [hcolumn]
      exact (Schema.holes_column h hinfo).2

/-- The suffix of a dialect binds the offset, writes it out, or is not there. -/
theorem Sql.Dialect.balanced_suffix (hdialect : ∀ t ∈ dialect.texts, holes t = 0) (offset : Nat) :
    ∀ f ∈ dialect.offsetSuffix offset, f.Balanced := by
  have htexts : holes " offset ?" = 1 ∧ holes " limit " = 0 ∧ holes "," = 0 := by
    and_intros <;> exact holes_literal (by decide)
  have hlimit : holes dialect.unboundedLimit = 0 := hdialect _ (by simp [texts])
  intro f hf
  unfold offsetSuffix at hf
  split at hf
  · cases hf
  · split at hf
    · cases hf
      exact htexts.1
    · cases hf
      rw [balanced_text, holes_append, holes_append, holes_append, holes_toString, hlimit]
      simp [htexts]
    · cases hf

/-! ## Values of a statement -/

/-- The values of the conditions stand in the order of the request. -/
theorem Draft.binds_placed (hd : s.draft caller r = .ok d) :
    (d.placed s).flatMap (fun p => (p.term dialect).render.binds)
      = d.conditions.flatMap (·.1.values) := by
  have hvalues : ∀ p ∈ d.placed s, (p.term dialect).render.binds = p.condition.values := by
    intro p hp
    obtain ⟨expression, hparse⟩ := parsed_of_placed hd hp
    exact p.binds_term (Condition.full_of_parse hparse)
  rw [← d.map_placed (s := s), List.flatMap_map]
  exact List.flatMap_congr hvalues

/-- Joins bring no values. -/
theorem Draft.binds_openClauses (hd : s.draft caller r = .ok d) (links : List LinkId) :
    (d.openClauses s dialect links).body.binds = d.conditions.flatMap (·.1.values) := by
  have hlinks : (joinTerms s links).flatMap (·.render.binds) = [] := by
    rw [List.flatMap_eq_nil_iff]
    intro t ht
    obtain ⟨l, -, rfl⟩ := mem_joinTerms ht
    rfl
  have hinstances : (instancesOf (d.placed s)).joins.flatMap (·.render.binds) = [] := by
    rw [List.flatMap_eq_nil_iff]
    intro t ht
    obtain ⟨j, -, index, ht⟩ := mem_instance_joins t ht
    simp only [AttributeJoin.joins, List.mem_cons, List.not_mem_nil, or_false] at ht
    rcases ht with rfl | rfl <;> rfl
  show ((d.placed s).map (·.term dialect) ++ joinTerms s links
    ++ (instancesOf (d.placed s)).joins).flatMap (·.render.binds) = _
  rw [List.flatMap_append, List.flatMap_append, hlinks, hinstances, List.append_nil,
    List.append_nil, List.flatMap_map, binds_placed hd]

theorem Schema.binds_rowFilters (selected : List TableId) (strict : Bool) (anonymousUser : String) :
    (s.rowFilters selected caller strict anonymousUser).flatMap (·.binds)
      = (s.rowFilters selected caller strict anonymousUser).flatMap fun _ =>
        [caller.user, caller.zone] := by
  unfold rowFilters
  split
  · rw [List.flatMap_map, List.flatMap_map]
    rfl
  · rfl

theorem Sql.Dialect.binds_suffix (offset : Nat) :
    ((dialect.offsetSuffix offset).getD .blank).binds
      = if dialect.pagination = .offsetBind ∧ 0 < offset then [toString offset] else [] := by
  unfold offsetSuffix
  rcases Nat.eq_zero_or_pos offset with rfl | hpos
  · simp [Fragment.blank]
  · rw [if_neg (Nat.ne_of_gt hpos)]
    cases dialect.pagination <;> simp [hpos, Fragment.blank]

/-- The values of a compiled statement are those of the conditions in the order of the request, then
name and zone of the caller for each filter, then the offset if the dialect binds it and there is one;
the statement that counts has the same ones without the offset. Where no text of the schema or the
dialect has a placeholder, both statements have as many placeholders as values, and each value belongs
to the piece in which its placeholder stands. -/
theorem Schema.binds_line_up (h : s.compile dialect caller options r = .ok c) :
    ∃ d links conditions, s.draft caller r = .ok d ∧
      List.Forall₂ (fun asked read => Condition.parse asked.expression = .ok read) r.conditions
        conditions ∧
      let filters := s.rowFilters (d.selects.map fun c => c.2.tableId) caller options.strict
        options.anonymousUser
      let k := (d.openClauses s dialect links).narrowed filters
      let suffix := dialect.offsetSuffix r.offset
      c = k.compiled suffix r.select ∧
      c.count.binds = conditions.flatMap (·.values) ++
        filters.flatMap (fun _ => [caller.user, caller.zone]) ∧
      c.statement.binds = c.count.binds ++
        (if dialect.pagination = .offsetBind ∧ 0 < r.offset then [toString r.offset] else []) ∧
      ((∀ t ∈ s.texts ++ dialect.texts, '?' ∉ t.toList) →
        c.statement.LinedUp (k.statementPieces suffix) ∧ c.count.LinedUp k.countPieces) := by
  obtain ⟨d, hd, -, links, -, rfl, -⟩ := compile_eq_ok.mp h
  refine ⟨d, links, d.conditions.map (·.1), hd, ?_, ?_⟩
  · rw [List.forall₂_map_right_iff]
    exact (Draft.conditions_of_draft hd).imp fun _ _ hread => hread.2
  intro filters k suffix
  have hc : d.compiled s dialect caller options r.offset links = k.compiled suffix r.select := by
    rw [← Draft.map_selects_of_draft hd]
    rfl
  have hcount : k.count.binds = (d.conditions.map (·.1)).flatMap (·.values) ++
      filters.flatMap (fun _ => [caller.user, caller.zone]) := by
    rw [Clauses.binds_count, Clauses.binds_narrowed, Draft.binds_openClauses hd, List.flatMap_map]
    exact congrArg _ (binds_rowFilters _ _ _)
  rw [hc]
  refine ⟨rfl, hcount, ?_, fun htexts => ?_⟩
  · show (k.statement suffix).binds = k.count.binds ++ _
    rw [Clauses.statement, binds_append, binds_append, List.append_nil, Dialect.binds_suffix,
      Clauses.binds_count]
  · have hs : ∀ t ∈ s.texts, holes t = 0 := fun t ht =>
      holes_eq_zero.mpr (htexts t (List.mem_append_left _ ht))
    have hdialect : ∀ t ∈ dialect.texts, holes t = 0 := fun t ht =>
      holes_eq_zero.mpr (htexts t (List.mem_append_right _ ht))
    have hbalanced : k.Balanced := Draft.balanced_clauses hs hdialect hd links _ _ _
    constructor
    · have hlined := linedUp_concat (hbalanced.statementPieces
        (Dialect.balanced_suffix hdialect r.offset))
      rwa [Clauses.concat_statementPieces] at hlined
    · have hlined := linedUp_concat hbalanced.countPieces
      rwa [Clauses.concat_countPieces] at hlined

end Texts

/-- The guarded roundabout where labels with values hang on the data. -/
def Schema.labelled : Schema :=
  { Schema.guarded with
    columns := Schema.guarded.columns ++ [⟨⟨3⟩, 2, "value"⟩]
    conventions :=
      { Schema.guarded.conventions with
        attributeJoins := [⟨⟨2⟩, ⟨3⟩, "base", "note", "base", "meta", "id", "note", "data", "id"⟩] } }

/-- Names from the second one on that begin with some text or lie in a range, with a value for each
of two labels. -/
def Request.twoLabels : Request where
  select := [⟨⟨1⟩, .none, .asc⟩]
  conditions := [⟨⟨3⟩, "between 'low' 'high'"⟩, ⟨⟨2⟩, "= 'mass'"⟩,
    ⟨⟨1⟩, "begin_of 'ab' || in 'cd'"⟩, ⟨⟨3⟩, "n> '7'"⟩, ⟨⟨2⟩, "begin_of 'age'"⟩]
  offset := 1

/-- The values of both labels come before their names where they are asked for first. -/
theorem twoLabels_lined_up : ∃ c pieces,
    Schema.labelled.compile .postgres ⟨"alice", "north", .localUser⟩ { strict := true } .twoLabels
      = .ok c ∧
    c.statement.binds = ["low", "high", "mass", "ab", "ab", "cd", "7", "age", "age", "alice", "north",
      "1"] ∧
    c.statement.LinedUp pieces := by
  obtain ⟨c, hc⟩ := Fallible.exists_of_isOk (x := Schema.labelled.compile .postgres
    ⟨"alice", "north", .localUser⟩ { strict := true } .twoLabels) (by decide +kernel)
  obtain ⟨d, links, conditions, -, -, -, -, -, hlined⟩ := Schema.binds_line_up hc
  have htexts : ∀ t ∈ Schema.labelled.texts ++ Dialect.postgres.texts, '?' ∉ t.toList := by
    decide +kernel
  have hbinds : (Compiled.statement <$> Schema.labelled.compile .postgres
      ⟨"alice", "north", .localUser⟩ { strict := true } .twoLabels).map (·.binds)
      = .ok ["low", "high", "mass", "ab", "ab", "cd", "7", "age", "age", "alice", "north", "1"] := by
    decide +kernel
  rw [hc] at hbinds
  exact ⟨c, _, hc, Except.ok.inj hbinds, (hlined htexts).1⟩

end CatalogQuery
