import CatalogQuery.Proofs.Compile.AttributeSlots
import CatalogQuery.Proofs.Compile.BindOrder
import CatalogQuery.Proofs.Compile.StatementTexts
import CatalogQuery.Proofs.Sql.Enclosing

/-!
# The terms behind WHERE

All terms of a statement are closed texts, whatever operator, layout or filter they come from, as long
as the names of the schema are words and the predicate of each link is closed itself. Then what stands
behind WHERE is read as the conjunction of its terms. A predicate is registered without a look at it:
one that has an alternative outside of parentheses takes all other terms apart.

* `SimpleCondition.reads_render`: every operator is rendered as a closed text;
* `GrantChain.reads_admits`: a filter is closed by its parentheses;
* `Schema.where_is_conjunction`: the terms of a compiled statement are its conjuncts;
* `Schema.alternative_not_conjunction`: not so where a link has an alternative.
-/

namespace CatalogQuery

open Sql Fragment Reader Fallible

/-! ## Names -/

/-- A word of SQL that joins no conditions. -/
structure PlainName (s : String) : Prop where
  word : isWordText s.toList = true
  free : joinsTerms (.word s) = false

instance (s : String) : Decidable (PlainName s) :=
  decidable_of_iff (isWordText s.toList = true ∧ joinsTerms (.word s) = false)
    ⟨fun h => ⟨h.1, h.2⟩, fun h => ⟨h.word, h.free⟩⟩

theorem separates_dot : Separates "." [.mark "."] := separates_of_gap (by decide) (by simp)

theorem separates_opening : Separates "(" ([] ++ [.mark "("]) := separates_of_gap (by decide) (by simp)

theorem separates_closing : Separates ")" [.mark ")"] := separates_of_gap (by decide) (by simp)

theorem PlainName.reads {s : String} (h : PlainName s) : Reads Neutral s [] :=
  .plain (.of_spells (spells_word h.word) (by simp)) (.singleton (by simp) (by simp) h.free)

/-- A column behind the name of its table. -/
theorem PlainName.reads_column {table column : String} (ht : PlainName table)
    (hc : PlainName column) : Reads Neutral (table ++ "." ++ column) [] := by
  have h := Reads.neutral separates_dot (by decide) ht.reads hc.reads
  rwa [← String.append_assoc] at h

/-- An instance of a name is a name. -/
theorem PlainName.instance_ {base : String} (h : PlainName base) (index : Nat) :
    PlainName (instanceBinding base index) := by
  unfold instanceBinding
  split
  case isTrue => exact h
  case isFalse hindex =>
  obtain ⟨i, rfl⟩ : ∃ i, index = i + 1 := ⟨index - 1, by omega⟩
  have hsuffix : base ++ "_" ++ toString (i + 1) = base ++ Slot.suffix i := by
    have := Slot.instanceBinding_eq base i
    rwa [instanceBinding, if_neg hindex] at this
  rw [hsuffix]
  constructor
  case word => exact isWordText_append h.word fun c hc => Slot.isWordChar_of_mem_suffix hc
  case free =>
    -- The line before the number is in no word that joins terms.
    have hline : '_' ∈ (lowerText (base ++ Slot.suffix i)).toList := by
      have hlow : '_'.toLower = '_' := by decide
      have hmem : '_' ∈ (base ++ Slot.suffix i).toList := by
        rw [← hsuffix]
        simp
      rw [lowerText, String.toList_ofList]
      exact hlow ▸ List.mem_map_of_mem hmem
    have hwords : ∀ w ∈ ["or", "and", "between"], lowerText (base ++ Slot.suffix i) ≠ w := by
      intro w hw heq
      have hnone : ∀ w ∈ ["or", "and", "between"], '_' ∉ w.toList := by decide
      exact hnone w hw (heq ▸ hline)
    simp only [List.forall_mem_cons] at hwords
    simp [joinsTerms, Token.isWord, Token.lower?, hwords]

/-! ## Conditions -/

section Conditions

variable {column : String} {d : Dialect}

theorem reads_placeholder (v : String) : Reads Neutral "?" [v] := by
  refine ⟨[.bound v], ⟨[.placeholder none], ?_, .hole v .nil⟩, ?_⟩
  · simpa using spells_placeholder
  · exact .of_flat (.singleton (by simp) (by simp) rfl)

/-- A function of a text without conditions, with something behind it. -/
theorem PlainName.reads_call {name a b : String} {as bs : List String} (hname : PlainName name)
    (ha : Reads Neutral a as) (hb : Reads Neutral b bs) :
    Reads Neutral (name ++ ("(" ++ (a ++ (")" ++ b)))) (as ++ bs) :=
  .enclose separates_opening (by decide) separates_closing hname.reads
    (ha.imp fun _ h => h.level) hb

theorem reads_cast {a : String} {as : List String} (ha : Reads Neutral a as) :
    Reads Neutral ("cast(" ++ a ++ " as decimal)") as := by
  have has : Separates " as " [.word "as"] := separates_word rfl (by decide)
  have hcast : PlainName "cast" := by decide
  have hdecimal : PlainName "decimal" := by decide
  have h := hcast.reads_call (.neutral has (by decide) ha hdecimal.reads) .blank
  have htext : "cast" ++ ("(" ++ (a ++ (" as " ++ "decimal") ++ (")" ++ "")))
      = "cast(" ++ a ++ " as decimal)" := String.toList_inj.mp (by simp)
  rwa [htext, List.append_nil, List.append_nil] at h

/-- Both sides of an operator. -/
theorem SimpleCondition.reads_operands (c : SimpleCondition)
    (hcolumn : Reads Neutral column []) :
    Reads Neutral (c.operands column).1 [] ∧ ∀ v, Reads Neutral (c.operands column).2 [v] := by
  have hcast : ∀ v, Reads Neutral "cast(? as decimal)" [v] := by
    intro v
    have htext : "cast(" ++ "?" ++ " as decimal)" = "cast(? as decimal)" := by decide
    exact htext ▸ reads_cast (reads_placeholder v)
  unfold operands
  split
  · exact ⟨reads_cast hcolumn, hcast⟩
  · exact ⟨hcolumn, reads_placeholder⟩

section Operators

variable {target placeholder v w : String} {o : Operator}

/-- An operator between its sides. -/
theorem reads_operator (ho : o.takesRange = false) (hbegin : o ≠ .beginOf)
    (htarget : Reads Neutral target []) (hplaceholder : Reads Neutral placeholder [v]) :
    Reads Standing (target ++ " " ++ o.sql ++ " " ++ placeholder) [v] := by
  obtain ⟨st, hs, hst⟩ : ∃ st, Separates (" " ++ o.sql ++ " ") st ∧ Flat joinsTerms st := by
    cases o
    case eq => exact ⟨[.mark "="], separates_of_gap (by decide) (by simp), by decide⟩
    case ne => exact ⟨[.mark "<>"], separates_of_gap (by decide) (by simp), by decide⟩
    case lt => exact ⟨[.mark "<"], separates_of_gap (by decide) (by simp), by decide⟩
    case le => exact ⟨[.mark "<="], separates_of_gap (by decide) (by simp), by decide⟩
    case gt => exact ⟨[.mark ">"], separates_of_gap (by decide) (by simp), by decide⟩
    case ge => exact ⟨[.mark ">="], separates_of_gap (by decide) (by simp), by decide⟩
    case like => exact ⟨[.word "like"], separates_of_gap (by decide) (by simp), by decide⟩
    case notLike =>
      exact ⟨[.word "not", .word "like"], separates_of_gap (by decide) (by simp), by decide⟩
    case isIn => exact ⟨[.word "in"], separates_of_gap (by decide) (by simp), by decide⟩
    case notIn =>
      exact ⟨[.word "not", .word "in"], separates_of_gap (by decide) (by simp), by decide⟩
    case beginOf => exact absurd rfl hbegin
    all_goals cases ho
  have h := Reads.neutral hs hst htarget hplaceholder
  rw [← String.append_assoc, ← String.append_assoc, ← String.append_assoc] at h
  exact h.imp fun _ h => h.standing

/-- A list of one value in parentheses. -/
theorem reads_membership (ho : o = .isIn ∨ o = .notIn) (htarget : Reads Neutral target [])
    (hplaceholder : Reads Neutral placeholder [v]) :
    Reads Standing (target ++ " " ++ o.sql ++ " (" ++ placeholder ++ ")") [v] := by
  obtain ⟨st, hs, hst⟩ : ∃ st, Separates (" " ++ o.sql ++ " (") (st ++ [.mark "("]) ∧
      Flat joinsTerms st := by
    rcases ho with rfl | rfl
    · exact ⟨[.word "in"], separates_of_gap (by decide) (by simp), by decide⟩
    · exact ⟨[.word "not", .word "in"], separates_of_gap (by decide) (by simp), by decide⟩
  have h := Reads.enclose hs hst separates_closing htarget
    (hplaceholder.imp fun _ h => h.level) .blank
  have htext : target ++ ((" " ++ o.sql ++ " (") ++ (placeholder ++ (")" ++ "")))
      = target ++ " " ++ o.sql ++ " (" ++ placeholder ++ ")" := String.toList_inj.mp (by simp)
  rw [htext] at h
  exact h.imp fun _ h => h.standing

/-- A low and a high value. -/
theorem reads_range (ho : o.takesRange = true) (htarget : Reads Neutral target [])
    (hlow : Reads Neutral placeholder [v]) (hhigh : Reads Neutral placeholder [w]) :
    Reads Standing (target ++ " " ++ o.sql ++ " " ++ placeholder ++ " and " ++ placeholder)
      [v, w] := by
  obtain ⟨st, hs, hst⟩ : ∃ st, Separates (" " ++ o.sql ++ " ") (st ++ [.word "between"]) ∧
      Flat joinsTerms st := by
    cases o
    case between => exact ⟨[], separates_of_gap (by decide) (by simp), by decide⟩
    case notBetween => exact ⟨[.word "not"], separates_of_gap (by decide) (by simp), by decide⟩
    all_goals cases ho
  have hand : Separates " and " [.word "and"] := separates_word rfl (by decide)
  have h := Reads.range hs hst hand htarget hlow hhigh
  have htext : target ++ ((" " ++ o.sql ++ " ") ++ (placeholder ++ (" and " ++ placeholder)))
      = target ++ " " ++ o.sql ++ " " ++ placeholder ++ " and " ++ placeholder :=
    String.toList_inj.mp (by simp)
  rwa [htext] at h

end Operators

/-- A text that begins with the literal: its first characters are compared, and it is not empty. -/
theorem reads_beginOf {target : String} (htarget : Reads Neutral target []) (v : String)
    (hd : PlainName d.lengthFunction) :
    Reads Standing ("substr(" ++ target ++ ",1," ++ d.lengthFunction ++ "(?))=? AND "
      ++ d.lengthFunction ++ "(" ++ target ++ ")>0") [v, v] := by
  have hsubstr : PlainName "substr" := by decide
  have hone : Separates ",1," [.mark ",", .number 1, .mark ","] :=
    separates_of_gap (by decide) (by simp)
  have hand : Separates " AND " [.word "AND"] := separates_word rfl (by decide)
  have hequal : bare <$> tokens "=?" = .ok ([.mark "="] ++ [.placeholder none]) := rfl
  have hpositive : bare <$> tokens ">0" = .ok [.mark ">", .number 0] := rfl
  have hcompared : Reads Neutral "=?" [v] := .fixedHole hequal (by decide) (by simp) v
  have hnonzero : Reads Neutral ">0" [] := .fixed hpositive (by decide) (by simp)
  have hlength := hd.reads_call (reads_placeholder v) .blank
  have harguments := Reads.neutral hone (by decide) htarget hlength
  have hfirst := hsubstr.reads_call harguments hcompared
  have hrest := hd.reads_call htarget hnonzero
  have hboth := Reads.both hand (hfirst.imp fun _ h => h.standing)
    (hrest.imp fun _ h => h.standing)
  have htext : "substr" ++ ("(" ++ ((target ++ (",1," ++ (d.lengthFunction ++ ("(" ++ ("?" ++ (")" ++
      "")))))) ++ (")" ++ "=?"))) ++ (" AND " ++ (d.lengthFunction ++ ("(" ++ (target ++ (")" ++
      ">0")))))
      = "substr(" ++ target ++ ",1," ++ d.lengthFunction ++ "(?))=? AND " ++ d.lengthFunction ++ "("
        ++ target ++ ")>0" := String.toList_inj.mp (by simp)
  rwa [htext] at hboth

/-- Every operator is rendered as a text that can stand between ANDs and in parentheses. -/
theorem SimpleCondition.reads_render {c : SimpleCondition} (hfull : c.Full)
    (hcolumn : Reads Neutral column []) (hd : PlainName d.lengthFunction) :
    Reads Standing (c.render column d).sql (c.render column d).binds := by
  obtain ⟨htarget, hplaceholder⟩ := c.reads_operands hcolumn
  obtain ⟨operator, literals, numeric⟩ := c
  unfold SimpleCondition.Full at hfull
  unfold render
  generalize SimpleCondition.operands _ column = operands at htarget hplaceholder
  obtain ⟨target, placeholder⟩ := operands
  cases operator with
  | between | notBetween =>
    obtain ⟨low, high, rfl⟩ := List.length_eq_two.mp hfull
    exact reads_range rfl htarget (hplaceholder low) (hplaceholder high)
  | beginOf =>
    obtain ⟨literal, rfl⟩ := List.length_eq_one_iff.mp hfull
    exact reads_beginOf htarget literal hd
  | isIn =>
    obtain ⟨literal, rfl⟩ := List.length_eq_one_iff.mp hfull
    exact reads_membership (.inl rfl) htarget (hplaceholder literal)
  | notIn =>
    obtain ⟨literal, rfl⟩ := List.length_eq_one_iff.mp hfull
    exact reads_membership (.inr rfl) htarget (hplaceholder literal)
  | _ =>
    obtain ⟨literal, rfl⟩ := List.length_eq_one_iff.mp hfull
    exact reads_operator rfl (by simp) htarget (hplaceholder literal)

/-- Whatever joins the sides of a compound, its parentheses close it. -/
theorem reads_compound {a b : String} {as bs : List String} (connective : Connective)
    (ha : Reads Standing a as) (hb : Reads Standing b bs) :
    Reads Neutral ("( " ++ a ++ " " ++ connective.sql ++ " " ++ b ++ " )") (as ++ bs) := by
  obtain ⟨w, hs⟩ : ∃ w, Separates (" " ++ connective.sql ++ " ") [.word w] := by
    cases connective
    · exact ⟨"OR", separates_word rfl (by decide)⟩
    · exact ⟨"AND", separates_word rfl (by decide)⟩
  have hopening : Separates "( " ([] ++ [.mark "("]) := separates_of_gap (by decide) (by simp)
  have hclosing : Separates " )" [.mark ")"] := separates_of_gap (by decide) (by simp)
  have hsides := Reads.level (p := fun _ => false) hs (.singleton (by simp) (by simp) rfl)
    (ha.imp fun _ h => h.level) (hb.imp fun _ h => h.level)
  have h := Reads.enclose hopening (by decide) hclosing .blank hsides .blank
  have htext : "" ++ ("( " ++ ((a ++ ((" " ++ connective.sql ++ " ") ++ b)) ++ (" )" ++ "")))
      = "( " ++ a ++ " " ++ connective.sql ++ " " ++ b ++ " )" := String.toList_inj.mp (by simp)
  rwa [htext, List.nil_append, List.append_nil] at h

theorem Placed.reads_term {p : Placed} (hfull : p.condition.Full)
    (hcolumn : Reads Neutral p.columnText []) (hd : PlainName d.lengthFunction) :
    Reads Closed (p.term d).render.sql (p.term d).render.binds := by
  obtain ⟨condition, info, role, place⟩ := p
  cases condition with
  | simple c => exact (c.reads_render hfull hcolumn hd).imp fun _ h => h.closed
  | compound connective left right =>
    have h := reads_compound connective (left.reads_render hfull.1 hcolumn hd)
      (right.reads_render hfull.2 hcolumn hd)
    exact h.imp fun _ h => h.standing.closed

end Conditions

/-! ## Joins and filters -/

/-- The names of a layout by which instances are joined. -/
def AttributeJoin.names (j : AttributeJoin) : List String :=
  [j.mapBinding, j.metaBinding, j.metaKey, j.objectTable, j.objectIdColumn, j.mapObjectColumn]

theorem AttributeJoin.reads_joins {j : AttributeJoin} (h : ∀ name ∈ j.names, PlainName name)
    (index : Nat) : ∀ t ∈ j.joins index, Reads Neutral t.render.sql t.render.binds := by
  simp only [names, List.forall_mem_cons] at h
  obtain ⟨hmap, hmeta, hkey, htable, hid, hobject, -⟩ := h
  have hequals : Separates " = " [.mark "="] := separates_of_gap (by decide) (by simp)
  have hjoin : ∀ {a b c d : String}, PlainName a → PlainName b → PlainName c → PlainName d →
      Reads Neutral (a ++ "." ++ b ++ " = " ++ c ++ "." ++ d) [] := by
    intro a b c d ha hb hc hd
    have hcolumns := Reads.neutral hequals (by decide) (ha.reads_column hb) (hc.reads_column hd)
    have htext : a ++ "." ++ b ++ (" = " ++ (c ++ "." ++ d))
        = a ++ "." ++ b ++ " = " ++ c ++ "." ++ d := String.toList_inj.mp (by simp)
    rwa [htext] at hcolumns
  intro t ht
  simp only [joins, List.mem_cons, List.not_mem_nil, or_false] at ht
  rcases ht with rfl | rfl
  · exact hjoin (hmap.instance_ index) hkey (hmeta.instance_ index) hkey
  · exact hjoin htable hid (hmap.instance_ index) hobject

/-- The tables of a chain are named by words, and no quote is in what it quotes. -/
structure GrantChain.Plain (g : GrantChain) : Prop where
  tables : ∀ name ∈ [g.accessTable, g.groupTable, g.userTable, g.tokenTable], PlainName name
  quoted : ∀ text ∈ [g.groupTypeName, g.tokenNamespace, g.readToken], '\'' ∉ text.toList

/-- The parentheses of a filter close it, whatever ANDs are in them. -/
theorem GrantChain.reads_admits {g : GrantChain} (hg : g.Plain) {column : String}
    (hcolumn : Reads Neutral column []) (user zone : String) :
    Reads Neutral (g.admits column) [user, zone] := by
  obtain ⟨htables, hquoted⟩ := hg
  simp only [List.forall_mem_cons] at htables hquoted
  obtain ⟨haccess, hgroup, huser, htoken, -⟩ := htables
  obtain ⟨htype, hnamespace, hread, -⟩ := hquoted
  have hlevel : ∀ {a : String} {as : List String}, Reads Neutral a as → Reads Level a as :=
    fun h => h.imp fun _ h => h.level
  have hin : Separates " in (" ([.word "in"] ++ [.mark "("]) := separates_of_gap (by decide) (by simp)
  have hselect : bare <$> tokens "select object_id" = .ok [.word "select", .word "object_id"] := rfl
  have hnamed : bare <$> tokens "UM.user_name=?"
      = .ok ([.word "UM", .mark ".", .word "user_name", .mark "="] ++ [.placeholder none]) := rfl
  have hzoned : bare <$> tokens "UM.zone_name=?"
      = .ok ([.word "UM", .mark ".", .word "zone_name", .mark "="] ++ [.placeholder none]) := rfl
  have htyped : openingQuotes? "UM.user_type_name!='"
      = some [.word "UM", .mark ".", .word "user_type_name", .mark "!="] := by decide +kernel
  have hspaced : openingQuotes? "TM.token_namespace ='"
      = some [.word "TM", .mark ".", .word "token_namespace", .mark "="] := by decide +kernel
  have hnamedLevel : openingQuotes? "TM.token_name = '"
      = some [.word "TM", .mark ".", .word "token_name", .mark "="] := by decide +kernel
  -- The subquery, from its end: three quoted texts, the caller, the tables.
  have hlast := Reads.gap " and " (by decide +kernel)
    (hlevel (.quoted hspaced (by decide) (by simp) hnamespace))
    (hlevel (.quoted hnamedLevel (by decide) (by simp) hread))
  have hlevels := Reads.gap " and OA.access_type_id >= TM.token_id and " (by decide +kernel)
    (hlevel hcolumn) hlast
  have hgrants := Reads.gap
    " and UM.user_id = UG.user_id and UG.group_user_id = OA.user_id and OA.object_id = "
    (by decide +kernel) (hlevel (.quoted htyped (by decide) (by simp) htype)) hlevels
  have hcaller := Reads.gap " and " (by decide +kernel)
    (hlevel (.fixedHole hnamed (by decide) (by simp) user))
    (.gap " and " (by decide +kernel) (hlevel (.fixedHole hzoned (by decide) (by simp) zone))
      hgrants)
  have htokens := Reads.gap " UM, " (by decide +kernel) (hlevel huser.reads)
    (.gap " TM where " (by decide +kernel) (hlevel htoken.reads) hcaller)
  have htables := Reads.gap " OA, " (by decide +kernel) (hlevel haccess.reads)
    (.gap " UG, " (by decide +kernel) (hlevel hgroup.reads) htokens)
  have hinside := Reads.gap " from " (by decide +kernel)
    (hlevel (.fixed hselect (by decide) (by simp))) htables
  have h := Reads.enclose hin (by decide) separates_closing hcolumn hinside .blank
  have hopening : " in (select object_id from " = " in (" ++ ("select object_id" ++ " from ") := rfl
  have hwhere : " TM where UM.user_name=? and UM.zone_name=? and UM.user_type_name!='"
      = " TM where " ++ ("UM.user_name=?" ++ (" and " ++ ("UM.zone_name=?" ++ (" and "
        ++ "UM.user_type_name!='")))) := rfl
  have hgroups : "' and UM.user_id = UG.user_id and UG.group_user_id = OA.user_id and OA.object_id = "
      = "'" ++ " and UM.user_id = UG.user_id and UG.group_user_id = OA.user_id and OA.object_id = " :=
    rfl
  have hspace : " and OA.access_type_id >= TM.token_id and TM.token_namespace ='"
      = " and OA.access_type_id >= TM.token_id and " ++ "TM.token_namespace ='" := rfl
  have htoken' : "' and TM.token_name = '" = "'" ++ (" and " ++ "TM.token_name = '") := rfl
  have hclosing : "')" = "'" ++ (")" ++ "") := rfl
  unfold GrantChain.admits
  rw [hopening, hwhere, hgroups, hspace, htoken', hclosing]
  simp only [String.append_assoc] at h ⊢
  exact h

/-! ## Terms of a statement -/

/-- The names of the schema are words of SQL that join nothing, and the predicate of each link stands
by itself. -/
structure Schema.Plain (s : Schema) : Prop where
  tables : ∀ t ∈ s.tables, PlainName t.name
  columns : ∀ c ∈ s.columns, PlainName c.name
  links : ∀ l ∈ s.links, standsAlone l.predicate = true
  layouts : ∀ j ∈ s.conventions.attributeJoins, ∀ name ∈ j.names, PlainName name
  guarded : ∀ p ∈ s.conventions.protectedTables, PlainName p.table ∧ PlainName p.idColumn
  chain : s.conventions.grantChain.Plain

section Statements

variable {s : Schema} {caller : Caller} {options : CompileOptions} {dialect : Dialect} {r : Request}
  {d : Draft} {c : Compiled}

theorem Schema.Plain.reads_column (hs : s.Plain) (hd : s.draft caller r = .ok d) {p : Placed}
    (hp : p ∈ d.placed s) : Reads Neutral p.columnText [] := by
  obtain ⟨id, hinfo⟩ := Draft.columnInfo_of_placed hd hp
  obtain ⟨-, htable, column, hcolumn, hname⟩ := Schema.columnInfo?_eq_some hinfo
  have hname : PlainName p.info.name := hname ▸ hs.columns column hcolumn
  rcases Draft.columnText_cases hp with htext | ⟨j, hj, index, htext⟩
  · rw [htext]
    exact (hs.tables _ (List.mem_of_getElem? htable)).reads_column hname
  · have hrows : PlainName j.metaBinding := hs.layouts j hj _ (by simp [AttributeJoin.names])
    rw [htext]
    exact (hrows.instance_ index).reads_column hname

/-- Every term of a draft is closed: conditions, joins of links and of instances, and filters. -/
theorem Schema.Plain.reads_terms (hs : s.Plain) (hdialect : PlainName dialect.lengthFunction)
    (hd : s.draft caller r = .ok d) (links : List LinkId) :
    ∀ t ∈ (d.clauses s dialect caller options links).terms,
      Reads Closed t.render.sql t.render.binds := by
  have hclosed : ∀ {a : String} {as : List String}, Reads Neutral a as → Reads Closed a as :=
    fun h => h.imp fun _ h => h.standing.closed
  intro t ht
  simp only [Draft.terms_clauses, List.mem_append] at ht
  rcases ht with ((ht | ht) | ht) | ht
  · obtain ⟨p, hp, rfl⟩ := List.mem_map.mp ht
    obtain ⟨expression, hparse⟩ := Draft.parsed_of_placed hd hp
    exact p.reads_term (Condition.full_of_parse hparse) (hs.reads_column hd hp) hdialect
  · obtain ⟨l, hl, rfl⟩ := Draft.mem_joinTerms ht
    exact .alone (hs.links l hl)
  · obtain ⟨j, hj, index, ht⟩ := Draft.mem_instance_joins t ht
    exact hclosed (AttributeJoin.reads_joins (hs.layouts j hj) index t ht)
  · obtain ⟨f, hf, rfl⟩ := List.mem_map.mp ht
    unfold Schema.rowFilters at hf
    split at hf
    · obtain ⟨p, hp, rfl⟩ := List.mem_map.mp hf
      obtain ⟨htable, hid⟩ := hs.guarded p (List.mem_of_mem_filter hp)
      exact hclosed (GrantChain.reads_admits hs.chain (htable.reads_column hid) caller.user
        caller.zone)
    · cases hf

/-- What stands behind WHERE in both texts of a compilation is read as the conjunction of its terms: the
conditions at their places, the predicates of the links, the joins of attribute instances and the
filters. The names of the schema have to be words, and the predicate of each link one that can be
joined to others by AND. -/
theorem Schema.where_is_conjunction (hs : s.Plain) (hdialect : PlainName dialect.lengthFunction)
    (h : s.compile dialect caller options r = .ok c) :
    ∃ d links k, s.draft caller r = .ok d ∧ (s.resolve (d.requirements s)).1 = .ok links ∧
      k = d.clauses s dialect caller options links ∧
      c = k.compiled (dialect.offsetSuffix r.offset) r.select ∧
      c.Writes k (k.terms.map (·.render)) ((dialect.offsetSuffix r.offset).getD .blank) ∧
      k.terms = (d.placed s).map (·.term dialect) ++ Draft.joinTerms s links ++
        (instancesOf (d.placed s)).joins ++
        (s.rowFilters (d.selects.map fun c => c.2.tableId) caller options.strict
          options.anonymousUser).map .predicate ∧
      (k.terms ≠ [] → k.whereText = " where " ++ k.condition.sql ∧
        ∃ ls parts, k.condition.lexemes = .ok ls ∧ List.Forall₂ Clauses.IsPart k.terms parts ∧
          Conjunction ls parts) := by
  obtain ⟨d, hd, -, links, hlinks, rfl, -⟩ := compile_eq_ok.mp h
  refine ⟨d, links, _, hd, hlinks, rfl, ?_, Clauses.writes .., rfl,
    fun hne => ⟨Clauses.whereText_eq hne, ?_⟩⟩
  · rw [← Draft.map_selects_of_draft hd]
    rfl
  · exact Clauses.reads_conjunction hne (hs.reads_terms hdialect hd links)

end Statements

/-- Each kind of a term is among those of two labels: a range, a compound in parentheses, a text that
begins with another, a comparison of numbers, a link, an instance and a filter. -/
theorem twoLabels_conjunction : ∃ (k : Clauses) (ls : List Lexeme) (parts : List (List Lexeme)),
    Schema.labelled.compile .postgres ⟨"alice", "north", .localUser⟩ { strict := true } .twoLabels
      = .ok (k.compiled (Dialect.postgres.offsetSuffix Request.twoLabels.offset)
        Request.twoLabels.select) ∧
    k.condition.lexemes = .ok ls ∧ List.Forall₂ Clauses.IsPart k.terms parts ∧
    Conjunction ls parts := by
  have hs : Schema.labelled.Plain := by
    constructor
    case chain => exact ⟨by decide +kernel, by decide +kernel⟩
    all_goals decide +kernel
  obtain ⟨c, hc⟩ := exists_of_isOk (x := Schema.labelled.compile .postgres
    ⟨"alice", "north", .localUser⟩ { strict := true } .twoLabels) (by decide +kernel)
  obtain ⟨d, links, k, -, -, -, rfl, -, -, hread⟩ := Schema.where_is_conjunction hs (by decide) hc
  have hne : k.terms ≠ [] := by
    have hjoins : (fun c => decide (0 < c.joins)) <$> Schema.labelled.compile .postgres
        ⟨"alice", "north", .localUser⟩ { strict := true } .twoLabels = .ok true := by decide +kernel
    rw [hc] at hjoins
    rintro hterms
    simp [Functor.map, Except.map, Clauses.compiled, Clauses.joinCount, hterms] at hjoins
  obtain ⟨-, ls, parts, hls, hparts, hconjunction⟩ := hread hne
  exact ⟨k, ls, parts, hc, hls, hparts, hconjunction⟩

/-! ## Alternatives in links -/

/-- Data with labels, linked by one column or another. -/
def Definition.alternative : Definition where
  limits := {}
  tables := [⟨"data", "", false⟩, ⟨"meta", "", false⟩]
  columns := [⟨⟨1⟩, "data", "name"⟩, ⟨⟨2⟩, "meta", "label"⟩]
  links := [⟨"data", "meta", "data.id = meta.id or data.coll = meta.id"⟩]
  conventions := .blank

def Schema.alternative : Schema where
  limits := {}
  tables := [⟨"data", "data", false⟩, ⟨"meta", "meta", false⟩]
  columns := [⟨⟨1⟩, 0, "name"⟩, ⟨⟨2⟩, 1, "label"⟩]
  links := [⟨0, 1, "data.id = meta.id or data.coll = meta.id"⟩]
  conventions := .blank

/-- The labels of data with some name. -/
def Request.labelsOf (name : String) : Request where
  select := [⟨⟨2⟩, .none, .none⟩]
  conditions := [⟨⟨1⟩, "= '" ++ name ++ "'"⟩]

/-- The clauses of that request: its condition and the link. -/
def Sql.Clauses.labelsOf (name : String) : Clauses where
  select := ["meta.label"]
  sources := ⟨["meta", "data"]⟩
  terms := [.predicate ⟨"data.name = ?", [name]⟩, .join "data.id = meta.id or data.coll = meta.id"]

/-- Data of another name that meet a label in their collection. -/
def Scope.otherName : Scope :=
  [⟨"data", textual ["name"] ++ integers ["id", "coll"], some [.text "run", .int 1, .int 2]⟩,
    ⟨"meta", integers ["id"], some [.int 2]⟩]

/-- A registered link whose predicate has an alternative is no conjunct. The request asks for data of
one name; the whole condition is true of data of another name, of which that term alone is false. -/
theorem Schema.alternative_not_conjunction : Schema.alternative.Registered ∧
    Schema.alternative.validate = .ok () ∧
    Schema.alternative.compile .sqlite ⟨"bob", "north", .localUser⟩ {} (.labelsOf "test")
      = .ok ((Clauses.labelsOf "test").compiled none (Request.labelsOf "test").select) ∧
    ∃ (ls own : List Lexeme) (f g : Formula),
      (Clauses.labelsOf "test").condition.lexemes = .ok ls ∧ wholeCondition ls = .ok f ∧
      Fragment.lexemes ⟨"data.name = ?", ["test"]⟩ = .ok own ∧ wholeCondition own = .ok g ∧
      f.truth (fun _ => none) Scope.otherName = some true ∧
      g.truth (fun _ => none) Scope.otherName = some false := by
  refine ⟨Definition.registered_of_register (d := .alternative) (by decide +kernel),
    by decide +kernel, by decide +kernel, ?_⟩
  have hread : (do
      let ls ← (Clauses.labelsOf "test").condition.lexemes
      let f ← wholeCondition ls
      let own ← Fragment.lexemes ⟨"data.name = ?", ["test"]⟩
      let g ← wholeCondition own
      return (f.truth (fun _ => none) Scope.otherName, g.truth (fun _ => none) Scope.otherName))
      = .ok (some true, some false) := by decide +kernel
  obtain ⟨ls, hls, hread⟩ := bind_eq_ok.mp hread
  obtain ⟨f, hf, hread⟩ := bind_eq_ok.mp hread
  obtain ⟨own, hown, hread⟩ := bind_eq_ok.mp hread
  obtain ⟨g, hg, hread⟩ := bind_eq_ok.mp hread
  obtain ⟨htrue, hfalse⟩ := Prod.mk.inj (Except.ok.inj hread)
  exact ⟨ls, own, f, g, hls, hf, hown, hg, htrue, hfalse⟩

end CatalogQuery
