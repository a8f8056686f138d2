import CatalogQuery.Sql.Query
import CatalogQuery.Sql.Token

/-!
# Reading statements

Tokens to queries. A statement is cut at the words and marks that stand outside of parentheses: into
its sections, a condition into alternatives at OR and each of these into terms at AND. The AND of a
range belongs to its BETWEEN and cuts nothing. So BETWEEN binds tightest, then AND, then OR.
-/

namespace CatalogQuery.Sql

namespace Reader

/-! ## Cutting -/

/-- The depth in parentheses behind a token. -/
def depthBehind (depth : Nat) : Token → Nat
  | .mark "(" => depth + 1
  | .mark ")" => depth - 1
  | _ => depth

/-- What stands before the first token outside of parentheses of which `p` holds, and the rest. -/
def cutAt (p : Token → Bool) : Nat → List Lexeme → List Lexeme × List Lexeme
  | _, [] => ([], [])
  | depth, l :: ls =>
    if depth = 0 ∧ p l.token then ([], l :: ls)
    else
      let r := cutAt p (depthBehind depth l.token) ls
      (l :: r.1, r.2)

/-- Puts a token in front of the first piece. -/
def glue (l : Lexeme) : List (List Lexeme) → List (List Lexeme)
  | [] => [[l]]
  | piece :: pieces => (l :: piece) :: pieces

/-- The pieces between the tokens outside of parentheses of which `p` holds. -/
def pieces (p : Token → Bool) : Nat → List Lexeme → List (List Lexeme)
  | _, [] => [[]]
  | depth, l :: ls =>
    if depth = 0 ∧ p l.token then [] :: pieces p 0 ls
    else glue l (pieces p (depthBehind depth l.token) ls)

/-- The terms between the ANDs outside of parentheses, except the one behind each BETWEEN. -/
def terms : Nat → Bool → List Lexeme → List (List Lexeme)
  | _, _, [] => [[]]
  | depth, ranged, l :: ls =>
    if depth = 0 ∧ l.token.isWord "and" then
      if ranged then glue l (terms 0 false ls) else [] :: terms 0 false ls
    else if depth = 0 ∧ l.token.isWord "between" then glue l (terms 0 true ls)
    else glue l (terms (depthBehind depth l.token) ranged ls)

/-- What stands before the parenthesis that closes an open one, and what behind it. -/
def closing : Nat → List Lexeme → Option (List Lexeme × List Lexeme)
  | _, [] => none
  | depth, l :: ls =>
    if depth = 0 ∧ l.token = .mark ")" then some ([], ls)
    else (closing (depthBehind depth l.token) ls).map fun r => (l :: r.1, r.2)

/-- The content of parentheses around a whole text. -/
def enclosed? : List Lexeme → Option (List Lexeme)
  | l :: ls =>
    if l.token = .mark "(" then
      match closing 0 ls with
      | some (inside, []) => some inside
      | _ => none
    else none
  | [] => none

/-! ## Expecting -/

/-- The fault of a text that goes on with these tokens, or ends too early. -/
def faultAt : List Lexeme → Fault
  | [] => .incomplete
  | l :: _ => .unexpected l.token.spelling l.place

/-- Takes off a token of which `p` holds. -/
def expect (p : Token → Bool) : List Lexeme → Except Fault (List Lexeme)
  | l :: ls => if p l.token then .ok ls else .error (faultAt (l :: ls))
  | [] => .error .incomplete

def expectMark (s : String) : List Lexeme → Except Fault (List Lexeme) := expect (· == .mark s)

def expectWord (s : String) : List Lexeme → Except Fault (List Lexeme) := expect (·.isWord s)

/-- The value, if nothing is left. -/
def done {α : Type} (r : α × List Lexeme) : Except Fault α :=
  if r.2.isEmpty then .ok r.1 else .error (faultAt r.2)

/-- Words that name nothing. -/
def reserved : List String :=
  ["all", "and", "as", "between", "distinct", "from", "group", "in", "limit", "not", "or", "order",
    "select", "where"]

/-- A name in lower case. -/
def name? (t : Token) : Option String :=
  t.lower?.bind fun s => if reserved.contains s then none else some s

def name : List Lexeme → Except Fault (String × List Lexeme)
  | l :: ls =>
    match name? l.token with
    | some s => .ok (s, ls)
    | none => .error (faultAt (l :: ls))
  | [] => .error .incomplete

/-! ## Operands -/

/-- A column, with or without the binding of its table. -/
def column (ls : List Lexeme) : Except Fault (ColumnRef × List Lexeme) := do
  let (first, r) ← name ls
  match r with
  | l :: r' =>
    if l.token = .mark "." then
      let (second, r') ← name r'
      return (⟨some first, second⟩, r')
    else return (⟨none, first⟩, r)
  | [] => return (⟨none, first⟩, [])

/-- The operand at the beginning of a text. -/
def operand : Nat → List Lexeme → Except Fault (Operand × List Lexeme)
  | 0, ls => .error (faultAt ls)
  | _, [] => .error .incomplete
  | fuel + 1, l :: r =>
    match l.token with
    | .quoted s => .ok (.text s, r)
    | .bound s => .ok (.text s, r)
    | .number n => .ok (.number n, r)
    | .mark "(" => do
      let (a, r) ← operand fuel r
      return (a, ← expectMark ")" r)
    | .word _ =>
      match r with
      | ⟨.mark "(", _⟩ :: r' => do
        let (function, _) ← name [l]
        let (a, r') ← operand fuel r'
        if function = "cast" then
          let (_, r') ← name (← expectWord "as" r')
          return (.cast a, ← expectMark ")" r')
        else
          match expectMark "," r' with
          | .error _ => return (.call function a, ← expectMark ")" r')
          | .ok r' =>
            let (b, r') ← operand fuel r'
            let (c, r') ← operand fuel (← expectMark "," r')
            return (.call₃ function a b c, ← expectMark ")" r')
      | _ => do
        let (c, r) ← column (l :: r)
        return (.column c, r)
    | _ => .error (faultAt (l :: r))

/-- A whole text as an operand. -/
def wholeOperand (ls : List Lexeme) : Except Fault Operand := do
  done (← operand ls.length ls)

/-! ## Sections -/

/-- The sections of a query, each without its word. -/
structure Sections where
  distinct : Bool
  outputs : List Lexeme
  sources : List Lexeme
  condition : Option (List Lexeme)
  groupBy : Option (List Lexeme)
  orderBy : Option (List Lexeme)
  limit : Option (List Lexeme)

/-- A section that begins with `words`, up to one of the words `next`. -/
def section? (words next : List String) (ls : List Lexeme) :
    Except Fault (Option (List Lexeme) × List Lexeme) :=
  match words, ls with
  | word :: more, l :: r =>
    if l.token.isWord word then do
      let r ← more.foldlM (fun r w => expectWord w r) r
      let cut := cutAt (fun t => next.any t.isWord) 0 r
      return (some cut.1, cut.2)
    else return (none, ls)
  | _, _ => return (none, ls)

def sections (ls : List Lexeme) : Except Fault Sections := do
  let r ← expectWord "select" ls
  let (distinct, r) := match expectWord "distinct" r with
    | .ok r => (true, r)
    | .error _ => (false, r)
  let (outputs, r) := cutAt (·.isWord "from") 0 r
  let r ← expectWord "from" r
  let (sources, r) := cutAt (fun t => ["where", "group", "order", "limit"].any t.isWord) 0 r
  let (condition, r) ← section? ["where"] ["group", "order", "limit"] r
  let (groupBy, r) ← section? ["group", "by"] ["order", "limit"] r
  let (orderBy, r) ← section? ["order", "by"] ["limit"] r
  let (limit, r) ← section? ["limit"] [] r
  done (⟨distinct, outputs, sources, condition, groupBy, orderBy, limit⟩, r)

/-- An entry of FROM; without a binding of its own it binds its table's name. -/
def source (ls : List Lexeme) : Except Fault Source := do
  let (table, r) ← name ls
  if r.isEmpty then return ⟨table, table⟩
  let r := match expectWord "as" r with
    | .ok r => r
    | .error _ => r
  let (binding, r) ← name r
  done (⟨table, binding⟩, r)

def commaSeparated {α : Type} (item : List Lexeme → Except Fault α) (ls : List Lexeme) :
    Except Fault (List α) :=
  (pieces (· == .mark ",") 0 ls).mapM item

def wholeColumn (ls : List Lexeme) : Except Fault ColumnRef := do done (← column ls)

/-! ## Conditions -/

def comparison? : Token → Option Comparison
  | .mark s =>
    match s with
    | "=" => some .eq
    | "==" => some .eq
    | "<>" => some .ne
    | "!=" => some .ne
    | "<" => some .lt
    | "<=" => some .le
    | ">" => some .gt
    | ">=" => some .ge
    | _ => none
  | _ => none

/-- The content behind IN: a query of one column, or operands. -/
def membership (condition : List Lexeme → Except Fault Formula) (negated : Bool) (a : Operand)
    (inside : List Lexeme) : Except Fault Formula :=
  match expectWord "select" inside with
  | .error _ => do return .inList negated a (← commaSeparated wholeOperand inside)
  | .ok _ => do
    let s ← sections inside
    let column ← wholeColumn s.outputs
    let sources ← commaSeparated source s.sources
    return .inRows negated a column sources (← condition (s.condition.getD []))

/-- What is said of an operand. -/
def predicate (condition : List Lexeme → Except Fault Formula) (a : Operand) (ls : List Lexeme) :
    Except Fault Formula :=
  match ls with
  | [] => .ok (.nonzero a)
  | l :: r =>
    match comparison? l.token with
    | some c => do return .compare c a (← wholeOperand r)
    | none => do
      let (negated, r) := if l.token.isWord "not" then (true, r) else (false, l :: r)
      match r with
      | [] => .error .incomplete
      | l :: r =>
        if l.token.isWord "like" then return .like negated a (← wholeOperand r)
        else if l.token.isWord "between" then
          let (low, r) ← operand r.length r
          return .between negated a low (← wholeOperand (← expectWord "and" r))
        else if l.token.isWord "in" then
          match enclosed? r with
          | some inside => membership condition negated a inside
          | none => .error (faultAt r)
        else .error (faultAt (l :: r))

/-- One term: a condition in parentheses, or an operand with what is said of it. -/
def term (condition : List Lexeme → Except Fault Formula) (ls : List Lexeme) :
    Except Fault Formula :=
  match enclosed? ls with
  | some inside => condition inside
  | none => do
    let (a, r) ← operand ls.length ls
    predicate condition a r

/-- Joins the parts of a condition. -/
def joined (join : Formula → Formula → Formula) : List Formula → Except Fault Formula
  | [] => .error .incomplete
  | f :: fs => .ok (fs.foldl join f)

/-- A condition in at most `fuel` parentheses. -/
def condition : Nat → List Lexeme → Except Fault Formula
  | 0, ls => .error (faultAt ls)
  | fuel + 1, ls => do
    let alternatives ← (pieces (·.isWord "or") 0 ls).mapM fun alternative => do
      joined .and (← (terms 0 false alternative).mapM (term (condition fuel)))
    joined .or alternatives

/-- A whole text as a condition. -/
def wholeCondition (ls : List Lexeme) : Except Fault Formula := condition (ls.length + 1) ls

/-! ## Statements -/

def aggregate? (s : String) : Option Aggregate :=
  match s with
  | "min" => some .min
  | "max" => some .max
  | "sum" => some .sum
  | "avg" => some .avg
  | "count" => some .count
  | _ => none

def output (ls : List Lexeme) : Except Fault Output :=
  match ls with
  | l :: ⟨.mark "(", _⟩ :: r => do
    let (function, _) ← name [l]
    match aggregate? function with
    | none => .error (.noFunction l.token.spelling l.place)
    | some f =>
      match r with
      | [⟨.mark "*", _⟩, ⟨.mark ")", _⟩] => return .countRows
      | _ =>
        let (c, r) ← column r
        done (.aggregate f c, ← expectMark ")" r)
  | _ => do return .column (← wholeColumn ls)

def sortKey (ls : List Lexeme) : Except Fault SortKey := do
  let (c, r) ← column ls
  match expectWord "desc" r with
  | .ok r => done (⟨c, true⟩, r)
  | .error _ => done (⟨c, false⟩, r)

def integer (ls : List Lexeme) : Except Fault (Int × List Lexeme) :=
  match ls with
  | ⟨.number n, _⟩ :: r => .ok (n, r)
  | ⟨.mark "-", _⟩ :: ⟨.number n, _⟩ :: r => .ok (-(n : Int), r)
  | ⟨.mark "-", _⟩ :: r => .error (faultAt r)
  | _ => .error (faultAt ls)

def limit (ls : List Lexeme) : Except Fault (Int × Int) := do
  let (offset, r) ← integer ls
  let (count, r) ← integer (← expectMark "," r)
  done ((offset, count), r)

/-- Reads a part where there is one. -/
def optional {α : Type} (item : List Lexeme → Except Fault α) :
    Option (List Lexeme) → Except Fault (Option α)
  | none => .ok none
  | some ls => (item ls).map some

def query (s : Sections) : Except Fault Query := do
  let outputs ← commaSeparated output s.outputs
  let sources ← commaSeparated source s.sources
  let condition ← optional wholeCondition s.condition
  let groupBy ← optional (commaSeparated wholeColumn) s.groupBy
  let orderBy ← optional (commaSeparated sortKey) s.orderBy
  let limit ← optional limit s.limit
  return ⟨s.distinct, outputs, sources, condition, groupBy.getD [], orderBy.getD [], limit⟩

/-- A query, or the count of the rows of a query in parentheses. -/
def statement (ls : List Lexeme) : Except Fault Statement := do
  let s ← sections ls
  match s.sources with
  | ⟨.mark "(", _⟩ :: r =>
    match closing 0 r with
    | none => .error .incomplete
    | some (inside, r) =>
      match ← commaSeparated output s.outputs with
      | [.countRows] =>
        discard (done (← name r))
        return .count (← query (← sections inside))
      | _ => .error (faultAt s.sources)
  | _ => return .rows (← query s)

end Reader

/-- Reads the tokens of a statement whose placeholders have their values. -/
def Statement.read (ls : List Lexeme) : Except Fault Statement := Reader.statement ls

/-- Reads a fragment as a condition. -/
def Formula.read (sql : String) (binds : List String) : Except Fault Formula := do
  Reader.wholeCondition (fill binds 0 (← tokens sql))

end CatalogQuery.Sql
