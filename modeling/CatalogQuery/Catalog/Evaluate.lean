import CatalogQuery.Catalog.Scope

/-!
# Meaning of conditions

The value of an operand and the truth of a formula in a scope. Where the row of a source is not chosen
yet the truth may be open; a formula that is false in part of a choice is false in all of it.
-/

namespace CatalogQuery.Sql

/-- The characters of a text from the place `start`, counted from one. -/
def substring (s : List Char) (start count : Int) : List Char :=
  (s.drop (start - 1).toNat).take count.toNat

def integerOf (v : Value) : Int :=
  match v.asNumber with
  | .int n => n
  | .real x => (x.mantissa * twoTo x.exponent.toNat).tdiv (twoTo (-x.exponent).toNat)

def callValue (function : String) (v : Value) : Value :=
  match function with
  | "length" => .int v.chars.length
  | "octet_length" => .int v.shown.utf8ByteSize
  | _ => .null

def callValue₃ (function : String) (a b c : Value) : Value :=
  match function with
  | "substr" => .text (String.ofList (substring a.chars (integerOf b) (integerOf c)))
  | "substring" => .text (String.ofList (substring a.chars (integerOf b) (integerOf c)))
  | _ => .null

/-- The value of an operand, unless a row for it is not chosen yet. -/
def Operand.eval (s : Scope) : Operand → Option Typed
  | column c => s.lookup c
  | number n => some ⟨.int n, .none⟩
  | text t => some ⟨.text t, .none⟩
  | cast a => (a.eval s).map fun t => ⟨.number t.value.asNumber, .numeric⟩
  | call function a => (a.eval s).map fun t => ⟨callValue function t.value, .none⟩
  | call₃ function a b c => do
    let x ← a.eval s
    let y ← b.eval s
    let z ← c.eval s
    return ⟨callValue₃ function x.value y.value z.value, .none⟩

/-- Both sides are true; one that is false decides. -/
def bothTrue (a : Option Bool) (b : Unit → Option Bool) : Option Bool :=
  match a with
  | some false => some false
  | some true => b ()
  | none =>
    match b () with
    | some false => some false
    | _ => none

/-- A side is true; one that is true decides. -/
def eitherTrue (a : Option Bool) (b : Unit → Option Bool) : Option Bool :=
  match a with
  | some true => some true
  | some false => b ()
  | none =>
    match b () with
    | some true => some true
    | _ => none

/-- The tables that a query names. -/
abbrev Tables := String → Option Relation

/-- The source with its rows; an unknown table has none. -/
def Source.entry (tables : Tables) (s : Source) : OpenEntry :=
  ⟨s.binding, (tables s.table).getD ⟨[], []⟩⟩

namespace Formula

/-- The truth of a formula, as far as the chosen rows decide it. -/
def truth (tables : Tables) : Formula → Scope → Option Bool
  | compare c a b, s => do
    let x ← a.eval s
    let y ← b.eval s
    return c.holds x y
  | like negated a pattern, s => do
    let x ← a.eval s
    let p ← pattern.eval s
    return negated != matchesPattern p.value.chars x.value.chars
  | between negated a low high, s => do
    let x ← a.eval s
    let l ← low.eval s
    let h ← high.eval s
    return negated != (Comparison.ge.holds x l && Comparison.le.holds x h)
  | inList negated a items, s => do
    let x ← a.eval s
    let ys ← items.mapM (·.eval s)
    return negated != ys.any fun y => Comparison.eq.holds x ⟨y.value, .none⟩
  | inRows negated a column sources condition, s => do
    let x ← a.eval s
    let found := choices (fun t => truth tables condition t == some false) s []
      (sources.map (·.entry tables))
    return negated != found.any fun t =>
      (t.lookup column).any fun y => Comparison.eq.holds x y
  | and f g, s => bothTrue (truth tables f s) fun _ => truth tables g s
  | or f g, s => eitherTrue (truth tables f s) fun _ => truth tables g s
  | nonzero a, s => do
    let x ← a.eval s
    return !x.value.asNumber.isZero

end Formula

end CatalogQuery.Sql
