import CatalogQuery.Schema.Basic

/-!
# Required tables

The tables that one compilation has to join, in the order in which they were first asked for. Each
gets a letter by its place in that order, and `pending` counts those not reached yet.
-/

namespace CatalogQuery

structure Requirements where
  /-- Without repetition, in the order of the first request. -/
  tables : List TableId
  pending : Nat
  deriving DecidableEq, Repr

namespace Requirements

def empty : Requirements := ⟨[], 0⟩

def contains (r : Requirements) (t : TableId) : Bool := r.tables.contains t

/-- Asks for a table. -/
def require (r : Requirements) (t : TableId) : Requirements :=
  if r.contains t then r else ⟨r.tables ++ [t], r.pending + 1⟩

/-- The letter of a place: `a` to `z`, then `A` to `Z`, then again. -/
def letterAt (place : Nat) : Char :=
  let k := place % 52
  if k < 26 then Char.ofNat (97 + k) else Char.ofNat (39 + k)

/-- The letter of a required table. -/
def letter? (r : Requirements) (t : TableId) : Option Char :=
  (r.tables.findIdx? (· == t)).map letterAt

@[simp] theorem contains_require (r : Requirements) (t : TableId) :
    (r.require t).contains t = true := by
  unfold require
  split
  · assumption
  · simp [contains]

theorem nodup_require {r : Requirements} (h : r.tables.Nodup) (t : TableId) :
    (r.require t).tables.Nodup := by
  by_cases ht : r.contains t = true
  · simpa [require, ht] using h
  · have : t ∉ r.tables := by simpa [contains] using ht
    simp only [require, ht]
    exact List.nodup_append.mpr ⟨h, by simp, fun a ha b hb => by
      simp only [List.mem_singleton] at hb
      exact fun e => this (hb ▸ e ▸ ha)⟩

end Requirements

end CatalogQuery
