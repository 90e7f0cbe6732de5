/-
Ranges of positions that lie one behind the other.  A tiling of a range holds every
position of it in exactly one of its intervals.
-/
import Mathlib.Data.List.Chain

namespace IntervalTiling

/-- The positions from a start on. -/
structure Interval where
  start : Nat
  size : Nat
deriving DecidableEq, Repr

def Interval.stop (interval : Interval) : Nat := interval.start + interval.size

def Interval.Holds (interval : Interval) (position : Nat) : Prop :=
  interval.start ≤ position ∧ position < interval.stop

/-- One interval starts where the other one stops. -/
def Interval.Adjoins (left right : Interval) : Prop := right.start = left.stop

/-- Intervals that are not empty, from one position up to another one. -/
inductive TilesRange : Nat → Nat → List Interval → Prop where
  | nil {position : Nat} : TilesRange position position []
  | cons {interval : Interval} {intervals : List Interval} {stop : Nat}
      (hsize : 0 < interval.size) (hrest : TilesRange interval.stop stop intervals) :
      TilesRange interval.start stop (interval :: intervals)

namespace TilesRange

variable {start stop : Nat} {intervals : List Interval}

theorem start_le (h : TilesRange start stop intervals) : start ≤ stop := by
  induction h with
  | nil => exact Nat.le_refl _
  | cons hsize hrest ih => exact Nat.le_trans (Nat.le_add_right _ _) ih

theorem nonempty (h : TilesRange start stop intervals) :
    ∀ interval ∈ intervals, 0 < interval.size := by
  induction h with
  | nil => simp
  | cons hsize hrest ih =>
      intro interval hmem
      rcases List.mem_cons.mp hmem with rfl | hmem
      · exact hsize
      · exact ih interval hmem

/-- The first interval starts where the range does. -/
theorem head_start {interval : Interval} (h : TilesRange start stop (interval :: intervals)) :
    interval.start = start := by
  cases h
  rfl

theorem adjoining (h : TilesRange start stop intervals) :
    intervals.IsChain Interval.Adjoins := by
  induction h with
  | nil => exact .nil
  | @cons interval intervals stop hsize hrest ih =>
      cases intervals with
      | nil => exact .singleton interval
      | cons next rest => exact .cons_cons hrest.head_start ih

/-- A position is in one of the intervals exactly if it is in the range. -/
theorem holds_iff (h : TilesRange start stop intervals) (position : Nat) :
    (∃ interval ∈ intervals, interval.Holds position) ↔ start ≤ position ∧ position < stop := by
  induction h with
  | nil => simp
  | @cons interval intervals stop hsize hrest ih =>
      have hle := hrest.start_le
      rw [List.exists_mem_cons_iff, ih, Interval.Holds]
      simp only [Interval.stop] at hle ⊢
      omega

end TilesRange

end IntervalTiling
