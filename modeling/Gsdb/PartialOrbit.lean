/-
The orbit of a state under a partial step.  Where the step depends on a finite
view of the state only, the orbit ends unless it comes back to a view.
-/
import Mathlib.Data.Fintype.Pigeonhole
import Mathlib.Data.Nat.Find

namespace PartialOrbit

variable {α β : Type}

/-- The state after a number of steps, as long as there is one. -/
def orbit (step : α → Option α) (start : α) : Nat → Option α
  | 0 => some start
  | n + 1 => (orbit step start n).bind step

/-- The orbit ends. -/
def Halts (step : α → Option α) (start : α) : Prop := ∃ n, orbit step start n = none

/-- Two states of the orbit look the same. -/
def Recurs (step : α → Option α) (view : α → β) (start : α) : Prop :=
  ∃ i j state state', i < j ∧ orbit step start i = some state ∧
    orbit step start j = some state' ∧ view state = view state'

/-- The view of the next state depends on the view of the state. -/
def RespectsView (step : α → Option α) (view : α → β) : Prop :=
  ∀ state state', view state = view state' → (step state).map view = (step state').map view

section Orbit

variable {step : α → Option α} {view : α → β} {start : α}

theorem orbit_none_of_le {n k : Nat} (h : orbit step start n = none) (hle : n ≤ k) :
    orbit step start k = none := by
  induction hle with
  | refl => exact h
  | step _ ih => rw [orbit, ih, Option.bind_none]

theorem orbit_succ {next : α} (h : step start = some next) (n : Nat) :
    orbit step start (n + 1) = orbit step next n := by
  induction n with
  | zero => exact h
  | succ n ih => rw [orbit, ih, orbit]

theorem halts_iff_of_next {next : α} (h : step start = some next) :
    Halts step start ↔ Halts step next := by
  constructor
  · rintro ⟨n, hn⟩
    refine ⟨n, ?_⟩
    rw [← orbit_succ h]
    exact orbit_none_of_le hn (Nat.le_succ n)
  · rintro ⟨n, hn⟩
    exact ⟨n + 1, by rw [orbit_succ h, hn]⟩

/-- From two states that look the same the orbit goes on in the same way. -/
theorem orbit_add_view (hrespects : RespectsView step view) {i j : Nat}
    (h : (orbit step start i).map view = (orbit step start j).map view) (k : Nat) :
    (orbit step start (i + k)).map view = (orbit step start (j + k)).map view := by
  induction k with
  | zero => exact h
  | succ k ih =>
      rw [← Nat.add_assoc, ← Nat.add_assoc, orbit, orbit]
      cases hleft : orbit step start (i + k) with
      | none =>
          rw [hleft] at ih
          rw [Option.map_eq_none_iff.mp ih.symm]
      | some state =>
          rw [hleft] at ih
          obtain ⟨state', hright, hview⟩ := Option.map_eq_some_iff.mp ih.symm
          rw [hright]
          exact hrespects state state' hview.symm

theorem Recurs.not_halts (hrespects : RespectsView step view) (h : Recurs step view start) :
    ¬ Halts step start := by
  intro hhalts
  classical
  obtain ⟨i, j, state, state', hlt, hi, hj, hview⟩ := h
  have hnone := Nat.find_spec hhalts
  have hj_lt : j < Nat.find hhalts := by
    by_contra hle
    rw [orbit_none_of_le hnone (Nat.le_of_not_lt hle)] at hj
    cases hj
  have hsame : (orbit step start i).map view = (orbit step start j).map view := by
    rw [hi, hj, Option.map_some, Option.map_some, hview]
  have hearlier := orbit_add_view hrespects hsame (Nat.find hhalts - j)
  rw [Nat.add_sub_cancel' (Nat.le_of_lt hj_lt), hnone, Option.map_none] at hearlier
  exact Nat.find_min hhalts (show i + (Nat.find hhalts - j) < Nat.find hhalts by omega)
    (Option.map_eq_none_iff.mp hearlier)

theorem recurs_of_not_halts [Finite β] (h : ¬ Halts step start) : Recurs step view start := by
  have hsome : ∀ n, ∃ state, orbit step start n = some state := by
    intro n
    cases hn : orbit step start n with
    | none => exact absurd ⟨n, hn⟩ h
    | some state => exact ⟨state, rfl⟩
  choose states hstates using hsome
  obtain ⟨i, j, hne, hview⟩ := Finite.exists_ne_map_eq_of_infinite fun n => view (states n)
  rcases Nat.lt_or_gt_of_ne hne with hlt | hgt
  · exact ⟨i, j, states i, states j, hlt, hstates i, hstates j, hview⟩
  · exact ⟨j, i, states j, states i, hgt, hstates j, hstates i, hview.symm⟩

/-- An orbit ends exactly if no two of its states look the same. -/
theorem halts_iff_not_recurs [Finite β] (hrespects : RespectsView step view) :
    Halts step start ↔ ¬ Recurs step view start := by
  constructor
  · intro hhalts hrecurs
    exact hrecurs.not_halts hrespects hhalts
  · intro hrecurs
    by_contra hhalts
    exact hrecurs (recurs_of_not_halts hhalts)

end Orbit

end PartialOrbit
