/-
Parties that take their steps in any order.  A schedule names whose step comes next; a party
that cannot take a step is not scheduled.
-/
import Mathlib.Data.List.Basic

namespace Interleaving

variable {ρ σ : Type}

/-- The step of each party, where it can take one. -/
abbrev System (ρ σ : Type) := ρ → σ → Option σ

/-- The state behind a schedule, if every step of it can be taken. -/
def run (step : System ρ σ) : List ρ → σ → Option σ
  | [], s => some s
  | party :: rest, s => (step party s).bind (run step rest)

/-- No party can take a step. -/
def Ended (step : System ρ σ) (s : σ) : Prop := ∀ party, step party s = none

section Runs

variable {step : System ρ σ} {s s' : σ}

theorem run_append {first second : List ρ} :
    run step (first ++ second) s = (run step first s).bind (run step second) := by
  induction first generalizing s with
  | nil => rfl
  | cons party rest ih =>
      rw [List.cons_append, run, run]
      cases step party s with
      | none => rfl
      | some next => exact ih

/-- What every step keeps, every schedule keeps. -/
theorem run_keeps (I : σ → Prop) (hstep : ∀ party s next, I s → step party s = some next → I next)
    {schedule : List ρ} (hs : I s) (hrun : run step schedule s = some s') : I s' := by
  induction schedule generalizing s with
  | nil =>
      cases hrun
      exact hs
  | cons party rest ih =>
      obtain ⟨next, hnext, hrest⟩ := Option.bind_eq_some_iff.mp hrun
      exact ih (hstep party s next hs hnext) hrest

/-- Each step uses up some of a measure. -/
theorem length_le_measure (measure : σ → Nat)
    (hstep : ∀ party s next, step party s = some next → measure next < measure s)
    {schedule : List ρ} (hrun : run step schedule s = some s') :
    schedule.length + measure s' ≤ measure s := by
  induction schedule generalizing s with
  | nil =>
      cases hrun
      exact Nat.le_of_eq (Nat.zero_add _)
  | cons party rest ih =>
      obtain ⟨next, hnext, hrest⟩ := Option.bind_eq_some_iff.mp hrun
      have hless := hstep party s next hnext
      have hmore := ih hrest
      rw [List.length_cons]
      omega

/-- Where a measure decreases, every state leads to an end. -/
theorem leads_to_end (measure : σ → Nat)
    (hstep : ∀ party s next, step party s = some next → measure next < measure s) (s : σ) :
    ∃ schedule last, run step schedule s = some last ∧ Ended step last := by
  induction hmeasure : measure s using Nat.strongRecOn generalizing s with
  | ind n ih =>
      by_cases hended : Ended step s
      · exact ⟨[], s, rfl, hended⟩
      obtain ⟨party, hparty⟩ := not_forall.mp hended
      obtain ⟨next, hnext⟩ := Option.ne_none_iff_exists'.mp hparty
      obtain ⟨schedule, last, hrun, hlast⟩ :=
        ih (measure next) (hmeasure ▸ hstep party s next hnext) next rfl
      refine ⟨party :: schedule, last, ?_, hlast⟩
      rw [run, hnext]
      exact hrun

end Runs

end Interleaving
