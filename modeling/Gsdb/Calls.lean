/-
A thread as a stack of calls: where it executes, and where each call it is in
returns to.  Between two arrivals at an address it calls, returns and jumps as it
likes; the calls that were active at the start stay below those it makes.
-/
import Mathlib.Data.List.Basic

namespace Gsdb

/-- The address that is executed next, and the return addresses of the active calls,
the innermost first. -/
structure CallState (α : Type) where
  pc : α
  returns : List α
deriving DecidableEq, Repr

/-- What an instruction does to the calls. -/
inductive CallStep (α : Type) where
  | call (target returnAddress : α)
  | ret
  | jump (target : α)
deriving DecidableEq, Repr

namespace CallStep

variable {α : Type}

def isCall : CallStep α → Bool
  | .call _ _ => true
  | _ => false

def isRet : CallStep α → Bool
  | .ret => true
  | _ => false

end CallStep

namespace CallState

variable {α : Type}

/-- A step; a return needs an active call. -/
def step (c : CallState α) : CallStep α → Option (CallState α)
  | .call target returnAddress => some ⟨target, returnAddress :: c.returns⟩
  | .ret =>
      match c.returns with
      | [] => none
      | returnAddress :: outer => some ⟨returnAddress, outer⟩
  | .jump target => some ⟨target, c.returns⟩

def run : CallState α → List (CallStep α) → Option (CallState α)
  | c, [] => some c
  | c, s :: steps => (c.step s).bind fun c' => c'.run steps

/-- The states in which a thread has just got to an address, in order. -/
def arrivals [DecidableEq α] (address : α) : CallState α → List (CallStep α) → List (CallState α)
  | _, [] => []
  | c, s :: steps =>
      match c.step s with
      | none => []
      | some c' =>
          if c'.pc = address then c' :: c'.arrivals address steps else c'.arrivals address steps

/-- The steps take a thread to an address for the first time after the start. -/
structure GetsTo (address : α) (c : CallState α) (steps : List (CallStep α))
    (c' : CallState α) : Prop where
  run : c.run steps = some c'
  moves : steps ≠ []
  arrives : c'.pc = address
  first : ∀ before, before <+: steps → before ≠ [] → ∀ s, c.run before = some s →
    s.pc = address → before = steps

/-- Until a thread first gets to an address, it returns more often than it calls. -/
def LeavesFirst (address : α) (c : CallState α) (future : List (CallStep α)) : Prop :=
  ∀ steps c', steps <+: future → c.GetsTo address steps c' →
    steps.countP CallStep.isCall < steps.countP CallStep.isRet

section Run

variable {c c' last : CallState α} {s : CallStep α} {steps : List (CallStep α)} {address : α}

theorem run_cons_eq_some :
    c.run (s :: steps) = some last ↔ ∃ c', c.step s = some c' ∧ c'.run steps = some last := by
  rw [run, Option.bind_eq_some_iff]

/-- One step changes the number of calls by what it does. -/
theorem step_depth (h : c.step s = some c') :
    c'.returns.length + [s].countP CallStep.isRet =
      c.returns.length + [s].countP CallStep.isCall := by
  cases s with
  | call target returnAddress =>
      cases h
      rfl
  | ret =>
      rw [step] at h
      split at h
      · cases h
      · rename_i returnAddress outer hreturns
        cases h
        rw [hreturns]
        rfl
  | jump target =>
      cases h
      rfl

/-- A run changes it by the calls it makes and the returns. -/
theorem run_depth (h : c.run steps = some last) :
    last.returns.length + steps.countP CallStep.isRet =
      c.returns.length + steps.countP CallStep.isCall := by
  induction steps generalizing c with
  | nil =>
      cases h
      rfl
  | cons s steps ih =>
      obtain ⟨c', hstep, hrest⟩ := run_cons_eq_some.mp h
      have hone := step_depth hstep
      have hmore := ih hrest
      have hret : (s :: steps).countP CallStep.isRet =
          [s].countP CallStep.isRet + steps.countP CallStep.isRet := by
        rw [← List.countP_append, List.singleton_append]
      have hcall : (s :: steps).countP CallStep.isCall =
          [s].countP CallStep.isCall + steps.countP CallStep.isCall := by
        rw [← List.countP_append, List.singleton_append]
      omega

/-- A step from inside a call stays inside, or is the return of the call. -/
theorem step_inside {deeper outer : List α} {returnAddress : α}
    (hinside : c.returns = deeper ++ returnAddress :: outer) (h : c.step s = some c') :
    (∃ deeper', c'.returns = deeper' ++ returnAddress :: outer) ∨
      c' = ⟨returnAddress, outer⟩ := by
  cases s with
  | call target other =>
      cases h
      exact .inl ⟨other :: deeper, congrArg (other :: ·) hinside⟩
  | ret =>
      rw [step, hinside] at h
      cases deeper with
      | nil =>
          cases h
          exact .inr rfl
      | cons other deeper =>
          cases h
          exact .inl ⟨deeper, rfl⟩
  | jump target =>
      cases h
      exact .inl ⟨deeper, hinside⟩

/-- A run from inside a call stays inside, or some part of it ends with the return. -/
theorem run_inside {deeper outer : List α} {returnAddress : α}
    (hinside : c.returns = deeper ++ returnAddress :: outer) (h : c.run steps = some last) :
    (∃ deeper', last.returns = deeper' ++ returnAddress :: outer) ∨
      ∃ before, before <+: steps ∧ before ≠ [] ∧ c.run before = some ⟨returnAddress, outer⟩ := by
  induction steps generalizing c deeper with
  | nil =>
      cases h
      exact .inl ⟨deeper, hinside⟩
  | cons s steps ih =>
      obtain ⟨c', hstep, hrest⟩ := run_cons_eq_some.mp h
      rcases step_inside hinside hstep with ⟨deeper', hstill⟩ | rfl
      · rcases ih hstill hrest with hlast | ⟨before, hbegins, -, hreturn⟩
        · exact .inl hlast
        · refine .inr ⟨s :: before, List.prefix_cons_inj s |>.mpr hbegins, List.cons_ne_nil _ _, ?_⟩
          exact run_cons_eq_some.mpr ⟨c', hstep, hreturn⟩
      · refine .inr ⟨[s], ⟨steps, rfl⟩, List.cons_ne_nil _ _, ?_⟩
        exact run_cons_eq_some.mpr ⟨_, hstep, rfl⟩

/-- When a thread first gets to the return address of the call it is in, it is still
inside the call, or has just returned from it. -/
theorem GetsTo.inside_or_returned {outer : List α} (hreturns : c.returns = address :: outer)
    (h : c.GetsTo address steps last) :
    (∃ deeper, last.returns = deeper ++ c.returns) ∨ last = ⟨address, outer⟩ := by
  have hstart : c.returns = [] ++ address :: outer := hreturns
  rcases run_inside hstart h.run with hinside | ⟨before, hbegins, hmoves, hrun⟩
  · rw [hreturns]
    exact .inl hinside
  · obtain rfl := h.first before hbegins hmoves _ hrun rfl
    exact .inr (Option.some.inj (h.run.symm.trans hrun))

/-- It returned more often than it called exactly when it has just returned. -/
theorem GetsTo.leaves_iff {outer : List α} (hreturns : c.returns = address :: outer)
    (h : c.GetsTo address steps last) :
    steps.countP CallStep.isCall < steps.countP CallStep.isRet ↔ last = ⟨address, outer⟩ := by
  have hdepth := run_depth h.run
  constructor
  · intro hmore
    rcases h.inside_or_returned hreturns with ⟨deeper, hinside⟩ | hreturned
    · rw [hinside, List.length_append] at hdepth
      omega
    · exact hreturned
  · rintro rfl
    rw [hreturns, List.length_cons] at hdepth
    change outer.length + _ = _ at hdepth
    omega

end Run

section Arrivals

variable [DecidableEq α] {c c' : CallState α} {steps future : List (CallStep α)} {address : α}

/-- A run that gets to the address for the first time ends in the first arrival. -/
theorem GetsTo.head_arrivals (hbegins : steps <+: future) (h : c.GetsTo address steps c') :
    ∃ later, c.arrivals address future = c' :: later := by
  induction future generalizing c steps with
  | nil => exact absurd (List.prefix_nil.mp hbegins) h.moves
  | cons s future ih =>
      obtain ⟨s', rest, rfl⟩ := List.exists_cons_of_ne_nil h.moves
      obtain ⟨rfl, hrest⟩ := List.cons_prefix_cons.mp hbegins
      obtain ⟨c₁, hstep, hrun⟩ := run_cons_eq_some.mp h.run
      rw [arrivals, hstep]
      by_cases hpc : c₁.pc = address
      · have hwhole := h.first [s'] ⟨rest, rfl⟩ (List.cons_ne_nil _ _) c₁
          (run_cons_eq_some.mpr ⟨c₁, hstep, rfl⟩) hpc
        obtain rfl : [] = rest := (List.cons.inj hwhole).2
        cases hrun
        exact ⟨_, if_pos hpc⟩
      · have hmoves : rest ≠ [] := by
          rintro rfl
          cases hrun
          exact hpc h.arrives
        refine (ih hrest ⟨hrun, hmoves, h.arrives, ?_⟩).imp fun later hlater => ?_
        · intro before hbefore hnonempty s₁ hs₁ hat
          have hlonger := h.first (s' :: before) ((List.prefix_cons_inj s').mpr hbefore)
            (List.cons_ne_nil _ _) s₁ (run_cons_eq_some.mpr ⟨c₁, hstep, hs₁⟩) hat
          exact (List.cons.inj hlonger).2
        · exact (if_neg hpc).trans hlater

/-- The first arrival is where a part of the run gets to the address. -/
theorem exists_getsTo {later : List (CallState α)}
    (h : c.arrivals address future = c' :: later) :
    ∃ steps, steps <+: future ∧ c.GetsTo address steps c' := by
  induction future generalizing c with
  | nil => cases h
  | cons s future ih =>
      rw [arrivals] at h
      split at h
      · cases h
      · rename_i c₁ hstep
        split at h
        · rename_i hpc
          cases h
          refine ⟨[s], ⟨future, rfl⟩, run_cons_eq_some.mpr ⟨_, hstep, rfl⟩, List.cons_ne_nil _ _,
            hpc, fun before hbefore hmoves _ _ _ => ?_⟩
          exact hbefore.eq_of_length_le (List.length_pos_iff.mpr hmoves)
        · rename_i hpc
          obtain ⟨steps, hbegins, hgets⟩ := ih h
          refine ⟨s :: steps, (List.prefix_cons_inj s).mpr hbegins,
            run_cons_eq_some.mpr ⟨c₁, hstep, hgets.run⟩, List.cons_ne_nil _ _, hgets.arrives, ?_⟩
          intro before hbefore hmoves s₁ hs₁ hat
          obtain ⟨s', rest, rfl⟩ := List.exists_cons_of_ne_nil hmoves
          obtain ⟨rfl, hrest⟩ := List.cons_prefix_cons.mp hbefore
          obtain ⟨c₂, hstep', hrun⟩ := run_cons_eq_some.mp hs₁
          obtain rfl := Option.some.inj (hstep.symm.trans hstep')
          have hnonempty : rest ≠ [] := by
            rintro rfl
            cases hrun
            exact hpc hat
          exact congrArg (s' :: ·) (hgets.first rest hrest hnonempty s₁ hrun hat)

end Arrivals

end CallState

end Gsdb
