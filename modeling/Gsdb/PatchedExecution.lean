/-
Instructions over a memory in which some bytes are covered by another one.  As long as no
instruction looks at a covered byte, an execution over the covered memory is one over the memory
below, and it executes at no covered address.
-/
import Gsdb.ByteMemory

namespace PatchedExecution

open ByteMemory

universe u

/-- What instructions do: where the next one is, and the states that one of them can lead to. -/
structure Instructions (R : Type u) (w : Nat) where
  pc : R → BitVec w
  step : R × Memory w → R × Memory w → Prop

section Paths

variable {R : Type u} {w : Nat}

/-- A number of instructions one after the other, each from a state that is allowed. -/
inductive Path (I : Instructions R w) (allowed : R × Memory w → Prop) (start : R × Memory w) :
    Nat → R × Memory w → Prop where
  | start : Path I allowed start 0 start
  | step {n : Nat} {s t : R × Memory w} (before : Path I allowed start n s) (here : allowed s)
      (next : I.step s t) : Path I allowed start (n + 1) t

variable {I : Instructions R w} {allowed other : R × Memory w → Prop} {s t u : R × Memory w}
  {n k : Nat}

theorem Path.mono (h : Path I allowed s n t) (himp : ∀ x, allowed x → other x) :
    Path I other s n t := by
  induction h with
  | start => exact .start
  | step before here next ih => exact .step ih (himp _ here) next

theorem Path.trans (h : Path I allowed s n t) (h' : Path I allowed t k u) :
    Path I allowed s (n + k) u := by
  induction h' with
  | start => exact h
  | step before here next ih => exact .step ih here next

theorem Path.eq_of_zero (h : Path I allowed s 0 t) : t = s := by
  cases h
  rfl

/-- Every state that is reached. -/
def Reaches (I : Instructions R w) (s t : R × Memory w) : Prop :=
  ∃ n, Path I (fun _ => True) s n t

theorem Reaches.refl (s : R × Memory w) : Reaches I s s := ⟨0, .start⟩

theorem Reaches.trans (h : Reaches I s t) (h' : Reaches I t u) : Reaches I s u := by
  obtain ⟨k, hpath⟩ := h
  obtain ⟨n, hpath'⟩ := h'
  exact ⟨k + n, hpath.trans hpath'⟩

theorem Reaches.path (h : Reaches I s t) (h' : Path I allowed t n u) : Reaches I s u :=
  h.trans ⟨n, h'.mono fun _ _ => trivial⟩

end Paths

section Patches

variable {R : Type u} {w : Nat} (covered : BitVec w → Prop) [DecidablePred covered]

/-- The memory with a byte over the covered addresses. -/
def patch (trap : Byte) (memory : Memory w) : Memory w := fun a =>
  if covered a then trap else memory a

/-- The memory with what another one has at the covered addresses. -/
def unpatch (below memory : Memory w) : Memory w := fun a =>
  if covered a then below a else memory a

theorem unpatch_unpatch (below middle memory : Memory w) :
    unpatch covered (unpatch covered below middle) memory = unpatch covered below memory := by
  funext a
  by_cases h : covered a <;> simp [unpatch, h]

theorem unpatch_patch (trap : Byte) (memory : Memory w) :
    unpatch covered memory (patch covered trap memory) = memory := by
  funext a
  by_cases h : covered a <;> simp [unpatch, patch, h]

/-- The instruction at a state does not look at the covered bytes: over the covered memory it
leaves them as they are and otherwise does what it does over the memory itself. -/
def Undisturbed (I : Instructions R w) (trap : Byte) (s : R × Memory w) : Prop :=
  ¬ covered (I.pc s.1) → ∀ t, I.step (s.1, patch covered trap s.2) t →
    t.2 = patch covered trap (unpatch covered s.2 t.2) ∧
      I.step s (t.1, unpatch covered s.2 t.2)

variable {covered} {I : Instructions R w} {trap : Byte} {r : R} {memory : Memory w}
  {t : R × Memory w} {n : Nat}

/-- An execution that meets no trap over the covered memory is one over the memory itself that
stays away from the covered addresses. -/
theorem Path.unpatched (hquiet : ∀ s, Reaches I (r, memory) s → Undisturbed covered I trap s)
    (h : Path I (fun s => s.2 (I.pc s.1) ≠ trap) (r, patch covered trap memory) n t) :
    t.2 = patch covered trap (unpatch covered memory t.2) ∧
      Path I (fun s => ¬ covered (I.pc s.1)) (r, memory) n
        (t.1, unpatch covered memory t.2) := by
  induction h with
  | start =>
      rw [unpatch_patch]
      exact ⟨rfl, .start⟩
  | @step n s t before here next ih =>
      obtain ⟨hmemory, hpath⟩ := ih
      have haway : ¬ covered (I.pc s.1) := by
        intro hcovered
        rw [hmemory] at here
        exact here (if_pos hcovered)
      have hreach : Reaches I (r, memory) (s.1, unpatch covered memory s.2) :=
        (Reaches.refl _).path hpath
      rw [← Prod.mk.eta (p := s), hmemory] at next
      obtain ⟨hafter, hstep⟩ := hquiet _ hreach haway t next
      rw [unpatch_unpatch] at hafter hstep
      exact ⟨hafter, .step hpath haway hstep⟩

end Patches

end PatchedExecution
