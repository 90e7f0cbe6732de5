/-
A pipe between processes.  Each process holds the ends that it has not closed; a read waits
for data or for the last write end to be closed.
-/
import Mathlib.Data.Fintype.Defs
import Mathlib.Logic.Function.Basic

namespace SharedPipe

variable {ρ α : Type}

/-- What has been written and not been read yet, and who holds which end. -/
structure Pipe (ρ α : Type) where
  buffer : List α
  readEnd : ρ → Bool
  writeEnd : ρ → Bool

namespace Pipe

section Closing

variable [DecidableEq ρ] {pipe : Pipe ρ α} {holder other : ρ}

def closeRead (pipe : Pipe ρ α) (holder : ρ) : Pipe ρ α :=
  { pipe with readEnd := Function.update pipe.readEnd holder false }

def closeWrite (pipe : Pipe ρ α) (holder : ρ) : Pipe ρ α :=
  { pipe with writeEnd := Function.update pipe.writeEnd holder false }

/-- The ends of a process that is gone, or whose program was replaced. -/
def closeBoth (pipe : Pipe ρ α) (holder : ρ) : Pipe ρ α :=
  (pipe.closeRead holder).closeWrite holder

@[simp]
theorem closeRead_readEnd_self : (pipe.closeRead holder).readEnd holder = false :=
  Function.update_self _ _ _

@[simp]
theorem closeWrite_writeEnd_self : (pipe.closeWrite holder).writeEnd holder = false :=
  Function.update_self _ _ _

theorem closeRead_readEnd_of_ne (h : other ≠ holder) :
    (pipe.closeRead holder).readEnd other = pipe.readEnd other :=
  Function.update_of_ne h _ _

theorem closeWrite_writeEnd_of_ne (h : other ≠ holder) :
    (pipe.closeWrite holder).writeEnd other = pipe.writeEnd other :=
  Function.update_of_ne h _ _

@[simp]
theorem closeBoth_readEnd_self : (pipe.closeBoth holder).readEnd holder = false :=
  closeRead_readEnd_self

@[simp]
theorem closeBoth_writeEnd_self : (pipe.closeBoth holder).writeEnd holder = false :=
  closeWrite_writeEnd_self

theorem closeBoth_readEnd_of_ne (h : other ≠ holder) :
    (pipe.closeBoth holder).readEnd other = pipe.readEnd other :=
  closeRead_readEnd_of_ne h

theorem closeBoth_writeEnd_of_ne (h : other ≠ holder) :
    (pipe.closeBoth holder).writeEnd other = pipe.writeEnd other :=
  closeWrite_writeEnd_of_ne h

end Closing

section Transfers

variable [Fintype ρ] {pipe : Pipe ρ α} {holder : ρ}

/-- A write, unless nobody can read it any more. -/
def write (pipe : Pipe ρ α) (data : List α) : Option (Pipe ρ α) :=
  if ∃ holder, pipe.readEnd holder = true then some { pipe with buffer := pipe.buffer ++ data }
  else none

/-- A read of as much as there is up to an amount, or of nothing where nobody can write any
more.  Elsewhere it waits. -/
def read (pipe : Pipe ρ α) (amount : Nat) : Option (List α × Pipe ρ α) :=
  match pipe.buffer with
  | [] => if ∃ holder, pipe.writeEnd holder = true then none else some ([], pipe)
  | _ :: _ => some (pipe.buffer.take amount, { pipe with buffer := pipe.buffer.drop amount })

theorem write_of_reader (data : List α) (h : pipe.readEnd holder = true) :
    pipe.write data = some { pipe with buffer := pipe.buffer ++ data } :=
  if_pos ⟨holder, h⟩

theorem read_waits (amount : Nat) (hbuffer : pipe.buffer = []) (h : pipe.writeEnd holder = true) :
    pipe.read amount = none := by
  rw [read, hbuffer]
  exact if_pos ⟨holder, h⟩

theorem read_end (amount : Nat) (hbuffer : pipe.buffer = [])
    (h : ∀ holder, pipe.writeEnd holder = false) : pipe.read amount = some ([], pipe) := by
  rw [read, hbuffer]
  refine if_neg ?_
  rintro ⟨holder, hholder⟩
  rw [h holder] at hholder
  cases hholder

theorem read_data (amount : Nat) (hbuffer : pipe.buffer ≠ []) : pipe.read amount =
    some (pipe.buffer.take amount, { pipe with buffer := pipe.buffer.drop amount }) := by
  rw [read]
  cases h : pipe.buffer with
  | nil => exact absurd h hbuffer
  | cons first rest => rfl

end Transfers

end Pipe

end SharedPipe
