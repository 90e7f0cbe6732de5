/-
How `process::read_memory` cuts up a range of remote memory.  The descriptors tile the
range, and each of them stays inside one page.
-/
import Gsdb.IntervalTiling
import Gsdb.ProcessMemory

namespace Gsdb

open ByteMemory IntervalTiling

/-- The addresses of a descriptor. -/
def Iovec.interval (iov : Iovec) : Interval := ⟨iov.base.toNat, iov.len⟩

/-- Pages of 4 KiB. -/
def pageOf (position : Nat) : Nat := position / 0x1000

def Iovec.WithinPage (iov : Iovec) : Prop :=
  ∀ position, iov.interval.Holds position → pageOf position = pageOf iov.base.toNat

/-- Descriptors that are not empty and lie one behind the other, each inside a page, and
together are the range that was asked for. -/
structure TilesRequest (address : Word) (amount : Nat) (descs : List Iovec) : Prop where
  nonempty : ∀ iov ∈ descs, 0 < iov.len
  consecutive : (descs.map Iovec.interval).IsChain Interval.Adjoins
  withinPage : ∀ iov ∈ descs, iov.WithinPage
  covers : ∀ position, (∃ iov ∈ descs, iov.interval.Holds position) ↔
    address.toNat ≤ position ∧ position < address.toNat + amount

section Descriptors

variable {address : Word} {amount : Nat}

/-- A chunk ends at the end of its page at the latest. -/
theorem withinPage_of_le {chunk : Nat} (h : chunk ≤ 0x1000 - address.toNat % 0x1000) :
    (Iovec.mk address chunk).WithinPage := by
  intro position hposition
  rw [Interval.Holds, Interval.stop] at hposition
  simp only [Iovec.interval, pageOf] at hposition ⊢
  omega

/-- One round takes a chunk off the front of the range. -/
theorem remoteDescsLoop_chunk (rounds : Nat) (hamount : amount ≠ 0) :
    ∃ chunk, 0 < chunk ∧ chunk ≤ amount ∧ (Iovec.mk address chunk).WithinPage ∧
      remoteDescsLoop (rounds + 1) address amount = ⟨address, chunk⟩ ::
        remoteDescsLoop rounds (address + BitVec.ofNat 64 chunk) (amount - chunk) := by
  have hpage := Nat.mod_lt address.toNat (show 0 < 0x1000 by decide)
  exact ⟨min amount (0x1000 - address.toNat % 0x1000), by omega, Nat.min_le_left _ _,
    withinPage_of_le (Nat.min_le_right _ _), remoteDescsLoop_succ rounds address hamount rfl⟩

theorem remoteDescsLoop_zero (rounds : Nat) (address : Word) :
    remoteDescsLoop rounds address 0 = [] := by
  cases rounds <;> rfl

/-- The loop takes the range apart from the front to the end. -/
theorem remoteDescsLoop_tiles (rounds : Nat) (hrounds : amount ≤ rounds)
    (hwrap : address.toNat + amount ≤ 2 ^ 64) :
    TilesRange address.toNat (address.toNat + amount)
      ((remoteDescsLoop rounds address amount).map Iovec.interval) := by
  induction rounds generalizing address amount with
  | zero =>
      obtain rfl : amount = 0 := by omega
      exact .nil
  | succ rounds ih =>
      by_cases hzero : amount = 0
      · subst hzero
        exact .nil
      obtain ⟨chunk, hpos, hle, -, hloop⟩ := @remoteDescsLoop_chunk address amount rounds hzero
      rw [hloop, List.map_cons]
      refine @TilesRange.cons ⟨address.toNat, chunk⟩ _ _ hpos ?_
      change TilesRange (address.toNat + chunk) _ _
      by_cases hlast : amount - chunk = 0
      · -- behind the last chunk the address may be the one past all addresses
        rw [hlast, remoteDescsLoop_zero, show chunk = amount by omega]
        exact .nil
      · have hnext : (address + BitVec.ofNat 64 chunk).toNat = address.toNat + chunk := by
          rw [BitVec.toNat_add, BitVec.toNat_ofNat]
          omega
        have hrest := @ih (address + BitVec.ofNat 64 chunk) (amount - chunk) (by omega) (by omega)
        rwa [hnext, Nat.add_assoc, Nat.add_sub_cancel' hle] at hrest

theorem remoteDescsLoop_withinPage (rounds : Nat) :
    ∀ iov ∈ remoteDescsLoop rounds address amount, iov.WithinPage := by
  induction rounds generalizing address amount with
  | zero => simp [remoteDescsLoop]
  | succ rounds ih =>
      by_cases hzero : amount = 0
      · subst hzero
        simp [remoteDescsLoop_zero]
      obtain ⟨chunk, -, -, hpage, hloop⟩ := @remoteDescsLoop_chunk address amount rounds hzero
      rw [hloop]
      intro iov hmem
      rcases List.mem_cons.mp hmem with rfl | hmem
      · exact hpage
      · exact ih iov hmem

/-- The loop has ended after one round for each of its descriptors. -/
theorem remoteDescsLoop_ended {rounds more : Nat} (hrounds : amount ≤ rounds)
    (hmore : (remoteDescsLoop rounds address amount).length ≤ more) :
    remoteDescsLoop more address amount = remoteDescsLoop rounds address amount := by
  induction rounds generalizing address amount more with
  | zero =>
      obtain rfl : amount = 0 := by omega
      rw [remoteDescsLoop_zero, remoteDescsLoop_zero]
  | succ rounds ih =>
      by_cases hzero : amount = 0
      · subst hzero
        rw [remoteDescsLoop_zero, remoteDescsLoop_zero]
      rw [remoteDescsLoop_succ rounds address hzero rfl] at hmore ⊢
      rw [List.length_cons] at hmore
      obtain ⟨more, rfl⟩ : ∃ n, more = n + 1 := ⟨more - 1, by omega⟩
      rw [remoteDescsLoop_succ more address hzero rfl]
      have hpage := Nat.mod_lt address.toNat (show 0 < 0x1000 by decide)
      rw [ih (by omega) (by omega)]

end Descriptors

/-- The descriptors tile the range, and building them ends after as many rounds as there are
descriptors. -/
theorem remoteDescs_tile (address : Word) (amount : Nat)
    (hwrap : address.toNat + amount ≤ 2 ^ 64) :
    TilesRequest address amount (remoteDescs address amount) ∧
      ∀ rounds ≥ (remoteDescs address amount).length,
        remoteDescsLoop rounds address amount = remoteDescs address amount := by
  have htiles := remoteDescsLoop_tiles amount (Nat.le_refl amount) hwrap
  refine ⟨⟨?_, htiles.adjoining, remoteDescsLoop_withinPage amount, ?_⟩, ?_⟩
  · intro iov hmem
    exact htiles.nonempty iov.interval (List.mem_map_of_mem hmem)
  · intro position
    rw [← htiles.holds_iff position]
    simp only [List.mem_map, exists_exists_and_eq_and, remoteDescs]
  · intro rounds hrounds
    exact remoteDescsLoop_ended (Nat.le_refl amount) hrounds

/-- A range over two page boundaries. -/
theorem remoteDescs_tile_three :
    TilesRequest 0xffe 0x1003 [⟨0xffe, 2⟩, ⟨0x1000, 0x1000⟩, ⟨0x2000, 1⟩] := by
  have hdescs : remoteDescs 0xffe 0x1003 = [⟨0xffe, 2⟩, ⟨0x1000, 0x1000⟩, ⟨0x2000, 1⟩] := by
    rfl
  rw [← hdescs]
  exact (remoteDescs_tile 0xffe 0x1003 (by decide)).1

end Gsdb
