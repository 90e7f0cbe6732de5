/-
Reading a string out of the inferior.  `process::read_string` reads blocks of 1 KiB, all
of them from the same address, so only a string that ends in the first block is read.
-/
import Gsdb.ProcessMemory
import Gsdb.Values

namespace Gsdb

open ByteMemory

/-- The characters of a range of memory. -/
def charsAt (m : Machine) (address : Word) (n : Nat) : Printed :=
  (m.kernel.memory.read address n).map fun byte => Char.ofNat byte.toNat

/-- A string whose NUL byte is `n` bytes behind its address, in memory that is readable up to
the end of the block of the NUL byte. -/
structure StringAt (m : Machine) (address : Word) (n : Nat) : Prop where
  nonzero : ∀ i < n, m.kernel.memory (address + BitVec.ofNat 64 i) ≠ 0
  ends : m.kernel.memory (address + BitVec.ofNat 64 n) = 0
  readable : RangeMapped m.kernel address (1024 * (n / 1024 + 1))

/-- Reading terminates with exactly the characters in front of the NUL byte. -/
def ReadsString (m : Machine) (address : Word) (n : Nat) : Prop :=
  ∃ rounds, readString m address rounds = .ok (charsAt m address n)

section Strings

variable {m : Machine} {address : Word} {n : Nat}

theorem read_nonzero {memory : Memory 64}
    (h : ∀ i < n, memory (address + BitVec.ofNat 64 i) ≠ 0) :
    ∀ byte ∈ memory.read address n, byte ≠ 0 := by
  intro byte hbyte
  obtain ⟨i, hi, rfl⟩ := List.mem_iff_getElem.mp hbyte
  rw [Memory.read_getElem]
  exact h i (by simpa using hi)

/-- A block in which the string ends is read up to there. -/
theorem read_takeWhile {memory : Memory 64} {size : Nat} (hsize : n < size)
    (hnonzero : ∀ i < n, memory (address + BitVec.ofNat 64 i) ≠ 0)
    (hends : memory (address + BitVec.ofNat 64 n) = 0) :
    0 ∈ memory.read address size ∧
      (memory.read address size).takeWhile (· ≠ 0) = memory.read address n := by
  obtain ⟨behind, rfl⟩ : ∃ behind, size = n + (behind + 1) := ⟨size - n - 1, by omega⟩
  rw [Memory.read_append, Memory.read, hends]
  constructor
  · exact List.mem_append_right _ List.mem_cons_self
  · rw [List.takeWhile_append_of_pos fun byte hbyte =>
      decide_eq_true (read_nonzero hnonzero byte hbyte)]
    simp

/-- The first block is read as it stands. -/
theorem StringAt.block (h : StringAt m address n) (hiov : 2 ≤ m.kernel.iovMax) :
    readMemory m address 1024 = .ok (m.kernel.memory.read address 1024) :=
  readMemory_eq (fun i hi => h.readable i (by omega))
    (Nat.le_trans (remoteDescs_length_le_two address (by decide)) hiov)

/-- A block without a NUL byte is read again and again. -/
theorem readString_loops {block : List Byte} (hread : readMemory m address 1024 = .ok block)
    (hnonzero : ∀ byte ∈ block, byte ≠ 0) (rounds : Nat) :
    readString m address rounds = .error (.undefined "endless loop") := by
  induction rounds with
  | zero => rfl
  | succ rounds ih =>
      have hnone : 0 ∉ block := fun hmem => hnonzero 0 hmem rfl
      rw [readString, hread, ok_bind, if_neg hnone, ih]
      rfl

theorem StringAt.reads (h : StringAt m address n) (hiov : 2 ≤ m.kernel.iovMax)
    (hshort : n < 1024) : readString m address 1 = .ok (charsAt m address n) := by
  obtain ⟨hzero, hfront⟩ := read_takeWhile hshort h.nonzero h.ends
  rw [readString, h.block hiov, ok_bind, if_pos hzero, hfront]
  rfl

theorem StringAt.loops (h : StringAt m address n) (hiov : 2 ≤ m.kernel.iovMax)
    (hlong : 1024 ≤ n) (rounds : Nat) :
    readString m address rounds = .error (.undefined "endless loop") :=
  readString_loops (h.block hiov) (read_nonzero fun i hi => h.nonzero i (by omega)) rounds

end Strings

/-- A string is read exactly if it ends in the first block. -/
theorem readsString_iff {m : Machine} {address : Word} {n : Nat} (h : StringAt m address n)
    (hiov : 2 ≤ m.kernel.iovMax) : ReadsString m address n ↔ n < 1024 := by
  constructor
  · rintro ⟨rounds, hread⟩
    by_contra hlong
    rw [h.loops hiov (by omega)] at hread
    cases hread
  · intro hshort
    exact ⟨1, h.reads hiov hshort⟩

namespace StringReadingWitness

/-- Memory whose only NUL byte is at an address. -/
def endsAt (stop : Word) : Machine := Machine.atRest fun query => if query = stop then 0 else 0x61

theorem endsAt_string (n : Nat) (h : n < 2 ^ 64) :
    StringAt (endsAt (0x1000 + BitVec.ofNat 64 n)) 0x1000 n where
  nonzero := by
    intro i hi
    have hne := ofNat_add_ne (0x1000 : Word) (Nat.lt_trans hi h) h (Nat.ne_of_lt hi)
    change (if _ then (0 : Byte) else 0x61) ≠ 0
    rw [if_neg hne]
    decide
  ends := if_pos rfl
  readable := fun _ _ => rfl

theorem readsString_iff_five : ReadsString (endsAt 0x1005) 0x1000 5 :=
  (readsString_iff (endsAt_string 5 (by decide)) (by decide)).mpr (by decide)

/-- A string as long as a block is never read. -/
theorem longString_not_read :
    ¬ ∀ (m : Machine) (address : Word) (n : Nat), StringAt m address n → 2 ≤ m.kernel.iovMax →
      ReadsString m address n := by
  intro hall
  have hstring := endsAt_string 1024 (by decide)
  obtain ⟨rounds, hread⟩ := hall _ 0x1000 1024 hstring (by decide)
  rw [hstring.loops (by decide) (Nat.le_refl 1024)] at hread
  cases hread

end StringReadingWitness

end Gsdb
