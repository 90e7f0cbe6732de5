/-
Writing the inferior's memory: `process::write_memory` goes word by word, and
fills an incomplete last word with the bytes that are already there.
-/
import Gsdb.BreakpointShadow

namespace Gsdb

open ByteMemory Effects Eff Debugger

namespace Debugger

/-- The next word of `process::write_memory`: eight bytes of the data, or what
is left of them completed from memory. -/
def nextWord (address : Word) (data : List Byte) : Debugger (List Byte) :=
  if 8 ≤ data.length then pure (data.take 8)
  else do
    let m ← get
    let read ← ofExcept (readMemory m address 8)
    pure (data ++ read.drop data.length)

/-- The loop of `process::write_memory`; every round writes a word. -/
def writeMemoryLoop : Nat → Word → List Byte → Debugger PUnit
  | 0, _, _ => pure ⟨⟩
  | rounds + 1, address, data =>
      if data = [] then pure ⟨⟩
      else do
        let word ← nextWord address data
        pokeData address (BitVec.ofNat 64 (ofLe word)) "Failed to write memory!"
        writeMemoryLoop rounds (address + 8) (data.drop 8)

def writeMemory (address : Word) (data : List Byte) : Debugger PUnit :=
  writeMemoryLoop data.length address data

end Debugger

/-- Writing memory respects what one write of a word respects. -/
theorem writeMemory_respects {R : Machine → Machine → Prop} [Std.Refl R] [IsTrans Machine R]
    (hmemory : ∀ m memory, R m (Machine.setMemory memory m)) (address : Word)
    (data : List Byte) : Respects R (writeMemory address data) := by
  have hloop : ∀ rounds address data, Respects R (writeMemoryLoop rounds address data) := by
    intro rounds
    induction rounds with
    | zero => exact fun _ _ => Respects.pure _
    | succ rounds ih =>
        intro address data
        refine Respects.ite (Respects.pure _) ?_
        refine Respects.bind (Respects.ite (Respects.pure _) ?_) fun word => ?_
        · exact Respects.bind Respects.get fun _ =>
            Respects.bind (Respects.ofExcept _) fun _ => Respects.pure _
        · refine Respects.bind (Respects.bind Respects.get fun _ => ?_) fun _ => ih _ _
          exact Respects.ite (Respects.modify fun m => hmemory m _) (Respects.throw _)
  exact hloop data.length address data

/-- The process is stopped and the kernel lets the debugger at its memory. -/
structure MemoryAccessible (m : Machine) : Prop where
  stopped : m.isStopped m.process.pid = true
  mapped : ∀ address, m.kernel.mapped address = true
  iovMax : 2 ≤ m.kernel.iovMax

theorem MemoryAccessible.setMemory {m : Machine} (h : MemoryAccessible m)
    (memory : Memory 64) : MemoryAccessible (m.setMemory memory) :=
  ⟨h.stopped, h.mapped, h.iovMax⟩

theorem pageOffset_toNat (address : Word) :
    (address &&& 0xfff).toNat = address.toNat % 0x1000 := by
  rw [BitVec.toNat_and]
  exact Nat.and_two_pow_sub_one_eq_mod address.toNat 12

theorem remoteDescsLoop_succ (rounds : Nat) (address : Word) {amount chunk : Nat}
    (hamount : amount ≠ 0) (hchunk : min amount (0x1000 - address.toNat % 0x1000) = chunk) :
    remoteDescsLoop (rounds + 1) address amount =
      ⟨address, chunk⟩ ::
        remoteDescsLoop rounds (address + BitVec.ofNat 64 chunk) (amount - chunk) := by
  rw [remoteDescsLoop, if_neg hamount]
  simp only [pageOffset_toNat, hchunk]

/-- There is one descriptor for each page that the range touches. -/
theorem remoteDescsLoop_length (rounds : Nat) (address : Word) {amount : Nat}
    (hamount : amount ≠ 0) (hrounds : amount ≤ rounds) :
    (remoteDescsLoop rounds address amount).length =
      (address.toNat % 0x1000 + amount + 0xfff) / 0x1000 := by
  induction rounds generalizing address amount with
  | zero => omega
  | succ rounds ih =>
      have hlt := Nat.mod_lt address.toNat (show 0 < 0x1000 by decide)
      rw [remoteDescsLoop_succ rounds address hamount rfl, List.length_cons]
      by_cases hlast : amount ≤ 0x1000 - address.toNat % 0x1000
      · rw [Nat.min_eq_left hlast, Nat.sub_self]
        have hnil : remoteDescsLoop rounds (address + BitVec.ofNat 64 amount) 0 = [] := by
          cases rounds <;> rfl
        rw [hnil, List.length_nil]
        omega
      · -- the first chunk goes up to the end of its page
        rw [Nat.min_eq_right (by omega), ih _ (by omega) (by omega), BitVec.toNat_add,
          BitVec.toNat_ofNat]
        omega

theorem remoteDescs_length_le (address : Word) (amount : Nat) :
    (remoteDescs address amount).length ≤ (amount + 0x1ffe) / 0x1000 := by
  by_cases hzero : amount = 0
  · subst hzero
    exact Nat.zero_le _
  · rw [remoteDescs, remoteDescsLoop_length amount address hzero (Nat.le_refl amount)]
    omega

/-- As many bytes as a page has lie on at most two pages. -/
theorem remoteDescs_length_le_two (address : Word) {amount : Nat} (hamount : amount ≤ 0x1000) :
    (remoteDescs address amount).length ≤ 2 := by
  have hle := remoteDescs_length_le address amount
  omega

theorem MemoryAccessible.readMemory_eight {m : Machine} (h : MemoryAccessible m)
    (address : Word) : readMemory m address 8 = .ok (m.kernel.memory.read address 8) :=
  readMemory_eq (fun _ _ => h.mapped _)
    (Nat.le_trans (remoteDescs_length_le_two address (by decide)) h.iovMax)

theorem toNat_ofNat_ofLe {bytes : List Byte} (h : bytes.length = 8) :
    toLe 8 (BitVec.ofNat 64 (ofLe bytes)).toNat = bytes := by
  have hlt := ofLe_lt bytes
  rw [h] at hlt
  rw [BitVec.toNat_ofNat, Nat.mod_eq_of_lt (by simpa using hlt), ← h, toLe_ofLe]

theorem setMemory_setMemory (m : Machine) (first second : Memory 64) :
    (m.setMemory first).setMemory second = m.setMemory second := rfl

/-- An incomplete word that is completed from memory writes its own bytes only. -/
theorem write_completed (memory : Memory 64) (address : Word) {data : List Byte}
    (hshort : ¬ 8 ≤ data.length) :
    memory.write address (data ++ (memory.read address 8).drop data.length) =
      memory.write address (data.take 8) := by
  have hdrop : (memory.read address 8).drop data.length =
      memory.read (address + BitVec.ofNat 64 data.length) (8 - data.length) := by
    have happend := Memory.read_append memory address data.length (8 - data.length)
    rw [Nat.add_sub_cancel' (by omega)] at happend
    rw [happend, List.drop_left' (by simp)]
  rw [hdrop, Memory.write_append_read _ _ _ _ (by omega), List.take_of_length_le (by omega)]

/-- Behind the first eight bytes of some data the rest of them is written. -/
theorem write_word_rest (memory : Memory 64) (address : Word) {data : List Byte}
    (hfits : data.length ≤ 2 ^ 64) :
    (memory.write address (data.take 8)).write (address + 8) (data.drop 8) =
      memory.write address data := by
  by_cases hfull : 8 ≤ data.length
  · have hsplit := Memory.write_append memory address (data.take 8) (data.drop 8)
      (by rw [List.length_take, List.length_drop]; omega)
    rw [List.take_append_drop, List.length_take, Nat.min_eq_left hfull] at hsplit
    exact hsplit.symm
  · rw [List.drop_eq_nil_of_le (by omega), List.take_of_length_le (by omega)]
    rfl

/-- The size of the words that so many bytes take. -/
def wordsSize (n : Nat) : Nat := (n + 7) / 8 * 8

theorem wordsSize_drop {data : List Byte} (h : data ≠ []) :
    wordsSize data.length = 8 + wordsSize (data.drop 8).length := by
  have hpos := List.length_pos_of_ne_nil h
  rw [wordsSize, wordsSize, List.length_drop]
  omega

/-- The process is stopped, and up to a size its memory is mapped and words of it can be read,
whatever it holds. -/
structure WordsAccessible (m : Machine) (address : Word) (size : Nat) : Prop where
  stopped : m.isStopped m.process.pid = true
  mapped : RangeMapped m.kernel address size
  reads : ∀ (memory : Memory 64) (offset : Nat), offset + 8 ≤ size →
    readMemory (m.setMemory memory) (address + BitVec.ofNat 64 offset) 8 =
      .ok (memory.read (address + BitVec.ofNat 64 offset) 8)

theorem MemoryAccessible.words {m : Machine} (h : MemoryAccessible m) (address : Word)
    (size : Nat) : WordsAccessible m address size where
  stopped := h.stopped
  mapped := fun _ _ => h.mapped _
  reads := fun memory _ _ => (h.setMemory memory).readMemory_eight _

namespace WordsAccessible

variable {m : Machine} {address : Word} {size : Nat}

theorem setMemory (h : WordsAccessible m address size) (memory : Memory 64) :
    WordsAccessible (m.setMemory memory) address size :=
  ⟨h.stopped, h.mapped, h.reads⟩

theorem next (h : WordsAccessible m address (8 + size)) :
    WordsAccessible m (address + 8) size where
  stopped := h.stopped
  mapped := h.mapped.part (Nat.le_refl _)
  reads := by
    intro memory offset hoffset
    have hread := h.reads memory (8 + offset) (by omega)
    rwa [BitVec.ofNat_add, ← BitVec.add_assoc] at hread

theorem wordMapped (h : WordsAccessible m address (8 + size)) : m.wordMapped address = true := by
  rw [Machine.wordMapped, List.all_eq_true]
  exact fun i hi => h.mapped i (Nat.lt_of_lt_of_le (List.mem_range.mp hi) (Nat.le_add_right 8 size))

theorem readWord (h : WordsAccessible m address (8 + size)) :
    readMemory m address 8 = .ok (m.kernel.memory.read address 8) := by
  have hread := h.reads m.kernel.memory 0 (Nat.le_add_right 8 size)
  rw [BitVec.add_zero] at hread
  exact hread

/-- The next word, written, writes the next eight bytes of the data. -/
theorem nextWord (h : WordsAccessible m address (8 + size)) (data : List Byte) :
    ∃ word, nextWord address data m = (.ok word, m) ∧ word.length = 8 ∧
      m.kernel.memory.write address word = m.kernel.memory.write address (data.take 8) := by
  by_cases hfull : 8 ≤ data.length
  · exact ⟨data.take 8, by simp [Debugger.nextWord, hfull], by simpa using hfull, rfl⟩
  · have hread : (ofExcept (readMemory m address 8) : Debugger (List Byte)) m =
        (.ok (m.kernel.memory.read address 8), m) := by
      rw [ofExcept_apply, h.readWord]
    refine ⟨data ++ (m.kernel.memory.read address 8).drop data.length, ?_, by simp; omega,
      write_completed _ _ hfull⟩
    rw [Debugger.nextWord, if_neg hfull, bind_of_ok (get_apply m), bind_of_ok hread]
    rfl

/-- Where the words can be accessed, `write_memory` writes its bytes and nothing else. -/
theorem writeMemoryLoop (rounds : Nat) {data : List Byte}
    (h : WordsAccessible m address (wordsSize data.length)) (hrounds : data.length ≤ rounds)
    (hfits : data.length ≤ 2 ^ 64) :
    writeMemoryLoop rounds address data m =
      (.ok ⟨⟩, m.setMemory (m.kernel.memory.write address data)) := by
  induction rounds generalizing m address data with
  | zero =>
      obtain rfl : data = [] := List.length_eq_zero_iff.mp (by omega)
      rfl
  | succ rounds ih =>
      by_cases hempty : data = []
      · subst hempty
        rfl
      rw [wordsSize_drop hempty] at h
      obtain ⟨word, hword, hlength, hwrite⟩ := h.nextWord data
      rw [Debugger.writeMemoryLoop, if_neg hempty, bind_of_ok hword,
        bind_of_ok (pokeData_mapped h.stopped h.wordMapped _ _), toNat_ofNat_ofLe hlength, hwrite,
        ih (h.next.setMemory _) (by simp; omega) (by simp; omega), setMemory_setMemory]
      exact congrArg (fun memory => (Except.ok PUnit.unit, m.setMemory memory))
        (write_word_rest m.kernel.memory address hfits)

theorem writeMemory {data : List Byte} (h : WordsAccessible m address (wordsSize data.length))
    (hfits : data.length ≤ 2 ^ 64) :
    writeMemory address data m =
      (.ok ⟨⟩, m.setMemory (m.kernel.memory.write address data)) :=
  h.writeMemoryLoop data.length (Nat.le_refl _) hfits

end WordsAccessible

theorem MemoryAccessible.writeMemory {m : Machine} (h : MemoryAccessible m) (address : Word)
    (data : List Byte) (hfits : data.length ≤ 2 ^ 64) :
    writeMemory address data m =
      (.ok ⟨⟩, m.setMemory (m.kernel.memory.write address data)) :=
  (h.words address _).writeMemory hfits

end Gsdb
