/-
What writing a register does to the register file and to the thread: which bytes change,
what is read afterwards, and that the file goes on to hold what the kernel holds.
-/
import Gsdb.RestoredRegisters
import Gsdb.ThreadFrame

namespace Gsdb

open ByteMemory Effects Eff Debugger

/-- The bits of a value as it is passed. -/
def Value.content : (val : Value) → BitVec (8 * val.sizeof)
  | .u8 x | .i8 x => x
  | .u16 x | .i16 x => x
  | .u32 x | .i32 x => x
  | .u64 x | .i64 x | .byte64 x => x
  | .longDouble x | .byte128 x => x

def Value.isSigned : Value → Bool
  | .i8 _ | .i16 _ | .i32 _ | .i64 _ => true
  | _ => false

/-- A value extended to the size of a register. -/
def Value.extended (info : RegisterInfo) (val : Value) : BitVec (8 * info.size) :=
  if val.isSigned = true ∧ info.format = .uint then val.content.signExtend (8 * info.size)
  else val.content.setWidth (8 * info.size)

/-- The unsigned integer as which a `uint` register of a size is read. -/
def Value.ofUint (size : Nat) (x : BitVec (8 * size)) : Value :=
  match size with
  | 1 => .u8 (x.setWidth 8)
  | 2 => .u16 (x.setWidth 16)
  | 4 => .u32 (x.setWidth 32)
  | _ => .u64 (x.setWidth 64)

/-- Two registers have no byte in common. -/
def RegisterInfo.Disjoint (info other : RegisterInfo) : Prop :=
  other.offset + other.size ≤ info.offset ∨ info.offset + info.size ≤ other.offset

/-- The bytes of a register are those of a value, and nothing else has changed. -/
structure HoldsValue (info : RegisterInfo) (val : Value) (regs regs' : Registers) : Prop where
  written : regs'.data.read info.offset info.size = toLe info.size (val.extended info).toNat
  kept : ∀ i, i < info.offset ∨ info.offset + info.size ≤ i → regs'.data i = regs.data i
  undefinedOffsets : regs'.undefinedOffsets = regs.undefinedOffsets
  cfa : regs'.cfa = regs.cfa
  readBack : info.format = .uint → regs'.read info = .ok (.ofUint info.size (val.extended info))
  others : ∀ other ∈ registerInfos, info.Disjoint other → regs'.read other = regs.read other

section Writing

variable {info other : RegisterInfo} {val : Value} {regs regs' : Registers}

/-- Floating point registers lie in the block that is committed, the others in one aligned
word. -/
theorem registerInfos_placed : ∀ info ∈ registerInfos,
    if info.type = .fpr then
      i387Offset ≤ info.offset ∧ info.offset + info.size ≤ i387Offset + i387Size
    else info.offset % 8 + info.size ≤ 8 := by
  decide +kernel

theorem registerInfos_byId : ∀ info ∈ registerInfos,
    registerInfos.find? (fun other => other.id = info.id) = some info := by
  decide +kernel

theorem registerInfoById_of_mem (hinfo : info ∈ registerInfos) :
    registerInfoById info.id = .ok info := by
  rw [registerInfoById, registerInfoBy, registerInfos_byId info hinfo]

theorem RegisterInfo.IsSized.size_le (hsized : info.IsSized) : 8 * info.size ≤ 128 := by
  unfold RegisterInfo.IsSized at hsized
  cases hformat : info.format <;> rw [hformat] at hsized <;> simp only at hsized <;> omega

theorem setWidth_widenSigned {w : Nat} (x : BitVec w) (hbyte : 8 ≤ w) (hsized : info.IsSized)
    (hle : w ≤ 8 * info.size) :
    (widenSigned info x).setWidth (8 * info.size) =
      if info.format = .uint then x.signExtend (8 * info.size)
      else x.setWidth (8 * info.size) := by
  have hwide := hsized.size_le
  obtain ⟨id, name, dwarfId, size, offset, type, format⟩ := info
  cases format with
  | uint =>
      rw [if_pos rfl]
      rcases hsized with rfl | rfl | rfl | rfl
      · obtain rfl : w = 8 := Nat.le_antisymm hle hbyte
        change (x.setWidth 128).setWidth 8 = x.signExtend 8
        rw [BitVec.setWidth_setWidth_of_le x (by decide), BitVec.signExtend_eq, BitVec.setWidth_eq]
      · exact (BitVec.setWidth_setWidth_of_le (x.signExtend 16) hwide).trans (BitVec.setWidth_eq _)
      · exact (BitVec.setWidth_setWidth_of_le (x.signExtend 32) hwide).trans (BitVec.setWidth_eq _)
      · exact (BitVec.setWidth_setWidth_of_le (x.signExtend 64) hwide).trans (BitVec.setWidth_eq _)
  | doubleFloat => exact hsized.elim
  | longDouble => exact BitVec.setWidth_setWidth_of_le x hwide
  | vector => exact BitVec.setWidth_setWidth_of_le x hwide

/-- The widened value, cut to the size of the register, is the extended one. -/
theorem setWidth_widen (hsized : info.IsSized) (hle : val.sizeof ≤ info.size) :
    (widen info val).setWidth (8 * info.size) = val.extended info := by
  have hwide := hsized.size_le
  have hunsigned : val.isSigned = false →
      val.extended info = val.content.setWidth (8 * info.size) := by
    intro hsign
    rw [Value.extended, if_neg (by simp [hsign])]
  have hsigned : val.isSigned = true → val.extended info =
      if info.format = .uint then val.content.signExtend (8 * info.size)
      else val.content.setWidth (8 * info.size) := by
    intro hsign
    simp only [Value.extended, hsign, true_and]
  cases val with
  | i8 x | i16 x | i32 x | i64 x =>
      rw [hsigned rfl]
      exact setWidth_widenSigned x (by decide) hsized (Nat.mul_le_mul_left 8 hle)
  | longDouble x | byte128 x =>
      rw [hunsigned rfl]
      rfl
  | u8 x | u16 x | u32 x | u64 x | byte64 x =>
      rw [hunsigned rfl]
      exact BitVec.setWidth_setWidth_of_le x hwide

theorem extended_toNat (hsized : info.IsSized) (hle : val.sizeof ≤ info.size) :
    (widen info val).toNat = (val.extended info).toNat := by
  have hlt := widen_lt hle
  have hpow : 2 ^ (8 * info.size) = 256 ^ info.size := pow_mul 2 8 info.size
  rw [← setWidth_widen hsized hle, BitVec.toNat_setWidth, hpow, Nat.mod_eq_of_lt hlt]

theorem writeData_of_le (hle : val.sizeof ≤ info.size) :
    regs.writeData info val = .ok { regs with
      data := regs.data.write info.offset (toLe info.size (widen info val).toNat) } :=
  if_pos hle

/-- The bytes of a number as a word are the number. -/
theorem ofNat_ofLe_toLe {n : Nat} (x : BitVec (8 * n)) :
    BitVec.ofNat (8 * n) (ofLe (toLe n x.toNat)) = x := by
  have hpow : 2 ^ (8 * n) = 256 ^ n := pow_mul 2 8 n
  have hlt := x.isLt
  apply BitVec.eq_of_toNat_eq
  rw [BitVec.toNat_ofNat, ofLe_toLe, hpow, Nat.mod_mod, Nat.mod_eq_of_lt (by omega)]

/-- A `uint` register whose bytes are those of a number is read as the number. -/
theorem read_ofUint {x : BitVec (8 * info.size)} (hsized : info.IsSized)
    (hformat : info.format = .uint) (hdefined : regs.isUndefined info = false)
    (hbytes : regs.data.read info.offset info.size = toLe info.size x.toNat) :
    regs.read info = .ok (.ofUint info.size x) := by
  have hword : BitVec.ofNat (8 * info.size) (ofLe (regs.data.read info.offset info.size)) = x := by
    rw [hbytes, ofNat_ofLe_toLe]
  rw [Registers.read, if_neg (by simp [hdefined]), hformat]
  obtain ⟨id, name, dwarfId, size, offset, type, format⟩ := info
  obtain rfl : format = .uint := hformat
  rcases hsized with rfl | rfl | rfl | rfl
  all_goals exact congrArg Except.ok (congrArg _ (hword.trans (BitVec.setWidth_eq x).symm))

/-- A register is read from its own bytes. -/
theorem read_of_bytes (hsized : info.IsSized)
    (hundefined : regs'.undefinedOffsets = regs.undefinedOffsets)
    (hbytes : regs'.data.read info.offset info.size = regs.data.read info.offset info.size) :
    regs'.read info = regs.read info := by
  have hsame : regs'.isUndefined info = regs.isUndefined info := by
    rw [Registers.isUndefined, Registers.isUndefined, hundefined]
  rw [Registers.read, Registers.read, hsame]
  obtain ⟨id, name, dwarfId, size, offset, type, format⟩ := info
  cases format with
  | uint =>
      rcases hsized with rfl | rfl | rfl | rfl
      all_goals
        simp only [Registers.word] at hbytes ⊢
        rw [hbytes]
  | doubleFloat => rfl
  | longDouble =>
      obtain rfl : size = 16 := hsized
      simp only [Registers.word] at hbytes ⊢
      rw [hbytes]
  | vector =>
      rcases hsized with rfl | rfl
      all_goals
        simp only [Registers.word] at hbytes ⊢
        simp [hbytes]

/-- What the cached half of a write does. -/
theorem writeData_holds (hinfo : info ∈ registerInfos)
    (hdefined : regs.isUndefined info = false) (hle : val.sizeof ≤ info.size)
    (hregs : regs.writeData info val = .ok regs') : HoldsValue info val regs regs' := by
  have hsized := registerInfos_isSized info hinfo
  have hlength := toLe_length info.size (val.extended info).toNat
  obtain rfl := writeData_eq_ok hregs
  rw [extended_toNat hsized hle]
  have hwritten := Area.read_write regs.data info.offset
    (toLe info.size (val.extended info).toNat)
  rw [hlength] at hwritten
  refine ⟨hwritten, ?_, rfl, rfl, ?_, ?_⟩
  · intro i houtside
    exact Area.write_outside (by rw [hlength]; exact houtside)
  · exact fun hformat => read_ofUint hsized hformat hdefined hwritten
  · intro other hother hdisjoint
    refine read_of_bytes (registerInfos_isSized other hother) rfl ?_
    exact Area.read_write_disjoint regs.data (by rw [hlength]; exact hdisjoint)

/-- Bytes at which the register file agreed with the thread still do so after a commit. -/
theorem committed_agrees (hinfo : info ∈ registerInfos)
    (hkept : ∀ i, i < info.offset ∨ info.offset + info.size ≤ i → regs'.data i = regs.data i)
    {user : User} {i : Nat} (hagree : regs.data i = user i) :
    regs'.data i = committed info regs'.data user i := by
  have hplaced := registerInfos_placed info hinfo
  rw [committed]
  by_cases hfpr : info.type = .fpr
  · rw [if_pos hfpr] at hplaced ⊢
    by_cases hinside : i387Offset ≤ i ∧ i < i387Offset + i387Size
    · rw [Area.copy_inside hinside]
    · rw [Area.copy_outside hinside, ← hagree]
      exact hkept i (by omega)
  · rw [if_neg hfpr] at hplaced ⊢
    rw [Area.write_read]
    by_cases hinside : info.offset / 8 * 8 ≤ i ∧ i < info.offset / 8 * 8 + 8
    · rw [Area.copy_inside hinside]
    · rw [Area.copy_outside hinside, ← hagree]
      exact hkept i (by omega)

/-- Without a commit only the register file is written. -/
theorem writeRegister_uncommitted {m : Machine} {tid : Tid} {thread : ThreadState}
    (hinfo : info ∈ registerInfos) (hthread : m.thread? tid = some thread)
    (hregs : thread.regs.writeData info val = .ok regs) :
    writeRegister tid info.id val false m = (.ok ⟨⟩, m.setRegs tid regs) := by
  have hfirst : (ofExcept (registerInfoById info.id) : Debugger RegisterInfo) m =
      (.ok info, m) := by
    rw [ofExcept_apply, registerInfoById_of_mem hinfo]
  have hsecond : (ofExcept (thread.regs.writeData info val) : Debugger Registers) m =
      (.ok regs, m) := by
    rw [ofExcept_apply, hregs]
  rw [writeRegister, bind_of_ok hfirst, bind_of_ok (threadAt_eq hthread), bind_of_ok hsecond]
  rfl

end Writing

/-- A register of a thread is written with the extended value and no other byte of the register
file changes; with a commit the bytes at which the file agrees with the thread still do. -/
theorem writeRegister_exact (m : Machine) (tid : Tid) (thread : ThreadState)
    (info : RegisterInfo) (val : Value) (commit : Bool) (hinfo : info ∈ registerInfos)
    (hthread : m.thread? tid = some thread) (hdefined : thread.regs.isUndefined info = false)
    (hle : val.sizeof ≤ info.size) (hstopped : commit = true → m.isStopped tid = true) :
    ∃ m' thread', writeRegister tid info.id val commit m = (.ok ⟨⟩, m') ∧
      m'.thread? tid = some thread' ∧ HoldsValue info val thread.regs thread'.regs ∧
      (commit = true → ∀ i, thread.regs.data i = (m.kernel.threads tid).user i →
        thread'.regs.data i = (m'.kernel.threads tid).user i) := by
  obtain ⟨regs, hregs⟩ : ∃ regs, thread.regs.writeData info val = .ok regs :=
    ⟨_, writeData_of_le hle⟩
  have hholds := writeData_holds hinfo hdefined hle hregs
  have hcached : (m.setRegs tid regs).thread? tid = some { thread with regs := regs } := by
    rw [Machine.thread?_setRegs, hthread]
    rfl
  cases commit with
  | false =>
      refine ⟨_, _, writeRegister_uncommitted hinfo hthread hregs, hcached, hholds, ?_⟩
      intro hcommit
      cases hcommit
  | true =>
      refine ⟨_, _, writeRegister_of_stopped (registerInfoById_of_mem hinfo) hthread hregs
        (hstopped rfl), hcached, hholds, ?_⟩
      intro _ i hagree
      rw [setUser_user]
      exact committed_agrees hinfo hholds.kept hagree

namespace RegisterWritesWitness

/-- A stopped process with one thread whose registers are all zero. -/
def machine : Machine :=
  (Machine.atRest fun _ => 0).setProcess fun process =>
    { process with threads := [(1, newThread)] }

/-- A negative byte into the second byte of `rax`. -/
theorem writeRegister_exact_ah :
    ∃ m' thread', writeRegister 1 .ah (.i8 0xff) true machine = (.ok ⟨⟩, m') ∧
      m'.thread? 1 = some thread' ∧
      HoldsValue (gpr8h .ah "ah" 80) (.i8 0xff) newThread.regs thread'.regs ∧
      ∀ i, newThread.regs.data i = (machine.kernel.threads 1).user i →
        thread'.regs.data i = (m'.kernel.threads 1).user i := by
  obtain ⟨m', thread', hwrite, hthread, hholds, hagree⟩ :=
    writeRegister_exact machine 1 newThread (gpr8h .ah "ah" 80) (.i8 0xff) true (by decide) rfl
      (by decide) (by decide) (fun _ => by decide)
  exact ⟨m', thread', hwrite, hthread, hholds, hagree rfl⟩

end RegisterWritesWitness

end Gsdb
