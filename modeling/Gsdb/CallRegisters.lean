/-
The registers in which arguments are passed: what a thread holds in one of them after
it was set for a call, and that setting one leaves the others as they are.
-/
import Gsdb.EvaluationFrame

namespace Gsdb

open ByteMemory Effects Eff Debugger

/-- Bytes filled up with zeros. -/
def paddedTo (n : Nat) (bytes : List Byte) : List Byte :=
  bytes ++ List.replicate (n - bytes.length) 0

/-- A register holds bytes, filled up with zeros, in the cache and in the thread. -/
def RegisterHolds (m : Machine) (tid : Tid) (id : RegisterId) (bytes : List Byte) : Prop :=
  ∃ info thread, registerInfoById id = .ok info ∧ m.thread? tid = some thread ∧
    bytes.length ≤ info.size ∧
    thread.regs.data.read info.offset info.size = paddedTo info.size bytes ∧
    (m.kernel.threads tid).user.read info.offset info.size = paddedTo info.size bytes

/-- The registers that `setup_arguments` sets. -/
def callRegisters : List RegisterId := intRegs ++ sseRegs ++ [.rax, .rsp]

def callInfos : List RegisterInfo := [
  gpr64 .rdi "rdi" 5 112, gpr64 .rsi "rsi" 4 104, gpr64 .rdx "rdx" 1 96,
  gpr64 .rcx "rcx" 2 88, gpr64 .r8 "r8" 8 72, gpr64 .r9 "r9" 9 64,
  fpXmm .xmm0 "xmm0" 0, fpXmm .xmm1 "xmm1" 1, fpXmm .xmm2 "xmm2" 2, fpXmm .xmm3 "xmm3" 3,
  fpXmm .xmm4 "xmm4" 4, fpXmm .xmm5 "xmm5" 5, fpXmm .xmm6 "xmm6" 6, fpXmm .xmm7 "xmm7" 7,
  gpr64 .rax "rax" 0 80, gpr64 .rsp "rsp" 7 152]

theorem callRegisters_info {id : RegisterId} (hid : id ∈ callRegisters) :
    ∃ info ∈ callInfos, registerInfoById id = .ok info ∧ info.id = id := by
  simp only [callRegisters, intRegs, sseRegs, List.cons_append, List.nil_append, List.mem_cons,
    List.not_mem_nil, or_false] at hid
  rcases hid with rfl | rfl | rfl | rfl | rfl | rfl | rfl | rfl | rfl | rfl | rfl | rfl | rfl |
    rfl | rfl | rfl
  all_goals exact ⟨_, by decide, rfl, rfl⟩

theorem callInfos_apart : ∀ a ∈ callInfos, ∀ b ∈ callInfos, a.id ≠ b.id →
    a.offset + a.size ≤ b.offset ∨ b.offset + b.size ≤ a.offset := by
  decide

/-- A register of the list is an aligned word or part of the floating point block. -/
theorem callInfos_shape : ∀ info ∈ callInfos, 8 ≤ info.size ∧
    (info.type ≠ .fpr ∧ info.size = 8 ∧ info.offset / 8 * 8 = info.offset ∧
        info.offset + 8 ≤ i387Offset ∨
      info.type = .fpr ∧ i387Offset ≤ info.offset ∧
        info.offset + info.size ≤ i387Offset + i387Size) := by
  decide

theorem toLe_padded {n : Nat} {bytes : List Byte} (h : bytes.length ≤ n) :
    toLe n (ofLe bytes) = paddedTo n bytes := by
  induction n generalizing bytes with
  | zero =>
      obtain rfl : bytes = [] := List.length_eq_zero_iff.mp (by omega)
      rfl
  | succ n ih =>
      cases bytes with
      | nil =>
          have hrest : toLe n (ofLe []) = paddedTo n [] := ih (Nat.zero_le n)
          simp only [ofLe] at hrest
          simp [toLe, ofLe, hrest, paddedTo, List.replicate_succ]
      | cons byte rest =>
          have hbyte := byte.isLt
          have hhead : BitVec.ofNat 8 (ofLe (byte :: rest)) = byte := by
            apply BitVec.eq_of_toNat_eq
            rw [ofLe, BitVec.toNat_ofNat]
            omega
          have htail : ofLe (byte :: rest) / 256 = ofLe rest := by
            rw [ofLe]
            omega
          rw [toLe, hhead, htail, ih (by simpa using h)]
          simp [paddedTo]

section Commit

variable {tid : Tid} {id other : RegisterId} {val : Value} {m m' : Machine} {u : PUnit}
  {bytes : List Byte}

/-- A value of eight bytes at most, as the registers are set with. -/
def Value.IsWord (val : Value) (bytes : List Byte) : Prop :=
  bytes.length ≤ 8 ∧
    (val = .byte64 (BitVec.ofNat 64 (ofLe bytes)) ∨ val = .u64 (BitVec.ofNat 64 (ofLe bytes)))

theorem Value.IsWord.widen (h : val.IsWord bytes) (info : RegisterInfo) (hsize : 8 ≤ info.size) :
    toLe info.size (widen info val).toNat = paddedTo info.size bytes ∧ val.sizeof = 8 := by
  have hlt := ofLe_lt bytes
  have hpow : 256 ^ bytes.length ≤ 256 ^ 8 := Nat.pow_le_pow_right (by decide) h.1
  have hpow8 : (256 : Nat) ^ 8 = 2 ^ 64 := rfl
  have hwide : ((BitVec.ofNat 64 (ofLe bytes)).setWidth 128).toNat = ofLe bytes := by
    rw [BitVec.toNat_setWidth, BitVec.toNat_ofNat, Nat.mod_eq_of_lt (a := ofLe bytes) (by omega)]
    omega
  have hpadded := toLe_padded (n := info.size) (Nat.le_trans h.1 hsize)
  rcases h.2 with rfl | rfl
  · exact ⟨by rw [Gsdb.widen, hwide, hpadded], rfl⟩
  · exact ⟨by rw [Gsdb.widen, hwide, hpadded], rfl⟩

theorem Value.isWord_u64 (x : Word) : (Value.u64 x).IsWord (toLe 8 x.toNat) := by
  refine ⟨by simp, .inr ?_⟩
  rw [ofLe_toLe, show (256 : Nat) ^ 8 = 2 ^ 64 from rfl, Nat.mod_eq_of_lt x.isLt]
  simp

theorem commitRegister_eq_ok (h : commitRegister tid id val m = (.ok u, m')) :
    ∃ info thread regs, registerInfoById id = .ok info ∧ m.thread? tid = some thread ∧
      regs = { thread.regs with
        data := thread.regs.data.write info.offset (toLe info.size (widen info val).toNat) } ∧
      m.isStopped tid = true ∧
      m' = ((m.setRegs tid regs).setUser tid
        (committed info regs.data (m.kernel.threads tid).user)).observe (.committed tid) := by
  obtain ⟨_, m₁, hwrite, hobserve⟩ := Eff.bind_eq_ok.mp h
  obtain rfl := (congrArg Prod.snd hobserve).symm
  cases hinfo : registerInfoById id with
  | error e =>
      have hfirst : (ofExcept (registerInfoById id) : Debugger RegisterInfo) m = (.error e, m) := by
        rw [ofExcept_apply, hinfo]
      rw [writeRegister, bind_of_error hfirst] at hwrite
      cases hwrite
  | ok info =>
      rcases writeRegister_cases hinfo tid val m with
        ⟨e, hrun⟩ | ⟨thread, regs, hthread, hregs, ⟨-, e, hrun⟩ | ⟨hstopped, hrun⟩⟩
      · rw [hrun] at hwrite
        cases hwrite
      · rw [hrun] at hwrite
        cases hwrite
      · rw [hrun] at hwrite
        obtain rfl := (congrArg Prod.snd hwrite).symm
        exact ⟨info, thread, regs, rfl, hthread, writeData_eq_ok hregs, hstopped, rfl⟩

theorem commitRegister_memory (h : commitRegister tid id val m = (.ok u, m')) :
    m'.kernel.memory = m.kernel.memory := by
  obtain ⟨info, thread, regs, -, -, -, -, rfl⟩ := commitRegister_eq_ok h
  rfl

/-- The thread of a register that was committed, as it is then. -/
theorem thread?_committed {thread : ThreadState} {regs : Registers} {user : User}
    (hthread : m.thread? tid = some thread) :
    (((m.setRegs tid regs).setUser tid user).observe (.committed tid)).thread? tid =
      some { thread with regs := regs } := by
  change (m.setRegs tid regs).thread? tid = _
  rw [Machine.thread?_setRegs, hthread]
  rfl

/-- A register holds what it was set to. -/
theorem commitRegister_holds (hid : id ∈ callRegisters) (hval : val.IsWord bytes)
    (h : commitRegister tid id val m = (.ok u, m')) : RegisterHolds m' tid id bytes := by
  obtain ⟨info, thread, regs, hinfo, hthread, hregs, hstopped, rfl⟩ := commitRegister_eq_ok h
  obtain ⟨info', hmem, hinfo', -⟩ := callRegisters_info hid
  rw [hinfo] at hinfo'
  cases hinfo'
  obtain ⟨hsize, hshape⟩ := callInfos_shape info hmem
  obtain ⟨hbytes, -⟩ := hval.widen info hsize
  rw [hbytes] at hregs
  have hlength : (paddedTo info.size bytes).length = info.size := by
    simp only [paddedTo, List.length_append, List.length_replicate]
    have := hval.1
    omega
  have hcached : regs.data.read info.offset info.size = paddedTo info.size bytes := by
    have hread := Area.read_write thread.regs.data info.offset (paddedTo info.size bytes)
    rw [hlength] at hread
    rw [hregs]
    exact hread
  refine ⟨info, { thread with regs := regs }, hinfo, thread?_committed hthread,
    Nat.le_trans hval.1 hsize, hcached, ?_⟩
  change (((m.setRegs tid regs).setUser tid _).kernel.threads tid).user.read _ _ = _
  rw [setUser_user, committed]
  rcases hshape with ⟨hkind, height, haligned, -⟩ | ⟨hkind, hlow, hhigh⟩
  · have hread := Area.read_write (m.kernel.threads tid).user info.offset
      (regs.data.read info.offset 8)
    rw [Area.read_length] at hread
    rw [if_neg hkind, haligned, height, hread, ← height, hcached]
  · rw [if_pos hkind, ← hcached]
    exact Area.read_congr fun i hi hi' => Area.copy_inside ⟨by omega, by omega⟩

/-- The other registers hold what they held. -/
theorem commitRegister_keeps (hid : id ∈ callRegisters) (hother : other ∈ callRegisters)
    (hne : other ≠ id) {held : List Byte}
    (h : commitRegister tid id val m = (.ok u, m')) (hholds : RegisterHolds m tid other held) :
    RegisterHolds m' tid other held := by
  obtain ⟨info, thread, regs, hinfo, hthread, hregs, hstopped, rfl⟩ := commitRegister_eq_ok h
  obtain ⟨info', hmem, hinfo', hname⟩ := callRegisters_info hid
  rw [hinfo] at hinfo'
  cases hinfo'
  obtain ⟨otherInfo, hotherMem, hotherInfo, hotherName⟩ := callRegisters_info hother
  obtain ⟨info', thread', hinfo', hthread', hfits, hcache, hkernel⟩ := hholds
  rw [hotherInfo] at hinfo'
  cases hinfo'
  rw [hthread] at hthread'
  cases hthread'
  have hapart :=
    callInfos_apart otherInfo hotherMem info hmem (by rw [hname, hotherName]; exact hne)
  obtain ⟨hsize, hshape⟩ := callInfos_shape info hmem
  obtain ⟨-, hotherShape⟩ := callInfos_shape otherInfo hotherMem
  have hcached : regs.data.read otherInfo.offset otherInfo.size = paddedTo otherInfo.size held := by
    rw [hregs]
    change (thread.regs.data.write _ _).read _ _ = _
    rw [Area.read_write_disjoint _ (by rw [toLe_length]; exact hapart), hcache]
  refine ⟨otherInfo, { thread with regs := regs }, hotherInfo,
    thread?_committed hthread, hfits, hcached, ?_⟩
  change (((m.setRegs tid regs).setUser tid _).kernel.threads tid).user.read _ _ = _
  rw [setUser_user, committed]
  rcases hshape with ⟨hkind, height, haligned, -⟩ | ⟨hkind, hlow, hhigh⟩
  · rw [if_neg hkind, haligned, Area.read_write_disjoint _ (by
      rw [Area.read_length]
      omega), hkernel]
  · rw [if_pos hkind]
    rcases hotherShape with ⟨-, hotherEight, -, hbelow⟩ | ⟨-, hotherLow, hotherHigh⟩
    · rw [← hkernel]
      exact Area.read_congr fun i hi hi' => Area.copy_outside (by omega)
    · rw [← hcached]
      exact Area.read_congr fun i hi hi' => Area.copy_inside ⟨by omega, by omega⟩

/-- What does not concern the thread leaves its registers as they are. -/
theorem RegisterHolds.of_harmless {t : Tid} (h : Harmless t m m')
    (hholds : RegisterHolds m tid id bytes) : RegisterHolds m' tid id bytes := by
  obtain ⟨info, thread, hinfo, hthread, hfits, hcache, hkernel⟩ := hholds
  refine ⟨info, thread, hinfo, (h.thread? tid).trans hthread, hfits, hcache, ?_⟩
  rw [h.threads]
  exact hkernel

end Commit

end Gsdb
