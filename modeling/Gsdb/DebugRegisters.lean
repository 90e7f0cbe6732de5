/-
Who owns which debug register.  Four address registers and a control word with
three fields for each of them are replicated on every thread; the stoppoints
remember the slot they were given.  The invariant ties the two together over
every sequence of operations.
-/
import Gsdb.BreakpointShadow
import Gsdb.ThreadFrame
import Gsdb.Watchpoints
import Mathlib.Tactic.FinCases

namespace Gsdb

open ByteMemory Effects Eff Debugger

/-- The fields of a slot in the control register: the local and the global
enable bit, the access that triggers, and the length of the range. -/
structure SlotFields where
  enable : BitVec 2
  condition : BitVec 2
  length : BitVec 2
deriving DecidableEq, Repr

def slotFields (control : Word) (slot : Nat) : SlotFields :=
  ⟨control.extractLsb' (2 * slot) 2, control.extractLsb' (16 + 4 * slot) 2,
    control.extractLsb' (18 + 4 * slot) 2⟩

def StoppointMode.condition : StoppointMode → BitVec 2
  | .write => 0b01
  | .readWrite => 0b11
  | .execute => 0b00

/-- The encoding of a length of 1, 2, 4 or 8 bytes. -/
def lengthField : Nat → BitVec 2
  | 2 => 0b01
  | 4 => 0b11
  | 8 => 0b10
  | _ => 0b00

def LegalSize (size : Nat) : Prop := size = 1 ∨ size = 2 ∨ size = 4 ∨ size = 8

section Fields

variable {slot : Nat}

/-- The mask covers the fields of its slot; that of slot 3 covers the upper
half as well, where its sign was extended. -/
theorem slotMask_getLsbD : ∀ slot < 4, ∀ n < 64, (slotMask slot).getLsbD n =
    decide (n / 2 = slot ∨ (n < 32 ∧ n / 4 = slot + 4) ∨ (slot = 3 ∧ 32 ≤ n)) := by
  decide +kernel

theorem enableBit_getLsbD : ∀ slot < 4, ∀ n < 64, (intMask 1 (slot * 2)).getLsbD n =
    decide (n = 2 * slot) := by
  decide +kernel

/-- The control word with the fields of a slot set. -/
def programControl (control : Word) (slot : Nat) (condition length : BitVec 2) : Word :=
  (control &&& ~~~slotMask slot) |||
    (intMask 1 (slot * 2) ||| condition.setWidth 64 <<< (slot * 4 + 16) |||
      length.setWidth 64 <<< (slot * 4 + 18))

theorem cleared_getLsbD (control : Word) (hslot : slot < 4) {n : Nat} (hn : n < 32) :
    (control &&& ~~~slotMask slot).getLsbD n =
      (control.getLsbD n && !decide (n / 2 = slot ∨ n / 4 = slot + 4)) := by
  have hhigh : ¬ 32 ≤ n := by omega
  have hmask := slotMask_getLsbD slot hslot n (by omega)
  simp only [hn, hhigh, and_false, or_false, true_and] at hmask
  rw [BitVec.getLsbD_and, BitVec.getLsbD_not, hmask]
  simp [show n < 64 by omega]

theorem programControl_getLsbD (control : Word) (hslot : slot < 4) {n : Nat} (hn : n < 32)
    (condition length : BitVec 2) :
    (programControl control slot condition length).getLsbD n =
      if n / 2 = slot then decide (n = 2 * slot)
      else if n / 4 = slot + 4 then
        if n % 4 < 2 then condition.getLsbD (n % 4) else length.getLsbD (n % 4 - 2)
      else control.getLsbD n := by
  have hbeyond : ∀ (x : BitVec 2) k, 2 ≤ k → x.getLsbD k = false :=
    fun x k hk => BitVec.getLsbD_of_ge x k hk
  have hwide : n < 64 := by omega
  rw [programControl, BitVec.getLsbD_or, cleared_getLsbD control hslot hn]
  simp only [BitVec.getLsbD_or, enableBit_getLsbD slot hslot n hwide, BitVec.getLsbD_shiftLeft,
    BitVec.getLsbD_setWidth, hwide, decide_true, Bool.true_and]
  by_cases henable : n / 2 = slot
  · have hlow : n < slot * 4 + 16 := by omega
    have hlow' : n < slot * 4 + 18 := by omega
    simp [henable, hlow, hlow']
  by_cases hfield : n / 4 = slot + 4
  · have hbit : n ≠ 2 * slot := by omega
    have hlow : ¬ n < slot * 4 + 16 := by omega
    by_cases hcondition : n % 4 < 2
    · have hlow' : n < slot * 4 + 18 := by omega
      have hoffset : n - (slot * 4 + 16) = n % 4 := by omega
      simp [henable, hfield, hbit, hcondition, hlow, hlow', hoffset, show n % 4 < 64 by omega]
    · have hlow' : ¬ n < slot * 4 + 18 := by omega
      have hoffset : n - (slot * 4 + 18) = n % 4 - 2 := by omega
      have hpast := hbeyond condition (n - (slot * 4 + 16)) (by omega)
      simp [henable, hfield, hbit, hcondition, hlow, hlow', hoffset, hpast,
        show n % 4 - 2 < 64 by omega]
  · have hbit : n ≠ 2 * slot := by omega
    have hcondition : n < slot * 4 + 16 ∨ 2 ≤ n - (slot * 4 + 16) := by omega
    have hlength : n < slot * 4 + 18 ∨ 2 ≤ n - (slot * 4 + 18) := by omega
    rcases hcondition with hlow | hpast <;> rcases hlength with hlow' | hpast' <;>
      simp [*]

/-- Two control words with the same bits in the fields of a slot. -/
theorem slotFields_congr {control control' : Word} (hslot : slot < 4)
    (h : ∀ n < 32, n / 2 = slot ∨ n / 4 = slot + 4 → control.getLsbD n = control'.getLsbD n) :
    slotFields control slot = slotFields control' slot := by
  have hfield : ∀ start, (∀ i < 2, start + i < 32 ∧
      ((start + i) / 2 = slot ∨ (start + i) / 4 = slot + 4)) →
      control.extractLsb' start 2 = control'.extractLsb' start 2 := by
    intro start hstart
    apply BitVec.eq_of_getLsbD_eq
    intro i hi
    simp only [BitVec.getLsbD_extractLsb', hi, decide_true, Bool.true_and]
    exact h _ (hstart i hi).1 (hstart i hi).2
  simp only [slotFields, SlotFields.mk.injEq]
  refine ⟨hfield _ ?_, hfield _ ?_, hfield _ ?_⟩ <;> intro i hi <;> omega

theorem slotFields_program (control : Word) (hslot : slot < 4) (condition length : BitVec 2) :
    slotFields (programControl control slot condition length) slot = ⟨1, condition, length⟩ := by
  simp only [slotFields, SlotFields.mk.injEq]
  refine ⟨?_, ?_, ?_⟩ <;> apply BitVec.eq_of_getLsbD_eq <;> intro i hi <;>
    simp only [BitVec.getLsbD_extractLsb', hi, decide_true, Bool.true_and] <;>
    rw [programControl_getLsbD control hslot (by omega)]
  · rw [if_pos (by omega)]
    rcases (by omega : i = 0 ∨ i = 1) with rfl | rfl <;> simp
  · rw [if_neg (by omega), if_pos (by omega), if_pos (by omega)]
    congr 1
    omega
  · rw [if_neg (by omega), if_pos (by omega), if_neg (by omega)]
    congr 1
    omega

theorem slotFields_program_of_ne (control : Word) (hslot : slot < 4) {other : Nat}
    (hother : other < 4) (hne : other ≠ slot) (condition length : BitVec 2) :
    slotFields (programControl control slot condition length) other = slotFields control other := by
  refine slotFields_congr hother fun n hn hfield => ?_
  rw [programControl_getLsbD control hslot hn, if_neg (by omega), if_neg (by omega)]

theorem slotFields_clear (control : Word) (hslot : slot < 4) :
    slotFields (control &&& ~~~slotMask slot) slot = ⟨0, 0, 0⟩ := by
  have hzero : slotFields (control &&& ~~~slotMask slot) slot = slotFields 0 slot := by
    refine slotFields_congr hslot fun n hn hfield => ?_
    rw [cleared_getLsbD control hslot hn]
    simp [hfield]
  rw [hzero]
  simp [slotFields]

theorem slotFields_clear_of_ne (control : Word) (hslot : slot < 4) {other : Nat}
    (hother : other < 4) (hne : other ≠ slot) :
    slotFields (control &&& ~~~slotMask slot) other = slotFields control other := by
  refine slotFields_congr hother fun n hn hfield => ?_
  rw [cleared_getLsbD control hslot hn]
  have hnot : ¬ (n / 2 = slot ∨ n / 4 = slot + 4) := by omega
  simp [hnot]

/-- The enable bits of a slot are clear as the search for a free slot sees it. -/
theorem enable_eq_zero_iff (control : Word) (hslot : slot < 4) :
    (slotFields control slot).enable = 0 ↔ control &&& intMask 0b11 (slot * 2) = 0 := by
  have hmask : ∀ slot < 4, ∀ n < 64, (intMask 0b11 (slot * 2)).getLsbD n =
      decide (n / 2 = slot) := by
    decide +kernel
  constructor
  · intro h
    apply BitVec.eq_of_getLsbD_eq
    intro n hn
    rw [BitVec.getLsbD_and, hmask slot hslot n hn]
    by_cases hfield : n / 2 = slot
    · have hbit := congrArg (fun x : BitVec 2 => x.getLsbD (n - 2 * slot)) h
      have hoffset : 2 * slot + (n - 2 * slot) = n := by omega
      simp only [slotFields, BitVec.getLsbD_extractLsb', hoffset, BitVec.ofNat_eq_ofNat,
        BitVec.getLsbD_zero] at hbit
      simpa [hfield, show n - 2 * slot < 2 by omega] using hbit
    · simp [hfield]
  · intro h
    apply BitVec.eq_of_getLsbD_eq
    intro i hi
    have hbit := congrArg (fun x : Word => BitVec.getLsbD x (2 * slot + i)) h
    simp only [BitVec.getLsbD_and, hmask slot hslot (2 * slot + i) (by omega),
      show (2 * slot + i) / 2 = slot by omega, decide_true, Bool.and_true] at hbit
    simpa [slotFields, hi] using hbit

theorem findFreeStoppointRegister_eq_ok {control : Word} {found : Nat}
    (h : findFreeStoppointRegister control = .ok found) :
    found < 4 ∧ (slotFields control found).enable = 0 := by
  unfold findFreeStoppointRegister at h
  split at h
  · rename_i i hfind
    cases h
    have hmem := List.mem_of_find?_eq_some hfind
    have hlt : found < 4 := by
      simp only [List.mem_cons, List.not_mem_nil, or_false] at hmem
      omega
    exact ⟨hlt, (enable_eq_zero_iff control hlt).mpr (by simpa using List.find?_some hfind)⟩
  · cases h

theorem findFreeStoppointRegister_eq_error {control : Word} {e : Failure}
    (h : findFreeStoppointRegister control = .error e) :
    e.isException = true ∧ ∀ slot < 4, (slotFields control slot).enable ≠ 0 := by
  unfold findFreeStoppointRegister at h
  split at h
  · cases h
  · rename_i hnone
    cases h
    refine ⟨rfl, fun slot hslot hzero => ?_⟩
    have hmem : slot ∈ [0, 1, 2, 3] := by
      simp only [List.mem_cons, List.not_mem_nil, or_false]
      omega
    have hbusy := List.find?_eq_none.mp hnone slot hmem
    exact hbusy (by simpa using (enable_eq_zero_iff control hslot).mp hzero)

theorem encodeHardwareStoppointSize_legal {size : Nat} (h : LegalSize size) :
    encodeHardwareStoppointSize size = .ok ((lengthField size).setWidth 64) := by
  rcases h with rfl | rfl | rfl | rfl <;> rfl

theorem encodeHardwareStoppointMode_eq (mode : StoppointMode) :
    encodeHardwareStoppointMode mode = mode.condition.setWidth 64 := by
  cases mode <;> rfl

end Fields

instance neZero_eight : NeZero 8 := ⟨by decide⟩

/-- The debug registers in a user area. -/
def User.drs (user : User) (number : Fin 8) : Word :=
  Registers.word user 64 (debugregOffset + number * 8)

theorem User.drs_write (user : User) (number : Fin 8) (value : Word) :
    User.drs (user.write (debugregOffset + number * 8) (toLe 8 value.toNat)) =
      Function.update (User.drs user) number value := by
  funext other
  by_cases hother : other = number
  · subst hother
    rw [Function.update_self, User.drs, Registers.word]
    have hread := Area.read_write user (debugregOffset + other * 8) (toLe 8 value.toNat)
    rw [toLe_length] at hread
    rw [hread, ofLe_toLe]
    apply BitVec.eq_of_toNat_eq
    have hlt := value.isLt
    simp only [BitVec.toNat_ofNat]
    omega
  · have hne : (other : Nat) ≠ number := fun h => hother (Fin.ext h)
    rw [Function.update_of_ne hother, User.drs, User.drs, Registers.word, Registers.word,
      Area.read_write_disjoint]
    rw [toLe_length]
    omega

/-- The debug registers of a thread, as they are cached and as they are. -/
structure DebugView where
  cached : Option (Fin 8 → Word)
  actual : Fin 8 → Word

def DebugView.set (view : DebugView) (number : Fin 8) (value : Word) : DebugView :=
  ⟨view.cached.map (Function.update · number value), Function.update view.actual number value⟩

/-- A slot and the control register are written. -/
def DebugView.program (view : DebugView) (slot : Fin 8) (address control : Word) : DebugView :=
  (view.set slot address).set 7 control

def Machine.debugView (m : Machine) (tid : Tid) : DebugView :=
  ⟨(m.thread? tid).map fun thread => User.drs thread.regs.data,
    User.drs (m.kernel.threads tid).user⟩

/-- What programming the debug registers leaves alone. -/
def Surroundings (m : Machine) : List BreakpointSite × List Watchpoint × Tid × List Tid ×
    (Tid → ThreadStatus) × (Tid → Option (List Nat)) :=
  (m.process.breakpointSites, m.process.watchpoints, m.process.currentThread,
    m.process.threads.map (·.1), fun tid => (m.kernel.threads tid).status,
    fun tid => (m.thread? tid).map (·.regs.undefinedOffsets))

/-- The word that a written value leaves in a debug register. -/
inductive Encodes : Value → Word → Prop where
  | word (value : Word) : Encodes (.u64 value) value
  | zero : Encodes (.i32 0) 0

section Programming

variable {m m' : Machine} {tid : Tid} {id : RegisterId} {number : Fin 8}

theorem surroundings_setUser (m : Machine) (tid : Tid) (user : User) :
    Surroundings (m.setUser tid user) = Surroundings m := by
  have hstatus : (fun t => ((m.setUser tid user).kernel.threads t).status) =
      fun t => (m.kernel.threads t).status :=
    funext fun t => setUser_status m tid t user
  simp only [Surroundings, hstatus]
  rfl

/-- New contents of the cached registers of a thread. -/
theorem surroundings_setRegs {thread : ThreadState} (hthread : m.thread? tid = some thread)
    {regs : Registers} (hregs : regs.undefinedOffsets = thread.regs.undefinedOffsets) :
    Surroundings (m.setRegs tid regs) = Surroundings m := by
  have hthreads : (m.setRegs tid regs).process.threads.map (·.1) =
      m.process.threads.map (·.1) := threads_updateThread m tid _
  have hoffsets : (fun t => ((m.setRegs tid regs).thread? t).map (·.regs.undefinedOffsets)) =
      fun t => (m.thread? t).map (·.regs.undefinedOffsets) := by
    funext t
    by_cases ht : t = tid
    · subst ht
      rw [Machine.thread?_setRegs, hthread]
      exact congrArg some hregs
    · rw [Machine.setRegs, Machine.thread?_updateThread_of_ne m _ ht]
  simp only [Surroundings, hthreads, hoffsets]
  rfl

theorem debugRegister_seven : debugRegister ((7 : Fin 8) : Nat) = .ok .dr7 := rfl

theorem debugRegister_drInfo (h : debugRegister (number : Nat) = .ok id) :
    ∃ name, registerInfoById id = .ok (drInfo id name number) := by
  revert h
  fin_cases number <;> intro h <;> cases h <;> exact ⟨_, rfl⟩

/-- A debug register of a stopped thread is written in the cache and in the
thread. -/
theorem writeRegister_debugView (hid : debugRegister (number : Nat) = .ok id) {val : Value}
    {value : Word} (hval : Encodes val value) {thread : ThreadState}
    (hthread : m.thread? tid = some thread) (hstopped : m.isStopped tid = true) :
    ∃ m', writeRegister tid id val true m = (.ok ⟨⟩, m') ∧ Fixes Surroundings m m' ∧
      m'.debugView = Function.update m.debugView tid ((m.debugView tid).set number value) := by
  obtain ⟨name, hinfo⟩ := debugRegister_drInfo hid
  have hsize : val.sizeof ≤ (drInfo id name number).size := by
    cases hval with
    | word => exact Nat.le_refl 8
    | zero => exact (by decide : 4 ≤ 8)
  have hwiden : (widen (drInfo id name number) val).toNat = value.toNat := by
    cases hval with
    | word value =>
        simp only [widen, BitVec.toNat_setWidth]
        have := value.isLt
        omega
    | zero => rfl
  have hoffset : (drInfo id name number).offset = debugregOffset + number * 8 := rfl
  have haligned : (drInfo id name number).offset / 8 * 8 = debugregOffset + number * 8 := by
    rw [hoffset, debugregOffset]
    omega
  have hkind : ¬ (drInfo id name number).type = .fpr := by simp [drInfo]
  have hregs : thread.regs.writeData (drInfo id name number) val = .ok { thread.regs with
      data := thread.regs.data.write (debugregOffset + number * 8) (toLe 8 value.toNat) } := by
    rw [Registers.writeData, if_pos hsize, hwiden, hoffset]
    rfl
  refine ⟨_, writeRegister_of_stopped hinfo hthread hregs hstopped, ?_, ?_⟩
  · exact (surroundings_setUser _ _ _).trans (surroundings_setRegs hthread rfl)
  · funext t
    have hread := Area.read_write thread.regs.data (debugregOffset + number * 8)
      (toLe 8 value.toNat)
    rw [toLe_length] at hread
    rw [committed, if_neg hkind, haligned, hread]
    by_cases ht : t = tid
    · subst ht
      rw [Function.update_self, Machine.debugView, setUser_user, User.drs_write]
      change DebugView.mk (((m.setRegs t _).thread? t).map _) _ = _
      rw [Machine.thread?_setRegs, hthread]
      simp [DebugView.set, Machine.debugView, hthread, User.drs_write]
    · rw [Function.update_of_ne ht]
      simp only [Machine.debugView, DebugView.mk.injEq]
      refine ⟨?_, ?_⟩
      · change ((m.setRegs tid _).thread? t).map _ = _
        rw [Machine.setRegs, Machine.thread?_updateThread_of_ne m _ ht]
      · rw [Machine.setUser]
        simp only [Function.update_of_ne ht]
        rfl

theorem Surroundings.isStopped (h : Fixes Surroundings m m') (t : Tid) :
    m'.isStopped t = m.isStopped t := by
  have hstatus : (m'.kernel.threads t).status = (m.kernel.threads t).status :=
    congrFun (congrArg (·.2.2.2.2.1) h) t
  rw [Machine.isStopped, Machine.isStopped, hstatus]

theorem Surroundings.offsets (h : Fixes Surroundings m m') (t : Tid) :
    (m'.thread? t).map (·.regs.undefinedOffsets) = (m.thread? t).map (·.regs.undefinedOffsets) :=
  congrFun (congrArg (·.2.2.2.2.2) h) t

theorem Surroundings.isSome (h : Fixes Surroundings m m') (t : Tid) :
    (m'.thread? t).isSome = (m.thread? t).isSome := by
  have hoffsets := congrArg Option.isSome (Surroundings.offsets h t)
  simpa only [Option.isSome_map] using hoffsets

theorem DebugView.program_program (view : DebugView) (slot : Fin 8) (address control : Word) :
    (view.program slot address control).program slot address control =
      view.program slot address control := by
  have hupdate : ∀ drs : Fin 8 → Word,
      Function.update
        (Function.update (Function.update (Function.update drs slot address) 7 control)
        slot address) 7 control =
      Function.update (Function.update drs slot address) 7 control := by
    intro drs
    funext number
    by_cases hcontrol : number = 7
    · simp [hcontrol]
    · by_cases hslot : number = slot <;> simp [Function.update_apply, hcontrol, hslot]
  simp only [DebugView.program, DebugView.set, Option.map_map, hupdate, DebugView.mk.injEq,
    and_true]
  refine congrArg (Option.map · view.cached) (funext fun drs => ?_)
  exact hupdate drs

/-- Writing a slot and the control register of one thread. -/
theorem writeSlot_debugView (hid : debugRegister (number : Nat) = .ok id) {val : Value}
    {value : Word} (hval : Encodes val value) (control : Word)
    (htracked : (m.thread? tid).isSome = true) (hstopped : m.isStopped tid = true) :
    ∃ m', (do writeRegister tid id val true; writeRegister tid .dr7 (.u64 control) true :
        Debugger PUnit) m = (.ok ⟨⟩, m') ∧ Fixes Surroundings m m' ∧
      m'.debugView =
        Function.update m.debugView tid ((m.debugView tid).program number value control) := by
  obtain ⟨thread, hthread⟩ := Option.isSome_iff_exists.mp htracked
  obtain ⟨m₁, hwrite, hsame, hview⟩ := writeRegister_debugView hid hval hthread hstopped
  have htracked₁ : (m₁.thread? tid).isSome = true := by rw [Surroundings.isSome hsame, htracked]
  obtain ⟨thread₁, hthread₁⟩ := Option.isSome_iff_exists.mp htracked₁
  have hstopped₁ : m₁.isStopped tid = true := by rw [Surroundings.isStopped hsame, hstopped]
  obtain ⟨m₂, hwrite₂, hsame₂, hview₂⟩ := writeRegister_debugView debugRegister_seven
    (.word control) hthread₁ hstopped₁
  refine ⟨m₂, ?_, hsame₂.trans hsame, ?_⟩
  · rw [bind_of_ok hwrite]
    exact hwrite₂
  · rw [hview₂, hview, Function.update_self, Function.update_idem]
    rfl

theorem forEach_replay_debugView (hid : debugRegister (number : Nat) = .ok id) {val : Value}
    {value : Word} (hval : Encodes val value) (control : Word) (current : Tid) (tids : List Tid)
    (m : Machine)
    (htids : ∀ t ∈ tids, (m.thread? t).isSome = true ∧ m.isStopped t = true) :
    ∃ m', forEach (fun t => if t = current then pure ⟨⟩ else do
          writeRegister t id val true
          writeRegister t .dr7 (.u64 control) true) tids m = (.ok ⟨⟩, m') ∧
      Fixes Surroundings m m' ∧
      ∀ t, m'.debugView t =
        if t ∈ tids ∧ t ≠ current then (m.debugView t).program number value control
        else m.debugView t := by
  induction tids generalizing m with
  | nil => exact ⟨m, rfl, rfl, fun t => by simp⟩
  | cons tid rest ih =>
      obtain ⟨m₁, hround, hsame, hview⟩ : ∃ m₁,
          ((if tid = current then pure ⟨⟩ else do
            writeRegister tid id val true
            writeRegister tid .dr7 (.u64 control) true) : Debugger PUnit) m = (.ok ⟨⟩, m₁) ∧
          Fixes Surroundings m m₁ ∧
          ∀ t, m₁.debugView t = if t = tid ∧ t ≠ current then
            (m.debugView t).program number value control else m.debugView t := by
        by_cases hcurrent : tid = current
        · refine ⟨m, by rw [if_pos hcurrent]; rfl, rfl, fun t => ?_⟩
          rw [if_neg]
          rintro ⟨rfl, hne⟩
          exact hne hcurrent
        · obtain ⟨m₁, hwrite, hsame, hview⟩ := writeSlot_debugView hid hval control
            (htids tid List.mem_cons_self).1 (htids tid List.mem_cons_self).2
          refine ⟨m₁, by rw [if_neg hcurrent]; exact hwrite, hsame, fun t => ?_⟩
          rw [hview]
          by_cases ht : t = tid
          · subst ht
            rw [Function.update_self, if_pos ⟨rfl, hcurrent⟩]
          · rw [Function.update_of_ne ht, if_neg fun h => ht h.1]
      obtain ⟨m₂, hloop, hsame₂, hview₂⟩ := ih m₁ fun t ht => by
        rw [Surroundings.isSome hsame, Surroundings.isStopped hsame]
        exact htids t (List.mem_cons_of_mem tid ht)
      refine ⟨m₂, ?_, hsame₂.trans hsame, fun t => ?_⟩
      · rw [forEach, bind_of_ok hround]
        exact hloop
      · rw [hview₂, hview]
        by_cases ht : t = tid ∧ t ≠ current
        · have hmem : t ∈ tid :: rest ∧ t ≠ current := ⟨ht.1 ▸ List.mem_cons_self, ht.2⟩
          rw [if_pos ht, if_pos hmem]
          split
          · exact DebugView.program_program _ _ _ _
          · rfl
        · have hmem : t ∈ tid :: rest ∧ t ≠ current ↔ t ∈ rest ∧ t ≠ current := by
            simp only [List.mem_cons]
            tauto
          rw [if_neg ht]
          simp only [hmem]

/-- Every tracked thread is stopped, and its registers are its own. -/
structure AllTame (m : Machine) : Prop where
  stopped : ∀ t, (m.thread? t).isSome = true → m.isStopped t = true
  defined : ∀ t thread, m.thread? t = some thread → thread.regs.undefinedOffsets = []

theorem AllTame.of_surroundings (h : AllTame m) (hsame : Fixes Surroundings m m') : AllTame m' where
  stopped := fun t ht => by
    rw [Surroundings.isStopped hsame]
    exact h.stopped t (Surroundings.isSome hsame t ▸ ht)
  defined := fun t thread' hthread' => by
    have hoffsets := Surroundings.offsets hsame t
    rw [hthread'] at hoffsets
    obtain ⟨thread, hthread, heq⟩ := Option.map_eq_some_iff.mp hoffsets.symm
    exact heq.symm.trans (h.defined t thread hthread)

theorem replayOnOtherThreads_debugView (h : AllTame m)
    (hid : debugRegister (number : Nat) = .ok id) {val : Value} {value : Word}
    (hval : Encodes val value) (control : Word) :
    ∃ m', replayOnOtherThreads id val control m = (.ok ⟨⟩, m') ∧ Fixes Surroundings m m' ∧
      ∀ t, m'.debugView t =
        if (m.thread? t).isSome = true ∧ t ≠ m.process.currentThread then
          (m.debugView t).program number value control
        else m.debugView t := by
  obtain ⟨m', hloop, hsame, hview⟩ := forEach_replay_debugView hid hval control
    m.process.currentThread (m.process.threads.map (·.1)) m fun t ht =>
      ⟨(m.mem_threads_iff t).mp ht, h.stopped t ((m.mem_threads_iff t).mp ht)⟩
  refine ⟨m', ?_, hsame, fun t => ?_⟩
  · rw [replayOnOtherThreads, bind_of_ok (get_apply m)]
    exact hloop
  · rw [hview]
    simp only [m.mem_threads_iff]

theorem readRegister_dr7 {thread : ThreadState} (hthread : m.thread? tid = some thread)
    (hdefined : thread.regs.undefinedOffsets = []) :
    readRegister tid .dr7 m = (.ok (User.drs thread.regs.data 7), m) := by
  rw [readRegister, bind_of_ok (threadAt_eq hthread), ofExcept_apply]
  have hundefined : thread.regs.isUndefined (drInfo .dr7 "dr7" 7) = false := by
    simp [Registers.isUndefined, hdefined]
  have hinfo : registerInfoById .dr7 = .ok (drInfo .dr7 "dr7" 7) := rfl
  rw [Registers.readU64, hinfo, ok_bind, Registers.read, hundefined]
  rfl

theorem debugRegister_slot {slot : Nat} (h : slot < 4) :
    ∃ id, debugRegister ((slot : Nat) : Int) = .ok id := by
  rcases (by omega : slot = 0 ∨ slot = 1 ∨ slot = 2 ∨ slot = 3) with rfl | rfl | rfl | rfl <;>
    exact ⟨_, rfl⟩

/-- The registers of the current thread written first, those of the others
after it: every thread is programmed alike. -/
theorem program_all {m₁ m₂ : Machine} {address control : Word}
    (hsame : Fixes Surroundings m m₁)
    (hcurrent : (m.thread? m.process.currentThread).isSome = true)
    (hview₁ : m₁.debugView = Function.update m.debugView m.process.currentThread
      ((m.debugView m.process.currentThread).program number address control))
    (hview₂ : ∀ t, m₂.debugView t =
      if (m₁.thread? t).isSome = true ∧ t ≠ m₁.process.currentThread then
        (m₁.debugView t).program number address control
      else m₁.debugView t) (t : Tid) :
    m₂.debugView t = if (m.thread? t).isSome = true then
      (m.debugView t).program number address control else m.debugView t := by
  have hthread : m₁.process.currentThread = m.process.currentThread := congrArg (·.2.2.1) hsame
  rw [hview₂, Surroundings.isSome hsame, hthread, hview₁]
  by_cases ht : t = m.process.currentThread
  · subst ht
    simp [hcurrent]
  · simp [ht]

/-- Claiming a slot either finds none free, and nothing has changed, or
programs a free one alike on every thread. -/
theorem setHardwareStoppoint_cases (h : AllTame m) (address : Word) (mode : StoppointMode)
    {size : Nat} (hsize : LegalSize size) :
    (((m.thread? m.process.currentThread).isSome = false ∨
        ∃ drs, (m.debugView m.process.currentThread).cached = some drs ∧
          ∀ slot < 4, (slotFields (drs 7) slot).enable ≠ 0) ∧
      ∃ e, e.isException = true ∧ setHardwareStoppoint address mode size m =
        (.error e, m.observe (.programmed m.moment))) ∨
    ∃ drs, (m.debugView m.process.currentThread).cached = some drs ∧
      ∃ slot : Nat, ∃ hslot : slot < 8, slot < 4 ∧ (slotFields (drs 7) slot).enable = 0 ∧
      ∃ m', setHardwareStoppoint address mode size m = (.ok (slot : Int), m') ∧
        Fixes Surroundings m m' ∧
        ∀ t, m'.debugView t = if (m.thread? t).isSome = true then
          (m.debugView t).program ⟨slot, hslot⟩ address
            (programControl (drs 7) slot mode.condition (lengthField size))
          else m.debugView t := by
  set m₀ := m.observe (.programmed m.moment) with hm₀
  have hmark : (mark .programmed : Debugger PUnit) m = (.ok ⟨⟩, m₀) := rfl
  have htame : AllTame m₀ := ⟨h.stopped, h.defined⟩
  rw [setHardwareStoppoint, bind_of_ok hmark, bind_of_ok (get_apply m₀)]
  cases hthread : m.thread? m.process.currentThread with
  | none =>
      refine .inl ⟨.inl rfl, .exception "out_of_range", rfl, ?_⟩
      have hread : readRegister m₀.process.currentThread .dr7 m₀ =
          (.error (.exception "out_of_range"), m₀) :=
        bind_of_error (threadAt_of_none (m := m₀) hthread) _
      exact bind_of_error hread _
  | some thread =>
      have hcached : (m.debugView m.process.currentThread).cached =
          some (User.drs thread.regs.data) := by
        simp [Machine.debugView, hthread]
      have hread : readRegister m₀.process.currentThread .dr7 m₀ =
          (.ok (User.drs thread.regs.data 7), m₀) :=
        readRegister_dr7 hthread (h.defined _ thread hthread)
      rw [bind_of_ok hread]
      cases hfree : findFreeStoppointRegister (User.drs thread.regs.data 7) with
      | error e =>
          obtain ⟨hexception, hbusy⟩ := findFreeStoppointRegister_eq_error hfree
          exact .inl ⟨.inr ⟨_, hcached, hbusy⟩, e, hexception, rfl⟩
      | ok slot =>
          obtain ⟨hslot, hzero⟩ := findFreeStoppointRegister_eq_ok hfree
          obtain ⟨id, hid⟩ := debugRegister_slot hslot
          have hcurrent : (m₀.thread? m₀.process.currentThread).isSome = true := by
            change (m.thread? m.process.currentThread).isSome = true
            rw [hthread]
            rfl
          have hid' : debugRegister (((⟨slot, by omega⟩ : Fin 8) : Nat) : Int) = .ok id := hid
          obtain ⟨m₂, hboth, hsame₂, hview₂⟩ := writeSlot_debugView hid' (.word address)
            (programControl (User.drs thread.regs.data 7) slot mode.condition (lengthField size))
            hcurrent (htame.stopped _ hcurrent)
          obtain ⟨_, m₁, hwrite, hcontrol⟩ := Eff.bind_eq_ok.mp hboth
          obtain ⟨m₃, hreplay, hsame₃, hview₃⟩ := replayOnOtherThreads_debugView
            (htame.of_surroundings hsame₂) hid' (.word address)
            (programControl (User.drs thread.regs.data 7) slot mode.condition (lengthField size))
          refine .inr ⟨_, hcached, slot, by omega, hslot, hzero, m₃, ?_, hsame₃.trans hsame₂,
            program_all hsame₂ hcurrent hview₂ hview₃⟩
          have hfirst : (ofExcept (.ok slot) : Debugger Nat) m₀ = (.ok slot, m₀) := rfl
          have hsecond : (ofExcept (debugRegister slot) : Debugger RegisterId) m₀ =
              (.ok id, m₀) := by
            rw [ofExcept_apply, hid]
          have hthird : (ofExcept (encodeHardwareStoppointSize size) : Debugger Word) m₁ =
              (.ok ((lengthField size).setWidth 64), m₁) := by
            rw [ofExcept_apply, encodeHardwareStoppointSize_legal hsize]
          unfold programControl at hcontrol hreplay
          rw [bind_of_ok hfirst, bind_of_ok hsecond, bind_of_ok hwrite, bind_of_ok hthird,
            encodeHardwareStoppointMode_eq, bind_of_ok hcontrol, bind_of_ok hreplay]
          rfl

/-- Giving a slot back programs it alike on every thread. -/
theorem clearHardwareStoppoint_cases (h : AllTame m) {slot : Nat} (hslot : slot < 4) :
    ((m.thread? m.process.currentThread).isSome = false ∧
      ∃ e, clearHardwareStoppoint slot m = (.error e, m.observe (.programmed m.moment))) ∨
    ∃ drs, (m.debugView m.process.currentThread).cached = some drs ∧
      ∃ m', clearHardwareStoppoint slot m = (.ok ⟨⟩, m') ∧ Fixes Surroundings m m' ∧
        ∀ t, m'.debugView t = if (m.thread? t).isSome = true then
          (m.debugView t).program ⟨slot, by omega⟩ 0 (drs 7 &&& ~~~slotMask slot)
          else m.debugView t := by
  set m₀ := m.observe (.programmed m.moment) with hm₀
  have hmark : (mark .programmed : Debugger PUnit) m = (.ok ⟨⟩, m₀) := rfl
  have htame : AllTame m₀ := ⟨h.stopped, h.defined⟩
  obtain ⟨id, hid⟩ := debugRegister_slot hslot
  have hid' : debugRegister (((⟨slot, by omega⟩ : Fin 8) : Nat) : Int) = .ok id := hid
  have hfirst : (ofExcept (debugRegister slot) : Debugger RegisterId) m₀ = (.ok id, m₀) := by
    rw [ofExcept_apply, hid]
  rw [clearHardwareStoppoint, bind_of_ok hmark, bind_of_ok (get_apply m₀), bind_of_ok hfirst]
  cases hthread : m.thread? m.process.currentThread with
  | none =>
      refine .inl ⟨rfl, .exception "out_of_range", bind_of_error ?_ _⟩
      obtain ⟨name, hinfo⟩ := debugRegister_drInfo hid'
      have hinfo' : (ofExcept (registerInfoById id) : Debugger RegisterInfo) m₀ =
          (.ok (drInfo id name slot), m₀) := by
        rw [ofExcept_apply, hinfo]
      rw [writeRegister, bind_of_ok hinfo']
      exact bind_of_error (threadAt_of_none (m := m₀) hthread) _
  | some thread =>
      have hcached : (m₀.debugView m.process.currentThread).cached =
          some (User.drs thread.regs.data) := by
        change (m.debugView m.process.currentThread).cached = _
        simp [Machine.debugView, hthread]
      have hcurrent : (m₀.thread? m₀.process.currentThread).isSome = true := by
        change (m.thread? m.process.currentThread).isSome = true
        rw [hthread]
        rfl
      obtain ⟨m₁, hwrite, hsame₁, hview₁⟩ := writeRegister_debugView hid' .zero
        (m := m₀) hthread (htame.stopped _ hcurrent)
      have htame₁ := htame.of_surroundings hsame₁
      have hcurrent₁ : (m₁.thread? m.process.currentThread).isSome = true := by
        rw [Surroundings.isSome hsame₁]
        exact hcurrent
      obtain ⟨thread₁, hthread₁⟩ := Option.isSome_iff_exists.mp hcurrent₁
      have hdr7 : User.drs thread₁.regs.data 7 = User.drs thread.regs.data 7 := by
        have hcached₁ : (m₁.debugView m.process.currentThread).cached =
            some (Function.update (User.drs thread.regs.data) ⟨slot, by omega⟩ 0) := by
          rw [hview₁, Function.update_self, DebugView.set, hcached]
          rfl
        rw [Machine.debugView, hthread₁, Option.map_some, Option.some.injEq] at hcached₁
        have hne : (7 : Fin 8) ≠ ⟨slot, by omega⟩ := by
          intro h7
          have hval := congrArg Fin.val h7
          change 7 = slot at hval
          omega
        rw [hcached₁, Function.update_of_ne hne]
      have hread := readRegister_dr7 hthread₁ (htame₁.defined _ thread₁ hthread₁)
      rw [hdr7] at hread
      obtain ⟨m₂, hcontrol, hsame₂, hview₂⟩ := writeRegister_debugView debugRegister_seven
        (.word (User.drs thread.regs.data 7 &&& ~~~slotMask slot)) hthread₁
        (htame₁.stopped _ hcurrent₁)
      have hsame : Fixes Surroundings m₀ m₂ := hsame₂.trans hsame₁
      have hview : m₂.debugView = Function.update m₀.debugView m₀.process.currentThread
          ((m₀.debugView m₀.process.currentThread).program ⟨slot, by omega⟩ 0
            (User.drs thread.regs.data 7 &&& ~~~slotMask slot)) := by
        rw [hview₂, hview₁]
        exact (congrArg (Function.update · _ _) rfl).trans
          ((Function.update_idem _ _ _).trans (by rw [Function.update_self]; rfl))
      obtain ⟨m₃, hreplay, hsame₃, hview₃⟩ := replayOnOtherThreads_debugView
        (htame.of_surroundings hsame) hid' .zero
        (User.drs thread.regs.data 7 &&& ~~~slotMask slot)
      refine .inr ⟨_, hcached, m₃, ?_, hsame₃.trans hsame, program_all hsame hcurrent hview hview₃⟩
      have hthreads : m₀.process.currentThread = m.process.currentThread := rfl
      rw [hthreads, bind_of_ok hwrite, bind_of_ok hread]
      exact (bind_of_ok hcontrol _).trans hreplay

end Programming

end Gsdb
