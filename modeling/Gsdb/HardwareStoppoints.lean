/-
Debug-register allocation: claiming one of the four address slots, encoding
what triggers it in the control register, and replaying both on every thread.
-/
import Gsdb.Machine

namespace Gsdb

open ByteMemory Effects Eff Debugger

def encodeHardwareStoppointMode : StoppointMode → Word
  | .write => 0b01
  | .readWrite => 0b11
  | .execute => 0b00

def encodeHardwareStoppointSize : Nat → Except Failure Word
  | 1 => .ok 0b00
  | 2 => .ok 0b01
  | 4 => .ok 0b11
  | 8 => .ok 0b10
  | _ => .error (.error "Invalid stoppoint size!")

/-- An `int` mask, shifted as a 32-bit value and converted to 64 bits. -/
def intMask (bits : BitVec 32) (shift : Nat) : Word := (bits <<< shift).signExtend 64

/-- The first slot whose two enable bits are clear. -/
def findFreeStoppointRegister (control : Word) : Except Failure Nat :=
  match [0, 1, 2, 3].find? fun i => control &&& intMask 0b11 (i * 2) = 0 with
  | some i => .ok i
  | none => .error (.error "No remaining hardware debug registers!")

/-- `dr0 + index` as a register identifier. -/
def debugRegister : Int → Except Failure RegisterId
  | 0 => .ok .dr0
  | 1 => .ok .dr1
  | 2 => .ok .dr2
  | 3 => .ok .dr3
  | 4 => .ok .dr4
  | 5 => .ok .dr5
  | 6 => .ok .dr6
  | 7 => .ok .dr7
  | _ => .error (.undefined "no such debug register")

/-- The enable, mode and size fields of a slot in DR7.  The mask is built from
`int`s: for slot 3 it reaches the sign bit and its conversion sets the upper
half. -/
def slotMask (slot : Nat) : Word :=
  ((0b11 <<< (slot * 2) : BitVec 32) ||| (0b1111 <<< (slot * 4 + 16))).signExtend 64

namespace Debugger

/-- Write a slot's address and the control register on every thread except the
current one. -/
def replayOnOtherThreads (slot : RegisterId) (address : Value) (control : Word) :
    Debugger PUnit := do
  let m ← get
  forEach (fun tid =>
    if tid = m.process.currentThread then pure ⟨⟩
    else do
      writeRegister tid slot address true
      writeRegister tid .dr7 (.u64 control) true) (m.process.threads.map (·.1))

def setHardwareStoppoint (address : Word) (mode : StoppointMode) (size : Nat) :
    Debugger Int := do
  mark .programmed
  let m ← get
  let tid := m.process.currentThread
  let control ← readRegister tid .dr7
  let freeSpace ← ofExcept (findFreeStoppointRegister control)
  let id ← ofExcept (debugRegister freeSpace)
  writeRegister tid id (.u64 address) true
  let modeFlag := encodeHardwareStoppointMode mode
  let sizeFlag ← ofExcept (encodeHardwareStoppointSize size)
  let enableBit := intMask 1 (freeSpace * 2)
  let modeBits := modeFlag <<< (freeSpace * 4 + 16)
  let sizeBits := sizeFlag <<< (freeSpace * 4 + 18)
  let masked := (control &&& ~~~slotMask freeSpace) ||| (enableBit ||| modeBits ||| sizeBits)
  writeRegister tid .dr7 (.u64 masked) true
  replayOnOtherThreads id (.u64 address) masked
  pure freeSpace

def clearHardwareStoppoint (index : Int) : Debugger PUnit := do
  mark .programmed
  let m ← get
  let tid := m.process.currentThread
  let id ← ofExcept (debugRegister index)
  writeRegister tid id (.i32 0) true
  let control ← readRegister tid .dr7
  let masked := control &&& ~~~slotMask index.toNat
  writeRegister tid .dr7 (.u64 masked) true
  replayOnOtherThreads id (.i32 0) masked

/-- Execution breakpoints have size one. -/
def setHardwareBreakpoint (address : Word) : Debugger Int :=
  setHardwareStoppoint address .execute 1

def setWatchpoint (address : Word) (mode : StoppointMode) (size : Nat) : Debugger Int :=
  setHardwareStoppoint address mode size

end Debugger

/-- A relation that writing a debug register of any thread respects. -/
def DebugRegisterFrame (R : Machine → Machine → Prop) : Prop :=
  ∀ (tid : Tid) (index : Int) (id : RegisterId) (val : Value), debugRegister index = .ok id →
    Respects R (writeRegister tid id val true)

section Frame

variable {R : Machine → Machine → Prop} [Std.Refl R] [IsTrans Machine R]

theorem readRegister_respects (tid : Tid) (id : RegisterId) :
    Respects R (readRegister tid id) :=
  Respects.bind (Respects.asks _) fun _ => Respects.ofExcept _

namespace DebugRegisterFrame

theorem replayOnOtherThreads (h : DebugRegisterFrame R) {index : Int} {slot : RegisterId}
    (hslot : debugRegister index = .ok slot) (address : Value) (control : Word) :
    Respects R (replayOnOtherThreads slot address control) := by
  refine Respects.bind Respects.get fun m => Respects.forEach fun tid _ => ?_
  exact Respects.ite (Respects.pure _)
    (Respects.bind (h tid index slot _ hslot) fun _ => h tid 7 .dr7 _ rfl)

/-- Programming starts with a note; what follows writes debug registers only. -/
theorem setHardwareStoppoint_noted (h : DebugRegisterFrame R) (address : Word)
    (mode : StoppointMode) (size : Nat) :
    ∃ rest, setHardwareStoppoint address mode size = (do mark .programmed; rest) ∧
      Respects R rest := by
  refine ⟨_, rfl, ?_⟩
  refine Respects.bind Respects.get fun m => ?_
  refine Respects.bind (readRegister_respects _ _) fun control => ?_
  refine Respects.bind (Respects.ofExcept _) fun slot => ?_
  refine Respects.bindOfExcept fun id hid => ?_
  refine Respects.bind (h _ _ _ _ hid) fun _ => ?_
  refine Respects.bind (Respects.ofExcept _) fun sizeFlag => ?_
  refine Respects.bind (h _ 7 _ _ rfl) fun _ => ?_
  exact Respects.bind (h.replayOnOtherThreads hid _ _) fun _ => Respects.pure _

theorem clearHardwareStoppoint_noted (h : DebugRegisterFrame R) (index : Int) :
    ∃ rest, clearHardwareStoppoint index = (do mark .programmed; rest) ∧ Respects R rest := by
  refine ⟨_, rfl, ?_⟩
  refine Respects.bind Respects.get fun m => ?_
  refine Respects.bindOfExcept fun id hid => ?_
  refine Respects.bind (h _ _ _ _ hid) fun _ => ?_
  refine Respects.bind (readRegister_respects _ _) fun control => ?_
  refine Respects.bind (h _ 7 _ _ rfl) fun _ => ?_
  exact h.replayOnOtherThreads hid _ _

theorem setHardwareStoppoint (h : DebugRegisterFrame R)
    (hnote : ∀ m observation, Observation.isSiteNote observation = true →
      R m (Machine.observe observation m)) (address : Word) (mode : StoppointMode) (size : Nat) :
    Respects R (setHardwareStoppoint address mode size) := by
  obtain ⟨rest, heq, hrest⟩ := h.setHardwareStoppoint_noted address mode size
  rw [heq]
  exact Respects.bind (Respects.modify fun m => hnote m _ rfl) fun _ => hrest

theorem clearHardwareStoppoint (h : DebugRegisterFrame R)
    (hnote : ∀ m observation, Observation.isSiteNote observation = true →
      R m (Machine.observe observation m)) (index : Int) :
    Respects R (clearHardwareStoppoint index) := by
  obtain ⟨rest, heq, hrest⟩ := h.clearHardwareStoppoint_noted index
  rw [heq]
  exact Respects.bind (Respects.modify fun m => hnote m _ rfl) fun _ => hrest

end DebugRegisterFrame

end Frame

/-- What register traffic never touches: the inferior's memory and every part
of the process except the cached registers. -/
structure Untouched (m m' : Machine) : Prop where
  memory : m'.kernel.memory = m.kernel.memory
  mapped : m'.kernel.mapped = m.kernel.mapped
  iovMax : m'.kernel.iovMax = m.kernel.iovMax
  sites : m'.process.breakpointSites = m.process.breakpointSites

instance : Std.Refl Untouched := ⟨fun _ => ⟨rfl, rfl, rfl, rfl⟩⟩

instance : IsTrans Machine Untouched := ⟨fun _ _ _ h h' =>
  ⟨h'.memory.trans h.memory, h'.mapped.trans h.mapped, h'.iovMax.trans h.iovMax,
    h'.sites.trans h.sites⟩⟩

/-- A relation that leaves room for new contents of the cached and the real
registers is respected by every register write. -/
theorem writeRegister_respects {R : Machine → Machine → Prop} [Std.Refl R]
    [IsTrans Machine R] {tid : Tid} (hcached : ∀ f : Registers → Registers,
      Respects R (updateThread tid fun t => { t with regs := f t.regs }))
    (huser : ∀ m user, R m (Machine.setUser tid user m)) (id : RegisterId) (val : Value)
    (commit : Bool) : Respects R (writeRegister tid id val commit) := by
  refine Respects.bind (Respects.ofExcept _) fun info => ?_
  refine Respects.bind (Respects.asks _) fun thread => ?_
  refine Respects.bind (Respects.ofExcept _) fun regs => ?_
  refine Respects.bind (hcached fun _ => regs) fun _ => ?_
  have hmodify : ∀ user, Respects R (modify (Machine.setUser tid user) : Debugger PUnit) :=
    fun user m => huser m user
  refine Respects.ite (Respects.ite ?_ ?_) (Respects.pure _)
  · exact Respects.bind Respects.get fun _ => Respects.ite (hmodify _) (Respects.throw _)
  · exact Respects.bind Respects.get fun _ => Respects.ite (hmodify _) (Respects.throw _)

theorem debugRegisterFrame_untouched : DebugRegisterFrame Untouched :=
  fun _ _ id val _ =>
    writeRegister_respects (fun _ _ => ⟨rfl, rfl, rfl, rfl⟩)
      (fun _ _ => ⟨rfl, rfl, rfl, rfl⟩) id val true

end Gsdb
