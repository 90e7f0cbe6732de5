/-
Stepping over a line.  The thread is stepped like on the way into a function, but for two
places: where functions begin it is run to the end of the outermost that was not entered yet,
inlined or not, and at a call to the instruction behind it.  What the instructions are is asked
of the disassembler, which is given the memory without the traps.
-/
import Gsdb.Evaluation
import Gsdb.StepIn

namespace Gsdb

open ByteMemory Effects Eff Debugger

/-- `disassembler::instruction`. -/
structure Instruction where
  address : Word
  text : Text
deriving DecidableEq, Repr

/-- What stepping over a line asks besides: the length and the text of the instruction with which
some bytes at an address begin. -/
structure StepOverEnv extends StepInEnv where
  decode : Word → List Byte → Option (Nat × Text)

namespace StepOverEnv

/-- The loop of `disassembler::disassemble`. -/
def instructionsFrom (env : StepOverEnv) : Nat → Word → List Byte → List Instruction
  | 0, _, _ => []
  | count + 1, address, code =>
      match env.decode address code with
      | none => []
      | some (length, text) =>
          ⟨address, text⟩ :: env.instructionsFrom count (address + BitVec.ofNat 64 length)
            (code.drop length)

/-- `disassembler::disassemble`. -/
def disassemble (env : StepOverEnv) (m : Machine) (count : Nat) (address : Word) :
    Except Failure (List Instruction) := do
  let code ← readMemoryWithoutTraps m address (count * 15)
  pure (env.instructionsFrom count address code)

end StepOverEnv

/-- Where the first instruction ends, if it is a call. -/
def behindCall (instructions : List Instruction) : Except Failure (Option Word) := do
  let next ← inBounds instructions[0]?
  if (ascii "call").isPrefixOf next.text then do
    let behind ← inBounds instructions[1]?
    pure (some behind.address)
  else pure none

/-- The innermost of the functions at a program counter is the last; the outermost of those that
were not entered yet is the one to skip. -/
def frameToSkip (inlineStack : List Die) (inlineHeight : Nat) : Except Failure Die :=
  if inlineHeight ≤ inlineStack.length then inBounds inlineStack[inlineStack.length - inlineHeight]?
  else .error (.undefined "vector index")

namespace Debugger

/-- The address that a round of `target::step_over` runs to, if it does not step. -/
def overAddress (env : StepOverEnv) (tid : Tid) (stack : Stack) : Debugger (Option Word) := do
  let m ← get
  let inlineStack ← ofExcept (env.inlineStackAtPc m tid)
  if 0 < stack.inlineHeight then do
    let die ← ofExcept (frameToSkip inlineStack stack.inlineHeight)
    let highPc ← ofExcept (env.highPc die)
    let returnAddress ← ofExcept (highPc.toVirtAddr env.elves)
    pure (some returnAddress)
  else do
    let pc ← getPc tid
    let instructions ← ofExcept (env.disassemble m 2 pc)
    ofExcept (behindCall instructions)

/-- A round of `target::step_over`, and whether it is to be the last whatever line it led to. -/
def stepOverRound (env : StepOverEnv) (tid : Tid) (stack : Stack) :
    Debugger (StopReason × Stack × Bool) := do
  match ← overAddress env tid stack with
  | some address => do
      let (reason, stack) ← runAndUnwind env.toStepEnv address tid stack
      if !reason.isStep then pure (reason, stack, true)
      else do
        let pc ← getPc tid
        pure (reason, stack, decide (pc ≠ address))
  | none => do
      let (reason, stack) ← stepAndUnwind env.toStepEnv tid stack
      pure (reason, stack, !reason.isStep)

/-- The loop of `target::step_over`, given up after a number of rounds. -/
def stepOverLoop (env : StepOverEnv) (tid : Tid) (origLine : Option LineAt) :
    Nat → Stack → Debugger (StopReason × Stack)
  | 0, _ => throw .schedule
  | rounds + 1, stack => do
      let (reason, stack, last) ← stepOverRound env tid stack
      if last then do
        let reason ← report tid reason
        pure (reason, stack)
      else do
        let m ← get
        let line ← ofExcept (env.lineEntryAtPc m (some tid))
        if (LineAt.same line origLine || LineAt.endSequence line) && line.isSome then
          stepOverLoop env tid origLine rounds stack
        else do
          let reason ← report tid reason
          pure (reason, stack)

/-- `target::step_over`, for a thread with a stack. -/
def stepOver (env : StepOverEnv) (rounds : Nat) (otid : Option Tid) (stack : Stack) :
    Debugger (StopReason × Stack) := do
  let m ← get
  let tid := otid.getD m.process.currentThread
  let origLine ← ofExcept (env.lineEntryAtPc m (some tid))
  stepOverLoop env tid origLine rounds stack

end Debugger

section Places

variable {m m' : Machine} {tid : Tid} {pc : Word}

/-- `target::line_entry_at_pc`, for a program counter. -/
def StepInEnv.lineEntryAt (env : StepInEnv) (address : Word) : Except Failure (Option LineAt) := do
  let pc := toFileAddr env.elves address
  match pc.elf with
  | none => pure none
  | some elf => do
      match ← env.compileUnitContainingAddress pc with
      | none => pure none
      | some cu => do
          let table ← env.lines cu
          let (found, _) ← table.getEntryByAddress pc.addr
          pure (found.map fun it => LineAt.mk elf cu table it)

/-- `stack::inline_stack_at_pc`, for a program counter. -/
def StackEnv.inlineStackAt (env : StackEnv) (address : Word) : Except Failure (List Die) :=
  let pc := toFileAddr env.elves address
  if pc.elf = none then pure [] else env.inlineStackAtAddress pc

/-- A number of functions, from the innermost one outwards, begin at a program counter. -/
def StackEnv.StartsAt (env : StackEnv) (pc : Word) (height : Nat) : Prop :=
  ∀ inlineStack, env.inlineStackAt pc = .ok inlineStack →
    ∀ die ∈ inlineStack.reverse.take height, env.lowPc die = .ok (toFileAddr env.elves pc)

theorem lineEntryAtPc_eq (env : StepInEnv) {otid : Option Tid} (hpc : m.getPc otid = .ok pc) :
    env.lineEntryAtPc m otid = env.lineEntryAt pc := by
  rw [StepInEnv.lineEntryAtPc, StackEnv.getPcFileAddress, hpc]
  rfl

theorem inlineStackAtPc_eq (env : StackEnv) (hpc : m.getPc (some tid) = .ok pc) :
    env.inlineStackAtPc m tid = env.inlineStackAt pc := by
  rw [StackEnv.inlineStackAtPc, StackEnv.getPcFileAddress, hpc]
  rfl

/-- The functions that are counted begin at the program counter. -/
theorem countStarts_take (env : StackEnv) (pc : FileAddr) (inner : List Die) :
    ∀ die ∈ inner.take (env.countStarts pc inner).1, env.lowPc die = .ok pc := by
  induction inner with
  | nil => exact fun die hdie => by cases hdie
  | cons first rest ih =>
      intro die hdie
      rw [StackEnv.countStarts] at hdie
      cases hlow : env.lowPc first with
      | error failure =>
          simp only [hlow, List.take_zero] at hdie
          cases hdie
      | ok lowPc =>
          by_cases hsame : lowPc = pc
          · simp only [hlow, if_pos hsame, List.take_succ_cons] at hdie
            rcases List.mem_cons.mp hdie with rfl | hrest
            · rw [hlow, hsame]
            · exact ih die hrest
          · simp only [hlow, if_neg hsame, List.take_zero] at hdie
            cases hdie

/-- A process with one thread has no other program counter. -/
theorem getPc_alone {other : Word} (halone : ∀ entry ∈ m.process.threads, entry.1 = tid)
    (hpc : m.getPc (some tid) = .ok pc) (hother : m.getPc none = .ok other) : other = pc := by
  have hcurrent : m.process.currentThread = tid := by
    rw [Machine.getPc, Machine.getRegisters, Option.getD_none] at hother
    cases hthread : m.thread? m.process.currentThread with
    | none =>
        rw [hthread] at hother
        cases hother
    | some thread =>
        obtain ⟨entry, hentry, -⟩ := Option.map_eq_some_iff.mp hthread
        have hkey := List.find?_some hentry
        rw [← halone entry (List.mem_of_find?_eq_some hentry)]
        exact (of_decide_eq_true hkey).symm
  rw [Machine.getPc, Machine.getRegisters, Option.getD_none, hcurrent] at hother
  exact Except.ok.inj (hother.symm.trans hpc)

theorem resetInlineHeight_startsAt {env : StackEnv} (hpc : m.getPc (some tid) = .ok pc)
    (halone : ∀ entry ∈ m.process.threads, entry.1 = tid) (stack : Stack) :
    env.StartsAt pc (Stack.resetInlineHeight env m tid stack).1.inlineHeight := by
  intro inlineStack hinline
  rw [Stack.resetInlineHeight, inlineStackAtPc_eq env hpc, hinline]
  cases hcurrent : env.getPcFileAddress m none with
  | error failure => exact fun die hdie => by cases hdie
  | ok address =>
      rw [StackEnv.getPcFileAddress] at hcurrent
      cases hother : m.getPc none with
      | error failure =>
          rw [hother] at hcurrent
          cases hcurrent
      | ok other =>
          rw [hother, getPc_alone halone hpc hother] at hcurrent
          cases hcurrent
          exact countStarts_take env _ inlineStack.reverse

/-- The functions counted when the stack was unwound begin where the thread stands. -/
theorem notifyStop_startsAt {env : StepEnv} {reason : StopReason} {stack stack' : Stack}
    (hpc : m.getPc (some tid) = .ok pc) (hreason : reason.reason = .stopped)
    (htid : reason.tid = tid) (halone : ∀ entry ∈ m.process.threads, entry.1 = tid)
    (h : notifyStop env tid reason stack m = (.ok stack', m')) :
    env.StartsAt pc stack'.inlineHeight := by
  have hheight : (stack.unwind env.toStackEnv m tid env.unwindRounds).1.inlineHeight =
      (stack.resetInlineHeight env.toStackEnv m tid).1.inlineHeight := by
    rw [Stack.unwind]
    rcases stack.resetInlineHeight env.toStackEnv m tid with ⟨reset, e | u⟩
    · rfl
    · dsimp only
      split <;> rfl
  have hreset := @resetInlineHeight_startsAt m tid pc env.toStackEnv hpc halone stack
  rw [← hheight] at hreset
  rw [notifyStop, bind_of_ok (get_apply m), if_pos ⟨hreason, htid⟩] at h
  rcases hunwind : stack.unwind env.toStackEnv m tid env.unwindRounds with ⟨unwound, e | u⟩
  · rw [hunwind] at h hreset
    change (if e.isException then pure unwound else throw e : Debugger Stack) m = _ at h
    split at h
    · cases h
      exact hreset
    · cases h
  · rw [hunwind] at h hreset
    cases h
    exact hreset

end Places

end Gsdb
