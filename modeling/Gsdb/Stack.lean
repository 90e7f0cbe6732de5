/-
The call stack of a thread as the debugger shows it.  A physical frame becomes
one frame for every function that is inlined at its program counter; the inline
height hides the frames of inlined functions that execution is only about to
enter.
-/
import Gsdb.BreakpointSites
import Gsdb.CallFrameUnwind
import Gsdb.DebugInfo

namespace Gsdb

open ByteMemory

/-- `source_location`; the file is absent in the entry of an iterator at the
end. -/
structure SourceLocation where
  file : Option (List Byte)
  line : Word
deriving DecidableEq, Repr

/-- The line entry that covers an address: where it starts, and the location. -/
structure LineRow where
  address : FileAddr
  location : SourceLocation

/-- `stack_frame`. -/
structure StackFrame where
  regs : Registers
  backtraceReportAddress : Word
  funcDie : Die
  inlined : Bool
  location : SourceLocation

/-- `gsdb::stack`, without the thread and the target it belongs to. -/
structure Stack where
  inlineHeight : Nat
  frames : List StackFrame
  currentFrame : Nat

/-- What the stack asks the debug information of the loaded files: the functions
at an address, the outermost one first, with their first addresses and call
sites, and the line entry that covers it. -/
structure StackEnv where
  elves : ElfCollection
  ehHdr : Nat → EhHdr
  inlineStackAtAddress : FileAddr → Except Failure (List Die)
  lowPc : Die → Except Failure FileAddr
  location : Die → Except Failure SourceLocation
  lineEntryAtAddress : FileAddr → Except Failure (Option LineRow)
  frameBase : Word → Except Failure (Option (List Byte))
  enumerate : Ruleset → List (BitVec 32 × RegisterRule)
  rounds : Nat
  depth : Nat

/-- `process::get_registers`; without a thread those of the current one. -/
def Machine.getRegisters (m : Machine) (otid : Option Tid) : Except Failure Registers :=
  match m.thread? (otid.getD m.process.currentThread) with
  | some thread => .ok thread.regs
  | none => .error (.exception "out_of_range")

/-- `process::get_pc`. -/
def Machine.getPc (m : Machine) (otid : Option Tid) : Except Failure Word := do
  let regs ← m.getRegisters otid
  regs.readU64 .rip

/-- `target::get_pc_file_address`. -/
def StackEnv.getPcFileAddress (env : StackEnv) (m : Machine) (otid : Option Tid) :
    Except Failure FileAddr := do
  let pc ← m.getPc otid
  pure (toFileAddr env.elves pc)

namespace StackEnv

/-- What unwinding takes from the files and from the memory of the inferior. -/
def unwindEnv (env : StackEnv) (m : Machine) : UnwindEnv :=
  { elves := env.elves
    ehHdr := env.ehHdr
    readMemory := readMemory m
    frameBase := env.frameBase
    enumerate := env.enumerate
    rounds := env.rounds
    depth := env.depth }

/-- `stack::inline_stack_at_pc`. -/
def inlineStackAtPc (env : StackEnv) (m : Machine) (tid : Tid) : Except Failure (List Die) := do
  let pc ← env.getPcFileAddress m (some tid)
  if pc.elf = none then pure [] else env.inlineStackAtAddress pc

/-- The loop of `stack::reset_inline_height`, from the innermost function
outwards: how many start at a program counter. -/
def countStarts (env : StackEnv) (pc : FileAddr) : List Die → Nat × Except Failure Unit
  | [] => (0, .ok ⟨⟩)
  | die :: rest =>
      match env.lowPc die with
      | .error failure => (0, .error failure)
      | .ok lowPc =>
          if lowPc = pc then
            let (height, result) := env.countStarts pc rest
            (height + 1, result)
          else (0, .ok ⟨⟩)

/-- `stack::create_base_frame`.  The default line entry has line one and no
file. -/
def createBaseFrame (env : StackEnv) (regs : Registers) (die : Die) (pc : FileAddr)
    (inlined : Bool) : Except Failure StackFrame := do
  let backtracePc ← pc.toVirtAddr env.elves
  match ← env.lineEntryAtAddress pc with
  | none => pure ⟨regs, backtracePc, die, inlined, ⟨none, 1⟩⟩
  | some row => do
      let backtracePc ← row.address.toVirtAddr env.elves
      pure ⟨regs, backtracePc, die, inlined, row.location⟩

/-- `stack::create_inline_stack_frames`, over the functions from the innermost
one outwards: a frame for every one but the first. -/
def createInlineStackFrames (env : StackEnv) (regs : Registers) :
    List Die → List StackFrame × Except Failure Unit
  | inner :: die :: rest =>
      match (do
        let lowPc ← env.lowPc inner
        let inlinedPc ← lowPc.toVirtAddr env.elves
        let location ← env.location inner
        pure (inlinedPc, location) : Except Failure (Word × SourceLocation)) with
      | .error failure => ([], .error failure)
      | .ok (inlinedPc, location) =>
          let (frames, result) := env.createInlineStackFrames regs (die :: rest)
          (⟨regs, inlinedPc, die, rest ≠ [], location⟩ :: frames, result)
  | _ => ([], .ok ⟨⟩)

/-- The frames of a physical frame, given the functions at its program counter
from the innermost one outwards. -/
def createFrames (env : StackEnv) (regs : Registers) (pc : FileAddr) (inner : Die)
    (outer : List Die) : List StackFrame × Except Failure Unit :=
  match env.createBaseFrame regs inner pc (outer ≠ []) with
  | .error failure => ([], .error failure)
  | .ok base =>
      let (frames, result) := env.createInlineStackFrames regs (inner :: outer)
      (base :: frames, result)

end StackEnv

/-- Give the registers of the last frame a new value. -/
def setLastRegs (frames : List StackFrame) (regs : Registers) : List StackFrame :=
  match frames.reverse with
  | [] => []
  | last :: before => before.reverse ++ [{ last with regs := regs }]

/-- A physical frame that the loop went through: its registers and program
counter, the functions there, the frames that were created for it and, where it
was unwound, its canonical frame address. -/
structure PhysicalFrame where
  regs : Registers
  pc : FileAddr
  inlineStack : List Die
  frames : List StackFrame
  cfa : Option Word

/-- How a round of the loop of `stack::unwind` ends: the loop is left, by the
condition or by an exception, or goes on with other registers. -/
inductive UnwindRound where
  | done (created : Option PhysicalFrame) (result : Except Failure Unit)
  | next (created : PhysicalFrame) (regs : Registers) (virtPc : Word)

/-- What follows the creation of the frames: unwind, and read the program counter
of the caller.  An exception ends the loop. -/
def StackEnv.unwindCaller (env : StackEnv) (m : Machine) (physical : PhysicalFrame) :
    UnwindRound :=
  let (callee, result) := (env.unwindEnv m).unwind physical.pc physical.regs
  let physical := { physical with frames := setLastRegs physical.frames callee }
  match (do
    let regs ← result
    let rip ← regs.readU64 .rip
    pure (regs, rip) : Except Failure (Registers × Word)) with
  | .error failure =>
      .done (some { physical with cfa := result.toOption.map fun _ => callee.cfa })
        (if failure.isException then .ok ⟨⟩ else .error failure)
  | .ok (regs, rip) => .next { physical with cfa := some callee.cfa } regs (rip - 1)

/-- One round of the loop of `stack::unwind`. -/
def StackEnv.unwindRound (env : StackEnv) (m : Machine) (regs : Registers) (virtPc : Word) :
    UnwindRound :=
  let filePc := toFileAddr env.elves virtPc
  if virtPc = 0 ∨ filePc.elf = none then .done none (.ok ⟨⟩)
  else
    match env.inlineStackAtAddress filePc with
    | .error failure => .done none (.error failure)
    | .ok inlineStack =>
        match inlineStack.reverse with
        | [] => .done none (.ok ⟨⟩)
        | inner :: outer =>
            let (frames, result) := env.createFrames regs filePc inner outer
            let physical : PhysicalFrame := ⟨regs, filePc, inlineStack, frames, none⟩
            match result with
            | .error failure => .done (some physical) (.error failure)
            | .ok _ => env.unwindCaller m physical

/-- The loop of `stack::unwind`, given up after a number of rounds: the physical
frames, and how it ended. -/
def StackEnv.unwindLoop (env : StackEnv) (m : Machine) :
    Nat → Registers → Word → List PhysicalFrame × Except Failure Unit
  | 0, _, _ => ([], .error .schedule)
  | rounds + 1, regs, virtPc =>
      match env.unwindRound m regs virtPc with
      | .done created result => (created.toList, result)
      | .next created regs virtPc =>
          let (rest, result) := env.unwindLoop m rounds regs virtPc
          (created :: rest, result)

namespace Stack

/-- `stack::reset_inline_height`.  The functions are those at the program counter
of the thread, the program counter is that of the current thread. -/
def resetInlineHeight (env : StackEnv) (m : Machine) (tid : Tid) (stack : Stack) :
    Stack × Except Failure Unit :=
  match env.inlineStackAtPc m tid with
  | .error failure => (stack, .error failure)
  | .ok inlineStack =>
      match env.getPcFileAddress m none with
      | .error failure => ({ stack with inlineHeight := 0 }, .error failure)
      | .ok pc =>
          let (height, result) := env.countStarts pc inlineStack.reverse
          ({ stack with inlineHeight := height }, result)

/-- What `stack::unwind` does after the inline height was set: the physical
frames of the thread. -/
def physicalFrames (env : StackEnv) (m : Machine) (tid : Tid) (rounds : Nat) :
    Except Failure (List PhysicalFrame × Except Failure Unit) := do
  let virtPc ← m.getPc (some tid)
  let regs ← m.getRegisters (some tid)
  if (toFileAddr env.elves virtPc).elf = none then pure ([], .ok ⟨⟩)
  else pure (env.unwindLoop m rounds regs virtPc)

/-- `stack::unwind` for a thread. -/
def unwind (env : StackEnv) (m : Machine) (tid : Tid) (rounds : Nat) (stack : Stack) :
    Stack × Except Failure Unit :=
  match resetInlineHeight env m tid stack with
  | (stack, .error failure) => (stack, .error failure)
  | (stack, .ok _) =>
      let stack := { stack with currentFrame := stack.inlineHeight }
      match physicalFrames env m tid rounds with
      | .error failure => (stack, .error failure)
      | .ok (physical, result) =>
          ({ stack with frames := physical.flatMap PhysicalFrame.frames }, result)

/-- `stack::simulate_inlined_step_in`, where the inline height is not zero. -/
def simulateInlinedStepIn (stack : Stack) : Stack :=
  { stack with inlineHeight := stack.inlineHeight - 1, currentFrame := stack.inlineHeight - 1 }

def hasFrames (stack : Stack) : Bool := stack.frames ≠ []

end Stack

end Gsdb
