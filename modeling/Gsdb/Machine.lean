/-
The traced process as the debugger sees it, and the kernel on the other side
of `ptrace`, `waitpid` and `process_vm_readv`.  The kernel's part of every
nondeterministic choice (which thread stops next, why, and with which
registers and memory) is a script of wait answers, so that a statement about
every script is a statement about every interleaving.
-/
import Gsdb.Registers
import Gsdb.StoppointCollection
import Gsdb.Types

namespace Gsdb

open ByteMemory Effects

abbrev Tid := Nat

inductive ProcessState where
  | stopped | running | exited | terminated
deriving DecidableEq, Repr

inductive TrapType where
  | singleStep | softwareBreak | hardwareBreak | syscall | clone | unknown
deriving DecidableEq, Repr

/-- The union of `syscall_information`. -/
inductive SyscallData where
  | args (values : List Word)
  | ret (value : Word)
deriving DecidableEq, Repr

structure SyscallInformation where
  id : BitVec 16
  entry : Bool
  data : SyscallData
deriving DecidableEq, Repr

structure StopReason where
  tid : Tid
  reason : ProcessState
  info : Byte
  trapReason : Option TrapType
  syscallInfo : Option SyscallInformation
deriving DecidableEq, Repr

def sigtrap : Byte := 5
def sigstop : Byte := 19

/-- `PTRACE_EVENT_CLONE`. -/
def eventClone : Byte := 3

namespace StopReason

def isStep (reason : StopReason) : Bool :=
  reason.reason = .stopped ∧ reason.info = sigtrap ∧ reason.trapReason = some .singleStep

def isBreakpoint (reason : StopReason) : Bool :=
  reason.reason = .stopped ∧ reason.info = sigtrap ∧
    (reason.trapReason = some .softwareBreak ∨ reason.trapReason = some .hardwareBreak)

end StopReason

structure ThreadState where
  regs : Registers
  reason : StopReason
  state : ProcessState
  pendingSigstop : Bool

inductive CatchMode where
  | none | some | all
deriving DecidableEq, Repr

structure SyscallCatchPolicy where
  mode : CatchMode
  toCatch : List Nat
deriving DecidableEq, Repr

inductive StoppointMode where
  | write | readWrite | execute
deriving DecidableEq, Repr

/-- `gsdb::breakpoint_site`; `parent` is the position of the owning breakpoint
in the target's list. -/
structure BreakpointSite where
  parent : Option Nat
  id : Int
  address : Word
  isEnabled : Bool
  savedData : Byte
  isHardware : Bool
  isInternal : Bool
  hardwareRegisterIndex : Int
deriving DecidableEq, Repr

instance : Stoppoint BreakpointSite where
  id := BreakpointSite.id
  atAddress site address := site.address = address
  inRange site low high := low ≤ site.address ∧ site.address < high
  isEnabled := BreakpointSite.isEnabled

structure Watchpoint where
  id : Int
  address : Word
  isEnabled : Bool
  mode : StoppointMode
  size : Nat
  hardwareRegisterIndex : Int
  data : Word
  previousData : Word
deriving DecidableEq, Repr

instance : Stoppoint Watchpoint where
  id := Watchpoint.id
  atAddress point address := point.address = address
  inRange point low high := low ≤ point.address ∧ point.address < high
  isEnabled := Watchpoint.isEnabled

/-- The hit handlers the debugger installs: resolve the dynamic linker's
rendezvous structure, reload the libraries, or just stop. -/
inductive HitHandler where
  | resolveRendezvous | reloadLibraries | stop
deriving DecidableEq, Repr

/-- `gsdb::breakpoint`: the addresses of the sites it resolved to, the number
of its next site and its hit handler. -/
structure Breakpoint where
  id : Int
  isEnabled : Bool
  isHardware : Bool
  isInternal : Bool
  sites : List Word
  nextSiteId : Int
  onHit : Option HitHandler
deriving DecidableEq, Repr

instance : Stoppoint Breakpoint where
  id := Breakpoint.id
  atAddress point address := point.sites.contains address
  inRange point low high := point.sites.any fun site => low ≤ site ∧ site < high
  isEnabled := Breakpoint.isEnabled

/-- The argument of `WIFEXITED` and its siblings.  A stop carries the signal
and, for an event stop, the event number above it. -/
inductive WaitStatus where
  | exited (code : Byte)
  | signaled (sig : Byte)
  | stopped (sig : Byte) (event : Byte)
deriving DecidableEq, Repr

/-- `siginfo_t::si_code`, as far as it is inspected. -/
inductive SiCode where
  | trapTrace | siKernel | trapHwbkpt | other
deriving DecidableEq, Repr

/-- A state change that `waitpid` reports: the thread, its status, and the
registers and memory at that moment. -/
structure WaitEvent where
  tid : Tid
  status : WaitStatus
  siCode : SiCode
  user : User
  memory : Memory 64

inductive WaitAnswer where
  | report (event : WaitEvent)
  | fails

inductive ThreadStatus where
  | absent | running | stopped
deriving DecidableEq, Repr

structure KernelThread where
  status : ThreadStatus
  user : User
  siCode : SiCode

/-- The kernel: memory and what is mapped, the number of descriptors it takes
in one vectored read, its threads, and the answers it will give to waits. -/
structure Kernel where
  memory : Memory 64
  mapped : Word → Bool
  iovMax : Nat
  threads : Tid → KernelThread
  script : List WaitAnswer

/-- `gsdb::process` together with the target's breakpoints and results and the
static identifier counters.  `threads` is in the order in which the map
enumerates. -/
structure Process where
  pid : Tid
  state : ProcessState
  isAttached : Bool
  breakpointSites : StoppointCollection BreakpointSite
  watchpoints : StoppointCollection Watchpoint
  breakpoints : StoppointCollection Breakpoint
  policy : SyscallCatchPolicy
  expectingSyscallExit : Bool
  threads : List (Tid × ThreadState)
  currentThread : Tid
  nextSiteId : Int
  nextWatchpointId : Int
  expressionResults : List TypedData

/-- The request with which a stopped thread is let run. -/
inductive RunRequest where
  | cont | syscall | singleStep
deriving DecidableEq, Repr

/-- The functions that collect a state change. -/
inductive Waiter where
  | waitOnSignal | stopRunningThreads | swallowPendingSigstop | stepOverBreakpoint
deriving DecidableEq, Repr

/-- The inferior and the debugger's records at one moment. -/
structure Moment where
  kernel : Kernel
  process : Process

/-- A state change as it reached the debugger, the function that collected it
and the moment before.  `atSite` tells whether an enabled site stands on the
byte before the program counter. -/
structure Delivery where
  tid : Tid
  status : WaitStatus
  siCode : SiCode
  user : User
  atSite : Bool
  waiter : Waiter
  before : Moment

/-- What passes between the debugger and its surroundings: a state change that
was delivered, a stop that was decoded, a thread reported as new or gone, and
the registers of a thread set for a call, put back after it, or moved down by
the size of an object on the stack.  A thread is let run or sent a `SIGSTOP`.
The program counter of a thread is read to see whether it stands at a site, a
site is lifted for the thread and laid again, or operated on by anyone else, and
the debug registers of all threads are programmed. -/
inductive Observation where
  | delivered (delivery : Delivery)
  | augmented (reason : StopReason)
  | lifecycle (reason : StopReason)
  | committed (tid : Tid)
  | restored (tid : Tid)
  | spilled (tid : Tid) (size : Word)
  | letRun (tid : Tid) (request : RunRequest) (moment : Moment)
  | sentSigstop (tid : Tid)
  | sampledPc (tid : Tid) (moment : Moment)
  | lifted (tid : Tid) (address : Word) (moment : Moment)
  | relaid (address : Word)
  | touched (address : Word)
  | programmed (moment : Moment)

/-- The observations by which the debugger only notes what it is doing. -/
def Observation.isNote : Observation → Bool
  | .sentSigstop _ | .sampledPc _ _ | .lifted _ _ _ | .relaid _ | .touched _
  | .programmed _ => true
  | _ => false

/-- The notes of operations on stoppoints. -/
def Observation.isSiteNote : Observation → Bool
  | .touched _ | .programmed _ => true
  | _ => false

/-- The debugger and its inferior.  `trace` lists the observations, newest
first; no operation reads it. -/
structure Machine where
  kernel : Kernel
  process : Process
  trace : List Observation

abbrev Debugger (α : Type) := Eff Failure Machine α

namespace Machine

def setProcess (f : Process → Process) (m : Machine) : Machine :=
  { m with process := f m.process }

def setMemory (memory : Memory 64) (m : Machine) : Machine :=
  { m with kernel := { m.kernel with memory := memory } }

def setUser (tid : Tid) (user : User) (m : Machine) : Machine :=
  { m with kernel := { m.kernel with
      threads := Function.update m.kernel.threads tid
        { m.kernel.threads tid with user := user } } }

def observe (observation : Observation) (m : Machine) : Machine :=
  { m with trace := observation :: m.trace }

def moment (m : Machine) : Moment := ⟨m.kernel, m.process⟩

/-- All eight bytes of the word at an address are mapped. -/
def wordMapped (m : Machine) (address : Word) : Bool :=
  (List.range 8).all fun i => m.kernel.mapped (address + BitVec.ofNat 64 i)

/-- A thread can be operated on only while it is in a ptrace stop. -/
def isStopped (m : Machine) (tid : Tid) : Bool :=
  (m.kernel.threads tid).status = .stopped

/-- `threads_.find(tid)`. -/
def thread? (m : Machine) (tid : Tid) : Option ThreadState :=
  (m.process.threads.find? fun entry => entry.1 = tid).map (·.2)

/-- A stopped process over a memory, nothing set up and nothing to come. -/
def atRest (memory : Memory 64) : Machine where
  kernel :=
    { memory := memory
      mapped := fun _ => true
      iovMax := 1024
      threads := fun _ => ⟨.stopped, fun _ => 0, .other⟩
      script := [] }
  process :=
    { pid := 1
      state := .stopped
      isAttached := true
      breakpointSites := []
      watchpoints := []
      breakpoints := []
      policy := ⟨.none, []⟩
      expectingSyscallExit := false
      threads := []
      currentThread := 1
      nextSiteId := 0
      nextWatchpointId := 0
      expressionResults := [] }
  trace := []

end Machine

namespace Debugger

open Eff

def fail {α : Type} (what : String) : Debugger α := throw (.error what)

def failErrno {α : Type} (what : String) : Debugger α := throw (.errno what)

def modifyProcess (f : Process → Process) : Debugger PUnit := modify (Machine.setProcess f)

/-- Note an observation of the present moment. -/
def mark (observation : Moment → Observation) : Debugger PUnit :=
  modify fun m => m.observe (observation m.moment)

/-- `threads_.at(tid)`. -/
def threadAt (tid : Tid) : Debugger ThreadState :=
  asks fun m => match m.thread? tid with
    | some thread => .ok thread
    | none => .error (.exception "out_of_range")

/-- Update an entry of `threads_` in place; without the entry nothing happens. -/
def updateThread (tid : Tid) (f : ThreadState → ThreadState) : Debugger PUnit :=
  modifyProcess fun p => { p with
    threads := p.threads.map fun entry => if entry.1 = tid then (entry.1, f entry.2) else entry }

/-- `PTRACE_PEEKDATA` on the main thread. -/
def peekData (address : Word) (what : String) : Debugger Word := do
  let m ← get
  if m.isStopped m.process.pid ∧ m.wordMapped address then
    pure (BitVec.ofNat 64 (ofLe (m.kernel.memory.read address 8)))
  else failErrno what

/-- `PTRACE_POKEDATA` on the main thread. -/
def pokeData (address data : Word) (what : String) : Debugger PUnit := do
  let m ← get
  if m.isStopped m.process.pid ∧ m.wordMapped address then
    modify (Machine.setMemory (m.kernel.memory.write address (toLe 8 data.toNat)))
  else failErrno what

/-- `process::write_user_area`, given the word as bytes. -/
def writeUserArea (offset : Nat) (bytes : List Byte) (tid : Tid) : Debugger PUnit := do
  let m ← get
  if m.isStopped tid then
    modify (Machine.setUser tid ((m.kernel.threads tid).user.write offset bytes))
  else failErrno "Could not write to user area"

/-- `process::write_fprs`. -/
def writeFprs (data : User) (tid : Tid) : Debugger PUnit := do
  let m ← get
  if m.isStopped tid then
    modify (Machine.setUser tid ((m.kernel.threads tid).user.copy data i387Offset i387Size))
  else failErrno "Could not write floating point registers"

/-- `process::write_gprs`. -/
def writeGprs (data : User) (tid : Tid) : Debugger PUnit := do
  let m ← get
  if m.isStopped tid then
    modify (Machine.setUser tid ((m.kernel.threads tid).user.copy data regsOffset regsSize))
  else failErrno "Could not write general purpose registers"

/-- `registers::write` on the cached registers of a thread.  Floating point
registers are committed as a block, the others as the aligned word around. -/
def writeRegister (tid : Tid) (id : RegisterId) (val : Value) (commit : Bool) :
    Debugger PUnit := do
  let info ← ofExcept (registerInfoById id)
  let thread ← threadAt tid
  let regs ← ofExcept (thread.regs.writeData info val)
  updateThread tid fun t => { t with regs := regs }
  if commit then
    if info.type = .fpr then writeFprs regs.data tid
    else
      let aligned := info.offset / 8 * 8
      writeUserArea aligned (regs.data.read aligned 8) tid
  else pure ⟨⟩

/-- `read_by_id_as<std::uint64_t>` on the cached registers of a thread. -/
def readRegister (tid : Tid) (id : RegisterId) : Debugger Word := do
  let thread ← threadAt tid
  ofExcept (thread.regs.readU64 id)

/-- `registers::flush`: the floating point block, the general purpose block,
then every debug register except the aliases DR4 and DR5. -/
def flush (tid : Tid) : Debugger PUnit := do
  let thread ← threadAt tid
  writeFprs thread.regs.data tid
  writeGprs thread.regs.data tid
  forEach (fun i =>
    let offset := debugregOffset + 8 * i
    writeUserArea offset (thread.regs.data.read offset 8) tid) [0, 1, 2, 3, 6, 7]

end Debugger

end Gsdb
