/-
How the debugger resumes threads and waits for them: decoding why a thread
stopped, recording new threads, running hit handlers, and bringing every other
thread to a stop before a stop is reported.
-/
import Gsdb.BreakpointSites

namespace Gsdb

open ByteMemory Effects Eff Debugger

/-- What a hit handler does to the process: operations on sites, and a new
list of the target's breakpoints. -/
inductive HitAction where
  | site (op : SiteOperation)
  | breakpoints (points : StoppointCollection Breakpoint)

/-- The hit handlers.  They read the inferior and the libraries' files, act on
sites and breakpoints, and answer whether the thread should go on. -/
structure HitHandlers where
  onHit : HitHandler → Machine → List HitAction × Except Failure Bool

/-- `stop_reason::stop_reason(pid_t, int)`. -/
def StopReason.ofWait (tid : Tid) (status : WaitStatus) : StopReason :=
  let trapReason := if status = .stopped sigtrap eventClone then some .clone else none
  match status with
  | .exited code => ⟨tid, .exited, code, trapReason, none⟩
  | .signaled sig => ⟨tid, .terminated, sig, trapReason, none⟩
  | .stopped sig _ => ⟨tid, .stopped, sig, trapReason, none⟩

namespace WaitStatus

def isStop : WaitStatus → Bool
  | .stopped _ _ => true
  | _ => false

end WaitStatus

/-- The program counter in a user area. -/
def User.pc (user : User) : Word := Registers.word user 64 128

namespace Machine

/-- `waitpid` reports a thread it was asked for.  A stopped thread reports
nothing but its end, and a thread that is gone reports nothing. -/
def mayReport (m : Machine) (toAwait : Option Tid) (event : WaitEvent) : Bool :=
  decide (toAwait = none ∨ toAwait = some event.tid) &&
    match (m.kernel.threads event.tid).status with
    | .running => true
    | .stopped => !event.status.isStop
    | .absent => false

def setThreadStatus (tid : Tid) (status : ThreadStatus) (m : Machine) : Machine :=
  { m with kernel := { m.kernel with
      threads := Function.update m.kernel.threads tid
        { m.kernel.threads tid with status := status } } }

def setScript (script : List WaitAnswer) (m : Machine) : Machine :=
  { m with kernel := { m.kernel with script := script } }

/-- A thread changes state. -/
def deliver (waiter : Waiter) (event : WaitEvent) (m : Machine) : Machine :=
  { m with
    kernel := { m.kernel with
      memory := event.memory
      threads := Function.update m.kernel.threads event.tid
        ⟨if event.status.isStop then .stopped else .absent, event.user, event.siCode⟩ }
    trace := .delivered ⟨event.tid, event.status, event.siCode, event.user,
      m.process.breakpointSites.enabledStoppointAtAddress (User.pc event.user - 1), waiter,
      m.moment⟩ :: m.trace }

/-- A stopped thread goes on. -/
def letRun (tid : Tid) (request : RunRequest) (m : Machine) : Machine :=
  (m.setThreadStatus tid .running).observe (.letRun tid request m.moment)

end Machine

namespace Debugger

def waitpid (waiter : Waiter) (toAwait : Option Tid) : Debugger (Option WaitEvent) := do
  let m ← get
  match m.kernel.script with
  | [] => throw .schedule
  | .fails :: rest => do
      modify (Machine.setScript rest)
      pure none
  | .report event :: rest =>
      if m.mayReport toAwait event then do
        modify fun m => (m.deliver waiter event).setScript rest
        pure (some event)
      else throw .schedule

/-- `PTRACE_CONT`, `PTRACE_SYSCALL` and `PTRACE_SINGLESTEP`: the thread runs, if
it was stopped.  How far it gets is left to the events to come. -/
def ptraceRun (request : RunRequest) (tid : Tid) : Debugger Bool := do
  let m ← get
  if m.isStopped tid then do
    modify (Machine.letRun tid request)
    pure true
  else pure false

/-- The blocks of a user area that are read into a register file. -/
def reload (regs : Registers) (user : User) : Registers :=
  { regs with
    data := ((regs.data.copy user regsOffset regsSize).copy user i387Offset i387Size).copy user
      debugregOffset 64 }

/-- `process::read_all_registers`. -/
def readAllRegisters (tid : Tid) : Debugger PUnit := do
  let _ ← threadAt tid
  let m ← get
  if m.isStopped tid then
    updateThread tid fun thread =>
      { thread with regs := reload thread.regs (m.kernel.threads tid).user }
  else failErrno "Could not read GPR registers"

def getPc (tid : Tid) : Debugger Word := readRegister tid .rip

def setPc (address : Word) (tid : Tid) : Debugger PUnit :=
  writeRegister tid .rip (.u64 address) true

/-- The program counter of a thread about to go on. -/
def samplePc (tid : Tid) : Debugger Word := do
  let pc ← getPc tid
  mark (.sampledPc tid)
  pure pc

/-- Take the site at which a thread stands out of its way, for one step. -/
def liftSite (tid : Tid) (bp : Nat) (address : Word) : Debugger PUnit := do
  disableSite bp
  mark (.lifted tid address)

def relaySite (bp : Nat) (address : Word) : Debugger PUnit := do
  enableSite bp
  mark fun _ => .relaid address

/-- `process::swallow_pending_sigstop`; the results of the two system calls
are not looked at. -/
def swallowPendingSigstop (tid : Tid) : Debugger PUnit := do
  let thread ← threadAt tid
  if thread.pendingSigstop then do
    let _ ← ptraceRun .cont tid
    let _ ← waitpid .swallowPendingSigstop (some tid)
    updateThread tid fun t => { t with pendingSigstop := false }
  else pure ⟨⟩

/-- `process::step_over_breakpoint`. -/
def stepOverBreakpoint (tid : Tid) : Debugger PUnit := do
  let pc ← samplePc tid
  let m ← get
  if m.process.breakpointSites.enabledStoppointAtAddress pc then do
    let bp ← ofExcept (m.process.breakpointSites.getByAddress pc)
    liftSite tid bp pc
    swallowPendingSigstop tid
    if !(← ptraceRun .singleStep tid) then failErrno "Failed to single step!"
    else
      match ← waitpid .stepOverBreakpoint (some tid) with
      | none => failErrno "waitpid failed!"
      | some _ => relaySite bp pc
  else pure ⟨⟩

/-- `process::send_continue`. -/
def sendContinue (tid : Tid) : Debugger PUnit := do
  let m ← get
  let request := if m.process.policy.mode = .none then .cont else .syscall
  if !(← ptraceRun request tid) then failErrno "Could NOT resume"
  else do
    let _ ← threadAt tid
    updateThread tid fun t => { t with state := .running }
    modifyProcess fun p => { p with state := .running }

def resumeAllThreads : Debugger PUnit := do
  let m ← get
  forEach stepOverBreakpoint (m.process.threads.map (·.1))
  forEach sendContinue (m.process.threads.map (·.1))

def resume (otid : Option Tid) : Debugger PUnit := do
  let m ← get
  let tid := otid.getD m.process.currentThread
  stepOverBreakpoint tid
  sendContinue tid

def argRegs : List RegisterId := [.rdi, .rsi, .rdx, .r10, .r8, .r9]

/-- The reads of the argument registers of a syscall. -/
def readArgs (tid : Tid) : List RegisterId → Debugger (List Word)
  | [] => pure []
  | id :: rest => do
      let arg ← readRegister tid id
      let args ← readArgs tid rest
      pure (arg :: args)

/-- The signal of a syscall stop. -/
def sigtrapSyscall : Byte := sigtrap ||| 0x80

/-- The branch of `augment_stop_reason` for a syscall stop. -/
def syscallInformation (tid : Tid) : Debugger SyscallInformation := do
  let m ← get
  if m.process.expectingSyscallExit then do
    let id ← readRegister tid .origRax
    let ret ← readRegister tid .rax
    modifyProcess fun p => { p with expectingSyscallExit := false }
    pure ⟨id.setWidth 16, false, .ret ret⟩
  else do
    let id ← readRegister tid .origRax
    let args ← readArgs tid argRegs
    modifyProcess fun p => { p with expectingSyscallExit := true }
    pure ⟨id.setWidth 16, true, .args args⟩

/-- What `si_code` says about a trap. -/
def SiCode.trapType : SiCode → TrapType
  | .trapTrace => .singleStep
  | .siKernel => .softwareBreak
  | .trapHwbkpt => .hardwareBreak
  | .other => .unknown

/-- `process::augment_stop_reason`. -/
def augmentStopReason (reason : StopReason) : Debugger StopReason := do
  let m ← get
  if !m.isStopped reason.tid then failErrno "Failed to get signal info!"
  else if reason.info = sigtrapSyscall then do
    let info ← syscallInformation reason.tid
    let reason := { reason with
      syscallInfo := some info, info := sigtrap, trapReason := some .syscall }
    modify (Machine.observe (.augmented reason))
    pure reason
  else do
    modifyProcess fun p => { p with expectingSyscallExit := false }
    let trapReason :=
      if reason.info = sigtrap then SiCode.trapType (m.kernel.threads reason.tid).siCode
      else .unknown
    let reason := { reason with trapReason := some trapReason }
    modify (Machine.observe (.augmented reason))
    pure reason

/-- `process::should_resume_from_syscall`. -/
def shouldResumeFromSyscall (policy : SyscallCatchPolicy) (reason : StopReason) : Bool :=
  decide (policy.mode = .some) &&
    match reason.syscallInfo with
    | some info => !policy.toCatch.contains info.id.toNat
    | none => false

/-- `__builtin_ctzll`. -/
def builtinCtzll (status : Word) : Except Failure Nat :=
  match (List.range 64).find? fun i => status.getLsbD i with
  | some i => .ok i
  | none => .error (.undefined "no bit is set")

/-- `process::get_current_hardware_stoppoint`: a breakpoint site or a
watchpoint, by identifier. -/
def getCurrentHardwareStoppoint (tid : Tid) : Debugger (Int ⊕ Int) := do
  let status ← readRegister tid .dr6
  let index ← ofExcept (builtinCtzll status)
  let id ← ofExcept (match debugRegister index with
    | .ok id => .ok id
    | .error _ => .error (.error "CANNOT find register info"))
  let address ← readRegister tid id
  let m ← get
  match m.process.breakpointSites.find? fun site => site.address = address with
  | some site => pure (.inl site.id)
  | none => do
      let index ← ofExcept (m.process.watchpoints.getByAddress address)
      match m.process.watchpoints[index]? with
      | some point => pure (.inr point.id)
      | none => throw (.undefined "dangling watchpoint")

/-- `watchpoint::update_data`. -/
def updateData (id : Int) : Debugger PUnit := do
  let m ← get
  let index ← ofExcept (m.process.watchpoints.getById id)
  match m.process.watchpoints[index]? with
  | none => throw (.undefined "dangling watchpoint")
  | some point => do
      let read ← ofExcept (readMemory m point.address point.size)
      let newData := BitVec.ofNat 64 (ofLe (read.take 8))
      modifyProcess fun p => { p with
        watchpoints := p.watchpoints.modify index fun w =>
          { w with previousData := w.data, data := newData } }

/-- `report_thread_lifecycle_event`. -/
def reportThreadLifecycleEvent (reason : StopReason) : Debugger PUnit :=
  modify (Machine.observe (.lifecycle reason))

def HitAction.run : HitAction → Debugger PUnit
  | .site op => op.run
  | .breakpoints points => modifyProcess fun p => { p with breakpoints := points }

/-- `breakpoint::notify_hit`. -/
def notifyHit (handlers : HitHandlers) (parent : Nat) : Debugger Bool := do
  let m ← get
  match m.process.breakpoints[parent]? with
  | none => throw (.undefined "dangling breakpoint")
  | some point =>
      match point.onHit with
      | none | some .stop => pure false
      | some handler => do
          let (actions, answer) := handlers.onHit handler m
          forEach HitAction.run actions
          ofExcept answer

/-- The part of `handle_signal` about traps: whether the thread should go on
without a report. -/
def handleTrap (handlers : HitHandlers) (reason : StopReason) (isMainStop : Bool) :
    Debugger Bool := do
  let tid := reason.tid
  let pc ← getPc tid
  let instrBegin := pc - 1
  let m ← get
  if reason.trapReason = some .softwareBreak ∧
      m.process.breakpointSites.enabledStoppointAtAddress instrBegin then do
    setPc instrBegin tid
    let index ← ofExcept (m.process.breakpointSites.getByAddress instrBegin)
    let bp ← siteAt index
    match bp.parent with
    | none => pure false
    | some parent => do
        let shouldRestart ← notifyHit handlers parent
        pure (shouldRestart && isMainStop)
  else if reason.trapReason = some .hardwareBreak then do
    match ← getCurrentHardwareStoppoint tid with
    | .inl _ => pure false
    | .inr id => do
        updateData id
        pure false
  else
    pure (decide (reason.trapReason = some .syscall) && isMainStop &&
      shouldResumeFromSyscall m.process.policy reason)

/-- The entry of a thread that is seen for the first time. -/
def newThread : ThreadState := ⟨⟨fun _ => 0, [], 0⟩, ⟨0, .stopped, 0, none, none⟩, .stopped, false⟩

/-- Track a thread that is seen for the first time; whether it was new. -/
def trackThread (reason : StopReason) : Debugger Bool := do
  let m ← get
  match m.thread? reason.tid with
  | some _ => pure false
  | none => do
      modifyProcess fun p => { p with threads := p.threads ++ [(reason.tid, newThread)] }
      reportThreadLifecycleEvent reason
      pure true

/-- `process::handle_signal`.  The notification of the target, which unwinds
the thread's stack and swallows every exception, leaves no mark here. -/
def handleSignal (handlers : HitHandlers) (reason : StopReason) (isMainStop : Bool) :
    Debugger (Option StopReason) := do
  let m ← get
  if reason.trapReason = some .clone ∧ isMainStop then pure none
  else if m.process.isAttached ∧ reason.reason = .stopped then do
    let isNew ← trackThread reason
    if isNew && isMainStop then pure none
    else do
      let thread ← threadAt reason.tid
      if thread.pendingSigstop ∧ reason.info = sigstop then do
        updateThread reason.tid fun t => { t with pendingSigstop := false }
        pure none
      else do
        readAllRegisters reason.tid
        let reason ← augmentStopReason reason
        if reason.info = sigtrap then do
          if ← handleTrap handlers reason isMainStop then pure none
          else pure (some reason)
        else pure (some reason)
  else pure (some reason)

/-- Handle and record the stop of a thread that was not waited for. -/
def recordStop (handlers : HitHandlers) (tid : Tid) (threadReason : StopReason) :
    Debugger PUnit := do
  let handled ← handleSignal handlers threadReason false
  let reason := handled.getD threadReason
  updateThread tid fun t => { t with reason := reason, state := reason.reason }

/-- A stop other than by `SIGSTOP` leaves the `SIGSTOP` that was sent pending. -/
def notePendingSigstop (tid : Tid) (threadReason : StopReason) : Debugger PUnit :=
  if threadReason.reason = .stopped then
    updateThread tid fun t => { t with pendingSigstop := decide (threadReason.info ≠ sigstop) }
  else pure ⟨⟩

/-- A thread for which no `SIGSTOP` is pending is sent one by `tgkill`. -/
def noteSigstop (tid : Tid) (thread : ThreadState) : Debugger PUnit :=
  if thread.pendingSigstop then pure ⟨⟩ else mark fun _ => .sentSigstop tid

/-- One thread of `process::stop_running_threads`.  The result of `waitpid` is
not looked at, so that its failure leaves the status without a value. -/
def stopThread (handlers : HitHandlers) (tid : Tid) : Debugger PUnit := do
  let thread ← threadAt tid
  if thread.state = .running then do
    noteSigstop tid thread
    match ← waitpid .stopRunningThreads (some tid) with
    | none => throw (.undefined "wait status without a value")
    | some event => do
        notePendingSigstop tid (.ofWait tid event.status)
        recordStop handlers tid (.ofWait tid event.status)
  else pure ⟨⟩

/-- `process::stop_running_threads`. -/
def stopRunningThreads (handlers : HitHandlers) : Debugger PUnit := do
  let m ← get
  forEach (stopThread handlers) (m.process.threads.map (·.1))

/-- The threads that `process::cleanup_exited_threads` removes. -/
def isCleanedUp (mainStopTid : Tid) (entry : Tid × ThreadState) : Bool :=
  entry.1 ≠ mainStopTid ∧ (entry.2.state = .exited ∨ entry.2.state = .terminated)

/-- `process::cleanup_exited_threads`. -/
def cleanupExitedThreads (mainStopTid : Tid) : Debugger (Option StopReason) := do
  let m ← get
  let gone := m.process.threads.filter (isCleanedUp mainStopTid)
  forEach (fun entry => reportThreadLifecycleEvent entry.2.reason) gone
  let toRemove := gone.map (·.1)
  modifyProcess fun p => { p with
    threads := p.threads.filter fun entry => !toRemove.contains entry.1 }
  pure ((gone.find? fun entry => entry.1 = m.process.pid).map (·.2.reason))

/-- The `catch` block of `process::wait_on_signal`. -/
def recordFailedStop (handlers : HitHandlers) (reason : StopReason) : Debugger PUnit := do
  updateThread reason.tid fun t => { t with reason := reason, state := reason.reason }
  stopRunningThreads handlers
  modifyProcess fun p => { p with state := reason.reason, currentThread := reason.tid }

/-- What `process::wait_on_signal` does about a report: pass over it and wait
again, or record it, bring the other threads to a stop and answer. -/
def handleReport (handlers : HitHandlers) (again : Option Tid → Debugger StopReason)
    (toAwait : Option Tid) (event : WaitEvent) : Debugger StopReason := do
  let tid := event.tid
  let reason := StopReason.ofWait tid event.status
  let finalReason ← onThrow Failure.isException (handleSignal handlers reason true)
    (recordFailedStop handlers reason)
  match finalReason with
  | none => do
      resume (some tid)
      again toAwait
  | some reason => do
      let _ ← threadAt tid
      updateThread tid fun t => { t with reason := reason, state := reason.reason }
      let m ← get
      if reason.reason = .exited ∨ reason.reason = .terminated then do
        reportThreadLifecycleEvent reason
        if tid = m.process.pid then do
          modifyProcess fun p => { p with state := reason.reason }
          pure reason
        else again none
      else do
        stopRunningThreads handlers
        let exited ← cleanupExitedThreads tid
        let reason := exited.getD reason
        modifyProcess fun p => { p with
          state := reason.reason, currentThread := tid }
        pure reason

/-- `process::wait_on_signal`.  Every round takes an answer from the kernel's
script, so that its length bounds the rounds. -/
def waitOnSignalLoop (handlers : HitHandlers) : Nat → Option Tid → Debugger StopReason
  | 0, _ => throw .schedule
  | rounds + 1, toAwait => do
      match ← waitpid .waitOnSignal toAwait with
      | none => failErrno "waitpid FAILED"
      | some event => handleReport handlers (waitOnSignalLoop handlers rounds) toAwait event

def waitOnSignal (handlers : HitHandlers) (toAwait : Option Tid) : Debugger StopReason := do
  let m ← get
  waitOnSignalLoop handlers (m.kernel.script.length + 1) toAwait

end Debugger

end Gsdb
