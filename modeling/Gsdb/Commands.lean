/-
What a user of the debugger can do to a process, command after command, and the
rule for invariants of such runs: what every single step of resuming, waiting
and stopping keeps, every run keeps.
-/
import Gsdb.Roster

namespace Gsdb

open ByteMemory Effects Eff Debugger

namespace Debugger

/-- Take the site at which a thread stands out of its way, if there is one. -/
def liftSiteAt (tid : Tid) (pc : Word) : Debugger Bool := do
  let m ← get
  if m.process.breakpointSites.enabledStoppointAtAddress pc then do
    let bp ← ofExcept (m.process.breakpointSites.getByAddress pc)
    liftSite tid bp pc
    pure true
  else pure false

/-- Enable a lifted site again.  The source holds a pointer to it, so that a
site removed in the meantime leaves the pointer dangling. -/
def reenable (toReenable : Bool) (pc : Word) : Debugger PUnit := do
  let m ← get
  if toReenable then
    match m.process.breakpointSites.findByAddress pc with
    | none => throw (.undefined "dangling breakpoint site")
    | some bp => relaySite bp pc
  else pure ⟨⟩

/-- The part of `process::step_instruction` before it waits: the program counter
of the thread, and whether a site was lifted there. -/
def beginStep (tid : Tid) : Debugger (Bool × Word) := do
  let pc ← samplePc tid
  let toReenable ← liftSiteAt tid pc
  swallowPendingSigstop tid
  if !(← ptraceRun .singleStep tid) then failErrno "Could not single step!"
  else pure (toReenable, pc)

/-- `process::step_instruction`. -/
def stepInstruction (handlers : HitHandlers) (otid : Option Tid) : Debugger StopReason := do
  let m ← get
  let tid := otid.getD m.process.currentThread
  let (toReenable, pc) ← beginStep tid
  let reason ← waitOnSignal handlers (some tid)
  reenable toReenable pc
  pure reason

end Debugger

/-- The commands; the last ones choose the current thread, the system calls to
catch and the target's breakpoints. -/
inductive Command where
  | resume (otid : Option Tid)
  | resumeAllThreads
  | stepInstruction (otid : Option Tid)
  | waitOnSignal (toAwait : Option Tid)
  | site (op : SiteOperation)
  | watchpoint (op : WatchpointOperation)
  | setCurrentThread (tid : Tid)
  | setPolicy (policy : SyscallCatchPolicy)
  | setBreakpoints (points : StoppointCollection Breakpoint)

/-- Run a computation for its effect; there is no stop to report. -/
def unreported (x : Debugger PUnit) : Debugger (Option StopReason) := do
  x
  pure none

/-- Run a computation that reports a stop. -/
def reported (x : Debugger StopReason) : Debugger (Option StopReason) := do
  let reason ← x
  pure (some reason)

def Command.run (handlers : HitHandlers) : Command → Debugger (Option StopReason)
  | .resume otid => unreported (Debugger.resume otid)
  | .resumeAllThreads => unreported Debugger.resumeAllThreads
  | .stepInstruction otid => reported (Debugger.stepInstruction handlers otid)
  | .waitOnSignal toAwait => reported (Debugger.waitOnSignal handlers toAwait)
  | .site op => unreported op.run
  | .watchpoint op => unreported op.run
  | .setCurrentThread tid => unreported (modifyProcess fun p => { p with currentThread := tid })
  | .setPolicy policy => unreported (modifyProcess fun p => { p with policy := policy })
  | .setBreakpoints points =>
      unreported (modifyProcess fun p => { p with breakpoints := points })

/-- The debugger goes on after a command that returned or threw an exception. -/
def GoesOn {α : Type} : Except Failure α → Prop
  | .ok _ => True
  | .error e => e.isException = true

instance {α : Type} : (r : Except Failure α) → Decidable (GoesOn r)
  | .ok _ => inferInstanceAs (Decidable True)
  | .error e => inferInstanceAs (Decidable (e.isException = true))

/-- A computation throws an exception. -/
def throws {α : Type} (x : Debugger α) (m : Machine) : Bool :=
  match (x m).1 with
  | .ok _ => false
  | .error e => e.isException

/-- One command after the other. -/
inductive Run (handlers : HitHandlers) (start : Machine) : Machine → Prop where
  | start : Run handlers start start
  | command {m m' : Machine} {r : Except Failure (Option StopReason)} (c : Command)
      (before : Run handlers start m) (hrun : c.run handlers m = (r, m')) (hgoes : GoesOn r) :
      Run handlers start m'

/-- A thread that is looked up is tracked. -/
theorem threadAt_triple {P : Machine → Prop} {E : Failure → Machine → Prop} {tid : Tid}
    (h : ∀ m, P m → m.thread? tid = none → E (.exception "out_of_range") m) :
    Triple P (threadAt tid) (fun thread m => P m ∧ m.thread? tid = some thread) E := by
  intro m hm
  cases hthread : m.thread? tid with
  | none =>
      refine Triple.of_eq_error (e := .exception "out_of_range") ?_ (h m hm hthread)
      simp [threadAt, hthread]
  | some thread =>
      refine Triple.of_eq_ok (a := thread) ?_ ⟨hm, hthread⟩
      simp [threadAt, hthread]

theorem updateThread_triple {P : Machine → Prop} {Q : PUnit → Machine → Prop}
    {E : Failure → Machine → Prop} {tid : Tid} {f : ThreadState → ThreadState}
    (h : ∀ m, P m → Q ⟨⟩ (updateThread tid f m).2) : Triple P (updateThread tid f) Q E :=
  fun m hm => Triple.of_eq_ok rfl (h m hm)

/-- Where `wait_on_signal` is called in a run: by itself, or for a thread that
`step_instruction` has let run. -/
inductive WaitsFrom (handlers : HitHandlers) (start : Machine) : Option Tid → Machine → Prop where
  | command {m : Machine} (toAwait : Option Tid) (before : Run handlers start m) :
      WaitsFrom handlers start toAwait m
  | step {m m' : Machine} {tid : Tid} {begun : Bool × Word} (before : Run handlers start m)
      (hbegin : beginStep tid m = (.ok begun, m')) : WaitsFrom handlers start (some tid) m'

/-- Nothing that was observed is forgotten. -/
def Remembers (m m' : Machine) : Prop := m.trace <:+ m'.trace

instance : Std.Refl Remembers := ⟨fun m => List.suffix_refl m.trace⟩

instance : IsTrans Machine Remembers := ⟨fun _ _ _ h h' => List.IsSuffix.trans h h'⟩

theorem Remembers.of_eq {m m' : Machine} (h : m'.trace = m.trace) : Remembers m m' := by
  rw [Remembers, h]

theorem Remembers.observe {m m' : Machine} {observation : Observation}
    (h : m'.trace = observation :: m.trace) : Remembers m m' := by
  rw [Remembers, h]
  exact List.suffix_cons observation m.trace

theorem siteFrame_remembers : SiteFrame true Remembers where
  slots := fun _ _ _ _ _ => .inl fun _ _ id val _ =>
    writeRegister_respects (fun _ _ => .of_eq rfl) (fun _ _ => .of_eq rfl) id val true
  memory := fun _ _ => .of_eq rfl
  update := fun _ _ _ _ => .of_eq rfl
  push := fun _ _ _ _ => .of_eq rfl
  erase := fun _ _ => .of_eq rfl
  note := fun _ _ _ => .observe rfl

theorem stopFrame_remembers (handlers : HitHandlers) :
    StopFrame handlers (fun _ => True) Remembers where
  enableSite := siteFrame_remembers.enableSite
  disableSite := siteFrame_remembers.disableSite
  action := fun _ _ action _ => by
    cases action with
    | site op => exact siteFrame_remembers.run (.inl rfl)
    | breakpoints points => exact Respects.modify fun _ => .of_eq rfl
  updateThread := fun _ _ _ _ => .of_eq rfl
  user := fun _ _ _ _ => .of_eq rfl
  script := fun _ _ => .of_eq rfl
  deliver := fun _ _ _ _ _ _ _ => .observe rfl
  running := fun _ _ _ _ _ => .observe rfl
  track := fun _ _ _ _ => .of_eq rfl
  cleanup := fun _ _ => .of_eq rfl
  process := fun _ _ _ _ _ => .of_eq rfl
  lifecycle := fun _ _ => .observe rfl
  note := fun _ _ _ => .observe rfl
  augment := fun reason _ _ m => by
    rcases augmentStopReason_cases reason m with ⟨e, h⟩ | ⟨info, -, -, h⟩ | ⟨-, h⟩ <;> rw [h]
    · exact refl_of _ m
    · exact .observe rfl
    · exact .observe rfl

/-- A stop is about to be reported: all threads were stopped after it was decoded,
and its own thread is still recorded as stopped. -/
structure Reporting (event : WaitEvent) (m₀ m : Machine) : Prop where
  remembers : Remembers m₀ m
  stopped : (m.roster.record event.tid).map (·.state) = some .stopped

/-- Assertions at the points between the steps: at rest, a thread about to be
stepped and one let run to be waited for, a state change that `wait_on_signal`
received, one that `handle_signal` decoded or threw at, a stop that is returned,
and after a failure of the command. -/
structure Assertions where
  rest : Machine → Prop
  swallowed : Tid → Machine → Prop
  awaited : Tid → Machine → Prop
  due : WaitEvent → Machine → Prop
  handled : WaitEvent → StopReason → Machine → Prop
  failed : WaitEvent → Machine → Prop
  returned : StopReason → Machine → Prop
  thrown : Failure → Machine → Prop

/-- What is known of the answer of a wait. -/
def Assertions.answered (A : Assertions) : Option WaitEvent → Machine → Prop
  | none, m => A.rest m
  | some event, m => A.due event m

/-- What is known of the outcome of `handle_signal`. -/
def Assertions.decided (A : Assertions) (event : WaitEvent) : Option StopReason → Machine → Prop
  | none, m => A.rest m
  | some reason, m => A.handled event reason m

/-- What is known after a command and the stop it reports. -/
def Assertions.finished (A : Assertions) : Option StopReason → Machine → Prop
  | none, m => A.rest m
  | some reason, m => A.returned reason m

def Assertions.escaped (A : Assertions) (event : WaitEvent) (e : Failure) (m : Machine) : Prop :=
  if e.isException then A.failed event m else A.thrown e m

/-- Note why and how a thread is stopped. -/
def noteReason (tid : Tid) (reason : StopReason) : Debugger PUnit :=
  updateThread tid fun t => { t with reason := reason, state := reason.reason }

/-- The obligations for an invariant of runs, one for each step. -/
structure StopRules (handlers : HitHandlers) (A : Assertions) : Prop where
  raised : ∀ e m, A.rest m → A.thrown e m
  sample : ∀ tid, Triple A.rest (samplePc tid) (fun _ => A.rest) A.thrown
  lift : ∀ tid bp pc, Triple (fun m => A.rest m ∧
      m.process.breakpointSites.enabledStoppointAtAddress pc = true ∧
      m.process.breakpointSites.getByAddress pc = .ok bp)
    (liftSite tid bp pc) (fun _ => A.rest) A.thrown
  relay : ∀ bp pc, Triple A.rest (relaySite bp pc) (fun _ => A.rest) A.thrown
  swallow : ∀ tid, Triple A.rest (swallowPendingSigstop tid) (fun _ => A.swallowed tid) A.thrown
  step : ∀ tid, Triple (A.swallowed tid) (ptraceRun .singleStep tid)
    (fun ran m => if ran then A.awaited tid m else A.rest m) A.thrown
  stepped : ∀ tid, Triple (A.awaited tid) (waitpid .stepOverBreakpoint (some tid))
    (fun _ => A.rest) A.thrown
  goOn : ∀ tid, Triple A.rest (sendContinue tid) (fun _ => A.rest) A.thrown
  wait : ∀ toAwait, Triple A.rest (waitpid .waitOnSignal toAwait) A.answered A.thrown
  waitStepped : ∀ tid, Triple (A.awaited tid) (waitpid .waitOnSignal (some tid)) A.answered A.thrown
  signal : ∀ event, Triple (A.due event)
    (handleSignal handlers (.ofWait event.tid event.status) true) (A.decided event)
    (A.escaped event)
  caught : ∀ event, Triple (A.failed event)
    (noteReason event.tid (.ofWait event.tid event.status)) (fun _ => A.rest) A.thrown
  untracked : ∀ event reason e m, A.handled event reason m → m.thread? event.tid = none →
    A.thrown e m
  stopped : ∀ event reason, ¬ (reason.reason = .exited ∨ reason.reason = .terminated) →
    Triple (fun m => A.handled event reason m ∧ (m.thread? event.tid).isSome = true)
      (noteReason event.tid reason) (fun _ => A.rest) A.thrown
  exited : ∀ event reason, reason.reason = .exited ∨ reason.reason = .terminated →
    Triple (fun m => A.handled event reason m ∧ (m.thread? event.tid).isSome = true)
      (noteReason event.tid reason) (fun _ m => A.rest (m.observe (.lifecycle reason))) A.thrown
  stopThread : ∀ tid, Triple A.rest (stopThread handlers tid) (fun _ => A.rest) A.thrown
  cleanup : ∀ event reason m₀, A.handled event reason m₀ → reason.reason = .stopped →
    Triple (fun m => A.rest m ∧ Reporting event m₀ m) (cleanupExitedThreads event.tid)
      (fun exited => A.returned (exited.getD reason)) A.thrown
  ended : ∀ reason m, reason.reason = .exited ∨ reason.reason = .terminated → A.rest m →
    A.returned reason m
  process : ∀ m state current, A.rest m → A.rest (m.setProcess fun p =>
    { p with state := state, currentThread := current })
  answer : ∀ reason m current, A.returned reason m → A.returned reason (m.setProcess fun p =>
    { p with state := reason.reason, currentThread := current })
  reenabled : ∀ reason bp pc, Triple (A.returned reason) (relaySite bp pc)
    (fun _ => A.returned reason) A.thrown
  dangling : ∀ reason e m, A.returned reason m → A.thrown e m
  settled : ∀ reason m, A.returned reason m → A.rest m

namespace StopRules

variable {handlers : HitHandlers} {A : Assertions}

theorem raise {α : Type} (h : StopRules handlers A) (e : Failure) (Q : α → Machine → Prop) :
    Triple A.rest (throw e) Q A.thrown :=
  Triple.throw fun m hm => h.raised e m hm

/-- The thread of a decoded report is looked up before it is recorded. -/
theorem found (h : StopRules handlers A) (event : WaitEvent) (reason : StopReason) :
    Triple (A.handled event reason) (threadAt event.tid)
      (fun _ m => A.handled event reason m ∧ (m.thread? event.tid).isSome = true) A.thrown :=
  (threadAt_triple fun m hm hnone => h.untracked event reason _ m hm hnone).mono (fun _ hm => hm)
    (fun _ m hm => ⟨hm.1, by rw [hm.2]; rfl⟩) fun _ _ hm => hm

theorem stepOverBreakpoint (h : StopRules handlers A) (tid : Tid) :
    Triple A.rest (stepOverBreakpoint tid) (fun _ => A.rest) A.thrown := by
  refine Triple.bind (h.sample tid) fun pc => Triple.get_bind fun m hm => ?_
  refine Triple.ite (fun henabled => ?_) fun _ => Triple.pure fun s hs => hs ▸ hm
  cases hbp : m.process.breakpointSites.getByAddress pc with
  | error e => exact Triple.throw fun s hs => h.raised e s (hs ▸ hm)
  | ok bp =>
      refine Triple.bind (Q := fun index s => index = bp ∧ s = m) ?_ fun index => ?_
      · exact fun s hs => Triple.of_eq_ok rfl ⟨rfl, hs⟩
      refine Triple.bind (Q := fun _ => A.rest) ((h.lift tid index pc).mono ?_ (fun _ _ hs => hs)
        fun _ _ hs => hs) fun _ => ?_
      · rintro s ⟨rfl, rfl⟩
        exact ⟨hm, henabled, hbp⟩
      refine Triple.bind (h.swallow tid) fun _ => Triple.bind (h.step tid) fun ran => ?_
      cases ran with
      | false => exact h.raise _ _
      | true =>
          refine Triple.bind (h.stepped tid) fun event => ?_
          cases event with
          | none => exact h.raise _ _
          | some event => exact h.relay index pc

theorem resume (h : StopRules handlers A) (otid : Option Tid) :
    Triple A.rest (resume otid) (fun _ => A.rest) A.thrown := by
  refine Triple.get_bind fun m hm => ?_
  refine Triple.bind (Q := fun _ => A.rest) ((h.stepOverBreakpoint _).mono (fun s hs => hs ▸ hm)
    (fun _ _ hs => hs) fun _ _ hs => hs) fun _ => ?_
  exact h.goOn _

theorem resumeAllThreads (h : StopRules handlers A) :
    Triple A.rest resumeAllThreads (fun _ => A.rest) A.thrown := by
  refine Triple.get_bind fun m hm => ?_
  refine Triple.bind (Q := fun _ => A.rest) ((Triple.forEach fun tid _ =>
    h.stepOverBreakpoint tid).mono (fun s hs => hs ▸ hm) (fun _ _ hs => hs) fun _ _ hs => hs)
    fun _ => ?_
  exact Triple.forEach fun tid _ => h.goOn tid

theorem stopRunningThreads (h : StopRules handlers A) :
    Triple A.rest (stopRunningThreads handlers) (fun _ => A.rest) A.thrown :=
  Triple.get_bind fun _ hm => (Triple.forEach fun tid _ => h.stopThread tid).mono
    (fun _ hs => hs ▸ hm) (fun _ _ hs => hs) fun _ _ hs => hs

theorem recordFailedStop (h : StopRules handlers A) (event : WaitEvent) :
    Triple (A.failed event) (recordFailedStop handlers (.ofWait event.tid event.status))
      (fun _ => A.rest) A.thrown := by
  have hcaught := h.caught event
  rw [Debugger.recordFailedStop, StopReason.ofWait_tid]
  refine Triple.bind hcaught fun _ => Triple.bind h.stopRunningThreads fun _ => ?_
  exact Triple.modify fun m hm => h.process m _ _ hm

/-- The thread of a stop that will be reported is recorded as stopped. -/
theorem noteStopped (h : StopRules handlers A) {event : WaitEvent} {reason : StopReason}
    (hstopped : reason.reason = .stopped) {m₀ : Machine} (hm : A.handled event reason m₀)
    (htracked : (m₀.thread? event.tid).isSome = true) :
    Triple (· = m₀) (noteReason event.tid reason) (fun _ m => A.rest m ∧ Reporting event m₀ m)
      A.thrown := by
  intro m heq
  subst heq
  obtain ⟨thread, hthread⟩ := Option.isSome_iff_exists.mp htracked
  obtain ⟨hok, -⟩ := h.stopped event reason (by simp [hstopped]) _ ⟨hm, htracked⟩
  have hupdated := Machine.thread?_updateThread m event.tid fun t =>
    { t with reason := reason, state := reason.reason }
  rw [hthread] at hupdated
  refine Triple.of_eq_ok rfl ⟨hok ⟨⟩ _ rfl, .of_eq rfl, ?_⟩
  change (((noteReason event.tid reason m).2.thread? event.tid).map ThreadState.record).map
    (·.state) = some .stopped
  rw [noteReason, hupdated]
  simp [ThreadState.record, hstopped]

/-- Stopping all threads leaves the one alone that is recorded as stopped. -/
theorem stopRunningThreads_reporting (h : StopRules handlers A) (event : WaitEvent)
    (m₀ : Machine) :
    Triple (fun m => A.rest m ∧ Reporting event m₀ m) (Debugger.stopRunningThreads handlers)
      (fun _ m => A.rest m ∧ Reporting event m₀ m) A.thrown := by
  have hremembers := (stopFrame_remembers handlers).stopRunningThreads fun _ => trivial
  have hstopped : Respects (Carries fun m => (m.roster.record event.tid).map (·.state) =
      some .stopped) (Debugger.stopRunningThreads handlers) := by
    refine Respects.bind Respects.get fun m => Respects.forEach fun tid _ => ?_
    refine stopThread_idle (P := fun entry => entry.map (·.state) = some .stopped) ?_ tid
    intro record hrecord hrunning
    simp [hrunning] at hrecord
  intro m hm
  have hstops := h.stopRunningThreads m hm.1
  have hafter : Reporting event m₀ (Debugger.stopRunningThreads handlers m).2 :=
    ⟨trans_of Remembers hm.2.remembers (hremembers m), hstopped m hm.2.stopped⟩
  refine ⟨fun u m' heq => ⟨hstops.1 u m' heq, ?_⟩, hstops.2⟩
  rwa [heq] at hafter

/-- Handling a report, where waiting again keeps the invariant. -/
theorem handleReport (h : StopRules handlers A) {again : Option Tid → Debugger StopReason}
    (hagain : ∀ toAwait, Triple A.rest (again toAwait) A.returned A.thrown)
    (toAwait : Option Tid) (event : WaitEvent) :
    Triple (A.due event) (handleReport handlers again toAwait event) A.returned A.thrown := by
  have hsignal : Triple (A.due event) (handleSignal handlers (.ofWait event.tid event.status) true)
      (fun final m => A.decided event final m ∧ ∀ reason, final = some reason →
        reason.reason = (StopReason.ofWait event.tid event.status).reason) (A.escaped event) := by
    intro m hm
    obtain ⟨hok, herror⟩ := h.signal event m hm
    refine ⟨fun final m' heq => ⟨hok final m' heq, ?_⟩, herror⟩
    rintro reason rfl
    exact handleSignal_reason heq
  refine Triple.bind (Triple.onThrow hsignal ?_ ?_) fun final => ?_
  · intro e hexception
    refine (h.recordFailedStop event).mono (fun m hm => ?_) (fun _ m hm => h.raised e m hm)
      fun _ _ hm => hm
    simpa [Assertions.escaped, hexception] using hm
  · intro e m hexception hm
    simpa [Assertions.escaped, hexception] using hm
  cases final with
  | none => exact Triple.bind ((h.resume _).pre fun _ hm => hm.1) fun _ => hagain toAwait
  | some reason =>
      refine Triple.of_forall fun m₀ ⟨hm₀, hreason⟩ => ?_
      have hsame := hreason reason rfl
      refine Triple.bind ((h.found event reason).pre fun s hs => hs ▸ hm₀) fun thread => ?_
      by_cases hexit : reason.reason = .exited ∨ reason.reason = .terminated
      · refine Triple.bind (h.exited event reason hexit) fun _ => Triple.get_bind fun m hm => ?_
        rw [if_pos hexit]
        refine Triple.bind (Q := fun _ => A.rest) (Triple.modify (P := (· = m))
          fun s hs => hs ▸ hm) fun _ => ?_
        refine Triple.ite (fun _ => ?_) fun _ => hagain none
        exact Triple.bind (Triple.modify fun m hm => h.process m _ m.process.currentThread hm)
          fun _ => Triple.pure fun m hm => h.ended reason m hexit hm
      · have hstopped : reason.reason = .stopped := by
          have hrunning := ofWait_ne_running event.tid event.status
          rw [← hsame] at hrunning
          cases hcase : reason.reason <;> simp_all
        refine Triple.of_forall fun m₁ hm₁ => ?_
        refine Triple.bind (h.noteStopped hstopped hm₁.1 hm₁.2) fun _ =>
          Triple.get_bind fun m hm => ?_
        rw [if_neg hexit]
        refine Triple.bind ((h.stopRunningThreads_reporting event m₁).pre fun s hs => hs ▸ hm)
          fun _ => ?_
        refine Triple.bind (h.cleanup event reason m₁ hm₁.1 hstopped) fun exited => ?_
        exact Triple.bind (Triple.modify fun m hm => h.answer _ m _ hm) fun _ =>
          Triple.pure fun _ hm => hm

theorem waitOnSignalLoop (h : StopRules handlers A) (rounds : Nat) (toAwait : Option Tid) :
    Triple A.rest (waitOnSignalLoop handlers rounds toAwait) A.returned A.thrown := by
  induction rounds generalizing toAwait with
  | zero => exact h.raise _ _
  | succ rounds ih =>
      refine Triple.bind (h.wait toAwait) fun event => ?_
      cases event with
      | none => exact h.raise _ _
      | some event => exact h.handleReport ih toAwait event

theorem waitOnSignal (h : StopRules handlers A) (toAwait : Option Tid) :
    Triple A.rest (waitOnSignal handlers toAwait) A.returned A.thrown :=
  Triple.get_bind fun _ hm => (h.waitOnSignalLoop _ toAwait).mono (fun _ hs => hs ▸ hm)
    (fun _ _ hs => hs) fun _ _ hs => hs

/-- Waiting for a thread that was let run for one step. -/
theorem waitOnSignal_stepped (h : StopRules handlers A) (tid : Tid) :
    Triple (A.awaited tid) (Debugger.waitOnSignal handlers (some tid)) A.returned A.thrown := by
  refine Triple.get_bind fun m hm => ?_
  refine Triple.bind (Q := A.answered) ((h.waitStepped tid).mono (fun s hs => hs ▸ hm)
    (fun _ _ hs => hs) fun _ _ hs => hs) fun event => ?_
  cases event with
  | none => exact h.raise _ _
  | some event => exact h.handleReport (h.waitOnSignalLoop _) (some tid) event

theorem liftSiteAt (h : StopRules handlers A) (tid : Tid) (pc : Word) :
    Triple A.rest (liftSiteAt tid pc) (fun _ => A.rest) A.thrown := by
  refine Triple.get_bind fun m hm => ?_
  refine Triple.ite (fun henabled => ?_) fun _ => Triple.pure fun s hs => hs ▸ hm
  cases hbp : m.process.breakpointSites.getByAddress pc with
  | error e => exact Triple.throw fun s hs => h.raised e s (hs ▸ hm)
  | ok bp =>
      refine Triple.bind (Q := fun index s => index = bp ∧ s = m) ?_ fun index => ?_
      · exact fun s hs => Triple.of_eq_ok rfl ⟨rfl, hs⟩
      refine Triple.bind (Q := fun _ => A.rest) ((h.lift _ index pc).mono ?_ (fun _ _ hs => hs)
        fun _ _ hs => hs) fun _ => Triple.pure fun _ hs => hs
      rintro s ⟨rfl, rfl⟩
      exact ⟨hm, henabled, hbp⟩

theorem reenable (h : StopRules handlers A) (reason : StopReason) (toReenable : Bool) (pc : Word) :
    Triple (A.returned reason) (reenable toReenable pc) (fun _ => A.returned reason) A.thrown := by
  refine Triple.get_bind fun m hm => ?_
  refine Triple.ite (fun _ => ?_) fun _ => Triple.pure fun s hs => hs ▸ hm
  cases m.process.breakpointSites.findByAddress pc with
  | none => exact Triple.throw fun s hs => h.dangling reason _ s (hs ▸ hm)
  | some bp =>
      exact (h.reenabled reason bp pc).mono (fun s hs => hs ▸ hm) (fun _ _ hs => hs)
        fun _ _ hs => hs

theorem beginStep (h : StopRules handlers A) (tid : Tid) :
    Triple A.rest (beginStep tid) (fun _ => A.awaited tid) A.thrown := by
  refine Triple.bind (h.sample tid) fun pc => ?_
  refine Triple.bind (h.liftSiteAt tid pc) fun toReenable => ?_
  refine Triple.bind (h.swallow tid) fun _ => Triple.bind (h.step tid) fun ran => ?_
  cases ran with
  | false => exact h.raise _ _
  | true => exact Triple.pure fun _ hm => hm

theorem stepInstruction (h : StopRules handlers A) (otid : Option Tid) :
    Triple A.rest (stepInstruction handlers otid) A.returned A.thrown := by
  refine Triple.get_bind fun m hm => ?_
  refine Triple.bind (Q := fun _ => A.awaited (otid.getD m.process.currentThread))
    ((h.beginStep _).mono (fun s hs => hs ▸ hm) (fun _ _ hs => hs) fun _ _ hs => hs) fun begun => ?_
  refine Triple.bind (h.waitOnSignal_stepped _) fun reason => ?_
  exact Triple.bind (h.reenable reason begun.1 begun.2) fun _ => Triple.pure fun _ hs => hs

theorem rest_of_finished (h : StopRules handlers A) {answer : Option StopReason} {m : Machine}
    (hm : A.finished answer m) : A.rest m := by
  cases answer with
  | none => exact hm
  | some reason => exact h.settled reason m hm

/-- A run keeps an invariant that every command keeps. -/
theorem run {start m : Machine} (h : StopRules handlers A) (hrun : Run handlers start m)
    (hcommand : ∀ c : Command, Triple A.rest (c.run handlers) A.finished A.thrown)
    (hthrown : ∀ e m, e.isException = true → A.thrown e m → A.rest m) (hstart : A.rest start) :
    A.rest m := by
  induction hrun with
  | start => exact hstart
  | @command m m' r c before hrun hgoes ih =>
      obtain ⟨hok, herror⟩ := hcommand c m ih
      cases r with
      | ok answer => exact h.rest_of_finished (hok answer m' hrun)
      | error e => exact hthrown e m' hgoes (herror e m' hrun)

/-- The commands that resume and wait keep what their steps keep; those on
sites, watchpoints and settings are left to the invariant. -/
theorem command (h : StopRules handlers A)
    (hsite : ∀ op : SiteOperation, Triple A.rest op.run (fun _ => A.rest) A.thrown)
    (hwatchpoint : ∀ op : WatchpointOperation, Triple A.rest op.run (fun _ => A.rest) A.thrown)
    (hsettings : ∀ m policy points current, A.rest m → A.rest (m.setProcess fun p =>
      { p with policy := policy, breakpoints := points, currentThread := current }))
    (c : Command) : Triple A.rest (c.run handlers) A.finished A.thrown := by
  have hnone : ∀ x : Debugger PUnit, Triple A.rest x (fun _ => A.rest) A.thrown →
      Triple A.rest (unreported x) A.finished A.thrown :=
    fun x hx => Triple.bind hx fun _ => Triple.pure fun _ hm => hm
  have hsome : ∀ x : Debugger StopReason, Triple A.rest x A.returned A.thrown →
      Triple A.rest (reported x) A.finished A.thrown :=
    fun x hx => Triple.bind hx fun _ => Triple.pure fun _ hm => hm
  cases c with
  | resume otid => exact hnone _ (h.resume otid)
  | resumeAllThreads => exact hnone _ h.resumeAllThreads
  | stepInstruction otid => exact hsome _ (h.stepInstruction otid)
  | waitOnSignal toAwait => exact hsome _ (h.waitOnSignal toAwait)
  | site op => exact hnone _ (hsite op)
  | watchpoint op => exact hnone _ (hwatchpoint op)
  | setCurrentThread tid =>
      exact hnone _ (Triple.modify fun m hm =>
        hsettings m m.process.policy m.process.breakpoints tid hm)
  | setPolicy policy =>
      exact hnone _ (Triple.modify fun m hm =>
        hsettings m policy m.process.breakpoints m.process.currentThread hm)
  | setBreakpoints points =>
      exact hnone _ (Triple.modify fun m hm =>
        hsettings m m.process.policy points m.process.currentThread hm)

end StopRules

namespace Scenario

/-- A user area that is zero but for the program counter. -/
def userAt (pc : Word) : User := Area.write (fun _ => 0) 128 (toLe 8 pc.toNat)

/-- A stop of a thread, with zero memory. -/
def stop (tid : Tid) (sig : Byte) (siCode : SiCode) (pc : Word) : WaitAnswer :=
  .report ⟨tid, .stopped sig 0, siCode, userAt pc, fun _ => 0⟩

/-- Threads stopped at address zero, and what will happen to them. -/
def machine (tids : List Tid) (script : List WaitAnswer) : Machine :=
  let rest := Machine.atRest fun _ => 0
  { rest with
    kernel := { rest.kernel with script := script }
    process := { rest.process with threads := tids.map fun tid => (tid, newThread) } }

theorem machine_thread? (tids : List Tid) (script : List WaitAnswer) {t : Tid}
    {thread : ThreadState} (h : (machine tids script).thread? t = some thread) :
    thread = newThread := by
  obtain ⟨entry, hfind, rfl⟩ := Option.map_eq_some_iff.mp h
  obtain ⟨tid, -, rfl⟩ := List.mem_map.mp (List.mem_of_find?_eq_some hfind)
  rfl

/-- The machine after a command. -/
def after (handlers : HitHandlers) (c : Command) (m : Machine) : Machine := (c.run handlers m).2

theorem command_after (handlers : HitHandlers) (c : Command) (m : Machine) :
    c.run handlers m = ((c.run handlers m).1, after handlers c m) := rfl

theorem run_after {handlers : HitHandlers} {start m : Machine} (c : Command)
    (before : Run handlers start m) (h : GoesOn (c.run handlers m).1) :
    Run handlers start (after handlers c m) :=
  .command c before rfl h

end Scenario

end Gsdb
