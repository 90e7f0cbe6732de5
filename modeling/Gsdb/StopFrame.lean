/-
The invariant rule of the stop machinery: what every step of resuming, waiting
and decoding respects, a whole wait respects.  A frame is relative to a set of
threads, the ones that may be operated on.
-/
import Gsdb.StopHandling

namespace Gsdb

open ByteMemory Effects Eff Debugger

/-- A relation that every step of resuming and waiting respects, as long as the
threads operated on are among `P`. -/
structure StopFrame (handlers : HitHandlers) (P : Tid → Prop) (R : Machine → Machine → Prop) :
    Prop where
  enableSite : ∀ index, Respects R (enableSite index)
  disableSite : ∀ index, Respects R (disableSite index)
  action : ∀ handler m, ∀ action ∈ (handlers.onHit handler m).1, Respects R (HitAction.run action)
  updateThread : ∀ tid, P tid → ∀ f, Respects R (updateThread tid f)
  user : ∀ m tid user, P tid → R m (Machine.setUser tid user m)
  script : ∀ m script, R m (Machine.setScript script m)
  deliver : ∀ m waiter toAwait event script, P event.tid → m.mayReport toAwait event = true →
    R m ((Machine.deliver waiter event m).setScript script)
  running : ∀ m tid request, P tid → m.isStopped tid = true → R m (Machine.letRun tid request m)
  track : ∀ m tid thread, P tid → R m (m.setProcess fun p =>
    { p with threads := p.threads ++ [(tid, thread)] })
  cleanup : ∀ m (keep : Tid → Bool), R m (m.setProcess fun p =>
    { p with threads := p.threads.filter fun entry => keep entry.1 })
  process : ∀ m state current watchpoints breakpoints, R m (m.setProcess fun p =>
    { p with
      state := state
      currentThread := current
      watchpoints := watchpoints
      breakpoints := breakpoints })
  lifecycle : ∀ m reason, R m (Machine.observe (.lifecycle reason) m)
  note : ∀ m observation, Observation.isNote observation = true →
    R m (Machine.observe observation m)
  augment : ∀ reason, P reason.tid → reason.syscallInfo = none →
    Respects R (augmentStopReason reason)

@[simp]
theorem StopReason.ofWait_syscallInfo (tid : Tid) (status : WaitStatus) :
    (StopReason.ofWait tid status).syscallInfo = none := by
  cases status <;> rfl

@[simp]
theorem StopReason.ofWait_tid (tid : Tid) (status : WaitStatus) :
    (StopReason.ofWait tid status).tid = tid := by
  cases status <;> rfl

theorem Machine.mayReport_some {m : Machine} {tid : Tid} {event : WaitEvent}
    (h : m.mayReport (some tid) event = true) : event.tid = tid := by
  simp only [mayReport, Bool.and_eq_true, decide_eq_true_eq] at h
  rcases h.1 with hnone | hsome
  · cases hnone
  · exact (Option.some.inj hsome).symm

/-- What `waitpid` can do: find no schedule, fail, or deliver a report. -/
theorem waitpid_cases (waiter : Waiter) (toAwait : Option Tid) (m : Machine) :
    waitpid waiter toAwait m = (.error .schedule, m) ∨
      (∃ rest, m.kernel.script = .fails :: rest ∧
        waitpid waiter toAwait m = (.ok none, m.setScript rest)) ∨
      ∃ event rest, m.mayReport toAwait event = true ∧ m.kernel.script = .report event :: rest ∧
        waitpid waiter toAwait m =
          (.ok (some event), (m.deliver waiter event).setScript rest) := by
  rw [waitpid, bind_of_ok (get_apply m)]
  cases hscript : m.kernel.script with
  | nil => exact .inl rfl
  | cons answer rest =>
      cases answer with
      | fails => exact .inr (.inl ⟨rest, rfl, rfl⟩)
      | report event =>
          by_cases hmay : m.mayReport toAwait event = true
          · refine .inr (.inr ⟨event, rest, hmay, rfl, ?_⟩)
            simp only [hmay, if_true]
            rfl
          · left
            simp only [hmay]
            rfl

/-- A report that `waitpid` answers was delivered. -/
theorem waitpid_eq_some {waiter : Waiter} {toAwait : Option Tid} {m m' : Machine}
    {event : WaitEvent} (h : waitpid waiter toAwait m = (.ok (some event), m')) :
    m.mayReport toAwait event = true ∧
      ∃ rest, m.kernel.script = .report event :: rest ∧
        m' = (m.deliver waiter event).setScript rest := by
  rcases waitpid_cases waiter toAwait m with h' | ⟨rest, -, h'⟩ | ⟨event', rest, hmay, hscript, h'⟩
  · rw [h'] at h
    cases h
  · rw [h'] at h
    cases h
  · rw [h'] at h
    cases h
    exact ⟨hmay, rest, hscript, rfl⟩

theorem ptraceRun_cases (request : RunRequest) (tid : Tid) (m : Machine) :
    (m.isStopped tid = true ∧ ptraceRun request tid m = (.ok true, m.letRun tid request)) ∨
      (m.isStopped tid = false ∧ ptraceRun request tid m = (.ok false, m)) := by
  rw [ptraceRun, bind_of_ok (get_apply m)]
  cases hstopped : m.isStopped tid with
  | true => exact .inl ⟨rfl, rfl⟩
  | false => exact .inr ⟨rfl, rfl⟩

theorem readRegister_state (tid : Tid) (id : RegisterId) (m : Machine) :
    (readRegister tid id m).2 = m :=
  readRegister_respects (R := Fixes fun m => m) tid id m

theorem readArgs_state (tid : Tid) (ids : List RegisterId) (m : Machine) :
    (readArgs tid ids m).2 = m := by
  have hreads : Respects (Fixes fun m => m) (readArgs tid ids) := by
    induction ids with
    | nil => exact Respects.pure _
    | cons id rest ih =>
        exact Respects.bind (readRegister_respects _ _) fun _ =>
          Respects.bind ih fun _ => Respects.pure _
  exact hreads m

/-- A syscall stop is decoded by the flag, which is then turned over. -/
theorem syscallInformation_cases (tid : Tid) (m : Machine) :
    (∃ e, syscallInformation tid m = (.error e, m)) ∨
      ∃ info, info.entry = !m.process.expectingSyscallExit ∧
        syscallInformation tid m =
          (.ok info, m.setProcess fun p => { p with expectingSyscallExit := info.entry }) := by
  rw [syscallInformation, bind_of_ok (get_apply m)]
  rcases cases_of_snd_eq (readRegister_state tid .origRax m) with ⟨e, hid⟩ | ⟨id, hid⟩
  · left
    refine ⟨e, ?_⟩
    split <;> exact bind_of_error hid _
  · split
    · rename_i hflag
      rcases cases_of_snd_eq (readRegister_state tid .rax m) with ⟨e, hret⟩ | ⟨ret, hret⟩
      · exact .inl ⟨e, by rw [bind_of_ok hid, bind_of_error hret]⟩
      · refine .inr ⟨⟨id.setWidth 16, false, .ret ret⟩, by simp [hflag], ?_⟩
        rw [bind_of_ok hid, bind_of_ok hret]
        rfl
    · rename_i hflag
      rcases cases_of_snd_eq (readArgs_state tid argRegs m) with ⟨e, hargs⟩ | ⟨args, hargs⟩
      · exact .inl ⟨e, by rw [bind_of_ok hid, bind_of_error hargs]⟩
      · refine .inr ⟨⟨id.setWidth 16, true, .args args⟩, by simp [hflag], ?_⟩
        rw [bind_of_ok hid, bind_of_ok hargs]
        rfl

/-- The reason of a syscall stop. -/
def StopReason.atSyscall (reason : StopReason) (info : SyscallInformation) : StopReason :=
  { reason with syscallInfo := some info, info := sigtrap, trapReason := some .syscall }

/-- The reason of any other stop. -/
def StopReason.withTrap (reason : StopReason) (siCode : SiCode) : StopReason :=
  let trapReason := if reason.info = sigtrap then SiCode.trapType siCode else .unknown
  { reason with trapReason := some trapReason }

/-- What decoding a stop can do. -/
theorem augmentStopReason_cases (reason : StopReason) (m : Machine) :
    (∃ e, augmentStopReason reason m = (.error e, m)) ∨
      (∃ info, reason.info = sigtrapSyscall ∧ info.entry = !m.process.expectingSyscallExit ∧
        augmentStopReason reason m = (.ok (reason.atSyscall info),
          (m.setProcess fun p => { p with expectingSyscallExit := info.entry }).observe
            (.augmented (reason.atSyscall info)))) ∨
      (reason.info ≠ sigtrapSyscall ∧
        augmentStopReason reason m =
          (.ok (reason.withTrap (m.kernel.threads reason.tid).siCode),
            (m.setProcess fun p => { p with expectingSyscallExit := false }).observe
              (.augmented (reason.withTrap (m.kernel.threads reason.tid).siCode)))) := by
  rw [augmentStopReason, bind_of_ok (get_apply m)]
  split
  · exact .inl ⟨_, rfl⟩
  split
  · rename_i hsyscall
    rcases syscallInformation_cases reason.tid m with ⟨e, herror⟩ | ⟨info, hentry, hinfo⟩
    · exact .inl ⟨e, bind_of_error herror _⟩
    · refine .inr (.inl ⟨info, hsyscall, hentry, ?_⟩)
      rw [bind_of_ok hinfo]
      rfl
  · rename_i hother
    exact .inr (.inr ⟨hother, rfl⟩)

/-- Decoding keeps the thread and the kind of state change. -/
theorem augmentStopReason_keeps {reason reason' : StopReason} {m m' : Machine}
    (h : augmentStopReason reason m = (.ok reason', m')) :
    reason'.tid = reason.tid ∧ reason'.reason = reason.reason := by
  rcases augmentStopReason_cases reason m with ⟨e, h'⟩ | ⟨info, -, -, h'⟩ | ⟨-, h'⟩ <;>
    rw [h'] at h <;> cases h <;> exact ⟨rfl, rfl⟩

theorem readAllRegisters_respects {R : Machine → Machine → Prop} [Std.Refl R] [IsTrans Machine R]
    {t : Tid} (h : ∀ f : Registers → Registers,
      Respects R (updateThread t fun thread => { thread with regs := f thread.regs })) :
    Respects R (readAllRegisters t) :=
  Respects.bind (Respects.asks _) fun _ => Respects.bind Respects.get fun m =>
    Respects.ite (h (reload · (m.kernel.threads t).user)) (Respects.throw _)

/-- A relation that every step of decoding a stop of thread `t` respects, once
its registers are read. -/
structure DecodeFrame (handlers : HitHandlers) (t : Tid) (R : Machine → Machine → Prop) :
    Prop where
  action : ∀ handler m, ∀ action ∈ (handlers.onHit handler m).1, Respects R (HitAction.run action)
  setPc : ∀ address, Respects R (setPc address t)
  data : ∀ m index data, R m (m.setProcess fun p => { p with
    watchpoints := p.watchpoints.modify index fun w =>
      { w with previousData := w.data, data := data } })
  augment : ∀ reason, reason.tid = t → reason.syscallInfo = none →
    Respects R (augmentStopReason reason)

/-- A relation that every step of handling a signal of thread `t` respects. -/
structure SignalFrame (handlers : HitHandlers) (t : Tid) (R : Machine → Machine → Prop) : Prop
    extends DecodeFrame handlers t R where
  load : Respects R (readAllRegisters t)
  consumed : Respects R (updateThread t fun thread => { thread with pendingSigstop := false })
  track : ∀ m, m.thread? t = none → R m (m.setProcess fun p =>
    { p with threads := p.threads ++ [(t, newThread)] })
  lifecycle : ∀ m reason, reason.tid = t → reason.reason = .stopped →
    R m (Machine.observe (.lifecycle reason) m)

/-- The part of `handle_signal` after the registers are read. -/
def decodeLoaded (handlers : HitHandlers) (reason : StopReason) (isMainStop : Bool) :
    Debugger (Option StopReason) := do
  let reason ← augmentStopReason reason
  if reason.info = sigtrap then do
    if ← handleTrap handlers reason isMainStop then pure none
    else pure (some reason)
  else pure (some reason)

/-- The part of `handle_signal` for a stop that will most likely be reported. -/
def decodeSignal (handlers : HitHandlers) (reason : StopReason) (isMainStop : Bool) :
    Debugger (Option StopReason) := do
  readAllRegisters reason.tid
  decodeLoaded handlers reason isMainStop

namespace DecodeFrame

variable {handlers : HitHandlers} {t : Tid} {R : Machine → Machine → Prop} [Std.Refl R]
  [IsTrans Machine R]

theorem notifyHit (h : DecodeFrame handlers t R) (parent : Nat) :
    Respects R (notifyHit handlers parent) := by
  refine Respects.bind Respects.get fun m => ?_
  split
  · exact Respects.throw _
  · split
    · exact Respects.pure _
    · exact Respects.pure _
    · exact Respects.bind (Respects.forEach fun action haction => h.action _ _ action haction)
        fun _ => Respects.ofExcept _

theorem updateData (h : DecodeFrame handlers t R) (id : Int) : Respects R (updateData id) := by
  refine Respects.bind Respects.get fun m => ?_
  refine Respects.bind (Respects.ofExcept _) fun index => ?_
  split
  · exact Respects.throw _
  · exact Respects.bind (Respects.ofExcept _) fun read => Respects.modify fun m => h.data m index _

theorem getCurrentHardwareStoppoint (tid : Tid) :
    Respects R (getCurrentHardwareStoppoint tid) := by
  refine Respects.bind (readRegister_respects _ _) fun status => ?_
  refine Respects.bind (Respects.ofExcept _) fun index => ?_
  refine Respects.bind (Respects.ofExcept _) fun id => ?_
  refine Respects.bind (readRegister_respects _ _) fun address => ?_
  refine Respects.bind Respects.get fun m => ?_
  split
  · exact Respects.pure _
  · refine Respects.bind (Respects.ofExcept _) fun index => ?_
    split
    · exact Respects.pure _
    · exact Respects.throw _

theorem handleTrap (h : DecodeFrame handlers t R) {reason : StopReason} (htid : reason.tid = t)
    (isMainStop : Bool) : Respects R (handleTrap handlers reason isMainStop) := by
  subst htid
  refine Respects.bind (readRegister_respects _ _) fun pc => ?_
  refine Respects.bind Respects.get fun m => Respects.ite ?_ (Respects.ite ?_ (Respects.pure _))
  · refine Respects.bind (h.setPc _) fun _ => ?_
    refine Respects.bind (Respects.ofExcept _) fun index => ?_
    refine Respects.bind (Respects.asks _) fun bp => ?_
    split
    · exact Respects.pure _
    · exact Respects.bind (h.notifyHit _) fun _ => Respects.pure _
  · refine Respects.bind (getCurrentHardwareStoppoint _) fun id => ?_
    split
    · exact Respects.pure _
    · exact Respects.bind (h.updateData _) fun _ => Respects.pure _

theorem decodeLoaded (h : DecodeFrame handlers t R) {reason : StopReason} (htid : reason.tid = t)
    (hreason : reason.syscallInfo = none) (isMainStop : Bool) :
    Respects R (decodeLoaded handlers reason isMainStop) := by
  refine Respects.bindOk (h.augment reason htid hreason) fun m reason' m' haugment => ?_
  refine Respects.ite ?_ (Respects.pure _)
  exact Respects.bind (h.handleTrap ((augmentStopReason_keeps haugment).1.trans htid) isMainStop)
    fun restart => Respects.ite (Respects.pure _) (Respects.pure _)

end DecodeFrame

namespace SignalFrame

variable {handlers : HitHandlers} {t : Tid} {R : Machine → Machine → Prop} [Std.Refl R]
  [IsTrans Machine R]

theorem trackThread (h : SignalFrame handlers t R) {reason : StopReason} (htid : reason.tid = t)
    (hstopped : reason.reason = .stopped) : Respects R (trackThread reason) := by
  intro m
  rw [Debugger.trackThread, bind_of_ok (get_apply m)]
  cases hthread : m.thread? reason.tid with
  | some _ => exact refl_of R m
  | none =>
      refine related_bind ?_ fun _ m' _ => ?_
      · subst htid
        exact h.track m hthread
      · exact related_bind (h.lifecycle m' reason htid hstopped) fun _ _ _ => refl_of R _

theorem decodeSignal (h : SignalFrame handlers t R) {reason : StopReason} (htid : reason.tid = t)
    (hreason : reason.syscallInfo = none) (isMainStop : Bool) :
    Respects R (decodeSignal handlers reason isMainStop) :=
  Respects.bind (htid ▸ h.load) fun _ => h.toDecodeFrame.decodeLoaded htid hreason isMainStop

theorem handleSignal (h : SignalFrame handlers t R) {reason : StopReason} (htid : reason.tid = t)
    (hreason : reason.syscallInfo = none) (isMainStop : Bool) :
    Respects R (handleSignal handlers reason isMainStop) := by
  refine Respects.bind Respects.get fun m => Respects.ite (Respects.pure _) ?_
  split
  · rename_i hattached
    refine Respects.bind (h.trackThread htid hattached.2) fun isNew => ?_
    refine Respects.ite (Respects.pure _) ?_
    refine Respects.bind (Respects.asks _) fun thread => Respects.ite ?_ ?_
    · refine Respects.bind ?_ fun _ => Respects.pure _
      subst htid
      exact h.consumed
    exact h.decodeSignal htid hreason isMainStop
  · exact Respects.pure _

end SignalFrame

/-- A relation that every step of letting thread `t` run respects. -/
structure ResumeFrame (t : Tid) (R : Machine → Machine → Prop) : Prop where
  enableSite : ∀ index, Respects R (enableSite index)
  disableSite : ∀ index, Respects R (disableSite index)
  swallowed : Respects R (updateThread t fun thread => { thread with pendingSigstop := false })
  continued : Respects R (updateThread t fun thread => { thread with state := .running })
  script : ∀ m answer rest, m.kernel.script = answer :: rest → R m (Machine.setScript rest m)
  deliver : ∀ m waiter event rest, m.kernel.script = .report event :: rest →
    m.mayReport (some t) event = true → R m ((Machine.deliver waiter event m).setScript rest)
  running : ∀ m request, m.isStopped t = true → R m (Machine.letRun t request m)
  process : ∀ m, R m (m.setProcess fun p => { p with state := .running })
  note : ∀ m observation, Observation.isNote observation = true →
    R m (Machine.observe observation m)

namespace ResumeFrame

variable {t : Tid} {R : Machine → Machine → Prop} [Std.Refl R]

theorem waitpid (h : ResumeFrame t R) (waiter : Waiter) :
    Respects R (waitpid waiter (some t)) := by
  intro m
  rcases waitpid_cases waiter (some t) m with
    h' | ⟨rest, hscript, h'⟩ | ⟨event, rest, hmay, hscript, h'⟩
  · rw [h']
    exact refl_of R m
  · rw [h']
    exact h.script m _ rest hscript
  · rw [h']
    exact h.deliver m waiter event rest hscript hmay

theorem ptraceRun (h : ResumeFrame t R) (request : RunRequest) :
    Respects R (ptraceRun request t) := by
  intro m
  rcases ptraceRun_cases request t m with ⟨hstopped, h'⟩ | ⟨-, h'⟩
  · rw [h']
    exact h.running m request hstopped
  · rw [h']
    exact refl_of R m

variable [IsTrans Machine R]

theorem swallowPendingSigstop (h : ResumeFrame t R) : Respects R (swallowPendingSigstop t) := by
  refine Respects.bind (Respects.asks _) fun thread => Respects.ite ?_ (Respects.pure _)
  refine Respects.bind (h.ptraceRun _) fun _ => ?_
  exact Respects.bind (h.waitpid _) fun _ => h.swallowed

theorem samplePc (h : ResumeFrame t R) : Respects R (samplePc t) :=
  Respects.bind (readRegister_respects _ _) fun _ =>
    Respects.bind (Respects.modify fun m => h.note m _ rfl) fun _ => Respects.pure _

omit [Std.Refl R] in
theorem liftSite (h : ResumeFrame t R) (bp : Nat) (address : Word) :
    Respects R (liftSite t bp address) :=
  Respects.bind (h.disableSite bp) fun _ => Respects.modify fun m => h.note m _ rfl

omit [Std.Refl R] in
theorem relaySite (h : ResumeFrame t R) (bp : Nat) (address : Word) :
    Respects R (relaySite bp address) :=
  Respects.bind (h.enableSite bp) fun _ => Respects.modify fun m => h.note m _ rfl

theorem stepOverBreakpoint (h : ResumeFrame t R) : Respects R (stepOverBreakpoint t) := by
  refine Respects.bind h.samplePc fun pc => ?_
  refine Respects.bind Respects.get fun m => Respects.ite ?_ (Respects.pure _)
  refine Respects.bind (Respects.ofExcept _) fun bp => ?_
  refine Respects.bind (h.liftSite bp pc) fun _ => ?_
  refine Respects.bind h.swallowPendingSigstop fun _ => ?_
  refine Respects.bind (h.ptraceRun _) fun ran => Respects.ite (Respects.throw _) ?_
  refine Respects.bind (h.waitpid _) fun event => ?_
  cases event with
  | none => exact Respects.throw _
  | some event => exact h.relaySite bp pc

theorem sendContinue (h : ResumeFrame t R) : Respects R (sendContinue t) := by
  refine Respects.bind Respects.get fun m => ?_
  refine Respects.bind (h.ptraceRun _) fun ran => Respects.ite (Respects.throw _) ?_
  refine Respects.bind (Respects.asks _) fun thread => ?_
  exact Respects.bind h.continued fun _ => Respects.modify fun m => h.process m

theorem resume (h : ResumeFrame t R) : Respects R (resume (some t)) :=
  Respects.bind Respects.get fun _ => Respects.bind h.stepOverBreakpoint fun _ => h.sendContinue

end ResumeFrame

/-- A relation that every step of waiting for a signal respects. -/
structure WaitFrame (handlers : HitHandlers) (P : Tid → Prop) (R : Machine → Machine → Prop) :
    Prop where
  resumes : ∀ tid, P tid → ResumeFrame tid R
  handles : ∀ tid, P tid → SignalFrame handlers tid R
  updateThread : ∀ tid, P tid → ∀ f, Respects R (updateThread tid f)
  waits : ∀ waiter toAwait, (∀ m event, Machine.mayReport m toAwait event = true → P event.tid) →
    Respects R (waitpid waiter toAwait)
  cleanup : ∀ m (keep : Tid → Bool), R m (m.setProcess fun p =>
    { p with threads := p.threads.filter fun entry => keep entry.1 })
  process : ∀ m state current watchpoints breakpoints, R m (m.setProcess fun p =>
    { p with
      state := state
      currentThread := current
      watchpoints := watchpoints
      breakpoints := breakpoints })
  lifecycle : ∀ m reason, R m (Machine.observe (.lifecycle reason) m)
  note : ∀ m observation, Observation.isNote observation = true →
    R m (Machine.observe observation m)

namespace WaitFrame

variable {handlers : HitHandlers} {P : Tid → Prop} {R : Machine → Machine → Prop}
  [Std.Refl R] {tid : Tid}

theorem noteSigstop (h : WaitFrame handlers P R) (tid : Tid) (thread : ThreadState) :
    Respects R (noteSigstop tid thread) :=
  Respects.ite (Respects.pure _) (Respects.modify fun m => h.note m _ rfl)

variable [IsTrans Machine R]

theorem stopThread (h : WaitFrame handlers P R) (htid : P tid) :
    Respects R (stopThread handlers tid) := by
  refine Respects.bind (Respects.asks _) fun thread => Respects.ite ?_ (Respects.pure _)
  refine Respects.bind (h.noteSigstop tid thread) fun _ => ?_
  refine Respects.bind (h.waits _ _ fun _ _ hmay => Machine.mayReport_some hmay ▸ htid)
    fun event => ?_
  cases event with
  | none => exact Respects.throw _
  | some event =>
      have hP : P (StopReason.ofWait tid event.status).tid := by simpa using htid
      refine Respects.bind (Respects.ite (h.updateThread tid htid _) (Respects.pure _)) fun _ => ?_
      exact Respects.bind ((h.handles _ hP).handleSignal rfl
        (StopReason.ofWait_syscallInfo _ _) false) fun _ => h.updateThread tid htid _

theorem stopRunningThreads (h : WaitFrame handlers P R) (hall : ∀ tid, P tid) :
    Respects R (stopRunningThreads handlers) :=
  Respects.bind Respects.get fun _ => Respects.forEach fun tid _ => h.stopThread (hall tid)

theorem cleanupExitedThreads (h : WaitFrame handlers P R) (mainStopTid : Tid) :
    Respects R (cleanupExitedThreads mainStopTid) := by
  refine Respects.bind Respects.get fun m => ?_
  refine Respects.bind (Respects.forEach fun entry _ => ?_) fun _ => ?_
  · exact Respects.modify fun m => h.lifecycle m _
  · refine Respects.bind (Respects.modify fun m' => ?_) fun _ => Respects.pure _
    exact h.cleanup m' fun tid =>
      !((m.process.threads.filter (isCleanedUp mainStopTid)).map (·.1)).contains tid

omit [Std.Refl R] in
theorem recordFailedStop (h : WaitFrame handlers P R) {reason : StopReason}
    (htid : P reason.tid) (hstop : Respects R (Debugger.stopRunningThreads handlers)) :
    Respects R (recordFailedStop handlers reason) := by
  refine Respects.bind (h.updateThread _ htid _) fun _ => ?_
  refine Respects.bind hstop fun _ => Respects.modify fun m => ?_
  exact h.process m _ _ m.process.watchpoints m.process.breakpoints

/-- Handling a report respects what stopping all threads and waiting again
respect. -/
theorem handleReport (h : WaitFrame handlers P R)
    (hstop : Respects R (Debugger.stopRunningThreads handlers))
    {again : Option Tid → Debugger StopReason} (hagain : ∀ toAwait, Respects R (again toAwait))
    (toAwait : Option Tid) {event : WaitEvent} (htid : P event.tid) :
    Respects R (handleReport handlers again toAwait event) := by
  have hreason : P (StopReason.ofWait event.tid event.status).tid := by simpa using htid
  refine Respects.bind (Respects.onThrow ((h.handles _ hreason).handleSignal rfl
    (StopReason.ofWait_syscallInfo _ _) true) (h.recordFailedStop hreason hstop)) fun final => ?_
  cases final with
  | none => exact Respects.bind (h.resumes _ htid).resume fun _ => hagain toAwait
  | some reason =>
      refine Respects.bind (Respects.asks _) fun thread => ?_
      refine Respects.bind (h.updateThread _ htid _) fun _ => ?_
      refine Respects.bind Respects.get fun m => Respects.ite ?_ ?_
      · refine Respects.bind (Respects.modify fun m => h.lifecycle m _) fun _ => ?_
        refine Respects.ite ?_ (hagain none)
        refine Respects.bind (Respects.modify fun m => ?_) fun _ => Respects.pure _
        exact h.process m _ m.process.currentThread m.process.watchpoints
          m.process.breakpoints
      · refine Respects.bind hstop fun _ => ?_
        refine Respects.bind (h.cleanupExitedThreads _) fun exited => ?_
        refine Respects.bind (Respects.modify fun m => ?_) fun _ => Respects.pure _
        exact h.process m _ _ m.process.watchpoints m.process.breakpoints

theorem waitOnSignalLoop (h : WaitFrame handlers P R) (hall : ∀ tid, P tid) (rounds : Nat)
    (toAwait : Option Tid) : Respects R (waitOnSignalLoop handlers rounds toAwait) := by
  induction rounds generalizing toAwait with
  | zero => exact Respects.throw _
  | succ rounds ih =>
      refine Respects.bind (h.waits _ _ fun _ event _ => hall event.tid) fun event => ?_
      cases event with
      | none => exact Respects.throw _
      | some event => exact h.handleReport (h.stopRunningThreads hall) ih toAwait (hall _)

theorem waitOnSignal (h : WaitFrame handlers P R) (hall : ∀ tid, P tid)
    (toAwait : Option Tid) : Respects R (waitOnSignal handlers toAwait) :=
  Respects.bind Respects.get fun _ => h.waitOnSignalLoop hall _ toAwait

end WaitFrame

namespace StopFrame

/-- Two frames over different sets of threads make a frame over those in both,
for every relation that the two relations imply together. -/
theorem combine {handlers : HitHandlers} {P P' : Tid → Prop}
    {R R' R'' : Machine → Machine → Prop} (h : StopFrame handlers P R)
    (h' : StopFrame handlers P' R') (hboth : ∀ m m', R m m' → R' m m' → R'' m m') :
    StopFrame handlers (fun tid => P tid ∧ P' tid) R'' where
  enableSite := fun index m => hboth _ _ (h.enableSite index m) (h'.enableSite index m)
  disableSite := fun index m => hboth _ _ (h.disableSite index m) (h'.disableSite index m)
  action := fun handler m action haction m' =>
    hboth _ _ (h.action handler m action haction m') (h'.action handler m action haction m')
  updateThread := fun tid htid f m =>
    hboth _ _ (h.updateThread tid htid.1 f m) (h'.updateThread tid htid.2 f m)
  user := fun m tid user htid => hboth _ _ (h.user m tid user htid.1) (h'.user m tid user htid.2)
  script := fun m script => hboth _ _ (h.script m script) (h'.script m script)
  deliver := fun m waiter toAwait event script htid hmay =>
    hboth _ _ (h.deliver m waiter toAwait event script htid.1 hmay)
      (h'.deliver m waiter toAwait event script htid.2 hmay)
  running := fun m tid request htid hstopped =>
    hboth _ _ (h.running m tid request htid.1 hstopped)
      (h'.running m tid request htid.2 hstopped)
  track := fun m tid thread htid =>
    hboth _ _ (h.track m tid thread htid.1) (h'.track m tid thread htid.2)
  cleanup := fun m keep => hboth _ _ (h.cleanup m keep) (h'.cleanup m keep)
  process := fun m state current watchpoints breakpoints =>
    hboth _ _ (h.process m state current watchpoints breakpoints)
      (h'.process m state current watchpoints breakpoints)
  lifecycle := fun m reason => hboth _ _ (h.lifecycle m reason) (h'.lifecycle m reason)
  note := fun m observation hnote =>
    hboth _ _ (h.note m observation hnote) (h'.note m observation hnote)
  augment := fun reason htid hinfo m =>
    hboth _ _ (h.augment reason htid.1 hinfo m) (h'.augment reason htid.2 hinfo m)

/-- Handling the signals of a thread that may be operated on is among the
steps. -/
theorem signalFrame {handlers : HitHandlers} {P : Tid → Prop} {R : Machine → Machine → Prop}
    [Std.Refl R] [IsTrans Machine R] {t : Tid} (h : StopFrame handlers P R) (ht : P t) :
    SignalFrame handlers t R where
  action := h.action
  setPc := fun _ => writeRegister_respects (fun _ => h.updateThread t ht _)
    (fun m user => h.user m t user ht) _ _ _
  load := readAllRegisters_respects fun _ => h.updateThread t ht _
  consumed := h.updateThread t ht _
  track := fun m _ => h.track m t newThread ht
  data := fun m _ _ => h.process m m.process.state m.process.currentThread _ m.process.breakpoints
  lifecycle := fun m reason _ _ => h.lifecycle m reason
  augment := fun reason htid hreason => h.augment reason (htid.symm ▸ ht) hreason

variable {handlers : HitHandlers} {P : Tid → Prop} {R : Machine → Machine → Prop}
  [Std.Refl R] {tid : Tid}

theorem waitpid (h : StopFrame handlers P R) {waiter : Waiter} {toAwait : Option Tid}
    (hP : ∀ m event, Machine.mayReport m toAwait event = true → P event.tid) :
    Respects R (waitpid waiter toAwait) := by
  intro m
  rcases waitpid_cases waiter toAwait m with h' | ⟨rest, -, h'⟩ | ⟨event, rest, hmay, -, h'⟩
  · rw [h']
    exact refl_of R m
  · rw [h']
    exact h.script m rest
  · rw [h']
    exact h.deliver m waiter toAwait event rest (hP m event hmay) hmay

theorem waitpid_some (h : StopFrame handlers P R) {waiter : Waiter} (htid : P tid) :
    Respects R (Debugger.waitpid waiter (some tid)) :=
  h.waitpid fun _ _ hmay => Machine.mayReport_some hmay ▸ htid

omit [Std.Refl R] in
/-- Letting a thread run that may be operated on is among the steps. -/
theorem resumeFrame (h : StopFrame handlers P R) (htid : P tid) : ResumeFrame tid R where
  enableSite := h.enableSite
  disableSite := h.disableSite
  swallowed := h.updateThread tid htid _
  continued := h.updateThread tid htid _
  script := fun m _ rest _ => h.script m rest
  deliver := fun m waiter event rest _ hmay =>
    h.deliver m waiter _ event rest (Machine.mayReport_some hmay ▸ htid) hmay
  running := fun m request => h.running m tid request htid
  process := fun m => h.process m .running m.process.currentThread m.process.watchpoints
    m.process.breakpoints
  note := h.note

variable [IsTrans Machine R]

theorem writeRegister (h : StopFrame handlers P R) (htid : P tid) (id : RegisterId)
    (val : Value) (commit : Bool) : Respects R (writeRegister tid id val commit) :=
  writeRegister_respects (fun _ => h.updateThread tid htid _)
    (fun m user => h.user m tid user htid) id val commit

theorem resumeAllThreads (h : StopFrame handlers P R) (hall : ∀ tid, P tid) :
    Respects R resumeAllThreads :=
  Respects.bind Respects.get fun _ =>
    Respects.bind (Respects.forEach fun tid _ => (h.resumeFrame (hall tid)).stepOverBreakpoint)
      fun _ => Respects.forEach fun tid _ => (h.resumeFrame (hall tid)).sendContinue

/-- Waiting is made of such steps. -/
theorem waitFrame (h : StopFrame handlers P R) : WaitFrame handlers P R where
  resumes := fun _ => h.resumeFrame
  handles := fun _ => h.signalFrame
  updateThread := h.updateThread
  waits := fun _ _ => h.waitpid
  cleanup := h.cleanup
  process := h.process
  lifecycle := h.lifecycle
  note := h.note

theorem handleSignal (h : StopFrame handlers P R) {reason : StopReason} (htid : P reason.tid)
    (hreason : reason.syscallInfo = none) (isMainStop : Bool) :
    Respects R (handleSignal handlers reason isMainStop) :=
  (h.signalFrame htid).handleSignal rfl hreason isMainStop

theorem stopThread (h : StopFrame handlers P R) (htid : P tid) :
    Respects R (stopThread handlers tid) :=
  h.waitFrame.stopThread htid

theorem stopRunningThreads (h : StopFrame handlers P R) (hall : ∀ tid, P tid) :
    Respects R (stopRunningThreads handlers) :=
  h.waitFrame.stopRunningThreads hall

theorem handleReport (h : StopFrame handlers P R)
    (hstop : Respects R (Debugger.stopRunningThreads handlers))
    {again : Option Tid → Debugger StopReason} (hagain : ∀ toAwait, Respects R (again toAwait))
    (toAwait : Option Tid) {event : WaitEvent} (htid : P event.tid) :
    Respects R (handleReport handlers again toAwait event) :=
  h.waitFrame.handleReport hstop hagain toAwait htid

theorem waitOnSignalLoop (h : StopFrame handlers P R) (hall : ∀ tid, P tid) (rounds : Nat)
    (toAwait : Option Tid) : Respects R (waitOnSignalLoop handlers rounds toAwait) :=
  h.waitFrame.waitOnSignalLoop hall rounds toAwait

theorem waitOnSignal (h : StopFrame handlers P R) (hall : ∀ tid, P tid)
    (toAwait : Option Tid) : Respects R (waitOnSignal handlers toAwait) :=
  h.waitFrame.waitOnSignal hall toAwait

end StopFrame

end Gsdb
