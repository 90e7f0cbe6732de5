/-
What the debugger records about its threads, beside their registers, and what
the kernel knows of them.  Reading registers, decoding a stop and every
operation on sites and watchpoints leave all of it alone.
-/
import Gsdb.ThreadFrame
import Gsdb.Watchpoints

namespace Gsdb

open ByteMemory Effects Eff Debugger

/-- The entry of a thread without its registers. -/
structure ThreadRecord where
  reason : StopReason
  state : ProcessState
  pendingSigstop : Bool
deriving DecidableEq, Repr

def ThreadState.record (thread : ThreadState) : ThreadRecord :=
  ⟨thread.reason, thread.state, thread.pendingSigstop⟩

/-- Observations of what happens to threads. -/
def Observation.isThreadEvent : Observation → Bool
  | .delivered _ | .lifecycle _ | .letRun _ _ _ | .sentSigstop _ => true
  | _ => false

structure Roster where
  pid : Tid
  attached : Bool
  tids : List Tid
  record : Tid → Option ThreadRecord
  status : Tid → ThreadStatus
  script : List WaitAnswer
  events : List Observation

def Machine.roster (m : Machine) : Roster where
  pid := m.process.pid
  attached := m.process.isAttached
  tids := m.process.threads.map (·.1)
  record := fun t => (m.thread? t).map ThreadState.record
  status := fun t => (m.kernel.threads t).status
  script := m.kernel.script
  events := m.trace.filter Observation.isThreadEvent

/-- The state changes that were delivered, each with what was observed before. -/
def deliveries : List Observation → List (Delivery × List Observation)
  | [] => []
  | .delivered d :: earlier => (d, earlier) :: deliveries earlier
  | _ :: earlier => deliveries earlier

theorem deliveries_suffix {earlier events : List Observation} (h : earlier <:+ events) :
    deliveries earlier ⊆ deliveries events := by
  obtain ⟨recent, rfl⟩ := h
  induction recent with
  | nil => exact List.Subset.refl _
  | cons observation recent ih =>
      cases observation with
      | delivered d => exact List.subset_cons_of_subset _ ih
      | _ => exact ih

/-- The kernel answers every wait. -/
def Answers (m : Machine) : Prop := WaitAnswer.fails ∉ m.kernel.script

def Moment.thread? (moment : Moment) (tid : Tid) : Option ThreadState :=
  (moment.process.threads.find? fun entry => entry.1 = tid).map (·.2)

theorem updateRegisters_roster (tid : Tid) (f : Registers → Registers) :
    Respects (Fixes Machine.roster)
      (updateThread tid fun thread => { thread with regs := f thread.regs }) := by
  intro m
  have hrecord : ∀ t, ((updateThread tid (fun thread => { thread with regs := f thread.regs })
      m).2.thread? t).map ThreadState.record = (m.thread? t).map ThreadState.record := by
    intro t
    by_cases ht : t = tid
    · subst ht
      rw [Machine.thread?_updateThread, Option.map_map]
      rfl
    · rw [Machine.thread?_updateThread_of_ne m _ ht]
  simp only [Fixes, Machine.roster, hrecord, threads_updateThread]
  rfl

theorem setUser_roster (m : Machine) (tid : Tid) (user : User) :
    Fixes Machine.roster m (m.setUser tid user) := by
  have hstatus : (fun t => ((m.setUser tid user).kernel.threads t).status) =
      fun t => (m.kernel.threads t).status :=
    funext fun t => setUser_status m tid t user
  simp only [Fixes, Machine.roster, hstatus]
  rfl

theorem debugRegisterFrame_roster : DebugRegisterFrame (Fixes Machine.roster) :=
  fun tid _ id val _ => writeRegister_respects (updateRegisters_roster tid)
    (fun m user => setUser_roster m tid user) id val true

theorem observe_roster {observation : Observation} (h : observation.isThreadEvent = false)
    (m : Machine) : Fixes Machine.roster m (m.observe observation) := by
  simp only [Fixes, Machine.roster, Machine.observe, List.filter_cons, h]
  rfl

theorem siteNote_roster {observation : Observation} (h : observation.isSiteNote = true)
    (m : Machine) : Fixes Machine.roster m (m.observe observation) :=
  observe_roster (by cases observation <;> first | rfl | cases h) m

theorem siteFrame_roster : SiteFrame true (Fixes Machine.roster) where
  slots := fun _ _ _ _ _ => .inl debugRegisterFrame_roster
  memory := fun _ _ => rfl
  update := fun _ _ _ _ => rfl
  push := fun _ _ _ _ => rfl
  erase := fun _ _ => rfl
  note := fun m _ hnote => siteNote_roster hnote m

theorem watchpointFrame_roster : WatchpointFrame (Fixes Machine.roster) where
  slots := debugRegisterFrame_roster
  watchpoints := fun _ _ _ => rfl
  note := fun m _ hnote => siteNote_roster hnote m

theorem action_roster (action : HitAction) :
    Respects (Fixes Machine.roster) (HitAction.run action) := by
  cases action with
  | site op => exact siteFrame_roster.run (.inl rfl)
  | breakpoints points => exact Respects.modify fun _ => rfl

theorem augmentStopReason_roster (reason : StopReason) :
    Respects (Fixes Machine.roster) (augmentStopReason reason) := by
  intro m
  rcases augmentStopReason_cases reason m with ⟨e, h⟩ | ⟨info, -, -, h⟩ | ⟨-, h⟩ <;> rw [h]
  · exact refl_of _ m
  · exact trans_of (Fixes Machine.roster) (b := m.setProcess fun p =>
      { p with expectingSyscallExit := info.entry }) rfl (observe_roster rfl _)
  · exact trans_of (Fixes Machine.roster) (b := m.setProcess fun p =>
      { p with expectingSyscallExit := false }) rfl (observe_roster rfl _)

theorem decodeFrame_roster (handlers : HitHandlers) (t : Tid) :
    DecodeFrame handlers t (Fixes Machine.roster) where
  action := fun _ _ action _ => action_roster action
  setPc := fun _ => writeRegister_respects (updateRegisters_roster t)
    (fun m user => setUser_roster m t user) _ _ _
  data := fun _ _ _ => rfl
  augment := fun reason _ _ => augmentStopReason_roster reason

theorem decodeSignal_roster (handlers : HitHandlers) {reason : StopReason}
    (hinfo : reason.syscallInfo = none) (isMainStop : Bool) :
    Respects (Fixes Machine.roster) (decodeSignal handlers reason isMainStop) :=
  Respects.bind (readAllRegisters_respects (updateRegisters_roster reason.tid)) fun _ =>
    (decodeFrame_roster handlers reason.tid).decodeLoaded rfl hinfo isMainStop

theorem samplePc_roster (tid : Tid) : Respects (Fixes Machine.roster) (samplePc tid) :=
  Respects.bind (readRegister_respects _ _) fun _ =>
    Respects.bind (Respects.modify fun m => observe_roster rfl m) fun _ => Respects.pure _

theorem liftSite_roster (tid : Tid) (bp : Nat) (address : Word) :
    Respects (Fixes Machine.roster) (liftSite tid bp address) :=
  Respects.bind (siteFrame_roster.disableSite bp) fun _ =>
    Respects.modify fun m => observe_roster rfl m

theorem relaySite_roster (bp : Nat) (address : Word) :
    Respects (Fixes Machine.roster) (relaySite bp address) :=
  Respects.bind (siteFrame_roster.enableSite bp) fun _ =>
    Respects.modify fun m => observe_roster rfl m

theorem ofWait_stopped_iff (tid : Tid) (status : WaitStatus) :
    (StopReason.ofWait tid status).reason = .stopped ↔ status.isStop = true := by
  cases status <;> simp [StopReason.ofWait, WaitStatus.isStop]

theorem ofWait_of_exit (tid : Tid) {status : WaitStatus} (h : status.isStop = false) :
    (StopReason.ofWait tid status).reason = .exited ∨
      (StopReason.ofWait tid status).reason = .terminated := by
  cases status with
  | exited code => exact .inl rfl
  | signaled sig => exact .inr rfl
  | stopped sig event => cases h

theorem ofWait_clone_iff (tid : Tid) (status : WaitStatus) :
    (StopReason.ofWait tid status).trapReason = some .clone ↔
      status = .stopped sigtrap eventClone := by
  cases status <;> simp [StopReason.ofWait]

theorem ofWait_ne_running (tid : Tid) (status : WaitStatus) :
    (StopReason.ofWait tid status).reason ≠ .running := by
  cases status <;> simp [StopReason.ofWait]

theorem record_updateThread_of_ne (m : Machine) {tid t : Tid} (f : ThreadState → ThreadState)
    (h : t ≠ tid) : (updateThread tid f m).2.roster.record t = m.roster.record t := by
  simp only [Machine.roster, Machine.thread?_updateThread_of_ne m f h]

/-- The entry of a thread after it was updated. -/
theorem record_updateThread {m : Machine} {tid : Tid} {f : ThreadState → ThreadState}
    {record : ThreadRecord} (h : (updateThread tid f m).2.roster.record tid = some record) :
    ∃ thread, m.thread? tid = some thread ∧ (f thread).record = record := by
  simp only [Machine.roster, Machine.thread?_updateThread, Option.map_map,
    Option.map_eq_some_iff, Function.comp_apply] at h
  exact h

/-- A thread that is gone reports nothing. -/
theorem Machine.present_of_mayReport {m : Machine} {toAwait : Option Tid} {event : WaitEvent}
    (h : m.mayReport toAwait event = true) : (m.kernel.threads event.tid).status ≠ .absent := by
  intro habsent
  simp [Machine.mayReport, habsent] at h

/-- Whether the threads run after a report. -/
theorem status_deliver (m : Machine) (waiter : Waiter) (event : WaitEvent) (t : Tid) :
    ((m.deliver waiter event).kernel.threads t).status =
      if t = event.tid then (if event.status.isStop then .stopped else .absent)
      else (m.kernel.threads t).status := by
  by_cases ht : t = event.tid
  · subst ht
    simp [Machine.deliver]
  · simp [Machine.deliver, ht]

theorem status_letRun (m : Machine) (tid : Tid) (request : RunRequest) (t : Tid) :
    ((m.letRun tid request).kernel.threads t).status =
      if t = tid then .running else (m.kernel.threads t).status := by
  by_cases ht : t = tid
  · subst ht
    simp [Machine.letRun, Machine.setThreadStatus, Machine.observe]
  · simp [Machine.letRun, Machine.setThreadStatus, Machine.observe, ht]

/-- The machine with a thread that is seen for the first time. -/
def Machine.track (m : Machine) (reason : StopReason) : Machine :=
  (m.setProcess fun p => { p with
    threads := p.threads ++ [(reason.tid, newThread)] }).observe (.lifecycle reason)

theorem Machine.thread?_track_of_ne (m : Machine) {reason : StopReason} {t : Tid}
    (h : t ≠ reason.tid) : (m.track reason).thread? t = m.thread? t := by
  have hne : ¬ reason.tid = t := fun heq => h heq.symm
  simp [Machine.thread?, Machine.track, Machine.observe, Machine.setProcess, List.find?_append,
    hne]

theorem Machine.thread?_track {m : Machine} {reason : StopReason}
    (h : m.thread? reason.tid = none) : (m.track reason).thread? reason.tid = some newThread := by
  have hnone : m.process.threads.find? (fun entry => entry.1 = reason.tid) = none := by
    simpa [Machine.thread?] using h
  simp [Machine.thread?, Machine.track, Machine.observe, Machine.setProcess, List.find?_append,
    hnone]

/-- A thread that is tracked only when it is new is tracked once. -/
theorem Machine.tids_track {m : Machine} {reason : StopReason} (h : m.roster.tids.Nodup)
    (hnew : m.thread? reason.tid = none) : (m.track reason).roster.tids.Nodup := by
  have hnot : reason.tid ∉ m.process.threads.map (·.1) := by
    rw [m.mem_threads_iff, hnew]
    simp
  change ((m.process.threads ++ [(reason.tid, newThread)]).map (·.1)).Nodup
  rw [List.map_append]
  refine List.Nodup.append h (by simp) ?_
  simpa using hnot

theorem Machine.tids_updateThread {m : Machine} (h : m.roster.tids.Nodup) (tid : Tid)
    (f : ThreadState → ThreadState) : (updateThread tid f m).2.roster.tids.Nodup := by
  change ((updateThread tid f m).2.process.threads.map (·.1)).Nodup
  rw [threads_updateThread]
  exact h

/-- What handling a signal can do: pass over a clone event, leave alone what is
no stop of an attached process, track a new thread and pass over it, pass over
the `SIGSTOP` that was sent before, or decode the stop. -/
theorem handleSignal_cases (handlers : HitHandlers) (reason : StopReason) (isMainStop : Bool)
    (m : Machine) :
    (reason.trapReason = some .clone ∧ isMainStop = true ∧
      handleSignal handlers reason isMainStop m = (.ok none, m)) ∨
    (¬ (m.process.isAttached = true ∧ reason.reason = .stopped) ∧
      handleSignal handlers reason isMainStop m = (.ok (some reason), m)) ∨
    (reason.reason = .stopped ∧ m.thread? reason.tid = none ∧ isMainStop = true ∧
      handleSignal handlers reason isMainStop m = (.ok none, m.track reason)) ∨
    (∃ thread, reason.reason = .stopped ∧ m.thread? reason.tid = some thread ∧
      thread.pendingSigstop = true ∧ reason.info = sigstop ∧
      handleSignal handlers reason isMainStop m = (.ok none,
        (updateThread reason.tid (fun t => { t with pendingSigstop := false }) m).2)) ∨
    (∃ thread, reason.reason = .stopped ∧ m.thread? reason.tid = some thread ∧
      ¬ (thread.pendingSigstop = true ∧ reason.info = sigstop) ∧
      handleSignal handlers reason isMainStop m = decodeSignal handlers reason isMainStop m) ∨
    (reason.reason = .stopped ∧ m.thread? reason.tid = none ∧ isMainStop = false ∧
      handleSignal handlers reason isMainStop m =
        decodeSignal handlers reason isMainStop (m.track reason)) := by
  rw [handleSignal, bind_of_ok (get_apply m)]
  by_cases hclone : reason.trapReason = some .clone ∧ isMainStop = true
  · rw [if_pos hclone]
    exact .inl ⟨hclone.1, hclone.2, rfl⟩
  rw [if_neg hclone]
  by_cases hattached : m.process.isAttached = true ∧ reason.reason = .stopped
  case neg =>
    rw [if_neg hattached]
    exact .inr (.inl ⟨hattached, rfl⟩)
  rw [if_pos hattached]
  cases hthread : m.thread? reason.tid with
  | none =>
      have htrack : trackThread reason m = (.ok true, m.track reason) := by
        rw [trackThread, bind_of_ok (get_apply m), hthread]
        rfl
      rw [bind_of_ok htrack]
      cases isMainStop with
      | true => exact .inr (.inr (.inl ⟨hattached.2, rfl, rfl, rfl⟩))
      | false =>
          have hnew := Machine.thread?_track hthread
          refine .inr (.inr (.inr (.inr (.inr ⟨hattached.2, rfl, rfl, ?_⟩))))
          rw [if_neg (by simp), bind_of_ok (threadAt_eq hnew), if_neg (by simp [newThread])]
          rfl
  | some thread =>
      have htrack : trackThread reason m = (.ok false, m) := by
        rw [trackThread, bind_of_ok (get_apply m), hthread]
        rfl
      rw [bind_of_ok htrack, if_neg (by simp), bind_of_ok (threadAt_eq hthread)]
      by_cases hpending : thread.pendingSigstop = true ∧ reason.info = sigstop
      · rw [if_pos hpending]
        exact .inr (.inr (.inr (.inl ⟨thread, hattached.2, rfl, hpending.1, hpending.2, rfl⟩)))
      · rw [if_neg hpending]
        exact .inr (.inr (.inr (.inr (.inl ⟨thread, hattached.2, rfl, hpending, rfl⟩))))

/-- The reason of a decoded stop. -/
theorem decodeSignal_augmented {handlers : HitHandlers} {reason final : StopReason}
    {isMainStop : Bool} {m m' : Machine}
    (h : decodeSignal handlers reason isMainStop m = (.ok (some final), m')) :
    ∃ m₁ m₂, augmentStopReason reason m₁ = (.ok final, m₂) := by
  obtain ⟨_, m₁, -, hrest⟩ := Eff.bind_eq_ok.mp h
  unfold decodeLoaded at hrest
  obtain ⟨augmented, m₂, haugment, hrest₂⟩ := Eff.bind_eq_ok.mp hrest
  refine ⟨m₁, m₂, ?_⟩
  split at hrest₂
  · obtain ⟨restart, m₃, -, hend⟩ := Eff.bind_eq_ok.mp hrest₂
    split at hend
    · cases hend
    · cases hend
      exact haugment
  · cases hrest₂
    exact haugment

/-- Decoding keeps whether a thread stopped or ended. -/
theorem decodeSignal_reason {handlers : HitHandlers} {reason final : StopReason}
    {isMainStop : Bool} {m m' : Machine}
    (h : decodeSignal handlers reason isMainStop m = (.ok (some final), m')) :
    final.reason = reason.reason := by
  obtain ⟨m₁, m₂, haugment⟩ := decodeSignal_augmented h
  exact (augmentStopReason_keeps haugment).2

/-- Handling a signal keeps the thread and whether it stopped or ended. -/
theorem handleSignal_final {handlers : HitHandlers} {reason final : StopReason}
    {isMainStop : Bool} {m m' : Machine}
    (h : handleSignal handlers reason isMainStop m = (.ok (some final), m')) :
    final.tid = reason.tid ∧ final.reason = reason.reason := by
  have hdecode : ∀ m, decodeSignal handlers reason isMainStop m = (.ok (some final), m') →
      final.tid = reason.tid ∧ final.reason = reason.reason := by
    intro m h
    obtain ⟨m₁, m₂, haugment⟩ := decodeSignal_augmented h
    exact augmentStopReason_keeps haugment
  rcases handleSignal_cases handlers reason isMainStop m with
    ⟨-, -, h'⟩ | ⟨-, h'⟩ | ⟨-, -, -, h'⟩ | ⟨thread, -, -, -, -, h'⟩ | ⟨thread, -, -, -, h'⟩ |
      ⟨-, -, -, h'⟩ <;> rw [h'] at h
  · cases h
  · cases h
    exact ⟨rfl, rfl⟩
  · cases h
  · cases h
  · exact hdecode _ h
  · exact hdecode _ h

theorem handleSignal_reason {handlers : HitHandlers} {reason final : StopReason}
    {isMainStop : Bool} {m m' : Machine}
    (h : handleSignal handlers reason isMainStop m = (.ok (some final), m')) :
    final.reason = reason.reason :=
  (handleSignal_final h).2

section Others

variable {handlers : HitHandlers} {t : Tid}

theorem handleSignal_record {reason : StopReason} (ht : t ≠ reason.tid)
    (hinfo : reason.syscallInfo = none) (isMainStop : Bool) :
    Respects (Fixes fun m => m.roster.record t) (handleSignal handlers reason isMainStop) := by
  intro m
  have hdecode : ∀ m, (decodeSignal handlers reason isMainStop m).2.roster.record t =
      m.roster.record t := fun m => by
    rw [decodeSignal_roster handlers hinfo isMainStop m]
  have htrack : (m.track reason).roster.record t = m.roster.record t := by
    simp only [Machine.roster, m.thread?_track_of_ne ht]
  rcases handleSignal_cases handlers reason isMainStop m with
    ⟨-, -, h⟩ | ⟨-, h⟩ | ⟨-, -, -, h⟩ | ⟨thread, -, -, -, -, h⟩ | ⟨thread, -, -, -, h⟩ |
      ⟨-, -, -, h⟩ <;>
    rw [h]
  · exact refl_of _ m
  · exact refl_of _ m
  · exact htrack
  · dsimp only [Fixes]
    exact record_updateThread_of_ne m _ ht
  · exact hdecode m
  · exact (hdecode _).trans htrack

/-- Stopping one thread leaves the records of the others alone. -/
theorem stopThread_record {tid : Tid} (ht : t ≠ tid) :
    Respects (Fixes fun m => m.roster.record t) (stopThread handlers tid) := by
  have hupdate : ∀ f, Respects (Fixes fun m => m.roster.record t) (updateThread tid f) :=
    fun f m => record_updateThread_of_ne m f ht
  refine Respects.bind (Respects.asks _) fun thread => Respects.ite ?_ (Respects.pure _)
  refine Respects.bind (Respects.ite (Respects.pure _) (Respects.modify fun _ => rfl)) fun _ => ?_
  refine Respects.bind (fun m => ?_) fun answer => ?_
  · rcases waitpid_cases .stopRunningThreads (some tid) m with
      h | ⟨rest, -, h⟩ | ⟨event, rest, -, -, h⟩ <;> rw [h] <;> rfl
  cases answer with
  | none => exact Respects.throw _
  | some event =>
      refine Respects.bind (Respects.ite (hupdate _) (Respects.pure _)) fun _ => ?_
      refine Respects.bind (handleSignal_record ?_ (StopReason.ofWait_syscallInfo _ _) false)
        fun _ => hupdate _
      rwa [StopReason.ofWait_tid]

/-- A thread that is not recorded as running is left alone when all are stopped. -/
theorem stopThread_idle {P : Option ThreadRecord → Prop}
    (hidle : ∀ record, P (some record) → record.state ≠ .running) (tid : Tid) :
    Respects (Carries fun m => P (m.roster.record t)) (stopThread handlers tid) := by
  intro m hm
  by_cases ht : t = tid
  · subst ht
    cases hthread : m.thread? t with
    | none =>
        rw [stopThread, bind_of_error (threadAt_of_none hthread)]
        exact hm
    | some thread =>
        have hrecord : m.roster.record t = some thread.record := by simp [Machine.roster, hthread]
        have hstate : thread.state ≠ .running := hidle thread.record (hrecord ▸ hm)
        rw [stopThread, bind_of_ok (threadAt_eq hthread), if_neg hstate]
        exact hm
  · have hsame : (stopThread handlers tid m).2.roster.record t = m.roster.record t :=
      stopThread_record ht m
    rw [hsame]
    exact hm

end Others

theorem forEach_observe {α : Type} (f : α → Observation) (items : List α) (m : Machine) :
    (forEach (fun a => modify (Machine.observe (f a))) items : Debugger PUnit) m =
      (.ok ⟨⟩, { m with trace := (items.map f).reverse ++ m.trace }) := by
  induction items generalizing m with
  | nil => rfl
  | cons a rest ih =>
      rw [forEach, bind_of_ok (modify_apply _ m), ih]
      simp [Machine.observe]

/-- The threads that are gone, except the one that stopped. -/
def Process.gone (p : Process) (mainStopTid : Tid) : List (Tid × ThreadState) :=
  p.threads.filter (isCleanedUp mainStopTid)

/-- A machine without the threads that are gone. -/
def Machine.cleanup (m : Machine) (mainStopTid : Tid) : Machine :=
  m.setProcess fun p => { p with
    threads := p.threads.filter fun entry =>
      !((m.process.gone mainStopTid).map (·.1)).contains entry.1 }

/-- The stops that cleaning up reports, newest first. -/
def Machine.reportsGone (m : Machine) (mainStopTid : Tid) : List Observation :=
  ((m.process.gone mainStopTid).map fun entry => Observation.lifecycle entry.2.reason).reverse

theorem Machine.reportsGone_eq (m : Machine) (tid : Tid) : m.reportsGone tid =
    ((m.process.gone tid).map (·.2.reason)).reverse.map Observation.lifecycle := by
  rw [Machine.reportsGone, ← List.map_reverse, ← List.map_reverse, List.map_map]
  rfl

/-- Every thread that is gone is reported and forgotten. -/
theorem cleanupExitedThreads_apply (mainStopTid : Tid) (m : Machine) :
    cleanupExitedThreads mainStopTid m =
      (.ok (((m.process.gone mainStopTid).find? fun entry => entry.1 = m.process.pid).map
        (·.2.reason)),
        ({ m with trace := m.reportsGone mainStopTid ++ m.trace } : Machine).cleanup
            mainStopTid) := by
  rw [cleanupExitedThreads, bind_of_ok (get_apply m)]
  exact bind_of_ok (forEach_observe (fun entry : Tid × ThreadState =>
    Observation.lifecycle entry.2.reason) _ m) _

theorem Machine.mem_of_thread? {m : Machine} {t : Tid} {thread : ThreadState}
    (h : m.thread? t = some thread) : (t, thread) ∈ m.process.threads := by
  obtain ⟨entry, hfind, rfl⟩ := Option.map_eq_some_iff.mp h
  have htid : entry.1 = t := by simpa using List.find?_some hfind
  subst htid
  exact List.mem_of_find?_eq_some hfind

theorem Machine.thread?_of_mem {m : Machine} (hdistinct : m.roster.tids.Nodup) {t : Tid}
    {thread : ThreadState} (h : (t, thread) ∈ m.process.threads) : m.thread? t = some thread := by
  cases hfind : m.process.threads.find? fun entry => entry.1 = t with
  | none =>
      have hnone := List.find?_eq_none.mp hfind (t, thread) h
      simp at hnone
  | some entry =>
      have htid : entry.1 = t := by simpa using List.find?_some hfind
      have heq : entry = (t, thread) :=
        List.inj_on_of_nodup_map hdistinct (List.mem_of_find?_eq_some hfind) h htid
      simp [Machine.thread?, hfind, heq]

/-- The threads that stay are those that are not cleaned up. -/
theorem Machine.thread?_cleanup {m : Machine} (hdistinct : m.roster.tids.Nodup)
    (mainStopTid t : Tid) : (m.cleanup mainStopTid).thread? t =
      (m.thread? t).filter fun thread => !isCleanedUp mainStopTid (t, thread) := by
  rw [Machine.cleanup, Machine.thread?_filter m fun tid =>
    !((m.process.gone mainStopTid).map (·.1)).contains tid]
  cases hthread : m.thread? t with
  | none => simp
  | some thread =>
      have hmem : t ∈ (m.process.gone mainStopTid).map (·.1) ↔
          isCleanedUp mainStopTid (t, thread) = true := by
        constructor
        · intro h
          obtain ⟨⟨tid, other⟩, hgone, rfl⟩ := List.mem_map.mp h
          obtain ⟨hentry, hcleaned⟩ := List.mem_filter.mp hgone
          rw [Machine.thread?_of_mem hdistinct hentry] at hthread
          cases hthread
          exact hcleaned
        · intro hcleaned
          exact List.mem_map.mpr ⟨(t, thread), List.mem_filter.mpr
            ⟨Machine.mem_of_thread? hthread, hcleaned⟩, rfl⟩
      cases hcleaned : isCleanedUp mainStopTid (t, thread) with
      | true => simp [Option.filter, hcleaned, hmem.mpr hcleaned]
      | false =>
          have hnot : t ∉ (m.process.gone mainStopTid).map (·.1) := by
            rw [hmem, hcleaned]
            simp
          simp [Option.filter, hcleaned, hnot]

end Gsdb
