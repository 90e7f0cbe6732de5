/-
All-stop mode.  Between two commands every thread that is not recorded as
running is not running, whatever the kernel did; a wait that returns a stop, or
throws from inside its `try` block, has no thread recorded as running.
-/
import Gsdb.Commands

namespace Gsdb

open ByteMemory Effects Eff Debugger

/-- Threads that are not recorded as running are not running, with the exception
of one that was let run for a step. -/
def Roster.TracksBut (exempt : Tid → Prop) (roster : Roster) : Prop :=
  ∀ t record, ¬ exempt t → roster.record t = some record → record.state ≠ .running →
    roster.status t ≠ .running

def Roster.Tracks (roster : Roster) : Prop := roster.TracksBut fun _ => False

/-- Nothing is running unnoticed. -/
def Noticed (m : Machine) : Prop := m.roster.Tracks ∧ Answers m

/-- Nothing but a thread let run for a step is running unnoticed. -/
def Stepping (tid : Tid) (m : Machine) : Prop := m.roster.TracksBut (· = tid) ∧ Answers m

/-- Nothing is running unnoticed, and a thread is not running. -/
def Reported (tid : Tid) (m : Machine) : Prop :=
  Noticed m ∧ (m.kernel.threads tid).status ≠ .running

def allStopAssertions : Assertions where
  rest := Noticed
  swallowed := fun _ => Noticed
  awaited := Stepping
  due := fun event => Reported event.tid
  handled := fun event _ => Reported event.tid
  failed := fun event => Reported event.tid
  returned := fun _ => Noticed
  thrown := fun e m => e.isException = true → Noticed m

section Steps

variable {m m' : Machine} {tid : Tid}

theorem Noticed.of_roster (h : Noticed m) (hsame : Fixes Machine.roster m m') : Noticed m' := by
  have hscript : m'.kernel.script = m.kernel.script := congrArg Roster.script hsame
  unfold Noticed Answers
  rw [hsame, hscript]
  exact h

theorem Reported.of_roster (h : Reported tid m) (hsame : Fixes Machine.roster m m') :
    Reported tid m' := by
  have hstatus : (m'.kernel.threads tid).status = (m.kernel.threads tid).status :=
    congrFun (congrArg Roster.status hsame) tid
  exact ⟨h.1.of_roster hsame, hstatus ▸ h.2⟩

theorem Noticed.stepping (h : Noticed m) (tid : Tid) : Stepping tid m :=
  ⟨fun t record _ => h.1 t record id, h.2⟩

/-- An entry changes in a way that keeps what is known of the thread. -/
theorem Reported.update (h : Reported tid m) (f : ThreadState → ThreadState) :
    Reported tid (updateThread tid f m).2 := by
  refine ⟨⟨fun t record _ hrecord hstate => ?_, h.1.2⟩, h.2⟩
  by_cases ht : t = tid
  · subst ht
    exact h.2
  · rw [record_updateThread_of_ne m f ht] at hrecord
    exact h.1.1 t record id hrecord hstate

theorem Noticed.letRun (h : Noticed m) (tid : Tid) (request : RunRequest) :
    Stepping tid (m.letRun tid request) := by
  refine ⟨fun t record ht hrecord hstate => ?_, h.2⟩
  change ((m.letRun tid request).kernel.threads t).status ≠ .running
  rw [status_letRun, if_neg ht]
  exact h.1 t record id hrecord hstate

theorem ptraceRun_stepping (request : RunRequest) (tid : Tid) :
    Triple Noticed (ptraceRun request tid) (fun ran m => if ran then Stepping tid m else Noticed m)
      (fun _ _ => False) := by
  intro m hm
  rcases ptraceRun_cases request tid m with ⟨-, h⟩ | ⟨-, h⟩
  · exact Triple.of_eq_ok h (hm.letRun tid request)
  · exact Triple.of_eq_ok h hm

/-- A thread is not running when it reports. -/
theorem Roster.TracksBut.deliver {exempt : Tid → Prop} (h : m.roster.TracksBut exempt)
    (hanswers : Answers m) {waiter : Waiter} {event : WaitEvent} {rest : List WaitAnswer}
    (hexempt : ∀ t, exempt t → t = event.tid) (hscript : m.kernel.script = .report event :: rest) :
    Reported event.tid ((m.deliver waiter event).setScript rest) := by
  have hreporter : ((m.deliver waiter event).kernel.threads event.tid).status ≠ .running := by
    rw [status_deliver, if_pos rfl]
    split <;> simp
  refine ⟨⟨fun t record _ hrecord hstate => ?_, fun hfails => ?_⟩, hreporter⟩
  · by_cases ht : t = event.tid
    · subst ht
      exact hreporter
    · change ((m.deliver waiter event).kernel.threads t).status ≠ .running
      rw [status_deliver, if_neg ht]
      exact h t record (fun hex => ht (hexempt t hex)) hrecord hstate
  · unfold Answers at hanswers
    rw [hscript] at hanswers
    exact hanswers (List.mem_cons_of_mem _ hfails)

/-- A wait for a thread that may be running unnoticed. -/
theorem waitpid_stepping (waiter : Waiter) (tid : Tid) :
    Triple (Stepping tid) (waitpid waiter (some tid))
      (fun answer m => ∃ event, answer = some event ∧ event.tid = tid ∧ Reported tid m)
      (fun e _ => e.isException = false) := by
  intro m hm
  rcases waitpid_cases waiter (some tid) m with h | ⟨rest, hscript, -⟩ |
    ⟨event, rest, hmay, hscript, h⟩
  · exact Triple.of_eq_error h rfl
  · exact absurd (hscript ▸ List.mem_cons_self) hm.2
  · have htid := Machine.mayReport_some hmay
    subst htid
    exact Triple.of_eq_ok h ⟨event, rfl, rfl, hm.1.deliver hm.2 (fun _ ht => ht) hscript⟩

theorem waitpid_noticed (waiter : Waiter) (toAwait : Option Tid) :
    Triple Noticed (waitpid waiter toAwait)
      (fun answer m => ∃ event, answer = some event ∧ Reported event.tid m)
      (fun e _ => e.isException = false) := by
  intro m hm
  rcases waitpid_cases waiter toAwait m with h | ⟨rest, hscript, -⟩ |
    ⟨event, rest, hmay, hscript, h⟩
  · exact Triple.of_eq_error h rfl
  · exact absurd (hscript ▸ List.mem_cons_self) hm.2
  · exact Triple.of_eq_ok h ⟨event, rfl, hm.1.deliver hm.2 (fun _ ht => ht.elim) hscript⟩

theorem uncaught {e : Failure} (h : e.isException = false) (m : Machine) :
    allStopAssertions.thrown e m := by
  intro hexception
  rw [h] at hexception
  cases hexception

theorem swallowPendingSigstop_noticed (tid : Tid) :
    Triple Noticed (swallowPendingSigstop tid) (fun _ => Noticed) allStopAssertions.thrown := by
  refine Triple.bind (threadAt_triple fun m hm _ _ => hm) fun thread => ?_
  refine Triple.ite (fun _ => ?_) fun _ => Triple.pure fun _ hm => hm.1
  refine Triple.bind (Q := fun _ => Stepping tid) ((ptraceRun_stepping .cont tid).mono
    (fun _ hm => hm.1) (fun ran m hm => ?_) fun _ _ hm => hm.elim) fun _ => ?_
  · cases ran with
    | true => exact hm
    | false => exact Noticed.stepping hm tid
  refine Triple.bind (Q := fun _ => Reported tid) ((waitpid_stepping _ tid).mono (fun _ hm => hm)
    (fun _ _ ⟨_, _, _, hm⟩ => hm) fun _ m he => uncaught he m) fun _ => ?_
  exact updateThread_triple fun _ hm => (hm.update _).1

theorem sendContinue_noticed (tid : Tid) :
    Triple Noticed (sendContinue tid) (fun _ => Noticed) allStopAssertions.thrown := by
  refine Triple.get_bind fun m hm => ?_
  refine Triple.bind (Q := fun ran m => if ran then Stepping tid m else Noticed m)
    ((ptraceRun_stepping _ tid).mono (fun _ hs => hs ▸ hm) (fun _ _ hm => hm)
    fun _ _ hm => hm.elim) fun ran => ?_
  cases ran with
  | false => exact Triple.throw fun _ hm _ => hm
  | true =>
      refine Triple.bind (threadAt_triple fun m hm hnone _ => ?_) fun thread => ?_
      · -- the thread runs but has no entry that could be wrong about it
        refine ⟨fun t record _ hrecord hstate => hm.1 t record ?_ hrecord hstate, hm.2⟩
        rintro rfl
        simp [Machine.roster, hnone] at hrecord
      refine Triple.bind (Q := fun _ => Noticed) (updateThread_triple fun m hm => ?_) fun _ =>
        Triple.modify fun m hm => hm.of_roster rfl
      refine ⟨fun t record _ hrecord hstate => ?_, hm.1.2⟩
      by_cases ht : t = tid
      · subst ht
        obtain ⟨old, -, rfl⟩ := record_updateThread hrecord
        exact absurd rfl hstate
      · rw [record_updateThread_of_ne m _ ht] at hrecord
        exact hm.1.1 t record ht hrecord hstate

theorem Reported.track {reason : StopReason} (h : Reported reason.tid m) :
    Reported reason.tid (m.track reason) := by
  refine ⟨⟨fun t record _ hrecord hstate => ?_, h.1.2⟩, h.2⟩
  by_cases ht : t = reason.tid
  · subst ht
    exact h.2
  · refine h.1.1 t record id ?_ hstate
    simp only [Machine.roster, Machine.thread?_track_of_ne m ht] at hrecord
    exact hrecord

/-- Handling a signal leaves nothing running unnoticed. -/
theorem handleSignal_reported (handlers : HitHandlers) {reason : StopReason}
    (hinfo : reason.syscallInfo = none) (isMainStop : Bool) :
    Triple (Reported reason.tid) (handleSignal handlers reason isMainStop)
      (fun _ => Reported reason.tid) (fun _ => Reported reason.tid) := by
  refine Triple.of_respects fun m hm => ?_
  have hdecode : ∀ m, Reported reason.tid m →
      Reported reason.tid (decodeSignal handlers reason isMainStop m).2 := fun m hm =>
    hm.of_roster (decodeSignal_roster handlers hinfo isMainStop m)
  rcases handleSignal_cases handlers reason isMainStop m with
    ⟨-, -, h⟩ | ⟨-, h⟩ | ⟨-, -, -, h⟩ | ⟨thread, -, -, -, -, h⟩ | ⟨thread, -, -, -, h⟩ |
      ⟨-, -, -, h⟩ <;>
    rw [h]
  · exact hm
  · exact hm
  · exact hm.track
  · dsimp only
    exact hm.update _
  · exact hdecode m hm
  · exact hdecode _ hm.track

theorem noteReason_reported (tid : Tid) (reason : StopReason) :
    Triple (Reported tid) (noteReason tid reason) (fun _ => Reported tid)
      allStopAssertions.thrown :=
  updateThread_triple fun _ hm => hm.update _

theorem recordStop_reported (handlers : HitHandlers) {tid : Tid} {reason : StopReason}
    (htid : reason.tid = tid) (hinfo : reason.syscallInfo = none) :
    Triple (Reported tid) (recordStop handlers tid reason) (fun _ => Reported tid)
      allStopAssertions.thrown := by
  subst htid
  refine Triple.bind (Q := fun _ => Reported reason.tid) ((handleSignal_reported handlers hinfo
    false).mono (fun _ hm => hm) (fun _ _ hm => hm) fun _ _ hm _ => hm.1) fun handled => ?_
  exact updateThread_triple fun _ hm => hm.update _

theorem notePendingSigstop_reported (tid : Tid) (reason : StopReason) :
    Triple (Reported tid) (notePendingSigstop tid reason) (fun _ => Reported tid)
      allStopAssertions.thrown :=
  Triple.ite (fun _ => updateThread_triple fun _ hm => hm.update _) fun _ =>
    Triple.pure fun _ hm => hm

theorem stopThread_noticed (handlers : HitHandlers) (tid : Tid) :
    Triple Noticed (stopThread handlers tid) (fun _ => Noticed) allStopAssertions.thrown := by
  refine Triple.bind (threadAt_triple fun m hm _ _ => hm) fun thread => ?_
  refine Triple.ite (fun _ => ?_) fun _ => Triple.pure fun _ hm => hm.1
  refine Triple.bind (Q := fun _ => Noticed) (Triple.ite (fun _ => Triple.pure fun _ hm => hm.1)
    fun _ => Triple.modify fun _ hm => hm.1) fun _ => ?_
  refine Triple.bind (Q := fun answer m => ∃ event, answer = some event ∧ Reported tid m)
    ((waitpid_stepping _ tid).mono (fun _ hm => hm.stepping tid) (fun _ _ ⟨event, h, _, hm⟩ =>
      ⟨event, h, hm⟩) fun _ m he => uncaught he m) fun answer => ?_
  cases answer with
  | none => exact Triple.throw fun m hm => uncaught rfl m
  | some event =>
      refine Triple.bind (Q := fun _ => Reported tid) ((notePendingSigstop_reported tid _).mono
        (fun _ ⟨_, _, hm⟩ => hm) (fun _ _ hm => hm) fun _ _ hm => hm) fun _ => ?_
      exact (recordStop_reported handlers (StopReason.ofWait_tid _ _)
        (StopReason.ofWait_syscallInfo _ _)).mono (fun _ hm => hm) (fun _ _ hm => hm.1)
        fun _ _ hm => hm

theorem Noticed.filter (h : Noticed m) (keep : Tid → Bool) :
    Noticed (m.setProcess fun p => { p with
      threads := p.threads.filter fun entry => keep entry.1 }) := by
  refine ⟨fun t record _ hrecord hstate => ?_, h.2⟩
  obtain ⟨thread, hthread, rfl⟩ := Option.map_eq_some_iff.mp hrecord
  have hold := (Machine.thread?_of_filter keep hthread).1
  exact h.1 t thread.record id (by simp [Machine.roster, hold]) hstate

theorem cleanupExitedThreads_noticed (tid : Tid) :
    Triple Noticed (cleanupExitedThreads tid) (fun _ => Noticed) allStopAssertions.thrown := by
  refine Triple.get_bind fun m hm => ?_
  have hreports : Triple Noticed (forEach (fun entry : Tid × ThreadState =>
      reportThreadLifecycleEvent entry.2.reason) (m.process.threads.filter (isCleanedUp tid)))
      (fun _ => Noticed) allStopAssertions.thrown :=
    Triple.forEach fun entry _ => Triple.modify fun m hm => hm
  refine Triple.bind (Q := fun _ => Noticed) (hreports.mono (fun s hs => hs ▸ hm)
    (fun _ _ hm => hm) fun _ _ hm => hm) fun _ => ?_
  refine Triple.bind (Q := fun _ => Noticed) (Triple.modify fun m' hm' => ?_) fun _ =>
    Triple.pure fun _ hm => hm
  exact hm'.filter fun t => !((m.process.threads.filter (isCleanedUp tid)).map (·.1)).contains t

theorem keeps_noticed {α : Type} {x : Debugger α} (h : Respects (Fixes Machine.roster) x) :
    Triple Noticed x (fun _ => Noticed) allStopAssertions.thrown :=
  (Triple.of_respects fun m hm => hm.of_roster (h m)).mono (fun _ hm => hm) (fun _ _ hm => hm)
    fun _ _ hm _ => hm

/-- Whatever the kernel reports, nothing is running unnoticed between two
commands. -/
theorem allStopRules (handlers : HitHandlers) : StopRules handlers allStopAssertions where
  raised := fun _ _ hm _ => hm
  sample := fun tid => keeps_noticed (samplePc_roster tid)
  lift := fun tid bp pc => (keeps_noticed (liftSite_roster tid bp pc)).mono (fun _ hm => hm.1)
    (fun _ _ hm => hm) fun _ _ hm => hm
  relay := fun bp pc => keeps_noticed (relaySite_roster bp pc)
  swallow := swallowPendingSigstop_noticed
  step := fun tid => (ptraceRun_stepping .singleStep tid).mono (fun _ hm => hm) (fun _ _ hm => hm)
    fun _ _ hm => hm.elim
  stepped := fun tid => (waitpid_stepping _ tid).mono (fun _ hm => hm)
    (fun _ _ ⟨_, _, _, hm⟩ => hm.1) fun _ m he => uncaught he m
  goOn := sendContinue_noticed
  wait := fun toAwait => (waitpid_noticed _ toAwait).mono (fun _ hm => hm)
    (fun _ _ ⟨event, h, hm⟩ => by subst h; exact hm) fun _ m he => uncaught he m
  waitStepped := fun tid => (waitpid_stepping _ tid).mono (fun _ hm => hm)
    (fun _ _ ⟨event, h, htid, hm⟩ => by subst h htid; exact hm) fun _ m he => uncaught he m
  signal := fun event => by
    have hsignal := handleSignal_reported handlers (StopReason.ofWait_syscallInfo event.tid
      event.status) true
    rw [StopReason.ofWait_tid] at hsignal
    refine hsignal.mono (fun _ hm => hm) (fun final m hm => ?_) fun e m hm => ?_
    · cases final with
      | none => exact hm.1
      | some reason => exact hm
    · unfold Assertions.escaped
      split
      · exact hm
      · exact fun _ => hm.1
  caught := fun event => (noteReason_reported event.tid _).mono (fun _ hm => hm)
    (fun _ _ hm => hm.1) fun _ _ hm => hm
  untracked := fun _ _ _ _ hm _ _ => hm.1
  stopped := fun event reason _ => (noteReason_reported event.tid reason).mono
    (fun _ hm => hm.1) (fun _ _ hm => hm.1) fun _ _ hm => hm
  exited := fun event reason _ => (noteReason_reported event.tid reason).mono
    (fun _ hm => hm.1) (fun _ _ hm => hm.1) fun _ _ hm => hm
  stopThread := stopThread_noticed handlers
  cleanup := fun event _ _ _ _ => (cleanupExitedThreads_noticed event.tid).pre fun _ hm => hm.1
  ended := fun _ _ _ hm => hm
  process := fun _ _ _ hm => hm.of_roster rfl
  answer := fun _ _ _ hm => hm.of_roster rfl
  reenabled := fun _ bp pc => keeps_noticed (relaySite_roster bp pc)
  dangling := fun _ _ _ hm _ => hm
  settled := fun _ _ hm => hm

end Steps

/-- The state in which a wait begins: nothing but the thread waited for is
running unnoticed. -/
def Awaiting (toAwait : Option Tid) (m : Machine) : Prop :=
  m.roster.TracksBut (toAwait = some ·) ∧ Answers m

theorem Noticed.awaiting {m : Machine} (h : Noticed m) (toAwait : Option Tid) :
    Awaiting toAwait m :=
  ⟨fun t record _ => h.1 t record id, h.2⟩

theorem Run.noticed {handlers : HitHandlers} {start m : Machine} (hrun : Run handlers start m)
    (hstart : Noticed start) : Noticed m :=
  (allStopRules handlers).run hrun
    ((allStopRules handlers).command (fun _ => keeps_noticed (siteFrame_roster.run (.inl rfl)))
      (fun op => keeps_noticed (watchpointFrame_roster.run op)) fun _ _ _ _ hm => hm.of_roster rfl)
    (fun _ _ hexception hm => hm hexception) hstart

theorem WaitsFrom.awaiting {handlers : HitHandlers} {start m : Machine} {toAwait : Option Tid}
    (h : WaitsFrom handlers start toAwait m) (hstart : Noticed start) : Awaiting toAwait m := by
  cases h with
  | command _ before => exact (before.noticed hstart).awaiting toAwait
  | step before hbegin =>
      obtain ⟨htracks, hanswers⟩ :=
        ((allStopRules handlers).beginStep _ _ (before.noticed hstart)).1 _ _ hbegin
      exact ⟨fun t record ht => htracks t record fun heq => ht (by rw [heq]), hanswers⟩

/-- No thread is recorded as running. -/
def NoneRunning (m : Machine) : Prop :=
  ∀ t record, m.roster.record t = some record → record.state ≠ .running

/-- No tracked thread is recorded as running, and each that is still alive is in
a ptrace stop. -/
def AllStopped (m : Machine) : Prop :=
  ∀ t thread, m.thread? t = some thread → thread.state ≠ .running ∧
    ((m.kernel.threads t).status ≠ .absent → m.isStopped t = true)

/-- The outcome of a wait: where a stop is returned or an exception thrown, all
threads are stopped. -/
def StopsAll (outcome : Except Failure StopReason × Machine) : Prop :=
  (∀ reason, outcome.1 = .ok reason → reason.reason = .stopped → AllStopped outcome.2) ∧
    ∀ e, outcome.1 = .error e → e.isException = true → AllStopped outcome.2

theorem NoneRunning.allStopped {m : Machine} (h : NoneRunning m) (hnoticed : Noticed m) :
    AllStopped m := by
  intro t thread hthread
  have hrecord : m.roster.record t = some thread.record := by simp [Machine.roster, hthread]
  have hstate := h t thread.record hrecord
  refine ⟨hstate, fun halive => ?_⟩
  have hstatus : (m.kernel.threads t).status ≠ .running :=
    hnoticed.1 t thread.record id hrecord hstate
  cases hk : (m.kernel.threads t).status with
  | absent => exact absurd hk halive
  | running => exact absurd hk hstatus
  | stopped => simp [Machine.isStopped, hk]

section Stopping

variable {handlers : HitHandlers} {t : Tid}

/-- A thread that was stopped is not recorded as running. -/
theorem stopThread_stops {m m' : Machine} {u : PUnit}
    (h : stopThread handlers t m = (.ok u, m')) :
    ∀ record, m'.roster.record t = some record → record.state ≠ .running := by
  obtain ⟨thread, m₁, hat, hrest⟩ := Eff.bind_eq_ok.mp h
  obtain ⟨hthread, rfl⟩ := threadAt_eq_ok hat
  by_cases hrunning : thread.state = .running
  · rw [if_pos hrunning] at hrest
    obtain ⟨_, m₂, -, hrest₂⟩ := Eff.bind_eq_ok.mp hrest
    obtain ⟨answer, m₃, -, hrest₃⟩ := Eff.bind_eq_ok.mp hrest₂
    cases answer with
    | none => cases hrest₃
    | some event =>
        obtain ⟨_, m₄, -, hrest₄⟩ := Eff.bind_eq_ok.mp hrest₃
        obtain ⟨handled, m₅, hsignal, hupdate⟩ := Eff.bind_eq_ok.mp hrest₄
        intro record hrecord
        have hlast : (updateThread t _ m₅).2 = m' := congrArg Prod.snd hupdate
        rw [← hlast] at hrecord
        obtain ⟨old, -, rfl⟩ := record_updateThread hrecord
        cases handled with
        | none => exact ofWait_ne_running t event.status
        | some final =>
            change final.reason ≠ .running
            rw [handleSignal_reason hsignal]
            exact ofWait_ne_running t event.status
  · rw [if_neg hrunning] at hrest
    cases hrest
    intro record hrecord
    simp only [Machine.roster, hthread, Option.map_some, Option.some.injEq] at hrecord
    subst hrecord
    exact hrunning

/-- After all threads were stopped none is recorded as running. -/
theorem stopRunningThreads_stops {m m' : Machine} {u : PUnit}
    (h : stopRunningThreads handlers m = (.ok u, m')) : NoneRunning m' := by
  intro t
  have hkeeps : ∀ tid, Respects (Carries fun m => ∀ record, m.roster.record t = some record →
      record.state ≠ .running) (stopThread handlers tid) :=
    fun tid => stopThread_idle (P := fun entry => ∀ record, entry = some record →
      record.state ≠ .running) (fun record h => h record rfl) tid
  rw [stopRunningThreads, bind_of_ok (get_apply m)] at h
  by_cases hmem : t ∈ m.process.threads.map (·.1)
  · exact forEach_establishes hmem (fun tid _ => hkeeps tid)
      (fun _ _ _ hround => stopThread_stops hround) h
  · refine (Respects.forEach fun tid _ => hkeeps tid).apply_eq h fun record hrecord => ?_
    have hnone : m.thread? t = none := by
      cases hthread : m.thread? t with
      | none => rfl
      | some thread => exact absurd ((m.mem_threads_iff t).mpr (by rw [hthread]; rfl)) hmem
    simp [Machine.roster, hnone] at hrecord

/-- No exception is thrown outside the `try` block while a report is handled:
stopping the other threads returns, a thread that is passed over can be resumed,
and the thread of a report that is not passed over is tracked. -/
def orderlyReport (handlers : HitHandlers) (again : Option Tid → Machine → Bool)
    (toAwait : Option Tid) (event : WaitEvent) (m : Machine) : Bool :=
  let tid := event.tid
  let reason := StopReason.ofWait tid event.status
  match handleSignal handlers reason true m with
  | (.error _, m') => !throws (stopRunningThreads handlers) (noteReason tid reason m').2
  | (.ok none, m') => !throws (resume (some tid)) m' && again toAwait (resume (some tid) m').2
  | (.ok (some final), m') => (m'.thread? tid).isSome &&
      if final.reason = .exited ∨ final.reason = .terminated then
        again none ((noteReason tid final m').2.observe (.lifecycle final))
      else !throws (stopRunningThreads handlers) (noteReason tid final m').2

/-- No exception is thrown outside the `try` block of `wait_on_signal`, in any
of its rounds. -/
def orderly (handlers : HitHandlers) : Nat → Option Tid → Machine → Bool
  | 0, _, _ => true
  | rounds + 1, toAwait, m =>
      match waitpid .waitOnSignal toAwait m with
      | (.ok (some event), m') => orderlyReport handlers (orderly handlers rounds) toAwait event m'
      | (.ok none, _) => false
      | (.error _, _) => true

variable {m : Machine}

theorem stopsAll_of_error {e : Failure} (he : e.isException = false) (m : Machine) :
    StopsAll (.error e, m) := by
  refine ⟨fun reason h => (by cases h), fun e' h hexception => ?_⟩
  cases h
  rw [he] at hexception
  cases hexception

/-- Without an exception all threads are brought to a stop. -/
theorem stopRunningThreads_cases (hm : Noticed m)
    (hquiet : throws (stopRunningThreads handlers) m = false) :
    (∃ e m', stopRunningThreads handlers m = (.error e, m') ∧ e.isException = false) ∨
      ∃ m', stopRunningThreads handlers m = (.ok ⟨⟩, m') ∧ Noticed m' ∧ NoneRunning m' := by
  have hspec := (allStopRules handlers).stopRunningThreads m hm
  rcases hstop : stopRunningThreads handlers m with ⟨e | u, m'⟩
  · refine .inl ⟨e, m', rfl, ?_⟩
    cases he : e.isException with
    | false => rfl
    | true => simp [throws, hstop, he] at hquiet
  · exact .inr ⟨m', rfl, hspec.1 u m' hstop, stopRunningThreads_stops hstop⟩

theorem NoneRunning.filter (h : NoneRunning m) (keep : Tid → Bool) :
    NoneRunning (m.setProcess fun p => { p with
      threads := p.threads.filter fun entry => keep entry.1 }) := by
  intro t record hrecord
  obtain ⟨thread, hthread, rfl⟩ := Option.map_eq_some_iff.mp hrecord
  have hold := (Machine.thread?_of_filter keep hthread).1
  exact h t thread.record (by simp [Machine.roster, hold])

theorem cleanupExitedThreads_noneRunning (tid : Tid) :
    Respects (Carries NoneRunning) (cleanupExitedThreads tid) := by
  refine Respects.bind Respects.get fun m => ?_
  refine Respects.bind (Respects.forEach fun _ _ => Respects.modify fun _ hm => hm) fun _ => ?_
  refine Respects.bind (Respects.modify fun m' hm' => ?_) fun _ => Respects.pure _
  exact hm'.filter fun t => !((m.process.threads.filter (isCleanedUp tid)).map (·.1)).contains t

/-- The `catch` block stops all threads, if stopping them returns. -/
theorem recordFailedStop_cases {event : WaitEvent} (hm : Reported event.tid m)
    (hquiet : throws (stopRunningThreads handlers)
      (noteReason event.tid (.ofWait event.tid event.status) m).2 = false) :
    (∃ e m', recordFailedStop handlers (.ofWait event.tid event.status) m = (.error e, m') ∧
        e.isException = false) ∨
      ∃ m', recordFailedStop handlers (.ofWait event.tid event.status) m = (.ok ⟨⟩, m') ∧
        AllStopped m' := by
  have hnoted : Noticed (noteReason event.tid (.ofWait event.tid event.status) m).2 :=
    (hm.update _).1
  have hnote : noteReason event.tid (.ofWait event.tid event.status) m =
      (.ok ⟨⟩, (noteReason event.tid (.ofWait event.tid event.status) m).2) := rfl
  rw [recordFailedStop, StopReason.ofWait_tid]
  change (∃ e m',
    (noteReason event.tid (.ofWait event.tid event.status) >>= _) m = (.error e, m') ∧ _) ∨
    ∃ m', (noteReason event.tid (.ofWait event.tid event.status) >>= _) m = _ ∧ _
  rw [bind_of_ok hnote]
  rcases stopRunningThreads_cases hnoted hquiet with ⟨e, m', hstop, he⟩ | ⟨m', hstop, hm', hnone⟩
  · exact .inl ⟨e, m', bind_of_error hstop _, he⟩
  · refine .inr ⟨_, bind_of_ok hstop _, ?_⟩
    exact NoneRunning.allStopped (fun t record hrecord => hnone t record hrecord)
      (hm'.of_roster rfl)

/-- A stop that is reported brings all threads to a stop first. -/
theorem report_stopsAll {tid : Tid} {final : StopReason} (hm : Noticed m)
    (hquiet : throws (stopRunningThreads handlers) m = false) :
    StopsAll ((do
      stopRunningThreads handlers
      let exited ← cleanupExitedThreads tid
      let reason := exited.getD final
      modifyProcess fun p => { p with state := reason.reason, currentThread := tid }
      pure reason : Debugger StopReason) m) := by
  rcases stopRunningThreads_cases hm hquiet with ⟨e, m', hstop, he⟩ | ⟨m', hstop, hm', hnone⟩
  · rw [bind_of_error hstop]
    exact stopsAll_of_error he m'
  · rw [bind_of_ok hstop]
    have hclean := cleanupExitedThreads_noticed tid m' hm'
    have hnone' := cleanupExitedThreads_noneRunning tid m' hnone
    have hcleanup := cleanupExitedThreads_apply tid m'
    rw [bind_of_ok hcleanup]
    rw [hcleanup] at hnone'
    have hnoticed := hclean.1 _ _ hcleanup
    refine ⟨fun _ _ _ => ?_, fun _ h => by cases h⟩
    exact NoneRunning.allStopped (fun t record hrecord => hnone' t record hrecord)
      (hnoticed.of_roster rfl)

theorem handleReport_stopsAll {again : Option Tid → Debugger StopReason}
    {next : Option Tid → Machine → Bool}
    (hagain : ∀ toAwait m, Noticed m → next toAwait m = true → StopsAll (again toAwait m))
    {toAwait : Option Tid} {event : WaitEvent} (hm : Reported event.tid m)
    (horderly : orderlyReport handlers next toAwait event m = true) :
    StopsAll (handleReport handlers again toAwait event m) := by
  have hspec := (allStopRules handlers).signal event m hm
  unfold orderlyReport at horderly
  rw [handleReport]
  rcases hsignal : handleSignal handlers (.ofWait event.tid event.status) true m with
    ⟨e | final, m'⟩ <;> simp only [hsignal, Bool.not_eq_true'] at horderly
  · cases hexception : e.isException with
    | false =>
        rw [bind_of_error (onThrow_of_uncaught hsignal hexception)]
        exact stopsAll_of_error hexception m'
    | true =>
        have hfailed : Reported event.tid m' := by
          have hescaped := hspec.2 e m' hsignal
          simp only [Assertions.escaped, hexception, if_true] at hescaped
          exact hescaped
        rcases recordFailedStop_cases hfailed horderly with
          ⟨e', m'', hrecord, he'⟩ | ⟨m'', hrecord, hall⟩ <;>
          rw [bind_of_error (onThrow_of_caught hsignal hexception hrecord)]
        · exact stopsAll_of_error he' m''
        · exact ⟨fun _ h => (by cases h), fun _ _ _ => hall⟩
  · have hdecided := hspec.1 final m' hsignal
    rw [bind_of_ok (onThrow_of_ok hsignal)]
    cases final with
    | none =>
        have hresume := (allStopRules handlers).resume (some event.tid) m' hdecided
        simp only [Bool.and_eq_true, Bool.not_eq_true'] at horderly
        obtain ⟨hquiet, hnext⟩ := horderly
        rcases hres : resume (some event.tid) m' with ⟨e | u, m''⟩
        · dsimp only
          rw [bind_of_error hres]
          cases he : e.isException with
          | false => exact stopsAll_of_error he m''
          | true => simp [throws, hres, he] at hquiet
        · dsimp only
          rw [bind_of_ok hres]
          rw [hres] at hnext
          exact hagain toAwait m'' (hresume.1 u m'' hres) hnext
    | some final =>
        simp only [Bool.and_eq_true] at horderly
        obtain ⟨htracked, hnext⟩ := horderly
        obtain ⟨thread, hthread⟩ := Option.isSome_iff_exists.mp htracked
        have hnoted : Reported event.tid (noteReason event.tid final m').2 :=
          Reported.update hdecided _
        dsimp only
        rw [bind_of_ok (threadAt_eq hthread)]
        change StopsAll ((noteReason event.tid final >>= _) m')
        rw [bind_of_ok (x := noteReason event.tid final) rfl, bind_of_ok (get_apply _)]
        by_cases hexit : final.reason = .exited ∨ final.reason = .terminated
        · rw [if_pos hexit] at hnext ⊢
          rw [bind_of_ok (x := reportThreadLifecycleEvent final) (modify_apply _ _)]
          split
          · refine ⟨fun reason h hstopped => ?_, fun _ h => by cases h⟩
            cases h
            rw [hstopped] at hexit
            simp at hexit
          · exact hagain none _ (hnoted.1) hnext
        · rw [if_neg hexit] at hnext ⊢
          simp only [Bool.not_eq_true'] at hnext
          exact report_stopsAll hnoted.1 hnext

theorem waitOnSignalLoop_stopsAll {rounds : Nat} {toAwait : Option Tid} {m : Machine}
    (hm : Awaiting toAwait m) (horderly : orderly handlers rounds toAwait m = true) :
    StopsAll (waitOnSignalLoop handlers rounds toAwait m) := by
  induction rounds generalizing toAwait m with
  | zero => exact stopsAll_of_error rfl m
  | succ rounds ih =>
      rw [waitOnSignalLoop]
      rcases waitpid_cases .waitOnSignal toAwait m with
        h | ⟨rest, hscript, -⟩ | ⟨event, rest, hmay, hscript, h⟩
      · rw [bind_of_error h]
        exact stopsAll_of_error rfl m
      · exact absurd (hscript ▸ List.mem_cons_self) hm.2
      · rw [bind_of_ok h]
        have hexempt : ∀ t, toAwait = some t → t = event.tid := by
          rintro t rfl
          exact (Machine.mayReport_some hmay).symm
        exact handleReport_stopsAll (fun toAwait m hnoticed => ih (hnoticed.awaiting toAwait))
          (hm.1.deliver hm.2 hexempt hscript) (by simpa only [orderly, h] using horderly)

/-- In every run in which the kernel answers every wait, a wait that throws no
exception outside its `try` block leaves all threads stopped whenever it returns
a stop, and also whenever it throws. -/
theorem waitOnSignal_stopsAll {start m : Machine} {toAwait : Option Tid}
    (hstart : AllStopped start) (hanswers : Answers start)
    (hwaits : WaitsFrom handlers start toAwait m)
    (horderly : orderly handlers (m.kernel.script.length + 1) toAwait m = true) :
    StopsAll (waitOnSignal handlers toAwait m) := by
  have hnoticed : Noticed start := by
    refine ⟨fun t record _ hrecord hstate hrunning => ?_, hanswers⟩
    obtain ⟨thread, hthread, rfl⟩ := Option.map_eq_some_iff.mp hrecord
    have hstopped := (hstart t thread hthread).2 (by
      change (start.kernel.threads t).status = .running at hrunning
      rw [hrunning]
      simp)
    change (start.kernel.threads t).status = .running at hrunning
    simp [Machine.isStopped, hrunning] at hstopped
  exact waitOnSignalLoop_stopsAll (hwaits.awaiting hnoticed) horderly

end Stopping

namespace AllStopWitness

open Scenario

/-- Handlers that read the inferior and fail. -/
def failing : HitHandlers := ⟨fun _ _ => ([], .error (.errno "Could not read process memory"))⟩

/-- Two threads of which the first is interrupted and the second then stops with
a signal at an address. -/
def machine (sig : Byte) (siCode : SiCode) (pc : Word) : Machine :=
  (Scenario.machine [1, 2] [stop 1 2 .other 0x1000, stop 2 sig siCode pc]).setProcess fun p =>
    { p with
      breakpointSites := [⟨some 0, -1, 0x2000, true, 0, false, true, -1⟩]
      breakpoints := [⟨-1, true, false, true, [0x2000], 1, some .reloadLibraries⟩] }

theorem machine_allStopped (sig : Byte) (siCode : SiCode) (pc : Word) :
    AllStopped (machine sig siCode pc) := by
  intro t thread hthread
  have hnew : thread = newThread := Scenario.machine_thread? [1, 2]
    [stop 1 2 .other 0x1000, stop 2 sig siCode pc] hthread
  subst hnew
  exact ⟨by decide, fun _ => rfl⟩

theorem machine_answers (sig : Byte) (siCode : SiCode) (pc : Word) :
    Answers (machine sig siCode pc) := by
  simp [Answers, machine, Scenario.machine, Machine.setProcess, stop]

def resumed (sig : Byte) (siCode : SiCode) (pc : Word) : Machine :=
  after failing .resumeAllThreads (machine sig siCode pc)

theorem waits_resumed {sig : Byte} {siCode : SiCode} {pc : Word}
    (h : GoesOn (Command.resumeAllThreads.run failing (machine sig siCode pc)).1) :
    WaitsFrom failing (machine sig siCode pc) none (resumed sig siCode pc) :=
  .command none (run_after .resumeAllThreads .start h)

/-- The second thread is brought to a stop by the signal it is sent. -/
theorem waitOnSignal_stopsAll_sigstop :
    (waitOnSignal failing none (resumed sigstop .other 0x3000)).1.toOption.map (·.reason) =
        some .stopped ∧
      StopsAll (waitOnSignal failing none (resumed sigstop .other 0x3000)) :=
  ⟨by decide +kernel, waitOnSignal_stopsAll (machine_allStopped _ _ _) (machine_answers _ _ _)
    (waits_resumed (by decide +kernel)) (by decide +kernel)⟩

/-- The hit handler fails for the second thread while the threads are being
stopped: the exception leaves it recorded as running. -/
theorem waitOnSignal_not_stopsAll :
    ¬ ∀ (handlers : HitHandlers) (start m : Machine) (toAwait : Option Tid),
      AllStopped start → Answers start → WaitsFrom handlers start toAwait m →
      StopsAll (waitOnSignal handlers toAwait m) := by
  intro hall
  have hstops := hall failing _ (resumed sigtrap .siKernel 0x2001) none (machine_allStopped _ _ _)
    (machine_answers _ _ _) (waits_resumed (by decide +kernel))
  have hthrows : throws (waitOnSignal failing none) (resumed sigtrap .siKernel 0x2001) = true := by
    decide +kernel
  have hstate : ((waitOnSignal failing none (resumed sigtrap .siKernel 0x2001)).2.thread? 2).map
      (·.state) = some .running := by
    decide +kernel
  obtain ⟨thread, hthread, hrunning⟩ := Option.map_eq_some_iff.mp hstate
  unfold throws at hthrows
  split at hthrows
  · cases hthrows
  · rename_i e he
    exact (hstops.2 e he hthrows 2 thread hthread).1 hrunning

end AllStopWitness

end Gsdb
