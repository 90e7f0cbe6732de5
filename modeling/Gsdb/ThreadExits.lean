/-
How often the end of a thread is reported.  The exits that `stop_running_threads`
collects are reported when the next stop is, and the threads are then forgotten.
An exit that `wait_on_signal` collects itself is reported at once and, since the
thread stays on record, again with the next stop.
-/
import Gsdb.Commands

namespace Gsdb

open ByteMemory Effects Eff Debugger

/-- The ends of a thread that were delivered, newest first. -/
def exits (t : Tid) : List Observation → List WaitStatus
  | [] => []
  | .delivered d :: earlier =>
      if d.tid = t ∧ d.status.isStop = false then d.status :: exits t earlier else exits t earlier
  | _ :: earlier => exits t earlier

/-- The reports of the end of a thread, newest first. -/
def exitReports (t : Tid) : List Observation → List StopReason
  | [] => []
  | .lifecycle reason :: earlier =>
      if reason.tid = t ∧ (reason.reason = .exited ∨ reason.reason = .terminated) then
        reason :: exitReports t earlier
      else exitReports t earlier
  | _ :: earlier => exitReports t earlier

/-- The end of a thread is collected by `stop_running_threads` only. -/
def CollectedByStop (t : Tid) (events : List Observation) : Prop :=
  ∀ p ∈ deliveries events, p.1.tid = t → p.1.status.isStop = false →
    p.1.waiter = .stopRunningThreads

instance (t : Tid) (events : List Observation) : Decidable (CollectedByStop t events) :=
  inferInstanceAs (Decidable (∀ p ∈ deliveries events, _))

/-- A thread that did not end, that ended and is to be reported, or that was
reported and forgotten. -/
inductive ExitPhase (t : Tid) (roster : Roster) : Prop where
  | alive (hexits : exits t roster.events = []) (hreports : exitReports t roster.events = [])
      (hrecord : ∀ record, roster.record t = some record →
        ¬ (record.state = .exited ∨ record.state = .terminated))
  | collected (status : WaitStatus) (hexits : exits t roster.events = [status])
      (hgone : roster.status t = .absent) (hreports : exitReports t roster.events = [])
      (hrecord : ∃ record, roster.record t = some record ∧
        (record.state = .exited ∨ record.state = .terminated) ∧ record.reason = .ofWait t status)
  | reported (status : WaitStatus) (hexits : exits t roster.events = [status])
      (hgone : roster.status t = .absent)
      (hreports : exitReports t roster.events = [.ofWait t status])
      (hrecord : roster.record t = none)

/-- The end of a thread is noted under its own name and reported in its turn. -/
structure ExitsTracked (t : Tid) (roster : Roster) : Prop where
  distinct : roster.tids.Nodup
  named : ∀ u record, roster.record u = some record →
    record.state = .exited ∨ record.state = .terminated → record.reason.tid = u
  phase : ExitPhase t roster

/-- No end is reported twice, or without having been delivered. -/
def ReportedOnce (t : Tid) (events : List Observation) : Prop :=
  exitReports t events = [] ∨
    ∃ status, exits t events = [status] ∧ exitReports t events = [.ofWait t status]

def Tidy (t : Tid) (m : Machine) : Prop :=
  CollectedByStop t m.roster.events → ExitsTracked t m.roster

/-- A state change arrived that was not collected by `stop_running_threads`. -/
def TidyAt (t : Tid) (event : WaitEvent) (m : Machine) : Prop :=
  CollectedByStop t m.roster.events → ExitsTracked t m.roster ∧
    (event.tid = t → event.status.isStop = true ∧ m.roster.status t = .stopped)

def exitAssertions (t : Tid) : Assertions where
  rest := Tidy t
  swallowed := fun _ => Tidy t
  awaited := fun _ => Tidy t
  due := TidyAt t
  handled := fun event reason m => TidyAt t event m ∧ reason.tid = event.tid ∧
    reason.reason = (StopReason.ofWait event.tid event.status).reason
  failed := TidyAt t
  returned := fun reason m => Tidy t m ∧ (CollectedByStop t m.roster.events →
    reason.reason = .stopped → ∀ status ∈ exits t m.roster.events,
      exitReports t m.roster.events = [.ofWait t status] ∧ m.roster.record t = none)
  thrown := fun e m => (e.isException = true → Tidy t m) ∧
    (CollectedByStop t m.roster.events → ReportedOnce t m.roster.events)

section Steps

variable {m m' : Machine} {t tid : Tid} {event : WaitEvent}

theorem CollectedByStop.of_remembers (h : CollectedByStop t m'.roster.events)
    (hgrows : Remembers m m') : CollectedByStop t m.roster.events :=
  fun p hp => h p (deliveries_suffix (hgrows.filter _) hp)

theorem CollectedByStop.earlier {waiter : Waiter} {rest : List WaitAnswer}
    (h : CollectedByStop t ((m.deliver waiter event).setScript rest).roster.events) :
    CollectedByStop t m.roster.events :=
  h.of_remembers (.observe rfl)

theorem Tidy.of_roster (h : Tidy t m) (hsame : Fixes Machine.roster m m') : Tidy t m' := by
  unfold Tidy
  rw [hsame]
  exact h

theorem TidyAt.of_roster (h : TidyAt t event m) (hsame : Fixes Machine.roster m m') :
    TidyAt t event m' := by
  unfold TidyAt
  rw [hsame]
  exact h

theorem ExitPhase.once {roster : Roster} (h : ExitPhase t roster) :
    ReportedOnce t roster.events := by
  cases h with
  | alive hexits hreports hrecord => exact .inl hreports
  | collected status hexits hgone hreports hrecord => exact .inl hreports
  | reported status hexits hgone hreports hrecord => exact .inr ⟨status, hexits, hreports⟩

theorem Tidy.thrown (h : Tidy t m) (e : Failure) : (exitAssertions t).thrown e m :=
  ⟨fun _ => h, fun hcollected => (h hcollected).phase.once⟩

theorem TidyAt.tidy (h : TidyAt t event m) : Tidy t m := fun hcollected => (h hcollected).1

theorem keeps_tidy {α : Type} {x : Debugger α} (h : Respects (Fixes Machine.roster) x) :
    Triple (Tidy t) x (fun _ => Tidy t) (exitAssertions t).thrown :=
  (Triple.of_respects fun m hm => hm.of_roster (h m)).mono (fun _ hm => hm) (fun _ _ hm => hm)
    fun e _ hm => hm.thrown e

/-- A thread that is there did not end. -/
theorem ExitPhase.of_present {roster : Roster} (h : ExitPhase t roster)
    (hpresent : roster.status t ≠ .absent) : exits t roster.events = [] ∧
      exitReports t roster.events = [] ∧ ∀ record, roster.record t = some record →
        ¬ (record.state = .exited ∨ record.state = .terminated) := by
  cases h with
  | alive hexits hreports hrecord => exact ⟨hexits, hreports, hrecord⟩
  | collected status hexits hgone hreports hrecord => exact absurd hgone hpresent
  | reported status hexits hgone hreports hrecord => exact absurd hgone hpresent

/-- The phase depends on what is known of the thread alone. -/
theorem ExitPhase.congr {roster roster' : Roster} (h : ExitPhase t roster)
    (hexits : exits t roster'.events = exits t roster.events)
    (hreports : exitReports t roster'.events = exitReports t roster.events)
    (hstatus : roster.status t = .absent → roster'.status t = .absent)
    (hrecord : roster'.record t = roster.record t) : ExitPhase t roster' := by
  cases h with
  | alive hexits₀ hreports₀ hrecord₀ =>
      exact .alive (hexits.trans hexits₀) (hreports.trans hreports₀) (hrecord ▸ hrecord₀)
  | collected status hexits₀ hgone hreports₀ hrecord₀ =>
      exact .collected status (hexits.trans hexits₀) (hstatus hgone) (hreports.trans hreports₀)
        (hrecord ▸ hrecord₀)
  | reported status hexits₀ hgone hreports₀ hrecord₀ =>
      exact .reported status (hexits.trans hexits₀) (hstatus hgone) (hreports.trans hreports₀)
        (hrecord.trans hrecord₀)

theorem ExitsTracked.letRun (h : ExitsTracked t m.roster) (hstopped : m.isStopped tid = true)
    (request : RunRequest) : ExitsTracked t (m.letRun tid request).roster := by
  refine ⟨h.distinct, h.named, h.phase.congr rfl rfl (fun hgone => ?_) rfl⟩
  change (m.kernel.threads t).status = .absent at hgone
  have hne : t ≠ tid := by
    rintro rfl
    simp [Machine.isStopped, hgone] at hstopped
  change ((m.letRun tid request).kernel.threads t).status = .absent
  rw [status_letRun, if_neg hne]
  exact hgone

theorem ptraceRun_tidy (request : RunRequest) (tid : Tid) :
    Triple (Tidy t) (ptraceRun request tid) (fun _ => Tidy t) (exitAssertions t).thrown := by
  intro m hm
  rcases ptraceRun_cases request tid m with ⟨hstopped, h⟩ | ⟨-, h⟩
  · exact Triple.of_eq_ok h fun hcollected => (hm hcollected).letRun hstopped request
  · exact Triple.of_eq_ok h hm

/-- An entry changes.  That of the thread itself keeps its reason and state, or
the thread is there and not noted as ended. -/
theorem ExitsTracked.update (h : ExitsTracked t m.roster) {f : ThreadState → ThreadState}
    (hnamed : ∀ thread, m.thread? tid = some thread →
      (f thread).state = .exited ∨ (f thread).state = .terminated → (f thread).reason.tid = tid)
    (hself : tid = t → ∀ thread, m.thread? t = some thread →
      ((f thread).state = thread.state ∧ (f thread).reason = thread.reason) ∨
      ((m.kernel.threads t).status ≠ .absent ∧
        ¬ ((f thread).state = .exited ∨ (f thread).state = .terminated))) :
    ExitsTracked t (updateThread tid f m).2.roster := by
  refine ⟨Machine.tids_updateThread h.distinct tid f, fun u record hrecord hstate => ?_, ?_⟩
  · by_cases hu : u = tid
    · subst hu
      obtain ⟨thread, hthread, rfl⟩ := record_updateThread hrecord
      exact hnamed thread hthread hstate
    · rw [record_updateThread_of_ne m f hu] at hrecord
      exact h.named u record hrecord hstate
  · by_cases ht : t = tid
    · subst ht
      have hupdated : (updateThread t f m).2.roster.record t =
          (m.thread? t).map fun thread => (f thread).record := by
        simp only [Machine.roster, Machine.thread?_updateThread, Option.map_map]
        rfl
      cases hthread : m.thread? t with
      | none =>
          refine h.phase.congr rfl rfl id ?_
          rw [hupdated, hthread]
          simp [Machine.roster, hthread]
      | some thread =>
          rw [hthread] at hupdated
          have hold : m.roster.record t = some thread.record := by simp [Machine.roster, hthread]
          rcases hself rfl thread hthread with ⟨hstate, hreason⟩ | ⟨hpresent, hstate⟩
          · cases h.phase with
            | alive hexits hreports hrecord =>
                refine .alive hexits hreports fun record heq => ?_
                rw [hupdated] at heq
                cases heq
                change ¬ ((f thread).state = .exited ∨ (f thread).state = .terminated)
                rw [hstate]
                exact hrecord thread.record hold
            | collected status hexits hgone hreports hrecord =>
                obtain ⟨record, heq, hended, hsame⟩ := hrecord
                rw [hold] at heq
                cases heq
                change thread.state = .exited ∨ thread.state = .terminated at hended
                rw [← hstate] at hended
                exact .collected status hexits hgone hreports
                  ⟨(f thread).record, hupdated, hended, hreason.trans hsame⟩
            | reported status hexits hgone hreports hrecord =>
                rw [hold] at hrecord
                cases hrecord
          · obtain ⟨hexits, hreports, -⟩ := h.phase.of_present hpresent
            refine .alive hexits hreports fun record heq => ?_
            rw [hupdated] at heq
            cases heq
            exact hstate
    · exact h.phase.congr rfl rfl id (record_updateThread_of_ne m f ht)

theorem ExitsTracked.setPending (h : ExitsTracked t m.roster) (tid : Tid) (pending : Bool) :
    ExitsTracked t (updateThread tid
      (fun thread => { thread with pendingSigstop := pending }) m).2.roster := by
  refine h.update (fun thread hthread hstate => ?_) fun _ _ _ => .inl ⟨rfl, rfl⟩
  exact h.named tid thread.record (by simp [Machine.roster, hthread]) hstate

/-- A state change arrives that is no end of the thread. -/
theorem ExitsTracked.deliver (h : ExitsTracked t m.roster)
    (hpresent : (m.kernel.threads event.tid).status ≠ .absent)
    (hnot : event.tid = t → event.status.isStop = true) (waiter : Waiter)
    (rest : List WaitAnswer) :
    ExitsTracked t ((m.deliver waiter event).setScript rest).roster ∧
      (event.tid = t → ((m.deliver waiter event).setScript rest).roster.status t = .stopped) := by
  refine ⟨⟨h.distinct, h.named, h.phase.congr ?_ rfl (fun hgone => ?_) rfl⟩, ?_⟩
  · change (if event.tid = t ∧ event.status.isStop = false then _ else exits t m.roster.events) = _
    refine if_neg fun hboth => ?_
    have hstop := hnot hboth.1
    rw [hboth.2] at hstop
    cases hstop
  · change ((m.deliver waiter event).kernel.threads t).status = .absent
    have hne : t ≠ event.tid := by
      rintro rfl
      exact hpresent hgone
    rw [status_deliver, if_neg hne]
    exact hgone
  · rintro rfl
    change ((m.deliver waiter event).kernel.threads event.tid).status = .stopped
    rw [status_deliver, if_pos rfl, hnot rfl]
    rfl

/-- An end that `stop_running_threads` did not collect is none of the thread. -/
theorem CollectedByStop.isStop {waiter : Waiter} {rest : List WaitAnswer}
    (h : CollectedByStop t ((m.deliver waiter event).setScript rest).roster.events)
    (hwaiter : waiter ≠ .stopRunningThreads) (ht : event.tid = t) :
    event.status.isStop = true := by
  cases hstop : event.status.isStop with
  | true => rfl
  | false => exact absurd ((List.forall_mem_cons.mp h).1 ht hstop) hwaiter

theorem Tidy.setScript (h : Tidy t m) (script : List WaitAnswer) : Tidy t (m.setScript script) := by
  intro hcollected
  have hm := h hcollected
  exact ⟨hm.distinct, hm.named, hm.phase.congr rfl rfl id rfl⟩

theorem waitpid_tidy {waiter : Waiter} (hwaiter : waiter ≠ .stopRunningThreads)
    (toAwait : Option Tid) :
    Triple (Tidy t) (waitpid waiter toAwait) (exitAssertions t).answered
      (exitAssertions t).thrown := by
  intro m hm
  rcases waitpid_cases waiter toAwait m with h | ⟨rest, -, h⟩ | ⟨event, rest, hmay, -, h⟩
  · exact Triple.of_eq_error h (hm.thrown _)
  · exact Triple.of_eq_ok h (hm.setScript rest)
  · refine Triple.of_eq_ok h fun hcollected => ?_
    have hstop := hcollected.isStop hwaiter
    obtain ⟨htracked, hstatus⟩ := (hm hcollected.earlier).deliver
      (Machine.present_of_mayReport hmay) hstop waiter rest
    exact ⟨htracked, fun ht => ⟨hstop ht, hstatus ht⟩⟩

/-- A wait whose status is not looked at. -/
theorem waitpid_unread_tidy {waiter : Waiter} (hwaiter : waiter ≠ .stopRunningThreads)
    (toAwait : Option Tid) :
    Triple (Tidy t) (waitpid waiter toAwait) (fun _ => Tidy t) (exitAssertions t).thrown :=
  (waitpid_tidy hwaiter toAwait).mono (fun _ hm => hm) (fun answer _ hm => by
    cases answer with
    | none => exact hm
    | some event => exact TidyAt.tidy hm) fun _ _ hm => hm

theorem swallowPendingSigstop_tidy (tid : Tid) :
    Triple (Tidy t) (swallowPendingSigstop tid) (fun _ => Tidy t) (exitAssertions t).thrown := by
  refine Triple.bind (threadAt_triple fun m hm _ => hm.thrown _) fun thread => ?_
  refine Triple.ite (fun _ => ?_) fun _ => Triple.pure fun _ hm => hm.1
  refine Triple.bind ((ptraceRun_tidy .cont tid).pre fun _ hm => hm.1) fun _ => ?_
  refine Triple.bind (waitpid_unread_tidy (by decide) _) fun _ =>
    updateThread_triple fun m hm hcollected => (hm hcollected).setPending tid false

theorem sendContinue_tidy (tid : Tid) :
    Triple (Tidy t) (sendContinue tid) (fun _ => Tidy t) (exitAssertions t).thrown := by
  refine Triple.get_bind fun m₀ hm₀ => ?_
  refine Triple.bind (Q := fun ran m => Tidy t m ∧
    (ran = true → (m.kernel.threads tid).status ≠ .absent)) (fun m hm => ?_) fun ran => ?_
  · subst hm
    rcases ptraceRun_cases (if m.process.policy.mode = .none then .cont else .syscall) tid m with
      ⟨hstopped, h⟩ | ⟨-, h⟩
    · refine Triple.of_eq_ok h ⟨fun hcollected => (hm₀ hcollected).letRun hstopped _, fun _ => ?_⟩
      rw [status_letRun, if_pos rfl]
      simp
    · exact Triple.of_eq_ok h ⟨hm₀, fun hran => by cases hran⟩
  cases ran with
  | false => exact Triple.throw fun _ hm => hm.1.thrown _
  | true =>
      refine Triple.bind (threadAt_triple fun m hm _ => hm.1.thrown _) fun thread => ?_
      refine Triple.bind (Q := fun _ => Tidy t) (updateThread_triple fun m hm hcollected => ?_)
        fun _ => Triple.modify fun m hm => hm.of_roster rfl
      refine (hm.1.1 hcollected).update (fun _ _ hstate => by simp at hstate) ?_
      rintro rfl _ _
      exact .inr ⟨hm.1.2 rfl, by simp⟩

theorem TidyAt.noteReason (h : TidyAt t event m) {reason : StopReason}
    (htid : reason.tid = event.tid)
    (hreason : reason.reason = (StopReason.ofWait event.tid event.status).reason) :
    Tidy t (Gsdb.noteReason event.tid reason m).2 := by
  intro hcollected
  obtain ⟨htracked, hself⟩ := h hcollected
  refine htracked.update (fun _ _ _ => htid) fun ht _ _ => .inr ?_
  obtain ⟨hstop, hstatus⟩ := hself ht
  change (m.kernel.threads t).status = .stopped at hstatus
  refine ⟨by simp [hstatus], ?_⟩
  dsimp only
  rw [hreason, (ofWait_stopped_iff event.tid event.status).mpr hstop]
  simp

/-- Tracking a new thread reports no end. -/
theorem ExitsTracked.track {reason : StopReason} (h : ExitsTracked t m.roster)
    (hstop : reason.reason = .stopped) (hnew : m.thread? reason.tid = none)
    (hpresent : reason.tid = t → m.roster.status t ≠ .absent) :
    ExitsTracked t (m.track reason).roster := by
  have hreports : exitReports t (m.track reason).roster.events = exitReports t m.roster.events := by
    change (if reason.tid = t ∧ (reason.reason = .exited ∨ reason.reason = .terminated) then _
      else exitReports t m.roster.events) = _
    refine if_neg fun hboth => ?_
    simp [hstop] at hboth
  refine ⟨Machine.tids_track h.distinct hnew, fun u record hrecord hstate => ?_, ?_⟩
  · by_cases hu : u = reason.tid
    · subst hu
      simp only [Machine.roster, Machine.thread?_track hnew] at hrecord
      cases hrecord
      simp [newThread, ThreadState.record] at hstate
    · simp only [Machine.roster, m.thread?_track_of_ne hu] at hrecord
      exact h.named u record hrecord hstate
  · by_cases ht : t = reason.tid
    · obtain ⟨hexits, hnone, -⟩ := h.phase.of_present (hpresent ht.symm)
      refine .alive hexits (hreports.trans hnone) fun record hrecord => ?_
      subst ht
      simp only [Machine.roster, Machine.thread?_track hnew] at hrecord
      cases hrecord
      simp [newThread, ThreadState.record]
    · refine h.phase.congr rfl hreports id ?_
      simp only [Machine.roster, m.thread?_track_of_ne ht]

/-- Handling a signal reports no end. -/
theorem handleSignal_tidy (handlers : HitHandlers) (event : WaitEvent) :
    Triple (TidyAt t event) (handleSignal handlers (.ofWait event.tid event.status) true)
      ((exitAssertions t).decided event) (fun _ => TidyAt t event) := by
  intro m hm
  have hfinal : ∀ final m', handleSignal handlers (.ofWait event.tid event.status) true m =
      (.ok (some final), m') → final.tid = event.tid ∧
        final.reason = (StopReason.ofWait event.tid event.status).reason := by
    intro final m' h
    have hsame := handleSignal_final h
    rwa [StopReason.ofWait_tid] at hsame
  rcases handleSignal_cases handlers (.ofWait event.tid event.status) true m with
    ⟨-, -, h⟩ | ⟨-, h⟩ | ⟨hstop, hnew, -, h⟩ | ⟨thread, hstop, hthread, -, -, h⟩ |
      ⟨thread, -, -, -, h⟩ | ⟨-, -, hmain, -⟩
  · exact Triple.of_eq_ok h hm.tidy
  · exact Triple.of_eq_ok h ⟨hm, hfinal _ _ h⟩
  · refine Triple.of_eq_ok h fun hcollected => ?_
    obtain ⟨htracked, hself⟩ := hm hcollected
    refine htracked.track hstop hnew fun ht => ?_
    rw [StopReason.ofWait_tid] at ht
    simp [(hself ht).2]
  · rw [StopReason.ofWait_tid] at h
    exact Triple.of_eq_ok h fun hcollected => (hm hcollected).1.setPending event.tid false
  · have hroster := decodeSignal_roster handlers (StopReason.ofWait_syscallInfo event.tid
      event.status) true m
    rw [← h] at hroster
    refine ⟨fun final m' heq => ?_, fun e m' heq => ?_⟩ <;> rw [heq] at hroster
    · cases final with
      | none => exact (hm.of_roster hroster).tidy
      | some final => exact ⟨hm.of_roster hroster, hfinal final m' heq⟩
    · exact hm.of_roster hroster
  · cases hmain

/-- The end of a thread was just collected and is not noted yet. -/
structure Dying (t : Tid) (status : WaitStatus) (roster : Roster) : Prop where
  distinct : roster.tids.Nodup
  named : ∀ u record, roster.record u = some record →
    record.state = .exited ∨ record.state = .terminated → record.reason.tid = u
  hexits : exits t roster.events = [status]
  gone : roster.status t = .absent
  reports : exitReports t roster.events = []

/-- A state change of a tracked thread was collected by `stop_running_threads`. -/
def Gathered (t : Tid) (event : WaitEvent) (m : Machine) : Prop :=
  (m.thread? event.tid).isSome = true ∧ (CollectedByStop t m.roster.events →
    (ExitsTracked t m.roster ∧
      (event.tid = t → event.status.isStop = true ∧ m.roster.status t = .stopped)) ∨
    (event.tid = t ∧ event.status.isStop = false ∧ Dying t event.status m.roster))

theorem Gathered.once (h : Gathered t event m) (hcollected : CollectedByStop t m.roster.events) :
    ReportedOnce t m.roster.events := by
  rcases h.2 hcollected with ⟨htracked, -⟩ | ⟨-, -, hdying⟩
  · exact htracked.phase.once
  · exact .inl hdying.reports

theorem waitpid_gathered (tid : Tid) :
    Triple (fun m => Tidy t m ∧ (m.thread? tid).isSome = true)
      (waitpid .stopRunningThreads (some tid)) (fun answer m => match answer with
        | some event => event.tid = tid ∧ Gathered t event m
        | none => Tidy t m) (exitAssertions t).thrown := by
  rintro m ⟨hm, hknown⟩
  rcases waitpid_cases .stopRunningThreads (some tid) m with
    h | ⟨rest, -, h⟩ | ⟨event, rest, hmay, -, h⟩
  · exact Triple.of_eq_error h (hm.thrown _)
  · exact Triple.of_eq_ok h (hm.setScript rest)
  · have htid := Machine.mayReport_some hmay
    subst htid
    have hpresent := Machine.present_of_mayReport hmay
    refine Triple.of_eq_ok h ⟨rfl, hknown, fun hcollected => ?_⟩
    have hold := hm hcollected.earlier
    by_cases hends : event.tid = t ∧ event.status.isStop = false
    · obtain ⟨rfl, hexit⟩ := hends
      obtain ⟨hexits, hreports, -⟩ := hold.phase.of_present hpresent
      refine .inr ⟨rfl, hexit, hold.distinct, hold.named, ?_, ?_, hreports⟩
      · change (if event.tid = event.tid ∧ event.status.isStop = false then
          event.status :: exits event.tid m.roster.events else _) = _
        rw [if_pos ⟨rfl, hexit⟩, hexits]
      · change ((m.deliver .stopRunningThreads event).kernel.threads event.tid).status = .absent
        rw [status_deliver, if_pos rfl, hexit]
        rfl
    · have hstop : event.tid = t → event.status.isStop = true := by
        intro ht
        cases hcase : event.status.isStop with
        | true => rfl
        | false => exact absurd ⟨ht, hcase⟩ hends
      obtain ⟨htracked, hstatus⟩ := hold.deliver hpresent hstop .stopRunningThreads rest
      exact .inl ⟨htracked, fun ht => ⟨hstop ht, hstatus ht⟩⟩

theorem notePendingSigstop_gathered (event : WaitEvent) :
    Triple (Gathered t event) (notePendingSigstop event.tid (.ofWait event.tid event.status))
      (fun _ => Gathered t event) (exitAssertions t).thrown := by
  refine Triple.ite (fun hstop => updateThread_triple fun m hm => ⟨?_, fun hcollected => ?_⟩)
    fun _ => Triple.pure fun _ hm => hm
  · rw [Machine.thread?_updateThread]
    simpa using hm.1
  · rcases hm.2 hcollected with ⟨htracked, hself⟩ | ⟨-, hexit, -⟩
    · exact .inl ⟨htracked.setPending event.tid _, hself⟩
    · rw [(ofWait_stopped_iff event.tid event.status).mp hstop] at hexit
      cases hexit

/-- The end of a thread is noted. -/
theorem Dying.noteReason (h : Dying t event.status m.roster)
    (hexit : event.status.isStop = false) (hknown : (m.thread? t).isSome = true) :
    ExitsTracked t (Gsdb.noteReason t (.ofWait t event.status) m).2.roster := by
  obtain ⟨thread, hthread⟩ := Option.isSome_iff_exists.mp hknown
  refine ⟨Machine.tids_updateThread h.distinct t _, fun u record hrecord hstate => ?_, ?_⟩
  · by_cases hu : u = t
    · subst hu
      obtain ⟨old, -, rfl⟩ := record_updateThread hrecord
      exact StopReason.ofWait_tid u event.status
    · rw [Gsdb.noteReason, record_updateThread_of_ne m _ hu] at hrecord
      exact h.named u record hrecord hstate
  · refine .collected event.status h.hexits h.gone h.reports
      ⟨⟨.ofWait t event.status, (StopReason.ofWait t event.status).reason,
        thread.pendingSigstop⟩, ?_, ?_, rfl⟩
    · simp only [Machine.roster, Gsdb.noteReason, Machine.thread?_updateThread, hthread]
      rfl
    · exact ofWait_of_exit t hexit

theorem Gathered.noteReason (h : Gathered t event m) {reason : StopReason}
    (htid : reason.tid = event.tid)
    (hreason : reason.reason = (StopReason.ofWait event.tid event.status).reason)
    (hexit : event.status.isStop = false → reason = .ofWait event.tid event.status) :
    Tidy t (Gsdb.noteReason event.tid reason m).2 := by
  intro hcollected
  rcases h.2 hcollected with ⟨htracked, hself⟩ | ⟨rfl, hended, hdying⟩
  · exact TidyAt.noteReason (fun _ => ⟨htracked, hself⟩) htid hreason hcollected
  · rw [hexit hended]
    exact hdying.noteReason hended h.1

theorem Gathered.of_roster (h : Gathered t event m) (hsame : Fixes Machine.roster m m') :
    Gathered t event m' := by
  have hknown : (m'.roster.record event.tid).isSome = (m.roster.record event.tid).isSome := by
    rw [hsame]
  refine ⟨?_, ?_⟩
  · simpa [Machine.roster] using hknown.trans (by simpa [Machine.roster] using h.1)
  · rw [hsame]
    exact h.2

theorem recordStop_tidy (handlers : HitHandlers) (event : WaitEvent) :
    Triple (Gathered t event) (recordStop handlers event.tid (.ofWait event.tid event.status))
      (fun _ => Tidy t) (exitAssertions t).thrown := by
  refine Triple.bind (Q := fun handled m => Gathered t event m ∧ ∀ final, handled = some final →
    final.tid = event.tid ∧ final.reason = (StopReason.ofWait event.tid event.status).reason ∧
    (event.status.isStop = false → final = .ofWait event.tid event.status))
    (fun m hm => ?_) fun handled => ?_
  · rcases handleSignal_cases handlers (.ofWait event.tid event.status) false m with
      ⟨-, hmain, -⟩ | ⟨-, h⟩ | ⟨-, -, hmain, -⟩ | ⟨thread, hstop, -, -, -, h⟩ |
        ⟨thread, hstop, -, -, h⟩ | ⟨-, hthread, -, -⟩
    · cases hmain
    · refine Triple.of_eq_ok h ⟨hm, ?_⟩
      rintro _ ⟨rfl⟩
      exact ⟨StopReason.ofWait_tid _ _, rfl, fun _ => rfl⟩
    · cases hmain
    · rw [StopReason.ofWait_tid] at h
      refine Triple.of_eq_ok h ⟨⟨?_, fun hcollected => ?_⟩, fun _ hfinal => by cases hfinal⟩
      · rw [Machine.thread?_updateThread]
        simpa using hm.1
      · rcases hm.2 hcollected with ⟨htracked, hself⟩ | ⟨-, hexit, -⟩
        · exact .inl ⟨htracked.setPending event.tid false, hself⟩
        · rw [(ofWait_stopped_iff event.tid event.status).mp hstop] at hexit
          cases hexit
    · have hroster := decodeSignal_roster handlers (StopReason.ofWait_syscallInfo event.tid
        event.status) false m
      rw [← h] at hroster
      refine ⟨fun handled m' heq => ?_, fun e m' heq => ?_⟩ <;> rw [heq] at hroster
      · refine ⟨hm.of_roster hroster, ?_⟩
        rintro final rfl
        obtain ⟨htid, hreason⟩ := handleSignal_final heq
        rw [StopReason.ofWait_tid] at htid
        refine ⟨htid, hreason, fun hexit => ?_⟩
        rw [(ofWait_stopped_iff event.tid event.status).mp hstop] at hexit
        cases hexit
      · have hm' := hm.of_roster hroster
        refine ⟨fun _ hcollected => ?_, hm'.once⟩
        rcases hm'.2 hcollected with ⟨htracked, -⟩ | ⟨-, hexit, -⟩
        · exact htracked
        · rw [(ofWait_stopped_iff event.tid event.status).mp hstop] at hexit
          cases hexit
    · rw [StopReason.ofWait_tid] at hthread
      have hknown := hm.1
      rw [hthread] at hknown
      cases hknown
  · cases handled with
    | none => exact updateThread_triple fun m hm =>
        hm.1.noteReason (StopReason.ofWait_tid _ _) rfl fun _ => rfl
    | some final => exact updateThread_triple fun m hm =>
        hm.1.noteReason (hm.2 final rfl).1 (hm.2 final rfl).2.1 (hm.2 final rfl).2.2

theorem stopThread_tidy (handlers : HitHandlers) (tid : Tid) :
    Triple (Tidy t) (stopThread handlers tid) (fun _ => Tidy t) (exitAssertions t).thrown := by
  refine Triple.bind (threadAt_triple fun m hm _ => hm.thrown _) fun thread => ?_
  refine Triple.ite (fun _ => ?_) fun _ => Triple.pure fun _ hm => hm.1
  refine Triple.bind (Q := fun _ m => Tidy t m ∧ (m.thread? tid).isSome = true)
    (Triple.ite (fun _ => Triple.pure fun m hm => ⟨hm.1, by rw [hm.2]; rfl⟩) fun _ =>
      Triple.modify fun m hm => ⟨fun hcollected => ?_, congrArg Option.isSome hm.2⟩) fun _ => ?_
  · have hold := hm.1 hcollected
    exact ⟨hold.distinct, hold.named, hold.phase.congr rfl rfl id rfl⟩
  refine Triple.bind (waitpid_gathered tid) fun answer => ?_
  cases answer with
  | none => exact Triple.throw fun _ hm => Tidy.thrown hm _
  | some event =>
      refine Triple.of_forall fun m hm => ?_
      obtain ⟨rfl, hgathered⟩ := hm
      refine Triple.bind ((notePendingSigstop_gathered event).pre fun s hs => ?_) fun _ =>
        recordStop_tidy handlers event
      exact hs ▸ hgathered

/-- A report of another thread, or one that is no end, changes nothing. -/
theorem ExitsTracked.lifecycle (h : ExitsTracked t m.roster) {reason : StopReason}
    (hother : ¬ (reason.tid = t ∧ (reason.reason = .exited ∨ reason.reason = .terminated))) :
    ExitsTracked t (m.observe (.lifecycle reason)).roster :=
  ⟨h.distinct, h.named, h.phase.congr rfl (if_neg hother) id rfl⟩

theorem exitReports_append (t : Tid) (reasons : List StopReason) (events : List Observation) :
    exitReports t (reasons.map Observation.lifecycle ++ events) =
      reasons.filter (fun reason => reason.tid = t ∧
        (reason.reason = .exited ∨ reason.reason = .terminated)) ++ exitReports t events := by
  induction reasons with
  | nil => rfl
  | cons reason reasons ih =>
      by_cases hreason : reason.tid = t ∧ (reason.reason = .exited ∨ reason.reason = .terminated)
      · simp [exitReports, hreason, ih]
      · simp [exitReports, hreason, ih]

theorem exits_append (t : Tid) (reasons : List StopReason) (events : List Observation) :
    exits t (reasons.map Observation.lifecycle ++ events) = exits t events := by
  induction reasons with
  | nil => rfl
  | cons reason reasons ih => exact ih

theorem exits_isStop {t : Tid} {status : WaitStatus} {events : List Observation}
    (h : status ∈ exits t events) : status.isStop = false := by
  induction events with
  | nil => cases h
  | cons observation events ih =>
      cases observation with
      | delivered d =>
          by_cases hends : d.tid = t ∧ d.status.isStop = false
          · rw [exits, if_pos hends] at h
            rcases List.mem_cons.mp h with rfl | hrest
            · exact hends.2
            · exact ih hrest
          · rw [exits, if_neg hends] at h
            exact ih h
      | _ => exact ih h

theorem filter_of_nodup {α : Type} {entries : List (Tid × α)}
    (h : (entries.map (·.1)).Nodup) {entry : Tid × α} (hmem : entry ∈ entries) :
    entries.filter (fun other => other.1 = entry.1) = [entry] := by
  induction entries with
  | nil => cases hmem
  | cons first rest ih =>
      rw [List.map_cons, List.nodup_cons] at h
      rcases List.mem_cons.mp hmem with rfl | hrest
      · have hnone : rest.filter (fun other => other.1 = entry.1) = [] := by
          refine List.filter_eq_nil_iff.mpr fun other hother heq => h.1 ?_
          exact List.mem_map.mpr ⟨other, hother, by simpa using heq⟩
        simp [hnone]
      · have hne : first.1 ≠ entry.1 := fun heq =>
          h.1 (List.mem_map.mpr ⟨entry, hrest, heq.symm⟩)
        simp [hne, ih h.2 hrest]

/-- The threads that are gone are known by their own reasons. -/
theorem ExitsTracked.gone (h : ExitsTracked t m.roster) {tid : Tid} {entry : Tid × ThreadState}
    (hentry : entry ∈ m.process.gone tid) : m.thread? entry.1 = some entry.2 ∧
      entry.1 ≠ tid ∧ (entry.2.state = .exited ∨ entry.2.state = .terminated) ∧
      entry.2.reason.tid = entry.1 := by
  obtain ⟨hmem, hcleaned⟩ := List.mem_filter.mp hentry
  simp only [isCleanedUp, decide_eq_true_eq] at hcleaned
  have hthread := Machine.thread?_of_mem h.distinct hmem
  exact ⟨hthread, hcleaned.1, hcleaned.2,
    h.named entry.1 entry.2.record (by simp [Machine.roster, hthread]) hcleaned.2⟩

/-- What cleaning up reports about a thread. -/
def goneReports (t tid : Tid) (m : Machine) : List StopReason :=
  ((m.process.gone tid).map (·.2.reason)).reverse.filter fun reason =>
    reason.tid = t ∧ (reason.reason = .exited ∨ reason.reason = .terminated)

theorem ExitsTracked.goneReports_nil (h : ExitsTracked t m.roster) {tid : Tid}
    (hnot : ∀ thread, (t, thread) ∉ m.process.gone tid) : goneReports t tid m = [] := by
  refine List.filter_eq_nil_iff.mpr fun reason hreason heq => ?_
  obtain ⟨entry, hentry, rfl⟩ := List.mem_map.mp (List.mem_reverse.mp hreason)
  obtain ⟨-, -, -, hnamed⟩ := h.gone hentry
  simp only [decide_eq_true_eq] at heq
  have htid : entry.1 = t := hnamed.symm.trans heq.1
  exact hnot entry.2 (htid ▸ hentry)

theorem ExitsTracked.goneReports_one (h : ExitsTracked t m.roster) {tid : Tid}
    {thread : ThreadState} (hmem : (t, thread) ∈ m.process.gone tid)
    (hended : thread.reason.reason = .exited ∨ thread.reason.reason = .terminated) :
    goneReports t tid m = [thread.reason] := by
  have hdistinct : ((m.process.gone tid).map (·.1)).Nodup :=
    h.distinct.sublist (List.filter_sublist.map _)
  have hsame : (m.process.gone tid).filter ((fun reason : StopReason => decide (reason.tid = t ∧
      (reason.reason = .exited ∨ reason.reason = .terminated))) ∘ fun entry => entry.2.reason) =
      (m.process.gone tid).filter fun entry => entry.1 = t := by
    refine List.filter_congr fun entry hentry => ?_
    obtain ⟨hthread, -, -, hnamed⟩ := h.gone hentry
    rw [Function.comp_apply, decide_eq_decide, hnamed]
    refine ⟨fun hboth => hboth.1, fun htid => ⟨htid, ?_⟩⟩
    have hother := (h.gone hmem).1
    rw [htid, hother] at hthread
    cases hthread
    exact hended
  rw [goneReports, List.filter_reverse, List.filter_map, hsame,
    filter_of_nodup hdistinct hmem]
  rfl

theorem events_reportsGone (m : Machine) (tid : Tid) :
    (({ m with trace := m.reportsGone tid ++ m.trace } : Machine).cleanup tid).roster.events =
      ((m.process.gone tid).map (·.2.reason)).reverse.map Observation.lifecycle ++
        m.roster.events := by
  change (m.reportsGone tid ++ m.trace).filter _ = _
  rw [Machine.reportsGone_eq, List.filter_append]
  congr 1
  refine List.filter_eq_self.mpr fun observation hmem => ?_
  obtain ⟨reason, -, rfl⟩ := List.mem_map.mp hmem
  rfl

/-- Every end that was collected is reported, and its thread forgotten. -/
theorem ExitsTracked.cleanup (h : ExitsTracked t m.roster) {tid : Tid}
    (hstopped : (m.roster.record tid).map (·.state) = some .stopped) {after : Machine}
    (hafter : after = ({ m with trace := m.reportsGone tid ++ m.trace } : Machine).cleanup tid) :
    ExitsTracked t after.roster ∧ ∀ status ∈ exits t after.roster.events,
      exitReports t after.roster.events = [.ofWait t status] ∧ after.roster.record t = none := by
  have hexits : exits t after.roster.events = exits t m.roster.events := by
    rw [hafter, events_reportsGone, exits_append]
  have hreports : exitReports t after.roster.events =
      goneReports t tid m ++ exitReports t m.roster.events := by
    rw [hafter, events_reportsGone, exitReports_append]
    rfl
  have hthread : ∀ u, after.thread? u =
      (m.thread? u).filter fun thread => !isCleanedUp tid (u, thread) := by
    intro u
    rw [hafter]
    exact Machine.thread?_cleanup (m := { m with trace := m.reportsGone tid ++ m.trace })
      h.distinct tid u
  have hstatus : after.roster.status t = m.roster.status t := by rw [hafter]; rfl
  have hdistinct : after.roster.tids.Nodup := by
    rw [hafter]
    exact h.distinct.sublist (List.filter_sublist.map _)
  have hnamed : ∀ u record, after.roster.record u = some record →
      record.state = .exited ∨ record.state = .terminated → record.reason.tid = u := by
    intro u record hrecord hstate
    obtain ⟨thread, hfound, rfl⟩ := Option.map_eq_some_iff.mp hrecord
    rw [hthread] at hfound
    have hold := (Option.filter_eq_some_iff.mp hfound).1
    exact h.named u thread.record (by simp [Machine.roster, hold]) hstate
  cases h.phase with
  | alive hnone hunreported hrecord =>
      have hnot : ∀ thread, (t, thread) ∉ m.process.gone tid := fun thread hmem => by
        obtain ⟨hknown, -, hended, -⟩ := h.gone hmem
        exact hrecord thread.record (by simp [Machine.roster, hknown]) hended
      rw [h.goneReports_nil hnot] at hreports
      refine ⟨⟨hdistinct, hnamed, .alive (hexits.trans hnone) (hreports.trans hunreported)
        fun record heq => ?_⟩, fun status hmem => ?_⟩
      · obtain ⟨thread, hfound, rfl⟩ := Option.map_eq_some_iff.mp heq
        rw [hthread] at hfound
        have hold := (Option.filter_eq_some_iff.mp hfound).1
        exact hrecord thread.record (by simp [Machine.roster, hold])
      · rw [hexits, hnone] at hmem
        cases hmem
  | collected status hone hgone hunreported hrecord =>
      obtain ⟨record, heq, hended, hreason⟩ := hrecord
      obtain ⟨thread, hknown, rfl⟩ := Option.map_eq_some_iff.mp heq
      have hcleaned : isCleanedUp tid (t, thread) = true := by
        simp only [isCleanedUp, decide_eq_true_eq]
        refine ⟨?_, hended⟩
        rintro rfl
        rw [heq] at hstopped
        simp only [Option.map_some, Option.some.injEq] at hstopped
        rw [hstopped] at hended
        simp at hended
      have hmem : (t, thread) ∈ m.process.gone tid :=
        List.mem_filter.mpr ⟨Machine.mem_of_thread? hknown, hcleaned⟩
      have hover : thread.reason.reason = .exited ∨ thread.reason.reason = .terminated := by
        change thread.reason = _ at hreason
        rw [hreason]
        exact ofWait_of_exit t (exits_isStop (by rw [hone]; exact List.mem_singleton_self status))
      have hnone : after.roster.record t = none := by
        simp [Machine.roster, hthread, hknown, Option.filter, hcleaned]
      have hreported : exitReports t after.roster.events = [.ofWait t status] := by
        rw [hreports, h.goneReports_one hmem hover, hunreported]
        exact congrArg (· :: []) hreason
      refine ⟨⟨hdistinct, hnamed, .reported status (hexits.trans hone) (hstatus.trans hgone)
        hreported hnone⟩, fun other hother => ?_⟩
      rw [hexits, hone, List.mem_singleton] at hother
      subst hother
      exact ⟨hreported, hnone⟩
  | reported status hone hgone hreported hrecord =>
      have hunknown : m.thread? t = none := by simpa [Machine.roster] using hrecord
      have hnot : ∀ thread, (t, thread) ∉ m.process.gone tid := fun thread hmem => by
        have hknown := (h.gone hmem).1
        rw [hunknown] at hknown
        cases hknown
      rw [h.goneReports_nil hnot] at hreports
      have hnone : after.roster.record t = none := by
        simp [Machine.roster, hthread, hunknown]
      refine ⟨⟨hdistinct, hnamed, .reported status (hexits.trans hone) (hstatus.trans hgone)
        (hreports.trans hreported) hnone⟩, fun other hother => ?_⟩
      rw [hexits, hone, List.mem_singleton] at hother
      subst hother
      exact ⟨hreports.trans hreported, hnone⟩

theorem cleanupExitedThreads_tidy (tid : Tid) (reason : StopReason) :
    Triple (fun m => Tidy t m ∧ (m.roster.record tid).map (·.state) = some .stopped)
      (cleanupExitedThreads tid) (fun exited => (exitAssertions t).returned (exited.getD reason))
      (exitAssertions t).thrown := by
  rintro m ⟨hm, hstopped⟩
  have hgrows : Remembers m (({ m with trace := m.reportsGone tid ++ m.trace } :
      Machine).cleanup tid) := List.suffix_append _ _
  refine Triple.of_eq_ok (cleanupExitedThreads_apply tid m) ⟨fun hcollected => ?_,
    fun hcollected _ => ?_⟩
  · exact ((hm (hcollected.of_remembers hgrows)).cleanup hstopped rfl).1
  · exact ((hm (hcollected.of_remembers hgrows)).cleanup hstopped rfl).2

/-- Reporting at once an end that is none of the thread. -/
theorem noteReason_exited {reason : StopReason}
    (hended : reason.reason = .exited ∨ reason.reason = .terminated)
    (h : (exitAssertions t).handled event reason m) :
    Tidy t ((noteReason event.tid reason m).2.observe (.lifecycle reason)) := by
  obtain ⟨hm, htid, hreason⟩ := h
  intro hcollected
  refine (hm.noteReason htid hreason hcollected).lifecycle fun hboth => ?_
  have hstop := ((hm hcollected).2 (htid.symm.trans hboth.1)).1
  rw [hreason, (ofWait_stopped_iff event.tid event.status).mpr hstop] at hended
  simp at hended

theorem exitRules (handlers : HitHandlers) (t : Tid) : StopRules handlers (exitAssertions t) where
  raised := fun e _ hm => hm.thrown e
  sample := fun tid => keeps_tidy (samplePc_roster tid)
  lift := fun tid bp pc => (keeps_tidy (liftSite_roster tid bp pc)).pre fun _ hm => hm.1
  relay := fun bp pc => keeps_tidy (relaySite_roster bp pc)
  swallow := swallowPendingSigstop_tidy
  step := fun tid => (ptraceRun_tidy .singleStep tid).mono (fun _ hm => hm)
    (fun ran _ hm => by cases ran <;> exact hm) fun _ _ hm => hm
  stepped := fun tid => waitpid_unread_tidy (by decide) (some tid)
  goOn := sendContinue_tidy
  wait := waitpid_tidy (by decide)
  waitStepped := fun tid => waitpid_tidy (by decide) (some tid)
  signal := fun event => (handleSignal_tidy handlers event).mono (fun _ hm => hm)
    (fun _ _ hm => hm) fun e m hm => by
      unfold Assertions.escaped
      split
      · exact hm
      · exact hm.tidy.thrown e
  caught := fun event => updateThread_triple fun m hm =>
    TidyAt.noteReason hm (StopReason.ofWait_tid _ _) rfl
  untracked := fun _ _ e _ hm _ => hm.1.tidy.thrown e
  stopped := fun event reason _ => updateThread_triple fun m hm =>
    hm.1.1.noteReason hm.1.2.1 hm.1.2.2
  exited := fun event reason hended => updateThread_triple fun m hm =>
    noteReason_exited hended hm.1
  stopThread := stopThread_tidy handlers
  cleanup := fun event reason _ _ _ => (cleanupExitedThreads_tidy event.tid reason).pre
    fun _ hm => ⟨hm.1, hm.2.stopped⟩
  ended := fun reason m hended hm => ⟨hm, fun _ hstopped => by simp [hstopped] at hended⟩
  process := fun _ _ _ hm => hm.of_roster rfl
  answer := fun _ _ _ hm => hm
  reenabled := fun reason bp pc => by
    refine (Triple.of_respects (P := (exitAssertions t).returned reason) fun m hm => ?_).mono
      (fun _ hm => hm) (fun _ _ hm => hm) fun e _ hm => hm.1.thrown e
    have hroster : (relaySite bp pc m).2.roster = m.roster := relaySite_roster bp pc m
    refine ⟨hm.1.of_roster hroster, ?_⟩
    rw [hroster]
    exact hm.2
  dangling := fun _ e _ hm => hm.1.thrown e
  settled := fun _ _ hm => hm.1

theorem command_tidy (handlers : HitHandlers) (t : Tid) (c : Command) :
    Triple (Tidy t) (c.run handlers) (exitAssertions t).finished (exitAssertions t).thrown :=
  (exitRules handlers t).command (fun _ => keeps_tidy (siteFrame_roster.run (.inl rfl)))
    (fun op => keeps_tidy (watchpointFrame_roster.run op))
    (fun _ _ _ _ hm => hm.of_roster rfl) c

end Steps

/-- A process with live threads about which nothing was observed yet. -/
structure NoneEnded (m : Machine) : Prop where
  distinct : (m.process.threads.map (·.1)).Nodup
  fresh : m.trace = []
  entries : ∀ t thread, m.thread? t = some thread →
    ¬ (thread.state = .exited ∨ thread.state = .terminated)

theorem NoneEnded.tidy {m : Machine} (h : NoneEnded m) (t : Tid) : Tidy t m := by
  intro _
  have hevents : m.roster.events = [] := by simp [Machine.roster, h.fresh]
  have hrecord : ∀ u record, m.roster.record u = some record →
      ¬ (record.state = .exited ∨ record.state = .terminated) := by
    intro u record heq
    obtain ⟨thread, hthread, rfl⟩ := Option.map_eq_some_iff.mp heq
    exact h.entries u thread hthread
  refine ⟨h.distinct, fun u record heq hstate => absurd hstate (hrecord u record heq),
    .alive ?_ ?_ (hrecord t)⟩
  · rw [hevents]
    rfl
  · rw [hevents]
    rfl

theorem Run.tidy {handlers : HitHandlers} {start m : Machine} (hrun : Run handlers start m)
    (hstart : NoneEnded start) (t : Tid) : Tidy t m :=
  (exitRules handlers t).run hrun (command_tidy handlers t)
    (fun _ _ hexception hm => hm.1 hexception) (hstart.tidy t)

/-- After a command the end of a thread was reported at most once, for its own
reason; after one that reports a stop it was reported, and the thread forgotten. -/
structure ExitReported (t : Tid) (r : Except Failure (Option StopReason)) (m : Machine) :
    Prop where
  once : ReportedOnce t m.roster.events
  byNow : ∀ reason, r = .ok (some reason) → reason.reason = .stopped →
    ∀ status ∈ exits t m.roster.events,
      exitReports t m.roster.events = [.ofWait t status] ∧ m.thread? t = none

/-- In every run, the end of a thread that `stop_running_threads` collects is
reported exactly once, and the thread is forgotten by the next stop. -/
theorem exitReported_of_collectedByStop {handlers : HitHandlers} {start m m' : Machine}
    {c : Command} {r : Except Failure (Option StopReason)} {t : Tid} (hstart : NoneEnded start)
    (hrun : Run handlers start m) (hcommand : c.run handlers m = (r, m'))
    (hcollected : CollectedByStop t m'.roster.events) : ExitReported t r m' := by
  obtain ⟨hok, herror⟩ := command_tidy handlers t c m (hrun.tidy hstart t)
  cases r with
  | ok answer =>
      have hfinished := hok answer m' hcommand
      have hrest : Tidy t m' := (exitRules handlers t).rest_of_finished hfinished
      refine ⟨(hrest hcollected).phase.once, ?_⟩
      rintro reason ⟨rfl⟩ hstopped status hstatus
      obtain ⟨hreported, hrecord⟩ := hfinished.2 hcollected hstopped status hstatus
      exact ⟨hreported, by simpa [Machine.roster] using hrecord⟩
  | error e =>
      exact ⟨(herror e m' hcommand).2 hcollected, fun _ h => by cases h⟩

namespace ThreadExitsWitness

open Scenario

/-- Handlers that let the thread go on. -/
def passing : HitHandlers := ⟨fun _ _ => ([], .ok true)⟩

/-- A thread ends. -/
def ends (tid : Tid) : WaitAnswer := .report ⟨tid, .exited 0, .other, fun _ => 0, fun _ => 0⟩

/-- Two threads that were let run. -/
def resumed (script : List WaitAnswer) : Machine :=
  after passing .resumeAllThreads (machine [1, 2] script)

theorem machine_noneEnded (script : List WaitAnswer) : NoneEnded (machine [1, 2] script) := by
  refine ⟨by simp [machine], rfl, fun t thread hthread => ?_⟩
  have hnew := machine_thread? [1, 2] script hthread
  subst hnew
  decide

/-- The first thread is interrupted; the second one ends before it is stopped. -/
theorem exitReported_of_collectedByStop_stopping :
    exits 2 (after passing (.waitOnSignal none)
        (resumed [stop 1 2 .other 0x1000, ends 2])).roster.events = [.exited 0] ∧
      ExitReported 2 ((Command.waitOnSignal none).run passing
        (resumed [stop 1 2 .other 0x1000, ends 2])).1
        (after passing (.waitOnSignal none) (resumed [stop 1 2 .other 0x1000, ends 2])) :=
  ⟨by decide +kernel, exitReported_of_collectedByStop (machine_noneEnded _)
    (run_after .resumeAllThreads .start (by decide +kernel)) (command_after _ _ _)
    (by decide +kernel)⟩

/-- The second thread ends, and then the first one is interrupted: the end is
reported when it arrives and again with the stop. -/
theorem exit_not_reported_once :
    ¬ ∀ (handlers : HitHandlers) (start m m' : Machine) (c : Command)
      (r : Except Failure (Option StopReason)) (t : Tid), NoneEnded start →
      Run handlers start m → c.run handlers m = (r, m') → t ≠ start.process.pid →
      (∀ p ∈ deliveries m'.roster.events, p.1.tid = t → p.1.status.isStop = false →
        p.1.waiter = .waitOnSignal ∨ p.1.waiter = .stopRunningThreads) → ExitReported t r m' := by
  intro hall
  have hreported := hall passing _ (resumed [ends 2, stop 1 2 .other 0x1000]) _
    (.waitOnSignal none) _ 2 (machine_noneEnded _)
    (run_after .resumeAllThreads .start (by decide +kernel)) (command_after _ _ _) (by decide)
    (by decide +kernel)
  have htwice : (exitReports 2 (after passing (.waitOnSignal none)
      (resumed [ends 2, stop 1 2 .other 0x1000])).roster.events).length = 2 := by
    decide +kernel
  rcases hreported.once with hnone | ⟨status, -, hone⟩
  · rw [hnone] at htwice
    cases htwice
  · rw [hone] at htwice
    cases htwice

end ThreadExitsWitness

end Gsdb
