/-
Accounting of the `SIGSTOP`s that are sent to bring threads to a stop.  A thread
that stops for another reason keeps its `SIGSTOP` to come; the flag of its entry
remembers it until `handle_signal`, `stop_running_threads` or
`swallow_pending_sigstop` sees it arrive.
-/
import Gsdb.Commands

namespace Gsdb

open ByteMemory Effects Eff Debugger

/-- The signal with which a thread stopped. -/
def WaitStatus.stopSignal : WaitStatus → Option Byte
  | .stopped sig _ => some sig
  | _ => none

/-- A `SIGSTOP` that the debugger sent to a thread was not delivered to it yet.
Sending it again while it is undelivered changes nothing. -/
def owed (t : Tid) : List Observation → Bool
  | [] => false
  | .sentSigstop tid :: earlier => if tid = t then true else owed t earlier
  | .delivered d :: earlier =>
      if d.tid = t ∧ d.status.stopSignal = some sigstop then false else owed t earlier
  | _ :: earlier => owed t earlier

/-- Tracked threads receive no `SIGSTOP` but those that were sent to them. -/
def OnlySent (events : List Observation) : Prop :=
  ∀ p ∈ deliveries events, (p.1.before.thread? p.1.tid).isSome = true →
    p.1.status.stopSignal = some sigstop → owed p.1.tid p.2 = true

instance (events : List Observation) : Decidable (OnlySent events) :=
  inferInstanceAs (Decidable (∀ p ∈ deliveries events, _))

namespace Delivery

/-- The trap after a single step. -/
def isStepTrap (d : Delivery) : Bool := d.status = .stopped sigtrap 0 ∧ d.siCode = .trapTrace

/-- Whether a wait whose status is not looked at receives what it is for, if the
thread lives on: a `SIGSTOP`, or the trap of the step. -/
def isForeseen (d : Delivery) : Bool :=
  match d.waiter with
  | .swallowPendingSigstop => !d.status.isStop || d.status.stopSignal = some sigstop
  | .stepOverBreakpoint =>
      !d.status.isStop || d.status.stopSignal = some sigstop || d.isStepTrap
  | .waitOnSignal | .stopRunningThreads => true

/-- A stop that a wait throws away is the `SIGSTOP` that was owed, or the trap of
the step it made. -/
def IsSpent (d : Delivery) (earlier : List Observation) : Prop :=
  match d.waiter with
  | .swallowPendingSigstop =>
      d.status.isStop = true → d.status.stopSignal = some sigstop ∧ owed d.tid earlier = true
  | .stepOverBreakpoint => d.status.isStop = true → d.isStepTrap = true
  | .waitOnSignal | .stopRunningThreads => True

end Delivery

/-- Every wait whose status is not looked at receives what it is for. -/
def Foreseen (events : List Observation) : Prop := ∀ p ∈ deliveries events, p.1.isForeseen = true

instance (events : List Observation) : Decidable (Foreseen events) :=
  inferInstanceAs (Decidable (∀ p ∈ deliveries events, _))

/-- No stop is thrown away but owed `SIGSTOP`s and traps of steps. -/
def NoneLost (events : List Observation) : Prop := ∀ p ∈ deliveries events, p.1.IsSpent p.2

/-- The thread events are as assumed. -/
def Fair (events : List Observation) : Prop := OnlySent events ∧ Foreseen events

namespace Roster

def pending (roster : Roster) (t : Tid) : Bool :=
  match roster.record t with
  | some record => record.pendingSigstop
  | none => false

/-- The flags of the threads that are alive are right, but for some thread, and
nothing was lost. -/
structure Accounted (exempt : Tid → Prop) (roster : Roster) : Prop where
  attached : roster.attached = true
  distinct : roster.tids.Nodup
  answers : WaitAnswer.fails ∉ roster.script
  flags : ∀ t, ¬ exempt t → roster.status t ≠ .absent → roster.pending t = owed t roster.events
  ended : ∀ t record, roster.record t = some record →
    record.state = .exited ∨ record.state = .terminated →
    roster.status t = .absent ∧ record.reason.reason = record.state
  noneLost : NoneLost roster.events

/-- A state change arrived, and the flag of its thread is as before. -/
structure Unsettled (event : WaitEvent) (roster : Roster) : Prop where
  accounted : roster.Accounted (· = event.tid)
  status : roster.status event.tid = if event.status.isStop then .stopped else .absent
  received : event.status.stopSignal = some sigstop → owed event.tid roster.events = false ∧
    ((roster.record event.tid).isSome = true → roster.pending event.tid = true)
  other : event.status.stopSignal ≠ some sigstop → event.status.isStop = true →
    roster.pending event.tid = owed event.tid roster.events

end Roster

/-- The accounts are in order. -/
def Accounts (m : Machine) : Prop :=
  Fair m.roster.events → m.roster.Accounted fun _ => False

/-- The accounts are in order and nothing is owed to a thread that is tracked. -/
def NothingOwed (tid : Tid) (m : Machine) : Prop :=
  Fair m.roster.events → (m.roster.Accounted fun _ => False) ∧
    (m.roster.record tid).isSome = true ∧
    (m.roster.status tid ≠ .absent → owed tid m.roster.events = false)

/-- A state change arrived. -/
def Arriving (event : WaitEvent) (m : Machine) : Prop :=
  Fair m.roster.events → m.roster.Unsettled event

/-- A state change was accounted for. -/
def AccountedFor (event : WaitEvent) (m : Machine) : Prop :=
  Fair m.roster.events → (m.roster.Accounted fun _ => False) ∧
    (event.status.isStop = false → m.roster.status event.tid = .absent)

def sigstopAssertions : Assertions where
  rest := Accounts
  swallowed := NothingOwed
  awaited := NothingOwed
  due := Arriving
  handled := fun event reason m => AccountedFor event m ∧
    reason.reason = (StopReason.ofWait event.tid event.status).reason ∧
    (Fair m.roster.events → reason.reason = .stopped → reason.info ≠ sigstop)
  failed := AccountedFor
  returned := fun reason m => Accounts m ∧
    (Fair m.roster.events → reason.reason = .stopped → reason.info ≠ sigstop)
  thrown := fun e m => (e.isException = true → Accounts m) ∧
    (Fair m.roster.events → NoneLost m.roster.events)

section Steps

variable {m m' : Machine} {tid : Tid} {event : WaitEvent} {exempt : Tid → Prop}

/-- What was fair stays fair when it is looked back at. -/
theorem Fair.of_remembers (h : Fair m'.roster.events) (hgrows : Remembers m m') :
    Fair m.roster.events := by
  have hsubset : deliveries m.roster.events ⊆ deliveries m'.roster.events :=
    deliveries_suffix (hgrows.filter _)
  exact ⟨fun p hp => h.1 p (hsubset hp), fun p hp => h.2 p (hsubset hp)⟩

/-- A state change that arrived fairly. -/
theorem Fair.earlier {waiter : Waiter} {rest : List WaitAnswer}
    (h : Fair ((m.deliver waiter event).setScript rest).roster.events) : Fair m.roster.events :=
  h.of_remembers (.observe rfl)

theorem Accounts.of_roster (h : Accounts m) (hsame : Fixes Machine.roster m m') : Accounts m' := by
  unfold Accounts
  rw [hsame]
  exact h

theorem Accounts.thrown (h : Accounts m) (e : Failure) : sigstopAssertions.thrown e m :=
  ⟨fun _ => h, fun hfair => (h hfair).noneLost⟩

/-- A wait without end loses nothing. -/
theorem thrown_schedule (h : Fair m.roster.events → m.roster.Accounted exempt) :
    sigstopAssertions.thrown .schedule m :=
  ⟨fun hexception => (by cases hexception), fun hfair => (h hfair).noneLost⟩

theorem AccountedFor.of_roster (h : AccountedFor event m) (hsame : Fixes Machine.roster m m') :
    AccountedFor event m' := by
  unfold AccountedFor
  rw [hsame]
  exact h

theorem keeps_accounts {α : Type} {x : Debugger α} (h : Respects (Fixes Machine.roster) x) :
    Triple Accounts x (fun _ => Accounts) sigstopAssertions.thrown :=
  (Triple.of_respects fun m hm => hm.of_roster (h m)).mono (fun _ hm => hm) (fun _ _ hm => hm)
    fun e _ hm => hm.thrown e

theorem Roster.pending_eq (m : Machine) (t : Tid) :
    m.roster.pending t = ((m.thread? t).map (·.pendingSigstop)).getD false := by
  simp only [Roster.pending, Machine.roster]
  cases m.thread? t <;> rfl

/-- An entry changes: its flag is what is owed, and a thread that is noted as
ended is gone. -/
theorem Roster.Accounted.update (h : m.roster.Accounted exempt)
    (hexempt : ∀ t, exempt t → t = tid) {f : ThreadState → ThreadState}
    (hflag : ∀ thread, m.thread? tid = some thread → (m.kernel.threads tid).status ≠ .absent →
      (f thread).pendingSigstop = owed tid m.roster.events)
    (hnone : m.thread? tid = none → (m.kernel.threads tid).status ≠ .absent →
      owed tid m.roster.events = false)
    (hended : ∀ thread, m.thread? tid = some thread → (f thread).state = .exited ∨
      (f thread).state = .terminated → (m.kernel.threads tid).status = .absent ∧
        (f thread).reason.reason = (f thread).state) :
    (updateThread tid f m).2.roster.Accounted fun _ => False := by
  refine ⟨h.attached, Machine.tids_updateThread h.distinct tid f, h.answers, fun t _ halive => ?_,
    fun t record hrecord hstate => ?_, h.noneLost⟩
  · change (m.kernel.threads t).status ≠ .absent at halive
    change _ = owed t m.roster.events
    by_cases ht : t = tid
    · subst ht
      rw [Roster.pending_eq, Machine.thread?_updateThread]
      cases hthread : m.thread? t with
      | none => exact (hnone hthread halive).symm
      | some thread => exact hflag thread hthread halive
    · rw [Roster.pending_eq, Machine.thread?_updateThread_of_ne m f ht, ← Roster.pending_eq]
      exact h.flags t (fun hex => ht (hexempt t hex)) halive
  · change (m.kernel.threads t).status = .absent ∧ _
    by_cases ht : t = tid
    · subst ht
      obtain ⟨thread, hthread, rfl⟩ := record_updateThread hrecord
      exact hended thread hthread hstate
    · rw [record_updateThread_of_ne m f ht] at hrecord
      exact h.ended t record hrecord hstate

/-- An entry changes that is right about what is owed, and keeps its flag. -/
theorem Roster.Accounted.keepFlag (h : m.roster.Accounted fun _ => False)
    {f : ThreadState → ThreadState}
    (hf : ∀ thread, (f thread).pendingSigstop = thread.pendingSigstop)
    (hended : ∀ thread, m.thread? tid = some thread → (f thread).state = .exited ∨
      (f thread).state = .terminated → (m.kernel.threads tid).status = .absent ∧
        (f thread).reason.reason = (f thread).state) :
    (updateThread tid f m).2.roster.Accounted fun _ => False := by
  refine h.update (fun _ hex => hex.elim) (fun thread hthread halive => ?_)
    (fun hnone halive => ?_) hended
  · have hflag := h.flags tid not_false halive
    rw [Roster.pending_eq, hthread] at hflag
    rw [hf]
    exact hflag
  · have hflag := h.flags tid not_false halive
    rw [Roster.pending_eq, hnone] at hflag
    exact hflag.symm

/-- Letting a stopped thread run leaves the accounts alone. -/
theorem Roster.Accounted.letRun (h : m.roster.Accounted exempt) (hstopped : m.isStopped tid = true)
    (request : RunRequest) : (m.letRun tid request).roster.Accounted exempt := by
  have hpresent : (m.kernel.threads tid).status ≠ .absent := by
    simp only [Machine.isStopped, decide_eq_true_eq] at hstopped
    simp [hstopped]
  have habsent : ∀ t, ((m.letRun tid request).kernel.threads t).status = .absent ↔
      (m.kernel.threads t).status = .absent := by
    intro t
    rw [status_letRun]
    by_cases ht : t = tid
    · subst ht
      simp [hpresent]
    · rw [if_neg ht]
  refine ⟨h.attached, h.distinct, h.answers, fun t ht halive => ?_,
    fun t record hrecord hstate => ?_,
    h.noneLost⟩
  · exact h.flags t ht fun hgone => halive ((habsent t).mpr hgone)
  · obtain ⟨hgone, hreason⟩ := h.ended t record hrecord hstate
    exact ⟨(habsent t).mpr hgone, hreason⟩

theorem Accounts.letRun (h : Accounts m) (hstopped : m.isStopped tid = true)
    (request : RunRequest) : Accounts (m.letRun tid request) :=
  fun hfair => (h hfair).letRun hstopped request

theorem ptraceRun_accounts (request : RunRequest) (tid : Tid) :
    Triple Accounts (ptraceRun request tid) (fun _ => Accounts) sigstopAssertions.thrown := by
  intro m hm
  rcases ptraceRun_cases request tid m with ⟨hstopped, h⟩ | ⟨-, h⟩
  · exact Triple.of_eq_ok h (hm.letRun hstopped request)
  · exact Triple.of_eq_ok h hm

/-- The delivery of a state change. -/
def Machine.delivery (m : Machine) (waiter : Waiter) (event : WaitEvent) : Delivery :=
  ⟨event.tid, event.status, event.siCode, event.user,
    m.process.breakpointSites.enabledStoppointAtAddress (User.pc event.user - 1), waiter, m.moment⟩

theorem owed_deliver (m : Machine) (waiter : Waiter) (event : WaitEvent) :
    owed event.tid (m.deliver waiter event).roster.events =
      if event.status.stopSignal = some sigstop then false else owed event.tid m.roster.events := by
  change (if event.tid = event.tid ∧ event.status.stopSignal = some sigstop then false
    else owed event.tid m.roster.events) = _
  simp

theorem owed_deliver_of_ne (m : Machine) (waiter : Waiter) (event : WaitEvent) {t : Tid}
    (ht : t ≠ event.tid) :
    owed t (m.deliver waiter event).roster.events = owed t m.roster.events := by
  change (if event.tid = t ∧ event.status.stopSignal = some sigstop then false
    else owed t m.roster.events) = _
  rw [if_neg fun hboth => ht hboth.1.symm]

theorem Roster.Accounted.not_fails (h : m.roster.Accounted exempt) {rest : List WaitAnswer}
    (hscript : m.kernel.script = .fails :: rest) : False := by
  have hanswers : WaitAnswer.fails ∉ m.kernel.script := h.answers
  rw [hscript] at hanswers
  exact hanswers List.mem_cons_self

/-- A state change arrives; only the account of its thread is open. -/
theorem Roster.Accounted.deliver (h : m.roster.Accounted exempt)
    (hexempt : ∀ t, exempt t → t = event.tid) {waiter : Waiter} {rest : List WaitAnswer}
    (hpresent : (m.kernel.threads event.tid).status ≠ .absent)
    (hscript : m.kernel.script = .report event :: rest)
    (hspent : (m.delivery waiter event).IsSpent m.roster.events) :
    ((m.deliver waiter event).setScript rest).roster.Accounted (· = event.tid) := by
  refine ⟨h.attached, h.distinct, fun hfails => ?_, fun t ht halive => ?_,
    fun t record hrecord hstate => ?_, List.forall_mem_cons.mpr ⟨hspent, h.noneLost⟩⟩
  · have hanswers := h.answers
    change WaitAnswer.fails ∉ m.kernel.script at hanswers
    rw [hscript] at hanswers
    exact hanswers (List.mem_cons_of_mem _ hfails)
  · change ((m.deliver waiter event).kernel.threads t).status ≠ .absent at halive
    rw [status_deliver, if_neg ht] at halive
    change m.roster.pending t = owed t (m.deliver waiter event).roster.events
    rw [owed_deliver_of_ne m waiter event ht]
    exact h.flags t (fun hex => ht (hexempt t hex)) halive
  · obtain ⟨hgone, hreason⟩ := h.ended t record hrecord hstate
    have hne : t ≠ event.tid := by
      rintro rfl
      exact hpresent hgone
    refine ⟨?_, hreason⟩
    change ((m.deliver waiter event).kernel.threads t).status = .absent
    rw [status_deliver, if_neg hne]
    exact hgone

/-- A `SIGSTOP` that a tracked thread receives was owed to it. -/
theorem Fair.owed_of_deliver {waiter : Waiter} {rest : List WaitAnswer}
    (h : Fair ((m.deliver waiter event).setScript rest).roster.events)
    (htracked : (m.thread? event.tid).isSome = true)
    (hsigstop : event.status.stopSignal = some sigstop) : owed event.tid m.roster.events = true :=
  (List.forall_mem_cons.mp h.1).1 htracked hsigstop

/-- A state change arrives at a wait that looks at it. -/
theorem Accounts.arriving (h : Accounts m) {waiter : Waiter} {rest : List WaitAnswer}
    (hpresent : (m.kernel.threads event.tid).status ≠ .absent)
    (hscript : m.kernel.script = .report event :: rest)
    (hspent : ∀ earlier, (m.delivery waiter event).IsSpent earlier) :
    Arriving event ((m.deliver waiter event).setScript rest) := by
  intro hfair
  have hm := h hfair.earlier
  have hflag := hm.flags event.tid not_false hpresent
  refine ⟨hm.deliver (fun _ hex => hex.elim) hpresent hscript (hspent _), ?_, fun hsigstop => ?_,
    fun hother _ => ?_⟩
  · change ((m.deliver waiter event).kernel.threads event.tid).status = _
    rw [status_deliver, if_pos rfl]
  · change owed event.tid (m.deliver waiter event).roster.events = false ∧
      ((m.roster.record event.tid).isSome = true → m.roster.pending event.tid = true)
    rw [owed_deliver, if_pos hsigstop]
    refine ⟨rfl, fun htracked => ?_⟩
    rw [hflag]
    exact hfair.owed_of_deliver (by simpa [Machine.roster] using htracked) hsigstop
  · change m.roster.pending event.tid = owed event.tid (m.deliver waiter event).roster.events
    rw [owed_deliver, if_neg hother]
    exact hflag

theorem waitpid_accounts (toAwait : Option Tid) :
    Triple Accounts (waitpid .waitOnSignal toAwait) sigstopAssertions.answered
      sigstopAssertions.thrown := by
  intro m hm
  rcases waitpid_cases .waitOnSignal toAwait m with
    h | ⟨rest, hscript, h⟩ | ⟨event, rest, hmay, hscript, h⟩
  · exact Triple.of_eq_error h (hm.thrown _)
  · exact Triple.of_eq_ok h fun hfair => ((hm hfair).not_fails hscript).elim
  · exact Triple.of_eq_ok h
      (hm.arriving (Machine.present_of_mayReport hmay) hscript fun _ => trivial)

/-- A wait for a thread whose status is not looked at.  The flag of the thread is
settled by what comes after it. -/
def Spent (tid : Tid) (m : Machine) : Prop :=
  Fair m.roster.events → m.roster.Accounted (· = tid) ∧ (m.roster.record tid).isSome = true ∧
    (m.roster.status tid ≠ .absent → owed tid m.roster.events = false)

theorem waitpid_swallow (tid : Tid) :
    Triple (fun m => Accounts m ∧ (m.thread? tid).map (·.pendingSigstop) = some true)
      (waitpid .swallowPendingSigstop (some tid)) (fun _ => Spent tid)
      sigstopAssertions.thrown := by
  rintro m ⟨hm, hpending⟩
  rcases waitpid_cases .swallowPendingSigstop (some tid) m with
    h | ⟨rest, hscript, h⟩ | ⟨event, rest, hmay, hscript, h⟩
  · exact Triple.of_eq_error h (hm.thrown _)
  · exact Triple.of_eq_ok h fun hfair => ((hm hfair).not_fails hscript).elim
  · have htid := Machine.mayReport_some hmay
    subst htid
    have hpresent := Machine.present_of_mayReport hmay
    refine Triple.of_eq_ok h fun hfair => ?_
    have hold := hm hfair.earlier
    have howed : owed event.tid m.roster.events = true := by
      rw [← hold.flags event.tid not_false hpresent, Roster.pending_eq, hpending]
      rfl
    have hforeseen := (List.forall_mem_cons.mp hfair.2).1
    simp only [Delivery.isForeseen, Bool.or_eq_true, Bool.not_eq_true', decide_eq_true_eq]
      at hforeseen
    refine ⟨hold.deliver (fun _ hex => hex.elim) hpresent hscript fun hstop => ?_, ?_,
      fun halive => ?_⟩
    · rcases hforeseen with hexit | hsigstop
      · simp [Machine.delivery, hexit] at hstop
      · exact ⟨hsigstop, howed⟩
    · change ((m.thread? event.tid).map ThreadState.record).isSome = true
      cases hthread : m.thread? event.tid with
      | none => simp [hthread] at hpending
      | some thread => rfl
    · change owed event.tid (m.deliver .swallowPendingSigstop event).roster.events = false
      change ((m.deliver .swallowPendingSigstop event).kernel.threads event.tid).status ≠ .absent
        at halive
      rw [owed_deliver]
      rw [status_deliver, if_pos rfl] at halive
      rcases hforeseen with hexit | hsigstop
      · simp [hexit] at halive
      · rw [if_pos hsigstop]

theorem swallowPendingSigstop_accounts (tid : Tid) :
    Triple Accounts (swallowPendingSigstop tid) (fun _ => NothingOwed tid)
      sigstopAssertions.thrown := by
  refine Triple.bind (threadAt_triple fun m hm _ => hm.thrown _) fun thread => ?_
  refine Triple.ite (fun hpending => ?_) fun hpending => Triple.pure fun m hm hfair => ?_
  · refine Triple.bind (Q := fun _ m => Accounts m ∧ (m.thread? tid).map (·.pendingSigstop) =
      some true) (fun m hm => ?_) fun _ => ?_
    · have hflag : (m.thread? tid).map (·.pendingSigstop) = some true := by
        rw [hm.2, Option.map_some, hpending]
      rcases ptraceRun_cases .cont tid m with ⟨hstopped, h⟩ | ⟨-, h⟩
      · exact Triple.of_eq_ok h ⟨hm.1.letRun hstopped .cont, hflag⟩
      · exact Triple.of_eq_ok h ⟨hm.1, hflag⟩
    refine Triple.bind (waitpid_swallow tid) fun _ => updateThread_triple fun m hm hfair => ?_
    obtain ⟨haccounted, htracked, howed⟩ := hm hfair
    refine ⟨haccounted.update (fun _ ht => ht) (fun thread _ halive => (howed halive).symm)
      (fun hnone => ?_) fun thread hthread hstate => ?_, ?_, howed⟩
    · simp [Machine.roster, hnone] at htracked
    · exact haccounted.ended tid thread.record (by simp [Machine.roster, hthread]) hstate
    · change (((updateThread tid _ m).2.thread? tid).map ThreadState.record).isSome = true
      rw [Machine.thread?_updateThread]
      simpa [Machine.roster] using htracked
  · have haccounted := hm.1 hfair
    refine ⟨haccounted, by simp [Machine.roster, hm.2], fun halive => ?_⟩
    rw [← haccounted.flags tid not_false halive, Roster.pending_eq, hm.2]
    simpa using hpending

theorem ptraceRun_nothingOwed (tid : Tid) :
    Triple (NothingOwed tid) (ptraceRun .singleStep tid)
      (fun ran m => if ran then NothingOwed tid m else Accounts m) sigstopAssertions.thrown := by
  intro m hm
  rcases ptraceRun_cases .singleStep tid m with ⟨hstopped, h⟩ | ⟨-, h⟩
  · refine Triple.of_eq_ok h fun hfair => ?_
    obtain ⟨haccounted, htracked, howed⟩ := hm hfair
    refine ⟨haccounted.letRun hstopped .singleStep, htracked, fun _ => howed ?_⟩
    simp only [Machine.isStopped, decide_eq_true_eq] at hstopped
    change (m.kernel.threads tid).status ≠ .absent
    simp [hstopped]
  · exact Triple.of_eq_ok h fun hfair => (hm hfair).1

/-- The trap of a step is thrown away, and no `SIGSTOP` comes before it. -/
theorem waitpid_stepped (tid : Tid) :
    Triple (NothingOwed tid) (waitpid .stepOverBreakpoint (some tid)) (fun _ => Accounts)
      sigstopAssertions.thrown := by
  intro m hm
  rcases waitpid_cases .stepOverBreakpoint (some tid) m with
    h | ⟨rest, hscript, h⟩ | ⟨event, rest, hmay, hscript, h⟩
  · exact Triple.of_eq_error h (thrown_schedule fun hfair => (hm hfair).1)
  · exact Triple.of_eq_ok h fun hfair => ((hm hfair).1.not_fails hscript).elim
  · have htid := Machine.mayReport_some hmay
    subst htid
    have hpresent := Machine.present_of_mayReport hmay
    refine Triple.of_eq_ok h fun hfair => ?_
    obtain ⟨hold, htracked, howed⟩ := hm hfair.earlier
    have hnot : event.status.stopSignal ≠ some sigstop := by
      intro hsigstop
      have hsent := hfair.owed_of_deliver (by simpa [Machine.roster] using htracked) hsigstop
      rw [howed hpresent] at hsent
      cases hsent
    have hforeseen := (List.forall_mem_cons.mp hfair.2).1
    simp only [Delivery.isForeseen, Bool.or_eq_true, Bool.not_eq_true', decide_eq_true_eq]
      at hforeseen
    have hspent : (m.delivery .stepOverBreakpoint event).IsSpent m.roster.events := by
      intro hstop
      rcases hforeseen with (hexit | hsigstop) | htrap
      · simp [Machine.delivery, hexit] at hstop
      · exact absurd hsigstop hnot
      · exact htrap
    have hdelivered := hold.deliver (fun _ hex => hex.elim) hpresent hscript hspent
    refine ⟨hdelivered.attached, hdelivered.distinct, hdelivered.answers, fun t _ halive => ?_,
      hdelivered.ended, hdelivered.noneLost⟩
    by_cases ht : t = event.tid
    · subst ht
      change m.roster.pending event.tid =
        owed event.tid (m.deliver .stepOverBreakpoint event).roster.events
      rw [owed_deliver, if_neg hnot]
      exact hold.flags event.tid not_false hpresent
    · exact hdelivered.flags t ht halive

theorem sendContinue_accounts (tid : Tid) :
    Triple Accounts (sendContinue tid) (fun _ => Accounts) sigstopAssertions.thrown := by
  refine Triple.get_bind fun m hm => ?_
  refine Triple.bind (Q := fun _ => Accounts) ((ptraceRun_accounts _ tid).pre fun _ hs => hs ▸ hm)
    fun ran => ?_
  refine Triple.ite (fun _ => Triple.throw fun _ hm => hm.thrown _) fun _ => ?_
  refine Triple.bind (threadAt_triple fun m hm _ => hm.thrown _) fun thread => ?_
  refine Triple.bind (Q := fun _ => Accounts) (updateThread_triple fun m hm hfair => ?_) fun _ =>
    Triple.modify fun m hm => hm.of_roster rfl
  exact (hm.1 hfair).keepFlag (fun _ => rfl) fun _ _ hstate => by simp at hstate

/-- The account of the thread that reported is closed. -/
theorem Roster.Unsettled.settle (h : m.roster.Unsettled event)
    (hflag : event.status.isStop = true →
      m.roster.pending event.tid = owed event.tid m.roster.events) :
    m.roster.Accounted fun _ => False := by
  obtain ⟨haccounted, hstatus, -, -⟩ := h
  refine ⟨haccounted.attached, haccounted.distinct, haccounted.answers, fun t _ halive => ?_,
    haccounted.ended, haccounted.noneLost⟩
  by_cases ht : t = event.tid
  · subst ht
    cases hstop : event.status.isStop with
    | true => exact hflag hstop
    | false =>
        rw [hstatus, hstop] at halive
        simp at halive
  · exact haccounted.flags t ht halive

/-- The `SIGSTOP` that was owed to a tracked thread arrived. -/
theorem Roster.Unsettled.update (h : m.roster.Unsettled event)
    (hsigstop : event.status.stopSignal = some sigstop) :
    (updateThread event.tid (fun t => { t with pendingSigstop := false }) m).2.roster.Accounted
      fun _ => False := by
  have howed := (h.received hsigstop).1
  refine h.accounted.update (fun _ ht => ht) (fun _ _ _ => howed.symm) (fun _ _ => howed)
    fun thread hthread hstate => ?_
  exact h.accounted.ended event.tid thread.record (by simp [Machine.roster, hthread]) hstate

/-- A thread that is seen for the first time has no `SIGSTOP` to come. -/
theorem Roster.Accounted.track {reason : StopReason} (h : m.roster.Accounted fun _ => False)
    (hnew : m.thread? reason.tid = none) : (m.track reason).roster.Accounted fun _ => False := by
  refine ⟨h.attached, Machine.tids_track h.distinct hnew, h.answers, fun t _ halive => ?_,
    fun t record hrecord hstate => ?_, h.noneLost⟩
  · have hflag := h.flags t not_false halive
    rw [Roster.pending_eq] at hflag ⊢
    change _ = owed t m.roster.events
    by_cases ht : t = reason.tid
    · subst ht
      rw [← hflag, Machine.thread?_track hnew, hnew]
      rfl
    · rw [← hflag, m.thread?_track_of_ne ht]
  · by_cases ht : t = reason.tid
    · subst ht
      simp only [Machine.roster, Machine.thread?_track hnew] at hrecord
      cases hrecord
      simp [newThread, ThreadState.record] at hstate
    · simp only [Machine.roster, m.thread?_track_of_ne ht] at hrecord
      exact h.ended t record hrecord hstate

/-- Decoding changes the signal of a stop only to `SIGTRAP`. -/
theorem decodeSignal_info {handlers : HitHandlers} {reason final : StopReason}
    {isMainStop : Bool} (h : decodeSignal handlers reason isMainStop m = (.ok (some final), m')) :
    final.info = reason.info ∨ final.info = sigtrap := by
  obtain ⟨m₁, m₂, haugment⟩ := decodeSignal_augmented h
  rcases augmentStopReason_cases reason m₁ with ⟨e, h⟩ | ⟨info, -, -, h⟩ | ⟨-, h⟩ <;>
    rw [h] at haugment <;> cases haugment
  · exact .inr rfl
  · exact .inl rfl

theorem ofWait_info_sigstop {tid : Tid} {status : WaitStatus} (hstop : status.isStop = true) :
    (StopReason.ofWait tid status).info = sigstop ↔ status.stopSignal = some sigstop := by
  cases status <;> simp_all [StopReason.ofWait, WaitStatus.stopSignal, WaitStatus.isStop]

/-- A stop that is decoded is no `SIGSTOP`. -/
theorem Roster.Unsettled.not_sigstop (h : m.roster.Unsettled event) {thread : ThreadState}
    (hthread : m.thread? event.tid = some thread)
    (hnot : ¬ (thread.pendingSigstop = true ∧
      (StopReason.ofWait event.tid event.status).info = sigstop))
    (hstop : event.status.isStop = true) : event.status.stopSignal ≠ some sigstop := by
  intro hsigstop
  have hpending := (h.received hsigstop).2 (by simp [Machine.roster, hthread])
  rw [Roster.pending_eq, hthread] at hpending
  exact hnot ⟨hpending, (ofWait_info_sigstop hstop).mpr hsigstop⟩

/-- Handling a signal in `wait_on_signal` closes the account of its thread. -/
theorem handleSignal_accounts (handlers : HitHandlers) (event : WaitEvent) :
    Triple (Arriving event) (handleSignal handlers (.ofWait event.tid event.status) true)
      (sigstopAssertions.decided event) (fun _ => AccountedFor event) := by
  intro m hm
  have hgone : ∀ m', Arriving event m' → Fair m'.roster.events → event.status.isStop = false →
      m'.roster.status event.tid = .absent := by
    intro m' hm' hfair hexit
    rw [(hm' hfair).status, hexit]
    rfl
  rcases handleSignal_cases handlers (.ofWait event.tid event.status) true m with
    ⟨hclone, -, h⟩ | ⟨hexit, h⟩ | ⟨hstop, hnew, -, h⟩ |
      ⟨thread, hstop, hthread, hpending, hinfo, h⟩ |
      ⟨thread, hstop, hthread, hnot, h⟩ | ⟨-, -, hmain, -⟩
  · refine Triple.of_eq_ok h fun hfair => (hm hfair).settle fun hstop => (hm hfair).other ?_ hstop
    rw [(ofWait_clone_iff _ _).mp hclone]
    decide
  · have hended : Fair m.roster.events → event.status.isStop = false := by
      intro hfair
      cases hstop : event.status.isStop with
      | false => rfl
      | true =>
          exact absurd ⟨(hm hfair).accounted.attached, (ofWait_stopped_iff _ _).mpr hstop⟩ hexit
    refine Triple.of_eq_ok h ⟨fun hfair => ⟨(hm hfair).settle fun hstop => ?_, hgone m hm hfair⟩,
      rfl, fun hfair hstop => ?_⟩
    · rw [hended hfair] at hstop
      cases hstop
    · rw [(ofWait_stopped_iff _ _).mp hstop] at hended
      cases hended hfair
  · rw [StopReason.ofWait_tid] at hnew
    refine Triple.of_eq_ok h fun hfair => Roster.Accounted.track ?_ (by rwa [StopReason.ofWait_tid])
    have hm' := hm hfair
    refine hm'.settle fun hstop => ?_
    by_cases hsigstop : event.status.stopSignal = some sigstop
    · rw [(hm'.received hsigstop).1, Roster.pending_eq, hnew]
      rfl
    · exact hm'.other hsigstop hstop
  · rw [StopReason.ofWait_tid] at h
    refine Triple.of_eq_ok h fun hfair => (hm hfair).update ?_
    exact (ofWait_info_sigstop ((ofWait_stopped_iff _ _).mp hstop)).mp hinfo
  · rw [StopReason.ofWait_tid] at hthread
    have hstop' := (ofWait_stopped_iff _ _).mp hstop
    have hroster := decodeSignal_roster handlers (StopReason.ofWait_syscallInfo event.tid
      event.status) true m
    have hsettled : AccountedFor event m := fun hfair =>
      ⟨(hm hfair).settle fun hstop => (hm hfair).other
        ((hm hfair).not_sigstop hthread hnot hstop) hstop, hgone m hm hfair⟩
    rw [h]
    refine ⟨fun final m' heq => ?_, fun e m' heq => ?_⟩ <;> rw [heq] at hroster
    · cases final with
      | none => exact fun hfair => (hsettled.of_roster hroster hfair).1
      | some final =>
          refine ⟨hsettled.of_roster hroster, decodeSignal_reason heq, fun hfair _ hinfo => ?_⟩
          have hfair' : Fair m.roster.events := by rwa [← (hroster : m'.roster = m.roster)]
          rcases decodeSignal_info heq with hsame | htrap
          · exact (hm hfair').not_sigstop hthread hnot hstop'
              ((ofWait_info_sigstop hstop').mp (hsame ▸ hinfo))
          · rw [htrap] at hinfo
            exact absurd hinfo (by decide)
    · exact hsettled.of_roster hroster
  · cases hmain

theorem noteReason_accounts (event : WaitEvent) {reason : StopReason}
    (hreason : reason.reason = (StopReason.ofWait event.tid event.status).reason) :
    Triple (AccountedFor event) (noteReason event.tid reason) (fun _ => Accounts)
      sigstopAssertions.thrown := by
  refine updateThread_triple fun m hm hfair => ?_
  obtain ⟨haccounted, hgone⟩ := hm hfair
  refine haccounted.keepFlag (fun _ => rfl) fun thread _ hstate => ⟨hgone ?_, rfl⟩
  rw [hreason] at hstate
  cases hstop : event.status.isStop with
  | false => rfl
  | true => simp [(ofWait_stopped_iff event.tid event.status).mpr hstop] at hstate

/-- A tracked thread was sent a `SIGSTOP`, now or before. -/
def SigstopSent (tid : Tid) (m : Machine) : Prop :=
  (m.thread? tid).isSome = true ∧ (Fair m.roster.events → m.roster.Accounted (· = tid) ∧
    (m.roster.status tid ≠ .absent → owed tid m.roster.events = true))

theorem noteSigstop_sent (tid : Tid) (thread : ThreadState) :
    Triple (fun m => Accounts m ∧ m.thread? tid = some thread) (noteSigstop tid thread)
      (fun _ => SigstopSent tid) sigstopAssertions.thrown := by
  refine Triple.ite (fun hpending => Triple.pure fun m hm => ?_) fun _ =>
    Triple.modify fun m hm => ?_
  · refine ⟨by rw [hm.2]; rfl, fun hfair => ?_⟩
    have haccounted := hm.1 hfair
    refine ⟨⟨haccounted.attached, haccounted.distinct, haccounted.answers,
      fun t _ => haccounted.flags t not_false,
      haccounted.ended, haccounted.noneLost⟩, fun halive => ?_⟩
    rw [← haccounted.flags tid not_false halive, Roster.pending_eq, hm.2]
    exact hpending
  · refine ⟨congrArg Option.isSome hm.2, fun hfair => ?_⟩
    have haccounted := hm.1 hfair
    refine ⟨⟨haccounted.attached, haccounted.distinct, haccounted.answers, fun t ht halive => ?_,
      haccounted.ended, haccounted.noneLost⟩, fun _ => if_pos rfl⟩
    change m.roster.pending t = if tid = t then true else owed t m.roster.events
    rw [if_neg (Ne.symm ht)]
    exact haccounted.flags t not_false halive

/-- A thread that was sent a `SIGSTOP` changed its state, by it or before it. -/
def Halted (event : WaitEvent) (m : Machine) : Prop :=
  (m.thread? event.tid).isSome = true ∧ (Fair m.roster.events →
    m.roster.Accounted (· = event.tid) ∧
    (m.roster.status event.tid = if event.status.isStop then .stopped else .absent) ∧
    (event.status.isStop = true →
      owed event.tid m.roster.events = decide (event.status.stopSignal ≠ some sigstop)))

theorem waitpid_halted (tid : Tid) :
    Triple (SigstopSent tid) (waitpid .stopRunningThreads (some tid))
      (fun answer m => match answer with
        | some event => event.tid = tid ∧ Halted event m
        | none => Fair m.roster.events → NoneLost m.roster.events)
      sigstopAssertions.thrown := by
  rintro m ⟨htracked, hm⟩
  rcases waitpid_cases .stopRunningThreads (some tid) m with
    h | ⟨rest, hscript, h⟩ | ⟨event, rest, hmay, hscript, h⟩
  · exact Triple.of_eq_error h (thrown_schedule fun hfair => (hm hfair).1)
  · exact Triple.of_eq_ok h fun hfair => (hm hfair).1.noneLost
  · have htid := Machine.mayReport_some hmay
    subst htid
    have hpresent := Machine.present_of_mayReport hmay
    refine Triple.of_eq_ok h ⟨rfl, htracked, fun hfair => ?_⟩
    obtain ⟨hold, howed⟩ := hm hfair.earlier
    refine ⟨hold.deliver (fun _ ht => ht) hpresent hscript trivial, ?_, fun hstop => ?_⟩
    · change ((m.deliver .stopRunningThreads event).kernel.threads event.tid).status = _
      rw [status_deliver, if_pos rfl]
    · change owed event.tid (m.deliver .stopRunningThreads event).roster.events = _
      rw [owed_deliver, howed hpresent]
      by_cases hsigstop : event.status.stopSignal = some sigstop <;> simp [hsigstop]

/-- The flag of a thread that was brought to a stop is set right. -/
def Flagged (event : WaitEvent) (m : Machine) : Prop :=
  AccountedFor event m ∧ ∃ thread, m.thread? event.tid = some thread ∧
    (event.status.isStop = true → ¬ (thread.pendingSigstop = true ∧
      (StopReason.ofWait event.tid event.status).info = sigstop))

theorem notePendingSigstop_flagged (event : WaitEvent) :
    Triple (Halted event) (notePendingSigstop event.tid (.ofWait event.tid event.status))
      (fun _ => Flagged event) sigstopAssertions.thrown := by
  refine Triple.ite (fun hstop => updateThread_triple fun m hm => ?_) fun hexit =>
    Triple.pure fun m hm => ?_
  · have hstop' := (ofWait_stopped_iff _ _).mp hstop
    obtain ⟨thread, hthread⟩ := Option.isSome_iff_exists.mp hm.1
    refine ⟨fun hfair => ⟨?_, fun hexit => ?_⟩, _,
      by rw [Machine.thread?_updateThread, hthread]; rfl,
      fun _ hboth => ?_⟩
    · obtain ⟨haccounted, -, howed⟩ := hm.2 hfair
      refine haccounted.update (fun _ ht => ht) (fun thread _ _ => ?_) (fun hnone => ?_)
        fun thread hthread hstate => ?_
      · rw [howed hstop']
        exact decide_eq_decide.mpr (not_congr (ofWait_info_sigstop hstop'))
      · rw [hthread] at hnone
        cases hnone
      · exact haccounted.ended event.tid thread.record (by simp [Machine.roster, hthread]) hstate
    · rw [hstop'] at hexit
      cases hexit
    · simp [hboth.2] at hboth
  · obtain ⟨thread, hthread⟩ := Option.isSome_iff_exists.mp hm.1
    have hended : event.status.isStop = false := by
      cases hstop : event.status.isStop with
      | false => rfl
      | true => exact absurd ((ofWait_stopped_iff _ _).mpr hstop) hexit
    refine ⟨fun hfair => ?_, thread, hthread, fun hstop => by simp [hended] at hstop⟩
    obtain ⟨haccounted, hstatus, -⟩ := hm.2 hfair
    rw [hended] at hstatus
    refine ⟨⟨haccounted.attached, haccounted.distinct, haccounted.answers, fun t _ halive => ?_,
      haccounted.ended, haccounted.noneLost⟩, fun _ => hstatus⟩
    by_cases ht : t = event.tid
    · subst ht
      exact absurd hstatus halive
    · exact haccounted.flags t ht halive

theorem recordStop_accounts (handlers : HitHandlers) (event : WaitEvent) :
    Triple (Flagged event) (recordStop handlers event.tid (.ofWait event.tid event.status))
      (fun _ => Accounts) sigstopAssertions.thrown := by
  refine Triple.bind (Q := fun handled m => AccountedFor event m ∧ ∀ final, handled = some final →
    final.reason = (StopReason.ofWait event.tid event.status).reason) (fun m hm => ?_)
    fun handled => ?_
  · obtain ⟨hsettled, known, hknown, hnot⟩ := hm
    rcases handleSignal_cases handlers (.ofWait event.tid event.status) false m with
      ⟨-, hmain, -⟩ | ⟨-, h⟩ | ⟨-, -, hmain, -⟩ | ⟨thread, hstop, hthread, hpending, hinfo, -⟩ |
        ⟨thread, -, -, -, h⟩ | ⟨-, hthread, -, -⟩
    · cases hmain
    · refine Triple.of_eq_ok h ⟨hsettled, ?_⟩
      rintro _ ⟨rfl⟩
      rfl
    · cases hmain
    · rw [StopReason.ofWait_tid, hknown] at hthread
      cases hthread
      exact absurd ⟨hpending, hinfo⟩ (hnot ((ofWait_stopped_iff _ _).mp hstop))
    · have hroster := decodeSignal_roster handlers (StopReason.ofWait_syscallInfo event.tid
        event.status) false m
      rw [h]
      refine ⟨fun final m' heq => ?_, fun e m' heq => ?_⟩ <;> rw [heq] at hroster
      · refine ⟨hsettled.of_roster hroster, ?_⟩
        rintro final rfl
        exact decodeSignal_reason heq
      · exact Accounts.thrown (fun hfair => (hsettled.of_roster hroster hfair).1) e
    · rw [StopReason.ofWait_tid, hknown] at hthread
      cases hthread
  · cases handled with
    | none => exact (noteReason_accounts event rfl).pre fun _ hm => hm.1
    | some final =>
        refine Triple.of_forall fun m hm => ?_
        exact (noteReason_accounts event (hm.2 final rfl)).pre fun s hs => hs ▸ hm.1

theorem stopThread_accounts (handlers : HitHandlers) (tid : Tid) :
    Triple Accounts (stopThread handlers tid) (fun _ => Accounts) sigstopAssertions.thrown := by
  refine Triple.bind (threadAt_triple fun m hm _ => hm.thrown _) fun thread => ?_
  refine Triple.ite (fun _ => ?_) fun _ => Triple.pure fun _ hm => hm.1
  refine Triple.bind (noteSigstop_sent tid thread) fun _ =>
    Triple.bind (waitpid_halted tid) fun answer => ?_
  cases answer with
  | none => exact Triple.throw fun _ hm => ⟨fun hexception => (by cases hexception), hm⟩
  | some event =>
      refine Triple.of_forall fun m hm => ?_
      obtain ⟨rfl, hhalted⟩ := hm
      refine Triple.bind ((notePendingSigstop_flagged event).pre fun s hs => ?_) fun _ =>
        recordStop_accounts handlers event
      exact hs ▸ hhalted

/-- The threads that are forgotten are gone. -/
theorem Roster.Accounted.cleanup (h : m.roster.Accounted fun _ => False) (tid : Tid) :
    (m.cleanup tid).roster.Accounted fun _ => False := by
  have hthread := Machine.thread?_cleanup h.distinct tid
  refine ⟨h.attached, ?_, h.answers, fun t _ halive => ?_, fun t record hrecord hstate => ?_,
    h.noneLost⟩
  · exact h.distinct.sublist (List.filter_sublist.map _)
  · rw [Roster.pending_eq, hthread]
    change _ = owed t m.roster.events
    rw [← h.flags t not_false halive, Roster.pending_eq]
    cases hold : m.thread? t with
    | none => rfl
    | some thread =>
        have hkept : isCleanedUp tid (t, thread) = false := by
          cases hcleaned : isCleanedUp tid (t, thread) with
          | false => rfl
          | true =>
              simp only [isCleanedUp, decide_eq_true_eq] at hcleaned
              exact absurd (h.ended t thread.record (by simp [Machine.roster, hold]) hcleaned.2).1
                halive
        simp [Option.filter, hkept]
  · obtain ⟨thread, hfound, rfl⟩ := Option.map_eq_some_iff.mp hrecord
    have hold : m.thread? t = some thread := by
      rw [hthread] at hfound
      exact (Option.filter_eq_some_iff.mp hfound).1
    exact h.ended t thread.record (by simp [Machine.roster, hold]) hstate

theorem Accounts.lifecycle (h : Accounts m) (reason : StopReason) :
    Accounts (m.observe (.lifecycle reason)) := by
  intro hfair
  have hm := h hfair
  exact ⟨hm.attached, hm.distinct, hm.answers, hm.flags, hm.ended, hm.noneLost⟩

theorem Accounts.reports (h : Accounts m) (reasons : List StopReason) :
    Accounts { m with trace := reasons.map Observation.lifecycle ++ m.trace } := by
  induction reasons with
  | nil => exact h
  | cons reason reasons ih => exact ih.lifecycle reason

/-- The reasons of the threads that are forgotten are no stops. -/
theorem Roster.Accounted.gone (h : m.roster.Accounted fun _ => False) {tid : Tid}
    {entry : Tid × ThreadState} (hentry : entry ∈ m.process.gone tid) :
    entry.2.reason.reason ≠ .stopped := by
  obtain ⟨hmem, hcleaned⟩ := List.mem_filter.mp hentry
  simp only [isCleanedUp, decide_eq_true_eq] at hcleaned
  have hthread := Machine.thread?_of_mem h.distinct hmem
  have hreason := (h.ended entry.1 entry.2.record (by simp [Machine.roster, hthread])
    hcleaned.2).2
  change entry.2.reason.reason = entry.2.state at hreason
  rw [hreason]
  rcases hcleaned.2 with hstate | hstate <;> simp [hstate]

theorem cleanupExitedThreads_accounts (tid : Tid) {reason : StopReason} {m₀ : Machine}
    (hreason : Fair m₀.roster.events → reason.reason = .stopped → reason.info ≠ sigstop) :
    Triple (fun m => Accounts m ∧ Remembers m₀ m) (cleanupExitedThreads tid)
      (fun exited => sigstopAssertions.returned (exited.getD reason)) sigstopAssertions.thrown := by
  rintro m ⟨hm, hgrows⟩
  have hreports := hm.reports ((m.process.gone tid).map (·.2.reason)).reverse
  rw [← Machine.reportsGone_eq] at hreports
  have hgrows' : Remembers m (({ m with trace := m.reportsGone tid ++ m.trace } :
      Machine).cleanup tid) := List.suffix_append _ _
  refine Triple.of_eq_ok (cleanupExitedThreads_apply tid m)
    ⟨fun hfair => (hreports hfair).cleanup tid, fun hfair => ?_⟩
  have hfair' := hfair.of_remembers hgrows'
  cases hfind : (m.process.gone tid).find? fun entry => entry.1 = m.process.pid with
  | none => exact hreason (hfair'.of_remembers hgrows)
  | some entry =>
      intro hstopped
      exact absurd hstopped ((hm hfair').gone (List.mem_of_find?_eq_some hfind))

/-- Whatever the order of the events, the accounts are in order between two
commands. -/
theorem sigstopRules (handlers : HitHandlers) : StopRules handlers sigstopAssertions where
  raised := fun e _ hm => hm.thrown e
  sample := fun tid => keeps_accounts (samplePc_roster tid)
  lift := fun tid bp pc => (keeps_accounts (liftSite_roster tid bp pc)).pre fun _ hm => hm.1
  relay := fun bp pc => keeps_accounts (relaySite_roster bp pc)
  swallow := swallowPendingSigstop_accounts
  step := ptraceRun_nothingOwed
  stepped := waitpid_stepped
  goOn := sendContinue_accounts
  wait := waitpid_accounts
  waitStepped := fun tid => (waitpid_accounts (some tid)).pre fun _ hm hfair => (hm hfair).1
  signal := fun event => (handleSignal_accounts handlers event).mono (fun _ hm => hm)
    (fun _ _ hm => hm) fun e m hm => by
      unfold Assertions.escaped
      split
      · exact hm
      · exact Accounts.thrown (fun hfair => (hm hfair).1) e
  caught := fun event => noteReason_accounts event rfl
  untracked := fun _ _ e _ hm _ => Accounts.thrown (fun hfair => (hm.1 hfair).1) e
  stopped := fun event reason _ => Triple.of_forall fun m hm =>
    (noteReason_accounts event hm.1.2.1).pre fun s hs => hs ▸ hm.1.1
  exited := fun event reason _ => Triple.of_forall fun m hm =>
    (noteReason_accounts event hm.1.2.1).mono (fun s hs => hs ▸ hm.1.1)
      (fun _ _ hm => hm.lifecycle reason) fun _ _ hm => hm
  stopThread := stopThread_accounts handlers
  cleanup := fun event _ _ hm _ => (cleanupExitedThreads_accounts event.tid hm.2.2).pre
    fun _ hs => ⟨hs.1, hs.2.remembers⟩
  ended := fun reason m hended hm => ⟨hm, fun _ hstopped => by simp [hstopped] at hended⟩
  process := fun _ _ _ hm => hm.of_roster rfl
  answer := fun _ _ _ hm => hm
  reenabled := fun reason bp pc => by
    refine (Triple.of_respects (P := sigstopAssertions.returned reason) fun m hm => ?_).mono
      (fun _ hm => hm) (fun _ _ hm => hm) fun e _ hm => hm.1.thrown e
    have hroster := relaySite_roster bp pc m
    refine ⟨hm.1.of_roster hroster, fun hfair => hm.2 ?_⟩
    rwa [← (hroster : (relaySite bp pc m).2.roster = m.roster)]
  dangling := fun _ e _ hm => hm.1.thrown e
  settled := fun _ _ hm => hm.1

theorem command_accounts (handlers : HitHandlers) (c : Command) :
    Triple Accounts (c.run handlers) sigstopAssertions.finished sigstopAssertions.thrown :=
  (sigstopRules handlers).command
    (fun _ => keeps_accounts (siteFrame_roster.run (.inl rfl)))
    (fun op => keeps_accounts (watchpointFrame_roster.run op))
    (fun _ _ _ _ hm => hm.of_roster rfl) c

end Steps

/-- An attached process with live threads to which no `SIGSTOP` was sent yet. -/
structure NoneSent (m : Machine) : Prop where
  attached : m.process.isAttached = true
  distinct : (m.process.threads.map (·.1)).Nodup
  fresh : m.trace = []
  entries : ∀ t thread, m.thread? t = some thread → thread.pendingSigstop = false ∧
    ¬ (thread.state = .exited ∨ thread.state = .terminated)

/-- The outcome of a command.  The flag of every live thread tells whether a
`SIGSTOP` is still owed to it, no `SIGSTOP` is reported, and no stop was lost. -/
structure SigstopsAccounted (r : Except Failure (Option StopReason)) (m : Machine) : Prop where
  flags : GoesOn r → ∀ t thread, m.thread? t = some thread →
    (m.kernel.threads t).status ≠ .absent →
    (thread.pendingSigstop = true ↔ owed t m.roster.events = true)
  unreported : ∀ reason, r = .ok (some reason) → reason.reason = .stopped →
    reason.info ≠ sigstop
  noneLost : NoneLost m.roster.events

theorem NoneSent.accounts {m : Machine} (h : NoneSent m) (hanswers : Answers m) : Accounts m := by
  intro _
  have hevents : m.roster.events = [] := by simp [Machine.roster, h.fresh]
  refine ⟨h.attached, h.distinct, hanswers, fun t _ _ => ?_, fun t record hrecord hstate => ?_, ?_⟩
  · rw [hevents, Roster.pending_eq]
    cases hthread : m.thread? t with
    | none => rfl
    | some thread => exact (h.entries t thread hthread).1
  · obtain ⟨thread, hthread, rfl⟩ := Option.map_eq_some_iff.mp hrecord
    exact absurd hstate (h.entries t thread hthread).2
  · rw [hevents]
    exact fun p hp => by cases hp

theorem Run.accounts {handlers : HitHandlers} {start m : Machine} (hrun : Run handlers start m)
    (hstart : NoneSent start) (hanswers : Answers start) : Accounts m :=
  (sigstopRules handlers).run hrun (command_accounts handlers)
    (fun _ _ hexception hm => hm.1 hexception) (hstart.accounts hanswers)

/-- In every run in which the kernel answers every wait, tracked threads receive
only the `SIGSTOP`s they were sent, and a wait whose status is not looked at
receives what it is for, all `SIGSTOP`s are accounted for after every command. -/
theorem sigstops_accounted {handlers : HitHandlers} {start m m' : Machine} {c : Command}
    {r : Except Failure (Option StopReason)} (hstart : NoneSent start) (hanswers : Answers start)
    (hrun : Run handlers start m) (hcommand : c.run handlers m = (r, m'))
    (hsent : OnlySent m'.roster.events) (hforeseen : Foreseen m'.roster.events) :
    SigstopsAccounted r m' := by
  have hfair : Fair m'.roster.events := ⟨hsent, hforeseen⟩
  obtain ⟨hok, herror⟩ := command_accounts handlers c m (hrun.accounts hstart hanswers)
  have hflags : Accounts m' → ∀ t thread, m'.thread? t = some thread →
      (m'.kernel.threads t).status ≠ .absent →
      (thread.pendingSigstop = true ↔ owed t m'.roster.events = true) := by
    intro hm t thread hthread halive
    rw [← (hm hfair).flags t not_false halive, Roster.pending_eq, hthread]
    rfl
  cases r with
  | ok answer =>
      have hfinished := hok answer m' hcommand
      have hrest : Accounts m' := (sigstopRules handlers).rest_of_finished hfinished
      refine ⟨fun _ => hflags hrest, ?_, (hrest hfair).noneLost⟩
      rintro reason ⟨rfl⟩
      exact hfinished.2 hfair
  | error e =>
      obtain ⟨hrest, hnone⟩ := herror e m' hcommand
      exact ⟨fun hexception => hflags (hrest hexception), fun _ h => (by cases h), hnone hfair⟩

namespace SigstopWitness

open Scenario

/-- Handlers that let the thread go on. -/
def passing : HitHandlers := ⟨fun _ _ => ([], .ok true)⟩

/-- Two threads, and a site that the second one reaches while the first one is
interrupted; the second thread is then resumed and receives a signal. -/
def machine (sig : Byte) : Machine :=
  (Scenario.machine [1, 2] [stop 1 2 .other 0x1000, stop 2 sigtrap .siKernel 0x2001,
    stop 2 sig .other 0x2000, stop 2 sigtrap .trapTrace 0x2001]).setProcess fun p =>
    { p with breakpointSites := [⟨none, 0, 0x2000, true, 0, false, false, -1⟩] }

theorem machine_noneSent (sig : Byte) : NoneSent (machine sig) := by
  refine ⟨rfl, by simp [machine, Scenario.machine, Machine.setProcess], rfl,
    fun t thread hthread => ?_⟩
  have hnew : thread = newThread := Scenario.machine_thread? [1, 2]
    [stop 1 2 .other 0x1000, stop 2 sigtrap .siKernel 0x2001, stop 2 sig .other 0x2000,
      stop 2 sigtrap .trapTrace 0x2001] hthread
  subst hnew
  exact ⟨rfl, by decide⟩

theorem machine_answers (sig : Byte) : Answers (machine sig) := by
  simp [Answers, machine, Scenario.machine, Machine.setProcess, stop]

/-- The second thread was stopped by the site, with a `SIGSTOP` to come. -/
def interrupted (sig : Byte) : Machine :=
  after passing (.waitOnSignal none) (after passing .resumeAllThreads (machine sig))

theorem run_sigstop : Run passing (machine sigstop) (interrupted sigstop) :=
  run_after (.waitOnSignal none) (run_after .resumeAllThreads .start (by decide +kernel))
    (by decide +kernel)

theorem run_sigusr1 : Run passing (machine 10) (interrupted 10) :=
  run_after (.waitOnSignal none) (run_after .resumeAllThreads .start (by decide +kernel))
    (by decide +kernel)

/-- What is noted about the second thread, and what is owed to it. -/
def account (m : Machine) : Option Bool × Bool :=
  ((m.thread? 2).map (·.pendingSigstop), owed 2 m.roster.events)

/-- The `SIGSTOP` comes first. -/
theorem sigstops_accounted_swallowed :
    account (interrupted sigstop) = (some true, true) ∧
      account (after passing (.resume (some 2)) (interrupted sigstop)) = (some false, false) ∧
      SigstopsAccounted ((Command.resume (some 2)).run passing (interrupted sigstop)).1
        (after passing (.resume (some 2)) (interrupted sigstop)) :=
  ⟨by decide +kernel, by decide +kernel,
    sigstops_accounted (machine_noneSent sigstop) (machine_answers sigstop) run_sigstop
      (command_after _ _ _) (by decide +kernel) (by decide +kernel)⟩

/-- A `SIGUSR1` comes first.  It is swallowed in place of the `SIGSTOP`, which is
forgotten. -/
theorem sigstops_not_accounted :
    ¬ ∀ (handlers : HitHandlers) (start m m' : Machine) (c : Command)
      (r : Except Failure (Option StopReason)), NoneSent start → Answers start →
      Run handlers start m → c.run handlers m = (r, m') → OnlySent m'.roster.events →
      SigstopsAccounted r m' := by
  intro hall
  have haccounted := hall passing _ (interrupted 10) _ (.resume (some 2)) _ (machine_noneSent 10)
    (machine_answers 10) run_sigusr1 (command_after _ _ _) (by decide +kernel)
  have haccount : account (after passing (.resume (some 2)) (interrupted 10)) =
      (some false, true) := by
    decide +kernel
  obtain ⟨hpending, howed⟩ := Prod.mk.inj haccount
  obtain ⟨thread, hthread, hflag⟩ := Option.map_eq_some_iff.mp hpending
  have halive : ((after passing (.resume (some 2)) (interrupted 10)).kernel.threads 2).status ≠
      .absent := by
    decide +kernel
  have hright := haccounted.flags (by decide +kernel) 2 thread hthread halive
  rw [hflag] at hright
  exact absurd (hright.mpr howed) (by decide)

end SigstopWitness

end Gsdb
