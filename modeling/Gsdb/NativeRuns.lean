/-
Runs of the debugger over an inferior with one thread are runs of the inferior: commands resume
the thread, wait for it, step it and operate on stoppoints, and it stays where its own
instructions led.
-/
import Gsdb.NativeSteps

namespace Gsdb

open ByteMemory Effects Eff Debugger PatchedExecution

namespace Inferior

/-- A property of the machine, as long as the debugger can rely on its surroundings. -/
def Assuming (inferior : Inferior) (P : Machine → Prop) (m : Machine) : Prop :=
  inferior.Assumed m → P m

/-- Between two steps. -/
def Rest (inferior : Inferior) : Machine → Prop := inferior.Assuming inferior.Sound

/-- The only report since these observations is that of the single step that was asked for. -/
def Stepped (inferior : Inferior) (events : List Observation) (m : Machine) : Prop :=
  (requests inferior.tid events).head? = some .singleStep ∧ ∃ d,
    deliveries m.roster.events = (d, events) :: deliveries events ∧ d.status.IsTrace d.siCode

/-- The first report since these observations. -/
structure Received (inferior : Inferior) (events : List Observation) (event : WaitEvent)
    (m : Machine) : Prop extends inferior.Due event m where
  waited : collected inferior.tid m.roster.events = true
  stepped : event.status.IsTrace event.siCode → inferior.Stepped events m

/-- Nothing was reported since. -/
def Since (inferior : Inferior) (reports : List (Delivery × List Observation)) (m : Machine) :
    Prop :=
  inferior.Sound m ∧ deliveries m.roster.events = reports

/-- What a wait answered that began with these observations. -/
def Answer (inferior : Inferior) (events : List Observation) : Option WaitEvent → Machine → Prop
  | none => inferior.Rest
  | some event => inferior.Assuming (inferior.Received events event)

/-- The outcome of a wait that began with these observations, as far as its reason tells. -/
structure Reports (inferior : Inferior) (events : List Observation) (reason : StopReason)
    (m : Machine) : Prop extends inferior.Sound m where
  tid : reason.tid = inferior.tid
  final : reason.reason ≠ .running
  stopped : reason.reason = .stopped → m.isStopped inferior.tid = true
  gone : reason.reason ≠ .stopped → (m.kernel.threads inferior.tid).status = .absent
  waited : collected inferior.tid m.roster.events = true
  stepped : reason.isStep = true → inferior.Stepped events m

/-- A thread that was stepped off an armed site, if it stood at one. -/
structure Clear (inferior : Inferior) (m : Machine) : Prop extends inferior.Sound m where
  uncovered : (m.kernel.threads inferior.tid).status ≠ .absent →
    ¬ Covers m.process.breakpointSites (User.pc (m.kernel.threads inferior.tid).user)

/-- A thread that was let run for a single step from where no site is armed. -/
structure Stepping (inferior : Inferior) (m : Machine) : Prop extends inferior.Clear m where
  request : (requests inferior.tid m.roster.events).head? = some .singleStep

/-- A thread of which the debugger knows. -/
structure Known (inferior : Inferior) (tid : Tid) (m : Machine) : Prop
    extends inferior.Sound m where
  tid : tid = inferior.tid

/-- A thread whose stop was noted, so that none is left to stop. -/
structure Idle (inferior : Inferior) (handlers : HitHandlers) (tid : Tid) (m : Machine) : Prop
    extends inferior.Known tid m where
  idle : Debugger.stopRunningThreads handlers m = (.ok ⟨⟩, m)

section Steps

variable {inferior : Inferior} {handlers : HitHandlers}

/-- From what the step does where the debugger can rely on its surroundings. -/
theorem triple_assuming {α : Type} {x : Debugger α} {P : Machine → Prop}
    {Q : α → Machine → Prop} (hremembers : Respects Remembers x)
    (h : ∀ m, P m → inferior.Assumed m → inferior.Assumed (x m).2 →
      (∀ a m', x m = (.ok a, m') → Q a m') ∧ ∀ e m', x m = (.error e, m') → inferior.Sound m') :
    Triple (inferior.Assuming P) x (fun a => inferior.Assuming (Q a)) (fun _ => inferior.Rest) := by
  intro m hm
  have hbefore : ∀ {r m'}, x m = (r, m') → inferior.Assumed m' →
      (∀ a m', x m = (.ok a, m') → Q a m') ∧ ∀ e m', x m = (.error e, m') → inferior.Sound m' := by
    intro r m' heq hassumed
    have hassumed' := hassumed.of_remembers (hremembers.apply_eq heq)
    exact h m (hm hassumed') hassumed' (by rwa [heq])
  exact ⟨fun a m' heq hassumed => (hbefore heq hassumed).1 a m' heq,
    fun e m' heq hassumed => (hbefore heq hassumed).2 e m' heq⟩

/-- What leaves the thread alone. -/
theorem rest_of_inert {α : Type} {x : Debugger α} (hremembers : Respects Remembers x)
    (hinert : Respects (Inert inferior.tid) x) :
    Triple inferior.Rest x (fun _ => inferior.Rest) (fun _ => inferior.Rest) :=
  Triple.of_respects fun m hm hassumed =>
    (hm (hassumed.of_remembers (hremembers m))).of_inert (hinert m)

theorem Reports.of_inert {events : List Observation} {reason : StopReason} {m m' : Machine}
    (h : inferior.Reports events reason m) (hsame : Inert inferior.tid m m')
    (hstatus : (m'.kernel.threads inferior.tid).status = (m.kernel.threads inferior.tid).status)
    (hcollected : collected inferior.tid m'.roster.events =
      collected inferior.tid m.roster.events) : inferior.Reports events reason m' where
  toSound := h.toSound.of_inert hsame
  tid := h.tid
  final := h.final
  stopped := fun hreason => by
    rw [Machine.isStopped, hstatus]
    exact h.stopped hreason
  gone := fun hreason => hstatus.trans (h.gone hreason)
  waited := hcollected.trans h.waited
  stepped := fun hstep => by
    obtain ⟨hrequest, d, hdelivered, htrace⟩ := h.stepped hstep
    exact ⟨hrequest, d, hsame.delivered.trans hdelivered, htrace⟩

/-- What a report that is passed on says. -/
theorem Received.reports {events : List Observation} {event : WaitEvent} {reason : StopReason}
    {m m' : Machine} (h : inferior.Received events event m) (hsound : inferior.Sound m')
    (hrun : Debugger.handleSignal handlers (.ofWait event.tid event.status) true m =
      (.ok (some reason), m')) : inferior.Reports events reason m' := by
  have hplain : (StopReason.ofWait event.tid event.status).trapReason ≠ some .singleStep := by
    cases event.status <;> rw [StopReason.ofWait] <;> split <;> simp
  obtain ⟨hroster, htid, hstep⟩ := handleSignal_step (StopReason.ofWait_syscallInfo _ _) hplain hrun
  have hreason := handleSignal_reason hrun
  have hstatus : (m'.kernel.threads inferior.tid).status =
      if event.status.isStop then .stopped else .absent := by
    refine (congrFun (congrArg Roster.status hroster) inferior.tid).trans ?_
    change (m.kernel.threads inferior.tid).status = _
    rw [h.thread]
  refine ⟨hsound, ?_, ?_, fun hstopped => ?_, fun hgone => ?_, ?_, fun hfinal => ?_⟩
  · rw [htid, StopReason.ofWait_tid]
    exact h.tid
  · rw [hreason]
    exact ofWait_ne_running _ _
  · rw [hreason, ofWait_stopped_iff] at hstopped
    rw [Machine.isStopped, hstatus, if_pos hstopped]
    rfl
  · rw [hreason, ne_eq, ofWait_stopped_iff] at hgone
    rw [hstatus, if_neg hgone]
  · rw [hroster]
    exact h.waited
  · obtain ⟨hsignal, hcode⟩ := hstep hfinal
    have hstopped : event.status.isStop = true := by
      rw [← ofWait_stopped_iff event.tid, ← hreason]
      exact (of_decide_eq_true hfinal).1
    have htrace : event.status.IsTrace event.siCode := by
      refine ⟨?_, ?_⟩
      · cases hcase : event.status with
        | stopped sig code =>
            rw [hcase] at hsignal
            obtain rfl : sig = sigtrap := hsignal
            exact ⟨code, rfl⟩
        | exited code =>
            rw [hcase] at hstopped
            cases hstopped
        | signaled sig =>
            rw [hcase] at hstopped
            cases hstopped
      · rw [StopReason.ofWait_tid, h.tid, h.thread] at hcode
        exact hcode
    obtain ⟨hrequest, d, hdelivered, hd⟩ := h.stepped htrace
    refine ⟨hrequest, d, ?_, hd⟩
    rw [hroster]
    exact hdelivered

theorem watchpointFrame_remembers : WatchpointFrame Remembers where
  slots := fun _ _ id val _ =>
    writeRegister_respects (fun _ _ => .of_eq rfl) (fun _ _ => .of_eq rfl) id val true
  watchpoints := fun _ _ _ => .of_eq rfl
  note := fun _ _ _ => .observe rfl

theorem resumeFrame_remembers (tid : Tid) : ResumeFrame tid Remembers :=
  (stopFrame_remembers ⟨fun _ _ => ([], .ok true)⟩).resumeFrame trivial

/-- The debugger knows nothing of other threads. -/
theorem rest_of_untracked {α : Type} {x : Debugger α} {tid : Tid} (htid : tid ≠ inferior.tid)
    (hremembers : Respects Remembers x)
    (h : ∀ m, m.thread? tid = none → ∃ e, x m = (.error e, m)) :
    Triple inferior.Rest x (fun _ => inferior.Rest) (fun _ => inferior.Rest) := by
  refine triple_assuming hremembers fun m hm _ _ => ?_
  obtain ⟨e, hrun⟩ := h m (hm.untracked htid)
  exact Triple.of_eq_error hrun hm

theorem samplePc_untracked {m : Machine} {tid : Tid} (h : m.thread? tid = none) :
    samplePc tid m = (.error (.exception "out_of_range"), m) :=
  bind_of_error (bind_of_error (threadAt_of_none h) _) _

/-- The program counter that is looked at is that of the thread. -/
theorem samplePc_own : Triple inferior.Rest (samplePc inferior.tid)
    (fun pc => inferior.Assuming fun m => inferior.Sound m ∧
      ((m.kernel.threads inferior.tid).status ≠ .absent →
        pc = User.pc (m.kernel.threads inferior.tid).user))
    (fun _ => inferior.Rest) := by
  refine triple_assuming (resumeFrame_remembers inferior.tid).samplePc fun m hm _ hassumed => ?_
  obtain ⟨thread, hthread, hdefined, -⟩ := hm.tracked
  have hsample : samplePc inferior.tid m = (.ok (User.pc thread.regs.data),
      m.observe (.sampledPc inferior.tid m.moment)) := by
    rw [samplePc, bind_of_ok (getPc_eq hthread hdefined)]
    rfl
  rw [hsample] at hassumed ⊢
  refine Triple.of_eq_ok rfl ⟨hm.of_inert (observe_inert (fun _ => rfl) m), fun hpresent => ?_⟩
  exact User.pc_congr fun i hi =>
    hassumed.current.1 thread hthread hpresent i hi.isRegisterByte

/-- A site that was disabled covers nothing. -/
theorem disableSite_uncovers {m m' : Machine} {index : Nat} {address : Word} {u : PUnit}
    (hdistinct : SitesApart m)
    (hindex : m.process.breakpointSites.getByAddress address = .ok index)
    (h : disableSite index m = (.ok u, m')) : ¬ Covers m'.process.breakpointSites address := by
  rintro ⟨site, hsite, harmed, rfl⟩
  have haddresses : m'.process.breakpointSites.map (·.address) =
      m.process.breakpointSites.map (·.address) :=
    congrArg (·.1) ((disableSite_catalog index).apply_eq h)
  obtain ⟨j, hlt, hj⟩ := List.mem_iff_getElem.mp hsite
  have hat : m'.process.breakpointSites[j]? = some site :=
    List.getElem?_eq_some_iff.mpr ⟨hlt, hj⟩
  have hfind : m'.process.breakpointSites.findByAddress site.address = some j :=
    findIdx?_of_nodup (by rw [haddresses]; exact hdistinct) hat
  have hsame : m.process.breakpointSites.findByAddress site.address =
      m'.process.breakpointSites.findByAddress site.address := by
    have hmap : ∀ sites : List BreakpointSite,
        StoppointCollection.findByAddress sites site.address =
          (sites.map (·.address)).findIdx? fun address => decide (address = site.address) :=
      fun sites => by
        rw [List.findIdx?_map]
        rfl
    rw [hmap, hmap, haddresses]
  rw [StoppointCollection.getByAddress, hsame, hfind] at hindex
  cases hindex
  have hdisabled := disableSite_disabled h site hat
  rw [BreakpointSite.armed, hdisabled] at harmed
  cases harmed

/-- The site at which the thread stands is taken out of its way. -/
theorem liftSite_clear {pc : Word} {bp : Nat} :
    Triple (inferior.Assuming fun m => (inferior.Sound m ∧
      ((m.kernel.threads inferior.tid).status ≠ .absent →
        pc = User.pc (m.kernel.threads inferior.tid).user)) ∧
          m.process.breakpointSites.getByAddress pc = .ok bp)
      (liftSite inferior.tid bp pc) (fun _ => inferior.Assuming inferior.Clear)
      (fun _ => inferior.Rest) := by
  refine triple_assuming ((resumeFrame_remembers inferior.tid).liftSite bp pc)
    fun m ⟨⟨hm, hpc⟩, hbp⟩ _ _ => ?_
  rcases hlift : disableSite bp m with ⟨e | u, m'⟩
  · have hrun : liftSite inferior.tid bp pc m = (.error e, m') := bind_of_error hlift _
    exact Triple.of_eq_error hrun (hm.of_inert ((disableSite_inert bp).apply_eq hlift))
  · have hrun : liftSite inferior.tid bp pc m =
        (.ok ⟨⟩, m'.observe (.lifted inferior.tid pc m'.moment)) := bind_of_ok hlift _
    have hsame : Inert inferior.tid m m' := (disableSite_inert bp).apply_eq hlift
    refine Triple.of_eq_ok hrun ⟨(hm.of_inert hsame).of_inert (observe_inert (fun _ => rfl) _), ?_⟩
    intro hpresent
    have hpresent' := hsame.present hpresent
    obtain ⟨below, hshadow, -⟩ := hm.stands hpresent'
    have hstays : User.pc (m'.kernel.threads inferior.tid).user = pc := by
      rw [hpc hpresent', ← User.pc_plain, hsame.user, User.pc_plain]
    change ¬ Covers m'.process.breakpointSites (User.pc (m'.kernel.threads inferior.tid).user)
    rw [hstays]
    exact disableSite_uncovers hshadow.distinct hbp hlift

/-- No `SIGSTOP` is pending for the thread. -/
theorem swallowPendingSigstop_clear {P : Machine → Prop} (hkept : ∀ m, P m → inferior.Kept m) :
    Triple (inferior.Assuming P) (swallowPendingSigstop inferior.tid)
      (fun _ => inferior.Assuming P) (fun _ => inferior.Rest) := by
  refine triple_assuming (resumeFrame_remembers inferior.tid).swallowPendingSigstop
    fun m hm _ _ => ?_
  obtain ⟨thread, hthread, -, hpending⟩ := (hkept m hm).tracked
  have hrun : swallowPendingSigstop inferior.tid m = (.ok ⟨⟩, m) := by
    rw [swallowPendingSigstop, bind_of_ok (threadAt_eq hthread), hpending]
    rfl
  exact Triple.of_eq_ok hrun hm

theorem singleStep_stepping : Triple (inferior.Assuming inferior.Clear)
    (ptraceRun .singleStep inferior.tid)
    (fun ran => inferior.Assuming fun m => if ran then inferior.Stepping m else inferior.Sound m)
    (fun _ => inferior.Rest) := by
  refine triple_assuming ((resumeFrame_remembers inferior.tid).ptraceRun _) fun m hm _ _ => ?_
  rcases ptraceRun_cases .singleStep inferior.tid m with ⟨hstopped, hrun⟩ | ⟨-, hrun⟩
  · have hsame : Inert inferior.tid m (m.letRun inferior.tid .singleStep) :=
      letRun_inert hstopped .singleStep
    refine Triple.of_eq_ok hrun ⟨⟨hm.toSound.of_inert hsame, fun hpresent => ?_⟩, ?_⟩
    · rw [user_letRun]
      exact hm.uncovered (hsame.present hpresent)
    · change (requests inferior.tid (.letRun inferior.tid .singleStep _ :: _)).head? = _
      rw [requests, if_pos rfl]
      rfl
  · exact Triple.of_eq_ok hrun hm.toSound

/-- The report that `step_over_breakpoint` collects. -/
theorem waitpid_stepping : Triple (inferior.Assuming inferior.Stepping)
    (waitpid .stepOverBreakpoint (some inferior.tid)) (fun _ => inferior.Rest)
    (fun _ => inferior.Rest) := by
  refine triple_assuming ((resumeFrame_remembers inferior.tid).waitpid _) fun m hm _ hassumed => ?_
  rcases waitpid_cases .stepOverBreakpoint (some inferior.tid) m with
    hrun | ⟨rest, -, hrun⟩ | ⟨event, rest, hmay, hscript, hrun⟩
  · exact Triple.of_eq_error hrun hm.toSound
  · exact Triple.of_eq_ok hrun (hm.toSound.of_inert (setScript_inert m rest))
  · rw [hrun] at hassumed
    refine Triple.of_eq_ok hrun (hm.toSound.stepped hscript hmay hassumed hm.request ?_)
    refine hm.uncovered ?_
    have htid := (hassumed.answered hm.toKept hscript).1
    rw [← htid]
    exact Machine.present_of_mayReport hmay

/-- Stepping off a site leads to where an instruction of the program leads. -/
theorem stepOverBreakpoint_rest (tid : Tid) : Triple inferior.Rest (stepOverBreakpoint tid)
    (fun _ => inferior.Rest) (fun _ => inferior.Rest) := by
  by_cases htid : tid = inferior.tid
  · subst htid
    refine Triple.bind samplePc_own fun pc => Triple.get_bind fun m hm => ?_
    refine Triple.ite (fun _ => ?_) fun _ => Triple.pure fun s hs hassumed => ?_
    · cases hbp : m.process.breakpointSites.getByAddress pc with
      | error e => exact Triple.throw fun s hs hassumed => hs ▸ (hm (hs ▸ hassumed)).1
      | ok bp =>
          refine Triple.bind (Q := fun index s => index = bp ∧ s = m) ?_ fun index => ?_
          · exact fun s hs => Triple.of_eq_ok rfl ⟨rfl, hs⟩
          refine Triple.bind (Triple.pre liftSite_clear ?_) fun _ => ?_
          · rintro s ⟨rfl, rfl⟩ hassumed
            exact ⟨hm hassumed, hbp⟩
          refine Triple.bind (swallowPendingSigstop_clear fun _ hs => hs.toKept) fun _ => ?_
          refine Triple.bind singleStep_stepping fun ran => ?_
          cases ran with
          | false => exact Triple.throw fun _ hs => hs
          | true =>
              refine Triple.bind waitpid_stepping fun event => ?_
              cases event with
              | none => exact Triple.throw fun _ hs => hs
              | some event =>
                  exact rest_of_inert ((resumeFrame_remembers inferior.tid).relaySite _ _)
                    (relaySite_inert _ _)
    · subst hs
      exact (hm hassumed).1
  · exact rest_of_untracked htid (resumeFrame_remembers tid).stepOverBreakpoint fun m hm =>
      ⟨_, bind_of_error (samplePc_untracked hm) _⟩

/-- A thread is let run. -/
theorem sendContinue_rest (tid : Tid) : Triple inferior.Rest (sendContinue tid)
    (fun _ => inferior.Rest) (fun _ => inferior.Rest) := by
  refine rest_of_inert (resumeFrame_remembers tid).sendContinue ?_
  refine Respects.bind Respects.get fun m => ?_
  refine Respects.bind (ptraceRun_inert _ tid) fun ran => Respects.ite (Respects.throw _) ?_
  refine Respects.bind (Respects.asks _) fun thread => ?_
  refine Respects.bind (fun m => updateThread_inert fun _ _ => ⟨rfl, rfl⟩) fun _ => ?_
  exact Respects.modify fun _ => .of_eq rfl rfl rfl rfl rfl

theorem resume_rest (otid : Option Tid) : Triple inferior.Rest (Debugger.resume otid)
    (fun _ => inferior.Rest) (fun _ => inferior.Rest) := by
  refine Triple.get_bind fun m hm => ?_
  refine Triple.bind ((stepOverBreakpoint_rest _).pre fun s hs => hs ▸ hm) fun _ => ?_
  exact sendContinue_rest _

theorem resumeAllThreads_rest : Triple inferior.Rest Debugger.resumeAllThreads
    (fun _ => inferior.Rest) (fun _ => inferior.Rest) := by
  refine Triple.get_bind fun m hm => ?_
  refine Triple.bind ((Triple.forEach fun tid _ => stepOverBreakpoint_rest tid).pre
    fun s hs => hs ▸ hm) fun _ => ?_
  exact Triple.forEach fun tid _ => sendContinue_rest tid

theorem liftSiteAt_inert (tid t : Tid) (pc : Word) : Respects (Inert t) (liftSiteAt tid pc) :=
  liftSiteAt_respects fun bp => Respects.bind (disableSite_inert bp) fun _ =>
    Respects.modify fun m => observe_inert (fun _ => rfl) m

theorem since_of_inert {α : Type} {x : Debugger α} (hremembers : Respects Remembers x)
    (hinert : Respects (Inert inferior.tid) x) (reports : List (Delivery × List Observation)) :
    Triple (inferior.Assuming (inferior.Since reports)) x
      (fun _ => inferior.Assuming (inferior.Since reports)) (fun _ => inferior.Rest) :=
  triple_assuming hremembers fun _ hm _ _ =>
    ⟨fun _ _ hrun => ⟨hm.1.of_inert (hinert.apply_eq hrun),
        (hinert.apply_eq hrun).delivered.trans hm.2⟩,
      fun _ _ hrun => hm.1.of_inert (hinert.apply_eq hrun)⟩

theorem samplePc_inert (tid t : Tid) : Respects (Inert t) (samplePc tid) :=
  Respects.bind (readRegister_respects _ _) fun _ =>
    Respects.bind (Respects.modify fun m => observe_inert (fun _ => rfl) m) fun _ => Respects.pure _

/-- A thread that is let run for a step, whether or not a site was in its way. -/
theorem beginStep_since (reports : List (Delivery × List Observation)) :
    Triple (inferior.Assuming (inferior.Since reports)) (beginStep inferior.tid)
      (fun _ => inferior.Assuming (inferior.Since reports)) (fun _ => inferior.Rest) := by
  refine Triple.bind (since_of_inert (resumeFrame_remembers _).samplePc (samplePc_inert _ _) _)
    fun pc => ?_
  refine Triple.bind (since_of_inert (liftSiteAt_remembers pc) (liftSiteAt_inert _ _ pc) _)
    fun toReenable => ?_
  refine Triple.bind (swallowPendingSigstop_clear fun _ hs => hs.1.toKept) fun _ => ?_
  refine Triple.bind (since_of_inert ((resumeFrame_remembers _).ptraceRun _)
    (ptraceRun_inert _ _) _) fun ran => ?_
  exact Triple.ite (fun _ => Triple.throw fun _ hm hassumed => (hm hassumed).1) fun _ =>
    Triple.pure fun _ hm => hm

theorem beginStep_rest (tid : Tid) : Triple inferior.Rest (beginStep tid)
    (fun _ => inferior.Rest) (fun _ => inferior.Rest) := by
  by_cases htid : tid = inferior.tid
  · subst htid
    exact fun m hm => (beginStep_since _).mono (fun _ hs => hs)
      (fun _ _ hs hassumed => (hs hassumed).1) (fun _ _ hs => hs) m fun hassumed =>
        ⟨hm hassumed, rfl⟩
  · refine rest_of_untracked htid ?_ fun m hm => ⟨_, bind_of_error (samplePc_untracked hm) _⟩
    refine Respects.bind (resumeFrame_remembers tid).samplePc fun pc => ?_
    refine Respects.bind (liftSiteAt_remembers pc) fun toReenable => ?_
    refine Respects.bind (resumeFrame_remembers tid).swallowPendingSigstop fun _ => ?_
    exact Respects.bind ((resumeFrame_remembers tid).ptraceRun _) fun ran =>
      Respects.ite (Respects.throw _) (Respects.pure _)

/-- The report that `wait_on_signal` receives. -/
theorem waitpid_received (toAwait : Option Tid) (events : List Observation) :
    Triple (inferior.Assuming fun m => inferior.Sound m ∧ m.roster.events = events)
      (waitpid .waitOnSignal toAwait) (inferior.Answer events) (fun _ => inferior.Rest) := by
  have hremembers : Respects Remembers (waitpid .waitOnSignal toAwait) :=
    (stopFrame_remembers ⟨fun _ _ => ([], .ok true)⟩).waitpid fun _ _ _ => trivial
  intro m hm
  rcases waitpid_cases .waitOnSignal toAwait m with
    hrun | ⟨rest, -, hrun⟩ | ⟨event, rest, hmay, hscript, hrun⟩
  · exact Triple.of_eq_error hrun fun hassumed => (hm hassumed).1
  · refine Triple.of_eq_ok hrun fun hassumed => ?_
    exact (hm (hassumed.of_remembers (hremembers.apply_eq hrun))).1.of_inert
      (setScript_inert m rest)
  · refine Triple.of_eq_ok hrun fun hassumed => ?_
    obtain ⟨hsound, rfl⟩ := hm (hassumed.of_remembers (hremembers.apply_eq hrun))
    have htid : (delivery m .waitOnSignal event).tid = inferior.tid :=
      (hassumed.answered hsound.toKept hscript).1
    refine ⟨hsound.due hscript hmay hassumed, ?_, fun htrace => ⟨?_, _, rfl, htrace⟩⟩
    · change collected inferior.tid (.delivered (delivery m .waitOnSignal event) :: _) = true
      rw [collected, if_pos htid]
      rfl
    obtain ⟨-, request, hrequest, hanswered⟩ := hassumed.answered hsound.toKept hscript
    rw [hrequest, hanswered.stepped htrace]

/-- From a thread that is gone there is nothing to wait for. -/
theorem waitpid_gone (toAwait : Option Tid) :
    Triple (inferior.Assuming fun m => inferior.Sound m ∧
        (m.kernel.threads inferior.tid).status = .absent)
      (waitpid .waitOnSignal toAwait)
      (fun event => inferior.Assuming fun m => event = none ∧ inferior.Sound m)
      (fun _ => inferior.Rest) := by
  refine triple_assuming ((stopFrame_remembers ⟨fun _ _ => ([], .ok true)⟩).waitpid
    fun _ _ _ => trivial) fun m hm _ hassumed => ?_
  rcases waitpid_cases .waitOnSignal toAwait m with
    hrun | ⟨rest, -, hrun⟩ | ⟨event, rest, hmay, hscript, hrun⟩
  · exact Triple.of_eq_error hrun hm.1
  · exact Triple.of_eq_ok hrun ⟨rfl, hm.1.of_inert (setScript_inert m rest)⟩
  · rw [hrun] at hassumed
    have hpresent := Machine.present_of_mayReport hmay
    rw [(hassumed.answered hm.1.toKept hscript).1] at hpresent
    exact absurd hm.2 hpresent

/-- Whatever is decided about a report, the thread is where it should be. -/
theorem handleSignal_reports (event : WaitEvent) (events : List Observation) :
    Triple (inferior.Assuming (inferior.Received events event))
      (Debugger.handleSignal handlers (.ofWait event.tid event.status) true)
      (fun final => inferior.Assuming fun m => inferior.Known event.tid m ∧
        ∀ reason, final = some reason → inferior.Reports events reason m)
      (fun _ => inferior.Assuming (inferior.Known event.tid)) := by
  intro m hm
  have hremembers : Respects Remembers
      (Debugger.handleSignal handlers (.ofWait event.tid event.status) true) :=
    (stopFrame_remembers handlers).handleSignal trivial (StopReason.ofWait_syscallInfo _ _) true
  have hafter : ∀ {r m'}, Debugger.handleSignal handlers (.ofWait event.tid event.status) true m =
      (r, m') → inferior.Assumed m' → inferior.Received events event m ∧
        inferior.Known event.tid m' := by
    intro r m' hrun hassumed
    have hreceived := hm (hassumed.of_remembers (hremembers.apply_eq hrun))
    have hsound : inferior.Sound (Debugger.handleSignal handlers
        (.ofWait event.tid event.status) true m).2 := hreceived.toDue.handleSignal
    rw [hrun] at hsound
    exact ⟨hreceived, hsound, hreceived.tid⟩
  refine ⟨fun final m' hrun hassumed => ?_, fun e m' hrun hassumed => (hafter hrun hassumed).2⟩
  obtain ⟨hreceived, hknown⟩ := hafter hrun hassumed
  refine ⟨hknown, ?_⟩
  rintro reason rfl
  exact hreceived.reports hknown.toSound hrun

theorem noteReason_inert {m : Machine} (tid : Tid) (reason : StopReason) :
    Inert inferior.tid m (noteReason tid reason m).2 :=
  updateThread_inert fun _ _ => ⟨rfl, rfl⟩

/-- Once a stop of the thread is noted there is no other thread to stop. -/
theorem noteReason_idle {m : Machine} {tid : Tid} {reason : StopReason} (handlers : HitHandlers)
    (h : inferior.Known tid m) (hreason : reason.reason ≠ .running) :
    inferior.Idle handlers tid (noteReason tid reason m).2 := by
  refine ⟨⟨h.toSound.of_inert (noteReason_inert tid reason), h.tid⟩, ?_⟩
  refine stopRunningThreads_rest handlers fun entry hentry => ?_
  obtain ⟨old, hold, rfl⟩ := List.mem_map.mp hentry
  have hkey : old.1 = tid := (h.alone _ (List.mem_map_of_mem hold)).trans h.tid.symm
  rw [if_pos hkey]
  exact hreason

theorem noteReason_triple {tid : Tid} {reason : StopReason} {P : Machine → Prop}
    {Q : PUnit → Machine → Prop} (h : ∀ m, P m → Q ⟨⟩ (noteReason tid reason m).2) :
    Triple (inferior.Assuming P) (noteReason tid reason) (fun u => inferior.Assuming (Q u))
      (fun _ => inferior.Rest) :=
  triple_assuming ((stopFrame_remembers ⟨fun _ _ => ([], .ok true)⟩).updateThread tid trivial _)
    fun m hm _ _ => Triple.of_eq_ok rfl (h m hm)

/-- Where no other thread is left to stop nothing happens. -/
theorem stopRunningThreads_triple {P : Machine → Prop}
    (h : ∀ m, P m → Debugger.stopRunningThreads handlers m = (.ok ⟨⟩, m)) :
    Triple (inferior.Assuming P) (Debugger.stopRunningThreads handlers)
      (fun _ => inferior.Assuming P) (fun _ => inferior.Rest) :=
  triple_assuming ((stopFrame_remembers handlers).stopRunningThreads fun _ => trivial)
    fun m hm _ _ => Triple.of_eq_ok (h m hm) hm

theorem modifyProcess_rest {f : Process → Process}
    (h : ∀ m, Inert inferior.tid m (Machine.setProcess f m)) :
    Triple inferior.Rest (modifyProcess f) (fun _ => inferior.Rest) (fun _ => inferior.Rest) :=
  rest_of_inert (Respects.modify fun _ => .of_eq rfl) (Respects.modify h)

/-- A report that could not be handled is recorded as it is. -/
theorem recordFailedStop_rest (event : WaitEvent) :
    Triple (inferior.Assuming (inferior.Known event.tid))
      (recordFailedStop handlers (.ofWait event.tid event.status)) (fun _ => inferior.Rest)
      (fun _ => inferior.Rest) := by
  rw [recordFailedStop, StopReason.ofWait_tid]
  refine Triple.bind (noteReason_triple (Q := fun _ => inferior.Idle handlers event.tid)
    fun m hm => noteReason_idle handlers hm (ofWait_ne_running event.tid event.status)) fun _ => ?_
  refine Triple.bind (stopRunningThreads_triple fun m hm => hm.idle) fun _ => ?_
  exact (modifyProcess_rest fun _ => .of_eq rfl rfl rfl rfl rfl).pre
    fun m hm hassumed => (hm hassumed).toSound

theorem collected_lifecycle (t : Tid) (reasons : List StopReason) (earlier : List Observation) :
    collected t ((reasons.map Observation.lifecycle ++ earlier).filter Observation.isThreadEvent) =
      collected t (earlier.filter Observation.isThreadEvent) := by
  induction reasons with
  | nil => rfl
  | cons reason rest ih => exact ih

theorem deliveries_lifecycle (reasons : List StopReason) (earlier : List Observation) :
    deliveries ((reasons.map Observation.lifecycle ++ earlier).filter Observation.isThreadEvent) =
      deliveries (earlier.filter Observation.isThreadEvent) := by
  induction reasons with
  | nil => rfl
  | cons reason rest ih => exact ih

/-- The thread that stopped is not cleaned up. -/
theorem cleanupExitedThreads_inert : Respects (Inert inferior.tid)
    (cleanupExitedThreads inferior.tid) := by
  intro m
  rw [cleanupExitedThreads_apply]
  refine ⟨rfl, fun thread hthread => ⟨thread, ?_, rfl, rfl⟩, ?_, ?_, id, rfl, fun _ h => h⟩
  · exact (thread?_cleanup_self _ _).trans hthread
  · exact (List.filter_sublist.map _).subset
  · change deliveries ((m.reportsGone inferior.tid ++ m.trace).filter _) = _
    rw [m.reportsGone_eq]
    exact deliveries_lifecycle _ _

/-- No other thread is there to be cleaned up. -/
theorem cleanupExitedThreads_reports {events : List Observation} {reason : StopReason}
    (tid : Tid) :
    Triple (inferior.Assuming fun m => inferior.Known tid m ∧ inferior.Reports events reason m)
      (Debugger.cleanupExitedThreads tid)
      (fun exited => inferior.Assuming fun m => exited = none ∧ inferior.Reports events reason m)
      (fun _ => inferior.Rest) := by
  refine triple_assuming ((stopFrame_remembers ⟨fun _ _ => ([], .ok true)⟩).waitFrame
    |>.cleanupExitedThreads _) fun m ⟨hknown, hreports⟩ _ _ => ?_
  obtain rfl := hknown.tid
  have hsame : Inert inferior.tid m (cleanupExitedThreads inferior.tid m).2 :=
    cleanupExitedThreads_inert m
  have hgone : m.process.gone inferior.tid = [] := by
    refine List.filter_eq_nil_iff.mpr fun entry hentry => ?_
    have hkey : entry.1 = inferior.tid := hreports.alone _ (List.mem_map_of_mem hentry)
    simp [isCleanedUp, hkey]
  have hrun := cleanupExitedThreads_apply inferior.tid m
  have hcollected : collected inferior.tid (cleanupExitedThreads inferior.tid m).2.roster.events =
      collected inferior.tid m.roster.events := by
    rw [hrun]
    change collected _ ((m.reportsGone inferior.tid ++ m.trace).filter _) = _
    rw [m.reportsGone_eq]
    exact collected_lifecycle _ _ _
  have hafter := hreports.of_inert hsame (by rw [hrun]; rfl) hcollected
  rw [hrun] at hafter
  refine Triple.of_eq_ok hrun ⟨?_, hafter⟩
  rw [hgone]
  rfl

/-- A thread that was let run to go on was not let run for a single step. -/
theorem sendContinue_request (tid : Tid) : Triple (fun _ => True) (sendContinue tid)
    (fun _ m => (requests tid m.roster.events).head? ≠ some .singleStep) (fun _ _ => True) := by
  refine Triple.get_bind fun m _ => ?_
  rintro s rfl
  refine ⟨fun u s' hrun => ?_, fun _ _ _ => trivial⟩
  obtain ⟨ran, s₁, hran, hrest⟩ := Eff.bind_eq_ok.mp hrun
  rcases ptraceRun_cases (if s.process.policy.mode = .none then .cont else .syscall) tid s with
    ⟨-, hrequest⟩ | ⟨-, hrequest⟩
  · rw [hrequest] at hran
    cases hran
    obtain ⟨thread, s₂, hthread, hend⟩ := Eff.bind_eq_ok.mp hrest
    obtain ⟨-, rfl⟩ := threadAt_eq_ok hthread
    cases hend
    change (requests tid (.letRun tid _ _ :: _)).head? ≠ _
    rw [requests, if_pos rfl, List.head?_cons]
    split <;> decide
  · rw [hrequest] at hran
    cases hran
    cases hrest

theorem resume_goesOn (tid : Tid) {P : Machine → Prop} (h : ∀ m, P m → inferior.Known tid m) :
    Triple (inferior.Assuming P) (Debugger.resume (some tid))
      (fun _ => inferior.Assuming fun m => inferior.Sound m ∧
        (requests inferior.tid m.roster.events).head? ≠ some .singleStep)
      (fun _ => inferior.Rest) := by
  intro m hm
  have hremembers : Respects Remembers (Debugger.resume (some tid)) :=
    (resumeFrame_remembers tid).resume
  obtain ⟨hok, herror⟩ := resume_rest (some tid) m fun hassumed => (h m (hm hassumed)).toSound
  refine ⟨fun u m' hrun hassumed => ⟨hok u m' hrun hassumed, ?_⟩, herror⟩
  have htid := (h m (hm (hassumed.of_remembers (hremembers.apply_eq hrun)))).tid
  rw [Debugger.resume, bind_of_ok (get_apply m), Option.getD_some] at hrun
  obtain ⟨u₁, m₁, -, hcontinue⟩ := Eff.bind_eq_ok.mp hrun
  rw [← htid]
  exact (sendContinue_request tid m₁ trivial).1 u m' hcontinue

/-- What `wait_on_signal` does about a report. -/
theorem handleReport_reports {again : Option Tid → Debugger StopReason}
    (hremembers : ∀ toAwait, Respects Remembers (again toAwait))
    (hagain : ∀ toAwait events, Triple
      (inferior.Assuming fun m => inferior.Sound m ∧ m.roster.events = events) (again toAwait)
      (fun reason => inferior.Assuming (inferior.Reports events reason)) (fun _ => inferior.Rest))
    (hgone : ∀ toAwait, Triple (inferior.Assuming fun m => inferior.Sound m ∧
        (m.kernel.threads inferior.tid).status = .absent) (again toAwait)
      (fun _ => inferior.Assuming fun _ => False) (fun _ => inferior.Rest))
    (toAwait : Option Tid) (event : WaitEvent) (events : List Observation) :
    Triple (inferior.Assuming (inferior.Received events event))
      (handleReport handlers again toAwait event)
      (fun reason => inferior.Assuming (inferior.Reports events reason))
      (fun _ => inferior.Rest) := by
  refine Triple.bind (Triple.onThrow (handleSignal_reports event events)
    (fun _ _ => recordFailedStop_rest event) fun _ _ _ hs hassumed => (hs hassumed).toSound)
    fun final => ?_
  cases final with
  | none =>
      -- the thread goes on, so that no single step ends the wait that follows
      refine Triple.bind
        (resume_goesOn event.tid fun m hm => (hm : inferior.Known event.tid m ∧ _).1)
          fun _ m hm => ?_
      obtain ⟨hok, herror⟩ := hagain toAwait m.roster.events m
        fun hassumed => ⟨(hm hassumed).1, rfl⟩
      refine ⟨fun reason m' hrun hassumed => ?_, herror⟩
      have hreports := hok reason m' hrun hassumed
      have hbefore := hassumed.of_remembers ((hremembers toAwait).apply_eq hrun)
      exact ⟨hreports.toSound, hreports.tid, hreports.final, hreports.stopped, hreports.gone,
        hreports.waited, fun hstep => absurd (hreports.stepped hstep).1 (hm hbefore).2⟩
  | some reason =>
      refine Triple.bind (threadAt_triple (E := fun _ => inferior.Rest)
        fun m hm _ hassumed => (hm hassumed).1.toSound) fun thread => ?_
      refine Triple.bind (Q := fun _ => inferior.Assuming fun m =>
        inferior.Idle handlers event.tid m ∧ inferior.Reports events reason m) ?_ fun _ => ?_
      · refine (noteReason_triple fun m hm => ?_).pre fun m hm => hm.1
        obtain ⟨hknown, hreports⟩ := hm
        have hreports := hreports reason rfl
        exact ⟨noteReason_idle handlers hknown hreports.final,
          hreports.of_inert (noteReason_inert event.tid reason) rfl rfl⟩
      refine Triple.get_bind fun m hm => Triple.ite (fun hexit => ?_) fun _ => ?_
      · refine Triple.bind (Q := fun _ => inferior.Assuming (inferior.Reports events reason)) ?_
          fun _ => Triple.ite (fun _ => ?_) fun _ => ?_
        · refine (triple_assuming (Respects.modify fun _ => .observe rfl) fun s hs _ _ =>
            Triple.of_eq_ok rfl ?_).pre fun s hs => hs ▸ hm
          exact hs.2.of_inert (observe_inert (fun _ => rfl) s) rfl rfl
        · refine Triple.bind (Q := fun _ => inferior.Assuming (inferior.Reports events reason)) ?_
            fun _ => Triple.pure fun _ hs => hs
          refine triple_assuming (Respects.modify fun _ => .of_eq rfl) fun s hs _ _ => ?_
          exact Triple.of_eq_ok rfl (hs.of_inert (.of_eq rfl rfl rfl rfl rfl) rfl rfl)
        · refine (hgone none).mono (fun s hs hassumed => ?_)
            (fun _ s hs hassumed => (hs hassumed).elim) fun _ _ hs => hs
          refine ⟨(hs hassumed).toSound, (hs hassumed).gone ?_⟩
          rcases hexit with hexit | hexit <;> rw [hexit] <;> decide
      · refine Triple.bind ((stopRunningThreads_triple fun s hs => ?_).pre fun s hs => hs ▸ hm)
          fun _ => ?_
        · exact (hs : inferior.Idle handlers event.tid s ∧ _).1.idle
        refine Triple.bind ((cleanupExitedThreads_reports event.tid).pre
          fun s hs hassumed => ⟨(hs hassumed).1.toKnown, (hs hassumed).2⟩) fun exited => ?_
        refine Triple.bind (Q := fun _ => inferior.Assuming fun m => exited = none ∧
          inferior.Reports events reason m) ?_ fun _ => Triple.pure fun s hs hassumed => ?_
        · refine triple_assuming (Respects.modify fun _ => .of_eq rfl) fun s hs _ _ => ?_
          exact Triple.of_eq_ok rfl ⟨hs.1, hs.2.of_inert (.of_eq rfl rfl rfl rfl rfl) rfl rfl⟩
        · obtain ⟨rfl, hreports⟩ := hs hassumed
          exact hreports

theorem waitOnSignalLoop_gone (rounds : Nat) (toAwait : Option Tid) :
    Triple (inferior.Assuming fun m => inferior.Sound m ∧
        (m.kernel.threads inferior.tid).status = .absent)
      (Debugger.waitOnSignalLoop handlers rounds toAwait)
      (fun _ => inferior.Assuming fun _ => False) (fun _ => inferior.Rest) := by
  cases rounds with
  | zero => exact Triple.throw fun _ hm hassumed => (hm hassumed).1
  | succ rounds =>
      refine Triple.bind (waitpid_gone toAwait) fun event => ?_
      cases event with
      | none => exact Triple.throw fun _ hm hassumed => (hm hassumed).2
      | some event =>
          have hremembers : Respects Remembers (handleReport handlers
              (Debugger.waitOnSignalLoop handlers rounds) toAwait event) :=
            (stopFrame_remembers handlers).handleReport
              ((stopFrame_remembers handlers).stopRunningThreads fun _ => trivial)
              ((stopFrame_remembers handlers).waitOnSignalLoop (fun _ => trivial) rounds) toAwait
              trivial
          exact triple_assuming hremembers fun m hm _ _ => nomatch hm.1

theorem waitOnSignalLoop_reports (rounds : Nat) (toAwait : Option Tid)
    (events : List Observation) :
    Triple (inferior.Assuming fun m => inferior.Sound m ∧ m.roster.events = events)
      (Debugger.waitOnSignalLoop handlers rounds toAwait)
      (fun reason => inferior.Assuming (inferior.Reports events reason))
      (fun _ => inferior.Rest) := by
  induction rounds generalizing toAwait events with
  | zero => exact Triple.throw fun _ hm hassumed => (hm hassumed).1
  | succ rounds ih =>
      refine Triple.bind (waitpid_received toAwait events) fun event => ?_
      cases event with
      | none => exact Triple.throw fun _ hm => hm
      | some event =>
          exact handleReport_reports (fun _ => (stopFrame_remembers handlers).waitOnSignalLoop
            (fun _ => trivial) rounds _) ih (waitOnSignalLoop_gone rounds) toAwait event events

/-- A wait leaves the thread where its own instructions led. -/
theorem waitOnSignal_reports (toAwait : Option Tid) (events : List Observation) :
    Triple (inferior.Assuming fun m => inferior.Sound m ∧ m.roster.events = events)
      (Debugger.waitOnSignal handlers toAwait)
      (fun reason => inferior.Assuming (inferior.Reports events reason)) (fun _ => inferior.Rest) :=
  Triple.get_bind fun _ hm => (waitOnSignalLoop_reports _ toAwait events).pre fun _ hs => hs ▸ hm

theorem waitOnSignal_rest (toAwait : Option Tid) :
    Triple inferior.Rest (Debugger.waitOnSignal handlers toAwait) (fun _ => inferior.Rest)
      (fun _ => inferior.Rest) :=
  fun m hm => (waitOnSignal_reports toAwait m.roster.events).mono (fun _ hs => hs)
    (fun _ _ hs hassumed => (hs hassumed).toSound) (fun _ _ hs => hs) m
    fun hassumed => ⟨hm hassumed, rfl⟩

theorem stepInstruction_rest (otid : Option Tid) :
    Triple inferior.Rest (Debugger.stepInstruction handlers otid) (fun _ => inferior.Rest)
      (fun _ => inferior.Rest) := by
  refine Triple.get_bind fun m hm => ?_
  refine Triple.bind ((beginStep_rest _).pre fun s hs => hs ▸ hm) fun begun => ?_
  refine Triple.bind (waitOnSignal_rest _) fun reason => ?_
  refine Triple.bind (rest_of_inert (reenable_remembers _ _)
    (reenable_respects (fun bp => relaySite_inert bp _) _)) fun _ => Triple.pure fun _ hs => hs

/-- Every command leaves the thread where its own instructions led. -/
theorem command_rest (c : Command) : Triple inferior.Rest (c.run handlers)
    (fun _ => inferior.Rest) (fun _ => inferior.Rest) := by
  have hthen : ∀ {α β : Type} {x : Debugger α} (f : α → β),
      Triple inferior.Rest x (fun _ => inferior.Rest) (fun _ => inferior.Rest) →
      Triple inferior.Rest (x >>= fun a => pure (f a)) (fun _ => inferior.Rest)
        (fun _ => inferior.Rest) :=
    fun f hx => Triple.bind hx fun _ => Triple.pure fun _ hs => hs
  cases c with
  | resume otid => exact hthen _ (resume_rest otid)
  | resumeAllThreads => exact hthen _ resumeAllThreads_rest
  | stepInstruction otid => exact hthen _ (stepInstruction_rest otid)
  | waitOnSignal toAwait => exact hthen _ (waitOnSignal_rest toAwait)
  | site op =>
      exact hthen _ (rest_of_inert (siteFrame_remembers.run (.inl rfl)) (siteOperation_inert op))
  | watchpoint op =>
      exact hthen _
        (rest_of_inert (watchpointFrame_remembers.run op) (watchpointOperation_inert op))
  | setCurrentThread tid => exact hthen _ (modifyProcess_rest fun _ => .of_eq rfl rfl rfl rfl rfl)
  | setPolicy policy => exact hthen _ (modifyProcess_rest fun _ => .of_eq rfl rfl rfl rfl rfl)
  | setBreakpoints points =>
      exact hthen _ (modifyProcess_rest fun _ => .of_eq rfl rfl rfl rfl rfl)

theorem run_rest {start m : Machine} (hrun : Run handlers start m)
    (hstart : inferior.Rest start) : inferior.Rest m := by
  induction hrun with
  | start => exact hstart
  | @command m m' r c before hrun hgoes ih =>
      obtain ⟨hok, herror⟩ := @command_rest inferior handlers c m ih
      cases r with
      | ok answer => exact hok answer m' hrun
      | error e => exact herror e m' hrun

end Steps

/-- The thread is stopped where the program begins, and nothing is set up. -/
structure Begins (inferior : Inferior) (m : Machine) : Prop where
  synchronized : Synchronized m
  bare : m.process.breakpointSites = []
  tracked : ∃ thread, m.thread? inferior.tid = some thread ∧ thread.regs.undefinedOffsets = [] ∧
    thread.pendingSigstop = false
  alone : ∀ tid ∈ m.roster.tids, tid = inferior.tid
  start : m.kernel.cpu inferior.tid = inferior.start
  fresh : inferior.earlier = []

theorem Begins.sound {inferior : Inferior} {m : Machine} (h : inferior.Begins m) :
    inferior.Sound m where
  attached := h.synchronized.attached
  tracked := h.tracked
  alone := h.alone
  earlier := by
    rw [h.fresh]
    exact List.nil_subset _
  native := fun p hp => by
    rw [Machine.roster, h.synchronized.fresh] at hp
    cases hp
  stands := fun _ => by
    refine ⟨m.kernel.memory, Shadow.start h.bare, ?_⟩
    have hstart : ((m.kernel.threads inferior.tid).user.plain, m.kernel.memory) = inferior.start :=
      h.start
    have hnone : deliveries m.roster.events = inferior.earlier := by
      rw [Machine.roster, h.synchronized.fresh, h.fresh]
      rfl
    rw [hstart, hnone]
    exact .start

/-- Whatever commands the debugger is given, in the end the thread is where the program alone
comes to, with its own memory, and so was every stop on the way: the program's own instructions
led to it from where the thread was let run, and none of them was executed at an armed site. -/
theorem execution_native (inferior : Inferior) {handlers : HitHandlers} {start m : Machine}
    (hbegins : inferior.Begins start) (hrun : Run handlers start m) (hread : ReadInTime m.trace)
    (hhosted : inferior.Hosted m.roster.events) :
    ((m.kernel.threads inferior.tid).status ≠ .absent →
      inferior.Reaches ((m.kernel.threads inferior.tid).user.plain, m.ownMemory)) ∧
    ∀ p ∈ deliveries m.roster.events, p.1.status.isStop = true → inferior.IsNative p.1 := by
  have hcurrent : PcCurrent m.trace := (hrun.current hbegins.synchronized hread).current
  have hsound : inferior.Sound m := run_rest hrun (fun _ => hbegins.sound) ⟨hhosted, hcurrent⟩
  refine ⟨fun hpresent => ?_, fun p hp => hsound.native p hp ?_⟩
  · obtain ⟨below, hshadow, hled⟩ := hsound.stands hpresent
    have hown : Shadow m.ownMemory m := shadow_ownMemory hshadow.distinct
      fun site hsite harmed => (hshadow.armed site hsite harmed).1
    rw [hown.eq_of hshadow]
    exact hled.reaches
  · rw [hbegins.fresh]
    exact List.not_mem_nil

end Inferior

namespace NativeWitness

open Scenario CachedRegistersWitness

/-- The registers after a number of instructions that only count. -/
def counted : Nat → User
  | 0 => fun _ => 0
  | n + 1 => (counted n).behindTrap

/-- A program that counts. -/
def counting : Inferior where
  step := fun s s' => s' = (s.1.behindTrap, s.2)
  tid := 1
  start := (counted 0, fun _ => 0)
  earlier := []

/-- The memory with a site armed at address two. -/
def armed : Memory 64 :=
  let memory : Memory 64 := fun _ => 0
  memory.write 2 (toLe 8 (withLowByte (BitVec.ofNat 64 (ofLe (memory.read 2 8))) int3).toNat)

def begun : Machine :=
  machine [1] [.report ⟨1, .stopped sigtrap 0, .siKernel, counted 3, armed⟩]

/-- The program is let run with the site in its way and waited for. -/
@[irreducible]
def stopped : Machine :=
  after passing (.waitOnSignal none) (after passing (.resume none)
    (after passing (.site (.enable 0)) (after passing (.site (.create 2 false false)) begun)))

theorem run_stopped : Run passing begun stopped := by
  unfold stopped
  exact run_after _ (run_after _ (run_after _ (run_after _ .start (by decide +kernel))
    (by decide +kernel)) (by decide +kernel)) (by decide +kernel)

theorem plain_counted (n : Nat) : (counted n).plain = counted n := by
  induction n with
  | zero =>
      funext i
      exact ite_self _
  | succ n ih => rw [counted, User.behindTrap, User.plain_write, ih]

theorem moves_counted {memory : Memory 64} (n : Nat)
    (h : ∀ k < n, memory (User.pc (counted k)) ≠ int3) :
    counting.Moves n (counted 0, memory) (counted n, memory) := by
  induction n with
  | zero => exact .start
  | succ n ih => exact .step (ih fun k hk => h k (by omega)) (h n (by omega)) rfl

/-- Counting leaves memory alone. -/
theorem memory_of_reaches {s : User × Memory 64} (h : counting.Reaches s) :
    s.2 = fun _ => 0 := by
  obtain ⟨n, hpath⟩ := h
  induction hpath with
  | start => rfl
  | step before here next ih =>
      rw [next]
      exact ih

theorem hosted_stopped : counting.Hosted stopped.roster.events where
  driven := by
    unfold stopped
    intro p hp _
    obtain rfl := List.mem_singleton.mp hp
    refine ⟨rfl, _, [], .cont, rfl, rfl, ?_⟩
    have hmoves : counting.Moves 2 ((counted 0).plain, armed) (counted 2, armed) := by
      rw [plain_counted]
      exact moves_counted 2 (by decide +kernel)
    exact .trapped rfl rfl hmoves (by decide +kernel) (plain_counted 3) fun h => by cases h
  trapless := fun s hs => by
    rw [memory_of_reaches hs]
    exact (by decide : (0 : Byte) ≠ int3)
  undisturbed := fun p hp _ s hs huncovered t ht => by
    obtain rfl := ht
    have hbelow := unpatch_patch (Covers p.1.before.process.breakpointSites) int3 s.2
    exact ⟨by rw [hbelow], Prod.ext rfl hbelow⟩

/-- The trap is undone, and the program is where it comes to alone. -/
theorem execution_native_counting :
    User.pc (stopped.kernel.threads 1).user = 2 ∧
      counting.Reaches ((stopped.kernel.threads 1).user.plain, stopped.ownMemory) := by
  have hbegins : counting.Begins begun :=
    ⟨machine_synchronized _, rfl, ⟨newThread, rfl, rfl, rfl⟩,
      fun tid htid => List.mem_singleton.mp htid, Prod.ext (plain_counted 0) rfl, rfl⟩
  exact ⟨by decide +kernel, (Inferior.execution_native counting hbegins run_stopped
    (readInTime_of_allRead (by decide +kernel)) hosted_stopped).1 (by decide +kernel)⟩

end NativeWitness

end Gsdb
