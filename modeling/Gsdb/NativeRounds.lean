/-
One round of stepping over an inferior with one thread, in terms of the program alone.  A round
that ends as a step was one instruction, or led from where the thread was let run to the address
that it was to get to.
-/
import Gsdb.NativeRuns
import Gsdb.StepOver

namespace Gsdb

open ByteMemory Effects Eff Debugger PatchedExecution

theorem collected_events (t : Tid) (trace : List Observation) :
    collected t (trace.filter Observation.isThreadEvent) = collected t trace := by
  induction trace with
  | nil => rfl
  | cons observation earlier ih =>
      cases observation with
      | delivered d => rw [List.filter_cons_of_pos rfl, collected, collected, ih]
      | letRun tid request moment => rw [List.filter_cons_of_pos rfl, collected, collected, ih]
      | _ => exact ih

theorem ReadInTime.of_suffix {earlier trace : List Observation} (hsuffix : earlier <:+ trace)
    (h : ReadInTime trace) : ReadInTime earlier := by
  obtain ⟨recent, rfl⟩ := hsuffix
  induction recent with
  | nil => exact h
  | cons observation recent ih =>
      cases observation with
      | sampledPc tid moment => exact ih h.2
      | delivered d => exact ih h.2
      | _ => exact ih h

theorem Machine.getPc_of_run {tid : Tid} {m m' : Machine} {pc : Word}
    (h : Debugger.getPc tid m = (.ok pc, m')) : m.getPc (some tid) = .ok pc := by
  obtain ⟨rfl, thread, hthread, hpc⟩ := readRegister_eq_ok h
  rw [Machine.getPc, Machine.getRegisters, Option.getD_some, hthread]
  exact hpc

section Frames

variable {env : StepEnv} {R : Machine → Machine → Prop} [Std.Refl R] [IsTrans Machine R]

/-- Unwinding the stack leaves the machine as it is. -/
theorem notifyStop_respects (tid : Tid) (reason : StopReason) (stack : Stack) :
    Respects R (notifyStop env tid reason stack) := by
  refine Respects.bind Respects.get fun m => Respects.ite ?_ (Respects.pure _)
  split
  · exact Respects.ite (Respects.pure _) (Respects.throw _)
  · exact Respects.pure _

/-- Setting and removing the trap is what operations on sites may do. -/
theorem setTrap_frame (h : SiteFrame true R) (address : Word) : Respects R (setTrap address) := by
  refine Respects.bind Respects.get fun _ => Respects.ite (Respects.pure _) ?_
  refine Respects.bind (h.pushSite _ fun p => ⟨.inl rfl, p.nextSiteId, rfl⟩) fun _ => ?_
  exact Respects.bind (h.enableSite _) fun _ => Respects.pure _

theorem removeTrap_frame (h : SiteFrame true R) (toRemove : Bool) (address : Word) :
    Respects R (removeTrap toRemove address) :=
  Respects.ite (Respects.bind Respects.get fun _ => h.removeSite _) (Respects.pure _)

theorem StopFrame.beginStep {handlers : HitHandlers} (h : StopFrame handlers (fun _ => True) R)
    (tid : Tid) : Respects R (beginStep tid) := by
  have hresume : ResumeFrame tid R := h.resumeFrame trivial
  refine Respects.bind hresume.samplePc fun pc => ?_
  refine Respects.bind (liftSiteAt_respects fun bp => hresume.liftSite bp pc) fun _ => ?_
  refine Respects.bind hresume.swallowPendingSigstop fun _ => ?_
  exact Respects.bind (hresume.ptraceRun _) fun ran => Respects.ite (Respects.throw _)
    (Respects.pure _)

/-- What the steps of resuming and waiting keep, a step of a thread keeps. -/
theorem StopFrame.stepAndUnwind (h : StopFrame env.handlers (fun _ => True) R) (tid : Tid)
    (stack : Stack) : Respects R (stepAndUnwind env tid stack) := by
  refine Respects.bind (h.beginStep tid) fun begun => ?_
  refine Respects.bind (h.waitOnSignal (fun _ => trivial) _) fun reason => ?_
  refine Respects.bind (notifyStop_respects tid reason stack) fun stack => ?_
  have hresume : ResumeFrame tid R := h.resumeFrame trivial
  exact Respects.bind (reenable_respects (fun bp => hresume.relaySite bp _) _) fun _ =>
    Respects.pure _

theorem finishRun_frame (hsite : SiteFrame true R)
    (hupdate : ∀ tid f, Respects R (updateThread tid f)) (address : Word) (tid : Tid)
    (toRemove : Bool) (reason : StopReason) :
    Respects R (finishRun address tid toRemove reason) := by
  refine Respects.bind (Respects.ite (Respects.bind (readRegister_respects _ _) fun _ =>
    Respects.pure _) (Respects.pure _)) fun _ => ?_
  refine Respects.bind (removeTrap_frame hsite _ _) fun _ => ?_
  exact Respects.bind (Respects.asks _) fun _ =>
    Respects.bind (hupdate _ _) fun _ => Respects.pure _

/-- So does a run to an address, if operations on sites keep it too. -/
theorem StopFrame.runAndUnwind (h : StopFrame env.handlers (fun _ => True) R)
    (hsite : SiteFrame true R) (address : Word) (tid : Tid) (stack : Stack) :
    Respects R (runAndUnwind env address tid stack) := by
  refine Respects.bind (setTrap_frame hsite address) fun toRemove => ?_
  refine Respects.bind (h.resumeFrame trivial).resume fun _ => ?_
  refine Respects.bind (h.waitOnSignal (fun _ => trivial) _) fun reason => ?_
  refine Respects.bind (notifyStop_respects tid reason stack) fun stack => ?_
  exact Respects.bind (finishRun_frame hsite (fun tid f => h.updateThread tid trivial f) _ _ _ _)
    fun _ => Respects.pure _

end Frames

namespace Inferior

/-- The program from one of its states on, which a machine shows. -/
def onward (inferior : Inferior) (s : User × Memory 64) (m : Machine) : Inferior :=
  { inferior with start := s, earlier := deliveries m.roster.events }

/-- The thread is in a state of the program. -/
structure At (inferior : Inferior) (s : User × Memory 64) (m : Machine) : Prop where
  user : (m.kernel.threads inferior.tid).user.plain = s.1
  below : Shadow s.2 m

section Onward

variable {inferior : Inferior} {m m' : Machine} {s t : User × Memory 64}
  {reports : List (Delivery × List Observation)}

theorem Sound.at (h : inferior.Sound m)
    (hpresent : (m.kernel.threads inferior.tid).status ≠ .absent) :
    ∃ s, inferior.At s m ∧ inferior.Reaches s := by
  obtain ⟨below, hshadow, hled⟩ := h.stands hpresent
  exact ⟨_, ⟨rfl, hshadow⟩, hled.reaches⟩

/-- A state is determined by what the machine shows. -/
theorem At.eq (h : inferior.At s m) (h' : inferior.At t m) : s = t :=
  Prod.ext (h.user.symm.trans h'.user) (ShadowOf.eq_of h.below h'.below)

theorem Answered.onward {request : RunRequest} {event : WaitEvent}
    (h : inferior.Answered request s event) : (inferior.onward t m).Answered request s event := by
  cases h with
  | gone status => exact .gone status
  | stopped status other moves limit trace => exact .stopped status other moves limit trace
  | trapped status siCode moves trap behind limit =>
      exact .trapped status siCode moves trap behind limit

theorem Assumed.onward (h : inferior.Assumed m') (hkept : inferior.Kept m)
    (hreach : inferior.Reaches s) : (inferior.onward s m).Assumed m' where
  hosted :=
    { driven := fun p hp hnew => by
        obtain ⟨htid, event, rest, request, hscript, hrequest, hanswered⟩ :=
          h.hosted.driven p hp fun hin => hnew (hkept.earlier hin)
        exact ⟨htid, event, rest, request, hscript, hrequest, hanswered.onward⟩
      trapless := fun x hx => h.hosted.trapless x (hreach.trans hx)
      undisturbed := fun p hp hnew x hx =>
        h.hosted.undisturbed p hp (fun hin => hnew (hkept.earlier hin)) x (hreach.trans hx) }
  current := h.current

theorem Sound.onward (h : inferior.Sound m) (hat : inferior.At s m) :
    (inferior.onward s m).Since (deliveries m.roster.events) m := by
  refine ⟨⟨⟨h.attached, h.tracked, h.alone, List.Subset.refl _,
    fun p hp hnew => absurd hp hnew⟩, fun _ => ⟨s.2, hat.below, ?_⟩⟩, rfl⟩
  have hstart : ((m.kernel.threads inferior.tid).user.plain, s.2) = s := Prod.ext hat.user rfl
  change (inferior.onward s m).Led _ ((m.kernel.threads inferior.tid).user.plain, s.2)
  rw [hstart]
  exact .start

theorem Led.suffix (h : inferior.Led reports s) : inferior.earlier <:+ reports := by
  induction h with
  | start => exact List.suffix_refl _
  | report before user below requested path trace ih =>
      exact ih.trans (List.suffix_cons _ _)

theorem Led.eq_start (h : inferior.Led inferior.earlier s) : s = inferior.start := by
  generalize hreports : inferior.earlier = reports at h
  cases h with
  | start => rfl
  | report before user below requested path trace =>
      have hlength := before.suffix.length_le
      rw [hreports, List.length_cons] at hlength
      exact absurd hlength (by omega)

/-- The instructions of the reports since the start, one after the other. -/
theorem Led.path {recent : List (Delivery × List Observation)}
    {allowed : User × Memory 64 → Prop} (h : inferior.Led (recent ++ inferior.earlier) s)
    (hallowed : ∀ p ∈ recent, ∀ x : User × Memory 64,
      ¬ Covers p.1.before.process.breakpointSites (User.pc x.1) → allowed x) :
    ∃ n, Path inferior.instructions allowed inferior.start n s := by
  induction recent generalizing s with
  | nil =>
      rw [h.eq_start]
      exact ⟨0, .start⟩
  | cons p recent ih =>
      rw [List.cons_append] at h
      generalize hreports : p :: (recent ++ inferior.earlier) = reports at h
      cases h with
      | start =>
          have hlength := congrArg List.length hreports
          rw [List.length_cons, List.length_append] at hlength
          exact absurd hlength (by omega)
      | report before user below requested path trace =>
          obtain ⟨rfl, rfl⟩ := List.cons.inj hreports
          obtain ⟨n, hpath⟩ := ih before fun q hq => hallowed q (List.mem_cons_of_mem _ hq)
          exact ⟨_, hpath.trans (path.mono (hallowed _ List.mem_cons_self))⟩

/-- After the report of a single step the program is one instruction further. -/
theorem Led.one_step {d : Delivery} {events : List Observation}
    (h : inferior.Led ((d, events) :: inferior.earlier) s) (htrace : d.status.IsTrace d.siCode) :
    inferior.step inferior.start s := by
  generalize hreports : (d, events) :: inferior.earlier = reports at h
  cases h with
  | start =>
      have hlength := congrArg List.length hreports
      rw [List.length_cons] at hlength
      exact absurd hlength (by omega)
  | report before user below requested path trace =>
      obtain ⟨hreport, rfl⟩ := List.cons.inj hreports
      cases hreport
      obtain ⟨-, rfl⟩ := trace htrace
      obtain rfl := before.eq_start
      cases path with
      | step path here next =>
          rw [path.eq_of_zero] at next
          exact next

end Onward

section Ready

variable {inferior : Inferior} {m m' : Machine} {s : User × Memory 64} {handlers : HitHandlers}
  {reason : StopReason}

/-- The state of the program that a machine shows. -/
def shown (inferior : Inferior) (m : Machine) : User × Memory 64 :=
  ((m.kernel.threads inferior.tid).user.plain, m.ownMemory)

/-- The thread is stopped where the program is, and the debugger has its registers. -/
structure Ready (inferior : Inferior) (m : Machine) : Prop extends inferior.Sound m where
  current : Current m
  read : ReadInTime m.trace
  stopped : m.isStopped inferior.tid = true
  waited : collected inferior.tid m.trace = true

theorem At.shown (h : inferior.At s m) : inferior.shown m = s := by
  have hown : Shadow m.ownMemory m := shadow_ownMemory h.below.distinct
    fun site hsite harmed => (h.below.armed site hsite harmed).1
  exact Prod.ext h.user (ShadowOf.eq_of hown h.below)

theorem Ready.present (h : inferior.Ready m) :
    (m.kernel.threads inferior.tid).status ≠ .absent := by
  intro habsent
  have hstopped := h.stopped
  rw [Machine.isStopped, habsent] at hstopped
  cases hstopped

theorem Ready.at (h : inferior.Ready m) :
    inferior.At (inferior.shown m) m ∧ inferior.Reaches (inferior.shown m) := by
  obtain ⟨s, hat, hreaches⟩ := h.toSound.at h.present
  rw [hat.shown]
  exact ⟨hat, hreaches⟩

/-- The program counter that the debugger sees is the program's. -/
theorem Ready.getPc (h : inferior.Ready m) :
    Debugger.getPc inferior.tid m = (.ok (User.pc (inferior.shown m).1), m) := by
  obtain ⟨thread, hthread, hdefined, -⟩ := h.tracked
  obtain ⟨-, hmirrors⟩ := (h.current h.read).mirrors inferior.tid thread not_false hthread h.waited
  have hpc : User.pc thread.regs.data = User.pc (m.kernel.threads inferior.tid).user :=
    User.pc_congr fun i hi => hmirrors h.present i hi.isRegisterByte
  rw [getPc_eq hthread hdefined, hpc, Inferior.shown, User.pc_plain]

theorem Ready.of_inert (h : inferior.Ready m) (hsame : Inert inferior.tid m m')
    (hstatus : (m'.kernel.threads inferior.tid).status = (m.kernel.threads inferior.tid).status)
    (hcollected : collected inferior.tid m'.trace = collected inferior.tid m.trace)
    (hcurrent : Current m') (hread : ReadInTime m'.trace) :
    inferior.Ready m' ∧ inferior.shown m' = inferior.shown m := by
  obtain ⟨hat, -⟩ := h.at
  refine ⟨⟨h.toSound.of_inert hsame, hcurrent, hread, ?_, hcollected.trans h.waited⟩, ?_⟩
  · rw [Machine.isStopped, hstatus]
    exact h.stopped
  · exact At.shown ⟨hsame.user.trans hat.user, hsame.shadow _ hat.below⟩

/-- A stop that a wait returns. -/
theorem waitOnSignal_ready {toAwait : Option Tid}
    (hrun : Debugger.waitOnSignal handlers toAwait m = (.ok reason, m')) (hsound : inferior.Sound m)
    (hcurrent : Current m) (hassumed : inferior.Assumed m') (hread : ReadInTime m'.trace) :
    inferior.Reports m.roster.events reason m' ∧
      (reason.reason = .stopped → inferior.Ready m') := by
  have hreports := (waitOnSignal_reports toAwait m.roster.events m
    fun _ => ⟨hsound, rfl⟩).1 reason m' hrun hassumed
  refine ⟨hreports, fun hstopped => ⟨hreports.toSound, ?_, hread, hreports.stopped hstopped, ?_⟩⟩
  · exact ((cacheRules handlers).waitOnSignal toAwait m hcurrent).1 reason m' hrun
  · rw [← collected_events]
    exact hreports.waited

/-- Where the reports led the program. -/
theorem Sound.led (h : inferior.Sound m)
    (hpresent : (m.kernel.threads inferior.tid).status ≠ .absent) :
    inferior.Led (deliveries m.roster.events) (inferior.shown m) := by
  obtain ⟨below, hshadow, hled⟩ := h.stands hpresent
  have hat : inferior.At ((m.kernel.threads inferior.tid).user.plain, below) m := ⟨rfl, hshadow⟩
  rwa [hat.shown]

/-- After any run, where the thread was waited for last. -/
theorem Begins.ready {start : Machine} (hbegins : inferior.Begins start)
    (hrun : Run handlers start m) (hstopped : m.isStopped inferior.tid = true)
    (hwaited : collected inferior.tid m.trace = true) (hassumed : inferior.Assumed m)
    (hread : ReadInTime m.trace) : inferior.Ready m :=
  ⟨run_rest hrun (fun _ => hbegins.sound) hassumed, hrun.current hbegins.synchronized, hread,
    hstopped, hwaited⟩

theorem Ready.since (h : inferior.Ready m) :
    (inferior.onward (inferior.shown m) m).Since (deliveries m.roster.events) m :=
  h.toSound.onward h.at.1

end Ready

section Rounds

variable {inferior : Inferior} {env : StepEnv} {stack stack' : Stack} {address : Word}
  {m m' : Machine} {reason : StopReason}

theorem createBreakpointSite_inert (t : Tid) (address : Word) (hardware internal : Bool) :
    Respects (Inert t) (createBreakpointSite address hardware internal) := by
  intro m
  have hrun : Inert t m ((SiteOperation.create address hardware internal).run m).2 :=
    siteOperation_inert _ m
  change Inert t m ((createBreakpointSite address hardware internal >>= fun _ =>
    pure PUnit.unit) m).2 at hrun
  rcases hcreate : createBreakpointSite address hardware internal m with ⟨e | index, m'⟩
  · rw [bind_of_error hcreate] at hrun
    exact hrun
  · rw [bind_of_ok hcreate] at hrun
    exact hrun

theorem setTrap_inert (t : Tid) (address : Word) : Respects (Inert t) (setTrap address) :=
  Respects.bind Respects.get fun _ => Respects.ite (Respects.pure _)
    (Respects.bind (createBreakpointSite_inert t address false true) fun _ =>
      Respects.bind (enableSite_inert _) fun _ => Respects.pure _)

theorem removeByAddress_inert (t : Tid) (address : Word) :
    Respects (Inert t) (removeByAddress address) := by
  have hframe : ∀ {R : Machine → Machine → Prop} [Std.Refl R] [IsTrans Machine R],
      SiteFrame true R → Respects R (removeByAddress address) :=
    fun h => Respects.bind Respects.get fun _ => h.removeSite _
  exact inert_of_frames (hframe siteFrame_roster) (hframe siteFrame_leaves) fun below =>
    Respects.bind Respects.get fun _ => removeSite_shadow below _

/-- What neither the thread's status nor the observations of threads show. -/
theorem Ready.of_roster {α : Type} {x : Debugger α} {r : Except Failure α} (h : inferior.Ready m)
    (hrun : x m = (r, m')) (hinert : Respects (Inert inferior.tid) x)
    (hroster : Respects (Fixes Machine.roster) x) (hcurrent : Respects (Carries Current) x)
    (hread : ReadInTime m'.trace) : inferior.Ready m' ∧ inferior.shown m' = inferior.shown m := by
  have hsame : m'.roster = m.roster := hroster.apply_eq hrun
  refine h.of_inert (hinert.apply_eq hrun) (congrFun (congrArg Roster.status hsame) inferior.tid)
    ?_ (hcurrent.apply_eq hrun h.current) hread
  have hevents : m'.roster.events = m.roster.events := congrArg Roster.events hsame
  have hcollected := congrArg (collected inferior.tid) hevents
  rwa [Machine.roster, Machine.roster, collected_events, collected_events] at hcollected

/-- What the wait that ended reported, for the program from where it stood before. -/
theorem Ready.waited_onward {start : Machine} {toAwait : Option Tid} {handlers : HitHandlers}
    (h : inferior.Ready start) (hsince : (inferior.onward (inferior.shown start) start).Sound m)
    (hrun : Debugger.waitOnSignal handlers toAwait m = (.ok reason, m'))
    (hassumed : inferior.Assumed m') :
    (inferior.onward (inferior.shown start) start).Reports m.roster.events reason m' := by
  obtain ⟨-, hreaches⟩ := h.at
  exact (waitOnSignal_reports toAwait m.roster.events m fun _ => ⟨hsince, rfl⟩).1 reason m' hrun
    (hassumed.onward h.toKept hreaches)

/-- A step that ends as a step is one instruction of the program. -/
theorem stepAndUnwind_steps (h : inferior.Ready m)
    (hrun : stepAndUnwind env inferior.tid stack m = (.ok (reason, stack'), m'))
    (hassumed : inferior.Assumed m') (hread : ReadInTime m'.trace) (hstep : reason.isStep = true) :
    inferior.Ready m' ∧ inferior.step (inferior.shown m) (inferior.shown m') ∧
      env.StartsAt (User.pc (inferior.shown m').1) stack'.inlineHeight := by
  obtain ⟨⟨toReenable, pc⟩, m₁, hbegin, h₁⟩ := Eff.bind_eq_ok.mp hrun
  obtain ⟨first, m₀, hwait, h₂⟩ := Eff.bind_eq_ok.mp h₁
  obtain ⟨unwound, m₂, hnotify, h₃⟩ := Eff.bind_eq_ok.mp h₂
  obtain rfl := notifyStop_machine hnotify
  obtain ⟨u, m₃, hreenable, h₄⟩ := Eff.bind_eq_ok.mp h₃
  cases h₄
  have hremembers₂ : Remembers m₂ m' := (reenable_remembers toReenable pc).apply_eq hreenable
  have hremembers₁ : Remembers m₁ m₂ :=
    ((stopFrame_remembers env.handlers).waitOnSignal (fun _ => trivial) _).apply_eq hwait
  have hassumed₂ := hassumed.of_remembers hremembers₂
  have hassumed₁ := hassumed₂.of_remembers hremembers₁
  have hread₂ := hread.of_suffix hremembers₂
  obtain ⟨-, hreaches⟩ := h.at
  -- the thread is let run
  have hsince := (beginStep_since _ m fun _ => ⟨h.toSound, rfl⟩).1 _ m₁ hbegin hassumed₁
  have honward := (beginStep_since _ m fun _ => h.since).1 _ m₁ hbegin
    (hassumed₁.onward h.toKept hreaches)
  have hcurrent := ((cacheRules env.handlers).beginStep inferior.tid m h.current).1 _ m₁ hbegin
  -- it reports
  obtain ⟨hreports, hready⟩ := waitOnSignal_ready hwait hsince.1 hcurrent hassumed₂ hread₂
  have hstopped : reason.reason = .stopped := (of_decide_eq_true hstep).1
  have hready₂ := hready hstopped
  have hled := (h.waited_onward honward.1 hwait hassumed₂).toSound.led hready₂.present
  obtain ⟨-, d, hdelivered, htrace⟩ := hreports.stepped hstep
  rw [hdelivered, hsince.2] at hled
  have hnext := hled.one_step htrace
  have hstarts := notifyStop_startsAt (Machine.getPc_of_run hready₂.getPc) hstopped hreports.tid
    (fun entry hentry => hready₂.alone _ (List.mem_map_of_mem hentry)) hnotify
  -- the site is put back
  obtain ⟨hready', hshown⟩ := hready₂.of_roster hreenable
    (reenable_respects (fun bp => relaySite_inert bp _) _)
    (reenable_respects (fun bp => relaySite_roster bp _) _)
    (reenable_respects (fun bp => relaySite_current bp _) _) hread
  rw [hshown]
  exact ⟨hready', hnext, hstarts⟩

/-- A stop is relabelled where the thread stands at the address. -/
theorem relabel_ready (h : inferior.Ready m) {reason' : StopReason}
    (hrun : relabel address inferior.tid reason m = (.ok reason', m')) :
    m' = m ∧ (reason'.isStep = true →
      reason.isStep = true ∨ User.pc (inferior.shown m).1 = address) := by
  unfold relabel at hrun
  split at hrun
  · rw [bind_of_ok h.getPc] at hrun
    split at hrun <;> cases hrun
    · rename_i hpc
      exact ⟨rfl, fun _ => .inr hpc⟩
    · exact ⟨rfl, .inl⟩
  · cases hrun
    exact ⟨rfl, .inl⟩

theorem finishRun_reason {reason' : StopReason} {toRemove : Bool} {tid : Tid}
    (hrun : finishRun address tid toRemove reason m = (.ok reason', m')) :
    reason'.reason = reason.reason := by
  obtain ⟨relabelled, m₁, hrelabel, h₁⟩ := Eff.bind_eq_ok.mp hrun
  obtain ⟨u, m₂, -, h₂⟩ := Eff.bind_eq_ok.mp h₁
  obtain ⟨thread, m₃, -, h₃⟩ := Eff.bind_eq_ok.mp h₂
  cases h₃
  unfold relabel at hrelabel
  split at hrelabel
  · obtain ⟨pc, m₄, -, hend⟩ := Eff.bind_eq_ok.mp hrelabel
    split at hend <;> cases hend <;> rfl
  · cases hrelabel
    rfl

/-- The part of a run to an address after the wait. -/
theorem finishRun_ready (h : inferior.Ready m) {reason' : StopReason} {toRemove : Bool}
    (hrun : finishRun address inferior.tid toRemove reason m = (.ok reason', m'))
    (hread : ReadInTime m'.trace) :
    inferior.Ready m' ∧ inferior.shown m' = inferior.shown m ∧
      (reason'.isStep = true →
        reason.isStep = true ∨ User.pc (inferior.shown m).1 = address) := by
  obtain ⟨relabelled, m₁, hrelabel, h₁⟩ := Eff.bind_eq_ok.mp hrun
  obtain ⟨rfl, hlabel⟩ := relabel_ready h hrelabel
  obtain ⟨u, m₂, hremove, h₂⟩ := Eff.bind_eq_ok.mp h₁
  obtain ⟨thread, m₃, hthread, h₃⟩ := Eff.bind_eq_ok.mp h₂
  obtain ⟨-, rfl⟩ := threadAt_eq_ok hthread
  cases h₃
  have hinert : Respects (Inert inferior.tid) (removeTrap toRemove address) :=
    Respects.ite (removeByAddress_inert _ address) (Respects.pure _)
  obtain ⟨hready, hshown⟩ := h.of_roster hremove hinert (removeTrap_frame siteFrame_roster _ _)
    (removeTrap_frame siteFrame_current _ _) hread
  have hnoted : Inert inferior.tid m₃ (updateThread inferior.tid
    (fun t => { t with reason := reason' }) m₃).2 := updateThread_inert fun _ _ => ⟨rfl, rfl⟩
  obtain ⟨hready', hshown'⟩ := hready.of_inert hnoted rfl rfl
    (hready.current.update _ fun _ => rfl) hread
  exact ⟨hready', hshown'.trans hshown, hlabel⟩

/-- A run that ends as a step ends at the address, where the program's own instructions led. -/
theorem runAndUnwind_runs (h : inferior.Ready m)
    (hrun : runAndUnwind env address inferior.tid stack m = (.ok (reason, stack'), m'))
    (hassumed : inferior.Assumed m') (hread : ReadInTime m'.trace) (hstep : reason.isStep = true) :
    inferior.Ready m' ∧ User.pc (inferior.shown m').1 = address ∧
      (∃ n, Path inferior.instructions (fun _ => True) (inferior.shown m) n (inferior.shown m')) ∧
      env.StartsAt (User.pc (inferior.shown m').1) stack'.inlineHeight := by
  obtain ⟨toRemove, m₁, htrap, h₁⟩ := Eff.bind_eq_ok.mp hrun
  obtain ⟨u, m₂, hresume, h₂⟩ := Eff.bind_eq_ok.mp h₁
  obtain ⟨first, m₀, hwait, h₃⟩ := Eff.bind_eq_ok.mp h₂
  obtain ⟨unwound, m₃, hnotify, h₄⟩ := Eff.bind_eq_ok.mp h₃
  obtain rfl := notifyStop_machine hnotify
  obtain ⟨last, m₅, hfinish, h₅⟩ := Eff.bind_eq_ok.mp h₄
  cases h₅
  have hremembers₃ : Remembers m₃ m' := (finishRun_frame siteFrame_remembers
    (fun _ _ => Respects.modify fun _ => .of_eq rfl) _ _ _ _).apply_eq hfinish
  have hremembers₂ : Remembers m₂ m₃ :=
    ((stopFrame_remembers env.handlers).waitOnSignal (fun _ => trivial) _).apply_eq hwait
  have hremembers₁ : Remembers m₁ m₂ := (resumeFrame_remembers inferior.tid).resume.apply_eq hresume
  have hassumed₃ := hassumed.of_remembers hremembers₃
  have hassumed₂ := hassumed₃.of_remembers hremembers₂
  have hassumed₁ := hassumed₂.of_remembers hremembers₁
  have hread₃ := hread.of_suffix hremembers₃
  obtain ⟨-, hreaches⟩ := h.at
  -- the trap is set and the thread is let run
  have htrapped : Inert inferior.tid m m₁ := (setTrap_inert _ address).apply_eq htrap
  obtain ⟨hsound, hrequest⟩ := (resume_goesOn inferior.tid (P := inferior.Known inferior.tid)
    (fun _ hm => hm) m₁ fun _ => ⟨h.toSound.of_inert htrapped, rfl⟩).1 u m₂ hresume hassumed₂
  have honward := (resume_rest (some inferior.tid) m₁ fun _ => h.since.1.of_inert htrapped).1 u m₂
    hresume (hassumed₂.onward h.toKept hreaches)
  have hcurrent₁ := (setTrap_frame siteFrame_current address).apply_eq htrap h.current
  have hcurrent := ((cacheRules env.handlers).resume _ m₁ hcurrent₁).1 u m₂ hresume
  -- it reports
  obtain ⟨hreports, hready⟩ := waitOnSignal_ready hwait hsound hcurrent hassumed₃ hread₃
  have hstopped : first.reason = .stopped :=
    (finishRun_reason hfinish).symm.trans (of_decide_eq_true hstep).1
  have hready₃ := hready hstopped
  have hled := (h.waited_onward honward hwait hassumed₃).toSound.led hready₃.present
  have hstarts := notifyStop_startsAt (Machine.getPc_of_run hready₃.getPc) hstopped hreports.tid
    (fun entry hentry => hready₃.alone _ (List.mem_map_of_mem hentry)) hnotify
  obtain ⟨hready', hshown, hlabel⟩ := finishRun_ready hready₃ hfinish hread
  rw [hshown]
  refine ⟨hready', ?_, ?_, hstarts⟩
  · rcases hlabel hstep with hstepped | hpc
    · exact absurd (hreports.stepped hstepped).1 hrequest
    · exact hpc
  · obtain ⟨recent, hrecent⟩ := hled.suffix
    rw [← hrecent] at hled
    exact hled.path fun _ _ _ _ => trivial

end Rounds

end Inferior

end Gsdb
