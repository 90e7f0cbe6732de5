/-
What single steps of the debugger do to an inferior with one thread.  Whatever happens between two
stops, the thread stays where the program's own instructions led, up to the trap bytes over the
program; a trap at a site is undone while it is decoded.
-/
import Gsdb.NativeExecution
import Gsdb.RunUntil

namespace Gsdb

open ByteMemory Effects Eff Debugger PatchedExecution

namespace Inferior

variable (inferior : Inferior)

/-- What the debugger relies on, of what was observed so far. -/
structure Assumed (m : Machine) : Prop where
  hosted : inferior.Hosted m.roster.events
  current : PcCurrent m.trace

/-- The reports led the program to these registers, with the memory below the sites. -/
def Stands (m : Machine) (user : User) : Prop :=
  ∃ below, Shadow below m ∧ inferior.Led (deliveries m.roster.events) (user, below)

/-- The thread is the only one that is tracked, and its stops so far were native. -/
structure Kept (m : Machine) : Prop where
  attached : m.process.isAttached = true
  tracked : ∃ thread, m.thread? inferior.tid = some thread ∧ thread.regs.undefinedOffsets = [] ∧
    thread.pendingSigstop = false
  alone : ∀ tid ∈ m.roster.tids, tid = inferior.tid
  earlier : inferior.earlier ⊆ deliveries m.roster.events
  native : ∀ p ∈ deliveries m.roster.events, p ∉ inferior.earlier → p.1.status.isStop = true →
    inferior.IsNative p.1

/-- The thread is where its own instructions led, unless it is gone. -/
structure Sound (m : Machine) : Prop extends inferior.Kept m where
  stands : (m.kernel.threads inferior.tid).status ≠ .absent →
    inferior.Stands m (m.kernel.threads inferior.tid).user.plain

/-- The thread reported and the report was not dealt with yet: it is gone, stands where it should
or stands behind a site. -/
structure Due (event : WaitEvent) (m : Machine) : Prop extends inferior.Kept m where
  tid : event.tid = inferior.tid
  thread : m.kernel.threads inferior.tid =
    ⟨if event.status.isStop then .stopped else .absent, event.user, event.siCode⟩
  place : event.status.isStop = true →
    (¬ event.IsTrapReport ∧ inferior.Stands m event.user.plain) ∨
      (event.status = .stopped sigtrap 0 ∧ event.siCode = .siKernel ∧
        ∃ user, inferior.Stands m user ∧ Covers m.process.breakpointSites (User.pc user) ∧
          event.user.plain = user.behindTrap)

end Inferior

/-- What leaves the thread and the memory below the sites alone.  The thread may be let run, and
others may be dropped. -/
structure Inert (t : Tid) (m m' : Machine) : Prop where
  attached : m'.process.isAttached = m.process.isAttached
  entry : ∀ thread, m.thread? t = some thread → ∃ thread', m'.thread? t = some thread' ∧
    thread'.regs.undefinedOffsets = thread.regs.undefinedOffsets ∧
    thread'.pendingSigstop = thread.pendingSigstop
  tids : m'.roster.tids ⊆ m.roster.tids
  delivered : deliveries m'.roster.events = deliveries m.roster.events
  present : (m'.kernel.threads t).status ≠ .absent → (m.kernel.threads t).status ≠ .absent
  user : (m'.kernel.threads t).user.plain = (m.kernel.threads t).user.plain
  shadow : ∀ below, Shadow below m → Shadow below m'

section Inert

variable {t : Tid} {m m' : Machine} {handlers : HitHandlers}

instance : Std.Refl (Inert t) := ⟨fun _ => ⟨rfl, fun thread h => ⟨thread, h, rfl, rfl⟩,
  List.Subset.refl _, rfl, id, rfl, fun _ h => h⟩⟩

instance : IsTrans Machine (Inert t) := ⟨fun _ _ _ h h' =>
  { attached := h'.attached.trans h.attached
    entry := fun thread hthread => by
      obtain ⟨thread', hthread', hoffsets, hpending⟩ := h.entry thread hthread
      obtain ⟨thread'', hthread'', hoffsets', hpending'⟩ := h'.entry thread' hthread'
      exact ⟨thread'', hthread'', hoffsets'.trans hoffsets, hpending'.trans hpending⟩
    tids := fun _ htid => h.tids (h'.tids htid)
    delivered := h'.delivered.trans h.delivered
    present := fun hpresent => h.present (h'.present hpresent)
    user := h'.user.trans h.user
    shadow := fun below hbelow => h'.shadow below (h.shadow below hbelow) }⟩

/-- A change that reaches nothing but settings. -/
theorem Inert.of_eq (hthreads : m'.process.threads = m.process.threads)
    (hattached : m'.process.isAttached = m.process.isAttached) (hkernel : m'.kernel = m.kernel)
    (hsites : m'.process.breakpointSites = m.process.breakpointSites)
    (htrace : deliveries m'.roster.events = deliveries m.roster.events) : Inert t m m' := by
  have hthread : m'.thread? t = m.thread? t := by rw [Machine.thread?, Machine.thread?, hthreads]
  refine ⟨hattached, fun thread h => ⟨thread, hthread.trans h, rfl, rfl⟩, ?_, htrace, ?_, ?_, ?_⟩
  · change m'.process.threads.map (·.1) ⊆ m.process.threads.map (·.1)
    rw [hthreads]
    exact List.Subset.refl _
  · rw [hkernel]
    exact id
  · rw [hkernel]
  · intro below hbelow
    rw [Shadow, hkernel, hsites]
    exact hbelow

/-- What keeps the roster and leaves the thread's registers but for the debug registers. -/
theorem inert_of_frames {α : Type} {x : Debugger α} (hroster : Respects (Fixes Machine.roster) x)
    (hleaves : Respects (LeavesThread true t) x)
    (hshadow : ∀ below, Respects (Carries (Shadow below)) x) : Respects (Inert t) x := by
  intro m
  have hfixed : (x m).2.roster = m.roster := hroster m
  have hsame := (hleaves m fun h => by cases h).2
  refine ⟨congrArg Roster.attached hfixed, fun thread hthread => ?_, ?_, ?_, ?_,
    User.plain_congr fun i hi => hsame.user i fun _ => hi, fun below => hshadow below m⟩
  · have hrecord : ((x m).2.thread? t).map ThreadState.record = some thread.record :=
      (congrFun (congrArg Roster.record hfixed) t).trans (by simp [Machine.roster, hthread])
    obtain ⟨thread', hthread', hsame'⟩ := Option.map_eq_some_iff.mp hrecord
    obtain ⟨old, hold, hcached⟩ := hsame.cached thread' hthread'
    rw [hthread] at hold
    cases hold
    exact ⟨thread', hthread', hcached.undefinedOffsets,
      congrArg ThreadRecord.pendingSigstop hsame'⟩
  · rw [hfixed]
    exact List.Subset.refl _
  · rw [hfixed]
  · rw [hsame.status]
    exact id

/-- An entry may change in other ways. -/
theorem updateThread_inert {tid : Tid} {f : ThreadState → ThreadState}
    (hf : ∀ thread, m.thread? tid = some thread →
      (f thread).regs.undefinedOffsets = thread.regs.undefinedOffsets ∧
        (f thread).pendingSigstop = thread.pendingSigstop) :
    Inert t m (updateThread tid f m).2 := by
  refine ⟨rfl, fun thread hthread => ?_, ?_, rfl, id, rfl, fun _ h => h⟩
  · by_cases ht : t = tid
    · subst ht
      exact ⟨f thread, by rw [Machine.thread?_updateThread, hthread]; rfl, hf thread hthread⟩
    · exact ⟨thread, by rw [Machine.thread?_updateThread_of_ne m f ht, hthread], rfl, rfl⟩
  · change (updateThread tid f m).2.process.threads.map (·.1) ⊆ m.process.threads.map (·.1)
    rw [threads_updateThread]
    exact List.Subset.refl _

/-- What is no delivery does not count. -/
theorem observe_inert {observation : Observation}
    (h : ∀ earlier, deliveries (observation :: earlier) = deliveries earlier) (m : Machine) :
    Inert t m (m.observe observation) := by
  refine .of_eq rfl rfl rfl rfl ?_
  change deliveries ((observation :: m.trace).filter Observation.isThreadEvent) = _
  rw [List.filter_cons]
  split
  · exact h _
  · rfl

theorem user_letRun (m : Machine) (tid : Tid) (request : RunRequest) (t : Tid) :
    ((m.letRun tid request).kernel.threads t).user = (m.kernel.threads t).user := by
  by_cases ht : t = tid
  · subst ht
    simp [Machine.letRun, Machine.setThreadStatus, Machine.observe]
  · simp [Machine.letRun, Machine.setThreadStatus, Machine.observe, ht]

theorem letRun_inert {tid : Tid} (hstopped : m.isStopped tid = true) (request : RunRequest) :
    Inert t m (m.letRun tid request) := by
  refine ⟨rfl, fun thread h => ⟨thread, h, rfl, rfl⟩, List.Subset.refl _, rfl, fun hpresent => ?_,
    congrArg User.plain (user_letRun m tid request t), fun _ hm => hm⟩
  rw [status_letRun] at hpresent
  split at hpresent
  · rename_i ht
    subst ht
    intro habsent
    rw [Machine.isStopped, habsent] at hstopped
    cases hstopped
  · exact hpresent

theorem ptraceRun_inert (request : RunRequest) (tid : Tid) :
    Respects (Inert t) (ptraceRun request tid) := by
  intro m
  rcases ptraceRun_cases request tid m with ⟨hstopped, h⟩ | ⟨-, h⟩ <;> rw [h]
  · exact letRun_inert hstopped request
  · exact refl_of _ m

theorem setScript_inert (m : Machine) (script : List WaitAnswer) :
    Inert t m (m.setScript script) :=
  ⟨rfl, fun thread h => ⟨thread, h, rfl, rfl⟩, List.Subset.refl _, rfl, id, rfl, fun _ h => h⟩

theorem siteOperation_inert (op : SiteOperation) : Respects (Inert t) op.run :=
  inert_of_frames (siteFrame_roster.run (.inl rfl)) (siteFrame_leaves.run (.inl rfl))
    fun below => op.run_shadow below

theorem enableSite_inert (index : Nat) : Respects (Inert t) (enableSite index) :=
  inert_of_frames (siteFrame_roster.enableSite index) (siteFrame_leaves.enableSite index)
    fun below => enableSite_shadow below index

theorem disableSite_inert (index : Nat) : Respects (Inert t) (disableSite index) :=
  inert_of_frames (siteFrame_roster.disableSite index) (siteFrame_leaves.disableSite index)
    fun below => disableSite_shadow below index

theorem watchpointFrame_leaves : WatchpointFrame (LeavesThread true t) where
  slots := debugRegisterFrame_leaves
  watchpoints := fun _ _ _ => LeavesThread.of_eq rfl rfl rfl (fun _ h => h) rfl
  note := fun _ observation hnote => LeavesThread.of_eq rfl rfl rfl (fun _ h => h)
    (by cases observation <;> first | rfl | cases hnote)

theorem watchpointFrame_shadow (below : Memory 64) :
    WatchpointFrame (Carries (Shadow below)) where
  slots := fun tid index id val hid => (debugRegisterFrame_untouched tid index id val hid).mono
    fun _ _ hsame hm => hm.of_untouched hsame
  watchpoints := fun _ _ _ hm => hm
  note := fun _ _ _ hm => hm

theorem watchpointOperation_inert (op : WatchpointOperation) : Respects (Inert t) op.run :=
  inert_of_frames (watchpointFrame_roster.run op) (watchpointFrame_leaves.run op)
    fun below => (watchpointFrame_shadow below).run op

theorem action_inert (action : HitAction) : Respects (Inert t) (HitAction.run action) := by
  cases action with
  | site op => exact siteOperation_inert op
  | breakpoints points =>
      exact Respects.modify fun _ => .of_eq rfl rfl rfl rfl rfl

theorem relaySite_inert (bp : Nat) (address : Word) : Respects (Inert t) (relaySite bp address) :=
  Respects.bind (enableSite_inert bp) fun _ =>
    Respects.modify fun m => observe_inert (fun _ => rfl) m

theorem augmentStopReason_inert (reason : StopReason) :
    Respects (Inert t) (augmentStopReason reason) := by
  intro m
  have hset : ∀ entry, Inert t m (m.setProcess fun p => { p with expectingSyscallExit := entry }) :=
    fun _ => .of_eq rfl rfl rfl rfl rfl
  rcases augmentStopReason_cases reason m with ⟨e, h⟩ | ⟨info, -, -, h⟩ | ⟨-, h⟩ <;> rw [h]
  · exact refl_of _ m
  · exact trans_of (Inert t) (hset _) (observe_inert (fun _ => rfl) _)
  · exact trans_of (Inert t) (hset _) (observe_inert (fun _ => rfl) _)

theorem load_inert (m : Machine) (tid : Tid) : Inert t m (m.load tid) :=
  updateThread_inert fun _ _ => ⟨rfl, rfl⟩

theorem decoded_inert (m : Machine) (reason : StopReason) : Inert t m (m.decoded reason) := by
  have hnoted : Inert t (m.load reason.tid) (m.decoded reason) := .of_eq rfl rfl rfl rfl rfl
  exact trans_of (Inert t) (load_inert m reason.tid) hnoted

theorem updateData_inert (id : Int) : Respects (Inert t) (updateData id) := by
  refine Respects.bind Respects.get fun m => Respects.bind (Respects.ofExcept _) fun index => ?_
  split
  · exact Respects.throw _
  · exact Respects.bind (Respects.ofExcept _) fun read => Respects.modify fun _ =>
      .of_eq rfl rfl rfl rfl rfl

theorem notifyHit_inert (parent : Nat) : Respects (Inert t) (notifyHit handlers parent) := by
  refine Respects.bind Respects.get fun m => ?_
  split
  · exact Respects.throw _
  · split
    · exact Respects.pure _
    · exact Respects.pure _
    · exact Respects.bind (Respects.forEach fun action _ => action_inert action) fun _ =>
        Respects.ofExcept _

/-- Only a trap that the kernel reports sets the thread back. -/
theorem handleTrap_inert {reason : StopReason} (h : reason.trapReason ≠ some .softwareBreak)
    (isMainStop : Bool) : Respects (Inert t) (handleTrap handlers reason isMainStop) := by
  refine Respects.bind (readRegister_respects _ _) fun pc => Respects.bind Respects.get fun m => ?_
  rw [if_neg fun hboth => h hboth.1]
  refine Respects.ite ?_ (Respects.pure _)
  refine Respects.bind (DecodeFrame.getCurrentHardwareStoppoint _) fun id => ?_
  cases id with
  | inl _ => exact Respects.pure _
  | inr id => exact Respects.bind (updateData_inert id) fun _ => Respects.pure _

end Inert

theorem PcCurrent.of_suffix {earlier trace : List Observation} (hsuffix : earlier <:+ trace)
    (h : PcCurrent trace) : PcCurrent earlier := by
  obtain ⟨recent, rfl⟩ := hsuffix
  induction recent with
  | nil => exact h
  | cons observation recent ih =>
      cases observation with
      | sampledPc tid moment => exact ih h.2
      | _ => exact ih h

namespace Inferior

variable {inferior : Inferior} {m m' : Machine} {event : WaitEvent} {user : User}

/-- What the debugger can rely on at the end it could rely on before. -/
theorem Assumed.of_remembers (h : inferior.Assumed m') (hremembers : Remembers m m') :
    inferior.Assumed m := by
  have hsub : deliveries m.roster.events ⊆ deliveries m'.roster.events :=
    deliveries_suffix (hremembers.filter _)
  exact ⟨⟨fun p hp => h.hosted.driven p (hsub hp), h.hosted.trapless,
    fun p hp => h.hosted.undisturbed p (hsub hp)⟩, h.current.of_suffix hremembers⟩

theorem Stands.of_inert {t : Tid} (h : inferior.Stands m user) (hsame : Inert t m m') :
    inferior.Stands m' user := by
  obtain ⟨below, hshadow, hled⟩ := h
  exact ⟨below, hsame.shadow below hshadow, hsame.delivered ▸ hled⟩

theorem Kept.of_inert (h : inferior.Kept m) (hsame : Inert inferior.tid m m') :
    inferior.Kept m' where
  attached := hsame.attached.trans h.attached
  tracked := by
    obtain ⟨thread, hthread, hdefined, hpending⟩ := h.tracked
    obtain ⟨thread', hthread', hoffsets, hpending'⟩ := hsame.entry thread hthread
    exact ⟨thread', hthread', hoffsets.trans hdefined, hpending'.trans hpending⟩
  alone := fun tid htid => h.alone tid (hsame.tids htid)
  earlier := hsame.delivered ▸ h.earlier
  native := hsame.delivered ▸ h.native

theorem Sound.of_inert (h : inferior.Sound m) (hsame : Inert inferior.tid m m') :
    inferior.Sound m' where
  toKept := h.toKept.of_inert hsame
  stands := fun hpresent => by
    rw [hsame.user]
    exact (h.stands (hsame.present hpresent)).of_inert hsame

/-- Another thread is not tracked. -/
theorem Kept.untracked (h : inferior.Kept m) {tid : Tid} (htid : tid ≠ inferior.tid) :
    m.thread? tid = none := by
  cases hthread : m.thread? tid with
  | none => rfl
  | some thread =>
      refine absurd (h.alone tid ?_) htid
      change tid ∈ m.process.threads.map (·.1)
      rw [m.mem_threads_iff, hthread]
      rfl

/-- Instructions over the covered program: what they do to the program itself, and where a trap
that ends them comes from. -/
theorem Answered.native {request : RunRequest} {below memory : Memory 64}
    {sites : List BreakpointSite} (h : inferior.Answered request (user, memory) event)
    (hstop : event.status.isStop = true) (hshadow : ShadowOf below memory sites)
    (hreach : inferior.Reaches (user, below))
    (htrapless : ∀ s, inferior.Reaches s → s.2 (User.pc s.1) ≠ int3)
    (hquiet : ∀ s, inferior.Reaches s → Undisturbed (Covers sites) inferior.instructions int3 s) :
    ∃ after n user', ShadowOf after event.memory sites ∧
      Path inferior.instructions (fun s => ¬ Covers sites (User.pc s.1)) (user, below) n
        (user', after) ∧
      (event.status.IsTrace event.siCode → request = .singleStep ∧ n = 1) ∧
      ((¬ event.IsTrapReport ∧ event.user.plain = user') ∨
        (event.status = .stopped sigtrap 0 ∧ event.siCode = .siKernel ∧
          Covers sites (User.pc user') ∧ event.user.plain = user'.behindTrap ∧
          (request = .singleStep → n = 0))) := by
  have hmoved : ∀ {n : Nat} {user' : User},
      inferior.Moves n (user, memory) (user', event.memory) →
      ∃ after, ShadowOf after event.memory sites ∧
        Path inferior.instructions (fun s => ¬ Covers sites (User.pc s.1)) (user, below) n
          (user', after) := by
    intro n user' hmoves
    rw [hshadow.eq_patch] at hmoves
    obtain ⟨hmemory, hpath⟩ := Path.unpatched
      (fun s hs => hquiet s (hreach.trans hs)) hmoves
    exact ⟨_, hshadow.unpatched hmemory, hpath⟩
  cases h with
  | gone status =>
      rw [status] at hstop
      cases hstop
  | stopped status other moves limit trace =>
      obtain ⟨after, hafter, hpath⟩ := hmoved moves
      exact ⟨after, _, _, hafter, hpath, trace, .inl ⟨other, rfl⟩⟩
  | @trapped n user' status siCode moves trap behind limit =>
      obtain ⟨after, hafter, hpath⟩ := hmoved moves
      refine ⟨after, n, user', hafter, hpath, fun htrace => ?_,
        .inr ⟨status, siCode, ?_, behind, limit⟩⟩
      · rw [siCode] at htrace
        cases htrace.2
      · by_contra huncovered
        rw [hafter.plain _ fun site hsite harmed haddress =>
          huncovered ⟨site, hsite, harmed, haddress⟩] at trap
        exact htrapless _ (hreach.path hpath) trap

/-- A stop after a single step was asked for. -/
theorem Answered.stepped {request : RunRequest} {s : User × Memory 64}
    (h : inferior.Answered request s event) (htrace : event.status.IsTrace event.siCode) :
    request = .singleStep := by
  cases h with
  | gone status =>
      obtain ⟨⟨code, hstatus⟩, -⟩ := htrace
      rw [hstatus] at status
      cases status
  | stopped status other moves limit trace => exact (trace htrace).1
  | trapped status siCode moves trap behind limit =>
      rw [siCode] at htrace
      cases htrace.2

/-- A delivery as it is recorded. -/
def delivery (m : Machine) (waiter : Waiter) (event : WaitEvent) : Delivery :=
  ⟨event.tid, event.status, event.siCode, event.user,
    m.process.breakpointSites.enabledStoppointAtAddress (User.pc event.user - 1), waiter, m.moment⟩

/-- Before a report there was less to observe than until now. -/
theorem length_of_deliveries {p : Delivery × List Observation} {events : List Observation}
    (h : p ∈ deliveries events) : p.2.length < events.length := by
  induction events with
  | nil => cases h
  | cons observation events ih =>
      cases observation with
      | delivered d =>
          rcases List.mem_cons.mp h with rfl | hin
          · exact Nat.lt_succ_self _
          · exact (ih hin).trans (Nat.lt_succ_self _)
      | _ => exact (ih h).trans (Nat.lt_succ_self _)

theorem deliveries_deliver (m : Machine) (waiter : Waiter) (event : WaitEvent)
    (rest : List WaitAnswer) : deliveries ((m.deliver waiter event).setScript rest).roster.events =
      (delivery m waiter event, m.roster.events) :: deliveries m.roster.events := rfl

section Reports

variable {waiter : Waiter} {rest : List WaitAnswer} {toAwait : Option Tid}

/-- A report is none of those before it. -/
theorem new_delivery (h : inferior.Kept m) :
    (delivery m waiter event, m.roster.events) ∉ inferior.earlier :=
  fun hin => absurd (length_of_deliveries (h.earlier hin)) (Nat.lt_irrefl _)

theorem Assumed.answered (hassumed : inferior.Assumed ((m.deliver waiter event).setScript rest))
    (hkept : inferior.Kept m) (hscript : m.kernel.script = .report event :: rest) :
    event.tid = inferior.tid ∧ ∃ request,
      (requests inferior.tid m.roster.events).head? = some request ∧
        inferior.Answered request (m.kernel.cpu inferior.tid) event := by
  obtain ⟨htid, event', rest', request, hscript', hrequest, hanswered⟩ :=
    hassumed.hosted.driven (delivery m waiter event, m.roster.events) List.mem_cons_self
      (new_delivery hkept)
  have heq : WaitAnswer.report event' :: rest' = .report event :: rest :=
    hscript'.symm.trans hscript
  cases heq
  exact ⟨htid, request, hrequest, hanswered⟩

/-- What a stop says about the program. -/
theorem Sound.stopped (h : inferior.Sound m) (hscript : m.kernel.script = .report event :: rest)
    (hmay : m.mayReport toAwait event = true)
    (hassumed : inferior.Assumed ((m.deliver waiter event).setScript rest))
    (hstop : event.status.isStop = true) :
    inferior.IsNative (delivery m waiter event) ∧ ∃ request n user',
      (requests inferior.tid m.roster.events).head? = some request ∧
      inferior.Stands ((m.deliver waiter event).setScript rest) user' ∧
      ((¬ event.IsTrapReport ∧ event.user.plain = user') ∨
        (event.status = .stopped sigtrap 0 ∧ event.siCode = .siKernel ∧
          Covers m.process.breakpointSites (User.pc user') ∧
          event.user.plain = user'.behindTrap ∧
          (request = .singleStep → n = 0) ∧
          (n = 0 → user' = (m.kernel.threads inferior.tid).user.plain))) := by
  obtain ⟨htid, request, hrequest, hanswered⟩ := hassumed.answered h.toKept hscript
  have hpresent := Machine.present_of_mayReport hmay
  rw [htid] at hpresent
  obtain ⟨below, hshadow, hled⟩ := h.stands hpresent
  obtain ⟨after, n, user', hafter, hpath, htrace, hplace⟩ := hanswered.native hstop hshadow
    hled.reaches hassumed.hosted.trapless (hassumed.hosted.undisturbed
      (delivery m waiter event, m.roster.events) List.mem_cons_self (new_delivery h.toKept))
  have hled' : inferior.Led ((delivery m waiter event, m.roster.events) ::
      deliveries m.roster.events) (user', after) := .report hled rfl hshadow hrequest hpath htrace
  refine ⟨⟨below, after, n, user', hshadow, hled.reaches, hpath, ?_⟩, request, n, user', hrequest,
    ⟨after, hafter, hled'⟩, ?_⟩
  · rcases hplace with ⟨-, hsame⟩ | ⟨-, -, hcovers, hbehind, -⟩
    · exact .inl hsame
    · exact .inr ⟨hcovers, hbehind⟩
  · rcases hplace with hplain | ⟨hstatus, hcode, hcovers, hbehind, hlimit⟩
    · exact .inl hplain
    · refine .inr ⟨hstatus, hcode, hcovers, hbehind, hlimit, fun hzero => ?_⟩
      subst hzero
      exact congrArg Prod.fst hpath.eq_of_zero

theorem Sound.kept_deliver (h : inferior.Sound m)
    (hscript : m.kernel.script = .report event :: rest)
    (hmay : m.mayReport toAwait event = true)
    (hassumed : inferior.Assumed ((m.deliver waiter event).setScript rest)) :
    inferior.Kept ((m.deliver waiter event).setScript rest) where
  attached := h.attached
  tracked := h.tracked
  alone := h.alone
  earlier := by
    rw [deliveries_deliver]
    exact List.subset_cons_of_subset _ h.earlier
  native := fun p hp hnew hstop => by
    rw [deliveries_deliver] at hp
    rcases List.mem_cons.mp hp with rfl | hp
    · exact (h.stopped hscript hmay hassumed hstop).1
    · exact h.native p hp hnew hstop

/-- A report that `wait_on_signal` receives. -/
theorem Sound.due (h : inferior.Sound m) (hscript : m.kernel.script = .report event :: rest)
    (hmay : m.mayReport toAwait event = true)
    (hassumed : inferior.Assumed ((m.deliver waiter event).setScript rest)) :
    inferior.Due event ((m.deliver waiter event).setScript rest) where
  toKept := h.kept_deliver hscript hmay hassumed
  tid := (hassumed.answered h.toKept hscript).1
  thread := by
    rw [← (hassumed.answered h.toKept hscript).1]
    exact Function.update_self _ _ _
  place := fun hstop => by
    obtain ⟨-, request, n, user', -, hstands, hplace⟩ := h.stopped hscript hmay hassumed hstop
    rcases hplace with ⟨hother, rfl⟩ | ⟨hstatus, hcode, hcovers, hbehind, -⟩
    · exact .inl ⟨hother, hstands⟩
    · exact .inr ⟨hstatus, hcode, user', hstands, hcovers, hbehind⟩

/-- A report after a single step from where no site is armed. -/
theorem Sound.stepped (h : inferior.Sound m) (hscript : m.kernel.script = .report event :: rest)
    (hmay : m.mayReport toAwait event = true)
    (hassumed : inferior.Assumed ((m.deliver waiter event).setScript rest))
    (hrequest : (requests inferior.tid m.roster.events).head? = some .singleStep)
    (huncovered : ¬ Covers m.process.breakpointSites
      (User.pc (m.kernel.threads inferior.tid).user)) :
    inferior.Sound ((m.deliver waiter event).setScript rest) := by
  have hdue := h.due hscript hmay hassumed
  refine ⟨hdue.toKept, fun hpresent => ?_⟩
  rw [hdue.thread] at hpresent ⊢
  cases hstop : event.status.isStop with
  | false =>
      rw [hstop] at hpresent
      exact absurd rfl hpresent
  | true =>
      obtain ⟨-, request, n, user', hrequest', hstands, hplace⟩ :=
        h.stopped hscript hmay hassumed hstop
      rw [hrequest] at hrequest'
      cases hrequest'
      rcases hplace with ⟨-, rfl⟩ | ⟨-, -, hcovers, -, hlimit, hsame⟩
      · exact hstands
      · rw [hsame (hlimit rfl), User.pc_plain] at hcovers
        exact absurd hcovers huncovered

end Reports

end Inferior

section Decoding

variable {t : Tid} {m m' : Machine} {tid : Tid} {handlers : HitHandlers} {thread : ThreadState}

theorem readAllRegisters_eq (hthread : m.thread? tid = some thread)
    (hstopped : m.isStopped tid = true) : readAllRegisters tid m = (.ok ⟨⟩, m.load tid) := by
  rw [readAllRegisters, bind_of_ok (threadAt_eq hthread), bind_of_ok (get_apply m),
    if_pos hstopped]
  rfl

/-- Decoding a stop that is no trap of the kernel's. -/
theorem decodeSignal_inert {reason : StopReason} (hthread : m.thread? reason.tid = some thread)
    (hstopped : m.isStopped reason.tid = true)
    (hother : ¬ (reason.info = sigtrap ∧ (m.kernel.threads reason.tid).siCode = .siKernel))
    (isMainStop : Bool) : Inert t m (decodeSignal handlers reason isMainStop m).2 := by
  refine trans_of (Inert t) (load_inert m reason.tid) ?_
  have hsplit := readAllRegisters_eq hthread hstopped
  rw [decodeSignal, bind_of_ok hsplit]
  refine related_bind (augmentStopReason_inert reason _) fun reason' m₂ haugment => ?_
  have htrap : reason'.trapReason ≠ some .softwareBreak := by
    rcases augmentStopReason_cases reason (m.load reason.tid) with
      ⟨e, h⟩ | ⟨info, -, -, h⟩ | ⟨-, h⟩ <;> rw [h] at haugment <;> cases haugment
    · simp [StopReason.atSyscall]
    · intro hsoft
      by_cases hinfo : reason.info = sigtrap
      · rw [StopReason.withTrap, if_pos hinfo] at hsoft
        exact hother ⟨hinfo, (trapType_softwareBreak _).mp (Option.some.inj hsoft)⟩
      · rw [StopReason.withTrap, if_neg hinfo] at hsoft
        cases hsoft
  refine Respects.ite ?_ (Respects.pure _) m₂
  exact Respects.bind (handleTrap_inert htrap isMainStop) fun restart =>
    Respects.ite (Respects.pure _) (Respects.pure _)

/-- Only a stop after a single step is reported as a step, and handling it changes nothing that
others see. -/
theorem handleSignal_step {reason final : StopReason} (hinfo : reason.syscallInfo = none)
    (hplain : reason.trapReason ≠ some .singleStep)
    (h : handleSignal handlers reason true m = (.ok (some final), m')) :
    m'.roster = m.roster ∧ final.tid = reason.tid ∧ (final.isStep = true →
      reason.info = sigtrap ∧ (m.kernel.threads reason.tid).siCode = .trapTrace) := by
  rcases handleSignal_cases handlers reason true m with
    ⟨-, -, hrun⟩ | ⟨-, hrun⟩ | ⟨-, -, -, hrun⟩ | ⟨_, -, -, -, -, hrun⟩ | ⟨_, -, -, -, hrun⟩ |
      ⟨-, -, hmain, -⟩
  · rw [hrun] at h
    cases h
  · rw [hrun] at h
    cases h
    exact ⟨rfl, rfl, fun hstep => absurd (of_decide_eq_true hstep).2.2 hplain⟩
  · rw [hrun] at h
    cases h
  · rw [hrun] at h
    cases h
  · rw [hrun] at h
    refine ⟨(decodeSignal_roster handlers hinfo true).apply_eq h, ?_⟩
    obtain ⟨u, m₁, hload, hloaded⟩ := Eff.bind_eq_ok.mp h
    obtain ⟨rfl, -, -⟩ := readAllRegisters_eq_ok hload
    unfold decodeLoaded at hloaded
    obtain ⟨augmented, m₂, haugment, hrest⟩ := Eff.bind_eq_ok.mp hloaded
    have hfinal : augmented = final := by
      split at hrest
      · obtain ⟨restart, m₃, -, hend⟩ := Eff.bind_eq_ok.mp hrest
        cases restart <;> cases hend
        rfl
      · cases hrest
        rfl
    subst hfinal
    refine ⟨(augmentStopReason_keeps haugment).1, fun hstep => ?_⟩
    have htrap := (of_decide_eq_true hstep).2.2
    rcases augmentStopReason_cases reason (m.load reason.tid) with
      ⟨e, hcase⟩ | ⟨info, -, -, hcase⟩ | ⟨-, hcase⟩ <;> rw [hcase] at haugment <;> cases haugment
    · cases htrap
    · by_cases hsignal : reason.info = sigtrap
      · rw [StopReason.withTrap, if_pos hsignal] at htrap
        refine ⟨hsignal, ?_⟩
        change some (SiCode.trapType (m.kernel.threads reason.tid).siCode) = _ at htrap
        cases hcode : (m.kernel.threads reason.tid).siCode <;> rw [hcode] at htrap <;> cases htrap
      · rw [StopReason.withTrap, if_neg hsignal] at htrap
        cases htrap
  · cases hmain

theorem setPc_of_stopped (hthread : m.thread? tid = some thread)
    (hstopped : m.isStopped tid = true) (address : Word) :
    setPc address tid m = (.ok ⟨⟩, (m.setRegs tid { thread.regs with
      data := thread.regs.data.write 128 (toLe 8 address.toNat) }).setUser tid
        ((m.kernel.threads tid).user.write 128 (toLe 8 address.toNat))) := by
  have hset := @writeRegister_of_stopped _ _ rip_info tid (.u64 address) m thread hthread _ rfl
    hstopped
  obtain ⟨found, hfound, -, heq⟩ := setPc_eq_ok hset
  rw [hthread] at hfound
  cases hfound
  rw [← heq]
  exact hset

/-- An armed site is the one that a search by its address finds. -/
theorem Covers.enabled {sites : List BreakpointSite} {address : Word}
    (h : Covers sites address) (hdistinct : (sites.map BreakpointSite.address).Nodup) :
    StoppointCollection.enabledStoppointAtAddress sites address = true := by
  obtain ⟨site, hsite, harmed, rfl⟩ := h
  have hfind : sites.find? (fun other => Stoppoint.atAddress other site.address) = some site :=
    find?_of_nodup hdistinct hsite
  rw [StoppointCollection.enabledStoppointAtAddress, hfind]
  exact (Bool.and_eq_true_iff.mp harmed).1

end Decoding

namespace Inferior

variable {inferior : Inferior} {m m' : Machine} {event : WaitEvent} {user : User}
  {handlers : HitHandlers}

/-- The thread is set back from behind a trap. -/
theorem Kept.setPc (h : inferior.Kept m) {thread : ThreadState}
    (hthread : m.thread? inferior.tid = some thread)
    (hstopped : m.isStopped inferior.tid = true) (hstands : inferior.Stands m user)
    (hbehind : (m.kernel.threads inferior.tid).user.plain = user.behindTrap) :
    ∃ m', Debugger.setPc (User.pc user) inferior.tid m = (.ok ⟨⟩, m') ∧ inferior.Sound m' := by
  refine ⟨_, setPc_of_stopped hthread hstopped _, ?_⟩
  have hregs : inferior.Kept (m.setRegs inferior.tid { thread.regs with
      data := thread.regs.data.write 128 (toLe 8 (User.pc user).toNat) }) := by
    refine h.of_inert (updateThread_inert fun found hfound => ?_)
    rw [hthread] at hfound
    cases hfound
    exact ⟨rfl, rfl⟩
  refine ⟨⟨hregs.attached, hregs.tracked, hregs.alone, hregs.earlier, hregs.native⟩, fun _ => ?_⟩
  rw [setUser_user, User.plain_write, hbehind, User.behindTrap_restored]
  exact hstands

theorem Due.stopped (h : inferior.Due event m) (hstop : event.status.isStop = true) :
    m.isStopped inferior.tid = true := by
  rw [Machine.isStopped, h.thread, hstop]
  rfl

theorem Due.sound (h : inferior.Due event m)
    (hstands : event.status.isStop = true → inferior.Stands m event.user.plain) :
    inferior.Sound m where
  toKept := h.toKept
  stands := fun hpresent => by
    rw [h.thread] at hpresent ⊢
    cases hstop : event.status.isStop with
    | false =>
        rw [hstop] at hpresent
        exact absurd rfl hpresent
    | true => exact hstands hstop

/-- A trap at a site: the thread is set back onto it before anything else is done. -/
theorem Due.handleTrap (h : inferior.Due event m) (hstatus : event.status = .stopped sigtrap 0)
    (hstands : inferior.Stands m user) (hcovers : Covers m.process.breakpointSites (User.pc user))
    (hbehind : event.user.plain = user.behindTrap) :
    inferior.Sound (Debugger.handleTrap handlers ((trapReason inferior.tid).withTrap .siKernel) true
      (m.decoded (trapReason inferior.tid))).2 := by
  have hstop : event.status.isStop = true := by rw [hstatus]; rfl
  have huser : (m.kernel.threads inferior.tid).user = event.user := by rw [h.thread]
  obtain ⟨thread, hthread, hdefined, -⟩ := h.tracked
  obtain ⟨thread', hthread', hoffsets, hdata⟩ := decoded_thread hthread
  have hsame := decoded_inert (t := inferior.tid) m (trapReason inferior.tid)
  have hpc : User.pc thread'.regs.data - 1 = User.pc user := by
    have hcached : User.pc thread'.regs.data = User.pc event.user :=
      User.pc_congr fun i hi => (hdata i hi.isRegisterByte).trans (congrFun huser i)
    rw [hcached, ← User.pc_plain event.user, hbehind, User.pc_behindTrap]
    bv_omega
  have hget : getPc inferior.tid (m.decoded (trapReason inferior.tid)) =
      (.ok (User.pc thread'.regs.data), m.decoded (trapReason inferior.tid)) :=
    getPc_eq hthread' (hoffsets.trans hdefined)
  have henabled :
      (m.decoded (trapReason inferior.tid)).process.breakpointSites.enabledStoppointAtAddress
        (User.pc user) = true := by
    obtain ⟨below, hshadow, -⟩ := hstands
    exact hcovers.enabled hshadow.distinct
  obtain ⟨m', hset, hsound⟩ := (h.toKept.of_inert hsame).setPc hthread' (h.stopped hstop)
    (hstands.of_inert hsame) (by rw [hsame.user, huser, hbehind])
  have htid : ((trapReason inferior.tid).withTrap .siKernel).tid = inferior.tid := rfl
  rw [Debugger.handleTrap, htid, bind_of_ok hget, bind_of_ok (get_apply _), hpc,
    if_pos ⟨rfl, henabled⟩, bind_of_ok hset]
  refine hsound.of_inert (Respects.bind (Respects.ofExcept _) (fun index => ?_) m')
  refine Respects.bind (Respects.asks _) fun bp => ?_
  split
  · exact Respects.pure _
  · exact Respects.bind (notifyHit_inert _) fun _ => Respects.pure _

/-- A report that was handled left the thread where it should be. -/
theorem Due.handleSignal (h : inferior.Due event m) :
    inferior.Sound (Debugger.handleSignal handlers (.ofWait event.tid event.status) true m).2 := by
  obtain ⟨thread, hthread, -, hpending⟩ := h.tracked
  have htid : (StopReason.ofWait event.tid event.status).tid = inferior.tid :=
    (StopReason.ofWait_tid _ _).trans h.tid
  rcases handleSignal_cases handlers (.ofWait event.tid event.status) true m with
    ⟨hclone, -, hrun⟩ | ⟨hexit, hrun⟩ | ⟨-, hnew, -, -⟩ | ⟨found, -, hfound, hwaiting, -, -⟩ |
      ⟨_, hreason, -, -, hrun⟩ | ⟨-, -, hmain, -⟩
  · rw [hrun]
    refine h.sound fun hstop => ?_
    rcases h.place hstop with ⟨-, hstands⟩ | ⟨hstatus, -⟩
    · exact hstands
    · rw [ofWait_clone_iff, hstatus] at hclone
      exact absurd hclone (by decide)
  · rw [hrun]
    exact h.sound fun hstop => absurd ⟨h.attached, (ofWait_stopped_iff _ _).mpr hstop⟩ hexit
  · rw [htid, hthread] at hnew
    cases hnew
  · rw [htid, hthread] at hfound
    cases hfound
    rw [hpending] at hwaiting
    cases hwaiting
  · have hstop := (ofWait_stopped_iff _ _).mp hreason
    have hcode : (m.kernel.threads inferior.tid).siCode = event.siCode := by rw [h.thread]
    rcases h.place hstop with
      ⟨hother, hstands⟩ | ⟨hstatus, hkernel, user, hstands, hcovers, hbehind⟩
    · rw [hrun]
      refine (h.sound fun _ => hstands).of_inert (decodeSignal_inert (htid ▸ hthread)
        (htid ▸ h.stopped hstop) (fun hboth => ?_) true)
      rw [htid, hcode] at hboth
      refine hother ⟨?_, hboth.2⟩
      cases hstatus : event.status with
      | stopped sig code =>
          rw [hstatus] at hboth
          obtain rfl : sig = sigtrap := hboth.1
          exact ⟨code, rfl⟩
      | exited code =>
          rw [hstatus] at hstop
          cases hstop
      | signaled sig =>
          rw [hstatus] at hstop
          cases hstop
    · have htrap : StopReason.ofWait event.tid event.status = trapReason inferior.tid := by
        rw [h.tid, hstatus]
        rfl
      have hsound : inferior.Sound (Debugger.handleTrap handlers
          ((trapReason inferior.tid).withTrap .siKernel) true
            (m.decoded (trapReason inferior.tid))).2 :=
        h.handleTrap hstatus hstands hcovers hbehind
      rw [htrap, handleSignal_trap handlers h.attached hthread (h.stopped hstop), hcode, hkernel,
        bind_apply]
      rcases hhandled : Debugger.handleTrap handlers
        ((trapReason inferior.tid).withTrap .siKernel) true
        (m.decoded (trapReason inferior.tid)) with ⟨e | goesOn, m'⟩
      · rw [hhandled] at hsound
        exact hsound
      · rw [hhandled] at hsound
        cases goesOn <;> exact hsound
  · cases hmain

end Inferior

end Gsdb
