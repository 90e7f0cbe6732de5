/-
Letting go of the inferior.  The destructor of the process brings the threads to a stop,
disables every stoppoint and detaches; what it throws on the way is swallowed, and the threads
are detached all the same.
-/
import Gsdb.StoppointOwners

namespace Effects.Eff

variable {ε σ α : Type}

/-- `try x catch (...)`: what is caught is forgotten. -/
def swallow (caught : ε → Bool) (x : Eff ε σ PUnit) : Eff ε σ PUnit := fun s =>
  match x s with
  | (.ok _, s') => (.ok ⟨⟩, s')
  | (.error e, s') => if caught e then (.ok ⟨⟩, s') else (.error e, s')

theorem swallow_of_ok {caught : ε → Bool} {x : Eff ε σ PUnit} {s s' : σ}
    (h : x s = (.ok ⟨⟩, s')) : swallow caught x s = (.ok ⟨⟩, s') := by
  rw [swallow, h]

/-- A loop whose rounds all return: what its invariant is, and what every round
establishes for its element and keeps for the others. -/
theorem forEach_returns {f : α → Eff ε σ PUnit} {P : σ → Prop} {Q : α → σ → Prop}
    (items : List α) (hround : ∀ a ∈ items, ∀ s, P s →
      ∃ s', f a s = (.ok ⟨⟩, s') ∧ P s' ∧ Q a s' ∧ ∀ b, Q b s → Q b s') {s : σ} (hs : P s) :
    ∃ s', forEach f items s = (.ok ⟨⟩, s') ∧ P s' ∧ (∀ a ∈ items, Q a s') ∧
      ∀ b, Q b s → Q b s' := by
  induction items generalizing s with
  | nil => exact ⟨s, rfl, hs, fun a ha => (by cases ha), fun _ hb => hb⟩
  | cons a rest ih =>
      obtain ⟨s₁, hfirst, hs₁, ha, hkeep⟩ := hround a List.mem_cons_self s hs
      obtain ⟨s₂, hrest, hs₂, hall, hkeep'⟩ :=
        ih (fun b hb => hround b (List.mem_cons_of_mem a hb)) hs₁
      refine ⟨s₂, ?_, hs₂, fun b hb => ?_, fun b hb => hkeep' b (hkeep b hb)⟩
      · rw [forEach, bind_of_ok hfirst, hrest]
      · rcases List.mem_cons.mp hb with rfl | hb
        · exact hkeep' b ha
        · exact hall b hb

end Effects.Eff

namespace Gsdb

open ByteMemory Effects Eff Debugger

/-- What the destructor did to the inferior: nothing, kill it, or detach from
threads, which go on by themselves. -/
inductive Teardown where
  | nothing
  | killed
  | detached (tids : List Tid)
deriving DecidableEq, Repr

namespace Debugger

/-- A thread that is not in a ptrace stop is sent a `SIGSTOP` and waited for; the
results of the two system calls are not looked at. -/
def haltThread (tid : Tid) : Debugger PUnit := do
  let m ← get
  if m.isStopped tid then pure ⟨⟩
  else do
    mark fun _ => .sentSigstop tid
    -- noted like a stop of `stop_running_threads`, which it is of a kind with
    let _ ← waitpid .stopRunningThreads (some tid)
    pure ⟨⟩

def haltThreads : Debugger PUnit := do
  let m ← get
  forEach haltThread (m.process.threads.map (·.1))

/-- Remove the trap bytes and the debug registers. -/
def disableStoppoints : Debugger PUnit := do
  let m ← get
  forEach disableSite (List.range m.process.breakpointSites.length)
  let m ← get
  forEach disableWatchpoint (List.range m.process.watchpoints.length)

/-- `PTRACE_DETACH`: a stopped thread goes on without its tracer. -/
def ptraceDetach (tid : Tid) : Debugger Bool := do
  let m ← get
  if m.isStopped tid then do
    modify (Machine.setThreadStatus tid .running)
    pure true
  else pure false

/-- The threads from which detaching succeeded. -/
def detachThreads : List Tid → Debugger (List Tid)
  | [] => pure []
  | tid :: rest => do
      let done ← ptraceDetach tid
      let tids ← detachThreads rest
      pure (if done then tid :: tids else tids)

/-- The part of `process::~process` for an inferior that lives on. -/
def detach : Debugger (List Tid) := do
  let m ← get
  let tids := m.process.threads.map (·.1)
  swallow Failure.isException (do haltThreads; disableStoppoints)
  detachThreads tids

/-- `SIGKILL`, and every thread reaped. -/
def kill : Debugger PUnit :=
  modify fun m => { m with kernel := { m.kernel with
    threads := fun tid => { m.kernel.threads tid with status := .absent } } }

/-- `process::~process`. -/
def destroy (terminateOnEnd : Bool) : Debugger Teardown := do
  let m ← get
  if m.process.pid = 0 then pure .nothing
  else if m.process.state = .exited ∨ m.process.state = .terminated then pure .nothing
  else if terminateOnEnd then do
    kill
    pure .killed
  else if m.process.isAttached then do
    let tids ← detach
    pure (.detached tids)
  else pure .nothing

end Debugger

/-- No two sites are at one address. -/
def SitesApart (m : Machine) : Prop :=
  (m.process.breakpointSites.map (·.address)).Nodup

/-- The inferior's own memory: a byte that a software site covers is the one the
site has saved. -/
def Machine.ownMemory (m : Machine) : Memory 64 := fun address =>
  match m.process.breakpointSites.find? fun site => site.armed && site.address = address with
  | some site => site.savedData
  | none => m.kernel.memory address

section Apart

variable {handlers : HitHandlers} {m m' : Machine}

theorem apart_of_catalog {α : Type} {x : Debugger α} (h : Respects (Fixes Catalog) x) :
    Respects (Carries SitesApart) x := by
  refine h.mono fun m m' hsame hm => ?_
  have haddresses : m'.process.breakpointSites.map (·.address) =
      m.process.breakpointSites.map (·.address) := congrArg (·.1) hsame
  rw [SitesApart, haddresses]
  exact hm

theorem pushSite_apart {address : Word} {site : Process → BreakpointSite × Process}
    (hsite : ∀ p, (site p).1.address = address ∧
      (site p).2.breakpointSites = p.breakpointSites) :
    Respects (Carries SitesApart) (pushSite address site) := by
  intro m hm
  rw [pushSite, bind_of_ok (get_apply m)]
  by_cases hthere : m.process.breakpointSites.containsAddress address = true
  · rw [if_pos hthere]
    exact hm
  rw [if_neg hthere]
  obtain ⟨haddress, hsites⟩ := hsite m.process
  change (((site m.process).2.breakpointSites ++ [(site m.process).1]).map (·.address)).Nodup
  rw [hsites, List.map_append, List.nodup_append]
  refine ⟨hm, by simp, fun a ha b hb heq => ?_⟩
  obtain ⟨old, hold, rfl⟩ := List.mem_map.mp ha
  simp only [List.map_cons, List.map_nil, List.mem_singleton, haddress] at hb
  have hnot := StoppointCollection.containsAddress_eq_false (by simpa using hthere) old hold
  simp [Stoppoint.atAddress, heq, hb] at hnot

theorem removeSite_apart (index : Option Nat) :
    Respects (Carries SitesApart) (removeSite index) := by
  cases index with
  | none => exact Respects.pure _
  | some index =>
      refine Respects.bind (apart_of_catalog (disableSite_catalog index)) fun _ => ?_
      exact Respects.modify fun m hm => hm.sublist ((List.eraseIdx_sublist _ index).map _)

theorem SiteOperation.run_apart (op : SiteOperation) : Respects (Carries SitesApart) op.run := by
  refine Respects.bind (op.touch_respects fun _ _ hm => hm) fun _ => ?_
  cases op with
  | create address hardware internal =>
      refine Respects.bind (pushSite_apart fun p => ?_) fun _ => Respects.pure _
      split <;> exact ⟨rfl, rfl⟩
  | createFor parent id address hardware internal =>
      exact Respects.bind (pushSite_apart fun p => ⟨rfl, rfl⟩) fun _ => Respects.pure _
  | enable index => exact apart_of_catalog (enableSite_catalog index)
  | disable index => exact apart_of_catalog (disableSite_catalog index)
  | removeById id => exact Respects.bind Respects.get fun _ => removeSite_apart _
  | removeByAddress address => exact Respects.bind Respects.get fun _ => removeSite_apart _

theorem stopFrame_apart (handlers : HitHandlers) :
    StopFrame handlers (fun _ => True) (Carries SitesApart) where
  enableSite := fun index => apart_of_catalog (enableSite_catalog index)
  disableSite := fun index => apart_of_catalog (disableSite_catalog index)
  action := fun _ _ action _ => by
    cases action with
    | site op => exact op.run_apart
    | breakpoints points => exact Respects.modify fun _ hm => hm
  updateThread := fun _ _ _ _ hm => hm
  user := fun _ _ _ _ hm => hm
  script := fun _ _ hm => hm
  deliver := fun _ _ _ _ _ _ _ hm => hm
  running := fun _ _ _ _ _ hm => hm
  track := fun _ _ _ _ hm => hm
  cleanup := fun _ _ hm => hm
  process := fun _ _ _ _ _ hm => hm
  lifecycle := fun _ _ hm => hm
  note := fun _ _ _ hm => hm
  augment := fun reason _ _ m hm => by
    rcases augmentStopReason_cases reason m with ⟨e, h⟩ | ⟨info, -, -, h⟩ | ⟨-, h⟩ <;> rw [h] <;>
      exact hm

/-- What the steps of resuming and waiting keep, with the operations on stoppoints and the
settings, every command keeps. -/
theorem StopFrame.command {R : Machine → Machine → Prop} [Std.Refl R] [IsTrans Machine R]
    (h : StopFrame handlers (fun _ => True) R) (hsite : ∀ op : SiteOperation, Respects R op.run)
    (hwatchpoint : ∀ op : WatchpointOperation, Respects R op.run)
    (hpolicy : ∀ m policy, R m (m.setProcess fun p => { p with policy := policy }))
    (c : Command) : Respects R (c.run handlers) := by
  have hsettings : ∀ f : Process → Process, (∀ m, R m (m.setProcess f)) →
      Respects R (unreported (modifyProcess f)) := fun f hf =>
    Respects.bind (Respects.modify hf) fun _ => Respects.pure _
  have hresume : ∀ tid, ResumeFrame tid R := fun tid => h.resumeFrame trivial
  cases c with
  | resume otid =>
      refine Respects.bind (Respects.bind Respects.get fun m => ?_) fun _ => Respects.pure _
      exact Respects.bind (hresume _).stepOverBreakpoint fun _ => (hresume _).sendContinue
  | resumeAllThreads =>
      exact Respects.bind (h.resumeAllThreads fun _ => trivial) fun _ => Respects.pure _
  | stepInstruction otid =>
      refine Respects.bind (Respects.bind Respects.get fun m => ?_) fun _ => Respects.pure _
      refine Respects.bind ?_ fun begun => ?_
      · refine Respects.bind (hresume _).samplePc fun pc => ?_
        refine Respects.bind (Respects.bind Respects.get fun m => Respects.ite ?_
          (Respects.pure _)) fun _ => ?_
        · exact Respects.bind (Respects.ofExcept _) fun bp =>
            Respects.bind ((hresume _).liftSite bp pc) fun _ => Respects.pure _
        · refine Respects.bind (hresume _).swallowPendingSigstop fun _ => ?_
          exact Respects.bind ((hresume _).ptraceRun _) fun ran =>
            Respects.ite (Respects.throw _) (Respects.pure _)
      · refine Respects.bind (h.waitOnSignal (fun _ => trivial) _) fun reason => ?_
        refine Respects.bind (Respects.bind Respects.get fun m => ?_) fun _ => Respects.pure _
        refine Respects.ite ?_ (Respects.pure _)
        split
        · exact Respects.throw _
        · exact (hresume 0).relaySite _ _
  | waitOnSignal toAwait =>
      exact Respects.bind (h.waitOnSignal (fun _ => trivial) toAwait) fun _ => Respects.pure _
  | site op => exact Respects.bind (hsite op) fun _ => Respects.pure _
  | watchpoint op => exact Respects.bind (hwatchpoint op) fun _ => Respects.pure _
  | setCurrentThread tid =>
      exact hsettings _ fun m => h.process m m.process.state tid m.process.watchpoints
        m.process.breakpoints
  | setPolicy policy => exact hsettings _ fun m => hpolicy m policy
  | setBreakpoints points =>
      exact hsettings _ fun m => h.process m m.process.state m.process.currentThread
        m.process.watchpoints points

/-- What every command keeps, every run keeps. -/
theorem Run.respects {R : Machine → Machine → Prop} [Std.Refl R] [IsTrans Machine R]
    {start : Machine} (hrun : Run handlers start m)
    (hcommand : ∀ c : Command, Respects R (c.run handlers)) : R start m := by
  induction hrun with
  | start => exact refl_of R start
  | command c before hstep hgoes ih => exact trans_of R ih ((hcommand c).apply_eq hstep)

theorem Run.apart {start : Machine} (hrun : Run handlers start m) (hstart : SitesApart start) :
    SitesApart m := by
  refine hrun.respects (R := Carries SitesApart) (fun c => ?_) hstart
  refine (stopFrame_apart handlers).command (fun op => op.run_apart) (fun op => ?_)
    (fun _ _ hm => hm) c
  refine WatchpointFrame.run (R := Carries SitesApart) ⟨?_,
    fun _ _ _ hm => hm, fun _ _ _ hm => hm⟩ op
  exact fun _ _ id val _ => writeRegister_respects (R := Carries SitesApart) (fun _ _ hm => hm)
    (fun _ _ hm => hm) id val true

end Apart

section Halting

variable {m m' : Machine} {tid : Tid}

theorem haltThread_process (tid : Tid) :
    Respects (Fixes fun m : Machine => m.process) (haltThread tid) := by
  refine Respects.bind Respects.get fun m => Respects.ite (Respects.pure _) ?_
  refine Respects.bind (Respects.modify fun _ => rfl) fun _ => ?_
  refine Respects.bind (fun m => ?_) fun _ => Respects.pure _
  rcases waitpid_cases .stopRunningThreads (some tid) m with
    h | ⟨rest, -, h⟩ | ⟨event, rest, -, -, h⟩ <;> rw [h] <;> rfl

theorem haltThread_armed (tid : Tid) : Triple ThreadsArmed (haltThread tid)
    (fun _ => ThreadsArmed) (fun _ => ThreadsArmed) := by
  refine Triple.get_bind fun m hm =>
    Triple.ite (fun _ => Triple.pure fun s hs => hs ▸ hm) fun _ => ?_
  refine Triple.bind (Q := fun _ => ThreadsArmed) ?_ fun _ => ?_
  · exact Triple.modify fun s hs =>
      (hs ▸ hm : ThreadsArmed s).same (.observe (.inl rfl) rfl) rfl rfl rfl rfl
  · exact Triple.bind (waitpid_keeps_armed _ _) fun _ => Triple.pure fun _ hs => hs

theorem haltThreads_armed {u : PUnit} (hm : ThreadsArmed m) (h : haltThreads m = (.ok u, m')) :
    ThreadsArmed m' ∧ m'.process = m.process := by
  rw [haltThreads, bind_of_ok (get_apply m)] at h
  refine ⟨((Triple.forEach fun tid _ => haltThread_armed tid) m hm).1 u m' h, ?_⟩
  exact (Respects.forEach (R := Fixes fun m : Machine => m.process)
    fun tid _ => haltThread_process tid).apply_eq h

end Halting

/-- A process whose stoppoints can all be disabled: its threads are stopped, the debug registers
are as they should be, and trap bytes stand only in mapped memory. -/
structure Releasable (original : Memory 64) (m : Machine) : Prop where
  shadow : Shadow original m
  allocated : Allocated m
  main : m.isStopped m.process.pid = true
  current : (m.thread? m.process.currentThread).isSome = true
  mapped : ∀ site ∈ m.process.breakpointSites, site.armed = true →
    m.wordMapped site.address = true

section Releasing

variable {original : Memory 64} {m m' : Machine} {index : Nat}

/-- The kernel's map and the identity of the process. -/
def Ground (m : Machine) : (Word → Bool) × Tid := (m.kernel.mapped, m.process.pid)

theorem siteFrame_ground : SiteFrame true (Fixes Ground) where
  slots := fun _ _ _ _ _ => .inl fun _ _ id val _ =>
    writeRegister_respects (fun _ _ => rfl) (fun _ _ => rfl) id val true
  memory := fun _ _ => rfl
  update := fun _ _ _ _ => rfl
  push := fun _ _ _ _ => rfl
  erase := fun _ _ => rfl
  note := fun _ _ _ => rfl

theorem watchpointFrame_ground : WatchpointFrame (Fixes Ground) where
  slots := fun _ _ id val _ => writeRegister_respects (fun _ _ => rfl) (fun _ _ => rfl) id val true
  watchpoints := fun _ _ _ => rfl
  note := fun _ _ _ => rfl

/-- A step that arms nothing keeps a process releasable. -/
theorem Releasable.step (h : Releasable original m) (hshadow : Shadow original m')
    (hstep : StoppointStep m m') (hground : Fixes Ground m m')
    (harmed : ∀ site ∈ m'.process.breakpointSites, site.armed = true →
      site ∈ m.process.breakpointSites) : Releasable original m' := by
  have hmapped : m'.kernel.mapped = m.kernel.mapped := congrArg Prod.fst hground
  have hpid : m'.process.pid = m.process.pid := congrArg Prod.snd hground
  have hcurrent : m'.process.currentThread = m.process.currentThread :=
    congrArg Prod.fst hstep.standing
  refine ⟨hshadow, hstep.allocated h.allocated, ?_, ?_, fun site hsite hon => ?_⟩
  · rw [Machine.isStopped, hpid, Standing.status hstep.standing]
    exact h.main
  · rw [hcurrent, Standing.isSome hstep.standing]
    exact h.current
  · rw [Machine.wordMapped, hmapped]
    exact h.mapped site (harmed site hsite hon) hon

/-- An enabled hardware stoppoint can be cleared. -/
theorem Releasable.clear (h : Releasable original m) {point : HardwareStoppoint}
    (hpoint : point ∈ m.process.hardwareStoppoints) :
    ∃ m', clearHardwareStoppoint point.slot m = (.ok ⟨⟩, m') ∧ Fixes Surroundings m m' := by
  obtain ⟨slot, hslot⟩ := h.allocated.slots point hpoint
  rw [hslot]
  rcases clearHardwareStoppoint_cases h.allocated.tame slot.isLt with
    ⟨hnone, -⟩ | ⟨-, -, m', hclear, hsame, -⟩
  · rw [h.current] at hnone
    cases hnone
  · exact ⟨m', hclear, hsame⟩

/-- The sites with one of them disabled. -/
theorem not_armed_modify {sites : List BreakpointSite} {f : BreakpointSite → BreakpointSite}
    (hf : ∀ site, (f site).isEnabled = false) {site : BreakpointSite}
    (hsite : site ∈ sites.modify index f) (harmed : site.armed = true) : site ∈ sites := by
  obtain ⟨i, hi⟩ := List.mem_iff_getElem?.mp hsite
  rw [List.getElem?_modify] at hi
  obtain ⟨old, hold, hnew⟩ := Option.map_eq_some_iff.mp hi
  split at hnew
  · subst hnew
    simp [BreakpointSite.armed, hf] at harmed
  · subst hnew
    exact List.mem_of_getElem? hold

/-- A change that leaves its element as it is. -/
theorem modify_fixed {α : Type} {list : List α} {a : α} {f : α → α} (ha : list[index]? = some a)
    (hf : f a = a) : list.modify index f = list := by
  refine List.ext_getElem? fun i => ?_
  rw [List.getElem?_modify]
  by_cases hi : index = i
  · subst hi
    simp [ha, hf]
  · simp [hi]

/-- Disabling a site returns and changes the list of sites at its position only. -/
theorem Releasable.disableSite (h : Releasable original m)
    (hindex : index < m.process.breakpointSites.length) :
    ∃ m' f, disableSite index m = (.ok ⟨⟩, m') ∧ (∀ site, (f site).isEnabled = false) ∧
      m'.process.breakpointSites = m.process.breakpointSites.modify index f ∧
      m'.process.watchpoints = m.process.watchpoints ∧ Fixes Standing m m' ∧
      Releasable original m' := by
  obtain ⟨site, hsite⟩ : ∃ site, m.process.breakpointSites[index]? = some site :=
    ⟨_, List.getElem?_eq_getElem hindex⟩
  have hat : siteAt index m = (.ok site, m) := siteAt_eq hsite
  suffices hdisable : ∃ m' f, Debugger.disableSite index m = (.ok ⟨⟩, m') ∧
      (∀ site, (f site).isEnabled = false) ∧
      m'.process.breakpointSites = m.process.breakpointSites.modify index f ∧
      m'.process.watchpoints = m.process.watchpoints by
    obtain ⟨m', f, hrun, hf, hsites, hpoints⟩ := hdisable
    have hstep := disableSite_step h.allocated index
    rw [hrun] at hstep
    refine ⟨m', f, hrun, hf, hsites, hpoints, hstep.standing,
      h.step ?_ hstep ?_ fun site hsite harmed => ?_⟩
    · exact (disableSite_shadow original index).apply_eq hrun h.shadow
    · exact (siteFrame_ground.disableSite index).apply_eq hrun
    · rw [hsites] at hsite
      exact not_armed_modify hf hsite harmed
  by_cases henabled : site.isEnabled = true
  case neg =>
    refine ⟨m, fun s => { s with isEnabled := false }, ?_, fun _ => rfl, ?_, rfl⟩
    · rw [Debugger.disableSite, bind_of_ok hat, if_pos (by simpa using henabled)]
      rfl
    · refine (modify_fixed hsite ?_).symm
      cases site
      simp_all
  by_cases hhardware : site.isHardware = true
  · have hmem : (⟨site.hardwareRegisterIndex, site.address, .execute, 1⟩ : HardwareStoppoint) ∈
        m.process.hardwareStoppoints := by
      refine List.mem_append_left _ (List.mem_filterMap.mpr ⟨site, List.mem_of_getElem? hsite, ?_⟩)
      simp [BreakpointSite.hardware?, henabled, hhardware]
    obtain ⟨m₁, hclear, hsame⟩ := h.clear hmem
    obtain ⟨hsites, hpoints⟩ := Surroundings.stoppoints hsame
    refine ⟨m₁.setProcess fun p => { p with
      breakpointSites := p.breakpointSites.modify index ((fun s => { s with isEnabled := false }) ∘
        fun s => { s with hardwareRegisterIndex := -1 }) }, _, ?_, fun _ => rfl,
      congrArg (List.modify · index _) hsites, hpoints⟩
    rw [Debugger.disableSite, bind_of_ok hat, if_neg (by simp [henabled]), if_pos hhardware,
      bind_of_ok hclear, updateSite_updateSite]
  · have hsoftware : site.isHardware = false := by simpa using hhardware
    have hon : site.armed = true := by simp [BreakpointSite.armed, henabled, hsoftware]
    exact ⟨_, fun s => { s with isEnabled := false }, disableSite_software hsite henabled hsoftware
      h.main (h.mapped site (List.mem_of_getElem? hsite) hon), fun _ => rfl, rfl, rfl⟩

theorem disableWatchpoint_shadow (original : Memory 64) (index : Nat) :
    Respects (Carries (Shadow original)) (disableWatchpoint index) := by
  refine Respects.bind (Respects.asks _) fun point => Respects.ite (Respects.pure _) ?_
  refine Respects.bind (fun m hm => ?_) fun _ => Respects.modify fun m hm => hm
  exact Shadow.of_untouched hm (debugRegisterFrame_untouched.clearHardwareStoppoint
    (fun _ _ _ => ⟨rfl, rfl, rfl, rfl⟩) _ m)

/-- The same for a watchpoint. -/
theorem Releasable.disableWatchpoint (h : Releasable original m)
    (hindex : index < m.process.watchpoints.length) :
    ∃ m' f, disableWatchpoint index m = (.ok ⟨⟩, m') ∧ (∀ point, (f point).isEnabled = false) ∧
      m'.process.watchpoints = m.process.watchpoints.modify index f ∧
      m'.process.breakpointSites = m.process.breakpointSites ∧ Fixes Standing m m' ∧
      Releasable original m' := by
  obtain ⟨point, hpoint⟩ : ∃ point, m.process.watchpoints[index]? = some point :=
    ⟨_, List.getElem?_eq_getElem hindex⟩
  have hat : watchpointAt index m = (.ok point, m) := by simp [watchpointAt, hpoint]
  suffices hdisable : ∃ m' f, Debugger.disableWatchpoint index m = (.ok ⟨⟩, m') ∧
      (∀ point, (f point).isEnabled = false) ∧
      m'.process.watchpoints = m.process.watchpoints.modify index f ∧
      m'.process.breakpointSites = m.process.breakpointSites by
    obtain ⟨m', f, hrun, hf, hpoints, hsites⟩ := hdisable
    have hstep := disableWatchpoint_step h.allocated index
    rw [hrun] at hstep
    refine ⟨m', f, hrun, hf, hpoints, hsites, hstep.standing,
      h.step ?_ hstep ?_ fun site hsite _ => hsites ▸ hsite⟩
    · exact (disableWatchpoint_shadow original index).apply_eq hrun h.shadow
    · exact (watchpointFrame_ground.disableWatchpoint index).apply_eq hrun
  by_cases henabled : point.isEnabled = true
  case neg =>
    refine ⟨m, fun s => { s with isEnabled := false }, ?_, fun _ => rfl, ?_, rfl⟩
    · rw [Debugger.disableWatchpoint, bind_of_ok hat, if_pos (by simpa using henabled)]
      rfl
    · refine (modify_fixed hpoint ?_).symm
      cases point
      simp_all
  have hmem : (⟨point.hardwareRegisterIndex, point.address, point.mode, point.size⟩ :
      HardwareStoppoint) ∈ m.process.hardwareStoppoints := by
    refine List.mem_append_right _ (List.mem_filterMap.mpr ⟨point, List.mem_of_getElem? hpoint, ?_⟩)
    simp [Watchpoint.hardware?, henabled]
  obtain ⟨m₁, hclear, hsame⟩ := h.clear hmem
  obtain ⟨hsites, hpoints⟩ := Surroundings.stoppoints hsame
  refine ⟨m₁.setProcess fun p => { p with
    watchpoints := p.watchpoints.modify index fun w => { w with isEnabled := false } }, _, ?_,
    fun _ => rfl, congrArg (List.modify · index _) hpoints, hsites⟩
  rw [Debugger.disableWatchpoint, bind_of_ok hat, if_neg (by simp [henabled]), bind_of_ok hclear]
  rfl

end Releasing

namespace StoppointCollection

variable {S : Type} [Stoppoint S] {points : StoppointCollection S} {f : S → S}

/-- The stoppoint at a position, if there is one, is disabled. -/
def OffAt (points : StoppointCollection S) (index : Nat) : Prop :=
  ∀ point, points[index]? = some point → Stoppoint.isEnabled point = false

theorem offAt_modify_self (hf : ∀ point, Stoppoint.isEnabled (f point) = false) (index : Nat) :
    OffAt (points.modify index f) index := by
  intro point hpoint
  rw [List.getElem?_modify] at hpoint
  obtain ⟨old, -, hnew⟩ := Option.map_eq_some_iff.mp hpoint
  simp only [if_true] at hnew
  rw [← hnew]
  exact hf old

theorem OffAt.modify {other : Nat} (h : OffAt points other)
    (hf : ∀ point, Stoppoint.isEnabled (f point) = false) (index : Nat) :
    OffAt (points.modify index f) other := by
  by_cases hother : index = other
  · subst hother
    exact offAt_modify_self hf index
  · intro point hpoint
    rw [List.getElem?_modify] at hpoint
    exact h point (by simpa [hother] using hpoint)

theorem all_off (h : ∀ index ∈ List.range points.length, OffAt points index) :
    ∀ point ∈ points, Stoppoint.isEnabled point = false := by
  intro point hpoint
  obtain ⟨index, hindex, rfl⟩ := List.mem_iff_getElem.mp hpoint
  exact h index (List.mem_range.mpr hindex) _ (List.getElem?_eq_getElem hindex)

end StoppointCollection

section Destroying

variable {original : Memory 64} {m m' : Machine}

open StoppointCollection

/-- Every stoppoint of a releasable process gets disabled. -/
theorem Releasable.disableStoppoints (h : Releasable original m) :
    ∃ m', disableStoppoints m = (.ok ⟨⟩, m') ∧ Releasable original m' ∧ Fixes Standing m m' ∧
      (∀ site ∈ m'.process.breakpointSites, site.isEnabled = false) ∧
      ∀ point ∈ m'.process.watchpoints, point.isEnabled = false := by
  obtain ⟨m₁, hsites, ⟨h₁, hstanding₁, hlength₁, hpoints₁⟩, hoff₁, -⟩ := forEach_returns
    (f := Debugger.disableSite)
    (P := fun s => Releasable original s ∧ Fixes Standing m s ∧
      s.process.breakpointSites.length = m.process.breakpointSites.length ∧
      s.process.watchpoints = m.process.watchpoints)
    (Q := fun index s => OffAt s.process.breakpointSites index)
    (List.range m.process.breakpointSites.length) (fun index hindex s hs => by
      obtain ⟨hs, hstanding, hlength, hpoints⟩ := hs
      obtain ⟨s', f, hrun, hf, hsites', hpoints', hstanding', hs'⟩ :=
        hs.disableSite (hlength ▸ List.mem_range.mp hindex)
      refine ⟨s', hrun, ⟨hs', trans_of (Fixes Standing) hstanding hstanding', ?_,
        hpoints'.trans hpoints⟩, ?_, fun other hother => ?_⟩
      · rw [hsites', List.length_modify, hlength]
      · rw [hsites']
        exact offAt_modify_self hf index
      · rw [hsites']
        exact hother.modify hf index)
    ⟨h, refl_of (Fixes Standing) m, rfl, rfl⟩
  obtain ⟨m₂, hpoints, ⟨h₂, hstanding₂, hsites₂, hlength₂⟩, hoff₂, -⟩ := forEach_returns
    (f := Debugger.disableWatchpoint)
    (P := fun s => Releasable original s ∧ Fixes Standing m₁ s ∧
      s.process.breakpointSites = m₁.process.breakpointSites ∧
      s.process.watchpoints.length = m₁.process.watchpoints.length)
    (Q := fun index s => OffAt s.process.watchpoints index)
    (List.range m₁.process.watchpoints.length) (fun index hindex s hs => by
      obtain ⟨hs, hstanding, hsites, hlength⟩ := hs
      obtain ⟨s', f, hrun, hf, hpoints', hsites', hstanding', hs'⟩ :=
        hs.disableWatchpoint (hlength ▸ List.mem_range.mp hindex)
      refine ⟨s', hrun, ⟨hs', trans_of (Fixes Standing) hstanding hstanding',
        hsites'.trans hsites, ?_⟩, ?_, fun other hother => ?_⟩
      · rw [hpoints', List.length_modify, hlength]
      · rw [hpoints']
        exact offAt_modify_self hf index
      · rw [hpoints']
        exact hother.modify hf index)
    ⟨h₁, refl_of (Fixes Standing) m₁, rfl, rfl⟩
  refine ⟨m₂, ?_, h₂, trans_of (Fixes Standing) hstanding₁ hstanding₂, ?_, ?_⟩
  · rw [Debugger.disableStoppoints, bind_of_ok (get_apply m), bind_of_ok hsites,
      bind_of_ok (get_apply m₁), hpoints]
  · rw [hsites₂]
    refine all_off fun index hindex => hoff₁ index ?_
    rwa [hlength₁] at hindex
  · refine all_off fun index hindex => hoff₂ index ?_
    rwa [hlength₂] at hindex

/-- What detaching does: every stopped thread among those it is asked for goes on. -/
theorem detachThreads_spec (tids : List Tid) (m : Machine) : ∃ done m',
    detachThreads tids m = (.ok done, m') ∧ m'.process = m.process ∧
      m'.kernel.memory = m.kernel.memory ∧
      (∀ t, (m'.kernel.threads t).user = (m.kernel.threads t).user) ∧
      (∀ t ∈ done, (m'.kernel.threads t).status = .running) ∧
      (∀ t, (m.kernel.threads t).status = .running → (m'.kernel.threads t).status = .running) ∧
      ∀ t ∈ tids, m.isStopped t = true → t ∈ done := by
  induction tids generalizing m with
  | nil => exact ⟨[], m, rfl, rfl, rfl, fun _ => rfl, fun t ht => (by cases ht),
      fun _ h => h, fun t ht => by cases ht⟩
  | cons tid rest ih =>
      by_cases hstopped : m.isStopped tid = true
      · obtain ⟨done, m', hrun, hprocess, hmemory, huser, hdone, hstay, hall⟩ :=
          ih (m.setThreadStatus tid .running)
        have hself : ((m.setThreadStatus tid .running).kernel.threads tid).status = .running := by
          simp [Machine.setThreadStatus]
        have hother : ∀ t ≠ tid, (m.setThreadStatus tid .running).kernel.threads t =
            m.kernel.threads t := fun t ht => Function.update_of_ne ht _ _
        refine ⟨tid :: done, m', ?_, hprocess, hmemory, fun t => ?_, fun t ht => ?_,
          fun t ht => ?_, fun t ht hon => ?_⟩
        · have hdetach : ptraceDetach tid m = (.ok true, m.setThreadStatus tid .running) := by
            rw [ptraceDetach, bind_of_ok (get_apply m), if_pos hstopped]
            rfl
          rw [detachThreads, bind_of_ok hdetach, bind_of_ok hrun]
          rfl
        · rw [huser]
          by_cases ht : t = tid
          · subst ht
            simp [Machine.setThreadStatus]
          · rw [hother t ht]
        · rcases List.mem_cons.mp ht with rfl | ht
          · exact hstay t hself
          · exact hdone t ht
        · by_cases heq : t = tid
          · subst heq
            exact hstay t hself
          · exact hstay t (by rw [hother t heq]; exact ht)
        · by_cases heq : t = tid
          · exact heq ▸ List.mem_cons_self
          · refine List.mem_cons_of_mem _ (hall t ((List.mem_cons.mp ht).resolve_left heq) ?_)
            rw [Machine.isStopped, hother t heq]
            exact hon
      · obtain ⟨done, m', hrun, hprocess, hmemory, huser, hdone, hstay, hall⟩ := ih m
        refine ⟨done, m', ?_, hprocess, hmemory, huser, hdone, hstay, fun t ht hon => ?_⟩
        · have hdetach : ptraceDetach tid m = (.ok false, m) := by
            rw [ptraceDetach, bind_of_ok (get_apply m), if_neg hstopped]
            rfl
          rw [detachThreads, bind_of_ok hdetach, bind_of_ok hrun]
          rfl
        · rcases List.mem_cons.mp ht with rfl | ht
          · exact absurd hon hstopped
          · exact hall t ht hon

/-- Trap bytes at the armed sites, which are apart, cover the inferior's own memory. -/
theorem shadow_ownMemory (hapart : SitesApart m)
    (htraps : ∀ site ∈ m.process.breakpointSites, site.armed = true →
      m.kernel.memory site.address = int3) : Shadow m.ownMemory m where
  distinct := hapart
  armed := fun site hsite harmed => by
    refine ⟨htraps site hsite harmed, ?_⟩
    have hsome : (m.process.breakpointSites.find? fun s =>
        s.armed && s.address = site.address) = some site := by
      cases hfind : m.process.breakpointSites.find? fun s =>
          s.armed && s.address = site.address with
      | none =>
          have hnot := List.find?_eq_none.mp hfind site hsite
          simp [harmed] at hnot
      | some found =>
          have hfound := List.find?_some hfind
          simp only [Bool.and_eq_true, decide_eq_true_eq] at hfound
          rw [List.inj_on_of_nodup_map hapart (List.mem_of_find?_eq_some hfind) hsite hfound.2]
    rw [Machine.ownMemory, hsome]
  plain := fun address hnone => by
    have hfind : (m.process.breakpointSites.find? fun s =>
        s.armed && s.address = address) = none := by
      refine List.find?_eq_none.mpr fun site hsite hboth => ?_
      simp only [Bool.and_eq_true, decide_eq_true_eq] at hboth
      exact hnone site hsite hboth.1 hboth.2
    rw [Machine.ownMemory, hfind]

end Destroying

/-- After any run of the debugger, destroying the process of an attached inferior whose threads
all came to a stop leaves no trace: every trap byte gives way to the byte it covered, no debug
register is armed in any thread, and every thread goes on untraced. -/
theorem destroy_releases {handlers : HitHandlers} {start m halted : Machine}
    (hstart : Unarmed start) (hfresh : start.trace = [])
    (hempty : start.process.breakpointSites = []) (hrun : Run handlers start m)
    (hpid : m.process.pid ≠ 0) (hattached : m.process.isAttached = true)
    (hstate : m.process.state ≠ .exited ∧ m.process.state ≠ .terminated)
    (hhalt : haltThreads m = (.ok ⟨⟩, halted)) (hkeeps : KeepsDebugRegisters halted.trace)
    (hnone : NoneMissed halted.trace) (hmain : halted.isStopped halted.process.pid = true)
    (hstopped : ∀ t, (halted.thread? t).isSome = true → halted.isStopped t = true)
    (hcurrent : (halted.thread? halted.process.currentThread).isSome = true)
    (htraps : ∀ site ∈ halted.process.breakpointSites, site.armed = true →
      halted.wordMapped site.address = true ∧ halted.kernel.memory site.address = int3) :
    ∃ tids last, destroy false m = (.ok (.detached tids), last) ∧
      last.kernel.memory = halted.ownMemory ∧
      (∀ site ∈ last.process.breakpointSites, site.isEnabled = false) ∧
      ∀ t, (m.thread? t).isSome = true → t ∈ tids ∧ (last.kernel.threads t).status = .running ∧
        ∀ slot < 4, (last.fields t slot).enable = 0 := by
  obtain ⟨harmed, hprocess⟩ := haltThreads_armed (hrun.armed hstart hfresh) hhalt
  have hapart : SitesApart halted := by
    have hm : SitesApart m := hrun.apart (by rw [SitesApart, hempty]; exact List.nodup_nil)
    rwa [SitesApart, hprocess]
  have hreleasable : Releasable halted.ownMemory halted :=
    ⟨shadow_ownMemory hapart fun site hsite hon => (htraps site hsite hon).2,
      (harmed hkeeps hnone).1.allocated hstopped, hmain, hcurrent,
      fun site hsite hon => (htraps site hsite hon).1⟩
  obtain ⟨off, hoff, hreleased, hstanding, hsites, hpoints⟩ := hreleasable.disableStoppoints
  obtain ⟨tids, last, hdetach, hlast, hmemory, huser, hrunning, -, hall⟩ :=
    detachThreads_spec (m.process.threads.map (·.1)) off
  refine ⟨tids, last, ?_, ?_, ?_, fun t ht => ?_⟩
  · have htry : swallow Failure.isException (do haltThreads; Debugger.disableStoppoints) m =
        (.ok ⟨⟩, off) := swallow_of_ok (by rw [bind_of_ok hhalt, hoff])
    have hrelease : detach m = (.ok tids, last) := by
      rw [detach, bind_of_ok (get_apply m), bind_of_ok htry, hdetach]
    rw [destroy, bind_of_ok (get_apply m), if_neg hpid, if_neg (by simp [hstate]), if_neg (by simp),
      if_pos hattached, bind_of_ok hrelease]
    rfl
  · funext address
    rw [hmemory]
    refine hreleased.shadow.plain address fun site hsite hon => ?_
    simp [BreakpointSite.armed, hsites site hsite] at hon
  · rw [hlast]
    exact hsites
  · have htracked : (halted.thread? t).isSome = true := by
      rw [Machine.thread?, hprocess]
      exact ht
    have hoffstopped : off.isStopped t = true := by
      rw [Machine.isStopped, Standing.status hstanding]
      exact hstopped t htracked
    have hmem : t ∈ tids := hall t ((Machine.mem_threads_iff m t).mpr ht) hoffstopped
    refine ⟨hmem, hrunning t hmem, fun slot hslot => ?_⟩
    have hclear : off.process.hardwareStoppoints = [] := by
      refine List.append_eq_nil_iff.mpr ⟨List.filterMap_eq_nil_iff.mpr fun site hsite => ?_,
        List.filterMap_eq_nil_iff.mpr fun point hpoint => ?_⟩
      · simp [BreakpointSite.hardware?, hsites site hsite]
      · simp [Watchpoint.hardware?, hpoints point hpoint]
    have harms := hreleased.allocated.actual t (Standing.isSome hstanding t ▸ htracked)
    rw [hclear] at harms
    have hactual : (last.debugView t).actual = (off.debugView t).actual := by
      rw [Machine.debugView, Machine.debugView, huser]
    rw [Machine.fields, hactual]
    exact harms.unowned ⟨slot, hslot⟩ fun point hpoint => by cases hpoint

namespace DetachWitness

open Scenario ThreadArmingWitness

/-- A thread was stopped with the debug registers and the trap byte in place. -/
def halt (tid : Tid) : WaitAnswer :=
  .report ⟨tid, .stopped sigstop 0, .other,
    ((userAt 0x3000).write debugregOffset (toLe 8 0x2000)).write (debugregOffset + 56)
      (toLe 8 0x90001),
    Function.update (fun _ => 0) 0x1000 int3⟩

def begun : Machine := machine [1, 2] [halt 1, halt 2]

theorem begun_unarmed : Unarmed begun := by
  have hzero : User.drs (fun _ => 0) 7 = 0 := by decide
  refine ⟨⟨fun _ _ => rfl, fun t thread h => ?_⟩, fun point hpoint => (by cases hpoint), rfl, 0,
    by decide, fun t _ => ⟨hzero, fun drs hdrs => ?_⟩⟩
  · rw [machine_thread? [1, 2] _ h]
    rfl
  · obtain ⟨thread, h, rfl⟩ := Option.map_eq_some_iff.mp hdrs
    rw [machine_thread? [1, 2] _ h]
    exact hzero

/-- A breakpoint and a watchpoint are enabled, and the threads resumed. -/
@[irreducible]
def resumed : Machine :=
  after passing .resumeAllThreads
    (after passing (.watchpoint (.enable 0))
      (after passing (.watchpoint (.create 0x2000 .write 8))
        (after passing (.site (.enable 0)) (after passing (.site (.create 0x1000 false false))
          begun))))

theorem run_resumed : Run passing begun resumed := by
  unfold resumed
  exact run_after _ (run_after _ (run_after _ (run_after _ (run_after _ .start (by decide +kernel))
    (by decide +kernel)) (by decide +kernel)) (by decide +kernel)) (by decide +kernel)

@[irreducible]
def halted : Machine := (haltThreads resumed).2

theorem halt_resumed : haltThreads resumed = (.ok ⟨⟩, halted) := by
  unfold halted
  refine Prod.ext ?_ rfl
  decide +kernel

theorem halted_sites : halted.process.breakpointSites =
    [⟨none, 1, 0x1000, true, 0, false, false, -1⟩] := by
  decide +kernel

/-- The trap byte is gone, and so is the watchpoint. -/
theorem destroy_releases_resumed : halted.kernel.memory 0x1000 = 0xcc ∧
    (halted.fields 2 0).enable = 1 ∧ ∃ tids last,
      destroy false resumed = (.ok (.detached tids), last) ∧ last.kernel.memory 0x1000 = 0 ∧
        2 ∈ tids ∧ (last.fields 2 0).enable = 0 := by
  refine ⟨by decide +kernel, by decide +kernel, ?_⟩
  obtain ⟨tids, last, hrun, hmemory, -, hthreads⟩ :=
    destroy_releases begun_unarmed rfl rfl run_resumed (by decide +kernel) (by decide +kernel)
      (by decide +kernel) halt_resumed (keepsDebugRegisters_of_kept (by decide +kernel))
      (noneMissed_of_check (by decide +kernel)) (by decide +kernel)
      (fun t ht => by
        have htids : halted.process.threads.map (·.1) = [1, 2] := by decide +kernel
        rw [← Machine.mem_threads_iff, htids] at ht
        rcases List.mem_pair.mp ht with rfl | rfl <;> decide +kernel)
      (by decide +kernel)
      (fun site hsite _ => by
        rw [halted_sites] at hsite
        obtain rfl := List.mem_singleton.mp hsite
        exact ⟨by decide +kernel, by decide +kernel⟩)
  obtain ⟨hmem, -, hclear⟩ := hthreads 2 (by decide +kernel)
  refine ⟨tids, last, hrun, ?_, hmem, hclear 0 (by decide)⟩
  rw [hmemory]
  decide +kernel

end DetachWitness

end Gsdb
