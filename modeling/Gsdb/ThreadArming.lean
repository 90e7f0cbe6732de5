/-
Whether a thread that goes on has the enabled hardware stoppoints in its debug
registers.  They are written to all tracked threads when a stoppoint is enabled
or disabled, and at no other time; a thread that appears later starts with
cleared registers.
-/
import Gsdb.Commands
import Gsdb.SlotAllocation

namespace Gsdb

open ByteMemory Effects Eff Debugger

/-- The debug registers that hold stoppoints: the addresses and the control. -/
def stoppointRegisters : List (Fin 8) := [0, 1, 2, 3, 7]

/-- Two threads, or one at two times, with the same stoppoints. -/
def SameStoppoints (user user' : User) : Prop :=
  ∀ number ∈ stoppointRegisters, User.drs user' number = User.drs user number

instance (user user' : User) : Decidable (SameStoppoints user user') :=
  inferInstanceAs (Decidable (∀ number ∈ stoppointRegisters, _))

/-- The kernel leaves the debug registers of a thread to its tracer, and starts
a thread with cleared ones. -/
def KeepsDebugRegisters : List Observation → Prop
  | [] => True
  | .delivered d :: earlier =>
      (d.status.isStop = true → match d.before.thread? d.tid with
        | some _ => SameStoppoints (d.before.kernel.threads d.tid).user d.user
        | none => SameStoppoints (fun _ => 0) d.user) ∧ KeepsDebugRegisters earlier
  | _ :: earlier => KeepsDebugRegisters earlier

/-- All tracked threads are stopped. -/
def Moment.AllStopped (moment : Moment) : Prop :=
  ∀ t, (moment.thread? t).isSome = true → (moment.kernel.threads t).status = .stopped

/-- Debug registers are programmed only while all tracked threads are stopped,
and no thread stops for the first time while a hardware stoppoint is enabled. -/
def NoneMissed : List Observation → Prop
  | [] => True
  | .programmed moment :: earlier => moment.AllStopped ∧ NoneMissed earlier
  | .delivered d :: earlier =>
      (d.status.isStop = true → d.before.thread? d.tid = none →
        d.before.process.hardwareStoppoints = []) ∧ NoneMissed earlier
  | _ :: earlier => NoneMissed earlier

/-- Every tracked thread that was let run had exactly the enabled hardware
stoppoints armed. -/
def ArmedWhenRun : List Observation → Prop
  | [] => True
  | .letRun tid _ moment :: earlier =>
      ((moment.thread? tid).isSome = true → Arms moment.process.hardwareStoppoints
        (User.drs (moment.kernel.threads tid).user)) ∧ ArmedWhenRun earlier
  | _ :: earlier => ArmedWhenRun earlier

theorem NoneMissed.mem {trace : List Observation} (h : NoneMissed trace) {moment : Moment}
    (hmem : .programmed moment ∈ trace) : moment.AllStopped := by
  induction trace with
  | nil => cases hmem
  | cons observation earlier ih =>
      rcases List.mem_cons.mp hmem with rfl | hearlier
      · exact h.1
      · cases observation with
        | programmed _ => exact ih h.2 hearlier
        | delivered _ => exact ih h.2 hearlier
        | _ => exact ih h hearlier

section Operations

variable {m m' : Machine}

/-- An operation either affects the slots as the operations on stoppoints do, or
has programmed the debug registers. -/
def StepOrNoted (m m' : Machine) : Prop :=
  StoppointStep m m' ∨ .programmed m.moment ∈ m'.trace

theorem debugRegisterFrame_remembers : DebugRegisterFrame Remembers :=
  fun _ _ id val _ =>
    writeRegister_respects (fun _ _ => .of_eq rfl) (fun _ _ => .of_eq rfl) id val true

theorem mem_trace_bind {α β : Type} {x : Debugger α} {f : α → Debugger β} {m : Machine}
    {observation : Observation} (hx : observation ∈ (x m).2.trace)
    (hf : ∀ a, Respects Remembers (f a)) : observation ∈ ((x >>= f) m).2.trace := by
  rcases h : x m with ⟨e | a, middle⟩
  · rw [bind_of_error h]
    rwa [h] at hx
  · rw [bind_of_ok h]
    rw [h] at hx
    exact (hf a middle).subset hx

/-- What starts by programming has programmed. -/
theorem noted_bind {α β : Type} {x : Debugger α}
    (hx : ∃ rest, x = (do mark .programmed; rest) ∧ Respects Remembers rest)
    {f : α → Debugger β} (hf : ∀ a, Respects Remembers (f a)) (m : Machine) :
    .programmed m.moment ∈ ((x >>= f) m).2.trace := by
  obtain ⟨rest, rfl, hrest⟩ := hx
  refine mem_trace_bind (mem_trace_bind ?_ fun _ => hrest) hf
  exact List.mem_cons_self

theorem updateSite_remembers (index : Nat) (f : BreakpointSite → BreakpointSite) :
    Respects Remembers (updateSite index f) :=
  Respects.modify fun _ => .of_eq rfl

theorem enableSite_stepOrNoted (m : Machine) (index : Nat) :
    StepOrNoted m (enableSite index m).2 := by
  rcases softwareAt_cases m index with hsoftware | ⟨site, hsite, hhardware⟩
  · exact .inl (enableSite_same hsoftware).step
  have hat : siteAt index m = (.ok site, m) := by simp [siteAt, hsite]
  rw [enableSite, bind_of_ok hat]
  by_cases henabled : site.isEnabled = true
  · rw [if_pos henabled]
    exact .inl (.refl m)
  rw [if_neg henabled, if_pos hhardware]
  refine .inr (noted_bind (debugRegisterFrame_remembers.setHardwareStoppoint_noted _ _ _) ?_ m)
  exact fun slot => Respects.bind (updateSite_remembers _ _) fun _ => updateSite_remembers _ _

theorem disableSite_stepOrNoted (m : Machine) (index : Nat) :
    StepOrNoted m (disableSite index m).2 := by
  rcases softwareAt_cases m index with hsoftware | ⟨site, hsite, hhardware⟩
  · exact .inl (disableSite_same hsoftware).step
  have hat : siteAt index m = (.ok site, m) := by simp [siteAt, hsite]
  rw [disableSite, bind_of_ok hat]
  by_cases henabled : site.isEnabled = true
  case neg =>
    rw [if_pos (by simpa using henabled)]
    exact .inl (.refl m)
  rw [if_neg (by simpa using henabled), if_pos hhardware]
  refine .inr (noted_bind (debugRegisterFrame_remembers.clearHardwareStoppoint_noted _) ?_ m)
  exact fun _ => Respects.bind (updateSite_remembers _ _) fun _ => updateSite_remembers _ _

theorem removeSite_stepOrNoted (m : Machine) (index : Option Nat) :
    StepOrNoted m (removeSite index m).2 := by
  cases index with
  | none => exact .inl (.refl m)
  | some index =>
      rcases disableSite_stepOrNoted m index with hstep | hnoted
      · exact .inl (removeSite_of_disable hstep)
      · exact .inr (mem_trace_bind hnoted fun _ => Respects.modify fun _ => .of_eq rfl)

theorem SameSlots.then_stepOrNoted {m'' : Machine} (h : SameSlots m m')
    (hmoment : m'.moment = m.moment)
    (hoperation : StepOrNoted m' m'') : StepOrNoted m m'' := by
  rcases hoperation with hstep | hnoted
  · exact .inl (h.then_step hstep)
  · rw [hmoment] at hnoted
    exact .inr hnoted

theorem SiteOperation.run_stepOrNoted (op : SiteOperation) (m : Machine) :
    StepOrNoted m (op.run m).2 := by
  have htouch : SameSlots m (op.touch m).2 :=
    op.touch_respects (fun m _ => sameSlots_observe m _) m
  have hmoment : (op.touch m).2.moment = m.moment := by
    refine op.touch_respects (R := Fixes Machine.moment) (fun _ _ => rfl) m
  refine htouch.then_stepOrNoted hmoment ?_
  change StepOrNoted (op.touch m).2 (op.perform (op.touch m).2).2
  generalize (op.touch m).2 = m₀
  cases op with
  | create address hardware internal =>
      refine .inl (Respects.bind (pushSite_same address fun p => ?_)
        (fun _ => Respects.pure _) m₀).step
      split
      · exact ⟨rfl, p.nextSiteId, rfl⟩
      · exact ⟨rfl, p.nextSiteId + 1, rfl⟩
  | createFor parent id address hardware internal =>
      exact .inl (Respects.bind (pushSite_same address fun p => ⟨rfl, p.nextSiteId, rfl⟩)
        (fun _ => Respects.pure _) m₀).step
  | enable index => exact enableSite_stepOrNoted m₀ index
  | disable index => exact disableSite_stepOrNoted m₀ index
  | removeById id => exact removeSite_stepOrNoted m₀ _
  | removeByAddress address => exact removeSite_stepOrNoted m₀ _

theorem updateWatchpoint_remembers (index : Nat) (f : Watchpoint → Watchpoint) :
    Respects Remembers (updateWatchpoint index f) :=
  Respects.modify fun _ => .of_eq rfl

theorem enableWatchpoint_stepOrNoted (m : Machine) (index : Nat) :
    StepOrNoted m (enableWatchpoint index m).2 := by
  cases hpoint : m.process.watchpoints[index]? with
  | none =>
      have hat : watchpointAt index m = (.error (.undefined "dangling watchpoint"), m) := by
        simp [watchpointAt, hpoint]
      rw [enableWatchpoint, bind_of_error hat]
      exact .inl (.refl m)
  | some point =>
      have hat : watchpointAt index m = (.ok point, m) := by simp [watchpointAt, hpoint]
      rw [enableWatchpoint, bind_of_ok hat]
      by_cases henabled : point.isEnabled = true
      · rw [if_pos henabled]
        exact .inl (.refl m)
      rw [if_neg henabled]
      refine .inr (noted_bind (debugRegisterFrame_remembers.setHardwareStoppoint_noted _ _ _) ?_ m)
      exact fun slot => Respects.bind (updateWatchpoint_remembers _ _) fun _ =>
        updateWatchpoint_remembers _ _

theorem disableWatchpoint_stepOrNoted (m : Machine) (index : Nat) :
    StepOrNoted m (disableWatchpoint index m).2 := by
  cases hpoint : m.process.watchpoints[index]? with
  | none =>
      have hat : watchpointAt index m = (.error (.undefined "dangling watchpoint"), m) := by
        simp [watchpointAt, hpoint]
      rw [disableWatchpoint, bind_of_error hat]
      exact .inl (.refl m)
  | some point =>
      have hat : watchpointAt index m = (.ok point, m) := by simp [watchpointAt, hpoint]
      rw [disableWatchpoint, bind_of_ok hat]
      by_cases henabled : point.isEnabled = true
      case neg =>
        rw [if_pos (by simpa using henabled)]
        exact .inl (.refl m)
      rw [if_neg (by simpa using henabled)]
      refine .inr (noted_bind (debugRegisterFrame_remembers.clearHardwareStoppoint_noted _) ?_ m)
      exact fun _ => updateWatchpoint_remembers _ _

theorem removeWatchpoint_stepOrNoted (m : Machine) (index : Option Nat) :
    StepOrNoted m (removeWatchpoint index m).2 := by
  cases index with
  | none => exact .inl (.refl m)
  | some index =>
      rcases disableWatchpoint_stepOrNoted m index with hstep | hnoted
      · exact .inl (removeWatchpoint_of_disable hstep)
      · exact .inr (mem_trace_bind hnoted fun _ => Respects.modify fun _ => .of_eq rfl)

theorem WatchpointOperation.run_stepOrNoted (op : WatchpointOperation) (m : Machine) :
    StepOrNoted m (op.run m).2 := by
  cases op with
  | create address mode size =>
      have hstep := createWatchpoint_step address mode size m
      rw [WatchpointOperation.run]
      rcases hcreate : createWatchpoint address mode size m with ⟨e | index, m'⟩
      · rw [bind_of_error hcreate]
        rw [hcreate] at hstep
        exact .inl hstep
      · rw [bind_of_ok hcreate]
        rw [hcreate] at hstep
        exact .inl hstep
  | enable index => exact enableWatchpoint_stepOrNoted m index
  | disable index => exact disableWatchpoint_stepOrNoted m index
  | removeById id => exact removeWatchpoint_stepOrNoted m _
  | removeByAddress address => exact removeWatchpoint_stepOrNoted m _

end Operations

/-- The debug registers of the tracked threads are those of the enabled hardware
stoppoints, and were whenever one of them was let run. -/
def ThreadsArmed (m : Machine) : Prop :=
  KeepsDebugRegisters m.trace → NoneMissed m.trace → SlotsArmed m ∧ ArmedWhenRun m.trace

/-- A state change of a thread arrived that was not dealt with yet.  The first
stop of a thread finds no hardware stoppoint enabled. -/
structure Unhandled (event : WaitEvent) (m : Machine) : Prop where
  armed : ThreadsArmed m
  first : KeepsDebugRegisters m.trace → NoneMissed m.trace → event.status.isStop = true →
    m.thread? event.tid = none → m.process.hardwareStoppoints = [] ∧
      SameStoppoints (fun _ => 0) (m.kernel.threads event.tid).user

def armingAssertions : Assertions where
  rest := ThreadsArmed
  swallowed := fun _ => ThreadsArmed
  awaited := fun _ => ThreadsArmed
  due := Unhandled
  handled := fun _ _ => ThreadsArmed
  failed := fun _ => ThreadsArmed
  returned := fun _ => ThreadsArmed
  thrown := fun _ => ThreadsArmed

/-- The registers of a tracked thread, cached and actual. -/
structure ThreadArmed (points : List HardwareStoppoint) (regs : Registers)
    (thread : KernelThread) : Prop where
  defined : regs.undefinedOffsets = []
  cached : Arms points (User.drs regs.data)
  actual : thread.status ≠ .absent → Arms points (User.drs thread.user)

/-- What the notes of operations on stoppoints do to the conditions. -/
structure OnlyNoted (m m' : Machine) : Prop where
  keeps : KeepsDebugRegisters m'.trace → KeepsDebugRegisters m.trace
  none : NoneMissed m'.trace → NoneMissed m.trace
  armed : ArmedWhenRun m.trace → ArmedWhenRun m'.trace

instance : Std.Refl OnlyNoted := ⟨fun _ => ⟨id, id, id⟩⟩

instance : IsTrans Machine OnlyNoted := ⟨fun _ _ _ h h' =>
  ⟨h.keeps ∘ h'.keeps, h.none ∘ h'.none, h'.armed ∘ h.armed⟩⟩

section Steps

variable {m m' : Machine} {tid : Tid}

theorem OnlyNoted.of_eq (h : m'.trace = m.trace) : OnlyNoted m m' := by
  constructor <;> rw [h] <;> exact id

theorem OnlyNoted.observe {observation : Observation}
    (h : observation.isNote = true ∨ (∃ reason, observation = .lifecycle reason) ∨
      ∃ reason, observation = .augmented reason)
    (htrace : m'.trace = observation :: m.trace) : OnlyNoted m m' := by
  rcases h with hnote | ⟨reason, rfl⟩ | ⟨reason, rfl⟩
  · cases observation with
    | programmed => constructor <;> rw [htrace] <;> [exact id; exact And.right; exact id]
    | sentSigstop => constructor <;> rw [htrace] <;> exact id
    | sampledPc => constructor <;> rw [htrace] <;> exact id
    | lifted => constructor <;> rw [htrace] <;> exact id
    | relaid => constructor <;> rw [htrace] <;> exact id
    | touched => constructor <;> rw [htrace] <;> exact id
    | _ => cases hnote
  · constructor <;> rw [htrace] <;> exact id
  · constructor <;> rw [htrace] <;> exact id

theorem Arms.congr {points : List HardwareStoppoint} {user user' : User}
    (h : Arms points (User.drs user)) (hsame : SameStoppoints user user') :
    Arms points (User.drs user') := by
  have hcontrol : User.drs user' 7 = User.drs user 7 := hsame 7 (by decide)
  refine ⟨fun point hpoint => ?_, fun slot hslot => ?_⟩
  · obtain ⟨slot, howner, haddress, hfields⟩ := h.owned point hpoint
    refine ⟨slot, howner, ?_, ?_⟩
    · rw [hsame _ (by fin_cases slot <;> decide)]
      exact haddress
    · rw [hcontrol]
      exact hfields
  · rw [hcontrol]
    exact h.unowned slot hslot

theorem SlotsArmed.threadArmed (h : SlotsArmed m) {t : Tid} {thread : ThreadState}
    (hthread : m.thread? t = some thread) :
    ThreadArmed m.process.hardwareStoppoints thread.regs (m.kernel.threads t) where
  defined := h.defined t thread hthread
  cached := h.cached t _ (by simp [Machine.debugView, hthread])
  actual := h.actual t (by rw [hthread]; rfl)

theorem SlotsArmed.of_threads (h : SlotsArmed m)
    (hpoints : m'.process.hardwareStoppoints = m.process.hardwareStoppoints)
    (hsizes : m'.process.watchpoints.map (·.size) = m.process.watchpoints.map (·.size))
    (hthreads : ∀ t thread', m'.thread? t = some thread' →
      ThreadArmed m.process.hardwareStoppoints thread'.regs (m'.kernel.threads t)) :
    SlotsArmed m' where
  defined := fun t thread' hthread' => (hthreads t thread' hthread').defined
  legal := fun point hpoint => by
    have hsize : point.size ∈ m'.process.watchpoints.map (·.size) := List.mem_map_of_mem hpoint
    rw [hsizes] at hsize
    obtain ⟨old, hold, heq⟩ := List.mem_map.mp hsize
    rw [← heq]
    exact h.legal old hold
  slots := by
    rw [hpoints]
    exact h.slots
  distinct := by
    rw [hpoints]
    exact h.distinct
  actual := fun t ht hpresent => by
    obtain ⟨thread', hthread'⟩ := Option.isSome_iff_exists.mp ht
    rw [hpoints]
    exact (hthreads t thread' hthread').actual hpresent
  cached := fun t drs hdrs => by
    obtain ⟨thread', hthread', rfl⟩ := Option.map_eq_some_iff.mp hdrs
    rw [hpoints]
    exact (hthreads t thread' hthread').cached

/-- A step keeps the threads armed if it does so for every one of them. -/
theorem ThreadsArmed.threads (h : ThreadsArmed m) (htrace : OnlyNoted m m')
    (hpoints : m'.process.hardwareStoppoints = m.process.hardwareStoppoints)
    (hsizes : m'.process.watchpoints.map (·.size) = m.process.watchpoints.map (·.size))
    (hthreads : SlotsArmed m → ∀ t thread', m'.thread? t = some thread' →
      ThreadArmed m.process.hardwareStoppoints thread'.regs (m'.kernel.threads t)) :
    ThreadsArmed m' := by
  intro hkeeps hnone
  obtain ⟨hslots, harmed⟩ := h (htrace.keeps hkeeps) (htrace.none hnone)
  exact ⟨hslots.of_threads hpoints hsizes (hthreads hslots), htrace.armed harmed⟩

/-- A step that leaves the threads alone. -/
theorem ThreadsArmed.same (h : ThreadsArmed m) (htrace : OnlyNoted m m')
    (hpoints : m'.process.hardwareStoppoints = m.process.hardwareStoppoints)
    (hsizes : m'.process.watchpoints.map (·.size) = m.process.watchpoints.map (·.size))
    (hentries : m'.thread? = m.thread?)
    (hkernel : m'.kernel.threads = m.kernel.threads) : ThreadsArmed m' := by
  refine h.threads htrace hpoints hsizes fun hslots t thread' hthread' => ?_
  rw [hentries] at hthread'
  rw [hkernel]
  exact hslots.threadArmed hthread'

theorem siteFrame_onlyNoted : SiteFrame true OnlyNoted where
  slots := fun _ _ _ _ _ => .inl fun _ _ id val _ =>
    writeRegister_respects (fun _ _ => .of_eq rfl) (fun _ _ => .of_eq rfl) id val true
  memory := fun _ _ => .of_eq rfl
  update := fun _ _ _ _ => .of_eq rfl
  push := fun _ _ _ _ => .of_eq rfl
  erase := fun _ _ => .of_eq rfl
  note := fun _ observation hnote =>
    .observe (.inl (by cases observation <;> first | rfl | cases hnote)) rfl

theorem watchpointFrame_onlyNoted : WatchpointFrame OnlyNoted where
  slots := fun _ _ id val _ =>
    writeRegister_respects (fun _ _ => .of_eq rfl) (fun _ _ => .of_eq rfl) id val true
  watchpoints := fun _ _ _ => .of_eq rfl
  note := fun _ observation hnote =>
    .observe (.inl (by cases observation <;> first | rfl | cases hnote)) rfl

/-- Operations on stoppoints keep the threads armed: those that program the
debug registers find all threads stopped. -/
theorem operation_armed {α : Type} {x : Debugger α}
    (hoperation : ∀ m, StepOrNoted m (x m).2)
    (hstep : ∀ m, Allocated m → StoppointStep m (x m).2) (hnoted : Respects OnlyNoted x) :
    Respects (Carries ThreadsArmed) x := by
  intro m hm hkeeps hnone
  obtain ⟨hslots, harmed⟩ := hm ((hnoted m).keeps hkeeps) ((hnoted m).none hnone)
  refine ⟨?_, (hnoted m).armed harmed⟩
  rcases hoperation m with hslot | hprogrammed
  · exact hslot.armed hslots
  · have hstopped := hnone.mem hprogrammed
    refine (hstep m (hslots.allocated fun t ht => ?_)).armed hslots
    have hstatus : (m.kernel.threads t).status = .stopped := hstopped t ht
    simp [Machine.isStopped, hstatus]

theorem enableSite_armed (index : Nat) : Respects (Carries ThreadsArmed) (enableSite index) :=
  operation_armed (enableSite_stepOrNoted · index) (fun _ h => enableSite_step h index)
    (siteFrame_onlyNoted.enableSite index)

theorem disableSite_armed (index : Nat) : Respects (Carries ThreadsArmed) (disableSite index) :=
  operation_armed (disableSite_stepOrNoted · index) (fun _ h => disableSite_step h index)
    (siteFrame_onlyNoted.disableSite index)

theorem SiteOperation.run_armed (op : SiteOperation) :
    Respects (Carries ThreadsArmed) op.run :=
  operation_armed op.run_stepOrNoted (fun _ h => op.run_step h) (siteFrame_onlyNoted.run (.inl rfl))

theorem WatchpointOperation.run_armed (op : WatchpointOperation) :
    Respects (Carries ThreadsArmed) op.run :=
  operation_armed op.run_stepOrNoted (fun _ h => op.run_step h) (watchpointFrame_onlyNoted.run op)

/-- A change of the entry of one thread. -/
theorem ThreadsArmed.update (h : ThreadsArmed m) (tid : Tid) {f : ThreadState → ThreadState}
    (hf : ∀ thread, SlotsArmed m → m.thread? tid = some thread →
      ThreadArmed m.process.hardwareStoppoints (f thread).regs (m.kernel.threads tid)) :
    ThreadsArmed (updateThread tid f m).2 := by
  refine h.threads (.of_eq rfl) rfl rfl fun hslots t thread' hthread' => ?_
  by_cases ht : t = tid
  · subst ht
    rw [Machine.thread?_updateThread] at hthread'
    obtain ⟨thread, hthread, rfl⟩ := Option.map_eq_some_iff.mp hthread'
    exact hf thread hslots hthread
  · rw [Machine.thread?_updateThread_of_ne m f ht] at hthread'
    exact hslots.threadArmed hthread'

/-- A change of an entry that leaves its registers. -/
theorem ThreadsArmed.record (h : ThreadsArmed m) (tid : Tid) {f : ThreadState → ThreadState}
    (hf : ∀ thread, (f thread).regs = thread.regs) : ThreadsArmed (updateThread tid f m).2 :=
  h.update tid fun thread hslots hthread => by
    rw [hf]
    exact hslots.threadArmed hthread

/-- Words outside of the debug registers. -/
theorem User.drs_write_below (user : User) {offset : Nat} {bytes : List Byte}
    (h : offset + bytes.length ≤ debugregOffset) :
    User.drs (user.write offset bytes) = User.drs user := by
  funext number
  rw [User.drs, User.drs, Registers.word, Registers.word, Area.read_write_disjoint]
  omega

theorem setPc_armed (address : Word) (tid : Tid) :
    Respects (Carries ThreadsArmed) (setPc address tid) := by
  intro m hm
  rw [setPc]
  rcases writeRegister_cases rip_info tid (.u64 address) m with
    ⟨e, h⟩ | ⟨thread, regs, hthread, hregs, hcommit⟩
  · rwa [h]
  have hdata := writeData_eq_ok hregs
  have hcached : User.drs regs.data = User.drs thread.regs.data := by
    rw [hdata]
    refine User.drs_write_below _ ?_
    rw [toLe_length]
    decide
  have hset : ThreadsArmed (m.setRegs tid regs) := by
    refine hm.update tid fun found hslots hfound => ?_
    rw [hthread] at hfound
    cases hfound
    have harmed := hslots.threadArmed hthread
    refine ⟨?_, ?_, harmed.actual⟩
    · rw [hdata]
      exact harmed.defined
    · change Arms _ (User.drs regs.data)
      rw [hcached]
      exact harmed.cached
  rcases hcommit with ⟨-, e, h⟩ | ⟨-, h⟩ <;> rw [h]
  · exact hset
  refine hset.threads (.of_eq rfl) rfl rfl fun hslots t thread' hthread' => ?_
  have harmed := hslots.threadArmed (t := t) hthread'
  refine ⟨harmed.defined, harmed.cached, fun hpresent => ?_⟩
  have hstatus := setUser_status (m.setRegs tid regs) tid t
    (committed (gpr64 .rip "rip" 16 128) regs.data (m.kernel.threads tid).user)
  dsimp only at hpresent ⊢
  rw [hstatus] at hpresent
  by_cases ht : t = tid
  · subst ht
    rw [setUser_user]
    have hdrs : User.drs (committed (gpr64 .rip "rip" 16 128) regs.data (m.kernel.threads t).user) =
        User.drs (m.kernel.threads t).user :=
      User.drs_write_below _ (by rw [Area.read_length]; decide)
    rw [hdrs]
    exact harmed.actual hpresent
  · have hkernel : ((m.setRegs tid regs).setUser tid
        (committed (gpr64 .rip "rip" 16 128) regs.data
          (m.kernel.threads tid).user)).kernel.threads t =
        (m.setRegs tid regs).kernel.threads t := Function.update_of_ne ht _ _
    rw [hkernel]
    exact harmed.actual hpresent

theorem hardwareStoppoints_data (p : Process) (index : Nat) (data : Word) :
    ({ p with watchpoints := p.watchpoints.modify index fun w =>
      { w with previousData := w.data, data := data } } : Process).hardwareStoppoints =
      p.hardwareStoppoints := by
  have hmap := map_modify_of_eq (f := fun w : Watchpoint =>
    { w with previousData := w.data, data := data }) (g := Watchpoint.hardware?) (fun _ => rfl)
    p.watchpoints index
  have hfilter : ∀ points : List Watchpoint, points.filterMap Watchpoint.hardware? =
      (points.map Watchpoint.hardware?).filterMap id := by
    intro points
    rw [List.filterMap_map]
    rfl
  simp only [Process.hardwareStoppoints]
  rw [hfilter, hmap, ← hfilter]

theorem decodeFrame_armed (handlers : HitHandlers) (t : Tid) :
    DecodeFrame handlers t (Carries ThreadsArmed) where
  action := fun _ _ action _ => by
    cases action with
    | site op => exact op.run_armed
    | breakpoints points => exact Respects.modify fun _ hm => hm.same (.of_eq rfl) rfl rfl rfl rfl
  setPc := fun address => setPc_armed address t
  data := fun m index data hm => hm.same (.of_eq rfl)
    (hardwareStoppoints_data m.process index data)
    (map_modify_of_eq (f := fun w : Watchpoint => { w with previousData := w.data, data := data })
      (fun _ => rfl) m.process.watchpoints index) rfl rfl
  augment := fun reason _ _ m hm => by
    rcases augmentStopReason_cases reason m with ⟨e, h⟩ | ⟨info, -, -, h⟩ | ⟨-, h⟩ <;> rw [h]
    · exact hm
    · exact hm.same (.observe (.inr (.inr ⟨_, rfl⟩)) rfl) rfl rfl rfl rfl
    · exact hm.same (.observe (.inr (.inr ⟨_, rfl⟩)) rfl) rfl rfl rfl rfl

/-- The blocks that are read hold the debug registers. -/
theorem User.drs_reload (regs : Registers) (user : User) :
    User.drs (reload regs user).data = User.drs user := by
  funext number
  have hnumber := number.isLt
  rw [User.drs, User.drs, Registers.word, Registers.word]
  congr 2
  refine Area.read_congr fun i hlow hhigh => ?_
  exact Area.copy_inside (by omega)

theorem readAllRegisters_armed (tid : Tid) :
    Respects (Carries ThreadsArmed) (readAllRegisters tid) := by
  refine Respects.bind (Respects.asks _) fun _ m hm => ?_
  rw [bind_of_ok (get_apply m)]
  cases hstopped : m.isStopped tid with
  | false => exact hm
  | true =>
      rw [if_pos rfl]
      refine hm.update tid fun thread hslots hthread => ?_
      have harmed := hslots.threadArmed hthread
      refine ⟨harmed.defined, ?_, harmed.actual⟩
      rw [User.drs_reload]
      refine harmed.actual fun habsent => ?_
      simp [Machine.isStopped, habsent] at hstopped

theorem decodeSignal_armed (handlers : HitHandlers) (reason : StopReason) (isMainStop : Bool)
    (hreason : reason.syscallInfo = none) :
    Respects (Carries ThreadsArmed) (decodeSignal handlers reason isMainStop) :=
  Respects.bind (readAllRegisters_armed reason.tid) fun _ =>
    (decodeFrame_armed handlers reason.tid).decodeLoaded rfl hreason isMainStop

/-- A thread that goes on is armed. -/
theorem ThreadsArmed.letRun (h : ThreadsArmed m) (hstopped : m.isStopped tid = true)
    (request : RunRequest) : ThreadsArmed (m.letRun tid request) := by
  intro hkeeps hnone
  obtain ⟨hslots, harmed⟩ := h hkeeps hnone
  have hpresent : (m.kernel.threads tid).status ≠ .absent := by
    intro habsent
    simp [Machine.isStopped, habsent] at hstopped
  refine ⟨hslots.of_threads rfl rfl fun t thread hthread => ?_,
    fun htracked => hslots.actual tid htracked hpresent, harmed⟩
  have hentry : ThreadArmed _ thread.regs (m.kernel.threads t) := hslots.threadArmed hthread
  by_cases ht : t = tid
  · subst ht
    have hkernel : (m.letRun t request).kernel.threads t =
        { m.kernel.threads t with status := .running } := Function.update_self _ _ _
    rw [hkernel]
    exact ⟨hentry.defined, hentry.cached, fun _ => hentry.actual hpresent⟩
  · have hkernel : (m.letRun tid request).kernel.threads t = m.kernel.threads t :=
      Function.update_of_ne ht _ _
    rwa [hkernel]

theorem ptraceRun_armed (request : RunRequest) (tid : Tid) :
    Respects (Carries ThreadsArmed) (ptraceRun request tid) := by
  intro m hm
  rcases ptraceRun_cases request tid m with ⟨hstopped, h⟩ | ⟨-, h⟩ <;> rw [h]
  · exact hm.letRun hstopped request
  · exact hm

/-- A state change arrives, with the debug registers as they were. -/
theorem ThreadsArmed.deliver (h : ThreadsArmed m) {toAwait : Option Tid} (waiter : Waiter)
    {event : WaitEvent} (hmay : m.mayReport toAwait event = true) (script : List WaitAnswer) :
    Unhandled event ((m.deliver waiter event).setScript script) := by
  have hreporter : ((m.deliver waiter event).setScript script).kernel.threads event.tid =
      ⟨if event.status.isStop then .stopped else .absent, event.user, event.siCode⟩ :=
    Function.update_self _ _ _
  refine ⟨fun hkeeps hnone => ?_, fun hkeeps hnone hstop hnew => ?_⟩
  · obtain ⟨hslots, harmed⟩ := h hkeeps.2 hnone.2
    refine ⟨hslots.of_threads rfl rfl fun t thread hthread => ?_, harmed⟩
    have hentry : m.thread? t = some thread := hthread
    have hthread := hslots.threadArmed hentry
    by_cases ht : t = event.tid
    · subst ht
      rw [hreporter]
      refine ⟨hthread.defined, hthread.cached, fun hpresent => ?_⟩
      have hstop : event.status.isStop = true := by
        cases hcase : event.status.isStop with
        | true => rfl
        | false => simp [hcase] at hpresent
      have hsame := hkeeps.1 hstop
      have hknown : m.moment.thread? event.tid = some thread := hentry
      rw [hknown] at hsame
      exact (hthread.actual (Machine.present_of_mayReport hmay)).congr hsame
    · have hkernel : ((m.deliver waiter event).setScript script).kernel.threads t =
          m.kernel.threads t := Function.update_of_ne ht _ _
      rwa [hkernel]
  · have hfirst : m.moment.thread? event.tid = none := hnew
    have hzero := hkeeps.1 hstop
    rw [hfirst] at hzero
    rw [hreporter]
    exact ⟨hnone.1 hstop hfirst, hzero⟩

theorem keeps_armed {α : Type} {x : Debugger α} (h : Respects (Carries ThreadsArmed) x) :
    Triple ThreadsArmed x (fun _ => ThreadsArmed) (fun _ => ThreadsArmed) :=
  Triple.of_respects h

theorem waitpid_armed (waiter : Waiter) (toAwait : Option Tid) :
    Triple ThreadsArmed (waitpid waiter toAwait) armingAssertions.answered
      (fun _ => ThreadsArmed) := by
  intro m hm
  rcases waitpid_cases waiter toAwait m with h | ⟨rest, -, h⟩ | ⟨event, rest, hmay, -, h⟩
  · exact Triple.of_eq_error h hm
  · exact Triple.of_eq_ok h (hm.same (.of_eq rfl) rfl rfl rfl rfl)
  · exact Triple.of_eq_ok h (hm.deliver waiter hmay rest)

theorem waitpid_keeps_armed (waiter : Waiter) (toAwait : Option Tid) :
    Triple ThreadsArmed (waitpid waiter toAwait) (fun _ => ThreadsArmed) (fun _ => ThreadsArmed) :=
  (waitpid_armed waiter toAwait).mono (fun _ hm => hm)
    (fun answer _ hm => by
      cases answer with
      | none => exact hm
      | some event => exact hm.armed) fun _ _ hm => hm

theorem swallowPendingSigstop_armed (tid : Tid) :
    Triple ThreadsArmed (swallowPendingSigstop tid) (fun _ => ThreadsArmed)
      (fun _ => ThreadsArmed) := by
  refine Triple.bind (threadAt_triple fun m hm _ => hm) fun thread => ?_
  refine Triple.ite (fun _ => ?_) fun _ => Triple.pure fun _ hm => hm.1
  refine Triple.bind (Q := fun _ => ThreadsArmed)
    ((keeps_armed (ptraceRun_armed _ tid)).pre fun _ hm => hm.1) fun _ => ?_
  refine Triple.bind (waitpid_keeps_armed _ _) fun _ => ?_
  exact updateThread_triple fun m hm => hm.record tid fun _ => rfl

theorem sendContinue_armed (tid : Tid) :
    Triple ThreadsArmed (sendContinue tid) (fun _ => ThreadsArmed) (fun _ => ThreadsArmed) := by
  refine Triple.get_bind fun m hm => ?_
  refine Triple.bind (Q := fun _ => ThreadsArmed)
    ((keeps_armed (ptraceRun_armed _ tid)).pre fun _ hs => hs ▸ hm) fun ran => ?_
  refine Triple.ite (fun _ => Triple.throw fun _ hm => hm) fun _ => ?_
  refine Triple.bind (threadAt_triple fun m hm _ => hm) fun thread => ?_
  refine Triple.bind (Q := fun _ => ThreadsArmed) (updateThread_triple fun m hm =>
    hm.1.record tid fun _ => rfl) fun _ => ?_
  exact Triple.modify fun m hm => hm.same (.of_eq rfl) rfl rfl rfl rfl

theorem samplePc_armed (tid : Tid) : Respects (Carries ThreadsArmed) (samplePc tid) := by
  refine Respects.bind (readRegister_respects _ _) fun pc => ?_
  refine Respects.bind (Respects.modify fun m hm => ?_) fun _ => Respects.pure _
  exact hm.same (.observe (.inl rfl) rfl) rfl rfl rfl rfl

/-- A thread that appears while no hardware stoppoint is enabled is armed as it
is. -/
theorem Unhandled.track {event : WaitEvent} (h : Unhandled event m)
    (hstop : event.status.isStop = true) {reason : StopReason} (htid : reason.tid = event.tid)
    (hnew : m.thread? reason.tid = none) : ThreadsArmed (m.track reason) := by
  intro hkeeps hnone
  obtain ⟨hslots, harmed⟩ := h.armed hkeeps hnone
  obtain ⟨hpoints, hzero⟩ := h.first hkeeps hnone hstop (htid ▸ hnew)
  have hcleared : Arms [] (User.drs fun _ => 0) :=
    ⟨fun point hpoint => (by cases hpoint), fun slot _ => by fin_cases slot <;> decide⟩
  refine ⟨hslots.of_threads rfl rfl fun t thread hthread => ?_, harmed⟩
  by_cases ht : t = reason.tid
  · subst ht
    rw [Machine.thread?_track hnew] at hthread
    cases hthread
    rw [hpoints]
    refine ⟨rfl, hcleared, fun _ => ?_⟩
    rw [← htid] at hzero
    exact hcleared.congr hzero
  · rw [m.thread?_track_of_ne ht] at hthread
    exact hslots.threadArmed hthread

theorem handleSignal_armed (handlers : HitHandlers) (event : WaitEvent) :
    Triple (Unhandled event) (handleSignal handlers (.ofWait event.tid event.status) true)
      (fun _ => ThreadsArmed) (fun _ => ThreadsArmed) := by
  intro m hm
  rcases handleSignal_cases handlers (.ofWait event.tid event.status) true m with
    ⟨-, -, h⟩ | ⟨-, h⟩ | ⟨hstop, hnew, -, h⟩ | ⟨thread, -, -, -, -, h⟩ | ⟨thread, -, -, -, h⟩ |
      ⟨-, -, hmain, -⟩
  · exact Triple.of_eq_ok h hm.armed
  · exact Triple.of_eq_ok h hm.armed
  · refine Triple.of_eq_ok h (hm.track ((ofWait_stopped_iff _ _).mp hstop) ?_ hnew)
    exact StopReason.ofWait_tid _ _
  · exact Triple.of_eq_ok h (hm.armed.record _ fun _ => rfl)
  · rw [h]
    exact keeps_armed (decodeSignal_armed handlers _ true (StopReason.ofWait_syscallInfo _ _)) m
      hm.armed
  · cases hmain

/-- The stop of a thread that is tracked already is recorded. -/
theorem recordStop_armed (handlers : HitHandlers) (event : WaitEvent) :
    Triple (fun m => ThreadsArmed m ∧ (m.thread? event.tid).isSome = true)
      (recordStop handlers event.tid (.ofWait event.tid event.status)) (fun _ => ThreadsArmed)
      (fun _ => ThreadsArmed) := by
  refine Triple.bind (Q := fun _ => ThreadsArmed) (fun m hm => ?_) fun handled =>
    updateThread_triple fun m hm => hm.record _ fun _ => rfl
  obtain ⟨harmed, htracked⟩ := hm
  rcases handleSignal_cases handlers (.ofWait event.tid event.status) false m with
    ⟨-, hmain, -⟩ | ⟨-, h⟩ | ⟨-, -, hmain, -⟩ | ⟨thread, -, -, -, -, h⟩ | ⟨thread, -, -, -, h⟩ |
      ⟨-, hnew, -, -⟩
  · cases hmain
  · exact Triple.of_eq_ok h harmed
  · cases hmain
  · exact Triple.of_eq_ok h (harmed.record _ fun _ => rfl)
  · rw [h]
    exact keeps_armed (decodeSignal_armed handlers _ false (StopReason.ofWait_syscallInfo _ _)) m
      harmed
  · rw [StopReason.ofWait_tid] at hnew
    rw [hnew] at htracked
    cases htracked

theorem notePendingSigstop_armed (tid : Tid) (reason : StopReason) :
    Triple (fun m => ThreadsArmed m ∧ (m.thread? tid).isSome = true)
      (notePendingSigstop tid reason)
      (fun _ m => ThreadsArmed m ∧ (m.thread? tid).isSome = true) (fun _ => ThreadsArmed) := by
  refine Triple.ite (fun _ => updateThread_triple fun m hm => ?_) fun _ =>
    Triple.pure fun _ hm => hm
  refine ⟨hm.1.record _ fun _ => rfl, ?_⟩
  rw [Machine.thread?_updateThread, Option.isSome_map]
  exact hm.2

theorem stopThread_armed (handlers : HitHandlers) (tid : Tid) :
    Triple ThreadsArmed (stopThread handlers tid) (fun _ => ThreadsArmed)
      (fun _ => ThreadsArmed) := by
  refine Triple.bind (threadAt_triple fun m hm _ => hm) fun thread => ?_
  refine Triple.ite (fun _ => ?_) fun _ => Triple.pure fun _ hm => hm.1
  refine Triple.bind (Q := fun _ m => ThreadsArmed m ∧ m.thread? tid = some thread)
    (Triple.ite (fun _ => Triple.pure fun _ hm => hm) fun _ =>
      Triple.modify fun m hm =>
        ⟨hm.1.same (.observe (.inl rfl) rfl) rfl rfl rfl rfl, hm.2⟩) fun _ => ?_
  refine Triple.bind (Q := fun answer m => answer.elim (ThreadsArmed m) fun event =>
    event.tid = tid ∧ ThreadsArmed m ∧ (m.thread? tid).isSome = true)
    (fun m hm => ?_) fun answer => ?_
  · rcases waitpid_cases .stopRunningThreads (some tid) m with
      h | ⟨rest, -, h⟩ | ⟨event, rest, hmay, -, h⟩
    · exact Triple.of_eq_error h hm.1
    · exact Triple.of_eq_ok h (hm.1.same (.of_eq rfl) rfl rfl rfl rfl)
    · refine Triple.of_eq_ok h ⟨Machine.mayReport_some hmay, (hm.1.deliver _ hmay rest).armed, ?_⟩
      exact Option.isSome_iff_exists.mpr ⟨thread, hm.2⟩
  cases answer with
  | none => exact Triple.throw fun _ hm => hm
  | some event =>
      refine Triple.of_forall fun m hanswer => ?_
      obtain ⟨rfl, hm⟩ := hanswer
      refine Triple.bind ((notePendingSigstop_armed _ _).pre fun s hs => ?_) fun _ =>
        recordStop_armed handlers event
      exact hs ▸ hm

theorem cleanupExitedThreads_armed (tid : Tid) :
    Respects (Carries ThreadsArmed) (cleanupExitedThreads tid) := by
  refine Respects.bind Respects.get fun m => ?_
  refine Respects.bind (Respects.forEach fun _ _ => Respects.modify fun _ hm =>
    hm.same (.observe (.inr (.inl ⟨_, rfl⟩)) rfl) rfl rfl rfl rfl) fun _ => ?_
  refine Respects.bind (Respects.modify fun m' hm' => ?_) fun _ => Respects.pure _
  refine hm'.threads (.of_eq rfl) rfl rfl fun hslots t thread hthread => ?_
  exact hslots.threadArmed (Machine.thread?_of_filter
    (fun t => !((m.process.threads.filter (isCleanedUp tid)).map (·.1)).contains t) hthread).1

theorem liftSite_armed (tid : Tid) (bp : Nat) (pc : Word) :
    Respects (Carries ThreadsArmed) (liftSite tid bp pc) :=
  Respects.bind (disableSite_armed bp) fun _ =>
    Respects.modify fun _ hm => hm.same (.observe (.inl rfl) rfl) rfl rfl rfl rfl

theorem relaySite_armed (bp : Nat) (pc : Word) :
    Respects (Carries ThreadsArmed) (relaySite bp pc) :=
  Respects.bind (enableSite_armed bp) fun _ =>
    Respects.modify fun _ hm => hm.same (.observe (.inl rfl) rfl) rfl rfl rfl rfl

theorem noteReason_armed (tid : Tid) (reason : StopReason) :
    Triple ThreadsArmed (noteReason tid reason) (fun _ => ThreadsArmed) (fun _ => ThreadsArmed) :=
  updateThread_triple fun _ hm => hm.record _ fun _ => rfl

theorem armingRules (handlers : HitHandlers) : StopRules handlers armingAssertions where
  raised := fun _ _ hm => hm
  sample := fun tid => keeps_armed (samplePc_armed tid)
  lift := fun tid bp pc => (keeps_armed (liftSite_armed tid bp pc)).pre fun _ hm => hm.1
  relay := fun bp pc => keeps_armed (relaySite_armed bp pc)
  swallow := swallowPendingSigstop_armed
  step := fun tid => (keeps_armed (ptraceRun_armed _ tid)).mono (fun _ hm => hm)
    (fun ran m hm => by cases ran <;> exact hm) fun _ _ hm => hm
  stepped := fun tid => waitpid_keeps_armed _ _
  goOn := sendContinue_armed
  wait := waitpid_armed _
  waitStepped := fun tid => waitpid_armed _ (some tid)
  signal := fun event => (handleSignal_armed handlers event).mono (fun _ hm => hm)
    (fun final m hm => by cases final <;> exact hm) fun e m hm => by
      unfold Assertions.escaped
      split <;> exact hm
  caught := fun event => noteReason_armed event.tid _
  untracked := fun _ _ _ _ hm _ => hm
  stopped := fun event reason _ => (noteReason_armed event.tid reason).pre fun _ hm => hm.1
  exited := fun event reason _ => (noteReason_armed event.tid reason).mono (fun _ hm => hm.1)
    (fun _ _ hm => ThreadsArmed.same hm (.observe (.inr (.inl ⟨_, rfl⟩)) rfl) rfl rfl rfl rfl)
    fun _ _ hm => hm
  stopThread := stopThread_armed handlers
  cleanup := fun event _ _ _ _ =>
    (keeps_armed (cleanupExitedThreads_armed event.tid)).pre fun _ hm => hm.1
  ended := fun _ _ _ hm => hm
  process := fun _ _ _ hm => hm.same (.of_eq rfl) rfl rfl rfl rfl
  answer := fun _ _ _ hm => hm.same (.of_eq rfl) rfl rfl rfl rfl
  reenabled := fun _ bp pc => keeps_armed (relaySite_armed bp pc)
  dangling := fun _ _ _ hm => hm
  settled := fun _ _ hm => hm

theorem command_armed (handlers : HitHandlers) (c : Command) :
    Triple ThreadsArmed (c.run handlers) armingAssertions.finished (fun _ => ThreadsArmed) :=
  (armingRules handlers).command (fun op => keeps_armed op.run_armed)
    (fun op => keeps_armed op.run_armed) (fun _ _ _ _ hm => hm.same (.of_eq rfl) rfl rfl rfl rfl) c

end Steps

theorem Run.armed {handlers : HitHandlers} {start m : Machine} (hrun : Run handlers start m)
    (hstart : Unarmed start) (hfresh : start.trace = []) : ThreadsArmed m := by
  refine (armingRules handlers).run hrun (command_armed handlers) (fun _ _ _ hm => hm) ?_
  intro _ _
  refine ⟨hstart.allocated.armed, ?_⟩
  rw [hfresh]
  exact trivial

/-- In every run that programs debug registers only while all tracked threads are
stopped, and in which no thread stops for the first time while a hardware
stoppoint is enabled, every thread that is let run has exactly the enabled
hardware stoppoints armed. -/
theorem armedWhenRun_of_noneMissed {handlers : HitHandlers} {start m m' : Machine} {c : Command}
    {r : Except Failure (Option StopReason)} (hstart : Unarmed start) (hfresh : start.trace = [])
    (hrun : Run handlers start m) (hcommand : c.run handlers m = (r, m'))
    (hkeeps : KeepsDebugRegisters m'.trace) (hnone : NoneMissed m'.trace) :
    ArmedWhenRun m'.trace := by
  obtain ⟨hok, herror⟩ := command_armed handlers c m (hrun.armed hstart hfresh)
  cases r with
  | ok answer =>
      have hrest : ThreadsArmed m' :=
        (armingRules handlers).rest_of_finished (hok answer m' hcommand)
      exact (hrest hkeeps hnone).2
  | error e => exact (herror e m' hcommand hkeeps hnone).2

namespace ThreadArmingWitness

open Scenario

/-- Handlers that let the thread go on. -/
def passing : HitHandlers := ⟨fun _ _ => ([], .ok true)⟩

/-- The kernel kept the debug registers. -/
def kept : List Observation → Bool
  | [] => true
  | .delivered d :: earlier =>
      decide (SameStoppoints
        (if (d.before.thread? d.tid).isSome then (d.before.kernel.threads d.tid).user
          else fun _ => 0) d.user) && kept earlier
  | _ :: earlier => kept earlier

theorem keepsDebugRegisters_of_kept {trace : List Observation} (h : kept trace = true) :
    KeepsDebugRegisters trace := by
  induction trace with
  | nil => exact trivial
  | cons observation earlier ih =>
      cases observation with
      | delivered d =>
          simp only [kept, Bool.and_eq_true, decide_eq_true_eq] at h
          refine ⟨fun _ => ?_, ih h.2⟩
          cases hthread : d.before.thread? d.tid with
          | none => simpa [hthread] using h.1
          | some thread => simpa [hthread] using h.1
      | _ => exact ih h

/-- Debug registers were programmed for stopped threads only, and no stop was
that of an unknown thread while a hardware stoppoint was enabled. -/
def noneMissed : List Observation → Bool
  | [] => true
  | .programmed moment :: earlier =>
      (moment.process.threads.all fun entry =>
        decide ((moment.kernel.threads entry.1).status = .stopped)) && noneMissed earlier
  | .delivered d :: earlier =>
      ((d.before.thread? d.tid).isSome || d.before.process.hardwareStoppoints.isEmpty) &&
        noneMissed earlier
  | _ :: earlier => noneMissed earlier

theorem noneMissed_of_check {trace : List Observation} (h : noneMissed trace = true) :
    NoneMissed trace := by
  induction trace with
  | nil => exact trivial
  | cons observation earlier ih =>
      cases observation with
      | programmed moment =>
          simp only [noneMissed, Bool.and_eq_true, List.all_eq_true, decide_eq_true_eq] at h
          refine ⟨fun t ht => ?_, ih h.2⟩
          rw [Moment.thread?, Option.isSome_map, List.find?_isSome] at ht
          obtain ⟨entry, hentry, heq⟩ := ht
          rw [← of_decide_eq_true heq]
          exact h.1 entry hentry
      | delivered d =>
          simp only [noneMissed, Bool.and_eq_true, Bool.or_eq_true] at h
          refine ⟨fun _ hnew => ?_, ih h.2⟩
          rw [hnew] at h
          simpa using h.1
      | _ => exact ih h

/-- Threads that were let run: whether a hardware stoppoint was enabled, and the
thread's control register. -/
def controls : List Observation → List (Tid × Bool × Word)
  | [] => []
  | .letRun tid _ moment :: earlier =>
      if (moment.thread? tid).isSome then
        (tid, !moment.process.hardwareStoppoints.isEmpty,
          User.drs (moment.kernel.threads tid).user 7) :: controls earlier
      else controls earlier
  | _ :: earlier => controls earlier

theorem control_of_arms {points : List HardwareStoppoint} {drs : Fin 8 → Word}
    (h : Arms points drs) (hsome : points.isEmpty = false) : drs 7 ≠ 0 := by
  intro hzero
  cases points with
  | nil => cases hsome
  | cons point rest =>
      obtain ⟨slot, -, -, hfields⟩ := h.owned point List.mem_cons_self
      have henable : (slotFields (drs 7) slot).enable = 1 := congrArg SlotFields.enable hfields
      have hclear : (slotFields 0 slot).enable = 0 := by fin_cases slot <;> decide
      rw [hzero, hclear] at henable
      cases henable

theorem controls_of_armedWhenRun {trace : List Observation} (h : ArmedWhenRun trace) :
    ∀ entry ∈ controls trace, entry.2.1 = true → entry.2.2 ≠ 0 := by
  induction trace with
  | nil => exact fun entry hentry => by cases hentry
  | cons observation earlier ih =>
      cases observation with
      | letRun tid request moment =>
          intro entry hentry henabled
          by_cases htracked : (moment.thread? tid).isSome = true
          · simp only [controls, if_pos htracked] at hentry
            rcases List.mem_cons.mp hentry with rfl | hentry
            · have hsome : moment.process.hardwareStoppoints.isEmpty = false := by
                simpa using henabled
              have hcontrol := control_of_arms (h.1 htracked) hsome
              exact hcontrol
            · exact ih h.2 entry hentry henabled
          · simp only [controls, if_neg htracked] at hentry
            exact ih h.2 entry hentry henabled
      | _ => exact ih h

/-- One thread that is stopped, and one that has not been seen yet. -/
def start (script : List WaitAnswer) : Machine :=
  (machine [1] script).setThreadStatus 2 .running

theorem start_unarmed (script : List WaitAnswer) : Unarmed (start script) := by
  have hthread : ∀ t thread, (start script).thread? t = some thread → thread = newThread :=
    fun t thread h => machine_thread? [1] script h
  have hzero : User.drs (fun _ => 0) 7 = 0 := by decide
  have huser : ∀ t, ((start script).kernel.threads t).user = fun _ => 0 := by
    intro t
    by_cases ht : t = 2
    · subst ht
      rfl
    · rw [start, Machine.setThreadStatus]
      simp only [Function.update_of_ne ht]
      rfl
  refine ⟨⟨fun t ht => ?_, fun t thread h => ?_⟩, fun point hpoint => (by cases hpoint), rfl, 0,
    by decide, fun t _ => ⟨?_, fun drs hdrs => ?_⟩⟩
  · have hone : t = 1 := by
      rw [← Machine.mem_threads_iff] at ht
      exact List.mem_singleton.mp ht
    subst hone
    rfl
  · rw [hthread t thread h]
    rfl
  · rw [Machine.debugView, huser]
    exact hzero
  · obtain ⟨thread, h, rfl⟩ := Option.map_eq_some_iff.mp hdrs
    rw [hthread t thread h]
    exact hzero

/-- A second thread appears; then a watchpoint is enabled. -/
@[irreducible]
def joined : Machine :=
  after passing (.watchpoint (.enable 0))
    (after passing (.watchpoint (.create 0x2000 .write 8))
      (after passing (.waitOnSignal none)
        (after passing (.resume none) (start
          [stop 2 sigstop .other 0, stop 1 2 .other 0x1000, stop 2 sigstop .other 0x3000]))))

theorem run_joined : Run passing (start
    [stop 2 sigstop .other 0, stop 1 2 .other 0x1000, stop 2 sigstop .other 0x3000]) joined := by
  unfold joined
  exact run_after _ (run_after _ (run_after _ (run_after _ .start (by decide +kernel))
    (by decide +kernel)) (by decide +kernel)) (by decide +kernel)

theorem armedWhenRun_of_noneMissed_joined :
    (controls (after passing .resumeAllThreads joined).trace).take 2 =
        [(2, true, 0x90001), (1, true, 0x90001)] ∧
      ArmedWhenRun (after passing .resumeAllThreads joined).trace :=
  ⟨by decide +kernel, armedWhenRun_of_noneMissed (start_unarmed _) rfl run_joined
    (command_after passing .resumeAllThreads joined)
    (keepsDebugRegisters_of_kept (by decide +kernel)) (noneMissed_of_check (by decide +kernel))⟩

/-- A watchpoint is enabled and the thread resumed; then a second thread
appears. -/
@[irreducible]
def watched : Machine :=
  after passing (.resume none)
    (after passing (.watchpoint (.enable 0))
      (after passing (.watchpoint (.create 0x2000 .write 8)) (start [stop 2 sigstop .other 0])))

theorem run_watched : Run passing (start [stop 2 sigstop .other 0]) watched := by
  unfold watched
  exact run_after _ (run_after _ (run_after _ .start (by decide +kernel)) (by decide +kernel))
    (by decide +kernel)

/-- The second thread goes on with cleared debug registers. -/
theorem new_thread_not_armed :
    ¬ ∀ (handlers : HitHandlers) (start m m' : Machine) (c : Command)
      (r : Except Failure (Option StopReason)), Unarmed start → start.trace = [] →
      Run handlers start m → c.run handlers m = (r, m') → KeepsDebugRegisters m'.trace →
      ArmedWhenRun m'.trace := by
  intro hall
  have harmed := hall passing _ watched _ (.waitOnSignal none) _ (start_unarmed _) rfl run_watched
    (command_after passing (.waitOnSignal none) watched)
    (keepsDebugRegisters_of_kept (by decide +kernel))
  exact controls_of_armedWhenRun harmed (2, true, 0) (by decide +kernel) rfl rfl

end ThreadArmingWitness

end Gsdb
