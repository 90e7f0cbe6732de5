/-
Whether the cached registers of a thread are those it has when its program
counter is looked at before it goes on.  The registers are read on one path
through `handle_signal` only; the stops that are passed over, and those that
stepping off a breakpoint collects itself, leave the cache as it was.
-/
import Gsdb.Commands

namespace Gsdb

open ByteMemory Effects Eff Debugger

/-- A register file holds the registers of a thread. -/
def Mirrors (regs : Registers) (user : User) : Prop :=
  ∀ i, isRegisterByte i → regs.data i = user i

/-- The register file a thread has, or is given when it is tracked. -/
def Moment.cached (moment : Moment) (tid : Tid) : Registers :=
  ((moment.thread? tid).getD newThread).regs

/-- Stops that `handle_signal` passes over before it reads the registers: clone
events, the first stop of a new thread and the `SIGSTOP` that is pending. -/
def passedOver (moment : Moment) (tid : Tid) (status : WaitStatus) : Bool :=
  decide (status = .stopped sigtrap eventClone) ||
    match moment.thread? tid with
    | none => status.isStop
    | some thread => thread.pendingSigstop && decide ((StopReason.ofWait tid status).info = sigstop)

/-- The last state change of a thread was collected by `wait_on_signal` or
`stop_running_threads`, and it did not run since. -/
def collected (t : Tid) : List Observation → Bool
  | [] => true
  | .delivered d :: earlier =>
      if d.tid = t then d.waiter = .waitOnSignal ∨ d.waiter = .stopRunningThreads
      else collected t earlier
  | .letRun tid _ _ :: earlier => if tid = t then false else collected t earlier
  | _ :: earlier => collected t earlier

/-- Every stop that is passed over finds the registers in the cache already, and
no thread is looked at again whose last stop was collected while it was stepped
off a breakpoint. -/
def ReadInTime : List Observation → Prop
  | [] => True
  | .sampledPc tid _ :: earlier => collected tid earlier = true ∧ ReadInTime earlier
  | .delivered d :: earlier =>
      (d.waiter = .waitOnSignal → passedOver d.before d.tid d.status = true →
        Mirrors (d.before.cached d.tid) d.user) ∧ ReadInTime earlier
  | _ :: earlier => ReadInTime earlier

/-- Whenever the program counter of a thread was looked at, its register file
held the registers of the thread. -/
def PcCurrent : List Observation → Prop
  | [] => True
  | .sampledPc tid moment :: earlier =>
      (∀ thread, moment.thread? tid = some thread →
        (moment.kernel.threads tid).status ≠ .absent →
        Mirrors thread.regs (moment.kernel.threads tid).user) ∧ PcCurrent earlier
  | _ :: earlier => PcCurrent earlier

/-- The register files of collected threads are current, but for some thread. -/
structure Mirrored (exempt : Tid → Prop) (m : Machine) : Prop where
  attached : m.process.isAttached = true
  current : PcCurrent m.trace
  mirrors : ∀ t thread, ¬ exempt t → m.thread? t = some thread → collected t m.trace = true →
    (m.kernel.threads t).status ≠ .running ∧
      ((m.kernel.threads t).status ≠ .absent → Mirrors thread.regs (m.kernel.threads t).user)

/-- The register files are current as long as the stops were read in time. -/
def Current (m : Machine) : Prop := ReadInTime m.trace → Mirrored (fun _ => False) m

/-- A state change of a thread arrived that was not dealt with yet. -/
def Unread (event : WaitEvent) (m : Machine) : Prop :=
  ReadInTime m.trace → Mirrored (· = event.tid) m ∧
    (m.kernel.threads event.tid).user = event.user ∧
    (m.kernel.threads event.tid).status = if event.status.isStop then .stopped else .absent

/-- The same in `wait_on_signal`, where it may be passed over. -/
def Arrived (event : WaitEvent) (m : Machine) : Prop :=
  Unread event m ∧ (ReadInTime m.trace → passedOver m.moment event.tid event.status = true →
    Mirrors (m.moment.cached event.tid) event.user)

def cacheAssertions : Assertions where
  rest := Current
  swallowed := fun _ => Current
  awaited := fun _ => Current
  due := Arrived
  handled := fun _ _ => Current
  failed := fun _ => Current
  returned := fun _ => Current
  thrown := fun _ => Current

/-- What the invariant looks at. -/
structure CacheView where
  attached : Bool
  data : Tid → Option Area
  kernel : Tid → ThreadStatus × User
  collected : Tid → Bool
  read : Prop
  current : Prop

def Machine.cacheView (m : Machine) : CacheView where
  attached := m.process.isAttached
  data := fun t => (m.thread? t).map (·.regs.data)
  kernel := fun t => ((m.kernel.threads t).status, (m.kernel.threads t).user)
  collected := fun t => Gsdb.collected t m.trace
  read := ReadInTime m.trace
  current := PcCurrent m.trace

section Steps

variable {m m' : Machine} {tid : Tid}

theorem Mirrored.of_view {exempt : Tid → Prop} (h : Mirrored exempt m)
    (hsame : Fixes Machine.cacheView m m') : Mirrored exempt m' where
  attached := (congrArg CacheView.attached hsame).trans h.attached
  current := (congrArg CacheView.current hsame).mpr h.current
  mirrors := fun t thread' ht hthread' hcollected => by
    have hdata : (m'.thread? t).map (·.regs.data) = (m.thread? t).map (·.regs.data) :=
      congrFun (congrArg CacheView.data hsame) t
    have hkernel : ((m'.kernel.threads t).status, (m'.kernel.threads t).user) =
        ((m.kernel.threads t).status, (m.kernel.threads t).user) :=
      congrFun (congrArg CacheView.kernel hsame) t
    have hcollected' : collected t m'.trace = collected t m.trace :=
      congrFun (congrArg CacheView.collected hsame) t
    rw [hthread'] at hdata
    obtain ⟨thread, hthread, heq⟩ := Option.map_eq_some_iff.mp hdata.symm
    obtain ⟨hrunning, hmirrors⟩ := h.mirrors t thread ht hthread (hcollected' ▸ hcollected)
    rw [(Prod.mk.inj hkernel).1, (Prod.mk.inj hkernel).2]
    refine ⟨hrunning, fun habsent i hi => ?_⟩
    rw [← hmirrors habsent i hi, heq]

theorem Current.of_view (h : Current m) (hsame : Fixes Machine.cacheView m m') : Current m' :=
  fun hread => (h ((congrArg CacheView.read hsame).mp hread)).of_view hsame

/-- A register that fills an aligned word and is committed as one. -/
def RegisterInfo.IsWord (info : RegisterInfo) : Prop :=
  info.offset % 8 = 0 ∧ info.size = 8 ∧ info.type ≠ .fpr

theorem Mirrors.commit {info : RegisterInfo} (hword : info.IsWord) {regs regs' : Registers}
    {val : Value} {user : User} (h : Mirrors regs user)
    (hregs : regs.writeData info val = .ok regs') :
    Mirrors regs' (committed info regs'.data user) := by
  intro i hi
  obtain ⟨hoffset, hsize, hkind⟩ := hword
  have haligned : info.offset / 8 * 8 = info.offset := by omega
  rw [committed, if_neg hkind, haligned, Area.write_read]
  by_cases hinside : info.offset ≤ i ∧ i < info.offset + 8
  · rw [Area.copy_inside hinside]
  · rw [Area.copy_outside hinside, ← h i hi, writeData_eq_ok hregs]
    refine Area.write_outside ?_
    rw [toLe_length, hsize]
    omega

/-- Writing a register of any thread keeps the register files current. -/
theorem writeRegister_current {id : RegisterId} {info : RegisterInfo}
    (hinfo : registerInfoById id = .ok info) (hword : info.IsWord) (tid : Tid) (val : Value) :
    Respects (Carries Current) (writeRegister tid id val true) := by
  intro m hm
  rcases writeRegister_cases hinfo tid val m with
    ⟨e, h⟩ | ⟨thread, regs, hthread, hregs, ⟨hstopped, e, h⟩ | ⟨hstopped, h⟩⟩ <;> rw [h]
  · exact hm
  · intro hread
    have hm' := hm hread
    refine ⟨hm'.attached, hm'.current, fun t thread' _ hthread' hcollected => ?_⟩
    by_cases ht : t = tid
    · subst ht
      obtain ⟨hrunning, -⟩ := hm'.mirrors t thread not_false hthread hcollected
      refine ⟨hrunning, fun habsent => ?_⟩
      cases hstatus : (m.kernel.threads t).status with
      | absent => exact absurd hstatus habsent
      | running => exact absurd hstatus hrunning
      | stopped => simp [Machine.isStopped, hstatus] at hstopped
    · dsimp only at hthread'
      rw [Machine.setRegs, Machine.thread?_updateThread_of_ne m _ ht] at hthread'
      exact hm'.mirrors t thread' not_false hthread' hcollected
  · intro hread
    have hm' := hm hread
    refine ⟨hm'.attached, hm'.current, fun t thread' _ hthread' hcollected => ?_⟩
    by_cases ht : t = tid
    · subst ht
      obtain ⟨hrunning, hmirrors⟩ := hm'.mirrors t thread not_false hthread hcollected
      change (m.setRegs t regs).thread? t = some thread' at hthread'
      rw [Machine.thread?_setRegs, hthread] at hthread'
      cases hthread'
      have huser := setUser_user (m.setRegs t regs) t
        (committed info regs.data (m.kernel.threads t).user)
      have hstatus := setUser_status (m.setRegs t regs) t t
        (committed info regs.data (m.kernel.threads t).user)
      dsimp only
      rw [huser, hstatus]
      exact ⟨hrunning, fun habsent => (hmirrors habsent).commit hword hregs⟩
    · change (m.setRegs tid regs).thread? t = some thread' at hthread'
      rw [Machine.setRegs, Machine.thread?_updateThread_of_ne m _ ht] at hthread'
      have hsame := hm'.mirrors t thread' not_false hthread' hcollected
      have hkernel : ((m.setRegs tid regs).setUser tid
          (committed info regs.data (m.kernel.threads tid).user)).kernel.threads t =
          m.kernel.threads t := Function.update_of_ne ht _ _
      dsimp only
      rwa [hkernel]

theorem debugRegisterFrame_current : DebugRegisterFrame (Carries Current) := by
  intro tid index id val hid
  obtain ⟨number, -, name, hinfo⟩ := debugRegister_info hid
  have hword : (drInfo id name number).IsWord := by
    refine ⟨?_, rfl, by simp [drInfo]⟩
    simp only [drInfo, debugregOffset]
    omega
  exact writeRegister_current hinfo hword tid val

theorem siteFrame_current : SiteFrame true (Carries Current) where
  slots := fun _ _ _ _ _ => .inl debugRegisterFrame_current
  memory := fun _ _ hm => hm.of_view rfl
  update := fun _ _ _ _ hm => hm.of_view rfl
  push := fun _ _ _ _ hm => hm.of_view rfl
  erase := fun _ _ hm => hm.of_view rfl
  note := fun _ observation hnote hm => hm.of_view
    (by cases observation <;> first | rfl | cases hnote)

theorem watchpointFrame_current : WatchpointFrame (Carries Current) where
  slots := debugRegisterFrame_current
  watchpoints := fun _ _ _ hm => hm.of_view rfl
  note := fun _ observation hnote hm => hm.of_view
    (by cases observation <;> first | rfl | cases hnote)

theorem decodeFrame_current (handlers : HitHandlers) (t : Tid) :
    DecodeFrame handlers t (Carries Current) where
  action := fun _ _ action _ => by
    cases action with
    | site op => exact siteFrame_current.run (.inl rfl)
    | breakpoints points => exact Respects.modify fun _ hm => hm.of_view rfl
  setPc := fun address => writeRegister_current rip_info ⟨rfl, rfl, by decide⟩ t (.u64 address)
  data := fun _ _ _ hm => hm.of_view rfl
  augment := fun reason _ _ m hm => by
    rcases augmentStopReason_cases reason m with ⟨e, h⟩ | ⟨info, -, -, h⟩ | ⟨-, h⟩ <;> rw [h]
    · exact hm
    · exact hm.of_view rfl
    · exact hm.of_view rfl

theorem keeps_current {α : Type} {x : Debugger α} (h : Respects (Carries Current) x) :
    Triple Current x (fun _ => Current) (fun _ => Current) :=
  Triple.of_respects h

/-- Changes of an entry that leave its registers. -/
theorem Mirrored.update {exempt : Tid → Prop} (h : Mirrored exempt m) (tid : Tid)
    {f : ThreadState → ThreadState} (hf : ∀ thread, (f thread).regs = thread.regs) :
    Mirrored exempt (updateThread tid f m).2 := by
  refine ⟨h.attached, h.current, fun t thread' hexempt hthread' hcollected => ?_⟩
  by_cases ht : t = tid
  · subst ht
    rw [Machine.thread?_updateThread] at hthread'
    obtain ⟨thread, hthread, rfl⟩ := Option.map_eq_some_iff.mp hthread'
    rw [hf]
    exact h.mirrors t thread hexempt hthread hcollected
  · rw [Machine.thread?_updateThread_of_ne m f ht] at hthread'
    exact h.mirrors t thread' hexempt hthread' hcollected

theorem Current.update (h : Current m) (tid : Tid) {f : ThreadState → ThreadState}
    (hf : ∀ thread, (f thread).regs = thread.regs) : Current (updateThread tid f m).2 :=
  fun hread => (h hread).update tid hf

/-- A thread that runs is looked at only after it has stopped again. -/
theorem Current.letRun (h : Current m) (tid : Tid) (request : RunRequest) :
    Current (m.letRun tid request) := by
  intro hread
  have hm := h hread
  refine ⟨hm.attached, hm.current, fun t thread _ hthread hcollected => ?_⟩
  change (if tid = t then false else collected t m.trace) = true at hcollected
  by_cases ht : tid = t
  · rw [if_pos ht] at hcollected
    cases hcollected
  · rw [if_neg ht] at hcollected
    have hkernel : (m.letRun tid request).kernel.threads t = m.kernel.threads t :=
      Function.update_of_ne (Ne.symm ht) _ _
    rw [hkernel]
    exact hm.mirrors t thread not_false hthread hcollected

theorem ptraceRun_current (request : RunRequest) (tid : Tid) :
    Triple Current (ptraceRun request tid) (fun _ => Current) (fun _ => Current) := by
  intro m hm
  rcases ptraceRun_cases request tid m with ⟨-, h⟩ | ⟨-, h⟩
  · exact Triple.of_eq_ok h (hm.letRun tid request)
  · exact Triple.of_eq_ok h hm

/-- A state change arrives. -/
theorem Current.deliver (h : Current m) (waiter : Waiter) (event : WaitEvent)
    (script : List WaitAnswer) : Unread event ((m.deliver waiter event).setScript script) := by
  intro hread
  have hm := h hread.2
  have hreporter : ((m.deliver waiter event).setScript script).kernel.threads event.tid =
      ⟨if event.status.isStop then .stopped else .absent, event.user, event.siCode⟩ :=
    Function.update_self _ _ _
  refine ⟨⟨hm.attached, hm.current, fun t thread ht hthread hcollected => ?_⟩, ?_, ?_⟩
  · change (if event.tid = t then _ else collected t m.trace) = true at hcollected
    rw [if_neg (Ne.symm ht)] at hcollected
    have hkernel : ((m.deliver waiter event).setScript script).kernel.threads t =
        m.kernel.threads t := Function.update_of_ne ht _ _
    rw [hkernel]
    exact hm.mirrors t thread not_false hthread hcollected
  · rw [hreporter]
  · rw [hreporter]

/-- A stop that is collected while a thread is stepped off a breakpoint. -/
theorem Current.deliver_stepping (h : Current m) {waiter : Waiter} (event : WaitEvent)
    (script : List WaitAnswer)
    (hwaiter : waiter = .swallowPendingSigstop ∨ waiter = .stepOverBreakpoint) :
    Current ((m.deliver waiter event).setScript script) := by
  intro hread
  obtain ⟨hm, -, -⟩ := h.deliver waiter event script hread
  refine ⟨hm.attached, hm.current, fun t thread _ hthread hcollected => ?_⟩
  by_cases ht : t = event.tid
  · subst ht
    change (if event.tid = event.tid then _ else _) = true at hcollected
    rw [if_pos rfl] at hcollected
    rcases hwaiter with rfl | rfl <;> simp at hcollected
  · exact hm.mirrors t thread ht hthread hcollected

theorem waitpid_stepping_current {waiter : Waiter} (toAwait : Option Tid)
    (hwaiter : waiter = .swallowPendingSigstop ∨ waiter = .stepOverBreakpoint) :
    Triple Current (waitpid waiter toAwait) (fun _ => Current) (fun _ => Current) := by
  intro m hm
  rcases waitpid_cases waiter toAwait m with h | ⟨rest, -, h⟩ | ⟨event, rest, -, -, h⟩
  · exact Triple.of_eq_error h hm
  · exact Triple.of_eq_ok h (hm.of_view rfl)
  · exact Triple.of_eq_ok h (hm.deliver_stepping event rest hwaiter)

/-- A state change arrives in `wait_on_signal`. -/
theorem waitpid_current (toAwait : Option Tid) :
    Triple Current (waitpid .waitOnSignal toAwait) cacheAssertions.answered
      (fun _ => Current) := by
  intro m hm
  rcases waitpid_cases .waitOnSignal toAwait m with h | ⟨rest, -, h⟩ | ⟨event, rest, -, -, h⟩
  · exact Triple.of_eq_error h hm
  · exact Triple.of_eq_ok h (hm.of_view rfl)
  · exact Triple.of_eq_ok h ⟨hm.deliver _ event rest, fun hread hover => hread.1 rfl hover⟩

theorem swallowPendingSigstop_current (tid : Tid) :
    Triple Current (swallowPendingSigstop tid) (fun _ => Current) (fun _ => Current) := by
  refine Triple.bind (threadAt_triple fun m hm _ => hm) fun thread => ?_
  refine Triple.ite (fun _ => ?_) fun _ => Triple.pure fun _ hm => hm.1
  refine Triple.bind (Q := fun _ => Current) ((ptraceRun_current _ tid).mono (fun _ hm => hm.1)
    (fun _ _ hm => hm) fun _ _ hm => hm) fun _ => ?_
  refine Triple.bind (waitpid_stepping_current _ (.inl rfl)) fun _ => ?_
  exact updateThread_triple fun m hm => hm.update tid fun _ => rfl

theorem sendContinue_current (tid : Tid) :
    Triple Current (sendContinue tid) (fun _ => Current) (fun _ => Current) := by
  refine Triple.get_bind fun m hm => ?_
  refine Triple.bind (Q := fun _ => Current) ((ptraceRun_current _ tid).mono (fun _ hs => hs ▸ hm)
    (fun _ _ hm => hm) fun _ _ hm => hm) fun ran => ?_
  refine Triple.ite (fun _ => Triple.throw fun _ hm => hm) fun _ => ?_
  refine Triple.bind (threadAt_triple fun m hm _ => hm) fun thread => ?_
  refine Triple.bind (Q := fun _ => Current) (updateThread_triple fun m hm =>
    hm.1.update tid fun _ => rfl) fun _ => ?_
  exact Triple.modify fun m hm => hm.of_view rfl

theorem samplePc_current (tid : Tid) :
    Triple Current (samplePc tid) (fun _ => Current) (fun _ => Current) := by
  refine Triple.bind (keeps_current (readRegister_respects _ _)) fun pc => ?_
  refine Triple.bind (Q := fun _ => Current) (Triple.modify fun m hm hread => ?_) fun _ =>
    Triple.pure fun _ hm => hm
  have hm' := hm hread.2
  refine ⟨hm'.attached, ⟨fun thread hthread habsent => ?_, hm'.current⟩,
    fun t thread ht hthread hcollected => hm'.mirrors t thread ht hthread hcollected⟩
  exact (hm'.mirrors tid thread not_false hthread hread.1).2 habsent

variable {event : WaitEvent}

/-- A state change is dealt with once the registers are in the cache. -/
theorem Unread.current (h : Unread event m)
    (hmirrors : ReadInTime m.trace → event.status.isStop = true → ∀ thread,
      m.thread? event.tid = some thread → Mirrors thread.regs event.user) : Current m := by
  intro hread
  obtain ⟨hm, huser, hstatus⟩ := h hread
  refine ⟨hm.attached, hm.current, fun t thread _ hthread hcollected => ?_⟩
  by_cases ht : t = event.tid
  · subst ht
    rw [hstatus, huser]
    cases hstop : event.status.isStop with
    | false => simp
    | true => exact ⟨by simp, fun _ => hmirrors hread hstop thread hthread⟩
  · exact hm.mirrors t thread ht hthread hcollected

/-- Reading the registers makes the cache current. -/
theorem readAllRegisters_current (hstop : event.status.isStop = true) :
    Triple (fun m => Unread event m ∧ (m.thread? event.tid).isSome = true)
      (readAllRegisters event.tid) (fun _ => Current) (fun _ => Current) := by
  rintro m ⟨hm, htracked⟩
  obtain ⟨thread, hthread⟩ := Option.isSome_iff_exists.mp htracked
  cases hstopped : m.isStopped event.tid with
  | false =>
      have hload : readAllRegisters event.tid m =
          (.error (.errno "Could not read GPR registers"), m) := by
        rw [readAllRegisters, bind_of_ok (threadAt_eq hthread), bind_of_ok (get_apply m),
          if_neg (by simp [hstopped])]
        rfl
      refine Triple.of_eq_error hload fun hread => ?_
      obtain ⟨-, -, hstatus⟩ := hm hread
      simp [Machine.isStopped, hstatus, hstop] at hstopped
  | true =>
      have hload : readAllRegisters event.tid m = (.ok ⟨⟩, (updateThread event.tid
          (fun thread => { thread with
            regs := reload thread.regs (m.kernel.threads event.tid).user }) m).2) := by
        rw [readAllRegisters, bind_of_ok (threadAt_eq hthread), bind_of_ok (get_apply m),
          if_pos hstopped]
        rfl
      refine Triple.of_eq_ok hload fun hread => ?_
      obtain ⟨hm', huser, hstatus⟩ := hm hread
      refine ⟨hm'.attached, hm'.current, fun t thread' _ hthread' hcollected => ?_⟩
      by_cases ht : t = event.tid
      · subst ht
        rw [Machine.thread?_updateThread, hthread] at hthread'
        cases hthread'
        change (m.kernel.threads event.tid).status ≠ .running ∧
          ((m.kernel.threads event.tid).status ≠ .absent → Mirrors (reload thread.regs
            (m.kernel.threads event.tid).user) (m.kernel.threads event.tid).user)
        rw [hstatus, hstop]
        exact ⟨by simp, fun _ i hi => reload_apply _ _ hi⟩
      · rw [Machine.thread?_updateThread_of_ne m _ ht] at hthread'
        exact hm'.mirrors t thread' ht hthread' hcollected

theorem decodeSignal_current (handlers : HitHandlers) (hstop : event.status.isStop = true)
    (isMainStop : Bool) :
    Triple (fun m => Unread event m ∧ (m.thread? event.tid).isSome = true)
      (decodeSignal handlers (.ofWait event.tid event.status) isMainStop)
      (fun _ => Current) (fun _ => Current) := by
  have hread := readAllRegisters_current hstop
  rw [decodeSignal, StopReason.ofWait_tid]
  exact Triple.bind hread fun _ =>
    keeps_current ((decodeFrame_current handlers event.tid).decodeLoaded
    (StopReason.ofWait_tid _ _) (StopReason.ofWait_syscallInfo _ _) isMainStop)

theorem Unread.track (h : Unread event m) {reason : StopReason} (htid : reason.tid = event.tid) :
    Unread event (m.track reason) := by
  intro hread
  obtain ⟨hm, huser, hstatus⟩ := h hread
  refine ⟨⟨hm.attached, hm.current, fun t thread ht hthread hcollected => ?_⟩, huser, hstatus⟩
  rw [m.thread?_track_of_ne (htid ▸ ht)] at hthread
  exact hm.mirrors t thread ht hthread hcollected

/-- Handling a signal in `wait_on_signal` leaves the cache current. -/
theorem handleSignal_current (handlers : HitHandlers) (event : WaitEvent) :
    Triple (Arrived event) (handleSignal handlers (.ofWait event.tid event.status) true)
      (fun _ => Current) (fun _ => Current) := by
  rintro m ⟨hm, hpassed⟩
  have hcached : ∀ thread, m.thread? event.tid = some thread →
      m.moment.cached event.tid = thread.regs := by
    intro thread hthread
    change ((m.thread? event.tid).getD newThread).regs = thread.regs
    rw [hthread]
    rfl
  have hpass : passedOver m.moment event.tid event.status = true → Current m := by
    intro hover
    refine hm.current fun hread _ thread hthread => ?_
    rw [← hcached thread hthread]
    exact hpassed hread hover
  rcases handleSignal_cases handlers (.ofWait event.tid event.status) true m with
    ⟨hclone, -, h⟩ | ⟨hexit, h⟩ | ⟨hstop, hnew, -, h⟩ |
      ⟨thread, hstop, hthread, hpending, hinfo, h⟩ |
      ⟨thread, hstop, hthread, -, h⟩ | ⟨-, -, hmain, -⟩
  · refine Triple.of_eq_ok h (hpass ?_)
    simp [passedOver, (ofWait_clone_iff _ _).mp hclone]
  · refine Triple.of_eq_ok h (hm.current fun hread hstop => ?_)
    obtain ⟨hm', -, -⟩ := hm hread
    exact absurd ⟨hm'.attached, (ofWait_stopped_iff _ _).mpr hstop⟩ hexit
  · refine Triple.of_eq_ok h ((hm.track (StopReason.ofWait_tid _ _)).current
      fun hread _ thread hthread => ?_)
    have hfound := Machine.thread?_track hnew
    rw [StopReason.ofWait_tid] at hnew hfound
    rw [hfound] at hthread
    cases hthread
    have hfirst : m.moment.thread? event.tid = none := hnew
    have hmirrors := hpassed hread (by
      simp [passedOver, hfirst, (ofWait_stopped_iff _ _).mp hstop])
    rwa [Moment.cached, hfirst] at hmirrors
  · rw [StopReason.ofWait_tid] at hthread
    have hknown : m.moment.thread? event.tid = some thread := hthread
    refine Triple.of_eq_ok h (Current.update (hpass ?_) _ fun _ => rfl)
    simp [passedOver, hknown, hpending, hinfo]
  · rw [h]
    rw [StopReason.ofWait_tid] at hthread
    exact decodeSignal_current handlers ((ofWait_stopped_iff _ _).mp hstop) true m
      ⟨hm, by rw [hthread]; rfl⟩
  · cases hmain

/-- A state change of a thread whose pending `SIGSTOP` it is not. -/
def Collected (event : WaitEvent) (m : Machine) : Prop :=
  Unread event m ∧ ∃ thread, m.thread? event.tid = some thread ∧
    (event.status.isStop = true → ¬ (thread.pendingSigstop = true ∧
      (StopReason.ofWait event.tid event.status).info = sigstop))

theorem notePendingSigstop_collected (event : WaitEvent) :
    Triple (fun m => Unread event m ∧ (m.thread? event.tid).isSome = true)
      (notePendingSigstop event.tid (.ofWait event.tid event.status)) (fun _ => Collected event)
      (fun _ => Current) := by
  refine Triple.ite (fun hstop => updateThread_triple fun m hm => ?_) fun hexit =>
    Triple.pure fun m hm => ?_
  · obtain ⟨thread, hthread⟩ := Option.isSome_iff_exists.mp hm.2
    refine ⟨fun hread => ?_, _,
      by rw [Machine.thread?_updateThread, hthread]; rfl, fun _ hboth => ?_⟩
    · obtain ⟨hm', huser, hstatus⟩ := hm.1 hread
      exact ⟨hm'.update _ fun _ => rfl, huser, hstatus⟩
    · simp [hboth.2] at hboth
  · obtain ⟨thread, hthread⟩ := Option.isSome_iff_exists.mp hm.2
    refine ⟨hm.1, thread, hthread, fun hstop => ?_⟩
    exact absurd ((ofWait_stopped_iff _ _).mpr hstop) hexit

theorem recordStop_current (handlers : HitHandlers) (event : WaitEvent) :
    Triple (Collected event)
      (recordStop handlers event.tid (.ofWait event.tid event.status))
      (fun _ => Current) (fun _ => Current) := by
  refine Triple.bind (Q := fun _ => Current) (fun m hm => ?_) fun handled =>
    updateThread_triple fun m hm => hm.update _ fun _ => rfl
  obtain ⟨hunread, known, hknown, hpending⟩ := hm
  rcases handleSignal_cases handlers (.ofWait event.tid event.status) false m with
    ⟨-, hmain, -⟩ | ⟨hexit, h⟩ | ⟨-, -, hmain, -⟩ | ⟨thread, hstop, hthread, hsent, hinfo, -⟩ |
      ⟨thread, hstop, hthread, -, h⟩ | ⟨-, hthread, -, -⟩
  · cases hmain
  · refine Triple.of_eq_ok h (hunread.current fun hread hstop => ?_)
    obtain ⟨hm', -, -⟩ := hunread hread
    exact absurd ⟨hm'.attached, (ofWait_stopped_iff _ _).mpr hstop⟩ hexit
  · cases hmain
  · rw [StopReason.ofWait_tid, hknown] at hthread
    cases hthread
    exact absurd ⟨hsent, hinfo⟩ (hpending ((ofWait_stopped_iff _ _).mp hstop))
  · rw [h]
    exact decodeSignal_current handlers ((ofWait_stopped_iff _ _).mp hstop) false m
      ⟨hunread, by rw [hknown]; rfl⟩
  · rw [StopReason.ofWait_tid, hknown] at hthread
    cases hthread

/-- Stopping a thread reads its registers. -/
theorem stopThread_current (handlers : HitHandlers) (tid : Tid) :
    Triple Current (stopThread handlers tid) (fun _ => Current) (fun _ => Current) := by
  refine Triple.bind (threadAt_triple fun m hm _ => hm) fun thread => ?_
  refine Triple.ite (fun _ => ?_) fun _ => Triple.pure fun _ hm => hm.1
  refine Triple.bind (Q := fun _ m => Current m ∧ m.thread? tid = some thread)
    (Triple.ite (fun _ => Triple.pure fun _ hm => hm) fun _ =>
      Triple.modify fun m hm => ⟨hm.1.of_view rfl, hm.2⟩) fun _ => ?_
  refine Triple.bind (Q := fun answer m => answer.elim (Current m) fun event =>
    event.tid = tid ∧ Unread event m ∧ m.thread? tid = some thread)
    (fun m hm => ?_) fun answer => ?_
  · rcases waitpid_cases .stopRunningThreads (some tid) m with
      h | ⟨rest, -, h⟩ | ⟨event, rest, hmay, -, h⟩
    · exact Triple.of_eq_error h hm.1
    · exact Triple.of_eq_ok h (hm.1.of_view rfl)
    · exact Triple.of_eq_ok h ⟨Machine.mayReport_some hmay, hm.1.deliver _ event rest, hm.2⟩
  cases answer with
  | none => exact Triple.throw fun _ hm => hm
  | some event =>
      refine Triple.of_forall fun m hanswer => ?_
      obtain ⟨rfl, hm, hthread⟩ := hanswer
      refine Triple.bind (Q := fun _ => Collected event) ((notePendingSigstop_collected event).mono
        (fun s hs => ?_) (fun _ _ hm => hm) fun _ _ hm => hm) fun _ =>
          recordStop_current handlers event
      subst hs
      exact ⟨hm, by rw [hthread]; rfl⟩

theorem Current.filter (h : Current m) (keep : Tid → Bool) :
    Current (m.setProcess fun p => { p with
      threads := p.threads.filter fun entry => keep entry.1 }) := by
  intro hread
  have hm := h hread
  refine ⟨hm.attached, hm.current, fun t thread _ hthread hcollected => ?_⟩
  exact hm.mirrors t thread not_false (Machine.thread?_of_filter keep hthread).1 hcollected

theorem cleanupExitedThreads_current (tid : Tid) :
    Respects (Carries Current) (cleanupExitedThreads tid) := by
  refine Respects.bind Respects.get fun m => ?_
  refine Respects.bind (Respects.forEach fun _ _ => Respects.modify fun _ hm => hm.of_view rfl)
    fun _ => ?_
  refine Respects.bind (Respects.modify fun m' hm' => ?_) fun _ => Respects.pure _
  exact hm'.filter fun t => !((m.process.threads.filter (isCleanedUp tid)).map (·.1)).contains t

theorem liftSite_current (tid : Tid) (bp : Nat) (pc : Word) :
    Respects (Carries Current) (liftSite tid bp pc) :=
  Respects.bind (siteFrame_current.disableSite bp) fun _ =>
    Respects.modify fun _ hm => hm.of_view rfl

theorem relaySite_current (bp : Nat) (pc : Word) : Respects (Carries Current) (relaySite bp pc) :=
  Respects.bind (siteFrame_current.enableSite bp) fun _ =>
    Respects.modify fun _ hm => hm.of_view rfl

theorem noteReason_current (tid : Tid) (reason : StopReason) :
    Triple Current (noteReason tid reason) (fun _ => Current) (fun _ => Current) :=
  updateThread_triple fun _ hm => hm.update _ fun _ => rfl

theorem cacheRules (handlers : HitHandlers) : StopRules handlers cacheAssertions where
  raised := fun _ _ hm => hm
  sample := samplePc_current
  lift := fun tid bp pc => (keeps_current (liftSite_current tid bp pc)).mono (fun _ hm => hm.1)
    (fun _ _ hm => hm) fun _ _ hm => hm
  relay := fun bp pc => keeps_current (relaySite_current bp pc)
  swallow := swallowPendingSigstop_current
  step := fun tid => (ptraceRun_current _ tid).mono (fun _ hm => hm)
    (fun ran m hm => by cases ran <;> exact hm) fun _ _ hm => hm
  stepped := fun tid => waitpid_stepping_current _ (.inr rfl)
  goOn := sendContinue_current
  wait := waitpid_current
  waitStepped := fun tid => waitpid_current (some tid)
  signal := fun event => (handleSignal_current handlers event).mono (fun _ hm => hm)
    (fun final m hm => by cases final <;> exact hm) fun e m hm => by
      unfold Assertions.escaped
      split <;> exact hm
  caught := fun event => noteReason_current event.tid _
  untracked := fun _ _ _ _ hm _ => hm
  stopped := fun event reason _ => (noteReason_current event.tid reason).mono (fun _ hm => hm.1)
    (fun _ _ hm => hm) fun _ _ hm => hm
  exited := fun event reason _ => (noteReason_current event.tid reason).mono (fun _ hm => hm.1)
    (fun _ _ hm => Current.of_view hm rfl) fun _ _ hm => hm
  stopThread := stopThread_current handlers
  cleanup := fun event _ _ _ _ =>
    (keeps_current (cleanupExitedThreads_current event.tid)).pre fun _ hm => hm.1
  ended := fun _ _ _ hm => hm
  process := fun _ _ _ hm => hm.of_view rfl
  answer := fun _ _ _ hm => hm.of_view rfl
  reenabled := fun _ bp pc => keeps_current (relaySite_current bp pc)
  dangling := fun _ _ _ hm => hm
  settled := fun _ _ hm => hm

theorem command_current (handlers : HitHandlers) (c : Command) :
    Triple Current (c.run handlers) cacheAssertions.finished (fun _ => Current) :=
  (cacheRules handlers).command (fun _ => keeps_current (siteFrame_current.run (.inl rfl)))
    (fun op => keeps_current (watchpointFrame_current.run op)) (fun _ _ _ _ hm => hm.of_view rfl) c

end Steps

/-- An attached process whose threads are stopped, with their registers in the
cache, and about which nothing was observed yet. -/
structure Synchronized (m : Machine) : Prop where
  attached : m.process.isAttached = true
  fresh : m.trace = []
  mirrors : ∀ t thread, m.thread? t = some thread → (m.kernel.threads t).status ≠ .running ∧
    ((m.kernel.threads t).status ≠ .absent → Mirrors thread.regs (m.kernel.threads t).user)

theorem Synchronized.current {m : Machine} (h : Synchronized m) : Current m := by
  intro _
  refine ⟨h.attached, ?_, fun t thread _ hthread _ => h.mirrors t thread hthread⟩
  rw [h.fresh]
  exact trivial

theorem Run.current {handlers : HitHandlers} {start m : Machine} (hrun : Run handlers start m)
    (hstart : Synchronized start) : Current m :=
  (cacheRules handlers).run hrun (command_current handlers) (fun _ _ _ hm => hm)
    hstart.current

/-- In every run in which the stops that are passed over find their registers in
the cache, and no thread goes on again whose last stop was collected while it was
stepped off a breakpoint, every program counter that is looked at is current. -/
theorem pcCurrent_of_readInTime {handlers : HitHandlers} {start m m' : Machine} {c : Command}
    {r : Except Failure (Option StopReason)} (hstart : Synchronized start)
    (hrun : Run handlers start m) (hcommand : c.run handlers m = (r, m'))
    (hread : ReadInTime m'.trace) : PcCurrent m'.trace := by
  obtain ⟨hok, herror⟩ := command_current handlers c m (hrun.current hstart)
  cases r with
  | ok answer =>
      have hrest : Current m' := (cacheRules handlers).rest_of_finished (hok answer m' hcommand)
      exact (hrest hread).current
  | error e => exact (herror e m' hcommand hread).current

namespace CachedRegistersWitness

open Scenario

/-- Handlers that let the thread go on. -/
def passing : HitHandlers := ⟨fun _ _ => ([], .ok true)⟩

theorem machine_synchronized (script : List WaitAnswer) : Synchronized (machine [1] script) := by
  refine ⟨rfl, rfl, fun t thread hthread => ?_⟩
  have hnew := machine_thread? [1] script hthread
  subst hnew
  exact ⟨fun hrunning => (by cases hrunning), fun _ _ _ => rfl⟩

/-- No stop was passed over, and every program counter looked at was that of a
thread whose stop was collected by a wait. -/
def allRead : List Observation → Bool
  | [] => true
  | .sampledPc tid _ :: earlier => collected tid earlier && allRead earlier
  | .delivered d :: earlier => !passedOver d.before d.tid d.status && allRead earlier
  | _ :: earlier => allRead earlier

theorem readInTime_of_allRead {trace : List Observation} (h : allRead trace = true) :
    ReadInTime trace := by
  induction trace with
  | nil => exact trivial
  | cons observation earlier ih =>
      cases observation with
      | sampledPc tid moment =>
          simp only [allRead, Bool.and_eq_true] at h
          exact ⟨h.1, ih h.2⟩
      | delivered d =>
          simp only [allRead, Bool.and_eq_true, Bool.not_eq_true'] at h
          refine ⟨fun _ hpassed => ?_, ih h.2⟩
          rw [h.1] at hpassed
          cases hpassed
      | _ => exact ih h

/-- The program counters that were looked at, in the cache and in the kernel. -/
def sampled : List Observation → List (Word × Word)
  | [] => []
  | .sampledPc tid moment :: earlier =>
      match moment.thread? tid with
      | none => sampled earlier
      | some thread =>
          if (moment.kernel.threads tid).status = .absent then sampled earlier
          else (User.pc thread.regs.data, User.pc (moment.kernel.threads tid).user) ::
            sampled earlier
  | _ :: earlier => sampled earlier

/-- A thread is resumed, interrupted and resumed again. -/
def interrupted : Machine :=
  after passing (.waitOnSignal none)
    (after passing (.resume none) (machine [1] [stop 1 2 .other 0x1000]))

theorem run_interrupted : Run passing (machine [1] [stop 1 2 .other 0x1000]) interrupted :=
  run_after (.waitOnSignal none) (run_after (.resume none) .start (by decide +kernel))
    (by decide +kernel)

theorem pcCurrent_of_readInTime_resumed :
    sampled (after passing (.resume none) interrupted).trace = [(0x1000, 0x1000), (0, 0)] ∧
      PcCurrent (after passing (.resume none) interrupted).trace :=
  ⟨by decide +kernel, pcCurrent_of_readInTime (c := .resume none) (machine_synchronized _)
    run_interrupted rfl (readInTime_of_allRead (by decide +kernel))⟩

theorem pc_of_mirrors {regs : Registers} {user : User} (h : Mirrors regs user) :
    User.pc regs.data = User.pc user :=
  User.pc_congr fun i hi => h i hi.isRegisterByte

theorem sampled_of_pcCurrent {trace : List Observation} (h : PcCurrent trace) :
    ∀ pair ∈ sampled trace, pair.1 = pair.2 := by
  induction trace with
  | nil => exact fun pair hpair => by cases hpair
  | cons observation earlier ih =>
      cases observation with
      | sampledPc tid moment =>
          intro pair hpair
          cases hthread : moment.thread? tid with
          | none =>
              simp only [sampled, hthread] at hpair
              exact ih h.2 pair hpair
          | some thread =>
              by_cases habsent : (moment.kernel.threads tid).status = .absent
              · simp only [sampled, hthread, if_pos habsent] at hpair
                exact ih h.2 pair hpair
              · simp only [sampled, hthread, if_neg habsent] at hpair
                rcases List.mem_cons.mp hpair with rfl | hpair
                · exact pc_of_mirrors (h.1 thread hthread habsent)
                · exact ih h.2 pair hpair
      | _ => exact ih h

/-- A thread is resumed and starts another thread; it is then interrupted. -/
def cloning : Machine :=
  after passing (.resume none) (machine [1]
    [.report ⟨1, .stopped sigtrap eventClone, .other, userAt 0x2000, fun _ => 0⟩,
      stop 1 2 .other 0x3000])

/-- After the clone event the thread is resumed on the program counter it had
before. -/
theorem pc_not_current :
    ¬ ∀ (handlers : HitHandlers) (start m m' : Machine) (c : Command)
      (r : Except Failure (Option StopReason)), Synchronized start → Run handlers start m →
      c.run handlers m = (r, m') → PcCurrent m'.trace := by
  intro hall
  have hcurrent := hall passing _ cloning _ (.waitOnSignal none) _ (machine_synchronized _)
    (run_after (.resume none) .start (by decide +kernel)) rfl
  have hstale := sampled_of_pcCurrent hcurrent (0, 0x2000) (by decide +kernel)
  exact absurd hstale (by decide)

end CachedRegistersWitness

end Gsdb
