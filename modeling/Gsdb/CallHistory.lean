/-
The history of calls on a thread: which registers were set for a call and not
put back since, what a call leaves of its own thread when it returns, and what
it leaves of a thread that is stopped meanwhile.
-/
import Gsdb.Evaluation

namespace Gsdb

open ByteMemory Effects Eff Debugger

/-- The thread has ended; it will report nothing more. -/
def Gone (t : Tid) (m : Machine) : Prop := (m.kernel.threads t).status = .absent

/-- Registers of a thread were set for a call and not put back since. -/
def unrestored (t : Tid) : List Observation → Bool
  | [] => false
  | .committed tid :: rest => decide (tid = t) || unrestored t rest
  | .restored tid :: rest => decide (tid ≠ t) && unrestored t rest
  | _ :: rest => unrestored t rest

theorem unrestored_append_left {t : Tid} {recent older : List Observation}
    (h : unrestored t recent = true) : unrestored t (recent ++ older) = true := by
  induction recent with
  | nil => cases h
  | cons observation rest ih =>
      cases observation <;> simp_all [unrestored]
      rcases h with rfl | h
      · exact .inl rfl
      · exact .inr (ih h)

theorem unrestored_append_right {t : Tid} {recent older : List Observation}
    (hrecent : .restored t ∉ recent) (h : unrestored t older = true) :
    unrestored t (recent ++ older) = true := by
  induction recent with
  | nil => exact h
  | cons observation rest ih =>
      rw [List.mem_cons, not_or] at hrecent
      obtain ⟨hfirst, hrest⟩ := hrecent
      have hih := ih hrest
      cases observation <;> simp_all [unrestored]
      exact fun heq => hfirst heq.symm

/-- The sizes of the objects that were spilled to the stack of a thread. -/
def spilledSizes (t : Tid) (trace : List Observation) : List Word :=
  trace.filterMap fun
    | .spilled tid size => if tid = t then some size else none
    | _ => none

/-- The history goes on, nothing is spilled, and a thread that is gone stays so. -/
structure Grows (t : Tid) (m m' : Machine) : Prop where
  trace : ∃ recent, m'.trace = recent ++ m.trace ∧ spilledSizes t recent = []
  gone : Gone t m → Gone t m'

/-- The history goes on without a restore of the thread. -/
structure Onward (t : Tid) (m m' : Machine) : Prop where
  grows : Grows t m m'
  trace : ∃ recent, m'.trace = recent ++ m.trace ∧ .restored t ∉ recent

/-- Since a point of the history registers were set and not put back. -/
def Marked (t : Tid) (m m' : Machine) : Prop :=
  ∃ recent, m'.trace = recent ++ m.trace ∧ unrestored t recent = true

section History

variable {t : Tid} {m m' m'' : Machine}

theorem Grows.of_eq (htrace : m'.trace = m.trace)
    (hstatus : (m'.kernel.threads t).status = (m.kernel.threads t).status) : Grows t m m' where
  trace := ⟨[], htrace, rfl⟩
  gone := fun h => hstatus.trans h

instance : Std.Refl (Grows t) := ⟨fun _ => .of_eq rfl rfl⟩

instance : IsTrans Machine (Grows t) := ⟨fun _ _ _ h h' => by
  obtain ⟨recent, htrace, hnone⟩ := h.trace
  obtain ⟨recent', htrace', hnone'⟩ := h'.trace
  refine ⟨⟨recent' ++ recent, by rw [htrace', htrace, List.append_assoc], ?_⟩,
    fun hgone => h'.gone (h.gone hgone)⟩
  rw [spilledSizes, List.filterMap_append]
  exact List.append_eq_nil_iff.mpr ⟨hnone', hnone⟩⟩

theorem Onward.of_eq (htrace : m'.trace = m.trace)
    (hstatus : (m'.kernel.threads t).status = (m.kernel.threads t).status) : Onward t m m' where
  grows := .of_eq htrace hstatus
  trace := ⟨[], htrace, List.not_mem_nil⟩

instance : Std.Refl (Onward t) := ⟨fun _ => .of_eq rfl rfl⟩

instance : IsTrans Machine (Onward t) := ⟨fun _ _ _ h h' => by
  obtain ⟨recent, htrace, hnot⟩ := h.trace
  obtain ⟨recent', htrace', hnot'⟩ := h'.trace
  refine ⟨trans_of _ h.grows h'.grows,
    recent' ++ recent, by rw [htrace', htrace, List.append_assoc], ?_⟩
  exact fun hmem => (List.mem_append.mp hmem).elim hnot' hnot⟩

theorem Onward.gone (h : Onward t m m') (hgone : Gone t m) : Gone t m' := h.grows.gone hgone

theorem Marked.of_grows (h : Grows t m m') (h' : Marked t m' m'') : Marked t m m'' := by
  obtain ⟨recent, htrace, -⟩ := h.trace
  obtain ⟨recent', htrace', hmark⟩ := h'
  exact ⟨recent' ++ recent, by rw [htrace', htrace, List.append_assoc],
    unrestored_append_left hmark⟩

theorem Marked.onward (h : Marked t m m') (h' : Onward t m' m'') : Marked t m m'' := by
  obtain ⟨recent, htrace, hmark⟩ := h
  obtain ⟨recent', htrace', hnot⟩ := h'.trace
  exact ⟨recent' ++ recent, by rw [htrace', htrace, List.append_assoc],
    unrestored_append_right hnot hmark⟩

/-- One more observation, which neither restores nor spills. -/
theorem Onward.observe {observation : Observation} (htrace : m'.trace = observation :: m.trace)
    (hgone : Gone t m → Gone t m') (hrestored : observation ≠ .restored t)
    (hspilled : spilledSizes t [observation] = []) : Onward t m m' where
  grows := ⟨⟨[observation], htrace, hspilled⟩, hgone⟩
  trace := ⟨[observation], htrace, fun hmem => hrestored (List.mem_singleton.mp hmem).symm⟩

theorem Onward.setUser (tid : Tid) (m : Machine) (user : User) :
    Onward t m (m.setUser tid user) :=
  .of_eq rfl (setUser_status m tid t user)

theorem siteFrame_onward : SiteFrame true (Onward t) where
  slots := fun _ _ _ _ _ => .inl fun _ _ id val _ =>
    writeRegister_respects (fun _ _ => .of_eq rfl rfl) (Onward.setUser _) id val true
  memory := fun _ _ => .of_eq rfl rfl
  update := fun _ _ _ _ => .of_eq rfl rfl
  push := fun _ _ _ _ => .of_eq rfl rfl
  erase := fun _ _ => .of_eq rfl rfl
  note := fun _ observation hnote =>
    .observe rfl id (by rintro rfl; cases hnote)
      (by cases observation <;> first | rfl | cases hnote)

theorem stopFrame_onward (handlers : HitHandlers) :
    StopFrame handlers (fun _ => True) (Onward t) where
  enableSite := siteFrame_onward.enableSite
  disableSite := siteFrame_onward.disableSite
  action := fun _ _ action _ => by
    cases action with
    | site op => exact siteFrame_onward.run (.inl rfl)
    | breakpoints points => exact Respects.modify fun _ => .of_eq rfl rfl
  updateThread := fun _ _ _ _ => .of_eq rfl rfl
  user := fun m tid user _ => .setUser tid m user
  script := fun _ _ => .of_eq rfl rfl
  deliver := fun m waiter toAwait event script _ hmay => by
    refine .observe rfl (fun hgone => ?_) (by simp) rfl
    have htid : t ≠ event.tid := by
      rintro rfl
      have habsent : (m.kernel.threads event.tid).status = .absent := hgone
      simp [Machine.mayReport, habsent] at hmay
    change ((Function.update m.kernel.threads event.tid _) t).status = .absent
    rw [Function.update_of_ne htid]
    exact hgone
  running := fun m tid request _ hstopped => by
    refine .observe rfl (fun hgone => ?_) (by simp) rfl
    have htid : t ≠ tid := by
      rintro rfl
      have habsent : (m.kernel.threads t).status = .absent := hgone
      simp [Machine.isStopped, habsent] at hstopped
    change ((Function.update m.kernel.threads tid _) t).status = .absent
    rw [Function.update_of_ne htid]
    exact hgone
  track := fun _ _ _ _ => .of_eq rfl rfl
  cleanup := fun _ _ => .of_eq rfl rfl
  process := fun _ _ _ _ _ => .of_eq rfl rfl
  lifecycle := fun m reason => .observe rfl id (by simp) rfl
  note := fun _ observation hnote =>
    .observe rfl id (by rintro rfl; cases hnote)
      (by cases observation <;> first | rfl | cases hnote)
  augment := fun reason _ _ m => by
    rcases augmentStopReason_cases reason m with ⟨e, h⟩ | ⟨info, -, -, h⟩ | ⟨-, h⟩ <;> rw [h]
    · exact refl_of _ m
    · exact .observe rfl id (by simp) rfl
    · exact .observe rfl id (by simp) rfl

end History

/-- A stopped thread while another one is worked on. -/
structure Idle (hardware : Bool) (t : Tid) (m : Machine) : Prop where
  stopped : (m.kernel.threads t).status = .stopped
  tame : Tame hardware m
  settled : Settled t m

/-- A stopped thread is left alone, unless it ends. -/
structure KeepsIdle (hardware : Bool) (t : Tid) (m m' : Machine) : Prop where
  gone : Gone t m → Gone t m'
  idle : Idle hardware t m → Gone t m' ∨ (Idle hardware t m' ∧ SameThread hardware t m m')

section IdleThread

variable {hardware : Bool} {t : Tid}

instance : Std.Refl (KeepsIdle hardware t) := ⟨fun m => ⟨id, fun h => .inr ⟨h, .refl m⟩⟩⟩

instance : IsTrans Machine (KeepsIdle hardware t) := ⟨fun _ _ _ h h' => by
  refine ⟨fun hgone => h'.gone (h.gone hgone), fun hidle => ?_⟩
  rcases h.idle hidle with hgone | ⟨hidle', hsame⟩
  · exact .inl (h'.gone hgone)
  rcases h'.idle hidle' with hgone | ⟨hidle'', hsame'⟩
  · exact .inl hgone
  · exact .inr ⟨hidle'', hsame.trans hsame'⟩⟩

theorem KeepsIdle.of_leaves {m m' : Machine} (honward : Onward t m m')
    (hleaves : LeavesThread hardware t m m') : KeepsIdle hardware t m m' := by
  refine ⟨honward.gone, fun hidle => ?_⟩
  obtain ⟨htame, hsame⟩ := hleaves hidle.tame
  exact .inr ⟨⟨hsame.status.trans hidle.stopped, htame, hsame.settled hidle.settled⟩, hsame⟩

variable {handlers : HitHandlers} (hhandlers : handlers.Tame hardware)

include hhandlers in
theorem stopFrame_keepsIdle :
    StopFrame handlers (fun tid => True ∧ tid ≠ t) (KeepsIdle hardware t) :=
  (stopFrame_onward handlers).combine (stopFrame_leaves hhandlers) fun _ _ => .of_leaves

include hhandlers in
/-- A thread that does not run is not stopped again. -/
theorem stopThread_keepsIdle (tid : Tid) :
    Respects (KeepsIdle hardware t) (stopThread handlers tid) := by
  by_cases htid : tid = t
  · subst htid
    intro m
    refine ⟨((stopFrame_onward handlers).stopThread trivial m).gone, fun hidle => .inr ?_⟩
    have hsame : (stopThread handlers tid m).2 = m := by
      rcases hrun : stopThread handlers tid m with ⟨e | u, m'⟩
      · rcases bind_eq_error.mp hrun with hat | ⟨thread, m₁, hat, hrest⟩
        · exact (congrArg Prod.snd hat).symm
        · obtain ⟨hthread, rfl⟩ := threadAt_eq_ok hat
          rw [if_neg (hidle.settled thread hthread)] at hrest
          cases hrest
      · exact stopThread_settled hidle.settled hrun
    rw [hsame]
    exact ⟨hidle, .refl m⟩
  · exact (stopFrame_keepsIdle hhandlers).stopThread ⟨trivial, htid⟩

include hhandlers in
theorem stopRunningThreads_keepsIdle :
    Respects (KeepsIdle hardware t) (stopRunningThreads handlers) :=
  Respects.bind Respects.get fun _ =>
    Respects.forEach fun tid _ => stopThread_keepsIdle hhandlers tid

/-- A stopped thread can only report its end. -/
theorem gone_of_deliver {m : Machine} {waiter : Waiter} {toAwait : Option Tid}
    {event : WaitEvent} (script : List WaitAnswer)
    (hstopped : (m.kernel.threads event.tid).status = .stopped)
    (hmay : m.mayReport toAwait event = true) :
    Gone event.tid ((m.deliver waiter event).setScript script) := by
  have hstop : event.status.isStop = false := by
    simp only [Machine.mayReport, hstopped, Bool.and_eq_true] at hmay
    simpa using hmay.2
  simp [Gone, Machine.setScript, Machine.deliver, hstop]

include hhandlers in
/-- Waiting for other threads leaves a stopped thread alone, unless it ends. -/
theorem waitOnSignalLoop_keepsIdle (rounds : Nat) (toAwait : Option Tid) :
    Respects (KeepsIdle hardware t) (waitOnSignalLoop handlers rounds toAwait) := by
  induction rounds generalizing toAwait with
  | zero => exact Respects.throw _
  | succ rounds ih =>
      have honward := stopFrame_onward (t := t) handlers
      have hframe := stopFrame_keepsIdle (t := t) hhandlers
      have hstop := stopRunningThreads_keepsIdle (t := t) hhandlers
      intro m
      rcases waitpid_cases .waitOnSignal toAwait m with h | ⟨rest, -, h⟩ | ⟨event, rest, hmay, -, h⟩
      · rw [waitOnSignalLoop, bind_of_error h]
        exact refl_of _ m
      · rw [waitOnSignalLoop, bind_of_ok h]
        exact hframe.script m rest
      · rw [waitOnSignalLoop, bind_of_ok h]
        have hhandle : Respects (Onward t)
            (handleReport handlers (waitOnSignalLoop handlers rounds) toAwait event) :=
          honward.handleReport (honward.stopRunningThreads fun _ => trivial)
            (fun toAwait => honward.waitOnSignalLoop (fun _ => trivial) rounds toAwait) toAwait
            trivial
        by_cases htid : event.tid = t
        · subst htid
          refine ⟨fun hgone => ?_, fun hidle => .inl ?_⟩
          · exact (hhandle _).gone
              ((honward.deliver m _ toAwait event rest trivial hmay).gone hgone)
          · exact (hhandle _).gone (gone_of_deliver rest hidle.stopped hmay)
        · exact trans_of _ (hframe.deliver m _ toAwait event rest ⟨trivial, htid⟩ hmay)
            (hframe.handleReport hstop ih toAwait ⟨trivial, htid⟩ _)

/-- A change that reaches neither the process nor the threads. -/
theorem KeepsIdle.of_eq {m m' : Machine} (hprocess : m'.process = m.process)
    (hthreads : m'.kernel.threads = m.kernel.threads)
    (htrace : deliveriesOf t m'.trace = deliveriesOf t m.trace) : KeepsIdle hardware t m m' := by
  have hstatus : (m'.kernel.threads t).status = (m.kernel.threads t).status := by rw [hthreads]
  refine ⟨fun hgone => hstatus.trans hgone, fun hidle => .inr ?_⟩
  obtain ⟨htame, hsame⟩ := LeavesThread.of_eq (t := t) (by rw [hprocess])
    (by rw [hprocess]) (by rw [hthreads])
    (fun thread hthread => by simpa only [Machine.thread?, hprocess] using hthread) htrace
      hidle.tame
  exact ⟨⟨hstatus.trans hidle.stopped, htame, hsame.settled hidle.settled⟩, hsame⟩

include hhandlers in
/-- A call on another thread leaves a stopped thread alone, unless it ends. -/
theorem inferiorCall_keepsIdle (funcAddr returnAddr : Word) (regsToRestore : Registers)
    {otid : Option Tid} {m : Machine} (hm : otid.getD m.process.currentThread ≠ t) :
    KeepsIdle hardware t m
      (inferiorCall handlers funcAddr returnAddr regsToRestore otid m).2 := by
  rw [inferiorCall, bind_of_ok (get_apply m)]
  have hwait : Respects (KeepsIdle hardware t)
      (waitOnSignal handlers (some (otid.getD m.process.currentThread))) :=
    Respects.bind Respects.get fun _ => waitOnSignalLoop_keepsIdle hhandlers _ _
  have hcall := callThread_respects (stopFrame_keepsIdle hhandlers) ⟨trivial, hm⟩
    (fun _ _ => .of_eq rfl rfl rfl) (fun _ => .of_eq rfl rfl rfl) hwait funcAddr returnAddr
    regsToRestore
  refine Respects.bind hcall (fun _ => ?_) m
  exact Respects.bind (Respects.modify fun _ => .of_eq rfl rfl rfl) fun _ => Respects.pure _

end IdleThread

section Window

variable {t : Tid} {handlers : HitHandlers}

theorem waitOnSignalLoop_onward (rounds : Nat) (toAwait : Option Tid) :
    Respects (Onward t) (waitOnSignalLoop handlers rounds toAwait) :=
  (stopFrame_onward handlers).waitOnSignalLoop (fun _ => trivial) rounds toAwait

/-- A wait for a thread ends with that thread current, unless it ends. -/
theorem waitOnSignalLoop_current {rounds : Nat} {m m' : Machine} {reason : StopReason}
    (h : waitOnSignalLoop handlers rounds (some t) m = (.ok reason, m')) :
    Gone t m' ∨ m'.process.currentThread = t := by
  induction rounds generalizing m with
  | zero => cases h
  | succ rounds ih =>
      obtain ⟨event, m₁, hwait, hreport⟩ := Eff.bind_eq_ok.mp h
      cases event with
      | none => cases hreport
      | some event =>
          have htid := waitpid_some_tid hwait
          have honward := stopFrame_onward (t := t) handlers
          by_cases hstop : event.status.isStop = true
          · obtain ⟨final, m₂, hsignal, hrest⟩ := Eff.bind_eq_ok.mp hreport
            cases final with
            | none =>
                obtain ⟨_, m₃, -, hloop⟩ := Eff.bind_eq_ok.mp hrest
                exact ih hloop
            | some final =>
                obtain ⟨_, m₃, -, hrest₃⟩ := Eff.bind_eq_ok.mp hrest
                obtain ⟨_, m₄, -, hrest₄⟩ := Eff.bind_eq_ok.mp hrest₃
                have hreason : final.reason = .stopped := by
                  rw [handleSignal_keeps (onThrow_eq_ok hsignal)]
                  cases hstatus : event.status <;> rw [hstatus] at hstop <;> first
                    | rfl
                    | cases hstop
                rw [bind_of_ok (get_apply _), if_neg (by rw [hreason]; decide)] at hrest₄
                obtain ⟨_, m₅, -, hrest₅⟩ := Eff.bind_eq_ok.mp hrest₄
                obtain ⟨exited, m₆, -, hrest₆⟩ := Eff.bind_eq_ok.mp hrest₅
                obtain rfl := (congrArg Prod.snd hrest₆).symm
                exact .inr htid
          · left
            have hgone : Gone t m₁ := by
              obtain ⟨-, rest, -, rfl⟩ := waitpid_eq_some hwait
              rw [← htid]
              simp [Gone, Machine.setScript, Machine.deliver, hstop]
            exact ((honward.handleReport (honward.stopRunningThreads fun _ => trivial)
              (waitOnSignalLoop_onward rounds) (some t) trivial).apply_eq hreport).gone hgone

/-- A byte of the thread's user area is the one of a register file. -/
def Copied (t : Tid) (data : User) (i : Nat) (m : Machine) : Prop :=
  (m.kernel.threads t).user i = data i

/-- Copy a block of a register file into the user area of a thread. -/
def copyBlock (tid : Tid) (data : User) (offset size : Nat) (what : String) :
    Debugger PUnit := do
  let m ← get
  if m.isStopped tid then
    modify (Machine.setUser tid ((m.kernel.threads tid).user.copy data offset size))
  else failErrno what

theorem copyBlock_carries (data : User) (offset size : Nat) (what : String) (i : Nat) :
    Respects (Carries (Copied t data i)) (copyBlock t data offset size what) := by
  intro m hcopied
  rw [copyBlock, bind_of_ok (get_apply m)]
  split
  · change ((m.setUser t _).kernel.threads t).user i = data i
    rw [setUser_user]
    by_cases hi : offset ≤ i ∧ i < offset + size
    · exact Area.copy_inside hi
    · rw [Area.copy_outside hi]
      exact hcopied
  · exact hcopied

theorem copyBlock_eq_ok {data : User} {offset size : Nat} {what : String} {m m' : Machine}
    {u : PUnit} (h : copyBlock t data offset size what m = (.ok u, m')) :
    m.isStopped t = true ∧ ∀ i, offset ≤ i ∧ i < offset + size → Copied t data i m' := by
  rw [copyBlock, bind_of_ok (get_apply m)] at h
  split at h
  · rename_i hstopped
    obtain rfl := (congrArg Prod.snd h).symm
    refine ⟨hstopped, fun i hi => ?_⟩
    change ((m.setUser t _).kernel.threads t).user i = data i
    rw [setUser_user]
    exact Area.copy_inside hi
  · cases h

theorem writeUserArea_read (data : User) (offset : Nat) (tid : Tid) :
    writeUserArea offset (data.read offset 8) tid =
      copyBlock tid data offset 8 "Could not write to user area" := by
  funext m
  simp only [writeUserArea, copyBlock, Area.write_read]

/-- The flush of a register file, block by block. -/
theorem flush_eq {m : Machine} {thread : ThreadState} (h : m.thread? t = some thread) :
    flush t m = (do
      copyBlock t thread.regs.data i387Offset i387Size "Could not write floating point registers"
      copyBlock t thread.regs.data regsOffset regsSize "Could not write general purpose registers"
      forEach (fun i => copyBlock t thread.regs.data (debugregOffset + 8 * i) 8
        "Could not write to user area") [0, 1, 2, 3, 6, 7] : Debugger PUnit) m := by
  rw [flush, bind_of_ok (threadAt_eq h)]
  simp only [writeUserArea_read]
  rfl

/-- After a flush the registers of the thread are those of its cache. -/
theorem flush_eq_ok {m m' : Machine} {u : PUnit} (h : flush t m = (.ok u, m')) :
    ∃ thread, m.thread? t = some thread ∧ m.isStopped t = true ∧
      ∀ i, isRegisterByte i → Copied t thread.regs.data i m' := by
  cases hthread : m.thread? t with
  | none =>
      obtain ⟨thread, m₁, hat, -⟩ := Eff.bind_eq_ok.mp h
      rw [(threadAt_eq_ok hat).1] at hthread
      cases hthread
  | some thread =>
      refine ⟨thread, rfl, ?_⟩
      rw [flush_eq hthread] at h
      obtain ⟨_, m₁, hfprs, hrest⟩ := Eff.bind_eq_ok.mp h
      obtain ⟨_, m₂, hgprs, hdebug⟩ := Eff.bind_eq_ok.mp hrest
      obtain ⟨hstopped, hfprs⟩ := copyBlock_eq_ok hfprs
      refine ⟨hstopped, fun i hi => ?_⟩
      have hround : ∀ number, Respects (Carries (Copied t thread.regs.data i))
          (copyBlock t thread.regs.data (debugregOffset + 8 * number) 8
            "Could not write to user area") := fun _ => copyBlock_carries _ _ _ _ _
      have hlater : Respects (Carries (Copied t thread.regs.data i))
          (forEach (fun number => copyBlock t thread.regs.data (debugregOffset + 8 * number) 8
            "Could not write to user area") [0, 1, 2, 3, 6, 7]) :=
        Respects.forEach fun number _ => hround number
      have hestablish : ∀ number ∈ [0, 1, 2, 3, 6, 7], debugregOffset + 8 * number ≤ i ∧
          i < debugregOffset + 8 * number + 8 → Copied t thread.regs.data i m' := by
        intro number hmem hrange
        refine forEach_establishes hmem (fun other _ => hround other) ?_ hdebug
        exact fun _ _ _ hok => (copyBlock_eq_ok hok).2 i hrange
      rcases hi with hgpr | hfpr | hlow | hhigh
      · exact hlater.apply_eq hdebug ((copyBlock_eq_ok hgprs).2 i ⟨Nat.zero_le i, hgpr⟩)
      · exact hlater.apply_eq hdebug
          ((copyBlock_carries _ _ _ _ _).apply_eq hgprs (hfprs i hfpr))
      · have hnumber : (i - debugregOffset) / 8 ∈ [0, 1, 2, 3, 6, 7] := by
          simp only [List.mem_cons, List.not_mem_nil]
          omega
        exact hestablish _ hnumber (by omega)
      · have hnumber : (i - debugregOffset) / 8 ∈ [0, 1, 2, 3, 6, 7] := by
          simp only [List.mem_cons, List.not_mem_nil]
          omega
        exact hestablish _ hnumber (by omega)

theorem callThread_onward (funcAddr returnAddr : Word) (regsToRestore : Registers) (tid : Tid) :
    Respects (Onward t) (callThread handlers funcAddr returnAddr regsToRestore tid) := by
  have hwait : Respects (Onward t) (waitOnSignal handlers (some tid)) :=
    Respects.bind Respects.get fun _ => waitOnSignalLoop_onward _ _
  exact callThread_respects (stopFrame_onward handlers) trivial (fun _ _ => .of_eq rfl rfl)
    (fun m => .observe rfl id (by simp) rfl) hwait funcAddr returnAddr regsToRestore

theorem inferiorCall_grows (funcAddr returnAddr : Word) (regsToRestore : Registers)
    (otid : Option Tid) :
    Respects (Grows t) (inferiorCall handlers funcAddr returnAddr regsToRestore otid) := by
  refine Respects.bind Respects.get fun m => ?_
  refine Respects.bind ((callThread_onward _ _ _ _).mono fun _ _ => Onward.grows) fun _ => ?_
  exact Respects.bind (Respects.modify fun _ => ⟨⟨[_], rfl, rfl⟩, id⟩) fun _ => Respects.pure _

/-- A call that throws has put nothing back. -/
theorem inferiorCall_onward_of_error {funcAddr returnAddr : Word} {regsToRestore : Registers}
    {otid : Option Tid} {m m' : Machine} {e : Failure}
    (h : inferiorCall handlers funcAddr returnAddr regsToRestore otid m = (.error e, m')) :
    Onward t m m' := by
  rw [inferiorCall, bind_of_ok (get_apply m)] at h
  rcases bind_eq_error.mp h with hcall | ⟨_, m₁, -, hrest⟩
  · exact (callThread_onward _ _ _ _).apply_eq hcall
  · cases hrest

/-- What a call leaves of its thread: the registers it was given, in the kernel
and in the cache. -/
structure Restored (t : Tid) (regs : Registers) (m : Machine) : Prop where
  stopped : (m.kernel.threads t).status = .stopped
  user : ∀ i, isRegisterByte i → (m.kernel.threads t).user i = regs.data i
  cached : ∀ thread, m.thread? t = some thread → thread.regs = regs
  current : m.process.currentThread = t

/-- A call that returns has put the registers back. -/
theorem callThread_restored {funcAddr returnAddr : Word} {regsToRestore newRegs : Registers}
    {m m' : Machine}
    (h : callThread handlers funcAddr returnAddr regsToRestore t m = (.ok newRegs, m')) :
    Restored t regsToRestore m' := by
  obtain ⟨_, m₁, -, hrest₁⟩ := Eff.bind_eq_ok.mp h
  obtain ⟨rsp, m₂, -, hrest₂⟩ := Eff.bind_eq_ok.mp hrest₁
  obtain ⟨_, m₃, -, hrest₃⟩ := Eff.bind_eq_ok.mp hrest₂
  obtain ⟨_, m₄, -, hrest₄⟩ := Eff.bind_eq_ok.mp hrest₃
  obtain ⟨_, m₅, -, hrest₅⟩ := Eff.bind_eq_ok.mp hrest₄
  obtain ⟨reason, m₆, hwait, hrest₆⟩ := Eff.bind_eq_ok.mp hrest₅
  split at hrest₆
  · cases hrest₆
  obtain ⟨_, m₇, hregs, hrest₇⟩ := Eff.bind_eq_ok.mp hrest₆
  obtain rfl : m₆ = m₇ := congrArg Prod.snd hregs
  obtain ⟨_, m₈, hupdate, hrest₈⟩ := Eff.bind_eq_ok.mp hrest₇
  obtain ⟨_, m₉, hflush, hresult⟩ := Eff.bind_eq_ok.mp hrest₈
  cases hresult
  obtain rfl := (congrArg Prod.snd hupdate).symm
  have hthread₈ : ∀ thread, (updateThread t (fun thread =>
      { thread with regs := regsToRestore }) m₆).2.thread? t = some thread →
      thread.regs = regsToRestore := by
    intro thread hthread
    rw [Machine.thread?_updateThread] at hthread
    obtain ⟨old, -, rfl⟩ := Option.map_eq_some_iff.mp hthread
    rfl
  have hprocess : m'.process = (updateThread t (fun thread =>
      { thread with regs := regsToRestore }) m₆).2.process :=
    (flush_respects (R := Fixes Machine.process) fun _ _ => rfl).apply_eq hflush
  have hstatus := (flush_respects (R := Fixes fun m => (m.kernel.threads t).status)
    fun m user => setUser_status m t t user).apply_eq hflush
  obtain ⟨thread, hthread, hstopped, huser⟩ := flush_eq_ok hflush
  have hstopped₆ : (m₆.kernel.threads t).status = .stopped := of_decide_eq_true hstopped
  have hcurrent : m₆.process.currentThread = t := by
    rcases waitOnSignalLoop_current hwait with hgone | hcurrent
    · rw [Gone, hstopped₆] at hgone
      cases hgone
    · exact hcurrent
  refine ⟨?_, fun i hi => ?_, fun last hlast => ?_, ?_⟩
  · exact hstatus.trans hstopped₆
  · rw [← hthread₈ thread hthread]
    exact huser i hi
  · refine hthread₈ last ?_
    rw [← hlast]
    simp only [Machine.thread?, hprocess]
  · rw [hprocess]
    exact hcurrent

end Window

end Gsdb
