/-
What `process::step_instruction` lets its thread do.  The single step is
followed by the general wait, which resumes the thread again when it passes over
the first report; a pending `SIGSTOP` is collected by letting the thread run.
-/
import Gsdb.Commands

namespace Gsdb

open ByteMemory Effects Eff Debugger

/-- The machine with the registers of a thread read into its entry. -/
def Machine.load (m : Machine) (tid : Tid) : Machine :=
  (updateThread tid (fun thread =>
    { thread with regs := reload thread.regs (m.kernel.threads tid).user }) m).2

/-- The machine in which the hit handler of a breakpoint runs: the stop is
decoded and the thread set back onto the site. -/
def Machine.atHit (m : Machine) (reason : StopReason) : Machine :=
  (setPc (User.pc (m.kernel.threads reason.tid).user - 1) reason.tid
    (augmentStopReason reason (m.load reason.tid)).2).2

/-- The breakpoint that owns the site at an address has a hit handler that lets
the thread go on. -/
def goesOnAfterHit (handlers : HitHandlers) (address : Word) (m : Machine) : Bool :=
  match m.process.breakpointSites.find? fun site => site.address = address with
  | none => false
  | some site =>
      match site.parent.bind fun parent => m.process.breakpoints[parent]? with
      | none => false
      | some point =>
          match point.onHit with
          | none | some .stop => false
          | some handler =>
              match (handlers.onHit handler m).2 with
              | .ok goesOn => goesOn
              | .error _ => false

/-- A system call that is not to be caught, by the number in `orig_rax`. -/
def skipsSyscall (policy : SyscallCatchPolicy) (user : User) : Bool :=
  decide (policy.mode = .some) &&
    !policy.toCatch.contains ((Registers.word user 64 120).setWidth 16).toNat

/-- The stop of a tracked thread after which it should go on without a report. -/
def restarts (handlers : HitHandlers) (reason : StopReason) (m : Machine) : Bool :=
  let user := (m.kernel.threads reason.tid).user
  if reason.info = sigtrapSyscall then skipsSyscall m.process.policy user
  else decide (reason.info = sigtrap) &&
    decide ((m.kernel.threads reason.tid).siCode = .siKernel) &&
    m.process.breakpointSites.enabledStoppointAtAddress (User.pc user - 1) &&
    goesOnAfterHit handlers (User.pc user - 1) (m.atHit reason)

/-- The reports that `wait_on_signal` passes over: clone events, the first stop
of a new thread, the `SIGSTOP` that is pending, and stops after which the thread
should go on. -/
def passesOver (handlers : HitHandlers) (event : WaitEvent) (m : Machine) : Bool :=
  decide (event.status = .stopped sigtrap eventClone) ||
    (m.process.isAttached && event.status.isStop &&
      match m.thread? event.tid with
      | none => true
      | some thread =>
          let reason := StopReason.ofWait event.tid event.status
          (thread.pendingSigstop && decide (reason.info = sigstop)) ||
            restarts handlers reason m)

section PassedOver

variable {handlers : HitHandlers} {m m' : Machine}

theorem readAllRegisters_eq_ok {tid : Tid} {u : PUnit}
    (h : readAllRegisters tid m = (.ok u, m')) : m' = m.load tid ∧ m.isStopped tid = true ∧
      (m.thread? tid).isSome = true := by
  obtain ⟨thread, m₁, hat, hrest⟩ := Eff.bind_eq_ok.mp h
  obtain ⟨hthread, rfl⟩ := threadAt_eq_ok hat
  rw [bind_of_ok (get_apply _)] at hrest
  split at hrest
  · rename_i hstopped
    refine ⟨(congrArg Prod.snd hrest).symm, hstopped, ?_⟩
    rw [hthread]
    rfl
  · cases hrest

/-- The registers of a thread that were just read are those of the kernel. -/
theorem Machine.load_data {tid : Tid} {thread : ThreadState}
    (h : (m.load tid).thread? tid = some thread) {i : Nat} (hi : isRegisterByte i) :
    thread.regs.data i = (m.kernel.threads tid).user i := by
  rw [Machine.load, Machine.thread?_updateThread] at h
  obtain ⟨old, -, rfl⟩ := Option.map_eq_some_iff.mp h
  exact reload_apply _ _ hi

theorem origRax_info : registerInfoById .origRax = .ok (gpr64 .origRax "orig_rax" (-1) 120) := rfl

/-- A general purpose register of a thread that was just read. -/
theorem readRegister_load {tid : Tid} {id : RegisterId} {name : String} {dwarfId : Int}
    {offset : Nat} (hinfo : registerInfoById id = .ok (gpr64 id name dwarfId offset))
    (hoffset : offset + 8 ≤ regsSize) {w : Word}
    (h : readRegister tid id (m.load tid) = (.ok w, m')) :
    m' = m.load tid ∧ w = Registers.word (m.kernel.threads tid).user 64 offset := by
  obtain ⟨rfl, thread, hthread, hread⟩ := readRegister_eq_ok h
  refine ⟨rfl, ?_⟩
  have hplace : (gpr64 id name dwarfId offset).offset = offset := Nat.zero_add offset
  rw [readU64_eq_ok hinfo rfl rfl hread, hplace]
  have hbytes : thread.regs.data.read offset 8 = (m.kernel.threads tid).user.read offset 8 := by
    refine Area.read_congr fun i hlow hhigh => Machine.load_data hthread (.inl ?_)
    simp only [regsOffset]
    omega
  simp only [Registers.word, hbytes]

theorem syscallInformation_id {tid : Tid} {info : SyscallInformation}
    (h : syscallInformation tid m = (.ok info, m')) : ∃ id m₁,
      readRegister tid .origRax m = (.ok id, m₁) ∧ info.id = id.setWidth 16 := by
  rw [syscallInformation, bind_of_ok (get_apply m)] at h
  split at h
  · obtain ⟨id, m₁, hid, hrest⟩ := Eff.bind_eq_ok.mp h
    obtain ⟨ret, m₂, -, hrest₂⟩ := Eff.bind_eq_ok.mp hrest
    obtain ⟨-, m₃, -, hend⟩ := Eff.bind_eq_ok.mp hrest₂
    cases hend
    exact ⟨id, m₁, hid, rfl⟩
  · obtain ⟨id, m₁, hid, hrest⟩ := Eff.bind_eq_ok.mp h
    obtain ⟨args, m₂, -, hrest₂⟩ := Eff.bind_eq_ok.mp hrest
    obtain ⟨-, m₃, -, hend⟩ := Eff.bind_eq_ok.mp hrest₂
    cases hend
    exact ⟨id, m₁, hid, rfl⟩

/-- The system call of a decoded syscall stop. -/
theorem augmentStopReason_syscall {reason final : StopReason}
    (hsyscall : reason.info = sigtrapSyscall)
    (h : augmentStopReason reason m = (.ok final, m')) :
    m'.process.policy = m.process.policy ∧ ∃ info id m₁,
      readRegister reason.tid .origRax m = (.ok id, m₁) ∧ info.id = id.setWidth 16 ∧
      final = reason.atSyscall info := by
  have hpolicy : m'.process.policy = m.process.policy := by
    rcases augmentStopReason_cases reason m with ⟨e, h'⟩ | ⟨info, -, -, h'⟩ | ⟨-, h'⟩ <;>
      rw [h'] at h <;> cases h <;> rfl
  refine ⟨hpolicy, ?_⟩
  rw [augmentStopReason, bind_of_ok (get_apply m), if_pos hsyscall] at h
  split at h
  · cases h
  · obtain ⟨info, m₁, hinfo, hrest⟩ := Eff.bind_eq_ok.mp h
    obtain ⟨id, m₂, hid, hsame⟩ := syscallInformation_id hinfo
    obtain ⟨-, m₃, -, hend⟩ := Eff.bind_eq_ok.mp hrest
    cases hend
    exact ⟨info, id, m₂, hid, hsame, rfl⟩

theorem notifyHit_eq_ok {parent : Nat} {goesOn : Bool}
    (h : notifyHit handlers parent m = (.ok goesOn, m')) : ∃ point,
      m.process.breakpoints[parent]? = some point ∧ goesOn = match point.onHit with
        | none | some .stop => false
        | some handler => match (handlers.onHit handler m).2 with
            | .ok goesOn => goesOn
            | .error _ => false := by
  rw [notifyHit, bind_of_ok (get_apply m)] at h
  cases hpoint : m.process.breakpoints[parent]? with
  | none =>
      rw [hpoint] at h
      cases h
  | some point =>
      refine ⟨point, rfl, ?_⟩
      rw [hpoint] at h
      have hrun : ∀ handler : HitHandler, (forEach HitAction.run (handlers.onHit handler m).1 >>=
          fun _ => ofExcept (handlers.onHit handler m).2) m = (.ok goesOn, m') →
          goesOn = match (handlers.onHit handler m).2 with
            | .ok goesOn => goesOn
            | .error _ => false := by
        intro handler hhandler
        obtain ⟨-, m₁, -, hend⟩ := Eff.bind_eq_ok.mp hhandler
        rw [ofExcept_apply] at hend
        rw [(Prod.mk.inj hend).1]
      cases hhit : point.onHit with
      | none =>
          simp only [hhit] at h
          cases h
          rfl
      | some handler =>
          simp only [hhit] at h
          cases handler with
          | stop =>
              cases h
              rfl
          | resolveRendezvous => exact hrun _ h
          | reloadLibraries => exact hrun _ h

theorem setPc_sites (address : Word) (tid : Tid) (m : Machine) :
    (setPc address tid m).2.process.breakpointSites = m.process.breakpointSites :=
  writeRegister_respects (R := Fixes fun m => m.process.breakpointSites) (fun _ _ => rfl)
    (fun _ _ => rfl) .rip (.u64 address) true m

theorem siteAt_eq_ok {index : Nat} {site : BreakpointSite}
    (h : siteAt index m = (.ok site, m')) :
    m.process.breakpointSites[index]? = some site ∧ m' = m := by
  rw [siteAt, asks_apply] at h
  cases hsite : m.process.breakpointSites[index]? with
  | none =>
      rw [hsite] at h
      cases h
  | some found =>
      rw [hsite] at h
      cases h
      exact ⟨rfl, rfl⟩

/-- Whether a thread goes on after a trap. -/
theorem handleTrap_eq_ok {reason : StopReason} {goesOn : Bool}
    (h : handleTrap handlers reason true m = (.ok goesOn, m')) :
    ∃ pc, getPc reason.tid m = (.ok pc, m) ∧ goesOn =
      if reason.trapReason = some .softwareBreak ∧
          m.process.breakpointSites.enabledStoppointAtAddress (pc - 1) = true then
        goesOnAfterHit handlers (pc - 1) (setPc (pc - 1) reason.tid m).2
      else decide (reason.trapReason = some .syscall) &&
        shouldResumeFromSyscall m.process.policy reason := by
  obtain ⟨pc, m₁, hpc, hrest⟩ := Eff.bind_eq_ok.mp h
  obtain rfl := (getPc_eq_ok hpc).1
  refine ⟨pc, hpc, ?_⟩
  rw [bind_of_ok (get_apply _)] at hrest
  split at hrest
  · rename_i hsite
    rw [if_pos hsite]
    obtain ⟨u, m₂, hset, hrest₂⟩ := Eff.bind_eq_ok.mp hrest
    have hm₂ : (setPc (pc - 1) reason.tid m₁).2 = m₂ := congrArg Prod.snd hset
    obtain ⟨index, m₃, hindex, hrest₃⟩ := Eff.bind_eq_ok.mp hrest₂
    obtain ⟨bp, m₄, hbp, hrest₄⟩ := Eff.bind_eq_ok.mp hrest₃
    obtain ⟨hindex', hsame⟩ := Prod.mk.inj hindex
    obtain ⟨hfound, hsame'⟩ := siteAt_eq_ok hbp
    subst hsame' hsame
    have hfind := StoppointCollection.getElem?_of_getByAddress hindex'
    rw [← setPc_sites (pc - 1) reason.tid m₁, hm₂, hfound] at hfind
    rw [hm₂, goesOnAfterHit]
    change goesOn = match m₂.process.breakpointSites.find? fun site =>
      Stoppoint.atAddress site (pc - 1) with
      | none => false
      | some site => _
    rw [← hfind]
    cases hparent : bp.parent with
    | none =>
        rw [hparent] at hrest₄
        cases hrest₄
        simp [hparent]
    | some parent =>
        rw [hparent] at hrest₄
        obtain ⟨shouldRestart, m₅, hhit, hend⟩ := Eff.bind_eq_ok.mp hrest₄
        obtain ⟨point, hpoint, hanswer⟩ := notifyHit_eq_ok hhit
        cases hend
        simp only [hparent, Option.bind_some, hpoint, Bool.and_true]
        exact hanswer
  · rename_i hsite
    rw [if_neg hsite]
    split at hrest
    · rename_i hhardware
      obtain ⟨point, m₂, -, hrest₂⟩ := Eff.bind_eq_ok.mp hrest
      have hfalse : goesOn = false := by
        cases point with
        | inl id =>
            cases hrest₂
            rfl
        | inr id =>
            obtain ⟨u, m₃, -, hend⟩ := Eff.bind_eq_ok.mp hrest₂
            cases hend
            rfl
      rw [hfalse, hhardware]
      rfl
    · cases hrest
      simp

theorem trapType_softwareBreak (siCode : SiCode) :
    SiCode.trapType siCode = .softwareBreak ↔ siCode = .siKernel := by
  cases siCode <;> simp [SiCode.trapType]

/-- Whether a syscall stop is decoded and passed over. -/
theorem decodeLoaded_syscall {reason : StopReason} {final : Option StopReason}
    (hsyscall : reason.info = sigtrapSyscall)
    (h : decodeLoaded handlers reason true (m.load reason.tid) = (.ok final, m')) :
    final = none ↔
      skipsSyscall m.process.policy (m.kernel.threads reason.tid).user = true := by
  obtain ⟨augmented, m₂, haugment, hrest⟩ := Eff.bind_eq_ok.mp h
  obtain ⟨hpolicy, info, id, m₃, hid, hsame, rfl⟩ := augmentStopReason_syscall hsyscall haugment
  have hword := (readRegister_load origRax_info (by decide) hid).2
  have hinfo : (reason.atSyscall info).info = sigtrap := rfl
  rw [if_pos hinfo] at hrest
  obtain ⟨goesOn, m₄, htrap, hend⟩ := Eff.bind_eq_ok.mp hrest
  obtain ⟨pc, -, hgoesOn⟩ := handleTrap_eq_ok htrap
  have hskips : goesOn = skipsSyscall m.process.policy (m.kernel.threads reason.tid).user := by
    rw [hgoesOn, if_neg (by simp [StopReason.atSyscall]), hpolicy]
    simp only [StopReason.atSyscall, shouldResumeFromSyscall, skipsSyscall, hsame, hword,
      decide_true, Bool.true_and]
    rfl
  rw [← hskips]
  cases goesOn with
  | true =>
      cases hend
      simp
  | false =>
      cases hend
      simp

/-- Whether any other stop is decoded and passed over. -/
theorem decodeLoaded_trap {reason : StopReason} {final : Option StopReason}
    (hother : reason.info ≠ sigtrapSyscall)
    (h : decodeLoaded handlers reason true (m.load reason.tid) = (.ok final, m')) :
    final = none ↔ restarts handlers reason m = true := by
  obtain ⟨augmented, m₂, haugment, hrest⟩ := Eff.bind_eq_ok.mp h
  have hm₂ : (augmentStopReason reason (m.load reason.tid)).2 = m₂ := congrArg Prod.snd haugment
  rcases augmentStopReason_cases reason (m.load reason.tid) with
    ⟨e, h'⟩ | ⟨info, hsyscall, -, -⟩ | ⟨-, h'⟩
  · rw [h'] at haugment
    cases haugment
  · exact absurd hsyscall hother
  rw [h'] at haugment
  obtain ⟨hvalue, hstate⟩ := Prod.mk.inj haugment
  cases hvalue
  have hsites : m₂.process.breakpointSites = m.process.breakpointSites := hstate ▸ rfl
  have hthreads : m₂.thread? reason.tid = (m.load reason.tid).thread? reason.tid := hstate ▸ rfl
  rw [restarts, if_neg hother]
  by_cases htrap : reason.info = sigtrap
  · have hinfo : (reason.withTrap ((m.load reason.tid).kernel.threads reason.tid).siCode).info =
        sigtrap := htrap
    rw [if_pos hinfo] at hrest
    obtain ⟨goesOn, m₄, hhandled, hend⟩ := Eff.bind_eq_ok.mp hrest
    obtain ⟨pc, hpc, hgoesOn⟩ := handleTrap_eq_ok hhandled
    obtain ⟨-, thread, hthread, hword⟩ := getPc_eq_ok hpc
    have hload : (m.load reason.tid).thread? reason.tid = some thread := hthreads ▸ hthread
    have huser : pc = User.pc (m.kernel.threads reason.tid).user :=
      hword.trans (User.pc_congr fun i hi => Machine.load_data hload hi.isRegisterByte)
    have hcode : (m.load reason.tid).kernel.threads reason.tid = m.kernel.threads reason.tid := rfl
    have hhit : m.atHit reason = (setPc (pc - 1) reason.tid m₂).2 := by
      rw [Machine.atHit, hm₂, huser]
    have hanswer : goesOn = (decide ((m.kernel.threads reason.tid).siCode = .siKernel) &&
        m.process.breakpointSites.enabledStoppointAtAddress (pc - 1) &&
        goesOnAfterHit handlers (pc - 1) (m.atHit reason)) := by
      rw [hgoesOn, hsites, hhit]
      simp only [StopReason.withTrap, htrap, if_true, hcode, Option.some.injEq,
        trapType_softwareBreak]
      cases hkernel : (m.kernel.threads reason.tid).siCode <;>
        cases m.process.breakpointSites.enabledStoppointAtAddress (pc - 1) <;>
        simp [SiCode.trapType]
    rw [huser] at hanswer
    simp only [htrap, decide_true, Bool.true_and, ← hanswer]
    cases goesOn with
    | true =>
        cases hend
        simp
    | false =>
        cases hend
        simp
  · have hinfo : ¬ (reason.withTrap ((m.load reason.tid).kernel.threads reason.tid).siCode).info =
        sigtrap := htrap
    rw [if_neg hinfo] at hrest
    cases hrest
    simp [htrap]

theorem decodeSignal_eq_none_iff {reason : StopReason} {final : Option StopReason}
    (h : decodeSignal handlers reason true m = (.ok final, m')) :
    final = none ↔ restarts handlers reason m = true := by
  obtain ⟨u, m₁, hload, hrest⟩ := Eff.bind_eq_ok.mp h
  obtain ⟨rfl, -, -⟩ := readAllRegisters_eq_ok hload
  by_cases hsyscall : reason.info = sigtrapSyscall
  · rw [restarts, if_pos hsyscall]
    exact decodeLoaded_syscall hsyscall hrest
  · exact decodeLoaded_trap hsyscall hrest

/-- A report is passed over exactly if it is one that `passesOver` tells. -/
theorem handleSignal_eq_none_iff {event : WaitEvent} {final : Option StopReason}
    (h : handleSignal handlers (.ofWait event.tid event.status) true m = (.ok final, m')) :
    final = none ↔ passesOver handlers event m = true := by
  by_cases hclone : event.status = .stopped sigtrap eventClone
  · have htrap := (ofWait_clone_iff event.tid event.status).mpr hclone
    rw [handleSignal, bind_of_ok (get_apply m), if_pos ⟨htrap, rfl⟩] at h
    cases h
    simp [passesOver, hclone]
  have hnot : ¬ ((StopReason.ofWait event.tid event.status).trapReason = some .clone ∧ True) :=
    fun htrap => hclone ((ofWait_clone_iff _ _).mp htrap.1)
  rw [passesOver, decide_eq_false hclone, Bool.false_or]
  by_cases hstops : m.process.isAttached = true ∧ event.status.isStop = true
  case neg =>
    rw [handleSignal, bind_of_ok (get_apply m), if_neg (by simpa using hnot),
      if_neg (by rwa [ofWait_stopped_iff])] at h
    cases h
    cases hattached : m.process.isAttached <;> cases hstop : event.status.isStop <;> simp_all
  rw [hstops.1, hstops.2, Bool.true_and, Bool.true_and]
  rcases handleSignal_cases handlers (.ofWait event.tid event.status) true m with
    ⟨hclone', -, -⟩ | ⟨hexit, -⟩ | ⟨-, hnew, -, h'⟩ | ⟨thread, -, hthread, hpending, hinfo, h'⟩ |
      ⟨thread, -, hthread, hother, h'⟩ | ⟨-, -, hmain, -⟩
  · exact absurd ((ofWait_clone_iff _ _).mp hclone') hclone
  · exact absurd ⟨hstops.1, (ofWait_stopped_iff _ _).mpr hstops.2⟩ hexit
  · rw [h'] at h
    cases h
    rw [StopReason.ofWait_tid] at hnew
    simp [hnew]
  · rw [h'] at h
    cases h
    rw [StopReason.ofWait_tid] at hthread
    simp [hthread, hpending, hinfo]
  · rw [h'] at h
    rw [StopReason.ofWait_tid] at hthread
    rw [decodeSignal_eq_none_iff h, hthread]
    simp only [Bool.or_eq_true, Bool.and_eq_true, decide_eq_true_eq]
    exact ⟨.inr, fun heither => heither.resolve_left hother⟩
  · cases hmain

end PassedOver

/-- The requests with which a thread was let run, newest first. -/
def requests (t : Tid) : List Observation → List RunRequest
  | [] => []
  | .letRun tid request _ :: earlier =>
      if tid = t then request :: requests t earlier else requests t earlier
  | _ :: earlier => requests t earlier

/-- From one machine to another a thread was let run with these requests. -/
def Ran (t : Tid) (runs : List RunRequest) (m m' : Machine) : Prop :=
  ∃ recent, m'.trace = recent ++ m.trace ∧ requests t recent = runs

/-- A thread is let run at most once, and then for a single step. -/
def AtMostOneStep (t : Tid) (m m' : Machine) : Prop :=
  Ran t [] m m' ∨ Ran t [.singleStep] m m'

theorem requests_append (t : Tid) (recent earlier : List Observation) :
    requests t (recent ++ earlier) = requests t recent ++ requests t earlier := by
  induction recent with
  | nil => rfl
  | cons observation recent ih =>
      cases observation with
      | letRun tid request moment =>
          by_cases htid : tid = t
          · simp [requests, htid, ih]
          · simp [requests, htid, ih]
      | _ => exact ih

section Steps

variable {handlers : HitHandlers} {m m' m'' : Machine} {t tid : Tid} {runs runs' : List RunRequest}

theorem Ran.trans (h : Ran t runs m m') (h' : Ran t runs' m' m'') :
    Ran t (runs' ++ runs) m m'' := by
  obtain ⟨recent, htrace, hruns⟩ := h
  obtain ⟨recent', htrace', hruns'⟩ := h'
  refine ⟨recent' ++ recent, by rw [htrace', htrace, List.append_assoc], ?_⟩
  rw [requests_append, hruns, hruns']

instance : Std.Refl (Ran t []) := ⟨fun _ => ⟨[], rfl, rfl⟩⟩

instance : IsTrans Machine (Ran t []) := ⟨fun _ _ _ h h' => h.trans h'⟩

theorem Ran.of_eq (h : m'.trace = m.trace) : Ran t [] m m' := ⟨[], h, rfl⟩

theorem Ran.observe {observation : Observation} (h : m'.trace = observation :: m.trace)
    (hquiet : requests t [observation] = []) : Ran t [] m m' := ⟨[observation], h, hquiet⟩

theorem siteFrame_quiet : SiteFrame true (Ran t []) where
  slots := fun _ _ _ _ _ => .inl fun _ _ id val _ =>
    writeRegister_respects (fun _ _ => .of_eq rfl) (fun _ _ => .of_eq rfl) id val true
  memory := fun _ _ => .of_eq rfl
  update := fun _ _ _ _ => .of_eq rfl
  push := fun _ _ _ _ => .of_eq rfl
  erase := fun _ _ => .of_eq rfl
  note := fun _ observation hnote => .observe rfl
    (by cases observation <;> first | rfl | cases hnote)

/-- Handling a signal lets no thread run. -/
theorem signalFrame_quiet (tid : Tid) : SignalFrame handlers tid (Ran t []) where
  action := fun _ _ action _ => by
    cases action with
    | site op => exact siteFrame_quiet.run (.inl rfl)
    | breakpoints points => exact Respects.modify fun _ => .of_eq rfl
  setPc := fun _ => writeRegister_respects (fun _ _ => .of_eq rfl) (fun _ _ => .of_eq rfl) _ _ _
  data := fun _ _ _ => .of_eq rfl
  augment := fun reason _ _ m => by
    rcases augmentStopReason_cases reason m with ⟨e, h⟩ | ⟨info, -, -, h⟩ | ⟨-, h⟩ <;> rw [h]
    · exact refl_of _ m
    · exact .observe rfl rfl
    · exact .observe rfl rfl
  load := readAllRegisters_respects fun _ => Respects.modify fun _ => .of_eq rfl
  consumed := Respects.modify fun _ => .of_eq rfl
  track := fun _ _ => .of_eq rfl
  lifecycle := fun _ _ _ _ => .observe rfl rfl

theorem handleSignal_quiet (event : WaitEvent) (isMainStop : Bool) :
    Respects (Ran t []) (handleSignal handlers (.ofWait event.tid event.status) isMainStop) :=
  (signalFrame_quiet event.tid).handleSignal (StopReason.ofWait_tid _ _)
    (StopReason.ofWait_syscallInfo _ _) isMainStop

theorem waitpid_quiet (waiter : Waiter) (toAwait : Option Tid) :
    Respects (Ran t []) (waitpid waiter toAwait) := by
  intro m
  rcases waitpid_cases waiter toAwait m with h | ⟨rest, -, h⟩ | ⟨event, rest, -, -, h⟩ <;> rw [h]
  · exact refl_of _ m
  · exact .of_eq rfl
  · exact .observe rfl rfl

theorem stopThread_quiet (tid : Tid) : Respects (Ran t []) (stopThread handlers tid) := by
  have hupdate : ∀ f, Respects (Ran t []) (updateThread tid f) :=
    fun f => Respects.modify fun _ => .of_eq rfl
  refine Respects.bind (Respects.asks _) fun thread => Respects.ite ?_ (Respects.pure _)
  refine Respects.bind (Respects.ite (Respects.pure _) (Respects.modify fun _ => .observe rfl rfl))
    fun _ => Respects.bind (waitpid_quiet _ _) fun answer => ?_
  cases answer with
  | none => exact Respects.throw _
  | some event =>
      refine Respects.bind (Respects.ite (hupdate _) (Respects.pure _)) fun _ => ?_
      refine Respects.bind ?_ fun _ => hupdate _
      exact (signalFrame_quiet tid).handleSignal (StopReason.ofWait_tid _ _)
        (StopReason.ofWait_syscallInfo _ _) false

theorem stopRunningThreads_quiet : Respects (Ran t []) (stopRunningThreads handlers) :=
  Respects.bind Respects.get fun _ => Respects.forEach fun tid _ => stopThread_quiet tid

theorem cleanupExitedThreads_quiet (tid : Tid) :
    Respects (Ran t []) (cleanupExitedThreads tid) := by
  refine Respects.bind Respects.get fun m => ?_
  refine Respects.bind (Respects.forEach fun _ _ => Respects.modify fun _ => .observe rfl rfl)
    fun _ => ?_
  exact Respects.bind (Respects.modify fun _ => .of_eq rfl) fun _ => Respects.pure _

theorem recordFailedStop_quiet (reason : StopReason) :
    Respects (Ran t []) (recordFailedStop handlers reason) :=
  Respects.bind (Respects.modify fun _ => .of_eq rfl) fun _ =>
    Respects.bind stopRunningThreads_quiet fun _ => Respects.modify fun _ => .of_eq rfl

/-- A thread that is gone stays so, and is not let run. -/
def StaysGone (t : Tid) (m m' : Machine) : Prop :=
  (m.kernel.threads t).status = .absent →
    (m'.kernel.threads t).status = .absent ∧ Ran t [] m m'

instance : Std.Refl (StaysGone t) := ⟨fun m hgone => ⟨hgone, refl_of _ m⟩⟩

instance : IsTrans Machine (StaysGone t) := ⟨fun _ _ _ h h' hgone =>
  ⟨(h' (h hgone).1).1, (h hgone).2.trans (h' (h hgone).1).2⟩⟩

theorem StaysGone.of_eq (hstatus : (m'.kernel.threads t).status = (m.kernel.threads t).status)
    (htrace : m'.trace = m.trace) : StaysGone t m m' :=
  fun hgone => ⟨hstatus.trans hgone, .of_eq htrace⟩

theorem StaysGone.observe {observation : Observation}
    (hstatus : (m'.kernel.threads t).status = (m.kernel.threads t).status)
    (htrace : m'.trace = observation :: m.trace) (hquiet : requests t [observation] = []) :
    StaysGone t m m' :=
  fun hgone => ⟨hstatus.trans hgone, .observe htrace hquiet⟩

theorem siteFrame_staysGone : SiteFrame true (StaysGone t) where
  slots := fun _ _ _ _ _ => .inl fun tid _ id val _ =>
    writeRegister_respects (fun _ _ => .of_eq rfl rfl)
      (fun m user => .of_eq (setUser_status m tid t user) rfl) id val true
  memory := fun _ _ => .of_eq rfl rfl
  update := fun _ _ _ _ => .of_eq rfl rfl
  push := fun _ _ _ _ => .of_eq rfl rfl
  erase := fun _ _ => .of_eq rfl rfl
  note := fun _ observation hnote => .observe rfl rfl
    (by cases observation <;> first | rfl | cases hnote)

theorem stopFrame_staysGone : StopFrame handlers (fun _ => True) (StaysGone t) where
  enableSite := siteFrame_staysGone.enableSite
  disableSite := siteFrame_staysGone.disableSite
  action := fun _ _ action _ => by
    cases action with
    | site op => exact siteFrame_staysGone.run (.inl rfl)
    | breakpoints points => exact Respects.modify fun _ => .of_eq rfl rfl
  updateThread := fun _ _ _ _ => .of_eq rfl rfl
  user := fun m tid user _ => .of_eq (setUser_status m tid t user) rfl
  script := fun _ _ => .of_eq rfl rfl
  deliver := fun m waiter _ event _ _ hmay hgone => by
    have hne : t ≠ event.tid := by
      rintro rfl
      exact Machine.present_of_mayReport hmay hgone
    refine ⟨?_, .observe rfl rfl⟩
    change ((m.deliver waiter event).kernel.threads t).status = .absent
    rw [status_deliver, if_neg hne]
    exact hgone
  running := fun m tid request _ hstopped hgone => by
    have hne : t ≠ tid := by
      rintro rfl
      simp [Machine.isStopped, hgone] at hstopped
    refine ⟨?_, .observe rfl (if_neg (Ne.symm hne))⟩
    rw [status_letRun, if_neg hne]
    exact hgone
  track := fun _ _ _ _ => .of_eq rfl rfl
  cleanup := fun _ _ => .of_eq rfl rfl
  process := fun _ _ _ _ _ => .of_eq rfl rfl
  lifecycle := fun _ _ => .observe rfl rfl rfl
  note := fun _ observation hnote => .observe rfl rfl
    (by cases observation <;> first | rfl | cases hnote)
  augment := fun reason _ _ m => by
    rcases augmentStopReason_cases reason m with ⟨e, h⟩ | ⟨info, -, -, h⟩ | ⟨-, h⟩ <;> rw [h]
    · exact refl_of _ m
    · exact .observe rfl rfl rfl
    · exact .observe rfl rfl rfl

/-- Reporting the stop of a thread lets no thread run. -/
theorem handleReport_quiet {again : Option Tid → Debugger StopReason} {toAwait : Option Tid}
    {event : WaitEvent} (hstop : event.status.isStop = true)
    (hreported : passesOver handlers event m = false) :
    Ran t [] m (handleReport handlers again toAwait event m).2 := by
  have hsignal : Respects (Ran t []) (onThrow Failure.isException
      (handleSignal handlers (.ofWait event.tid event.status) true)
      (recordFailedStop handlers (.ofWait event.tid event.status))) :=
    Respects.onThrow (handleSignal_quiet event true) (recordFailedStop_quiet _)
  refine related_bind (hsignal m) fun final m₁ hfinal => ?_
  have hhandled := onThrow_eq_ok hfinal
  cases final with
  | none =>
      have hpassed := (handleSignal_eq_none_iff hhandled).mp rfl
      rw [hreported] at hpassed
      cases hpassed
  | some reason =>
      have hstopped : ¬ (reason.reason = .exited ∨ reason.reason = .terminated) := by
        rw [handleSignal_reason hhandled, (ofWait_stopped_iff _ _).mpr hstop]
        simp
      refine Respects.bind (Respects.asks _) (fun thread => ?_) m₁
      refine Respects.bind (Respects.modify fun _ => .of_eq rfl) fun _ => ?_
      refine Respects.bind Respects.get fun m => ?_
      rw [if_neg hstopped]
      refine Respects.bind stopRunningThreads_quiet fun _ => ?_
      refine Respects.bind (cleanupExitedThreads_quiet _) fun exited => ?_
      exact Respects.bind (Respects.modify fun _ => .of_eq rfl) fun _ => Respects.pure _

/-- A wait whose first report is not passed over does not let the thread run. -/
theorem waitOnSignal_quiet (hreported : ∀ event rest, m.kernel.script = .report event :: rest →
      m.mayReport (some t) event = true →
      passesOver handlers event ((m.deliver .waitOnSignal event).setScript rest) = false) :
    Ran t [] m (waitOnSignal handlers (some t) m).2 := by
  rw [waitOnSignal, bind_of_ok (get_apply m), waitOnSignalLoop]
  rcases waitpid_cases .waitOnSignal (some t) m with
    h | ⟨rest, -, h⟩ | ⟨event, rest, hmay, hscript, h⟩
  · rw [bind_of_error h]
    exact refl_of _ m
  · rw [bind_of_ok h]
    exact .of_eq rfl
  · rw [bind_of_ok h]
    have hdelivered : Ran t [] m ((m.deliver .waitOnSignal event).setScript rest) :=
      .observe rfl rfl
    refine trans_of (Ran t []) hdelivered ?_
    cases hstop : event.status.isStop with
    | true => exact handleReport_quiet hstop (hreported event rest hscript hmay)
    | false =>
        have htid := Machine.mayReport_some hmay
        subst htid
        have hgone : (((m.deliver .waitOnSignal event).setScript rest).kernel.threads
            event.tid).status = .absent := by
          change ((m.deliver .waitOnSignal event).kernel.threads event.tid).status = .absent
          rw [status_deliver, if_pos rfl, hstop]
          rfl
        have hframe : StopFrame handlers (fun _ => True) (StaysGone event.tid) :=
          stopFrame_staysGone
        exact (hframe.handleReport (hframe.stopRunningThreads fun _ => trivial)
          (hframe.waitOnSignalLoop (fun _ => trivial) _) (some event.tid) trivial _ hgone).2

/-- No `SIGSTOP` is pending for a thread that is stopped. -/
def NoSigstopPending (t : Tid) (m : Machine) : Prop :=
  ∀ thread, m.thread? t = some thread → thread.pendingSigstop = true → m.isStopped t = false

theorem swallowPendingSigstop_quiet (h : NoSigstopPending t m) :
    Ran t [] m (swallowPendingSigstop t m).2 := by
  refine related_bind (Respects.asks _ m) fun thread m₁ hat => ?_
  obtain ⟨hthread, rfl⟩ := threadAt_eq_ok hat
  cases hpending : thread.pendingSigstop with
  | false => exact refl_of _ m₁
  | true =>
      have hrun : ptraceRun .cont t m₁ = (.ok false, m₁) := by
        rcases ptraceRun_cases .cont t m₁ with ⟨hstopped, -⟩ | ⟨-, hrun⟩
        · rw [h thread hthread hpending] at hstopped
          cases hstopped
        · exact hrun
      have hclear : Respects (Ran t [])
          (updateThread t fun thread => { thread with pendingSigstop := false }) :=
        Respects.modify fun _ => .of_eq rfl
      rw [if_pos rfl, bind_of_ok hrun]
      exact Respects.bind (waitpid_quiet _ _) (fun _ => hclear) m₁

theorem liftSiteAt_respects {R : Machine → Machine → Prop} [Std.Refl R] [IsTrans Machine R]
    {pc : Word} (hlift : ∀ bp, Respects R (liftSite tid bp pc)) :
    Respects R (liftSiteAt tid pc) := by
  refine Respects.bind Respects.get fun m => Respects.ite ?_ (Respects.pure _)
  refine Respects.bind (Respects.ofExcept _) fun bp => ?_
  exact Respects.bind (hlift bp) fun _ => Respects.pure _

theorem reenable_respects {R : Machine → Machine → Prop} [Std.Refl R] [IsTrans Machine R]
    {pc : Word} (hrelay : ∀ bp, Respects R (relaySite bp pc)) (toReenable : Bool) :
    Respects R (reenable toReenable pc) := by
  refine Respects.bind Respects.get fun m => Respects.ite ?_ (Respects.pure _)
  cases m.process.breakpointSites.findByAddress pc with
  | none => exact Respects.throw _
  | some bp => exact hrelay bp

theorem samplePc_quiet (tid : Tid) : Respects (Ran t []) (samplePc tid) :=
  Respects.bind (readRegister_respects _ _) fun _ =>
    Respects.bind (Respects.modify fun _ => .observe rfl rfl) fun _ => Respects.pure _

theorem liftSiteAt_quiet (pc : Word) : Respects (Ran t []) (liftSiteAt tid pc) :=
  liftSiteAt_respects fun bp => Respects.bind (siteFrame_quiet.disableSite bp) fun _ =>
    Respects.modify fun _ => .observe rfl rfl

theorem reenable_quiet (toReenable : Bool) (pc : Word) :
    Respects (Ran t []) (reenable toReenable pc) :=
  reenable_respects (fun bp => Respects.bind (siteFrame_quiet.enableSite bp) fun _ =>
    Respects.modify fun _ => .observe rfl rfl) toReenable

theorem NoSigstopPending.of_roster (h : NoSigstopPending t m) (hroster : m'.roster = m.roster) :
    NoSigstopPending t m' := by
  intro thread hthread hpending
  have hrecord : (m'.thread? t).map ThreadState.record = (m.thread? t).map ThreadState.record :=
    congrFun (congrArg Roster.record hroster) t
  have hstatus : (m'.kernel.threads t).status = (m.kernel.threads t).status :=
    congrFun (congrArg Roster.status hroster) t
  rw [hthread] at hrecord
  obtain ⟨thread', hthread', hsame⟩ := Option.map_eq_some_iff.mp hrecord.symm
  have hpending' : thread'.pendingSigstop = true :=
    (congrArg ThreadRecord.pendingSigstop hsame).trans hpending
  rw [Machine.isStopped, hstatus]
  exact h thread' hthread' hpending'

/-- What neither lets the thread run nor touches the roster. -/
theorem keeps_noSigstopPending {α : Type} {x : Debugger α} (hquiet : Respects (Ran t []) x)
    (hroster : Respects (Fixes Machine.roster) x) (m : Machine) :
    Triple (fun s => NoSigstopPending t s ∧ Ran t [] m s) x
      (fun _ s => NoSigstopPending t s ∧ Ran t [] m s) (fun _ => Ran t [] m) := by
  rintro s ⟨hpending, hran⟩
  have hran' : Ran t [] m (x s).2 := hran.trans (hquiet s)
  have hpending' : NoSigstopPending t (x s).2 := hpending.of_roster (hroster s)
  refine ⟨fun a s' heq => ?_, fun e s' heq => ?_⟩
  · rw [heq] at hran' hpending'
    exact ⟨hpending', hran'⟩
  · rwa [heq] at hran'

/-- A step begins with one request at most, unless a `SIGSTOP` is pending. -/
theorem beginStep_ran (t : Tid) (m : Machine) :
    Triple (fun s => NoSigstopPending t s ∧ Ran t [] m s) (beginStep t)
      (fun _ => Ran t [.singleStep] m) (fun _ => Ran t [] m) := by
  refine Triple.bind (keeps_noSigstopPending (samplePc_quiet t) (samplePc_roster t) m) fun pc => ?_
  refine Triple.bind (keeps_noSigstopPending (liftSiteAt_quiet pc)
    (liftSiteAt_respects fun bp => liftSite_roster t bp pc) m) fun toReenable => ?_
  have hswallow : Triple (fun s => NoSigstopPending t s ∧ Ran t [] m s) (swallowPendingSigstop t)
      (fun _ => Ran t [] m) (fun _ => Ran t [] m) := by
    rintro s ⟨hpending, hran⟩
    have hran' := hran.trans (swallowPendingSigstop_quiet hpending)
    exact ⟨fun u s' heq => by rwa [heq] at hran', fun e s' heq => by rwa [heq] at hran'⟩
  refine Triple.bind hswallow fun _ s hran => ?_
  rcases ptraceRun_cases .singleStep t s with ⟨-, h⟩ | ⟨-, h⟩
  · have hstep : Ran t [.singleStep] s (s.letRun t .singleStep) :=
      ⟨[.letRun t .singleStep s.moment], rfl, by simp [requests]⟩
    rw [bind_of_ok h]
    exact Triple.of_eq_ok rfl (hran.trans hstep)
  · rw [bind_of_ok h]
    exact Triple.of_eq_error rfl hran

/-- A thread was let run with a request other than a single step. -/
def RanOn (t : Tid) (m m' : Machine) : Prop :=
  ∃ recent request moment, m'.trace = recent ++ m.trace ∧
    Observation.letRun t request moment ∈ recent ∧ request ≠ .singleStep

theorem RanOn.after_remembers (h : Remembers m m') (h' : RanOn t m' m'') : RanOn t m m'' := by
  obtain ⟨early, hearly⟩ := h
  obtain ⟨recent, request, moment, htrace, hmem, hne⟩ := h'
  refine ⟨recent ++ early, request, moment, ?_, List.mem_append_left early hmem, hne⟩
  rw [htrace, ← hearly, List.append_assoc]

theorem RanOn.before_remembers (h : RanOn t m m') (h' : Remembers m' m'') : RanOn t m m'' := by
  obtain ⟨recent, request, moment, htrace, hmem, hne⟩ := h
  obtain ⟨late, hlate⟩ := h'
  refine ⟨late ++ recent, request, moment, ?_, List.mem_append_right late hmem, hne⟩
  rw [← hlate, htrace, List.append_assoc]

theorem RanOn.letRun (m : Machine) {request : RunRequest} (hne : request ≠ .singleStep) :
    RanOn t m (m.letRun t request) :=
  ⟨[.letRun t request m.moment], request, m.moment, rfl, List.mem_singleton_self _, hne⟩

theorem mem_requests {request : RunRequest} {moment : Moment} {events : List Observation}
    (h : Observation.letRun t request moment ∈ events) : request ∈ requests t events := by
  obtain ⟨recent, earlier, rfl⟩ := List.append_of_mem h
  rw [requests_append]
  refine List.mem_append_right _ ?_
  simp [requests]

theorem RanOn.exceeds_oneStep (h : RanOn t m m') : ¬ AtMostOneStep t m m' := by
  obtain ⟨recent, request, moment, htrace, hmem, hne⟩ := h
  have hrequest := mem_requests hmem
  rintro (⟨recent', htrace', hruns⟩ | ⟨recent', htrace', hruns⟩) <;>
    rw [List.append_cancel_right (htrace'.symm.trans htrace)] at hruns <;>
    rw [hruns] at hrequest
  · cases hrequest
  · exact hne (List.mem_singleton.mp hrequest)

/-- The requests of a run from the start. -/
theorem AtMostOneStep.requests (h : AtMostOneStep t m m') (hstart : m.trace = []) :
    Gsdb.requests t m'.trace = [] ∨ Gsdb.requests t m'.trace = [.singleStep] := by
  rcases h with ⟨recent, htrace, hruns⟩ | ⟨recent, htrace, hruns⟩ <;>
    rw [hstart, List.append_nil] at htrace <;> rw [htrace]
  · exact .inl hruns
  · exact .inr hruns

theorem remembers_of_eq {α : Type} {x : Debugger α} (h : Respects Remembers x)
    {r : Except Failure α} (hx : x m = (r, m')) : Remembers m m' := by
  have hm := h m
  rwa [hx] at hm

theorem liftSiteAt_remembers (pc : Word) : Respects Remembers (liftSiteAt tid pc) :=
  liftSiteAt_respects fun bp => Respects.bind (siteFrame_remembers.disableSite bp) fun _ =>
    Respects.modify fun _ => .observe rfl

theorem reenable_remembers (toReenable : Bool) (pc : Word) :
    Respects Remembers (reenable toReenable pc) :=
  reenable_respects (fun bp => Respects.bind (siteFrame_remembers.enableSite bp) fun _ =>
    Respects.modify fun _ => .observe rfl) toReenable

theorem sendContinue_ranOn {u : PUnit} (h : sendContinue t m = (.ok u, m')) : RanOn t m m' := by
  rw [sendContinue, bind_of_ok (get_apply m)] at h
  obtain ⟨ran, m₁, hrun, hrest⟩ := Eff.bind_eq_ok.mp h
  have hrunning : RanOn t m m₁ := by
    rcases ptraceRun_cases (if m.process.policy.mode = .none then .cont else .syscall) t m with
      ⟨-, hrun'⟩ | ⟨-, hrun'⟩ <;> rw [hrun'] at hrun <;> cases hrun
    · refine RanOn.letRun m ?_
      split <;> simp
    · cases hrest
  refine hrunning.before_remembers ?_
  cases ran with
  | false => cases hrest
  | true =>
      refine remembers_of_eq (Respects.bind (Respects.asks _) fun thread => ?_) hrest
      exact Respects.bind (Respects.modify fun _ => .of_eq rfl) fun _ =>
        Respects.modify fun _ => .of_eq rfl

/-- A `SIGSTOP` that is pending for a stopped thread is collected by letting the
thread run on. -/
theorem swallowPendingSigstop_ranOn (handlers : HitHandlers) (hpending : ¬ NoSigstopPending t m)
    {u : PUnit} (h : swallowPendingSigstop t m = (.ok u, m')) : RanOn t m m' := by
  obtain ⟨thread, m₁, hat, hrest⟩ := Eff.bind_eq_ok.mp h
  obtain ⟨hthread, rfl⟩ := threadAt_eq_ok hat
  have hflag : thread.pendingSigstop = true ∧ m₁.isStopped t = true := by
    by_contra hnot
    refine hpending fun thread' hthread' hflag => ?_
    rw [hthread] at hthread'
    cases hthread'
    simpa [hflag] using hnot
  rw [if_pos hflag.1] at hrest
  rcases ptraceRun_cases .cont t m₁ with ⟨-, hrun⟩ | ⟨hnot, -⟩
  · have hcollect : Respects Remembers (waitpid .swallowPendingSigstop (some t) >>= fun _ =>
        updateThread t fun t => { t with pendingSigstop := false }) :=
      Respects.bind ((stopFrame_remembers handlers).waitpid_some trivial) fun _ =>
        Respects.modify fun _ => .of_eq rfl
    rw [bind_of_ok hrun] at hrest
    exact RanOn.before_remembers (RanOn.letRun m₁ (by decide)) (remembers_of_eq hcollect hrest)
  · rw [hflag.2] at hnot
    cases hnot

/-- A step that begins with a pending `SIGSTOP` lets the thread run on. -/
theorem beginStep_ranOn (handlers : HitHandlers) (hpending : ¬ NoSigstopPending t m)
    {begun : Bool × Word} (h : beginStep t m = (.ok begun, m')) : RanOn t m m' := by
  have hframe := stopFrame_remembers handlers
  obtain ⟨pc, m₁, hsample, hrest⟩ := Eff.bind_eq_ok.mp h
  obtain ⟨toReenable, m₂, hlift, hrest₂⟩ := Eff.bind_eq_ok.mp hrest
  obtain ⟨u, m₃, hswallow, hrest₃⟩ := Eff.bind_eq_ok.mp hrest₂
  have hbefore : Remembers m m₂ := trans_of Remembers
    (remembers_of_eq (hframe.resumeFrame trivial).samplePc hsample)
    (remembers_of_eq (liftSiteAt_remembers pc) hlift)
  have hroster : m₂.roster = m.roster :=
    ((liftSiteAt_respects fun bp => liftSite_roster t bp pc).apply_eq hlift).trans
      ((samplePc_roster t).apply_eq hsample)
  have hpending₂ : ¬ NoSigstopPending t m₂ := fun hno => hpending (hno.of_roster hroster.symm)
  have hafter : Remembers m₃ m' := by
    obtain ⟨ran, m₄, hrun, hend⟩ := Eff.bind_eq_ok.mp hrest₃
    refine trans_of Remembers (remembers_of_eq ((hframe.resumeFrame trivial).ptraceRun _) hrun) ?_
    exact remembers_of_eq (Respects.ite (Respects.throw _) (Respects.pure _)) hend
  have hran := swallowPendingSigstop_ranOn handlers hpending₂ hswallow
  exact RanOn.after_remembers hbefore (hran.before_remembers hafter)

/-- A wait whose first report is passed over lets the thread run on. -/
theorem waitOnSignal_ranOn {event : WaitEvent} {rest : List WaitAnswer} {reason : StopReason}
    (hscript : m.kernel.script = .report event :: rest) (hmay : m.mayReport (some t) event = true)
    (hpassed : passesOver handlers event ((m.deliver .waitOnSignal event).setScript rest) = true)
    (h : waitOnSignal handlers (some t) m = (.ok reason, m')) : RanOn t m m' := by
  have hframe := stopFrame_remembers handlers
  obtain rfl := Machine.mayReport_some hmay
  have hwait : waitpid .waitOnSignal (some event.tid) m =
      (.ok (some event), (m.deliver .waitOnSignal event).setScript rest) := by
    simp only [waitpid, bind_of_ok (get_apply m), hscript, hmay, if_true]
    rfl
  rw [waitOnSignal, bind_of_ok (get_apply m), waitOnSignalLoop, bind_of_ok hwait] at h
  obtain ⟨final, m₁, hsignal, hrest⟩ := Eff.bind_eq_ok.mp h
  have hfinal := (handleSignal_eq_none_iff (onThrow_eq_ok hsignal)).mpr hpassed
  subst hfinal
  obtain ⟨u, m₂, hresume, hagain⟩ := Eff.bind_eq_ok.mp hrest
  rw [resume, bind_of_ok (get_apply m₁)] at hresume
  obtain ⟨_, m₃, hover, hcontinue⟩ := Eff.bind_eq_ok.mp hresume
  have hdelivered : Remembers m ((m.deliver .waitOnSignal event).setScript rest) := .observe rfl
  have hhandled := remembers_of_eq (Respects.onThrow
    (hframe.handleSignal trivial (StopReason.ofWait_syscallInfo _ _) true)
    (hframe.waitFrame.recordFailedStop trivial (hframe.stopRunningThreads fun _ => trivial)))
      hsignal
  have hbefore := trans_of Remembers (trans_of Remembers hdelivered hhandled)
    (remembers_of_eq (hframe.resumeFrame trivial).stepOverBreakpoint hover)
  have hafter := remembers_of_eq (hframe.waitOnSignalLoop (fun _ => trivial) _ _) hagain
  exact RanOn.after_remembers hbefore ((sendContinue_ranOn hcontinue).before_remembers hafter)

/-- No `SIGSTOP` is pending for the thread when it is stepped, and the first state
change that is reported of it is not one that `wait_on_signal` passes over. -/
structure StepsCleanly (handlers : HitHandlers) (t : Tid) (m : Machine) : Prop where
  noSigstop : NoSigstopPending t m
  reported : ∀ begun m₁ event rest, beginStep t m = (.ok begun, m₁) →
    m₁.kernel.script = .report event :: rest → m₁.mayReport (some t) event = true →
    passesOver handlers event ((m₁.deliver .waitOnSignal event).setScript rest) = false

theorem atMostOneStep_of_stepsCleanly (hclean : StepsCleanly handlers t m)
    {r : Except Failure StopReason}
    (h : stepInstruction handlers (some t) m = (r, m')) : AtMostOneStep t m m' := by
  rw [stepInstruction, bind_of_ok (get_apply m)] at h
  obtain ⟨hok, herror⟩ := beginStep_ran t m m ⟨hclean.noSigstop, refl_of _ m⟩
  rcases hbegin : beginStep t m with ⟨e | ⟨toReenable, pc⟩, m₁⟩
  · rw [Option.getD_some, bind_of_error hbegin] at h
    cases h
    exact .inl (herror e _ hbegin)
  · rw [Option.getD_some, bind_of_ok hbegin] at h
    have hwait : Ran t [] m₁ (waitOnSignal handlers (some t) m₁).2 :=
      waitOnSignal_quiet fun event rest => hclean.reported _ m₁ event rest hbegin
    have hrest := related_bind hwait fun reason s _ => Respects.bind (reenable_quiet toReenable pc)
      (fun _ => Respects.pure reason) s
    have hend : ((waitOnSignal handlers (some t) >>= fun reason =>
        reenable toReenable pc >>= fun _ => Pure.pure reason) m₁).2 = m' := congrArg Prod.snd h
    rw [hend] at hrest
    exact .inr ((hok _ m₁ hbegin).trans hrest)

theorem stepsCleanly_of_atMostOneStep {reason : StopReason}
    (h : stepInstruction handlers (some t) m = (.ok reason, m')) (hone : AtMostOneStep t m m') :
    StepsCleanly handlers t m := by
  have hframe := stopFrame_remembers handlers
  rw [stepInstruction, bind_of_ok (get_apply m), Option.getD_some] at h
  obtain ⟨⟨toReenable, pc⟩, m₁, hbegin, hrest⟩ := Eff.bind_eq_ok.mp h
  obtain ⟨reason', m₂, hwait, hrest₂⟩ := Eff.bind_eq_ok.mp hrest
  have hafter : Remembers m₂ m' := remembers_of_eq (Respects.bind
    (reenable_remembers toReenable pc) fun _ => Respects.pure reason') hrest₂
  have hbegun : Remembers m m₁ := remembers_of_eq
    (Respects.bind (hframe.resumeFrame trivial).samplePc fun pc =>
      Respects.bind (liftSiteAt_remembers pc) fun _ =>
    Respects.bind (hframe.resumeFrame trivial).swallowPendingSigstop fun _ =>
    Respects.bind ((hframe.resumeFrame trivial).ptraceRun _) fun _ =>
    Respects.ite (Respects.throw _) (Respects.pure _)) hbegin
  have hwaited : Remembers m₁ m₂ :=
    remembers_of_eq (hframe.waitOnSignal (fun _ => trivial) (some t)) hwait
  constructor
  · by_contra hpending
    have hran := beginStep_ranOn handlers hpending hbegin
    exact (hran.before_remembers (trans_of Remembers hwaited hafter)).exceeds_oneStep hone
  · intro begun s event rest hbegin' hscript hmay
    rw [hbegin] at hbegin'
    obtain ⟨-, rfl⟩ := Prod.mk.inj hbegin'
    by_contra hpassed
    have hran := waitOnSignal_ranOn hscript hmay (Bool.not_eq_false _ ▸ hpassed) hwait
    exact (RanOn.after_remembers hbegun (hran.before_remembers hafter)).exceeds_oneStep hone

/-- `step_instruction` lets its thread run for one single step at most if the
step is clean, and if it returns only then. -/
theorem atMostOneStep_iff_stepsCleanly (handlers : HitHandlers) (otid : Option Tid) (m m' : Machine)
    (r : Except Failure StopReason) (h : stepInstruction handlers otid m = (r, m')) :
    (StepsCleanly handlers (otid.getD m.process.currentThread) m →
      AtMostOneStep (otid.getD m.process.currentThread) m m') ∧
    ∀ reason, r = .ok reason → (AtMostOneStep (otid.getD m.process.currentThread) m m' ↔
      StepsCleanly handlers (otid.getD m.process.currentThread) m) := by
  have hsome : stepInstruction handlers (some (otid.getD m.process.currentThread)) m = (r, m') := h
  refine ⟨fun hclean => atMostOneStep_of_stepsCleanly hclean hsome, ?_⟩
  rintro reason rfl
  exact ⟨stepsCleanly_of_atMostOneStep hsome,
    fun hclean => atMostOneStep_of_stepsCleanly hclean hsome⟩

end Steps

namespace StepInstructionWitness

open Scenario

/-- Handlers that let the thread go on. -/
def passing : HitHandlers := ⟨fun _ _ => ([], .ok true)⟩

/-- The thread stepped, and a trap follows. -/
def trapped : Machine := machine [1] [stop 1 sigtrap .trapTrace 0x1001]

/-- The instruction stepped is a system call that clones the thread. -/
def cloned : Machine :=
  machine [1] [.report ⟨1, .stopped sigtrap eventClone, .other, userAt 0x1002, fun _ => 0⟩,
    stop 1 sigtrap .trapTrace 0x2000]

theorem trapped_stepsCleanly : StepsCleanly passing 1 trapped where
  noSigstop := fun thread hthread hpending => by
    have hnew := machine_thread? [1] _ hthread
    subst hnew
    cases hpending
  reported := fun begun m₁ event rest hbegin hscript _ => by
    have hbegun : m₁ = (beginStep 1 trapped).2 := (congrArg Prod.snd hbegin).symm
    subst hbegun
    obtain ⟨hreport, rfl⟩ := List.cons.inj hscript
    cases hreport
    decide +kernel

theorem atMostOneStep_iff_stepsCleanly_trapped :
    requests 1 (stepInstruction passing none trapped).2.trace = [.singleStep] ∧
      AtMostOneStep 1 trapped (stepInstruction passing none trapped).2 :=
  ⟨by decide +kernel,
    (atMostOneStep_iff_stepsCleanly passing none trapped _ _ rfl).1 trapped_stepsCleanly⟩

/-- After the clone event the thread is continued. -/
theorem not_atMostOneStep :
    ¬ ∀ (handlers : HitHandlers) (otid : Option Tid) (m m' : Machine)
      (r : Except Failure StopReason), stepInstruction handlers otid m = (r, m') →
      AtMostOneStep (otid.getD m.process.currentThread) m m' := by
  intro hall
  have hruns : requests 1 (stepInstruction passing (some 1) cloned).2.trace =
      [.cont, .singleStep] := by
    decide +kernel
  have hone : AtMostOneStep 1 cloned (stepInstruction passing (some 1) cloned).2 :=
    hall passing (some 1) cloned _ (stepInstruction passing (some 1) cloned).1 rfl
  rcases hone.requests rfl with hnone | hstep
  · rw [hnone] at hruns
    cases hruns
  · rw [hstep] at hruns
    cases hruns

end StepInstructionWitness

end Gsdb
