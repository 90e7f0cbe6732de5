/-
Calling a function in the inferior: the thread is sent to the function with a
return address on its stack, and the next stop that is reported is taken for
the return.  The registers the call gives back are followed to the delivery
they come from.
-/
import Gsdb.ProcessMemory
import Gsdb.ThreadFrame

namespace Gsdb

open ByteMemory Effects Eff Debugger

namespace Debugger

/-- A reference to the registers of a thread, which dangles when the thread
was dropped. -/
def regsAt (tid : Tid) : Debugger Registers :=
  asks fun m => match m.thread? tid with
    | some thread => .ok thread.regs
    | none => .error (.undefined "dangling registers")

/-- Set a register for a call. -/
def commitRegister (tid : Tid) (id : RegisterId) (val : Value) : Debugger PUnit := do
  writeRegister tid id val true
  modify (Machine.observe (.committed tid))

/-- Send a thread to a function, wait for a stop, take the registers there and
put the old ones back. -/
def callThread (handlers : HitHandlers) (funcAddr returnAddr : Word)
    (regsToRestore : Registers) (tid : Tid) : Debugger Registers := do
  commitRegister tid .rip (.u64 funcAddr)
  let rsp ← readRegister tid .rsp
  writeMemory (rsp - 8) (toLe 8 returnAddr.toNat)
  commitRegister tid .rsp (.u64 (rsp - 8))
  resume (some tid)
  let reason ← waitOnSignal handlers (some tid)
  if reason.reason ≠ .stopped then fail "Function call failed!"
  else do
    let newRegs ← regsAt tid
    updateThread tid fun t => { t with regs := regsToRestore }
    flush tid
    pure newRegs

/-- `process::inferior_call`.  The notification of the target at its end, which
swallows every exception, leaves no mark here. -/
def inferiorCall (handlers : HitHandlers) (funcAddr returnAddr : Word)
    (regsToRestore : Registers) (otid : Option Tid) : Debugger Registers := do
  let m ← get
  let tid := otid.getD m.process.currentThread
  let newRegs ← callThread handlers funcAddr returnAddr regsToRestore tid
  modify (Machine.observe (.restored tid))
  pure newRegs

end Debugger

namespace Delivery

/-- A trap of a software breakpoint. -/
def isSoftwareBreak (delivery : Delivery) : Bool :=
  match delivery.status with
  | .stopped sig _ => sig = sigtrap ∧ delivery.siCode = .siKernel
  | _ => false

/-- Where a thread stopped: a software breakpoint has executed its one byte. -/
def location (delivery : Delivery) : Word :=
  if delivery.isSoftwareBreak ∧ delivery.atSite then User.pc delivery.user - 1
  else User.pc delivery.user

end Delivery

/-- A register file as of a delivered stop. -/
structure RegistersAt (regs : Registers) (delivery : Delivery) : Prop where
  pc : User.pc regs.data = delivery.location
  others : ∀ i, isRegisterByte i → ¬ isDebugByte i → ¬ isPcByte i →
    regs.data i = delivery.user i

/-- The cached registers of a thread that is stopped are those of the last
delivery about it. -/
def Decoded (t : Tid) (m : Machine) : Prop :=
  ∀ thread, m.thread? t = some thread → thread.state = .stopped →
    ∃ delivery rest, deliveriesOf t m.trace = delivery :: rest ∧
      RegistersAt thread.regs delivery

section Decoding

variable {t : Tid} {handlers : HitHandlers}

/-- A stop of a thread was just delivered and nothing was done about it. -/
structure FreshStop (t : Tid) (delivery : Delivery) (m : Machine) : Prop where
  attached : m.process.isAttached = true
  deliveries : ∃ rest, deliveriesOf t m.trace = delivery :: rest
  user : (m.kernel.threads t).user = delivery.user
  siCode : (m.kernel.threads t).siCode = delivery.siCode
  atSite : delivery.atSite =
    m.process.breakpointSites.enabledStoppointAtAddress (User.pc delivery.user - 1)

/-- Bookkeeping in the cache and the history. -/
structure Quiet (m m' : Machine) : Prop where
  kernel : m'.kernel = m.kernel
  sites : m'.process.breakpointSites = m.process.breakpointSites
  attached : m'.process.isAttached = m.process.isAttached
  deliveries : ∀ t, deliveriesOf t m'.trace = deliveriesOf t m.trace

instance : Std.Refl Quiet := ⟨fun _ => ⟨rfl, rfl, rfl, fun _ => rfl⟩⟩

instance : IsTrans Machine Quiet := ⟨fun _ _ _ h h' =>
  ⟨h'.kernel.trans h.kernel, h'.sites.trans h.sites, h'.attached.trans h.attached,
    fun t => (h'.deliveries t).trans (h.deliveries t)⟩⟩

theorem FreshStop.of_quiet {delivery : Delivery} {m m' : Machine} (h : FreshStop t delivery m)
    (hquiet : Quiet m m') : FreshStop t delivery m' where
  attached := hquiet.attached.trans h.attached
  deliveries := by rw [hquiet.deliveries]; exact h.deliveries
  user := by rw [hquiet.kernel]; exact h.user
  siCode := by rw [hquiet.kernel]; exact h.siCode
  atSite := by rw [hquiet.sites]; exact h.atSite

theorem updateThread_quiet (tid : Tid) (f : ThreadState → ThreadState) :
    Respects Quiet (updateThread tid f) :=
  fun _ => ⟨rfl, rfl, rfl, fun _ => rfl⟩

theorem trackThread_quiet (reason : StopReason) : Respects Quiet (trackThread reason) := by
  refine Respects.bind Respects.get fun m => ?_
  split
  · exact Respects.pure _
  · refine Respects.bind (Respects.modify fun m => ⟨rfl, rfl, rfl, fun _ => rfl⟩) fun _ => ?_
    exact Respects.bind (Respects.modify fun m => ⟨rfl, rfl, rfl, fun _ => rfl⟩) fun _ =>
      Respects.pure _

theorem augmentStopReason_quiet (reason : StopReason) :
    Respects Quiet (augmentStopReason reason) := by
  intro m
  rcases augmentStopReason_cases reason m with ⟨e, h⟩ | ⟨info, -, -, h⟩ | ⟨-, h⟩ <;> rw [h] <;>
    exact ⟨rfl, rfl, rfl, fun _ => rfl⟩

/-- The cached registers of a thread are those of a delivery. -/
def Loaded (t : Tid) (delivery : Delivery) (m : Machine) : Prop :=
  ∀ thread, m.thread? t = some thread → ∀ i, isRegisterByte i → ¬ isDebugByte i →
    thread.regs.data i = delivery.user i

theorem readAllRegisters_quiet (tid : Tid) : Respects Quiet (readAllRegisters tid) :=
  Respects.bind (Respects.asks _) fun _ => Respects.bind Respects.get fun _ =>
    Respects.ite (updateThread_quiet _ _) (Respects.throw _)

theorem readAllRegisters_loaded {delivery : Delivery} {m m' : Machine} {u : PUnit}
    (hfresh : FreshStop t delivery m) (h : readAllRegisters t m = (.ok u, m')) :
    Loaded t delivery m' := by
  obtain ⟨thread, m₁, hat, hrest⟩ := Eff.bind_eq_ok.mp h
  obtain ⟨hthread, rfl⟩ := threadAt_eq_ok hat
  rw [bind_of_ok (get_apply _)] at hrest
  split at hrest
  · obtain rfl : _ = m' := congrArg Prod.snd hrest
    intro thread' hthread' i hi hdebug
    rw [Machine.thread?_updateThread, hthread] at hthread'
    cases hthread'
    rw [← hfresh.user]
    exact reload_apply _ _ hi
  · cases hrest

theorem isPcByte.not_isDebugByte {i : Nat} (h : isPcByte i) : ¬ isDebugByte i := by
  rintro ⟨hlow, _⟩
  obtain ⟨_, hi⟩ := h
  simp only [debugregOffset] at hlow
  omega

theorem Registers.word_write (data : User) (offset : Nat) (x : Word) :
    Registers.word (data.write offset (toLe 8 x.toNat)) 64 offset = x := by
  have hread := Area.read_write data offset (toLe 8 x.toNat)
  rw [toLe_length] at hread
  apply BitVec.eq_of_toNat_eq
  rw [Registers.word, hread, BitVec.toNat_ofNat, ofLe_toLe]
  have hlt := x.isLt
  norm_num
  omega

theorem User.pc_write (data : User) (address : Word) :
    User.pc (data.write 128 (toLe 8 address.toNat)) = address :=
  Registers.word_write data 128 address

theorem gpr64_widen (id : RegisterId) (name : String) (dwarfId : Int) (offset : Nat)
    (x : Word) : (widen (gpr64 id name dwarfId offset) (.u64 x)).toNat = x.toNat := by
  simp only [widen, BitVec.toNat_setWidth]
  have := x.isLt
  omega

/-- A written general purpose register, in the cache and in the kernel. -/
theorem writeRegister_gpr64_eq_ok {id : RegisterId} {name : String} {dwarfId : Int}
    {offset : Nat} (hinfo : registerInfoById id = .ok (gpr64 id name dwarfId offset))
    (haligned : offset / 8 * 8 = offset) {x : Word} {tid : Tid} {m m' : Machine} {u : PUnit}
    (h : writeRegister tid id (.u64 x) true m = (.ok u, m')) :
    ∃ thread, m.thread? tid = some thread ∧ m.isStopped tid = true ∧
      m' = (m.setRegs tid { thread.regs with
        data := thread.regs.data.write offset (toLe 8 x.toNat) }).setUser tid
          ((m.kernel.threads tid).user.write offset (toLe 8 x.toNat)) := by
  rcases writeRegister_cases hinfo tid (.u64 x) m with
    ⟨e, hrun⟩ | ⟨thread, regs, hthread, hregs, ⟨-, e, hrun⟩ | ⟨hstopped, hrun⟩⟩
  · rw [hrun] at h
    cases h
  · rw [hrun] at h
    cases h
  · rw [hrun] at h
    obtain rfl := (congrArg Prod.snd h).symm
    refine ⟨thread, hthread, hstopped, ?_⟩
    have hoffset : (gpr64 id name dwarfId offset).offset = offset := Nat.zero_add offset
    have hsize : (gpr64 id name dwarfId offset).size = 8 := rfl
    have hkind : ¬ (gpr64 id name dwarfId offset).type = .fpr := by simp [gpr64]
    have hdata := writeData_eq_ok hregs
    rw [hoffset, hsize, gpr64_widen] at hdata
    have hread := Area.read_write thread.regs.data offset (toLe 8 x.toNat)
    rw [toLe_length] at hread
    rw [hdata, committed, if_neg hkind, hoffset, haligned, hread]

/-- A written program counter. -/
theorem setPc_eq_ok {address : Word} {tid : Tid} {m m' : Machine} {u : PUnit}
    (h : setPc address tid m = (.ok u, m')) :
    ∃ thread, m.thread? tid = some thread ∧ m.isStopped tid = true ∧
      m' = (m.setRegs tid { thread.regs with
        data := thread.regs.data.write 128 (toLe 8 address.toNat) }).setUser tid
          ((m.kernel.threads tid).user.write 128 (toLe 8 address.toNat)) :=
  writeRegister_gpr64_eq_ok rip_info rfl h

theorem RegistersAt.of_same {thread thread' : ThreadState} {delivery : Delivery}
    (h : SameCached true thread thread') (hregs : RegistersAt thread.regs delivery) :
    RegistersAt thread'.regs delivery where
  pc := by
    rw [← hregs.pc]
    exact User.pc_congr fun i hi => h.data i fun _ => hi.not_isDebugByte
  others := fun i hi hdebug hpc => by
    rw [h.data i fun _ => hdebug]
    exact hregs.others i hi hdebug hpc

theorem SameThread.decoded {m m' : Machine} (h : SameThread true t m m') (hm : Decoded t m) :
    Decoded t m' := by
  intro thread' hthread' hstate
  obtain ⟨thread, hthread, hsame⟩ := h.cached thread' hthread'
  obtain ⟨delivery, rest, hdeliveries, hregs⟩ := hm thread hthread (hsame.state ▸ hstate)
  exact ⟨delivery, rest, h.deliveries.trans hdeliveries, hregs.of_same hsame⟩

theorem tame_true (m : Machine) : Tame true m := fun h => by cases h

theorem handlers_tame_true (handlers : HitHandlers) : handlers.Tame true := fun h => by cases h

/-- Only the stop that was waited for can be passed over at a trap. -/
theorem handleTrap_restart {reason : StopReason} {isMainStop : Bool} {m m' : Machine}
    (h : handleTrap handlers reason isMainStop m = (.ok true, m')) : isMainStop = true := by
  obtain ⟨pc, m₁, -, hrest⟩ := Eff.bind_eq_ok.mp h
  rw [bind_of_ok (get_apply _)] at hrest
  split at hrest
  · obtain ⟨_, m₂, -, hrest⟩ := Eff.bind_eq_ok.mp hrest
    obtain ⟨index, m₃, -, hrest⟩ := Eff.bind_eq_ok.mp hrest
    obtain ⟨bp, m₄, -, hrest⟩ := Eff.bind_eq_ok.mp hrest
    cases hparent : bp.parent with
    | none =>
        rw [hparent] at hrest
        cases hrest
    | some parent =>
        rw [hparent] at hrest
        obtain ⟨restart, m₅, -, hrest⟩ := Eff.bind_eq_ok.mp hrest
        have hboth : (restart && isMainStop) = true :=
          Except.ok.inj (congrArg Prod.fst hrest)
        exact (Bool.and_eq_true_iff.mp hboth).2
  split at hrest
  · obtain ⟨id, m₂, -, hrest⟩ := Eff.bind_eq_ok.mp hrest
    cases id with
    | inl _ => cases hrest
    | inr id =>
        obtain ⟨_, m₃, -, hrest⟩ := Eff.bind_eq_ok.mp hrest
        cases hrest
  · have hboth := Except.ok.inj (congrArg Prod.fst hrest)
    simp only [Bool.and_eq_true] at hboth
    exact hboth.1.2

/-- After a trap was handled the cached registers are those of the stop, with
the program counter on the breakpoint that was hit. -/
theorem handleTrap_registersAt {delivery : Delivery} {reason : StopReason} {isMainStop : Bool}
    {m m' : Machine} {restart : Bool} (hfresh : FreshStop t delivery m)
    (hloaded : Loaded t delivery m) (htid : reason.tid = t)
    (htrap : reason.trapReason = some .softwareBreak ↔ delivery.isSoftwareBreak = true)
    (h : handleTrap handlers reason isMainStop m = (.ok restart, m')) :
    (∀ thread, m'.thread? t = some thread → RegistersAt thread.regs delivery) ∧
      deliveriesOf t m'.trace = deliveriesOf t m.trace := by
  have hsignal : SignalFrame handlers (t + 1) (LeavesThread true t) :=
    (stopFrame_leaves (handlers_tame_true handlers)).signalFrame t.succ_ne_self
  obtain ⟨pc, m₁, hpc, hrest⟩ := Eff.bind_eq_ok.mp h
  obtain ⟨rfl, thread, hthread, rfl⟩ := getPc_eq_ok hpc
  rw [htid] at hthread
  have hsame : User.pc thread.regs.data = User.pc delivery.user :=
    User.pc_congr fun i hi => hloaded thread hthread i hi.isRegisterByte hi.not_isDebugByte
  rw [bind_of_ok (get_apply _), hsame, ← hfresh.atSite] at hrest
  split at hrest
  · rename_i hhit
    have hlocation : delivery.location = User.pc delivery.user - 1 :=
      if_pos ⟨htrap.mp hhit.1, hhit.2⟩
    obtain ⟨_, m₂, hset, htail⟩ := Eff.bind_eq_ok.mp hrest
    rw [htid] at hset
    obtain ⟨thread', hthread', -, hm₂⟩ := setPc_eq_ok hset
    have hleft : LeavesThread true t m₂ m' := by
      refine Respects.apply_eq ?_ htail
      refine Respects.bind (Respects.ofExcept _) fun index => ?_
      refine Respects.bind (Respects.asks _) fun bp => ?_
      split
      · exact Respects.pure _
      · exact Respects.bind (hsignal.toDecodeFrame.notifyHit _) fun _ => Respects.pure _
    replace hleft := (hleft (tame_true m₂)).2
    have hdeliveries : deliveriesOf t m₂.trace = deliveriesOf t m₁.trace := by rw [hm₂]; rfl
    refine ⟨fun last hlast => ?_, hleft.deliveries.trans hdeliveries⟩
    obtain ⟨middle, hmiddle, hcached⟩ := hleft.cached last hlast
    refine RegistersAt.of_same hcached ?_
    rw [hm₂] at hmiddle
    change (m₁.setRegs t _).thread? t = some middle at hmiddle
    rw [Machine.thread?_setRegs, hthread'] at hmiddle
    cases hmiddle
    refine ⟨by rw [hlocation]; exact User.pc_write _ _, fun i hi hdebug hpcByte => ?_⟩
    rw [← hloaded thread' hthread' i hi hdebug]
    refine Area.write_outside ?_
    unfold isPcByte at hpcByte
    rw [toLe_length]
    omega
  · rename_i hmiss
    have hlocation : delivery.location = User.pc delivery.user :=
      if_neg fun hhit => hmiss ⟨htrap.mpr hhit.1, hhit.2⟩
    have hleft : LeavesThread true t m₁ m' := by
      refine Respects.apply_eq (Respects.ite ?_ (Respects.pure _)) hrest
      refine Respects.bind (DecodeFrame.getCurrentHardwareStoppoint _) fun id => ?_
      cases id with
      | inl _ => exact Respects.pure _
      | inr id => exact Respects.bind (hsignal.toDecodeFrame.updateData id) fun _ => Respects.pure _
    replace hleft := (hleft (tame_true m₁)).2
    refine ⟨fun last hlast => ?_, hleft.deliveries⟩
    obtain ⟨middle, hmiddle, hcached⟩ := hleft.cached last hlast
    rw [hthread] at hmiddle
    cases hmiddle
    refine RegistersAt.of_same hcached ⟨hsame.trans hlocation.symm, fun i hi hdebug _ => ?_⟩
    exact hloaded thread hthread i hi hdebug

theorem trackThread_cases (reason : StopReason) (m : Machine) :
    (∃ thread, m.thread? reason.tid = some thread ∧ trackThread reason m = (.ok false, m)) ∨
      ∃ m' thread, trackThread reason m = (.ok true, m') ∧
        m'.thread? reason.tid = some thread ∧ thread.pendingSigstop = false := by
  rw [trackThread, bind_of_ok (get_apply m)]
  cases hthread : m.thread? reason.tid with
  | some thread => exact .inl ⟨thread, rfl, rfl⟩
  | none =>
      refine .inr ⟨_, newThread, rfl, ?_, rfl⟩
      have hnone : m.process.threads.find? (fun entry => entry.1 = reason.tid) = none := by
        simpa [Machine.thread?] using hthread
      simp [Machine.thread?, Machine.observe, Machine.setProcess, List.find?_append, hnone]

/-- The decoded trap is a software breakpoint exactly when the delivered one
is. -/
theorem augmentStopReason_softwareBreak {delivery : Delivery} {reason : StopReason}
    {m m' : Machine} (hfresh : FreshStop t delivery m)
    (h : augmentStopReason (.ofWait t delivery.status) m = (.ok reason, m'))
    (hstopped : reason.reason = .stopped) :
    (reason.trapReason = some .softwareBreak ↔ delivery.isSoftwareBreak = true) ∧
      (delivery.isSoftwareBreak = true → reason.info = sigtrap) := by
  have hkeeps := (augmentStopReason_keeps h).2
  unfold Delivery.isSoftwareBreak
  cases hstatus : delivery.status with
  | exited code =>
      rw [hstopped, hstatus] at hkeeps
      cases hkeeps
  | signaled sig =>
      rw [hstopped, hstatus] at hkeeps
      cases hkeeps
  | stopped sig event =>
      rw [hstatus] at h
      rcases augmentStopReason_cases (.ofWait t (.stopped sig event)) m with
        ⟨e, h'⟩ | ⟨info, hsyscall, -, h'⟩ | ⟨-, h'⟩
      · rw [h'] at h
        cases h
      · rw [h'] at h
        cases h
        have hsig : sig ≠ sigtrap := by
          change sig = sigtrapSyscall at hsyscall
          rw [hsyscall]
          decide
        simp [StopReason.atSyscall, hsig]
      · rw [h'] at h
        cases h
        have hcode : (m.kernel.threads (StopReason.ofWait t (.stopped sig event)).tid).siCode =
            delivery.siCode := by rw [StopReason.ofWait_tid, hfresh.siCode]
        have hinfo : (StopReason.ofWait t (.stopped sig event)).info = sig := rfl
        simp only [StopReason.withTrap, hcode, hinfo]
        by_cases hsig : sig = sigtrap
        · cases delivery.siCode <;> simp [hsig, SiCode.trapType]
        · simp [hsig]

theorem Loaded.of_augment {delivery : Delivery} {reason reason' : StopReason} {m m' : Machine}
    (h : Loaded t delivery m) (haugment : augmentStopReason reason m = (.ok reason', m')) :
    Loaded t delivery m' := by
  rcases augmentStopReason_cases reason m with ⟨e, h'⟩ | ⟨info, -, -, h'⟩ | ⟨-, h'⟩ <;>
    rw [h'] at haugment <;> cases haugment <;> exact h

/-- Decoding a stop brings the registers of the stop into the cache. -/
theorem handleSignal_registersAt {delivery : Delivery} {isMainStop : Bool} {m m' : Machine}
    {reason : StopReason} (hfresh : FreshStop t delivery m)
    (h : handleSignal handlers (.ofWait t delivery.status) isMainStop m = (.ok (some reason), m')) :
    reason.reason = (StopReason.ofWait t delivery.status).reason ∧
      (reason.reason = .stopped →
        (∀ thread, m'.thread? t = some thread → RegistersAt thread.regs delivery) ∧
          deliveriesOf t m'.trace = deliveriesOf t m.trace) := by
  rw [handleSignal, bind_of_ok (get_apply m)] at h
  split at h
  · cases h
  split at h
  · obtain ⟨isNew, m₁, htrack, hrest⟩ := Eff.bind_eq_ok.mp h
    have hquiet₁ := (trackThread_quiet _).apply_eq htrack
    split at hrest
    · cases hrest
    obtain ⟨thread, m₂, hat, hrest₂⟩ := Eff.bind_eq_ok.mp hrest
    obtain ⟨-, rfl⟩ := threadAt_eq_ok hat
    split at hrest₂
    · obtain ⟨_, m₃, -, hnone⟩ := Eff.bind_eq_ok.mp hrest₂
      cases hnone
    obtain ⟨_, m₃, hload, hrest₃⟩ := Eff.bind_eq_ok.mp hrest₂
    obtain ⟨augmented, m₄, haugment, hrest₄⟩ := Eff.bind_eq_ok.mp hrest₃
    rw [StopReason.ofWait_tid] at hload
    have hquiet₃ := trans_of Quiet hquiet₁ ((readAllRegisters_quiet t).apply_eq hload)
    have hquiet₄ := trans_of Quiet hquiet₃ ((augmentStopReason_quiet _).apply_eq haugment)
    have hfresh₃ := hfresh.of_quiet hquiet₃
    have hfresh₄ := hfresh.of_quiet hquiet₄
    have hloaded := (readAllRegisters_loaded (hfresh.of_quiet hquiet₁) hload).of_augment haugment
    obtain ⟨htid, hkeeps⟩ := augmentStopReason_keeps haugment
    rw [StopReason.ofWait_tid] at htid
    have hresult : reason = augmented ∧ (reason.reason = .stopped →
        (∀ thread, m'.thread? t = some thread → RegistersAt thread.regs delivery) ∧
          deliveriesOf t m'.trace = deliveriesOf t m₄.trace) := by
      split at hrest₄
      · obtain ⟨restart, m₅, htrap, hend⟩ := Eff.bind_eq_ok.mp hrest₄
        split at hend
        · cases hend
        · cases hend
          refine ⟨rfl, fun hstopped => ?_⟩
          have hbreak := (augmentStopReason_softwareBreak hfresh₃ haugment hstopped).1
          exact handleTrap_registersAt hfresh₄ hloaded htid hbreak htrap
      · rename_i hinfo
        cases hrest₄
        refine ⟨rfl, fun hstopped => ⟨fun thread hthread => ?_, rfl⟩⟩
        have hbreak := (augmentStopReason_softwareBreak hfresh₃ haugment hstopped).2
        have hlocation : delivery.location = User.pc delivery.user :=
          if_neg fun hhit => hinfo (hbreak hhit.1)
        refine ⟨?_, fun i hi hdebug _ => hloaded thread hthread i hi hdebug⟩
        rw [hlocation]
        exact User.pc_congr fun i hi =>
          hloaded thread hthread i hi.isRegisterByte hi.not_isDebugByte
    obtain ⟨rfl, hregisters⟩ := hresult
    refine ⟨hkeeps, fun hstopped => ?_⟩
    obtain ⟨hregs, hdeliveries⟩ := hregisters hstopped
    exact ⟨hregs, hdeliveries.trans (hquiet₄.deliveries t)⟩
  · rename_i hnot
    cases h
    refine ⟨rfl, fun hstopped => absurd ⟨hfresh.attached, hstopped⟩ hnot⟩

/-- Decoding does not change whether a thread stopped or ended. -/
theorem handleSignal_keeps {reason final : StopReason} {isMainStop : Bool} {m m' : Machine}
    (h : handleSignal handlers reason isMainStop m = (.ok (some final), m')) :
    final.reason = reason.reason := by
  rw [handleSignal, bind_of_ok (get_apply m)] at h
  split at h
  · cases h
  split at h
  · obtain ⟨isNew, m₁, -, hrest⟩ := Eff.bind_eq_ok.mp h
    split at hrest
    · cases hrest
    obtain ⟨thread, m₂, -, hrest₂⟩ := Eff.bind_eq_ok.mp hrest
    split at hrest₂
    · obtain ⟨_, m₃, -, hnone⟩ := Eff.bind_eq_ok.mp hrest₂
      cases hnone
    obtain ⟨_, m₃, -, hrest₃⟩ := Eff.bind_eq_ok.mp hrest₂
    obtain ⟨augmented, m₄, haugment, hrest₄⟩ := Eff.bind_eq_ok.mp hrest₃
    have hkeeps := (augmentStopReason_keeps haugment).2
    split at hrest₄
    · obtain ⟨restart, m₅, -, hend⟩ := Eff.bind_eq_ok.mp hrest₄
      split at hend
      · cases hend
      · cases hend
        exact hkeeps
    · cases hrest₄
      exact hkeeps
  · cases h
    rfl

/-- A stop is passed over only if it was waited for, or if it is the pending
`SIGSTOP`. -/
theorem handleSignal_none {reason : StopReason} {isMainStop : Bool} {m m' : Machine}
    (h : handleSignal handlers reason isMainStop m = (.ok none, m')) :
    isMainStop = true ∨ ∃ thread, m.thread? reason.tid = some thread ∧
      thread.pendingSigstop = true ∧ reason.info = sigstop ∧ reason.reason = .stopped := by
  rw [handleSignal, bind_of_ok (get_apply m)] at h
  split at h
  · rename_i hclone
    exact .inl hclone.2
  split at h
  · rename_i hstopped
    obtain ⟨isNew, m₁, htrack, hrest⟩ := Eff.bind_eq_ok.mp h
    split at hrest
    · rename_i hnew
      exact .inl (Bool.and_eq_true_iff.mp hnew).2
    obtain ⟨thread, m₂, hat, hrest₂⟩ := Eff.bind_eq_ok.mp hrest
    obtain ⟨hthread, rfl⟩ := threadAt_eq_ok hat
    split at hrest₂
    · rename_i hpending
      rcases trackThread_cases reason m with ⟨known, hknown, htrack'⟩ |
        ⟨m'', new, htrack', hnew, hno⟩
      · rw [htrack'] at htrack
        cases htrack
        exact .inr ⟨thread, hthread, hpending.1, hpending.2, hstopped.2⟩
      · rw [htrack'] at htrack
        cases htrack
        rw [hthread] at hnew
        cases hnew
        rw [hno] at hpending
        cases hpending.1
    obtain ⟨_, m₃, -, hrest₃⟩ := Eff.bind_eq_ok.mp hrest₂
    obtain ⟨augmented, m₄, -, hrest₄⟩ := Eff.bind_eq_ok.mp hrest₃
    split at hrest₄
    · obtain ⟨restart, m₅, htrap, hend⟩ := Eff.bind_eq_ok.mp hrest₄
      split at hend
      · rename_i hrestart
        exact .inl (handleTrap_restart (hrestart ▸ htrap))
      · cases hend
    · cases hrest₄
  · cases h

/-- A state change as the debugger sees it when it is delivered. -/
def WaitEvent.delivery (event : WaitEvent) (waiter : Waiter) (m : Machine) : Delivery :=
  ⟨event.tid, event.status, event.siCode, event.user,
    m.process.breakpointSites.enabledStoppointAtAddress (User.pc event.user - 1), waiter, m.moment⟩

theorem freshStop_deliver {m : Machine} (waiter : Waiter) (event : WaitEvent)
    (script : List WaitAnswer) (hattached : m.process.isAttached = true) :
    FreshStop event.tid (event.delivery waiter m) ((m.deliver waiter event).setScript script) where
  attached := hattached
  deliveries := ⟨deliveriesOf event.tid m.trace, by
    simp [Machine.setScript, Machine.deliver, deliveriesOf, WaitEvent.delivery]⟩
  user := by simp [Machine.setScript, Machine.deliver, WaitEvent.delivery]
  siCode := by simp [Machine.setScript, Machine.deliver, WaitEvent.delivery]
  atSite := rfl

/-- A report is delivered as a fresh stop. -/
theorem waitpid_freshStop {waiter : Waiter} {toAwait : Option Tid} {m m' : Machine}
    {event : WaitEvent} (hattached : m.process.isAttached = true)
    (h : waitpid waiter toAwait m = (.ok (some event), m')) :
    ∃ delivery, delivery.status = event.status ∧ FreshStop event.tid delivery m' ∧
      m'.process = m.process := by
  obtain ⟨-, rest, -, rfl⟩ := waitpid_eq_some h
  exact ⟨event.delivery waiter m, rfl, freshStop_deliver waiter event rest hattached, rfl⟩

theorem waitpid_some_tid {waiter : Waiter} {tid : Tid} {m m' : Machine} {event : WaitEvent}
    (h : waitpid waiter (some tid) m = (.ok (some event), m')) : event.tid = tid :=
  Machine.mayReport_some (waitpid_eq_some h).1

theorem siteFrame_attached : SiteFrame true (Fixes fun m : Machine => m.process.isAttached) where
  slots := fun _ _ _ _ _ => .inl fun _ _ id val _ =>
    writeRegister_respects (fun _ _ => rfl) (fun _ _ => rfl) id val true
  memory := fun _ _ => rfl
  update := fun _ _ _ _ => rfl
  push := fun _ _ _ _ => rfl
  erase := fun _ _ => rfl
  note := fun _ _ _ => rfl

theorem stopFrame_attached (handlers : HitHandlers) :
    StopFrame handlers (fun _ => True) (Fixes fun m : Machine => m.process.isAttached) where
  enableSite := siteFrame_attached.enableSite
  disableSite := siteFrame_attached.disableSite
  action := fun _ _ action _ => by
    cases action with
    | site op => exact siteFrame_attached.run (.inl rfl)
    | breakpoints points => exact Respects.modify fun _ => rfl
  updateThread := fun _ _ _ _ => rfl
  user := fun _ _ _ _ => rfl
  script := fun _ _ => rfl
  deliver := fun _ _ _ _ _ _ _ => rfl
  running := fun _ _ _ _ _ => rfl
  track := fun _ _ _ _ => rfl
  cleanup := fun _ _ => rfl
  process := fun _ _ _ _ _ => rfl
  lifecycle := fun _ _ => rfl
  note := fun _ _ _ => rfl
  augment := fun reason _ _ m => (augmentStopReason_quiet reason m).attached

/-- A thread that the debugger does not take for running. -/
def Settled (t : Tid) (m : Machine) : Prop :=
  ∀ thread, m.thread? t = some thread → thread.state ≠ .running

theorem SameThread.settled {hardware : Bool} {m m' : Machine} (h : SameThread hardware t m m')
    (hm : Settled t m) : Settled t m' := by
  intro thread' hthread'
  obtain ⟨thread, hthread, hsame⟩ := h.cached thread' hthread'
  rw [hsame.state]
  exact hm thread hthread

theorem StopReason.ofWait_reason_ne_running (tid : Tid) (status : WaitStatus) :
    (StopReason.ofWait tid status).reason ≠ .running := by
  cases status <;> intro h <;> cases h

/-- Recording a decoded stop of a thread leaves its decoded registers. -/
theorem decoded_of_recorded (delivery : Delivery) {reason : StopReason} {m : Machine}
    (hdeliveries : reason.reason = .stopped →
      (∀ thread, m.thread? t = some thread → RegistersAt thread.regs delivery) ∧
        ∃ rest, deliveriesOf t m.trace = delivery :: rest) :
    Decoded t (updateThread t (fun thread =>
      { thread with reason := reason, state := reason.reason }) m).2 := by
  intro thread hthread hstate
  rw [Machine.thread?_updateThread] at hthread
  cases hold : m.thread? t with
  | none => rw [hold] at hthread; cases hthread
  | some old =>
      rw [hold] at hthread
      cases hthread
      obtain ⟨hregs, rest, hrest⟩ := hdeliveries hstate
      exact ⟨delivery, rest, hrest, hregs old hold⟩

theorem stopThread_settled {m m' : Machine} {u : PUnit} (hsettled : Settled t m)
    (h : stopThread handlers t m = (.ok u, m')) : m' = m := by
  obtain ⟨thread, m₁, hat, hrest⟩ := Eff.bind_eq_ok.mp h
  obtain ⟨hthread, rfl⟩ := threadAt_eq_ok hat
  rw [if_neg (hsettled thread hthread)] at hrest
  cases hrest
  rfl

/-- Recording a fresh stop that is not passed over decodes it. -/
theorem recordStop_decoded {delivery : Delivery} {m m' : Machine} {u : PUnit}
    (hfresh : FreshStop t delivery m)
    (hpending : (StopReason.ofWait t delivery.status).reason = .stopped →
      ∀ thread, m.thread? t = some thread → thread.pendingSigstop = true →
        (StopReason.ofWait t delivery.status).info ≠ sigstop)
    (h : recordStop handlers t (.ofWait t delivery.status) m = (.ok u, m')) :
    Decoded t m' ∧ Settled t m' := by
  obtain ⟨handled, m₁, hhandled, hupdate⟩ := Eff.bind_eq_ok.mp h
  obtain rfl := (congrArg Prod.snd hupdate).symm
  cases handled with
  | none =>
      rcases handleSignal_none hhandled with hmain | ⟨thread, hthread, hyes, hinfo, hstop⟩
      · cases hmain
      · rw [StopReason.ofWait_tid] at hthread
        exact absurd hinfo (hpending hstop thread hthread hyes)
  | some reason =>
      obtain ⟨hreason, hregisters⟩ := handleSignal_registersAt hfresh hhandled
      refine ⟨decoded_of_recorded delivery fun hstop => ?_, fun thread hthread => ?_⟩
      · obtain ⟨hregs, hdeliveries⟩ := hregisters hstop
        obtain ⟨rest, hrest⟩ := hfresh.deliveries
        exact ⟨hregs, rest, hdeliveries.trans hrest⟩
      · rw [Machine.thread?_updateThread] at hthread
        obtain ⟨old, -, rfl⟩ := Option.map_eq_some_iff.mp hthread
        change reason.reason ≠ .running
        rw [hreason]
        exact StopReason.ofWait_reason_ne_running _ _

theorem notePendingSigstop_quiet (tid : Tid) (reason : StopReason) :
    Respects Quiet (notePendingSigstop tid reason) :=
  Respects.ite (updateThread_quiet tid _) (Respects.pure _)

/-- Stopping a thread decodes its stop. -/
theorem stopThread_decoded {m m' : Machine} {u : PUnit}
    (hattached : m.process.isAttached = true) (hdecoded : Decoded t m)
    (h : stopThread handlers t m = (.ok u, m')) : Decoded t m' ∧ Settled t m' := by
  obtain ⟨thread, m₁, hat, hrest⟩ := Eff.bind_eq_ok.mp h
  obtain ⟨hthread, rfl⟩ := threadAt_eq_ok hat
  split at hrest
  · obtain ⟨_, m₁, hsent, hrest₁⟩ := Eff.bind_eq_ok.mp hrest
    obtain ⟨event, m₂, hwait, hrest₂⟩ := Eff.bind_eq_ok.mp hrest₁
    cases event with
    | none => cases hrest₂
    | some event =>
        have hattached₁ : m₁.process.isAttached = true :=
          (((stopFrame_attached handlers).waitFrame.noteSigstop t thread).apply_eq hsent).trans
            hattached
        obtain ⟨delivery, hstatus, hfresh, -⟩ := waitpid_freshStop hattached₁ hwait
        rw [waitpid_some_tid hwait] at hfresh
        obtain ⟨_, m₃, hnote, hrecord⟩ := Eff.bind_eq_ok.mp hrest₂
        rw [← hstatus] at hnote hrecord
        have hfresh₃ := hfresh.of_quiet ((notePendingSigstop_quiet t _).apply_eq hnote)
        refine recordStop_decoded hfresh₃ (fun hstop thread hthread hyes => ?_) hrecord
        rw [notePendingSigstop, if_pos hstop] at hnote
        obtain rfl := (congrArg Prod.snd hnote).symm
        rw [Machine.thread?_updateThread] at hthread
        obtain ⟨old, -, rfl⟩ := Option.map_eq_some_iff.mp hthread
        exact of_decide_eq_true hyes
  · rename_i hnot
    cases hrest
    refine ⟨hdecoded, fun other hother => ?_⟩
    rw [hthread] at hother
    cases hother
    exact hnot

theorem stopThread_other {tid : Tid} {m m' : Machine} {u : PUnit} (htid : tid ≠ t)
    (h : stopThread handlers tid m = (.ok u, m')) : SameThread true t m m' :=
  (((stopFrame_leaves (handlers_tame_true handlers)).stopThread htid).apply_eq h
    (tame_true m)).2

/-- Stopping all threads leaves a thread that does not run. -/
theorem forEach_stopThread_same {tids : List Tid} {m m' : Machine} {u : PUnit}
    (hsettled : Settled t m) (h : forEach (stopThread handlers) tids m = (.ok u, m')) :
    SameThread true t m m' := by
  induction tids generalizing m with
  | nil =>
      cases h
      exact .refl _
  | cons tid rest ih =>
      obtain ⟨_, m₁, hfirst, hrest⟩ := Eff.bind_eq_ok.mp h
      by_cases htid : tid = t
      · subst htid
        obtain rfl := stopThread_settled hsettled hfirst
        exact ih hsettled hrest
      · have hsame := stopThread_other htid hfirst
        exact hsame.trans (ih (hsame.settled hsettled) hrest)

/-- Stopping all threads decodes the stops of those that run. -/
theorem forEach_stopThread_decoded {tids : List Tid} {m m' : Machine} {u : PUnit}
    (hattached : m.process.isAttached = true) (hdecoded : Decoded t m)
    (hrunning : t ∈ tids ∨ Settled t m)
    (h : forEach (stopThread handlers) tids m = (.ok u, m')) : Decoded t m' ∧ Settled t m' := by
  induction tids generalizing m with
  | nil =>
      cases h
      exact ⟨hdecoded, hrunning.resolve_left (List.not_mem_nil)⟩
  | cons tid rest ih =>
      obtain ⟨_, m₁, hfirst, hrest⟩ := Eff.bind_eq_ok.mp h
      have hattached₁ : m₁.process.isAttached = true := by
        have hfixed := ((stopFrame_attached handlers).stopThread trivial).apply_eq hfirst
        rw [← hattached]
        exact hfixed
      by_cases htid : tid = t
      · subst htid
        obtain ⟨hdecoded₁, hsettled₁⟩ := stopThread_decoded hattached hdecoded hfirst
        exact ih hattached₁ hdecoded₁ (.inr hsettled₁) hrest
      · have hsame := stopThread_other htid hfirst
        refine ih hattached₁ (hsame.decoded hdecoded) ?_ hrest
        rcases hrunning with hmem | hsettled
        · exact .inl (List.mem_of_ne_of_mem (Ne.symm htid) hmem)
        · exact .inr (hsame.settled hsettled)

theorem stopRunningThreads_decoded {m m' : Machine} {u : PUnit}
    (hattached : m.process.isAttached = true) (hdecoded : Decoded t m)
    (h : stopRunningThreads handlers m = (.ok u, m')) : Decoded t m' ∧ Settled t m' := by
  rw [stopRunningThreads, bind_of_ok (get_apply m)] at h
  refine forEach_stopThread_decoded hattached hdecoded ?_ h
  by_cases hmem : t ∈ m.process.threads.map (·.1)
  · exact .inl hmem
  · right
    intro thread hthread
    rw [Machine.thread?, Option.map_eq_some_iff] at hthread
    obtain ⟨entry, hentry, -⟩ := hthread
    have htid : entry.1 = t := by simpa using List.find?_some hentry
    exact absurd (List.mem_map.mpr ⟨entry, List.mem_of_find?_eq_some hentry, htid⟩) hmem

theorem stopRunningThreads_same {m m' : Machine} {u : PUnit} (hsettled : Settled t m)
    (h : stopRunningThreads handlers m = (.ok u, m')) : SameThread true t m m' := by
  rw [stopRunningThreads, bind_of_ok (get_apply m)] at h
  exact forEach_stopThread_same hsettled h

/-- A resumed thread is taken for running. -/
theorem resume_running {tid : Tid} {m m' : Machine} {u : PUnit}
    (h : resume (some tid) m = (.ok u, m')) :
    ∀ thread, m'.thread? tid = some thread → thread.state = .running := by
  rw [resume, bind_of_ok (get_apply m)] at h
  obtain ⟨_, m₁, -, hcontinue⟩ := Eff.bind_eq_ok.mp h
  rw [sendContinue, bind_of_ok (get_apply m₁)] at hcontinue
  obtain ⟨ran, m₂, -, hrest⟩ := Eff.bind_eq_ok.mp hcontinue
  split at hrest
  · cases hrest
  obtain ⟨thread, m₃, -, hrest₃⟩ := Eff.bind_eq_ok.mp hrest
  obtain ⟨_, m₄, hupdate, hrest₄⟩ := Eff.bind_eq_ok.mp hrest₃
  obtain rfl := (congrArg Prod.snd hupdate).symm
  obtain rfl := (congrArg Prod.snd hrest₄).symm
  intro thread' hthread'
  change (updateThread tid (fun t => { t with state := .running }) m₃).2.thread? tid =
    some thread' at hthread'
  rw [Machine.thread?_updateThread] at hthread'
  obtain ⟨old, -, rfl⟩ := Option.map_eq_some_iff.mp hthread'
  rfl

/-- A thread that is kept has not ended, unless its stop is the one reported. -/
theorem cleanupExitedThreads_state {tid : Tid} {m m' : Machine} {exited : Option StopReason}
    (h : cleanupExitedThreads tid m = (.ok exited, m')) {thread : ThreadState}
    (hthread : m'.thread? t = some thread) (htid : t ≠ tid) :
    thread.state ≠ .exited ∧ thread.state ≠ .terminated := by
  rw [cleanupExitedThreads, bind_of_ok (get_apply m)] at h
  obtain ⟨_, m₁, hreports, hrest⟩ := Eff.bind_eq_ok.mp h
  obtain rfl := (congrArg Prod.snd hrest).symm
  have hthreads : m₁.process = m.process := by
    have hfixed : Respects (Fixes fun m : Machine => m.process)
        (forEach (fun entry : Tid × ThreadState => reportThreadLifecycleEvent entry.2.reason)
          (m.process.threads.filter (isCleanedUp tid))) :=
      Respects.forEach fun _ _ => Respects.modify fun _ => rfl
    exact hfixed.apply_eq hreports
  obtain ⟨hfound, hkept⟩ := Machine.thread?_of_filter (m := m₁) (fun other =>
    !((m.process.threads.filter (isCleanedUp tid)).map
      fun entry : Tid × ThreadState => entry.1).contains other) hthread
  rw [Machine.thread?, hthreads, Option.map_eq_some_iff] at hfound
  obtain ⟨entry, hentry, rfl⟩ := hfound
  have hkey : entry.1 = t := by simpa using List.find?_some hentry
  have hmem := List.mem_of_find?_eq_some hentry
  have hnot : ¬ isCleanedUp tid entry = true := by
    intro hgone
    have hlisted : t ∈ (m.process.threads.filter (isCleanedUp tid)).map (·.1) :=
      List.mem_map.mpr ⟨entry, List.mem_filter.mpr ⟨hmem, hgone⟩, hkey⟩
    simp only [List.contains_iff_mem.mpr hlisted] at hkept
    cases hkept
  have htid' : entry.1 ≠ tid := hkey ▸ htid
  simpa [isCleanedUp, htid'] using hnot

theorem waitpid_other {waiter : Waiter} {toAwait : Option Tid} {m m' : Machine}
    {event : WaitEvent} (htid : event.tid ≠ t)
    (h : waitpid waiter toAwait m = (.ok (some event), m')) : SameThread true t m m' := by
  obtain ⟨hmay, rest, -, rfl⟩ := waitpid_eq_some h
  exact ((stopFrame_leaves (handlers_tame_true ⟨fun _ _ => ([], .ok false)⟩)).deliver m waiter
    toAwait event rest htid hmay (tame_true m)).2

/-- When a wait reports a stop, every thread has stopped and is decoded. -/
theorem waitOnSignalLoop_decoded {rounds : Nat} {toAwait : Option Tid} {m m' : Machine}
    {reason : StopReason} (hattached : m.process.isAttached = true) (hdecoded : Decoded t m)
    (h : waitOnSignalLoop handlers rounds toAwait m = (.ok reason, m'))
    (hstopped : reason.reason = .stopped) :
    Decoded t m' ∧ ∀ thread, m'.thread? t = some thread → thread.state = .stopped := by
  induction rounds generalizing toAwait m with
  | zero => cases h
  | succ rounds ih =>
      have hframe := stopFrame_leaves (t := t) (handlers_tame_true handlers)
      have hfixed := stopFrame_attached handlers
      obtain ⟨event, m₁, hwait, hrest⟩ := Eff.bind_eq_ok.mp h
      have hattached₁ : m₁.process.isAttached = true :=
        ((hfixed.waitpid fun _ _ _ => trivial).apply_eq hwait).trans hattached
      cases event with
      | none => cases hrest
      | some event =>
          obtain ⟨final, m₂, hsignal, hrest₂⟩ := Eff.bind_eq_ok.mp hrest
          replace hsignal := onThrow_eq_ok hsignal
          have hattached₂ : m₂.process.isAttached = true :=
            ((hfixed.handleSignal trivial (StopReason.ofWait_syscallInfo _ _) true).apply_eq
              hsignal).trans hattached₁
          have hother : event.tid ≠ t → SameThread true t m m₂ := fun htid =>
            (waitpid_other htid hwait).trans
              ((hframe.handleSignal (by simpa using htid) (StopReason.ofWait_syscallInfo _ _)
                true).apply_eq hsignal (tame_true m₁)).2
          cases final with
          | none =>
              obtain ⟨_, m₃, hresume, hloop⟩ := Eff.bind_eq_ok.mp hrest₂
              have hattached₃ : m₃.process.isAttached = true :=
                ((hfixed.resumeFrame trivial).resume.apply_eq hresume).trans hattached₂
              refine ih hattached₃ ?_ hloop
              by_cases htid : event.tid = t
              · rw [htid] at hresume
                intro thread hthread hstate
                rw [resume_running hresume thread hthread] at hstate
                cases hstate
              · have hsame := (hframe.resumeFrame htid).resume.apply_eq hresume (tame_true m₂)
                exact ((hother htid).trans hsame.2).decoded hdecoded
          | some final =>
              obtain ⟨_, m₃, hat, hrest₃⟩ := Eff.bind_eq_ok.mp hrest₂
              obtain ⟨-, rfl⟩ := threadAt_eq_ok hat
              obtain ⟨_, m₄, hupdate, hrest₄⟩ := Eff.bind_eq_ok.mp hrest₃
              obtain rfl := (congrArg Prod.snd hupdate).symm
              obtain ⟨delivery, hstatus, hfresh, -⟩ := waitpid_freshStop hattached hwait
              rw [← hstatus] at hsignal
              obtain ⟨hfinal, hregisters⟩ := handleSignal_registersAt hfresh hsignal
              have hnotRunning : final.reason ≠ .running := by
                rw [hfinal]
                exact StopReason.ofWait_reason_ne_running _ _
              have hdecoded₄ : Decoded t (updateThread event.tid (fun thread =>
                  { thread with reason := final, state := final.reason }) m₃).2 := by
                by_cases htid : event.tid = t
                · subst htid
                  refine decoded_of_recorded delivery fun hstop => ?_
                  obtain ⟨hregs, hdeliveries⟩ := hregisters hstop
                  obtain ⟨rest, hrest⟩ := hfresh.deliveries
                  exact ⟨hregs, rest, hdeliveries.trans hrest⟩
                · have hsame := (hframe.updateThread event.tid htid _).apply_eq hupdate
                  exact ((hother htid).trans (hsame (tame_true m₃)).2).decoded hdecoded
              rw [bind_of_ok (get_apply _)] at hrest₄
              split at hrest₄
              · rename_i hended
                obtain ⟨_, m₅, hreport, hrest₅⟩ := Eff.bind_eq_ok.mp hrest₄
                obtain rfl := (congrArg Prod.snd hreport).symm
                split at hrest₅
                · obtain ⟨_, m₆, -, hresult⟩ := Eff.bind_eq_ok.mp hrest₅
                  cases hresult
                  rw [hstopped] at hended
                  rcases hended with hended | hended <;> cases hended
                · refine ih ?_ ?_ hrest₅
                  · exact hattached₂
                  · exact hdecoded₄
              · rename_i hlives
                have hfinalStopped : final.reason = .stopped := by
                  cases hcase : final.reason with
                  | stopped => rfl
                  | running => exact absurd hcase hnotRunning
                  | exited => exact absurd (.inl hcase) hlives
                  | terminated => exact absurd (.inr hcase) hlives
                obtain ⟨_, m₅, hstop, hrest₅⟩ := Eff.bind_eq_ok.mp hrest₄
                obtain ⟨exited, m₆, hcleanup, hrest₆⟩ := Eff.bind_eq_ok.mp hrest₅
                obtain rfl := (congrArg Prod.snd hrest₆).symm
                obtain ⟨hdecoded₅, hsettled₅⟩ :=
                  stopRunningThreads_decoded (m := (updateThread event.tid _ m₃).2) hattached₂
                    hdecoded₄ hstop
                have hsame₆ := ((hframe.waitFrame.cleanupExitedThreads event.tid).apply_eq hcleanup
                  (tame_true m₅)).2
                refine ⟨hsame₆.decoded hdecoded₅, fun thread hthread => ?_⟩
                by_cases htid : t = event.tid
                · subst htid
                  obtain ⟨thread₅, hthread₅, hcached₅⟩ := hsame₆.cached thread hthread
                  have hsettled₄ : Settled event.tid (updateThread event.tid (fun thread =>
                      { thread with reason := final, state := final.reason }) m₃).2 := by
                    intro thread₄ hthread₄
                    rw [Machine.thread?_updateThread] at hthread₄
                    obtain ⟨old, -, rfl⟩ := Option.map_eq_some_iff.mp hthread₄
                    exact hnotRunning
                  obtain ⟨thread₄, hthread₄, hcached₄⟩ :=
                    (stopRunningThreads_same hsettled₄ hstop).cached thread₅ hthread₅
                  rw [Machine.thread?_updateThread] at hthread₄
                  obtain ⟨old, -, rfl⟩ := Option.map_eq_some_iff.mp hthread₄
                  rw [hcached₅.state, hcached₄.state]
                  exact hfinalStopped
                · have hnotEnded := cleanupExitedThreads_state hcleanup hthread htid
                  have hnotRunning' := hsame₆.settled hsettled₅ thread hthread
                  cases hcase : thread.state with
                  | stopped => rfl
                  | running => exact absurd hcase hnotRunning'
                  | exited => exact absurd hcase hnotEnded.1
                  | terminated => exact absurd hcase hnotEnded.2

end Decoding

/-- The call gives back the register file as of the moment the thread stopped
at the return address. -/
structure IsCallResult (returnAddr : Word) (regs : Registers) (delivery : Delivery) : Prop where
  pc : User.pc regs.data = returnAddr
  registers : RegistersAt regs delivery

/-- Whenever the call returns, a predicate holds of what it returns and of the
last stop of the calling thread that was delivered. -/
def InferiorCallEnds (handlers : HitHandlers) (funcAddr returnAddr : Word)
    (regsToRestore : Registers) (otid : Option Tid) (m : Machine)
    (Q : Registers → Delivery → Prop) : Prop :=
  ∀ regs m', inferiorCall handlers funcAddr returnAddr regsToRestore otid m = (.ok regs, m') →
    ∃ delivery rest,
      deliveriesOf (otid.getD m.process.currentThread) m'.trace = delivery :: rest ∧
        Q regs delivery

theorem flush_respects {R : Machine → Machine → Prop} [Std.Refl R] [IsTrans Machine R]
    {tid : Tid} (huser : ∀ m user, R m (Machine.setUser tid user m)) : Respects R (flush tid) := by
  have hblock : ∀ (f : Machine → User) (what : String), Respects R (do
      let m ← get
      if m.isStopped tid then modify (Machine.setUser tid (f m)) else failErrno what) := by
    intro f what
    refine Respects.bind Respects.get fun m => Respects.ite ?_ (Respects.throw _)
    exact Respects.modify fun m => huser m _
  refine Respects.bind (Respects.asks _) fun thread => ?_
  refine Respects.bind (hblock _ _) fun _ => ?_
  refine Respects.bind (hblock _ _) fun _ => ?_
  exact Respects.forEach fun i _ => hblock _ _

theorem commitRegister_respects {R : Machine → Machine → Prop} [Std.Refl R]
    [IsTrans Machine R] {tid : Tid} {id : RegisterId} {val : Value}
    (hwrite : Respects R (writeRegister tid id val true))
    (hobserve : ∀ m, R m (Machine.observe (.committed tid) m)) :
    Respects R (commitRegister tid id val) :=
  Respects.bind hwrite fun _ => Respects.modify hobserve

/-- A call respects what setting registers, waiting and restoring respect. -/
theorem callThread_respects {R : Machine → Machine → Prop} [Std.Refl R] [IsTrans Machine R]
    {handlers : HitHandlers} {P : Tid → Prop} (h : StopFrame handlers P R) {tid : Tid}
    (htid : P tid) (hmemory : ∀ m memory, R m (Machine.setMemory memory m))
    (hcommitted : ∀ m, R m (Machine.observe (.committed tid) m))
    (hwait : Respects R (waitOnSignal handlers (some tid))) (funcAddr returnAddr : Word)
    (regsToRestore : Registers) :
    Respects R (callThread handlers funcAddr returnAddr regsToRestore tid) := by
  have hcommit : ∀ id val, Respects R (commitRegister tid id val) := fun id val =>
    commitRegister_respects (h.writeRegister htid id val true) hcommitted
  refine Respects.bind (hcommit _ _) fun _ => ?_
  refine Respects.bind (readRegister_respects _ _) fun rsp => ?_
  refine Respects.bind (writeMemory_respects hmemory _ _) fun _ => ?_
  refine Respects.bind (hcommit _ _) fun _ => ?_
  refine Respects.bind (h.resumeFrame htid).resume fun _ => ?_
  refine Respects.bind hwait fun reason => Respects.ite (Respects.throw _) ?_
  refine Respects.bind (Respects.asks _) fun newRegs => ?_
  refine Respects.bind (h.updateThread tid htid _) fun _ => ?_
  exact Respects.bind (flush_respects fun m user => h.user m tid user htid) fun _ =>
    Respects.pure _

/-- What a call returns are the registers of the last stop that was delivered. -/
theorem inferiorCall_registersAt {handlers : HitHandlers} {funcAddr returnAddr : Word}
    {regsToRestore : Registers} {otid : Option Tid} {m m' : Machine} {regs : Registers}
    (hattached : m.process.isAttached = true)
    (h : inferiorCall handlers funcAddr returnAddr regsToRestore otid m = (.ok regs, m')) :
    ∃ delivery rest,
      deliveriesOf (otid.getD m.process.currentThread) m'.trace = delivery :: rest ∧
        RegistersAt regs delivery := by
  rw [inferiorCall, bind_of_ok (get_apply m)] at h
  generalize otid.getD m.process.currentThread = tid at h ⊢
  have hfixed := stopFrame_attached handlers
  obtain ⟨_, m₁₀, hcall, hrestored⟩ := Eff.bind_eq_ok.mp h
  obtain ⟨_, m₁₁, hobserve, hresult⟩ := Eff.bind_eq_ok.mp hrestored
  obtain rfl := (congrArg Prod.snd hobserve).symm
  cases hresult
  change ∃ delivery rest, deliveriesOf tid m₁₀.trace = delivery :: rest ∧ RegistersAt regs delivery
  obtain ⟨_, m₁, hrip, hrest₁⟩ := Eff.bind_eq_ok.mp hcall
  obtain ⟨rsp, m₂, hread, hrest₂⟩ := Eff.bind_eq_ok.mp hrest₁
  obtain ⟨_, m₃, hwrite, hrest₃⟩ := Eff.bind_eq_ok.mp hrest₂
  obtain ⟨_, m₄, hrsp, hrest₄⟩ := Eff.bind_eq_ok.mp hrest₃
  obtain ⟨_, m₅, hresume, hrest₅⟩ := Eff.bind_eq_ok.mp hrest₄
  obtain ⟨reason, m₆, hwait, hrest₆⟩ := Eff.bind_eq_ok.mp hrest₅
  have hattached₅ : m₅.process.isAttached = true := by
    have h₁ : m₁.process.isAttached = m.process.isAttached :=
      (commitRegister_respects (hfixed.writeRegister trivial _ _ _) fun _ => rfl).apply_eq hrip
    have h₂ : m₂ = m₁ := (readRegister_eq_ok hread).1
    have h₃ : m₃.process.isAttached = m₂.process.isAttached :=
      (writeMemory_respects siteFrame_attached.memory _ _).apply_eq hwrite
    have h₄ : m₄.process.isAttached = m₃.process.isAttached :=
      (commitRegister_respects (hfixed.writeRegister trivial _ _ _) fun _ => rfl).apply_eq hrsp
    have h₅ : m₅.process.isAttached = m₄.process.isAttached :=
      (hfixed.resumeFrame trivial).resume.apply_eq hresume
    rw [h₅, h₄, h₃, h₂, h₁, hattached]
  have hdecoded₅ : Decoded tid m₅ := by
    intro thread hthread hstate
    rw [resume_running hresume thread hthread] at hstate
    cases hstate
  split at hrest₆
  · cases hrest₆
  rename_i hstopped
  rw [waitOnSignal, bind_of_ok (get_apply m₅)] at hwait
  obtain ⟨hdecoded₆, hstate₆⟩ :=
    waitOnSignalLoop_decoded hattached₅ hdecoded₅ hwait (not_not.mp hstopped)
  obtain ⟨newRegs, m₇, hregs, hrest₇⟩ := Eff.bind_eq_ok.mp hrest₆
  obtain ⟨_, m₈, hrestore, hrest₈⟩ := Eff.bind_eq_ok.mp hrest₇
  obtain ⟨_, m₉, hflush, hresult⟩ := Eff.bind_eq_ok.mp hrest₈
  cases hresult
  unfold regsAt at hregs
  rw [asks_apply] at hregs
  cases hthread : m₆.thread? tid with
  | none =>
      rw [hthread] at hregs
      cases hregs
  | some thread =>
      rw [hthread] at hregs
      cases hregs
      obtain ⟨delivery, rest, hdeliveries, hregisters⟩ :=
        hdecoded₆ thread hthread (hstate₆ thread hthread)
      have htrace₈ : m₈.trace = m₆.trace :=
        (congrArg Machine.trace (congrArg Prod.snd hrestore)).symm
      have htrace₁₀ : m₁₀.trace = m₈.trace :=
        (flush_respects (R := Fixes Machine.trace) fun _ _ => rfl).apply_eq hflush
      exact ⟨delivery, rest, by rw [htrace₁₀, htrace₈]; exact hdeliveries, hregisters⟩

/-- `inferior_call` gives back the result of the callee exactly when the last
stop of the calling thread that was delivered is at the return address. -/
theorem inferiorCall_returns_iff (handlers : HitHandlers) (funcAddr returnAddr : Word)
    (regsToRestore : Registers) (otid : Option Tid) (m : Machine)
    (hattached : m.process.isAttached = true) :
    InferiorCallEnds handlers funcAddr returnAddr regsToRestore otid m
        (IsCallResult returnAddr) ↔
      InferiorCallEnds handlers funcAddr returnAddr regsToRestore otid m
        fun _ delivery => delivery.location = returnAddr := by
  constructor
  · intro hends regs m' hrun
    obtain ⟨delivery, rest, hdeliveries, hresult⟩ := hends regs m' hrun
    exact ⟨delivery, rest, hdeliveries, hresult.registers.pc.symm.trans hresult.pc⟩
  · intro hends regs m' hrun
    obtain ⟨delivery, rest, hdeliveries, hregisters⟩ := inferiorCall_registersAt hattached hrun
    obtain ⟨delivery', rest', hdeliveries', hlocation⟩ := hends regs m' hrun
    rw [hdeliveries] at hdeliveries'
    cases hdeliveries'
    exact ⟨delivery, rest, hdeliveries, hregisters.pc.trans hlocation, hregisters⟩

namespace InferiorCallWitness

def handlers : HitHandlers := ⟨fun _ _ => ([], .ok false)⟩

/-- A user area that is zero but for the program counter. -/
def userAt (pc : Word) : User := Area.write (fun _ => 0) 128 (toLe 8 pc.toNat)

/-- One stopped thread, which a signal will stop at an address once it runs. -/
def machine (sig : Byte) (pc : Word) : Machine :=
  let rest := Machine.atRest fun _ => 0
  { rest with
    kernel := { rest.kernel with
      script := [.report ⟨1, .stopped sig 0, .other, userAt pc, fun _ => 0⟩] }
    process := { rest.process with
      threads := [(1, ⟨⟨fun _ => 0, [], 0⟩, ⟨1, .stopped, 0, none, none⟩, .stopped, false⟩)] } }

/-- A call whose thread receives a signal. -/
def call (pc : Word) : Except Failure Registers × Machine :=
  inferiorCall handlers 0x1000 0x2000 ⟨fun _ => 0, [], 0⟩ (some 1) (machine 11 pc)

theorem call_returns (pc : Word) (h : (call pc).1.toOption.isSome = true) :
    ∃ regs, call pc = (.ok regs, (call pc).2) := by
  rcases hcall : call pc with ⟨e | regs, m'⟩
  · rw [hcall] at h
    cases h
  · exact ⟨regs, rfl⟩

end InferiorCallWitness

open InferiorCallWitness in
theorem inferiorCall_returns_iff_signal :
    InferiorCallEnds handlers 0x1000 0x2000 ⟨fun _ => 0, [], 0⟩ (some 1) (machine 11 0x2000)
      (IsCallResult 0x2000) := by
  refine (inferiorCall_returns_iff handlers 0x1000 0x2000 ⟨fun _ => 0, [], 0⟩ (some 1)
    (machine 11 0x2000) rfl).mpr fun regs m' hrun => ?_
  have hlocations : (deliveriesOf 1 (call 0x2000).2.trace).map Delivery.location = [0x2000] := by
    decide +kernel
  obtain ⟨delivery, hdeliveries, hlocation⟩ := List.map_eq_singleton_iff.mp hlocations
  obtain rfl : (call 0x2000).2 = m' := congrArg Prod.snd hrun
  exact ⟨delivery, [], hdeliveries, hlocation⟩

open InferiorCallWitness in
/-- The registers at a signal inside the callee are returned. -/
theorem inferiorCall_not_returns :
    ¬ ∀ (handlers : HitHandlers) (funcAddr returnAddr : Word) (regsToRestore : Registers)
      (otid : Option Tid) (m : Machine), m.process.isAttached = true →
      InferiorCallEnds handlers funcAddr returnAddr regsToRestore otid m
        (IsCallResult returnAddr) := by
  intro hall
  obtain ⟨regs, hrun⟩ := call_returns 0x1234 (by decide +kernel)
  have hattached : (machine 11 0x1234).process.isAttached = true := rfl
  obtain ⟨delivery, rest, hdeliveries, hresult⟩ :=
    hall handlers 0x1000 0x2000 _ (some 1) _ hattached regs _ hrun
  have hlocations : (deliveriesOf 1 (call 0x1234).2.trace).map Delivery.location = [0x1234] := by
    decide +kernel
  change deliveriesOf 1 (call 0x1234).2.trace = delivery :: rest at hdeliveries
  rw [hdeliveries, List.map_cons] at hlocations
  have hreturn : (0x2000 : Word) = 0x1234 :=
    (hresult.pc.symm.trans hresult.registers.pc).trans (List.cons.inj hlocations).1
  exact absurd hreturn (by decide)

end Gsdb
