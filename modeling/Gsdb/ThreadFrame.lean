/-
What operations on one thread leave of another.  Arming hardware sites writes
the debug registers of every thread, so the frame comes in two strengths: all
registers where no hardware site is around, all but the debug registers in
general.
-/
import Gsdb.StopFrame

namespace Gsdb

open ByteMemory Effects Eff Debugger

/-- A byte of the debug registers. -/
def isDebugByte (i : Nat) : Prop := debugregOffset ≤ i ∧ i < debugregOffset + 64

/-- The bytes of a user area that stay. -/
def Stays (hardware : Bool) (i : Nat) : Prop := hardware = true → ¬ isDebugByte i

/-- No hardware site is around, unless they are allowed for. -/
def Tame (hardware : Bool) (m : Machine) : Prop :=
  hardware = false → ∀ site ∈ m.process.breakpointSites, site.isHardware = false

def HitAction.makesHardware : HitAction → Bool
  | .site op => op.makesHardware
  | .breakpoints _ => false

/-- The hit handlers make no hardware sites, unless they are allowed for. -/
def HitHandlers.Tame (hardware : Bool) (handlers : HitHandlers) : Prop :=
  hardware = false → ∀ handler m, ∀ action ∈ (handlers.onHit handler m).1,
    action.makesHardware = false

/-- The deliveries about a thread, newest first. -/
def deliveriesOf (t : Tid) (trace : List Observation) : List Delivery :=
  trace.filterMap fun
    | .delivered delivery => if delivery.tid = t then some delivery else none
    | _ => none

structure SameCached (hardware : Bool) (thread thread' : ThreadState) : Prop where
  state : thread'.state = thread.state
  pendingSigstop : thread'.pendingSigstop = thread.pendingSigstop
  undefinedOffsets : thread'.regs.undefinedOffsets = thread.regs.undefinedOffsets
  data : ∀ i, Stays hardware i → thread'.regs.data i = thread.regs.data i

/-- A thread as it was, in the kernel, in the debugger's cache and in the
history; it may have been dropped from the cache. -/
structure SameThread (hardware : Bool) (t : Tid) (m m' : Machine) : Prop where
  attached : m'.process.isAttached = m.process.isAttached
  status : (m'.kernel.threads t).status = (m.kernel.threads t).status
  user : ∀ i, Stays hardware i → (m'.kernel.threads t).user i = (m.kernel.threads t).user i
  cached : ∀ thread', m'.thread? t = some thread' →
    ∃ thread, m.thread? t = some thread ∧ SameCached hardware thread thread'
  deliveries : deliveriesOf t m'.trace = deliveriesOf t m.trace

def LeavesThread (hardware : Bool) (t : Tid) (m m' : Machine) : Prop :=
  Tame hardware m → Tame hardware m' ∧ SameThread hardware t m m'

section Threads

theorem Machine.thread?_updateThread (m : Machine) (tid : Tid) (f : ThreadState → ThreadState) :
    (updateThread tid f m).2.thread? tid = (m.thread? tid).map f := by
  simp only [updateThread, modifyProcess, modify_apply, Machine.setProcess, Machine.thread?]
  induction m.process.threads with
  | nil => rfl
  | cons entry rest ih =>
      by_cases hentry : entry.1 = tid
      · simp [hentry]
      · simpa [hentry] using ih

theorem Machine.thread?_updateThread_of_ne (m : Machine) {tid t : Tid}
    (f : ThreadState → ThreadState) (h : t ≠ tid) :
    (updateThread tid f m).2.thread? t = m.thread? t := by
  simp only [updateThread, modifyProcess, modify_apply, Machine.setProcess, Machine.thread?]
  induction m.process.threads with
  | nil => rfl
  | cons entry rest ih =>
      by_cases htid : entry.1 = tid
      · have ht : tid ≠ t := h.symm
        simpa [htid, ht] using ih
      · by_cases ht : entry.1 = t
        · simp [ht, h]
        · simpa [htid, ht] using ih

theorem threads_updateThread (m : Machine) (tid : Tid) (f : ThreadState → ThreadState) :
    (updateThread tid f m).2.process.threads.map (·.1) = m.process.threads.map (·.1) := by
  simp only [updateThread, modifyProcess, modify_apply, Machine.setProcess, List.map_map]
  refine List.map_congr_left fun entry _ => ?_
  by_cases hentry : entry.1 = tid <;> simp [hentry]

theorem Machine.mem_threads_iff (m : Machine) (t : Tid) :
    t ∈ m.process.threads.map (·.1) ↔ (m.thread? t).isSome = true := by
  simp [Machine.thread?, List.find?_isSome]

theorem Machine.thread?_filter (m : Machine) (keep : Tid → Bool) (t : Tid) :
    (m.setProcess fun p => { p with
      threads := p.threads.filter fun entry => keep entry.1 }).thread? t =
      if keep t then m.thread? t else none := by
  rw [Machine.thread?, Machine.setProcess, List.find?_filter]
  have hsame : (fun entry : Tid × ThreadState =>
      decide (keep entry.1 = true ∧ decide (entry.1 = t) = true)) =
      fun entry => keep t && decide (entry.1 = t) := by
    funext entry
    by_cases hentry : entry.1 = t <;> simp [hentry]
  rw [hsame]
  cases keep t with
  | false =>
      have hnone : m.process.threads.find? (fun _ => false) = none := by simp
      simp [hnone]
  | true => simp [Machine.thread?]

theorem Machine.thread?_of_filter {m : Machine} (keep : Tid → Bool) {t : Tid}
    {thread : ThreadState}
    (h : (m.setProcess fun p => { p with
      threads := p.threads.filter fun entry => keep entry.1 }).thread? t = some thread) :
    m.thread? t = some thread ∧ keep t = true := by
  rw [Machine.thread?_filter] at h
  split at h
  · rename_i hkeep
    exact ⟨h, hkeep⟩
  · cases h

/-- The blocks that are read cover every register. -/
theorem reload_apply (regs : Registers) (user : User) {i : Nat} (hi : isRegisterByte i) :
    (reload regs user).data i = user i := by
  simp only [reload]
  by_cases hdebug : debugregOffset ≤ i ∧ i < debugregOffset + 64
  · exact Area.copy_inside hdebug
  rw [Area.copy_outside hdebug]
  by_cases hfpr : i387Offset ≤ i ∧ i < i387Offset + i387Size
  · exact Area.copy_inside hfpr
  rw [Area.copy_outside hfpr]
  refine Area.copy_inside ?_
  unfold isRegisterByte at hi
  simp only [regsOffset, regsSize, i387Offset, i387Size, debugregOffset] at *
  omega

theorem rip_info : registerInfoById .rip = .ok (gpr64 .rip "rip" 16 128) := rfl

/-- The user area of a thread after a register of its cache was committed. -/
def committed (info : RegisterInfo) (data user : User) : User :=
  if info.type = .fpr then user.copy data i387Offset i387Size
  else user.write (info.offset / 8 * 8) (data.read (info.offset / 8 * 8) 8)

/-- The machine with new cached registers of a thread. -/
def Machine.setRegs (m : Machine) (tid : Tid) (regs : Registers) : Machine :=
  (updateThread tid (fun thread => { thread with regs := regs }) m).2

theorem Machine.thread?_setRegs (m : Machine) (tid : Tid) (regs : Registers) :
    (m.setRegs tid regs).thread? tid =
      (m.thread? tid).map fun thread => { thread with regs := regs } :=
  m.thread?_updateThread tid _

theorem threadAt_eq {m : Machine} {tid : Tid} {thread : ThreadState}
    (h : m.thread? tid = some thread) : threadAt tid m = (.ok thread, m) := by
  simp [threadAt, h]

theorem threadAt_of_none {m : Machine} {tid : Tid} (h : m.thread? tid = none) :
    threadAt tid m = (.error (.exception "out_of_range"), m) := by
  simp [threadAt, h]

theorem threadAt_eq_ok {m m' : Machine} {tid : Tid} {thread : ThreadState}
    (h : threadAt tid m = (.ok thread, m')) : m.thread? tid = some thread ∧ m' = m := by
  unfold threadAt at h
  rw [asks_apply] at h
  cases hthread : m.thread? tid with
  | none => rw [hthread] at h; cases h
  | some found => rw [hthread] at h; cases h; exact ⟨rfl, rfl⟩

/-- A byte of the program counter. -/
def isPcByte (i : Nat) : Prop := 128 ≤ i ∧ i < 136

theorem readU64_eq_ok {regs : Registers} {id : RegisterId} {info : RegisterInfo} {w : Word}
    (hinfo : registerInfoById id = .ok info) (hformat : info.format = .uint)
    (hsize : info.size = 8) (h : regs.readU64 id = .ok w) :
    w = Registers.word regs.data 64 info.offset := by
  rw [Registers.readU64, hinfo, ok_bind, Registers.read, hformat, hsize] at h
  split at h
  · cases h
  · exact (Except.ok.inj h).symm

theorem readRegister_eq_ok {tid : Tid} {id : RegisterId} {m m' : Machine} {w : Word}
    (h : readRegister tid id m = (.ok w, m')) :
    m' = m ∧ ∃ thread, m.thread? tid = some thread ∧ thread.regs.readU64 id = .ok w := by
  obtain ⟨thread, m₁, hat, hrest⟩ := Eff.bind_eq_ok.mp h
  obtain ⟨hthread, rfl⟩ := threadAt_eq_ok hat
  rw [ofExcept_apply] at hrest
  obtain ⟨hread, rfl⟩ := Prod.mk.inj hrest
  exact ⟨rfl, thread, hthread, hread⟩

theorem getPc_eq_ok {tid : Tid} {m m' : Machine} {pc : Word} (h : getPc tid m = (.ok pc, m')) :
    m' = m ∧ ∃ thread, m.thread? tid = some thread ∧ pc = User.pc thread.regs.data := by
  obtain ⟨rfl, thread, hthread, hpc⟩ := readRegister_eq_ok h
  refine ⟨rfl, thread, hthread, ?_⟩
  have hoffset : (gpr64 .rip "rip" 16 128).offset = 128 := rfl
  rw [readU64_eq_ok rip_info rfl rfl hpc, hoffset, User.pc]

theorem isPcByte.isRegisterByte {i : Nat} (h : isPcByte i) : isRegisterByte i :=
  .inl (by obtain ⟨_, hi⟩ := h; simp only [regsOffset, regsSize]; omega)

theorem User.pc_congr {first second : User} (h : ∀ i, isPcByte i → first i = second i) :
    User.pc first = User.pc second := by
  have hread : first.read 128 8 = second.read 128 8 :=
    Area.read_congr fun i hlow hhigh => h i ⟨hlow, hhigh⟩
  simp only [User.pc, Registers.word, hread]

theorem writeData_eq_ok {regs regs' : Registers} {info : RegisterInfo} {val : Value}
    (h : regs.writeData info val = .ok regs') :
    regs' = { regs with
      data := regs.data.write info.offset (toLe info.size (widen info val).toNat) } := by
  unfold Registers.writeData at h
  split at h
  · exact (Except.ok.inj h).symm
  · cases h

theorem setUser_status (m : Machine) (tid t : Tid) (user : User) :
    ((m.setUser tid user).kernel.threads t).status = (m.kernel.threads t).status := by
  by_cases htid : t = tid
  · subst htid
    simp [Machine.setUser]
  · simp [Machine.setUser, Function.update_of_ne htid]

theorem setUser_user (m : Machine) (tid : Tid) (user : User) :
    ((m.setUser tid user).kernel.threads tid).user = user := by
  simp [Machine.setUser]

/-- A register of a stopped thread is written in the cache and in the thread. -/
theorem writeRegister_of_stopped {id : RegisterId} {info : RegisterInfo}
    (hinfo : registerInfoById id = .ok info) {tid : Tid} {val : Value} {m : Machine}
    {thread : ThreadState} (hthread : m.thread? tid = some thread) {regs : Registers}
    (hregs : thread.regs.writeData info val = .ok regs) (hstopped : m.isStopped tid = true) :
    writeRegister tid id val true m = (.ok ⟨⟩, (m.setRegs tid regs).setUser tid
      (committed info regs.data (m.kernel.threads tid).user)) := by
  have hfirst : (ofExcept (registerInfoById id) : Debugger RegisterInfo) m = (.ok info, m) := by
    rw [ofExcept_apply, hinfo]
  have hsecond : (ofExcept (thread.regs.writeData info val) : Debugger Registers) m =
      (.ok regs, m) := by
    rw [ofExcept_apply, hregs]
  have hstopped' : (m.setRegs tid regs).isStopped tid = true := hstopped
  rw [writeRegister, bind_of_ok hfirst, bind_of_ok (threadAt_eq hthread), bind_of_ok hsecond]
  unfold committed
  change (if info.type = .fpr then _ else _ : Debugger PUnit) (m.setRegs tid regs) = _
  by_cases hfpr : info.type = .fpr
  · rw [if_pos hfpr, if_pos hfpr, writeFprs, bind_of_ok (get_apply _), if_pos hstopped']
    rfl
  · rw [if_neg hfpr, if_neg hfpr, writeUserArea, bind_of_ok (get_apply _), if_pos hstopped']
    rfl

/-- What a committed register write can do. -/
theorem writeRegister_cases {id : RegisterId} {info : RegisterInfo}
    (hinfo : registerInfoById id = .ok info) (tid : Tid) (val : Value) (m : Machine) :
    (∃ e, writeRegister tid id val true m = (.error e, m)) ∨
      ∃ thread regs, m.thread? tid = some thread ∧ thread.regs.writeData info val = .ok regs ∧
        ((m.isStopped tid = false ∧
            ∃ e, writeRegister tid id val true m = (.error e, m.setRegs tid regs)) ∨
          (m.isStopped tid = true ∧ writeRegister tid id val true m =
            (.ok ⟨⟩, (m.setRegs tid regs).setUser tid
              (committed info regs.data (m.kernel.threads tid).user)))) := by
  have hfirst : (ofExcept (registerInfoById id) : Debugger RegisterInfo) m = (.ok info, m) := by
    rw [ofExcept_apply, hinfo]
  rw [writeRegister, bind_of_ok hfirst]
  cases hthread : m.thread? tid with
  | none =>
      exact .inl ⟨_, bind_of_error (threadAt_of_none hthread) _⟩
  | some thread =>
      rw [bind_of_ok (threadAt_eq hthread)]
      cases hregs : thread.regs.writeData info val with
      | error e => exact .inl ⟨e, rfl⟩
      | ok regs =>
          right
          refine ⟨thread, regs, rfl, hregs, ?_⟩
          cases hstopped : m.isStopped tid with
          | false =>
              refine .inl ⟨rfl, ?_⟩
              have hstopped' : ¬ (m.setRegs tid regs).isStopped tid = true := by
                change ¬ m.isStopped tid = true
                rw [hstopped]
                decide
              by_cases hfpr : info.type = .fpr
              · refine ⟨.errno "Could not write floating point registers", ?_⟩
                change (if info.type = .fpr then _ else _ : Debugger PUnit) (m.setRegs tid regs) = _
                rw [if_pos hfpr, writeFprs, bind_of_ok (get_apply _), if_neg hstopped']
                rfl
              · refine ⟨.errno "Could not write to user area", ?_⟩
                change (if info.type = .fpr then _ else _ : Debugger PUnit) (m.setRegs tid regs) = _
                rw [if_neg hfpr, writeUserArea, bind_of_ok (get_apply _), if_neg hstopped']
                rfl
          | true =>
              refine .inr ⟨rfl, ?_⟩
              have hwrite := writeRegister_of_stopped hinfo hthread hregs hstopped
              rwa [writeRegister, bind_of_ok hfirst, bind_of_ok (threadAt_eq hthread), hregs]
                at hwrite

end Threads

section Frame

variable {hardware : Bool} {t : Tid}

theorem SameCached.refl (thread : ThreadState) : SameCached hardware thread thread :=
  ⟨rfl, rfl, rfl, fun _ _ => rfl⟩

theorem SameCached.trans {thread thread' thread'' : ThreadState}
    (h : SameCached hardware thread thread') (h' : SameCached hardware thread' thread'') :
    SameCached hardware thread thread'' :=
  ⟨h'.state.trans h.state, h'.pendingSigstop.trans h.pendingSigstop,
    h'.undefinedOffsets.trans h.undefinedOffsets,
    fun i hi => (h'.data i hi).trans (h.data i hi)⟩

theorem SameThread.refl (m : Machine) : SameThread hardware t m m :=
  ⟨rfl, rfl, fun _ _ => rfl, fun thread h => ⟨thread, h, .refl thread⟩, rfl⟩

theorem SameThread.trans {m m' m'' : Machine} (h : SameThread hardware t m m')
    (h' : SameThread hardware t m' m'') : SameThread hardware t m m'' where
  attached := h'.attached.trans h.attached
  status := h'.status.trans h.status
  user := fun i hi => (h'.user i hi).trans (h.user i hi)
  cached := fun thread'' hmem => by
    obtain ⟨thread', hmem', hsame'⟩ := h'.cached thread'' hmem
    obtain ⟨thread, hmem, hsame⟩ := h.cached thread' hmem'
    exact ⟨thread, hmem, hsame.trans hsame'⟩
  deliveries := h'.deliveries.trans h.deliveries

/-- A change that reaches nothing of the thread. -/
theorem SameThread.of_eq {m m' : Machine}
    (hattached : m'.process.isAttached = m.process.isAttached)
    (hkernel : m'.kernel.threads t = m.kernel.threads t)
    (hthreads : ∀ thread, m'.thread? t = some thread → m.thread? t = some thread)
    (htrace : deliveriesOf t m'.trace = deliveriesOf t m.trace) :
    SameThread hardware t m m' :=
  ⟨hattached, by rw [hkernel], fun i _ => by rw [hkernel],
    fun thread hthread => ⟨thread, hthreads thread hthread, .refl thread⟩, htrace⟩

instance : Std.Refl (LeavesThread hardware t) := ⟨fun m h => ⟨h, .refl m⟩⟩

instance : IsTrans Machine (LeavesThread hardware t) := ⟨fun _ _ _ h h' htame =>
  have ⟨htame', hsame⟩ := h htame
  have ⟨htame'', hsame'⟩ := h' htame'
  ⟨htame'', hsame.trans hsame'⟩⟩

/-- A change that reaches neither the sites nor anything of the thread. -/
theorem LeavesThread.of_eq {m m' : Machine}
    (hsites : m'.process.breakpointSites = m.process.breakpointSites)
    (hattached : m'.process.isAttached = m.process.isAttached)
    (hkernel : m'.kernel.threads t = m.kernel.threads t)
    (hthreads : ∀ thread, m'.thread? t = some thread → m.thread? t = some thread)
    (htrace : deliveriesOf t m'.trace = deliveriesOf t m.trace) :
    LeavesThread hardware t m m' :=
  fun htame => ⟨fun h => hsites ▸ htame h, .of_eq hattached hkernel hthreads htrace⟩

theorem updateThread_leaves {tid : Tid} (htid : tid ≠ t) (f : ThreadState → ThreadState) :
    Respects (LeavesThread hardware t) (updateThread tid f) := by
  intro m
  refine LeavesThread.of_eq rfl rfl rfl (fun thread hthread => ?_) rfl
  rwa [Machine.thread?_updateThread_of_ne m f htid.symm] at hthread

theorem setUser_leaves {tid : Tid} (htid : tid ≠ t) (m : Machine) (user : User) :
    LeavesThread hardware t m (m.setUser tid user) :=
  LeavesThread.of_eq rfl rfl (Function.update_of_ne htid.symm _ _) (fun _ h => h) rfl

theorem debugRegister_info {index : Int} {id : RegisterId} (h : debugRegister index = .ok id) :
    ∃ number < 8, ∃ name, registerInfoById id = .ok (drInfo id name number) := by
  unfold debugRegister at h
  split at h <;> cases h
  · exact ⟨0, by decide, "dr0", rfl⟩
  · exact ⟨1, by decide, "dr1", rfl⟩
  · exact ⟨2, by decide, "dr2", rfl⟩
  · exact ⟨3, by decide, "dr3", rfl⟩
  · exact ⟨4, by decide, "dr4", rfl⟩
  · exact ⟨5, by decide, "dr5", rfl⟩
  · exact ⟨6, by decide, "dr6", rfl⟩
  · exact ⟨7, by decide, "dr7", rfl⟩

theorem drInfo_write_of_stays {id : RegisterId} {name : String} {number i : Nat} {area : Area}
    {bytes : List Byte} (hnumber : number < 8) (hi : Stays true i) (hlength : bytes.length = 8) :
    area.write (drInfo id name number).offset bytes i = area i := by
  refine Area.write_outside ?_
  have hnot : ¬ (848 ≤ i ∧ i < 848 + 64) := hi rfl
  change i < 848 + number * 8 ∨ 848 + number * 8 + bytes.length ≤ i
  omega

/-- Writing a debug register changes debug registers only. -/
theorem debugRegisterFrame_leaves : DebugRegisterFrame (LeavesThread true t) := by
  intro tid index id val hid
  by_cases htid : tid ≠ t
  · exact writeRegister_respects (fun _ => updateThread_leaves htid _) (setUser_leaves htid) id
      val true
  obtain rfl : tid = t := not_not.mp htid
  obtain ⟨number, hnumber, name, hinfo⟩ := debugRegister_info hid
  intro m htame
  rcases writeRegister_cases hinfo tid val m with ⟨e, hrun⟩ | ⟨thread, regs, hthread, hregs, hrest⟩
  · rw [hrun]
    exact ⟨htame, .refl m⟩
  have hcached : ∀ thread', (m.setRegs tid regs).thread? tid = some thread' →
      ∃ thread, m.thread? tid = some thread ∧ SameCached true thread thread' := by
    intro thread' hthread'
    rw [Machine.thread?_setRegs, hthread] at hthread'
    cases hthread'
    refine ⟨thread, hthread, rfl, rfl, by rw [writeData_eq_ok hregs], fun i hi => ?_⟩
    rw [writeData_eq_ok hregs]
    exact drInfo_write_of_stays hnumber hi (toLe_length _ _)
  rcases hrest with ⟨-, e, hrun⟩ | ⟨-, hrun⟩
  · rw [hrun]
    exact ⟨htame, rfl, rfl, fun _ _ => rfl, hcached, rfl⟩
  · rw [hrun]
    refine ⟨htame, rfl, by simp [Machine.setUser]; rfl, fun i hi => ?_, hcached, rfl⟩
    have haligned : (drInfo id name number).offset / 8 * 8 = (drInfo id name number).offset := by
      change (848 + number * 8) / 8 * 8 = 848 + number * 8
      omega
    have huser : (((m.setRegs tid regs).setUser tid (committed (drInfo id name number) regs.data
        (m.kernel.threads tid).user)).kernel.threads tid).user =
        committed (drInfo id name number) regs.data (m.kernel.threads tid).user := by
      simp [Machine.setUser]
    have hkind : ¬ (drInfo id name number).type = .fpr := by
      simp [drInfo]
    rw [huser, committed, if_neg hkind, haligned]
    exact drInfo_write_of_stays hnumber hi (Area.read_length _ _ _)

theorem siteFrame_leaves : SiteFrame hardware (LeavesThread hardware t) where
  slots := fun m index site hsite hhardware => by
    cases hardware with
    | true => exact .inl debugRegisterFrame_leaves
    | false =>
        refine .inr fun m' htame => ?_
        rw [htame rfl site (List.mem_of_getElem? hsite)] at hhardware
        cases hhardware
  memory := fun _ _ => LeavesThread.of_eq rfl rfl rfl (fun _ h => h) rfl
  update := fun m index f hf htame => by
    refine ⟨fun hsoft site hmem => ?_, SameThread.of_eq rfl rfl (fun _ h => h) rfl⟩
    obtain ⟨i, hi, hget⟩ := List.mem_iff_getElem.mp hmem
    simp only [Machine.setProcess, List.getElem_modify] at hget
    split at hget
    · rw [← hget, hf]
      exact htame hsoft _ (List.getElem_mem _)
    · rw [← hget]
      exact htame hsoft _ (List.getElem_mem _)
  push := fun m site next hallowed htame => by
    refine ⟨fun hsoft other hmem => ?_, SameThread.of_eq rfl rfl (fun _ h => h) rfl⟩
    rcases List.mem_append.mp hmem with hmem | hmem
    · exact htame hsoft other hmem
    · rw [List.mem_singleton.mp hmem]
      rcases hallowed with htrue | hfalse
      · rw [hsoft] at htrue
        cases htrue
      · exact hfalse
  erase := fun m index htame =>
    ⟨fun hsoft site hmem => htame hsoft site (List.mem_of_mem_eraseIdx hmem),
      SameThread.of_eq rfl rfl (fun _ h => h) rfl⟩
  note := fun _ observation hnote =>
    LeavesThread.of_eq rfl rfl rfl (fun _ h => h)
      (by cases observation <;> first | rfl | cases hnote)

theorem stopFrame_leaves {handlers : HitHandlers} (hhandlers : handlers.Tame hardware) :
    StopFrame handlers (· ≠ t) (LeavesThread hardware t) where
  enableSite := siteFrame_leaves.enableSite
  disableSite := siteFrame_leaves.disableSite
  action := fun handler m action haction => by
    cases action with
    | site op =>
        refine siteFrame_leaves.run ?_
        cases hardware with
        | true => exact .inl rfl
        | false => exact .inr (hhandlers rfl handler m _ haction)
    | breakpoints points =>
        exact Respects.modify fun m => LeavesThread.of_eq rfl rfl rfl (fun _ h => h) rfl
  updateThread := fun _ htid f => updateThread_leaves htid f
  user := fun m _ user htid => setUser_leaves htid m user
  script := fun _ _ => LeavesThread.of_eq rfl rfl rfl (fun _ h => h) rfl
  deliver := fun m _ _ event _ htid _ =>
    LeavesThread.of_eq rfl rfl (Function.update_of_ne htid.symm _ _) (fun _ h => h)
      (by simp [Machine.setScript, Machine.deliver, deliveriesOf, htid])
  running := fun m _ _ htid _ =>
    LeavesThread.of_eq rfl rfl (Function.update_of_ne htid.symm _ _) (fun _ h => h) rfl
  track := fun m tid thread htid =>
    LeavesThread.of_eq rfl rfl rfl (fun found hfound => by
      rw [Machine.thread?, Machine.setProcess, List.find?_append] at hfound
      cases hold : m.process.threads.find? fun entry => entry.1 = t with
      | none => simp [hold, htid] at hfound
      | some entry => simpa [Machine.thread?, hold] using hfound) rfl
  cleanup := fun m keep =>
    LeavesThread.of_eq rfl rfl rfl (fun _ h => (Machine.thread?_of_filter keep h).1) rfl
  process := fun _ _ _ _ _ => LeavesThread.of_eq rfl rfl rfl (fun _ h => h) rfl
  lifecycle := fun _ _ => LeavesThread.of_eq rfl rfl rfl (fun _ h => h) rfl
  note := fun _ observation hnote =>
    LeavesThread.of_eq rfl rfl rfl (fun _ h => h)
      (by cases observation <;> first | rfl | cases hnote)
  augment := fun reason _ _ m => by
    rcases augmentStopReason_cases reason m with ⟨e, h⟩ | ⟨info, -, -, h⟩ | ⟨-, h⟩ <;> rw [h]
    · exact refl_of _ m
    · exact LeavesThread.of_eq rfl rfl rfl (fun _ h => h) rfl
    · exact LeavesThread.of_eq rfl rfl rfl (fun _ h => h) rfl

end Frame

end Gsdb
