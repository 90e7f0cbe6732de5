/-
Running a thread until it gets to an address.  A trap is set at the address for
the time of the run, unless a breakpoint site stands there already; whether the
site that is there stops the thread is not looked at.
-/
import Gsdb.BreakpointOwnership
import Gsdb.InferiorCall
import Gsdb.SlotAllocation
import Gsdb.StepInstruction

namespace Gsdb

open ByteMemory Effects Eff Debugger

namespace Debugger

/-- The first part of `target::run_until_address`: a site at the address, to be
removed afterwards, unless there is one already. -/
def setTrap (address : Word) : Debugger Bool := do
  let m ← get
  if m.process.breakpointSites.containsAddress address then pure false
  else do
    let bp ← createBreakpointSite address false true
    enableSite bp
    pure true

/-- A stop at a breakpoint that is the address counts as a step. -/
def relabel (address : Word) (tid : Tid) (reason : StopReason) : Debugger StopReason :=
  if reason.isBreakpoint then do
    let pc ← getPc tid
    pure (if pc = address then { reason with trapReason := some .singleStep } else reason)
  else pure reason

def removeTrap (toRemove : Bool) (address : Word) : Debugger PUnit :=
  if toRemove then removeByAddress address else pure ⟨⟩

/-- The last part of `target::run_until_address`, after the wait. -/
def finishRun (address : Word) (tid : Tid) (toRemove : Bool) (reason : StopReason) :
    Debugger StopReason := do
  let reason ← relabel address tid reason
  removeTrap toRemove address
  let _ ← threadAt tid
  updateThread tid fun t => { t with reason := reason }
  pure reason

/-- `target::run_until_address`. -/
def runUntilAddress (handlers : HitHandlers) (address : Word) (otid : Option Tid) :
    Debugger StopReason := do
  let m ← get
  let tid := otid.getD m.process.currentThread
  let toRemove ← setTrap address
  resume (some tid)
  let reason ← waitOnSignal handlers (some tid)
  finishRun address tid toRemove reason

end Debugger

/-- The report of a thread that executed the trap instruction at an address: the
program counter stands behind it. -/
structure WaitEvent.IsTrap (event : WaitEvent) (tid : Tid) (address : Word) : Prop where
  tid : event.tid = tid
  status : event.status = .stopped sigtrap 0
  siCode : event.siCode = .siKernel
  pc : User.pc event.user = address + 1

/-- The report of a thread that a debug register stopped before the instruction at
an address; the lowest bit of the status register tells which one it was. -/
structure WaitEvent.IsDebugTrap (event : WaitEvent) (tid : Tid) (address : Word) : Prop where
  tid : event.tid = tid
  status : event.status = .stopped sigtrap 0
  siCode : event.siCode = .trapHwbkpt
  pc : User.pc event.user = address
  slot : ∃ slot : Fin 4, builtinCtzll (User.drs event.user 6) = .ok slot ∧
    User.drs event.user (slot.castLE (by decide)) = address

/-- A debug register stops a thread before it executes an instruction. -/
def User.breaksAt (user : User) (address : Word) : Bool :=
  (List.finRange 4).any fun slot : Fin 4 =>
    (slotFields (User.drs user 7) slot).enable ≠ 0 ∧
      (slotFields (User.drs user 7) slot).condition = StoppointMode.condition .execute ∧
      User.drs user (slot.castLE (by decide)) = address

/-- What a thread reports first when it gets to an address before anything else
stops it: whatever was armed there strikes.  Without a trap it runs on, and any
report may follow. -/
inductive Strikes (tid : Tid) (address : Word) (armed : Machine) : List WaitAnswer → Prop where
  | debugRegister {event : WaitEvent} {rest : List WaitAnswer}
      (hbreaks : User.breaksAt (armed.kernel.threads tid).user address = true)
      (hevent : event.IsDebugTrap tid address) : Strikes tid address armed (.report event :: rest)
  | instruction {event : WaitEvent} {rest : List WaitAnswer}
      (hbreaks : User.breaksAt (armed.kernel.threads tid).user address = false)
      (hmemory : armed.kernel.memory address = int3) (hevent : event.IsTrap tid address) :
      Strikes tid address armed (.report event :: rest)
  | nothing {script : List WaitAnswer}
      (hbreaks : User.breaksAt (armed.kernel.threads tid).user address = false)
      (hmemory : armed.kernel.memory address ≠ int3) : Strikes tid address armed script

/-- Once the trap is set and the thread is let run, its next execution of the
address comes before any other stop. -/
def ArrivesNext (tid : Tid) (address : Word) (m : Machine) : Prop :=
  ∀ toRemove armed, setTrap address m = (.ok toRemove, armed) →
    ∃ running, resume (some tid) armed = (.ok ⟨⟩, running) ∧
      Strikes tid address armed running.kernel.script

/-- The process is stopped, and the thread is one of its threads. -/
structure Stoppable (tid : Tid) (m : Machine) : Prop where
  attached : m.process.isAttached = true
  tracked : ∃ thread, m.thread? tid = some thread ∧ thread.regs.undefinedOffsets = []
  main : m.isStopped m.process.pid = true
  others : ∀ entry ∈ m.process.threads, entry.1 ≠ tid →
    entry.2.state ≠ .running ∧ (entry.1 = m.process.pid → entry.2.state = .stopped)

/-- There is a continuation of the inferior with which the thread is let run,
whatever follows. -/
def Resumable (tid : Tid) (m : Machine) : Prop :=
  ∀ script, ∃ before running, resume (some tid) (m.setScript before) = (.ok ⟨⟩, running) ∧
    running.kernel.script = script

/-- The call returned with the thread stopped at the address, after a step. -/
def StopsAt (tid : Tid) (address : Word) (outcome : Except Failure StopReason × Machine) : Prop :=
  ∃ reason m, outcome = (.ok reason, m) ∧ reason.isStep = true ∧ reason.tid = tid ∧
    m.isStopped tid = true ∧ User.pc (m.kernel.threads tid).user = address ∧
    getPc tid m = (.ok address, m)

/-- The breakpoint that a site belongs to has no handler of its own. -/
def BreakpointSite.Stops (site : BreakpointSite) (points : StoppointCollection Breakpoint) : Prop :=
  ∀ parent, site.parent = some parent → ∃ point, points[parent]? = some point ∧
    (point.onHit = none ∨ point.onHit = some .stop)

/-- A thread that gets to the address stops there: if no site stands at the
address, the trap can be written; if there is a site, a debug register is set to the
address, or the site is enabled, its trap instruction is in memory, and no hit
handler lets the thread go on. -/
def TrapsThere (tid : Tid) (address : Word) (m : Machine) : Prop :=
  match m.process.breakpointSites.find? fun site => site.address = address with
  | none => m.wordMapped address = true
  | some site =>
      User.breaksAt (m.kernel.threads tid).user address = true ∨
        (site.isEnabled = true ∧ m.kernel.memory address = int3 ∧
          site.Stops m.process.breakpoints)

section Trap

variable {m m' : Machine} {address : Word} {index : Nat} {site : BreakpointSite}

theorem find?_site_eq (sites : StoppointCollection BreakpointSite) (address : Word) :
    sites.containsAddress address = (sites.find? fun site => site.address = address).isSome := by
  rw [Bool.eq_iff_iff, containsAddress_iff, List.find?_isSome]
  simp

/-- Where a site stands at the address, nothing is set. -/
theorem setTrap_taken
    (h : m.process.breakpointSites.find? (fun site => site.address = address) = some site) :
    setTrap address m = (.ok false, m) := by
  rw [setTrap, bind_of_ok (get_apply m), if_pos (by rw [find?_site_eq, h]; rfl)]
  rfl

/-- The temporary site, before it is enabled. -/
def trapSite (address : Word) : BreakpointSite := ⟨none, -1, address, false, 0, false, true, -1⟩

/-- The machine with the temporary site. -/
def Machine.withTrap (m : Machine) (address : Word) : Machine :=
  (m.setMemory (Function.update m.kernel.memory address int3)).addSites
    [{ trapSite address with isEnabled := true, savedData := m.kernel.memory address }]

theorem createBreakpointSite_free
    (h : m.process.breakpointSites.find? (fun site => site.address = address) = none) :
    createBreakpointSite address false true m =
      (.ok m.process.breakpointSites.length, m.addSites [trapSite address]) := by
  have hfree : m.process.breakpointSites.containsAddress address = false := by
    rw [find?_site_eq, h]
    rfl
  rw [createBreakpointSite, pushSite_of_free hfree]
  rfl

theorem setTrap_of_free
    (h : m.process.breakpointSites.find? (fun site => site.address = address) = none) :
    setTrap address m = (do
      enableSite m.process.breakpointSites.length
      pure true : Debugger Bool) (m.addSites [trapSite address]) := by
  have hfree : ¬ m.process.breakpointSites.containsAddress address = true := by
    rw [find?_site_eq, h]
    decide
  rw [setTrap, bind_of_ok (get_apply m), if_neg hfree, bind_of_ok (createBreakpointSite_free h)]

theorem addSites_last (m : Machine) (site : BreakpointSite) :
    (m.addSites [site]).process.breakpointSites[m.process.breakpointSites.length]? = some site :=
  List.getElem?_concat_length

theorem modify_concat {α : Type} (list : List α) (a : α) (f : α → α) :
    (list ++ [a]).modify list.length f = list ++ [f a] := by
  induction list with
  | nil => rfl
  | cons first rest ih => exact congrArg (first :: ·) ih

/-- Where no site stands at the address, one is set if the memory there is mapped. -/
theorem setTrap_free
    (h : m.process.breakpointSites.find? (fun site => site.address = address) = none)
    (hstopped : m.isStopped m.process.pid = true) (hmapped : m.wordMapped address = true) :
    setTrap address m = (.ok true, m.withTrap address) := by
  have henable := enableSite_software (addSites_last m (trapSite address)) rfl rfl hstopped hmapped
  rw [setTrap_of_free h, bind_of_ok henable]
  simp only [Machine.withTrap, Machine.addSites, Machine.setProcess, Machine.setMemory,
    modify_concat]
  rfl

/-- Where the memory is not mapped, setting the trap throws. -/
theorem setTrap_unmapped
    (h : m.process.breakpointSites.find? (fun site => site.address = address) = none)
    (hmapped : ¬ m.wordMapped address = true) : ∃ e m', setTrap address m = (.error e, m') := by
  have hpeek : peekData address "Enabling breakpoint site failed!" (m.addSites [trapSite address]) =
      (.error (.errno "Enabling breakpoint site failed!"), m.addSites [trapSite address]) := by
    rw [peekData, bind_of_ok (get_apply _), if_neg fun hboth => hmapped hboth.2]
    rfl
  have henable : enableSite m.process.breakpointSites.length (m.addSites [trapSite address]) =
      (.error (.errno "Enabling breakpoint site failed!"), m.addSites [trapSite address]) := by
    rw [enableSite, bind_of_ok (siteAt_eq (addSites_last m (trapSite address))),
      if_neg (by simp [trapSite]), if_neg (by simp [trapSite])]
    exact bind_of_error hpeek _
  exact ⟨_, _, (setTrap_of_free h).trans (bind_of_error henable _)⟩

end Trap

/-- What letting a thread run leaves alone: the breakpoints, what is mapped, the
other threads, and which registers of the thread are defined. -/
structure Bystanders where
  attached : Bool
  pid : Tid
  breakpoints : StoppointCollection Breakpoint
  mapped : Word → Bool
  status : Tid → Option ThreadStatus
  states : List (Tid × Option ProcessState)
  offsets : Option (List Nat)

def Machine.bystanders (m : Machine) (tid : Tid) : Bystanders where
  attached := m.process.isAttached
  pid := m.process.pid
  breakpoints := m.process.breakpoints
  mapped := m.kernel.mapped
  status := fun t => if t = tid then none else some (m.kernel.threads t).status
  states := m.process.threads.map fun entry =>
    (entry.1, if entry.1 = tid then none else some entry.2.state)
  offsets := (m.thread? tid).map (·.regs.undefinedOffsets)

section Bystanders

variable {m m' : Machine} {tid : Tid}

/-- An entry is changed in a way that is not seen. -/
theorem bystanders_updateThread (t : Tid) {f : ThreadState → ThreadState}
    (hstate : t = tid ∨ ∀ thread, (f thread).state = thread.state)
    (hoffsets : ∀ thread, m.thread? t = some thread →
      (f thread).regs.undefinedOffsets = thread.regs.undefinedOffsets) :
    (updateThread t f m).2.bystanders tid = m.bystanders tid := by
  have hstates : (updateThread t f m).2.process.threads.map
      (fun entry => (entry.1, if entry.1 = tid then none else some entry.2.state)) =
      m.process.threads.map fun entry =>
        (entry.1, if entry.1 = tid then none else some entry.2.state) := by
    simp only [updateThread, modifyProcess, modify_apply, Machine.setProcess, List.map_map]
    refine List.map_congr_left fun entry _ => ?_
    by_cases hentry : entry.1 = t
    · rcases hstate with rfl | hsame
      · simp [hentry]
      · simp [hentry, hsame]
    · simp [hentry]
  have hsame : ((updateThread t f m).2.thread? tid).map (·.regs.undefinedOffsets) =
      (m.thread? tid).map (·.regs.undefinedOffsets) := by
    by_cases ht : tid = t
    · subst ht
      rw [Machine.thread?_updateThread]
      cases hthread : m.thread? tid with
      | none => rfl
      | some thread => exact congrArg some (hoffsets thread hthread)
    · rw [Machine.thread?_updateThread_of_ne m f ht]
  simp only [Machine.bystanders, hstates, hsame]
  rfl

theorem bystanders_status (h : ∀ t, t ≠ tid →
      (m'.kernel.threads t).status = (m.kernel.threads t).status)
    (hprocess : m'.process = m.process) (hmapped : m'.kernel.mapped = m.kernel.mapped) :
    m'.bystanders tid = m.bystanders tid := by
  have hstatus : (fun t => if t = tid then none else some (m'.kernel.threads t).status) =
      fun t => if t = tid then none else some (m.kernel.threads t).status := by
    funext t
    by_cases ht : t = tid
    · rw [if_pos ht, if_pos ht]
    · rw [if_neg ht, if_neg ht, h t ht]
  simp only [Machine.bystanders, Machine.thread?, hstatus, hprocess, hmapped]

theorem writeRegister_bystanders (t : Tid) (id : RegisterId) (val : Value) :
    Respects (Fixes fun m => m.bystanders tid) (writeRegister t id val true) := by
  intro m
  cases hinfo : registerInfoById id with
  | error e =>
      have herror : (ofExcept (registerInfoById id) : Debugger RegisterInfo) m = (.error e, m) := by
        rw [ofExcept_apply, hinfo]
      rw [writeRegister, bind_of_error herror]
      rfl
  | ok info =>
      have hregs : ∀ {thread regs}, m.thread? t = some thread →
          thread.regs.writeData info val = .ok regs →
          (m.setRegs t regs).bystanders tid = m.bystanders tid := by
        intro thread regs hthread hwrite
        refine bystanders_updateThread t (.inr fun _ => rfl) fun found hfound => ?_
        rw [hthread] at hfound
        cases hfound
        rw [writeData_eq_ok hwrite]
      rcases writeRegister_cases hinfo t val m with
        ⟨e, h⟩ | ⟨thread, regs, hthread, hwrite, ⟨-, e, h⟩ | ⟨-, h⟩⟩ <;> rw [h]
      · exact refl_of (Fixes fun m : Machine => m.bystanders tid) m
      · exact hregs hthread hwrite
      · refine (bystanders_status (fun t' _ => setUser_status _ _ _ _) rfl rfl).trans ?_
        exact hregs hthread hwrite

theorem siteFrame_bystanders : SiteFrame true (Fixes fun m => m.bystanders tid) where
  slots := fun _ _ _ _ _ => .inl fun t _ id val _ => writeRegister_bystanders t id val
  memory := fun _ _ => rfl
  update := fun _ _ _ _ => rfl
  push := fun _ _ _ _ => rfl
  erase := fun _ _ => rfl
  note := fun _ _ _ => rfl

theorem resumeFrame_bystanders : ResumeFrame tid (Fixes fun m => m.bystanders tid) where
  enableSite := siteFrame_bystanders.enableSite
  disableSite := siteFrame_bystanders.disableSite
  swallowed := fun _ => bystanders_updateThread tid (.inl rfl) fun _ _ => rfl
  continued := fun _ => bystanders_updateThread tid (.inl rfl) fun _ _ => rfl
  script := fun _ _ _ _ => rfl
  deliver := fun m waiter event rest _ hmay => by
    refine bystanders_status (fun t ht => ?_) rfl rfl
    change ((m.deliver waiter event).kernel.threads t).status = _
    rw [status_deliver, if_neg (Machine.mayReport_some hmay ▸ ht)]
  running := fun m request _ => bystanders_status (fun t ht => by
    rw [status_letRun, if_neg ht]) rfl rfl
  process := fun _ => rfl
  note := fun _ _ _ => rfl

end Bystanders

/-- What of a site stays when it is lifted and laid again. -/
structure SiteShape where
  parent : Option Nat
  address : Word
  isEnabled : Bool
  isHardware : Bool

def BreakpointSite.shape (site : BreakpointSite) : SiteShape :=
  ⟨site.parent, site.address, site.isEnabled, site.isHardware⟩

def Machine.shapes (m : Machine) : List SiteShape :=
  m.process.breakpointSites.map BreakpointSite.shape

section Shapes

variable {m m' : Machine} {tid : Tid} {index : Nat}

theorem map_modify_of_comm {α β : Type} {f : α → α} {g : α → β} {h : β → β}
    (hcomm : ∀ a, g (f a) = h (g a)) (list : List α) (index : Nat) :
    (list.modify index f).map g = (list.map g).modify index h := by
  refine List.ext_getElem? fun i => ?_
  rw [List.getElem?_map, List.getElem?_modify, List.getElem?_modify, List.getElem?_map]
  cases list[i]? with
  | none => rfl
  | some a => by_cases hindex : index = i <;> simp [hindex, hcomm a]

theorem modify_of_eq {α : Type} {f : α → α} {list : List α} {index : Nat} {a : α}
    (hget : list[index]? = some a) (hsame : f a = a) : list.modify index f = list := by
  refine List.ext_getElem? fun i => ?_
  rw [List.getElem?_modify]
  by_cases hindex : index = i
  · subst hindex
    simp [hget, hsame]
  · simp [hindex]

theorem updateSite_shapes {f : BreakpointSite → BreakpointSite} {u : PUnit}
    (h : updateSite index f m = (.ok u, m')) (g : SiteShape → SiteShape)
    (hcomm : ∀ site, (f site).shape = g site.shape) : m'.shapes = m.shapes.modify index g := by
  obtain rfl := (congrArg Prod.snd h).symm
  exact map_modify_of_comm hcomm _ _

theorem writeRegister_sites (t : Tid) (id : RegisterId) (val : Value) :
    Respects (Fixes fun m : Machine => m.process.breakpointSites) (writeRegister t id val true) :=
  writeRegister_respects (fun _ => Respects.modify fun _ => rfl) (fun _ _ => rfl) id val true

theorem debugRegisterFrame_sites :
    DebugRegisterFrame (Fixes fun m : Machine => m.process.breakpointSites) :=
  fun t _ id val _ => writeRegister_sites t id val

theorem pokeData_sites (address data : Word) (what : String) :
    Respects (Fixes fun m : Machine => m.process.breakpointSites) (pokeData address data what) :=
  Respects.bind Respects.get fun _ =>
    Respects.ite (Respects.modify fun _ => rfl) (Respects.throw _)

/-- A site that `enable` returned from has its flag set, and the others are as they
were. -/
theorem enableSite_shapes {u : PUnit} (h : enableSite index m = (.ok u, m')) :
    m'.shapes = m.shapes.modify index fun shape => { shape with isEnabled := true } := by
  obtain ⟨site, m₁, hat, hrest⟩ := Eff.bind_eq_ok.mp h
  obtain ⟨hsite, rfl⟩ := siteAt_eq_ok hat
  split at hrest
  · rename_i henabled
    cases hrest
    have hshape : m'.shapes[index]? = some site.shape := by
      rw [Machine.shapes, List.getElem?_map, hsite]
      rfl
    refine (modify_of_eq hshape ?_).symm
    simp [BreakpointSite.shape, henabled]
  split at hrest
  · obtain ⟨slot, m₂, hset, hrest₂⟩ := Eff.bind_eq_ok.mp hrest
    obtain ⟨u₁, m₃, hslot, hlast⟩ := Eff.bind_eq_ok.mp hrest₂
    have hsame : m₂.process.breakpointSites = m₁.process.breakpointSites :=
      (debugRegisterFrame_sites.setHardwareStoppoint (fun _ _ _ => rfl) _ _ _).apply_eq hset
    have hslots := updateSite_shapes hslot id fun _ => rfl
    rw [updateSite_shapes hlast (fun shape => { shape with isEnabled := true }) fun _ => rfl,
      hslots,
      List.modify_id, Machine.shapes, hsame]
    rfl
  · obtain ⟨data, m₂, hpeek, hrest₂⟩ := Eff.bind_eq_ok.mp hrest
    obtain ⟨u₁, m₃, hsaved, hrest₃⟩ := Eff.bind_eq_ok.mp hrest₂
    obtain ⟨u₂, m₄, hpoke, hlast⟩ := Eff.bind_eq_ok.mp hrest₃
    have hpeeked : m₂.process.breakpointSites = m₁.process.breakpointSites :=
      (SiteFrame.peekData (R := Fixes fun m : Machine => m.process.breakpointSites) _ _).apply_eq
        hpeek
    have hpoked : m₄.process.breakpointSites = m₃.process.breakpointSites :=
      (pokeData_sites _ _ _).apply_eq hpoke
    have hsaves := updateSite_shapes hsaved id fun _ => rfl
    rw [updateSite_shapes hlast (fun shape => { shape with isEnabled := true }) fun _ => rfl,
      Machine.shapes, hpoked]
    change m₃.shapes.modify _ _ = _
    rw [hsaves, List.modify_id, Machine.shapes, hpeeked]
    rfl

/-- A site that `disable` returned from has its flag cleared, and the others are as
they were. -/
theorem disableSite_shapes {u : PUnit} (h : disableSite index m = (.ok u, m')) :
    m'.shapes = m.shapes.modify index fun shape => { shape with isEnabled := false } := by
  obtain ⟨site, m₁, hat, hrest⟩ := Eff.bind_eq_ok.mp h
  obtain ⟨hsite, rfl⟩ := siteAt_eq_ok hat
  split at hrest
  · rename_i hdisabled
    cases hrest
    have hshape : m'.shapes[index]? = some site.shape := by
      rw [Machine.shapes, List.getElem?_map, hsite]
      rfl
    refine (modify_of_eq hshape ?_).symm
    have hflag : site.isEnabled = false := by simpa using hdisabled
    simp [BreakpointSite.shape, hflag]
  split at hrest
  · obtain ⟨u₁, m₂, hclear, hrest₂⟩ := Eff.bind_eq_ok.mp hrest
    obtain ⟨u₂, m₃, hslot, hlast⟩ := Eff.bind_eq_ok.mp hrest₂
    have hsame : m₂.process.breakpointSites = m₁.process.breakpointSites :=
      (debugRegisterFrame_sites.clearHardwareStoppoint (fun _ _ _ => rfl) _).apply_eq hclear
    have hslots := updateSite_shapes hslot id fun _ => rfl
    rw [updateSite_shapes hlast (fun shape => { shape with isEnabled := false }) fun _ => rfl,
      hslots,
      List.modify_id, Machine.shapes, hsame]
    rfl
  · obtain ⟨data, m₂, hpeek, hrest₂⟩ := Eff.bind_eq_ok.mp hrest
    obtain ⟨u₁, m₃, hpoke, hlast⟩ := Eff.bind_eq_ok.mp hrest₂
    have hpeeked : m₂.process.breakpointSites = m₁.process.breakpointSites :=
      (SiteFrame.peekData (R := Fixes fun m : Machine => m.process.breakpointSites) _ _).apply_eq
        hpeek
    have hpoked : m₃.process.breakpointSites = m₂.process.breakpointSites :=
      (pokeData_sites _ _ _).apply_eq hpoke
    rw [updateSite_shapes hlast (fun shape => { shape with isEnabled := false }) fun _ => rfl,
      Machine.shapes, hpoked, hpeeked]
    rfl

theorem waitpid_sites (waiter : Waiter) (toAwait : Option Tid) :
    Respects (Fixes fun m : Machine => m.process.breakpointSites) (waitpid waiter toAwait) := by
  intro m
  rcases waitpid_cases waiter toAwait m with h | ⟨rest, -, h⟩ | ⟨event, rest, -, -, h⟩ <;>
    rw [h] <;>
    rfl

theorem ptraceRun_sites (request : RunRequest) (tid : Tid) :
    Respects (Fixes fun m : Machine => m.process.breakpointSites) (ptraceRun request tid) := by
  intro m
  rcases ptraceRun_cases request tid m with ⟨-, h⟩ | ⟨-, h⟩ <;> rw [h] <;> rfl

theorem swallowPendingSigstop_sites (tid : Tid) :
    Respects (Fixes fun m : Machine => m.process.breakpointSites) (swallowPendingSigstop tid) := by
  refine Respects.bind (Respects.asks _) fun thread => Respects.ite ?_ (Respects.pure _)
  refine Respects.bind (ptraceRun_sites _ _) fun _ => ?_
  exact Respects.bind (waitpid_sites _ _) fun _ => Respects.modify fun _ => rfl

theorem samplePc_sites (tid : Tid) :
    Respects (Fixes fun m : Machine => m.process.breakpointSites) (samplePc tid) :=
  Respects.bind (readRegister_respects _ _) fun _ =>
    Respects.bind (Respects.modify fun _ => rfl) fun _ => Respects.pure _

theorem sendContinue_sites (tid : Tid) :
    Respects (Fixes fun m : Machine => m.process.breakpointSites) (sendContinue tid) := by
  refine Respects.bind Respects.get fun m => ?_
  refine Respects.bind (ptraceRun_sites _ _) fun ran => Respects.ite (Respects.throw _) ?_
  refine Respects.bind (Respects.asks _) fun thread => ?_
  exact Respects.bind (Respects.modify fun _ => rfl) fun _ => Respects.modify fun _ => rfl

/-- The site that a search by address finds, when it is enabled. -/
theorem shapes_of_enabled {pc : Word} {bp : Nat}
    (henabled : m.process.breakpointSites.enabledStoppointAtAddress pc = true)
    (hbp : m.process.breakpointSites.getByAddress pc = .ok bp) :
    ∃ shape, m.shapes[bp]? = some shape ∧ shape.isEnabled = true := by
  have hget := StoppointCollection.getElem?_of_getByAddress hbp
  unfold StoppointCollection.enabledStoppointAtAddress at henabled
  split at henabled
  · rename_i site hsite
    refine ⟨site.shape, ?_, henabled⟩
    rw [Machine.shapes, List.getElem?_map, hget, hsite]
    rfl
  · cases henabled

/-- Stepping off a site lays it again. -/
theorem stepOverBreakpoint_shapes {u : PUnit} (h : stepOverBreakpoint tid m = (.ok u, m')) :
    m'.shapes = m.shapes := by
  obtain ⟨pc, m₁, hsample, hrest⟩ := Eff.bind_eq_ok.mp h
  have hsampled : m₁.shapes = m.shapes :=
    congrArg (List.map BreakpointSite.shape) ((samplePc_sites tid).apply_eq hsample)
  rw [bind_of_ok (get_apply _)] at hrest
  split at hrest
  · rename_i henabled
    obtain ⟨bp, m₂, hbp, hrest₂⟩ := Eff.bind_eq_ok.mp hrest
    obtain ⟨hfound, rfl⟩ := Prod.mk.inj hbp
    obtain ⟨shape, hshape, hflag⟩ := shapes_of_enabled henabled hfound
    obtain ⟨u₁, m₃, hlift, hrest₃⟩ := Eff.bind_eq_ok.mp hrest₂
    obtain ⟨u₂, m₄, hswallow, hrest₄⟩ := Eff.bind_eq_ok.mp hrest₃
    obtain ⟨ran, m₅, hrun, hrest₅⟩ := Eff.bind_eq_ok.mp hrest₄
    split at hrest₅
    · cases hrest₅
    obtain ⟨answer, m₆, hwait, hrest₆⟩ := Eff.bind_eq_ok.mp hrest₅
    cases answer with
    | none => cases hrest₆
    | some event =>
        obtain ⟨u₃, m₇, hdisable, hlifted⟩ := Eff.bind_eq_ok.mp hlift
        obtain ⟨u₄, m₈, henable, hrelaid⟩ := Eff.bind_eq_ok.mp hrest₆
        have hwaited : m₆.process.breakpointSites = m₅.process.breakpointSites :=
          (waitpid_sites _ _).apply_eq hwait
        have hran : m₅.process.breakpointSites = m₄.process.breakpointSites :=
          (ptraceRun_sites _ _).apply_eq hrun
        have hswallowed : m₄.process.breakpointSites = m₃.process.breakpointSites :=
          (swallowPendingSigstop_sites _).apply_eq hswallow
        have hnoted : m₃.process.breakpointSites = m₇.process.breakpointSites :=
          congrArg (fun r => r.2.process.breakpointSites) hlifted.symm
        have hmiddle := hwaited.trans (hran.trans (hswallowed.trans hnoted))
        have hlast : m'.shapes = m₈.shapes :=
          congrArg (fun r => r.2.shapes) hrelaid.symm
        rw [hlast, enableSite_shapes henable, Machine.shapes, hmiddle]
        change m₇.shapes.modify _ _ = _
        rw [disableSite_shapes hdisable, List.modify_modify_eq, ← hsampled]
        refine modify_of_eq hshape ?_
        change { shape with isEnabled := true } = shape
        rw [← hflag]
  · cases hrest
    exact hsampled

/-- A thread that was let run has left the sites as they were. -/
theorem resume_shapes {u : PUnit} (h : resume (some tid) m = (.ok u, m')) :
    m'.shapes = m.shapes := by
  rw [resume, bind_of_ok (get_apply m)] at h
  obtain ⟨u₁, m₁, hover, hcontinue⟩ := Eff.bind_eq_ok.mp h
  have hcontinued : m'.process.breakpointSites = m₁.process.breakpointSites :=
    (sendContinue_sites _).apply_eq hcontinue
  rw [Machine.shapes, hcontinued]
  exact stepOverBreakpoint_shapes hover

/-- A thread that was let run is running. -/
theorem resume_status {u : PUnit} (h : resume (some tid) m = (.ok u, m')) :
    (m'.kernel.threads tid).status = .running := by
  rw [resume, bind_of_ok (get_apply m), Option.getD_some] at h
  obtain ⟨u₁, m₁, -, hcontinue⟩ := Eff.bind_eq_ok.mp h
  rw [sendContinue, bind_of_ok (get_apply m₁)] at hcontinue
  obtain ⟨ran, m₂, hrun, hrest⟩ := Eff.bind_eq_ok.mp hcontinue
  split at hrest
  · cases hrest
  rename_i hran
  have hstatus : (m₂.kernel.threads tid).status = .running := by
    rcases ptraceRun_cases _ tid m₁ with ⟨-, h'⟩ | ⟨-, h'⟩
    · rw [h'] at hrun
      cases hrun
      rw [status_letRun, if_pos rfl]
    · rw [h'] at hrun
      cases hrun
      exact absurd rfl hran
  obtain ⟨thread, m₃, hat, hrest₃⟩ := Eff.bind_eq_ok.mp hrest
  obtain ⟨-, rfl⟩ := threadAt_eq_ok hat
  cases hrest₃
  exact hstatus

end Shapes

/-- The thread may be running, and everything else rests. -/
structure Waiting (tid : Tid) (m : Machine) : Prop where
  attached : m.process.isAttached = true
  tracked : ∃ thread, m.thread? tid = some thread ∧ thread.regs.undefinedOffsets = []
  main : m.process.pid ≠ tid → m.isStopped m.process.pid = true
  others : ∀ entry ∈ m.process.threads, entry.1 ≠ tid →
    entry.2.state ≠ .running ∧ (entry.1 = m.process.pid → entry.2.state = .stopped)

section Waiting

variable {m m' : Machine} {tid : Tid}

theorem Stoppable.setScript (h : Stoppable tid m) (script : List WaitAnswer) :
    Stoppable tid (m.setScript script) :=
  ⟨h.attached, h.tracked, h.main, h.others⟩

theorem Stoppable.waiting (h : Stoppable tid m) : Waiting tid m :=
  ⟨h.attached, h.tracked, fun _ => h.main, h.others⟩

theorem Waiting.of_bystanders (h : Waiting tid m)
    (hsame : m'.bystanders tid = m.bystanders tid) : Waiting tid m' := by
  have hpid : m'.process.pid = m.process.pid := congrArg Bystanders.pid hsame
  refine ⟨(congrArg Bystanders.attached hsame).trans h.attached, ?_, fun hmain => ?_, ?_⟩
  · obtain ⟨thread, hthread, hdefined⟩ := h.tracked
    have hoffsets : (m'.thread? tid).map (·.regs.undefinedOffsets) = some [] := by
      refine (congrArg Bystanders.offsets hsame).trans ?_
      simp [Machine.bystanders, hthread, hdefined]
    obtain ⟨thread', hthread', hdefined'⟩ := Option.map_eq_some_iff.mp hoffsets
    exact ⟨thread', hthread', hdefined'⟩
  · have hstatus := congrFun (congrArg Bystanders.status hsame) m'.process.pid
    simp only [Machine.bystanders, if_neg hmain, Option.some.injEq] at hstatus
    have hmain' := h.main (hpid ▸ hmain)
    rw [Machine.isStopped, hstatus, hpid]
    exact hmain'
  · intro entry hentry hother
    have hin : (entry.1, (some entry.2.state : Option ProcessState)) ∈
        (m.bystanders tid).states := by
      rw [← hsame]
      refine List.mem_map.mpr ⟨entry, hentry, ?_⟩
      rw [if_neg hother]
    obtain ⟨old, hold, heq⟩ := List.mem_map.mp hin
    obtain ⟨hkey, hstate⟩ := Prod.mk.inj heq
    rw [if_neg (hkey ▸ hother)] at hstate
    have hboth := h.others old hold (hkey ▸ hother)
    rw [Option.some.inj hstate, hkey, ← hpid] at hboth
    exact hboth

/-- A register of eight bytes is read from the cache. -/
theorem readRegister_word {id : RegisterId} {info : RegisterInfo}
    (hinfo : registerInfoById id = .ok info) (hformat : info.format = .uint)
    (hsize : info.size = 8) {thread : ThreadState} (hthread : m.thread? tid = some thread)
    (hdefined : thread.regs.undefinedOffsets = []) :
    readRegister tid id m = (.ok (Registers.word thread.regs.data 64 info.offset), m) := by
  have hundefined : thread.regs.isUndefined info = false := by
    simp [Registers.isUndefined, hdefined]
  rw [readRegister, bind_of_ok (threadAt_eq hthread), ofExcept_apply, Registers.readU64, hinfo,
    ok_bind, Registers.read, hundefined, hformat, hsize]
  rfl

theorem getPc_eq {thread : ThreadState} (hthread : m.thread? tid = some thread)
    (hdefined : thread.regs.undefinedOffsets = []) :
    getPc tid m = (.ok (User.pc thread.regs.data), m) :=
  readRegister_word rip_info rfl rfl hthread hdefined

/-- The machine in which a trap of a thread is decoded: its registers are read. -/
def Machine.decoded (m : Machine) (reason : StopReason) : Machine :=
  ((m.load reason.tid).setProcess fun p => { p with expectingSyscallExit := false }).observe
    (.augmented (reason.withTrap (m.kernel.threads reason.tid).siCode))

theorem bystanders_decoded (reason : StopReason) :
    (m.decoded reason).bystanders tid = m.bystanders tid := by
  change (m.load reason.tid).bystanders tid = _
  exact bystanders_updateThread reason.tid (.inr fun _ => rfl) fun _ _ => rfl

/-- The first stop of a trap. -/
def trapReason (tid : Tid) : StopReason := .ofWait tid (.stopped sigtrap 0)

/-- The registers that are read for a trap. -/
theorem decoded_thread {thread : ThreadState} (hthread : m.thread? tid = some thread) :
    ∃ thread', (m.decoded (trapReason tid)).thread? tid = some thread' ∧
      thread'.regs.undefinedOffsets = thread.regs.undefinedOffsets ∧
      ∀ i, isRegisterByte i → thread'.regs.data i = (m.kernel.threads tid).user i := by
  have hload : (m.decoded (trapReason tid)).thread? tid =
      some { thread with regs := reload thread.regs (m.kernel.threads tid).user } := by
    change (m.load tid).thread? tid = _
    rw [Machine.load, Machine.thread?_updateThread, hthread]
    rfl
  exact ⟨_, hload, rfl, fun i hi => reload_apply _ _ hi⟩

/-- A trap of a tracked thread is decoded. -/
theorem handleSignal_trap (handlers : HitHandlers) (hattached : m.process.isAttached = true)
    {thread : ThreadState} (hthread : m.thread? tid = some thread)
    (hstopped : m.isStopped tid = true) :
    handleSignal handlers (trapReason tid) true m = (do
      let goesOn ← handleTrap handlers
        ((trapReason tid).withTrap (m.kernel.threads tid).siCode) true
      if goesOn then pure none
      else pure (some ((trapReason tid).withTrap (m.kernel.threads tid).siCode)) :
        Debugger (Option StopReason)) (m.decoded (trapReason tid)) := by
  have htid : (trapReason tid).tid = tid := rfl
  have hload : readAllRegisters tid m = (.ok ⟨⟩, m.load tid) := by
    rw [readAllRegisters, bind_of_ok (threadAt_eq hthread), bind_of_ok (get_apply m),
      if_pos hstopped]
    rfl
  have haugment : augmentStopReason (trapReason tid) (m.load tid) =
      (.ok ((trapReason tid).withTrap (m.kernel.threads tid).siCode),
        m.decoded (trapReason tid)) := by
    rw [augmentStopReason, bind_of_ok (get_apply _), if_neg, if_neg]
    · rfl
    · change ¬ sigtrap = sigtrapSyscall
      decide
    · rw [htid]
      change ¬ (!m.isStopped tid) = true
      rw [hstopped]
      decide
  have hdecode : decodeSignal handlers (trapReason tid) true m = _ :=
    (bind_of_ok hload _).trans (bind_of_ok haugment _)
  rcases handleSignal_cases handlers (trapReason tid) true m with
    ⟨hclone, -, -⟩ | ⟨hexit, -⟩ | ⟨-, hnew, -, -⟩ | ⟨_, -, -, -, hinfo, -⟩ |
      ⟨_, -, -, -, h⟩ | ⟨-, -, hmain, -⟩
  · cases hclone
  · exact absurd ⟨hattached, rfl⟩ hexit
  · rw [htid, hthread] at hnew
    cases hnew
  · change sigtrap = sigstop at hinfo
    exact absurd hinfo (by decide)
  · rw [h, hdecode]
    have hinfo : ((trapReason tid).withTrap (m.kernel.threads tid).siCode).info = sigtrap := rfl
    rw [if_pos hinfo]
  · cases hmain

end Waiting

/-- A thread is stopped at an address, and its cached registers say so. -/
structure StandsAt (tid : Tid) (address : Word) (m : Machine) : Prop where
  stopped : m.isStopped tid = true
  pc : User.pc (m.kernel.threads tid).user = address
  cached : ∃ thread, m.thread? tid = some thread ∧ thread.regs.undefinedOffsets = [] ∧
    User.pc thread.regs.data = address

section Trapped

variable {m m' : Machine} {tid : Tid} {address : Word} {site : BreakpointSite}
  {handlers : HitHandlers} {reason : StopReason}

theorem StandsAt.getPc (h : StandsAt tid address m) :
    Debugger.getPc tid m = (.ok address, m) := by
  obtain ⟨thread, hthread, hdefined, hpc⟩ := h.cached
  rw [getPc_eq hthread hdefined, hpc]

theorem StandsAt.of_same (h : StandsAt tid address m)
    (hkernel : m'.kernel.threads = m.kernel.threads)
    {thread' : ThreadState} (hthread' : m'.thread? tid = some thread')
    (hregs : ∀ thread, m.thread? tid = some thread → thread'.regs = thread.regs) :
    StandsAt tid address m' := by
  obtain ⟨thread, hthread, hdefined, hpc⟩ := h.cached
  refine ⟨?_, ?_, thread', hthread', ?_, ?_⟩
  · rw [Machine.isStopped, hkernel]
    exact h.stopped
  · rw [hkernel]
    exact h.pc
  · rw [hregs thread hthread]
    exact hdefined
  · rw [hregs thread hthread]
    exact hpc

/-- A stopped thread is set to an address. -/
theorem setPc_standsAt {old : Word} (h : StandsAt tid old m) (address : Word) :
    ∃ m', setPc address tid m = (.ok ⟨⟩, m') ∧ StandsAt tid address m' ∧
      m'.bystanders tid = m.bystanders tid ∧
      m'.process.breakpointSites = m.process.breakpointSites := by
  obtain ⟨thread, hthread, hdefined, -⟩ := h.cached
  have hwrite : thread.regs.writeData (gpr64 .rip "rip" 16 128) (.u64 address) =
      .ok { thread.regs with
      data := thread.regs.data.write (gpr64 .rip "rip" 16 128).offset (toLe 8
        (widen (gpr64 .rip "rip" 16 128) (.u64 address)).toNat) } := rfl
  have hset := writeRegister_of_stopped rip_info hthread hwrite h.stopped
  refine ⟨_, hset, ?_, (writeRegister_bystanders tid .rip (.u64 address)).apply_eq hset,
    (writeRegister_sites tid .rip (.u64 address)).apply_eq hset⟩
  obtain ⟨found, hfound, -, heq⟩ := setPc_eq_ok hset
  rw [hthread] at hfound
  cases hfound
  rw [heq]
  refine ⟨?_, ?_, ?_⟩
  · rw [Machine.isStopped, setUser_status]
    exact h.stopped
  · rw [setUser_user, User.pc_write]
  · refine ⟨_, (m.thread?_setRegs tid _).trans (congrArg _ hthread), hdefined, ?_⟩
    exact User.pc_write _ _

/-- The site that a search by address finds. -/
theorem getByAddress_of_find?
    (h : m.process.breakpointSites.find? (fun site => site.address = address) = some site) :
    ∃ index, m.process.breakpointSites.getByAddress address = .ok index ∧
      m.process.breakpointSites[index]? = some site := by
  have hcontains : m.process.breakpointSites.containsAddress address = true := by
    rw [find?_site_eq, h]
    rfl
  obtain ⟨index, hindex⟩ := Option.isSome_iff_exists.mp hcontains
  have hget : m.process.breakpointSites.getByAddress address = .ok index := by
    rw [StoppointCollection.getByAddress, hindex]
  exact ⟨index, hget, (StoppointCollection.getElem?_of_getByAddress hget).trans h⟩

theorem enabledStoppointAtAddress_eq
    (h : m.process.breakpointSites.find? (fun site => site.address = address) = some site) :
    m.process.breakpointSites.enabledStoppointAtAddress address = site.isEnabled := by
  have hfind : m.process.breakpointSites.find? (fun point => Stoppoint.atAddress point address) =
      some site := h
  rw [StoppointCollection.enabledStoppointAtAddress, hfind]
  rfl

/-- Up to where its breakpoint is notified, a trap at an enabled site. -/
theorem handleTrap_enabled (handlers : HitHandlers) (h : StandsAt tid (address + 1) m)
    (htid : reason.tid = tid)
    (htrap : reason.trapReason = some .softwareBreak)
    (hsite : m.process.breakpointSites.find? (fun site => site.address = address) = some site)
    (henabled : site.isEnabled = true) :
    ∃ m', StandsAt tid address m' ∧ m'.bystanders tid = m.bystanders tid ∧
      m'.process.breakpointSites = m.process.breakpointSites ∧
      handleTrap handlers reason true m = (match site.parent with
        | none => pure false
        | some parent => do
            let shouldRestart ← notifyHit handlers parent
            pure (shouldRestart && true) : Debugger Bool) m' := by
  have hbegin : address + 1 - 1 = address := by bv_omega
  obtain ⟨m', hset, hstands, hsame, hsites⟩ := setPc_standsAt h address
  obtain ⟨index, hindex, hat⟩ := getByAddress_of_find? hsite
  have hget : (ofExcept (m.process.breakpointSites.getByAddress address) : Debugger Nat) m' =
      (.ok index, m') := by
    rw [ofExcept_apply, hindex]
  refine ⟨m', hstands, hsame, hsites, ?_⟩
  rw [handleTrap, htid, bind_of_ok h.getPc, bind_of_ok (get_apply m), hbegin,
    if_pos ⟨htrap, (enabledStoppointAtAddress_eq hsite).trans henabled⟩, bind_of_ok hset,
    bind_of_ok hget]
  exact bind_of_ok (siteAt_eq (hsites ▸ hat)) _

/-- A trap at an enabled site whose breakpoint has no handler is reported. -/
theorem handleTrap_stops (h : StandsAt tid (address + 1) m) (htid : reason.tid = tid)
    (htrap : reason.trapReason = some .softwareBreak)
    (hsite : m.process.breakpointSites.find? (fun site => site.address = address) = some site)
    (henabled : site.isEnabled = true) (hstops : site.Stops m.process.breakpoints) :
    ∃ m', handleTrap handlers reason true m = (.ok false, m') ∧ StandsAt tid address m' ∧
      m'.bystanders tid = m.bystanders tid ∧
      m'.process.breakpointSites = m.process.breakpointSites := by
  obtain ⟨m', hstands, hsame, hsites, hrun⟩ := handleTrap_enabled handlers h htid htrap hsite
    henabled
  refine ⟨m', ?_, hstands, hsame, hsites⟩
  rw [hrun]
  cases hparent : site.parent with
  | none => rfl
  | some parent =>
      obtain ⟨point, hpoint, hhandler⟩ := hstops parent hparent
      have hpoints : m'.process.breakpoints = m.process.breakpoints :=
        congrArg Bystanders.breakpoints hsame
      have hhit : notifyHit handlers parent m' = (.ok false, m') := by
        rw [notifyHit, bind_of_ok (get_apply m'), hpoints, hpoint]
        rcases hhandler with hnone | hstop
        · simp only [hnone]
          rfl
        · simp only [hstop]
          rfl
      exact bind_of_ok hhit _

/-- The hit handlers of the debugger's own breakpoints ask to go on. -/
def HitHandlers.GoOn (handlers : HitHandlers) : Prop :=
  ∀ handler m, (handlers.onHit handler m).2 ≠ .ok false

/-- A trap at an enabled site whose breakpoint has a handler is not reported. -/
theorem handleTrap_goesOn (hhandlers : handlers.GoOn) (h : StandsAt tid (address + 1) m)
    (htid : reason.tid = tid) (htrap : reason.trapReason = some .softwareBreak)
    (hsite : m.process.breakpointSites.find? (fun site => site.address = address) = some site)
    (henabled : site.isEnabled = true) (hstops : ¬ site.Stops m.process.breakpoints)
    {m' : Machine} :
    handleTrap handlers reason true m ≠ (.ok false, m') := by
  obtain ⟨m₁, -, hsame, -, hrun⟩ := handleTrap_enabled handlers h htid htrap hsite henabled
  have hpoints : m₁.process.breakpoints = m.process.breakpoints :=
    congrArg Bystanders.breakpoints hsame
  rw [hrun]
  intro hfalse
  cases hparent : site.parent with
  | none =>
      refine hstops fun parent hsome => ?_
      rw [hparent] at hsome
      cases hsome
  | some parent =>
      rw [hparent] at hfalse
      obtain ⟨shouldRestart, m₂, hhit, hend⟩ := Eff.bind_eq_ok.mp hfalse
      cases shouldRestart with
      | true => cases hend
      | false =>
          rw [notifyHit, bind_of_ok (get_apply m₁), hpoints] at hhit
          refine hstops fun other hother => ?_
          rw [hparent] at hother
          cases hother
          cases hpoint : m.process.breakpoints[parent]? with
          | none =>
              rw [hpoint] at hhit
              cases hhit
          | some point =>
              refine ⟨point, rfl, ?_⟩
              rw [hpoint] at hhit
              cases hhandler : point.onHit with
              | none => exact .inl rfl
              | some handler =>
                  simp only [hhandler] at hhit
                  cases handler with
                  | stop => exact .inr rfl
                  | resolveRendezvous =>
                      obtain ⟨u, m₃, -, hanswer⟩ := Eff.bind_eq_ok.mp hhit
                      exact absurd (congrArg Prod.fst hanswer) (hhandlers _ _)
                  | reloadLibraries =>
                      obtain ⟨u, m₃, -, hanswer⟩ := Eff.bind_eq_ok.mp hhit
                      exact absurd (congrArg Prod.fst hanswer) (hhandlers _ _)

/-- A trap where no enabled site stands is reported. -/
theorem handleTrap_unowned (h : StandsAt tid (address + 1) m) (htid : reason.tid = tid)
    (htrap : reason.trapReason = some .softwareBreak)
    (hdisabled : m.process.breakpointSites.enabledStoppointAtAddress address = false) :
    handleTrap handlers reason true m = (.ok false, m) := by
  have hbegin : address + 1 - 1 = address := by bv_omega
  rw [handleTrap, htid, bind_of_ok h.getPc, bind_of_ok (get_apply m), hbegin, if_neg, if_neg]
  · simp [htrap]
  · simp [htrap]
  · simp [hdisabled]

/-- A debug register is read from the cache. -/
theorem readRegister_drs {thread : ThreadState} (hthread : m.thread? tid = some thread)
    (hdefined : thread.regs.undefinedOffsets = []) {number : Fin 8} {id : RegisterId}
    (hid : debugRegister ((number : Nat) : Int) = .ok id) :
    readRegister tid id m = (.ok (User.drs thread.regs.data number), m) := by
  obtain ⟨name, hinfo⟩ := debugRegister_drInfo hid
  rw [readRegister_word hinfo rfl rfl hthread hdefined]
  rfl

/-- A stop by a debug register at an address where a site stands is reported. -/
theorem handleTrap_hardware {thread : ThreadState} (hthread : m.thread? tid = some thread)
    (hdefined : thread.regs.undefinedOffsets = []) (htid : reason.tid = tid)
    (htrap : reason.trapReason = some .hardwareBreak) {slot : Fin 4}
    (hstatus : builtinCtzll (User.drs thread.regs.data 6) = .ok slot)
    (hslot : User.drs thread.regs.data (slot.castLE (by decide)) = address)
    (hsite : m.process.breakpointSites.find? (fun site => site.address = address) = some site) :
    handleTrap handlers reason true m = (.ok false, m) := by
  obtain ⟨id, hid⟩ := debugRegister_slot slot.isLt
  have hsix : readRegister tid .dr6 m = (.ok (User.drs thread.regs.data 6), m) :=
    readRegister_drs hthread hdefined (rfl : debugRegister ((6 : Fin 8) : Nat) = .ok .dr6)
  have hctz : (ofExcept (builtinCtzll (User.drs thread.regs.data 6)) : Debugger Nat) m =
      (.ok slot, m) := by
    rw [ofExcept_apply, hstatus]
  have hread : readRegister tid id m = (.ok address, m) := by
    rw [← hslot]
    exact readRegister_drs hthread hdefined
      (hid : debugRegister ((slot.castLE (by decide) : Fin 8) : Nat) = .ok id)
  have hcurrent : getCurrentHardwareStoppoint tid m = (.ok (.inl site.id), m) := by
    rw [getCurrentHardwareStoppoint, bind_of_ok hsix, bind_of_ok hctz, hid]
    change (readRegister tid id >>= _) m = _
    rw [bind_of_ok hread, bind_of_ok (get_apply m), hsite]
    rfl
  rw [handleTrap, htid, bind_of_ok (getPc_eq hthread hdefined), bind_of_ok (get_apply m),
    if_neg (by simp [htrap]), if_pos htrap, bind_of_ok hcurrent]
  rfl

end Trapped

section Reported

variable {m m' : Machine} {tid : Tid} {handlers : HitHandlers}

theorem forEach_of_fixed {α : Type} {f : α → Debugger PUnit} {items : List α}
    (h : ∀ a ∈ items, f a m = (.ok ⟨⟩, m)) : forEach f items m = (.ok ⟨⟩, m) := by
  induction items with
  | nil => rfl
  | cons a rest ih =>
      rw [forEach, bind_of_ok (h a List.mem_cons_self)]
      exact ih fun b hb => h b (List.mem_cons_of_mem a hb)

/-- Where no thread is recorded as running, there is none to stop. -/
theorem stopRunningThreads_rest (handlers : HitHandlers)
    (h : ∀ entry ∈ m.process.threads, entry.2.state ≠ .running) :
    stopRunningThreads handlers m = (.ok ⟨⟩, m) := by
  rw [stopRunningThreads, bind_of_ok (get_apply m)]
  refine forEach_of_fixed fun t ht => ?_
  obtain ⟨thread, hthread⟩ := Option.isSome_iff_exists.mp ((m.mem_threads_iff t).mp ht)
  have hstate := h _ (Machine.mem_of_thread? hthread)
  rw [stopThread, bind_of_ok (threadAt_eq hthread), if_neg hstate]
  rfl

/-- Where the main thread has not ended, cleaning up reports no exit. -/
theorem cleanupExitedThreads_rest (h : ∀ entry ∈ m.process.threads, entry.1 ≠ tid →
      entry.1 = m.process.pid → entry.2.state = .stopped) :
    cleanupExitedThreads tid m = (.ok none,
      ({ m with trace := m.reportsGone tid ++ m.trace } : Machine).cleanup tid) := by
  have hnone : (m.process.gone tid).find? (fun entry => entry.1 = m.process.pid) = none := by
    refine List.find?_eq_none.mpr fun entry hentry hmain => ?_
    obtain ⟨hin, hgone⟩ := List.mem_filter.mp hentry
    simp only [isCleanedUp, decide_eq_true_eq] at hgone hmain
    have hstopped := h entry hin hgone.1 hmain
    rcases hgone.2 with hexited | hterminated
    · rw [hstopped] at hexited
      cases hexited
    · rw [hstopped] at hterminated
      cases hterminated
  rw [cleanupExitedThreads_apply, hnone]
  rfl

/-- The thread that stopped stays on record. -/
theorem thread?_cleanup_self (m : Machine) (tid : Tid) :
    (m.cleanup tid).thread? tid = m.thread? tid := by
  have hkept : ((m.process.gone tid).map (·.1)).contains tid = false := by
    rw [Bool.eq_false_iff]
    intro hin
    obtain ⟨entry, hentry, hkey⟩ := List.mem_map.mp (List.contains_iff_mem.mp hin)
    have hgone := (List.mem_filter.mp hentry).2
    simp only [isCleanedUp, decide_eq_true_eq] at hgone
    exact hgone.1 hkey
  rw [Machine.cleanup, Machine.thread?_filter m fun t =>
    !((m.process.gone tid).map (·.1)).contains t, hkept]
  rfl

/-- The machine with a stop noted for a thread. -/
def Machine.noted (m : Machine) (tid : Tid) (final : StopReason) : Machine :=
  (updateThread tid (fun t => { t with reason := final, state := final.reason }) m).2

/-- The machine after a stop was recorded and the other threads rest. -/
def Machine.recorded (m : Machine) (tid : Tid) (final : StopReason) : Machine :=
  ((({ m.noted tid final with trace := (m.noted tid final).reportsGone tid ++ m.trace } :
    Machine).cleanup tid).setProcess fun p =>
      { p with state := final.reason, currentThread := tid })

theorem thread?_recorded (m : Machine) (tid : Tid) (final : StopReason) :
    (m.recorded tid final).thread? tid =
      (m.thread? tid).map fun t => { t with reason := final, state := final.reason } := by
  change (Machine.cleanup _ tid).thread? tid = _
  rw [thread?_cleanup_self]
  change (m.noted tid final).thread? tid = _
  exact Machine.thread?_updateThread m tid _

/-- A stop that is not passed over is what a wait for the thread answers. -/
theorem waitOnSignal_reports {event : WaitEvent} {rest : List WaitAnswer} {final : StopReason}
    (hscript : m.kernel.script = .report event :: rest) (htid : event.tid = tid)
    (hrunning : (m.kernel.threads tid).status = .running)
    (hsignal : handleSignal handlers (.ofWait tid event.status) true
      ((m.deliver .waitOnSignal event).setScript rest) = (.ok (some final), m'))
    (hfinal : final.reason = .stopped) (hwaiting : Waiting tid m') :
    waitOnSignal handlers (some tid) m = (.ok final, m'.recorded tid final) := by
  subst htid
  have hmay : m.mayReport (some event.tid) event = true := by
    simp [Machine.mayReport, hrunning]
  have hwaitpid : waitpid .waitOnSignal (some event.tid) m =
      (.ok (some event), (m.deliver .waitOnSignal event).setScript rest) := by
    rw [waitpid, bind_of_ok (get_apply m), hscript]
    simp only [hmay, if_true]
    rfl
  obtain ⟨thread, hthread, -⟩ := hwaiting.tracked
  have hnoted : ∀ entry ∈ (m'.noted event.tid final).process.threads,
      entry.2.state ≠ .running ∧ (entry.1 ≠ event.tid →
        entry.1 = (m'.noted event.tid final).process.pid → entry.2.state = .stopped) := by
    intro entry hentry
    obtain ⟨old, hold, rfl⟩ := List.mem_map.mp hentry
    by_cases hkey : old.1 = event.tid
    · simp [hkey, hfinal]
    · simp only [if_neg hkey]
      have hothers := hwaiting.others old hold hkey
      exact ⟨hothers.1, fun _ => hothers.2⟩
  have hstop := stopRunningThreads_rest handlers fun entry hentry =>
    (hnoted entry hentry).1
  have hclean := cleanupExitedThreads_rest fun entry hentry => (hnoted entry hentry).2
  rw [waitOnSignal, bind_of_ok (get_apply m), waitOnSignalLoop, bind_of_ok hwaitpid]
  change handleReport handlers _ _ event _ = _
  rw [handleReport, bind_of_ok (onThrow_of_ok hsignal)]
  change (threadAt event.tid >>= _) m' = _
  have hnote : updateThread event.tid (fun t => { t with reason := final, state := final.reason })
      m' = (.ok ⟨⟩, m'.noted event.tid final) := rfl
  rw [bind_of_ok (threadAt_eq hthread), bind_of_ok hnote, bind_of_ok (get_apply _),
    if_neg (by simp [hfinal]), bind_of_ok hstop, bind_of_ok hclean]
  rfl

end Reported

/-- A wait ended with a thread stopped at an address. -/
structure HaltedAt (tid : Tid) (address : Word) (m m' : Machine) : Prop where
  standsAt : StandsAt tid address m'
  main : m'.isStopped m'.process.pid = true
  mapped : m'.kernel.mapped = m.kernel.mapped
  sites : m'.process.breakpointSites = m.process.breakpointSites

section Arrival

variable {m m' : Machine} {tid : Tid} {address : Word} {site : BreakpointSite}
  {handlers : HitHandlers} {event : WaitEvent} {rest : List WaitAnswer}

/-- A thread that reported a trap. -/
def Machine.trapped (m : Machine) (event : WaitEvent) (rest : List WaitAnswer) : Machine :=
  (m.deliver .waitOnSignal event).setScript rest

theorem bystanders_trapped (m : Machine) (rest : List WaitAnswer) (htid : event.tid = tid) :
    (m.trapped event rest).bystanders tid = m.bystanders tid := by
  subst htid
  refine bystanders_status (fun t ht => ?_) rfl rfl
  change ((m.deliver .waitOnSignal event).kernel.threads t).status = _
  rw [status_deliver, if_neg ht]

theorem trapped_thread (m : Machine) (rest : List WaitAnswer) (htid : event.tid = tid)
    (hstatus : event.status = .stopped sigtrap 0) :
    (m.trapped event rest).kernel.threads tid = ⟨.stopped, event.user, event.siCode⟩ := by
  subst htid
  simp [Machine.trapped, Machine.deliver, Machine.setScript, hstatus, WaitStatus.isStop]

theorem trapped_isStopped (m : Machine) (rest : List WaitAnswer) (htid : event.tid = tid)
    (hstatus : event.status = .stopped sigtrap 0) :
    (m.trapped event rest).isStopped tid = true := by
  rw [Machine.isStopped, trapped_thread m rest htid hstatus]
  rfl

/-- The registers of the report are those that are read. -/
theorem decoded_standsAt (rest : List WaitAnswer) (hwaiting : Waiting tid m)
    (htid : event.tid = tid)
    (hstatus : event.status = .stopped sigtrap 0) :
    StandsAt tid (User.pc event.user) ((m.trapped event rest).decoded (trapReason tid)) := by
  have hwaiting' := hwaiting.of_bystanders (bystanders_trapped m rest htid)
  obtain ⟨thread, hthread, hdefined⟩ := hwaiting'.tracked
  obtain ⟨thread', hthread', hoffsets, hdata⟩ := decoded_thread hthread
  have huser : ((m.trapped event rest).kernel.threads tid).user = event.user :=
    congrArg KernelThread.user (trapped_thread m rest htid hstatus)
  refine ⟨trapped_isStopped m rest htid hstatus, ?_, thread', hthread', hoffsets.trans hdefined, ?_⟩
  · change User.pc ((m.trapped event rest).kernel.threads tid).user = _
    rw [huser]
  · rw [huser] at hdata
    exact User.pc_congr fun i hi => hdata i hi.isRegisterByte

/-- The outcome of the wait, once it is known that the trap is reported. -/
theorem waitOnSignal_halts {old : Word} (hwaiting : Waiting tid m)
    (hrunning : (m.kernel.threads tid).status = .running)
    (hscript : m.kernel.script = .report event :: rest) (htid : event.tid = tid)
    (hstatus : event.status = .stopped sigtrap 0)
    (hhandled : handleTrap handlers ((trapReason tid).withTrap event.siCode) true
      ((m.trapped event rest).decoded (trapReason tid)) = (.ok false, m'))
    (hstands : StandsAt tid old m')
    (hsame : m'.bystanders tid = ((m.trapped event rest).decoded (trapReason tid)).bystanders tid)
    (hsites : m'.process.breakpointSites = m.process.breakpointSites) :
    ∃ m'', waitOnSignal handlers (some tid) m =
        (.ok ((trapReason tid).withTrap event.siCode), m'') ∧ HaltedAt tid old m m'' := by
  have hthread := trapped_thread m rest htid hstatus
  have hsiCode : ((m.trapped event rest).kernel.threads tid).siCode = event.siCode :=
    congrArg KernelThread.siCode hthread
  have hsame' : m'.bystanders tid = m.bystanders tid :=
    hsame.trans ((bystanders_decoded _).trans (bystanders_trapped m rest htid))
  have hwaiting' := hwaiting.of_bystanders (bystanders_trapped m rest htid)
  obtain ⟨thread, htracked, -⟩ := hwaiting'.tracked
  have hsignal : handleSignal handlers (.ofWait tid event.status) true (m.trapped event rest) =
      (.ok (some ((trapReason tid).withTrap event.siCode)), m') := by
    rw [hstatus]
    refine (handleSignal_trap handlers hwaiting'.attached htracked
      (trapped_isStopped m rest htid hstatus)).trans ?_
    rw [hsiCode, bind_of_ok hhandled]
    rfl
  have hafter := hwaiting.of_bystanders hsame'
  refine ⟨_, waitOnSignal_reports hscript htid hrunning hsignal rfl hafter, ?_⟩
  obtain ⟨cached, hcached, -⟩ := hstands.cached
  have hrecorded := (thread?_recorded m' tid ((trapReason tid).withTrap event.siCode)).trans
    (congrArg _ hcached)
  refine ⟨hstands.of_same rfl hrecorded fun other hother => ?_, ?_, ?_, hsites⟩
  · rw [hcached] at hother
    cases hother
    rfl
  · change m'.isStopped m'.process.pid = true
    by_cases hmain : m'.process.pid = tid
    · rw [hmain]
      exact hstands.stopped
    · exact hafter.main hmain
  · exact congrArg Bystanders.mapped hsame'

/-- The debug registers that are read with the registers. -/
theorem User.drs_congr {first second : User} (h : ∀ i, isRegisterByte i → first i = second i)
    {number : Fin 8} (hnumber : (number : Nat) < 4 ∨ 6 ≤ (number : Nat)) :
    User.drs first number = User.drs second number := by
  have hlt := number.isLt
  have hread : first.read (debugregOffset + number * 8) 8 =
      second.read (debugregOffset + number * 8) 8 := by
    refine Area.read_congr fun i hlow hhigh => h i (.inr (.inr ?_))
    rcases hnumber with hslot | hstatus
    · exact .inl ⟨by omega, by omega⟩
    · exact .inr ⟨by omega, by omega⟩
  simp only [User.drs, Registers.word, hread]

/-- Whatever strikes at an address where an enabled site without a handler stands, or a
debug register where any site stands, the wait ends there. -/
theorem waitOnSignal_struck (handlers : HitHandlers) (hwaiting : Waiting tid m)
    (hrunning : (m.kernel.threads tid).status = .running)
    (hscript : m.kernel.script = .report event :: rest)
    (hsite : m.process.breakpointSites.find? (fun site => site.address = address) = some site)
    (hstrike : event.IsDebugTrap tid address ∨ (event.IsTrap tid address ∧
      site.isEnabled = true ∧ site.Stops m.process.breakpoints)) :
    ∃ reason m', waitOnSignal handlers (some tid) m = (.ok reason, m') ∧
      reason.isBreakpoint = true ∧ reason.tid = tid ∧ HaltedAt tid address m m' := by
  have hsame : ∀ htid : event.tid = tid,
      ((m.trapped event rest).decoded (trapReason tid)).bystanders tid = m.bystanders tid :=
    fun htid => (bystanders_decoded _).trans (bystanders_trapped m rest htid)
  rcases hstrike with hdebug | ⟨htrap, henabled, hstops⟩
  · have hstands := decoded_standsAt rest hwaiting hdebug.tid hdebug.status
    rw [hdebug.pc] at hstands
    obtain ⟨thread, hthread, hdefined⟩ := (hwaiting.of_bystanders
      (bystanders_trapped m rest hdebug.tid)).tracked
    obtain ⟨slot, hslot, hregister⟩ := hdebug.slot
    have huser : ((m.trapped event rest).kernel.threads tid).user = event.user :=
      congrArg KernelThread.user (trapped_thread m rest hdebug.tid hdebug.status)
    obtain ⟨thread', hthread', hoffsets, hdata⟩ := decoded_thread hthread
    rw [huser] at hdata
    have hreason : ((trapReason tid).withTrap event.siCode).trapReason = some .hardwareBreak := by
      rw [hdebug.siCode]
      rfl
    rw [← User.drs_congr hdata (.inr (by decide))] at hslot
    rw [← User.drs_congr hdata (.inl slot.isLt)] at hregister
    have hhandled : handleTrap handlers ((trapReason tid).withTrap event.siCode) true
        ((m.trapped event rest).decoded (trapReason tid)) =
        (.ok false, (m.trapped event rest).decoded (trapReason tid)) :=
      handleTrap_hardware hthread' (hoffsets.trans hdefined) rfl hreason hslot hregister hsite
    obtain ⟨m', hwait, hhalted⟩ := waitOnSignal_halts hwaiting hrunning hscript hdebug.tid
      hdebug.status hhandled hstands rfl rfl
    refine ⟨_, m', hwait, ?_, rfl, hhalted⟩
    rw [hdebug.siCode]
    rfl
  · have hstands := decoded_standsAt rest hwaiting htrap.tid htrap.status
    rw [htrap.pc] at hstands
    have hpoints : ((m.trapped event rest).decoded (trapReason tid)).process.breakpoints =
        m.process.breakpoints := congrArg Bystanders.breakpoints (hsame htrap.tid)
    have hreason : ((trapReason tid).withTrap event.siCode).trapReason = some .softwareBreak := by
      rw [htrap.siCode]
      rfl
    obtain ⟨m', hhandled, hstands', hsame', hsites'⟩ := @handleTrap_stops _ _ _ _ handlers _
      hstands rfl hreason hsite henabled (hpoints ▸ hstops)
    obtain ⟨m'', hwait, hhalted⟩ := waitOnSignal_halts hwaiting hrunning hscript htrap.tid
      htrap.status hhandled hstands' hsame' hsites'
    refine ⟨_, m'', hwait, ?_, rfl, hhalted⟩
    rw [htrap.siCode]
    rfl

end Arrival

section Finish

variable {m m' : Machine} {tid : Tid} {address : Word} {site : BreakpointSite}
  {reason : StopReason}

/-- The temporary site is removed. -/
theorem removeTrap_ok {toRemove : Bool} (hstands : StandsAt tid address m)
    (hmain : m.isStopped m.process.pid = true)
    (hsite : m.process.breakpointSites.find? (fun site => site.address = address) = some site)
    (hremove : toRemove = true → site.isEnabled = true ∧ site.isHardware = false ∧
      m.wordMapped address = true) :
    ∃ m', removeTrap toRemove address m = (.ok ⟨⟩, m') ∧ StandsAt tid address m' := by
  cases toRemove with
  | false => exact ⟨m, rfl, hstands⟩
  | true =>
      obtain ⟨henabled, hsoftware, hmapped⟩ := hremove rfl
      obtain ⟨index, hindex, hat⟩ := getByAddress_of_find? hsite
      have haddress : site.address = address := by simpa using List.find?_some hsite
      have hfound : m.process.breakpointSites.findByAddress address = some index := by
        unfold StoppointCollection.getByAddress at hindex
        split at hindex
        · cases hindex
          assumption
        · cases hindex
      have hdisable := disableSite_software hat henabled hsoftware hmain (haddress ▸ hmapped)
      obtain ⟨thread, hthread, -⟩ := hstands.cached
      have hremove : removeTrap true address m = removeSite (some index) m := by
        rw [removeTrap, if_pos rfl, removeByAddress, bind_of_ok (get_apply m), hfound]
      refine ⟨_, hremove.trans (bind_of_ok hdisable _), ?_⟩
      refine hstands.of_same rfl hthread fun other hother => ?_
      rw [hthread] at hother
      cases hother
      rfl

/-- A run that halted at a breakpoint at the address counts as a step. -/
theorem finishRun_stopsAt {toRemove : Bool} (hstands : StandsAt tid address m)
    (hmain : m.isStopped m.process.pid = true) (hbreak : reason.isBreakpoint = true)
    (htid : reason.tid = tid)
    (hsite : m.process.breakpointSites.find? (fun site => site.address = address) = some site)
    (hremove : toRemove = true → site.isEnabled = true ∧ site.isHardware = false ∧
      m.wordMapped address = true) :
    StopsAt tid address (finishRun address tid toRemove reason m) := by
  have hrelabel : relabel address tid reason m =
      (.ok { reason with trapReason := some .singleStep }, m) := by
    rw [relabel, if_pos hbreak, bind_of_ok hstands.getPc, if_pos rfl]
    rfl
  obtain ⟨m', hremoved, hstands'⟩ := removeTrap_ok hstands hmain hsite hremove
  obtain ⟨thread, hthread, -⟩ := hstands'.cached
  have hnoted : (updateThread tid (fun t =>
      { t with reason := { reason with trapReason := some .singleStep } }) m').2.thread? tid =
      some { thread with reason := { reason with trapReason := some .singleStep } } := by
    rw [Machine.thread?_updateThread, hthread]
    rfl
  have hfinal : StandsAt tid address (updateThread tid (fun t =>
      { t with reason := { reason with trapReason := some .singleStep } }) m').2 := by
    refine hstands'.of_same rfl hnoted fun other hother => ?_
    rw [hthread] at hother
    cases hother
    rfl
  refine ⟨{ reason with trapReason := some .singleStep }, _, ?_, ?_, htid, hfinal.stopped,
    hfinal.pc, hfinal.getPc⟩
  · rw [finishRun, bind_of_ok hrelabel, bind_of_ok hremoved, bind_of_ok (threadAt_eq hthread)]
    rfl
  · simp only [StopReason.isBreakpoint, decide_eq_true_eq] at hbreak
    simp [StopReason.isStep, hbreak.1, hbreak.2.1]

end Finish

section RunUntil

variable {m m' : Machine} {tid : Tid} {address : Word} {site : BreakpointSite}
  {handlers : HitHandlers}

/-- Sites of the same shapes, and the one that is found. -/
theorem find?_of_shapes (hshapes : m'.shapes = m.shapes)
    (hsite : m.process.breakpointSites.find? (fun site => site.address = address) = some site) :
    ∃ site', m'.process.breakpointSites.find? (fun site => site.address = address) = some site' ∧
      site'.shape = site.shape := by
  have hfind : ∀ sites : List BreakpointSite,
      (sites.map BreakpointSite.shape).find? (fun shape => shape.address = address) =
        (sites.find? fun site => site.address = address).map BreakpointSite.shape := by
    intro sites
    rw [List.find?_map]
    rfl
  have hmapped : (m'.process.breakpointSites.find? fun site => site.address = address).map
      BreakpointSite.shape = some site.shape := by
    rw [← hfind]
    change m'.shapes.find? _ = _
    rw [hshapes, Machine.shapes, hfind, hsite]
    rfl
  obtain ⟨site', hsite', hshape⟩ := Option.map_eq_some_iff.mp hmapped
  exact ⟨site', hsite', hshape⟩

/-- Everything up to the wait. -/
theorem runUntilAddress_eq {otid : Option Tid} (htid : otid.getD m.process.currentThread = tid)
    {toRemove : Bool} {armed running : Machine} (htrap : setTrap address m = (.ok toRemove, armed))
    (hresume : resume (some tid) armed = (.ok ⟨⟩, running)) :
    runUntilAddress handlers address otid m =
      (waitOnSignal handlers (some tid) >>= finishRun address tid toRemove) running := by
  rw [runUntilAddress, bind_of_ok (get_apply m), htid, bind_of_ok htrap, bind_of_ok hresume]

/-- Once a site stands at the address that stops the thread, the run ends there. -/
theorem runUntilAddress_struck {otid : Option Tid}
    (htid : otid.getD m.process.currentThread = tid) {toRemove : Bool} {armed running : Machine}
    (htrap : setTrap address m = (.ok toRemove, armed)) (hwaiting : Waiting tid armed)
    (hresume : resume (some tid) armed = (.ok ⟨⟩, running))
    (hstrikes : Strikes tid address armed running.kernel.script)
    (hsite : armed.process.breakpointSites.find? (fun site => site.address = address) = some site)
    (hstops : User.breaksAt (armed.kernel.threads tid).user address = true ∨
      (site.isEnabled = true ∧ armed.kernel.memory address = int3 ∧
        site.Stops armed.process.breakpoints))
    (hremove : toRemove = true → site.isEnabled = true ∧ site.isHardware = false ∧
      armed.wordMapped address = true) :
    StopsAt tid address (runUntilAddress handlers address otid m) := by
  have hsame := resumeFrame_bystanders.resume.apply_eq hresume
  have hpoints : running.process.breakpoints = armed.process.breakpoints :=
    congrArg Bystanders.breakpoints hsame
  obtain ⟨site', hsite', hshape⟩ := find?_of_shapes (resume_shapes hresume) hsite
  have henabled : site'.isEnabled = site.isEnabled := congrArg SiteShape.isEnabled hshape
  have hparent : site'.parent = site.parent := congrArg SiteShape.parent hshape
  have hhardware : site'.isHardware = site.isHardware := congrArg SiteShape.isHardware hshape
  have hstrike : ∃ event rest, running.kernel.script = .report event :: rest ∧
      (event.IsDebugTrap tid address ∨ (event.IsTrap tid address ∧ site'.isEnabled = true ∧
        site'.Stops running.process.breakpoints)) := by
    generalize hscript : running.kernel.script = script at hstrikes
    cases hstrikes with
    | debugRegister hbreaks hevent => exact ⟨_, _, rfl, .inl hevent⟩
    | instruction hbreaks hmemory hevent =>
        obtain ⟨hflag, -, hstopped⟩ := hstops.resolve_left (by simp [hbreaks])
        refine ⟨_, _, rfl, .inr ⟨hevent, henabled.trans hflag, ?_⟩⟩
        rw [hpoints]
        intro parent hsome
        exact hstopped parent (hparent ▸ hsome)
    | nothing hbreaks hmemory =>
        obtain ⟨-, hint3, -⟩ := hstops.resolve_left (by simp [hbreaks])
        exact absurd hint3 hmemory
  obtain ⟨event, rest, hscript, hstruck⟩ := hstrike
  obtain ⟨reason, m', hwait, hbreak, hreason, hhalted⟩ := waitOnSignal_struck handlers
    (hwaiting.of_bystanders hsame) (resume_status hresume) hscript hsite' hstruck
  rw [runUntilAddress_eq htid htrap hresume, bind_of_ok hwait]
  have hmapped : m'.kernel.mapped = armed.kernel.mapped :=
    hhalted.mapped.trans (congrArg Bystanders.mapped hsame)
  refine finishRun_stopsAt hhalted.standsAt hhalted.main hbreak hreason (hhalted.sites ▸ hsite')
    fun hset => ?_
  obtain ⟨hflag, hsoftware, hword⟩ := hremove hset
  refine ⟨henabled.trans hflag, hhardware.trans hsoftware, ?_⟩
  unfold Machine.wordMapped
  rw [hmapped]
  exact hword

/-- A wait to which nothing more is answered does not return. -/
theorem waitOnSignalLoop_silent {rounds : Nat} {toAwait : Option Tid} {reason : StopReason}
    (h : m.kernel.script = []) : waitOnSignalLoop handlers rounds toAwait m ≠ (.ok reason, m') := by
  cases rounds with
  | zero =>
      intro hloop
      cases hloop
  | succ rounds =>
      have hwait : waitpid .waitOnSignal toAwait m = (.error .schedule, m) := by
        rw [waitpid, bind_of_ok (get_apply m), h]
        rfl
      rw [waitOnSignalLoop, bind_of_error hwait]
      intro hloop
      cases hloop

theorem resumeFrame_silent :
    ResumeFrame tid (Carries fun m : Machine => m.kernel.script = []) where
  enableSite := fun index m h =>
    (congrArg Roster.script (siteFrame_roster.enableSite index m)).trans h
  disableSite := fun index m h =>
    (congrArg Roster.script (siteFrame_roster.disableSite index m)).trans h
  swallowed := fun _ h => h
  continued := fun _ h => h
  script := fun m answer rest hscript h => by
    rw [h] at hscript
    cases hscript
  deliver := fun m waiter event rest hscript _ h => by
    rw [h] at hscript
    cases hscript
  running := fun _ _ _ h => h
  process := fun _ h => h
  note := fun _ _ _ h => h

/-- A trap after which the thread is let go on is not the end of a wait. -/
theorem waitOnSignal_goesOn {event : WaitEvent} {reason : StopReason}
    (hhandlers : handlers.GoOn) (hwaiting : Waiting tid m)
    (hscript : m.kernel.script = [.report event]) (htrap : event.IsTrap tid address)
    (hsite : m.process.breakpointSites.find? (fun site => site.address = address) = some site)
    (henabled : site.isEnabled = true) (hstops : ¬ site.Stops m.process.breakpoints) :
    waitOnSignal handlers (some tid) m ≠ (.ok reason, m') := by
  intro h
  rw [waitOnSignal, bind_of_ok (get_apply m), waitOnSignalLoop] at h
  obtain ⟨answer, m₁, hanswer, hreport⟩ := Eff.bind_eq_ok.mp h
  cases answer with
  | none => cases hreport
  | some delivered =>
      obtain ⟨-, rest, hrest, rfl⟩ := waitpid_eq_some hanswer
      rw [hscript] at hrest
      cases hrest
      obtain ⟨final, m₂, hthrow, hafter⟩ := Eff.bind_eq_ok.mp hreport
      have hsame := bystanders_trapped m [] htrap.tid
      have hwaiting' := hwaiting.of_bystanders hsame
      obtain ⟨thread, hthread, -⟩ := hwaiting'.tracked
      have hsiCode : ((m.trapped event []).kernel.threads tid).siCode = .siKernel :=
        (congrArg KernelThread.siCode (trapped_thread m [] htrap.tid htrap.status)).trans
          htrap.siCode
      have hsignal := onThrow_eq_ok hthrow
      rw [htrap.tid, htrap.status] at hsignal
      have hdecoded := (handleSignal_trap handlers hwaiting'.attached hthread
        (trapped_isStopped m [] htrap.tid htrap.status)).symm.trans hsignal
      rw [hsiCode] at hdecoded
      obtain ⟨goesOn, m₃, hhandled, hend⟩ := Eff.bind_eq_ok.mp hdecoded
      cases goesOn with
      | false =>
          have hstands := decoded_standsAt [] hwaiting htrap.tid htrap.status
          rw [htrap.pc] at hstands
          have hpoints : ((m.trapped event []).decoded (trapReason tid)).process.breakpoints =
              m.process.breakpoints := congrArg Bystanders.breakpoints
            ((bystanders_decoded (trapReason tid)).trans hsame)
          exact handleTrap_goesOn hhandlers hstands rfl rfl hsite henabled (hpoints ▸ hstops)
            hhandled
      | true =>
          cases hend
          obtain ⟨u, m₄, hresume, hagain⟩ := Eff.bind_eq_ok.mp hafter
          have hroster : Fixes Machine.roster ((m.trapped event []).decoded (trapReason tid)) m₂ :=
            ((decodeFrame_roster handlers tid).handleTrap rfl true).apply_eq hhandled
          have hsilent : m₂.kernel.script = [] := congrArg Roster.script hroster
          have hsilent' : m₄.kernel.script = [] :=
            resumeFrame_silent.resume.apply_eq hresume hsilent
          exact waitOnSignalLoop_silent hsilent' hagain

/-- The report of a thread that executed the trap instruction at an address. -/
def trapEvent (tid : Tid) (address : Word) : WaitEvent :=
  ⟨tid, .stopped sigtrap 0, .siKernel, Scenario.userAt (address + 1), fun _ => 0⟩

theorem trapEvent_isTrap (tid : Tid) (address : Word) :
    (trapEvent tid address).IsTrap tid address :=
  ⟨rfl, rfl, rfl, User.pc_write _ _⟩

/-- A trap instruction of the program itself is no stop at its address. -/
theorem not_stopsAt_unowned {toRemove : Bool} (hwaiting : Waiting tid m)
    (hrunning : (m.kernel.threads tid).status = .running)
    (hscript : m.kernel.script = [.report (trapEvent tid address)])
    (hdisabled : m.process.breakpointSites.enabledStoppointAtAddress address = false) :
    ¬ StopsAt tid address
      ((waitOnSignal handlers (some tid) >>= finishRun address tid toRemove) m) := by
  rintro ⟨reason, m', hrun, hstep, -⟩
  have htrap := trapEvent_isTrap tid address
  have hstands := decoded_standsAt [] hwaiting htrap.tid htrap.status
  rw [htrap.pc] at hstands
  have hhandled : handleTrap handlers ((trapReason tid).withTrap .siKernel) true
      ((m.trapped (trapEvent tid address) []).decoded (trapReason tid)) = (.ok false, _) :=
    handleTrap_unowned hstands rfl rfl hdisabled
  obtain ⟨m₁, hwait, hhalted⟩ := waitOnSignal_halts hwaiting hrunning hscript htrap.tid
    htrap.status hhandled hstands rfl rfl
  rw [bind_of_ok hwait] at hrun
  have hother : address + 1 ≠ address := by bv_omega
  have hrelabel : relabel address tid ((trapReason tid).withTrap (trapEvent tid address).siCode)
      m₁ = (.ok ((trapReason tid).withTrap (trapEvent tid address).siCode), m₁) := by
    have hbreak : ((trapReason tid).withTrap (trapEvent tid address).siCode).isBreakpoint = true :=
      rfl
    rw [relabel, if_pos hbreak, bind_of_ok hhalted.standsAt.getPc, if_neg hother]
    rfl
  rw [finishRun, bind_of_ok hrelabel] at hrun
  obtain ⟨u₁, m₂, -, hrest⟩ := Eff.bind_eq_ok.mp hrun
  obtain ⟨thread, m₃, -, hrest₂⟩ := Eff.bind_eq_ok.mp hrest
  obtain ⟨u₂, m₄, -, hend⟩ := Eff.bind_eq_ok.mp hrest₂
  cases hend
  cases hstep

theorem bystanders_withTrap : (m.withTrap address).bystanders tid = m.bystanders tid := rfl

theorem wordMapped_withTrap (h : m.wordMapped address = true) :
    (m.withTrap address).wordMapped address = true := by
  unfold Machine.wordMapped at h ⊢
  exact h

theorem memory_withTrap : (m.withTrap address).kernel.memory address = int3 := by
  simp [Machine.withTrap, Machine.addSites, Machine.setProcess, Machine.setMemory]

/-- The temporary site is the one that is found. -/
theorem find?_withTrap
    (h : m.process.breakpointSites.find? (fun site => site.address = address) = none) :
    (m.withTrap address).process.breakpointSites.find? (fun site => site.address = address) =
      some { trapSite address with
        isEnabled := true, savedData := m.kernel.memory address } := by
  change (m.process.breakpointSites ++ [_]).find? _ = _
  rw [List.find?_append, h]
  simp [trapSite]

/-- Where the thread is stopped at the address, the run ends there. -/
theorem stopsAt_of_trapsThere {otid : Option Tid} (htid : otid.getD m.process.currentThread = tid)
    (hready : Stoppable tid m) (htraps : TrapsThere tid address m)
    (harrives : ArrivesNext tid address m) :
    StopsAt tid address (runUntilAddress handlers address otid m) := by
  unfold TrapsThere at htraps
  split at htraps
  · rename_i hnone
    have htrap := setTrap_free hnone hready.main htraps
    obtain ⟨running, hresume, hstrikes⟩ := harrives true _ htrap
    have hwaiting : Waiting tid (m.withTrap address) :=
      hready.waiting.of_bystanders bystanders_withTrap
    have hfound := find?_withTrap hnone
    refine runUntilAddress_struck htid htrap hwaiting hresume hstrikes hfound
      (.inr ⟨rfl, ?_, ?_⟩) ?_
    · exact memory_withTrap
    · exact fun _ => nofun
    · exact fun _ => ⟨rfl, rfl, wordMapped_withTrap htraps⟩
  · rename_i site hsite
    have htrap := setTrap_taken hsite
    obtain ⟨running, hresume, hstrikes⟩ := harrives false _ htrap
    exact runUntilAddress_struck htid htrap hready.waiting hresume hstrikes hsite htraps nofun

/-- Where it is not, there is an inferior with which the run does not end there. -/
theorem exists_not_stopsAt {otid : Option Tid} (htid : otid.getD m.process.currentThread = tid)
    (hhandlers : handlers.GoOn) (hready : Stoppable tid m) (hresumable : Resumable tid m)
    (htraps : ¬ TrapsThere tid address m) :
    ∃ script, ArrivesNext tid address (m.setScript script) ∧
      ¬ StopsAt tid address (runUntilAddress handlers address otid (m.setScript script)) := by
  unfold TrapsThere at htraps
  split at htraps
  · rename_i hnone
    obtain ⟨e, m₁, hfails⟩ := setTrap_unmapped (m := m.setScript []) hnone htraps
    refine ⟨[], fun toRemove armed htrap => ?_, ?_⟩
    · rw [hfails] at htrap
      cases htrap
    · rintro ⟨reason, m₂, hrun, -⟩
      rw [runUntilAddress, bind_of_ok (get_apply _), bind_of_error hfails] at hrun
      cases hrun
  · rename_i site hsite
    obtain ⟨hbreaks, howned⟩ := not_or.mp htraps
    have hunarmed : User.breaksAt (m.kernel.threads tid).user address = false := by
      simpa using hbreaks
    by_cases hmemory : m.kernel.memory address = int3
    · obtain ⟨script, running, hresume, hscript⟩ := hresumable [.report (trapEvent tid address)]
      have htrap := setTrap_taken (m := m.setScript script) hsite
      refine ⟨script, fun toRemove armed hset => ?_, ?_⟩
      · rw [htrap] at hset
        cases hset
        refine ⟨running, hresume, ?_⟩
        rw [hscript]
        exact .instruction hunarmed hmemory (trapEvent_isTrap tid address)
      rw [runUntilAddress_eq (m := m.setScript script) htid htrap hresume]
      have hsame : running.bystanders tid = (m.setScript script).bystanders tid :=
        resumeFrame_bystanders.resume.apply_eq hresume
      have hwaiting := (hready.setScript script).waiting.of_bystanders hsame
      obtain ⟨site', hsite', hshape⟩ := find?_of_shapes (resume_shapes hresume) hsite
      have henabled : site'.isEnabled = site.isEnabled := congrArg SiteShape.isEnabled hshape
      have hparent : site'.parent = site.parent := congrArg SiteShape.parent hshape
      by_cases hflag : site.isEnabled = true
      · rintro ⟨reason, m₂, hrun, -⟩
        obtain ⟨first, m₃, hwait, -⟩ := Eff.bind_eq_ok.mp hrun
        refine waitOnSignal_goesOn hhandlers hwaiting hscript (trapEvent_isTrap tid address) hsite'
          (henabled.trans hflag) (fun hstops =>
            howned ⟨hflag, hmemory, fun parent hsome => ?_⟩) hwait
        have hpoints : running.process.breakpoints = m.process.breakpoints :=
          congrArg Bystanders.breakpoints hsame
        rw [← hpoints]
        exact hstops parent (hparent.trans hsome)
      · refine not_stopsAt_unowned hwaiting (resume_status hresume) hscript ?_
        rw [enabledStoppointAtAddress_eq hsite', henabled]
        simpa using hflag
    · obtain ⟨script, running, hresume, hscript⟩ := hresumable []
      have htrap := setTrap_taken (m := m.setScript script) hsite
      refine ⟨script, fun toRemove armed hset => ?_, ?_⟩
      · rw [htrap] at hset
        cases hset
        exact ⟨running, hresume, .nothing hunarmed hmemory⟩
      · rw [runUntilAddress_eq (m := m.setScript script) htid htrap hresume]
        rintro ⟨reason, m₂, hrun, -⟩
        obtain ⟨first, m₃, hwait, -⟩ := Eff.bind_eq_ok.mp hrun
        exact waitOnSignalLoop_silent hscript hwait

/-- From a stopped process, a run until an address ends there with every inferior
whose next execution of the address comes before any other stop, if and only if the
thread traps there: without a site at the address its memory is mapped; with one, a
debug register stops the thread there, or the site is enabled, its trap instruction
is in memory, and its breakpoint has no handler of its own. -/
theorem runUntilAddress_stopsAt_iff (handlers : HitHandlers) (address : Word) (otid : Option Tid)
    (m : Machine) (hhandlers : handlers.GoOn)
    (hready : Stoppable (otid.getD m.process.currentThread) m)
    (hresumable : Resumable (otid.getD m.process.currentThread) m) :
    (∀ script, ArrivesNext (otid.getD m.process.currentThread) address (m.setScript script) →
      StopsAt (otid.getD m.process.currentThread) address
        (runUntilAddress handlers address otid (m.setScript script))) ↔
      TrapsThere (otid.getD m.process.currentThread) address m := by
  constructor
  · intro hall
    by_contra htraps
    obtain ⟨script, harrives, hnot⟩ := exists_not_stopsAt rfl hhandlers hready hresumable htraps
    exact hnot (hall script harrives)
  · intro htraps script harrives
    exact stopsAt_of_trapsThere rfl (hready.setScript script) htraps harrives

/-- A stopped thread that stands at no enabled site is let run. -/
theorem resume_clear {thread : ThreadState} (hthread : m.thread? tid = some thread)
    (hdefined : thread.regs.undefinedOffsets = []) (hstopped : m.isStopped tid = true)
    (hclear : m.process.breakpointSites.enabledStoppointAtAddress
      (User.pc thread.regs.data) = false) :
    ∃ running, resume (some tid) m = (.ok ⟨⟩, running) ∧
      running.kernel.script = m.kernel.script := by
  have hsample : samplePc tid m =
      (.ok (User.pc thread.regs.data), m.observe (.sampledPc tid m.moment)) := by
    rw [samplePc, bind_of_ok (getPc_eq hthread hdefined)]
    rfl
  have hover : stepOverBreakpoint tid m = (.ok ⟨⟩, m.observe (.sampledPc tid m.moment)) := by
    rw [stepOverBreakpoint, bind_of_ok hsample, bind_of_ok (get_apply _), if_neg]
    · rfl
    · change ¬ m.process.breakpointSites.enabledStoppointAtAddress _ = true
      rw [hclear]
      decide
  have hrun : ∀ request, ptraceRun request tid (m.observe (.sampledPc tid m.moment)) =
      (.ok true, (m.observe (.sampledPc tid m.moment)).letRun tid request) := by
    intro request
    have hstill : (m.observe (.sampledPc tid m.moment)).isStopped tid = true := hstopped
    rw [ptraceRun, bind_of_ok (get_apply _), if_pos hstill]
    rfl
  have hat : ∀ request, threadAt tid ((m.observe (.sampledPc tid m.moment)).letRun tid request) =
      (.ok thread, (m.observe (.sampledPc tid m.moment)).letRun tid request) :=
    fun _ => threadAt_eq hthread
  have hcontinue : ∃ running, sendContinue tid (m.observe (.sampledPc tid m.moment)) =
      (.ok ⟨⟩, running) ∧ running.kernel.script = m.kernel.script := by
    rw [sendContinue, bind_of_ok (get_apply _), bind_of_ok (hrun _), if_neg (by decide),
      bind_of_ok (hat _)]
    exact ⟨_, rfl, rfl⟩
  obtain ⟨running, hsend, hscript⟩ := hcontinue
  refine ⟨running, ?_, hscript⟩
  rw [resume, bind_of_ok (get_apply m), Option.getD_some, bind_of_ok hover, hsend]

end RunUntil

namespace RunUntilWitness

open Scenario

def passing : HitHandlers := ⟨fun _ _ => ([], .ok true)⟩

/-- One thread at address zero, and a site at 0x40 that is disabled. -/
def withDisabledSite (script : List WaitAnswer) : Machine :=
  (machine [1] script).addSites [⟨none, 1, 0x40, false, 0, false, false, -1⟩]

theorem machine_stoppable (script : List WaitAnswer) (sites : List BreakpointSite) :
    Stoppable 1 ((machine [1] script).addSites sites) where
  attached := rfl
  tracked := ⟨newThread, rfl, rfl⟩
  main := rfl
  others := fun entry hentry hother => by
    obtain rfl := List.mem_singleton.mp hentry
    exact absurd rfl hother

theorem newThread_resumes {m : Machine} (hthread : m.thread? 1 = some newThread)
    (hstopped : m.isStopped 1 = true)
    (hclear : m.process.breakpointSites.enabledStoppointAtAddress
      (User.pc newThread.regs.data) = false) :
    ∃ running, resume (some 1) m = (.ok ⟨⟩, running) ∧
      running.kernel.script = m.kernel.script :=
  resume_clear hthread rfl hstopped hclear

theorem machine_resumable : Resumable 1 (machine [1] []) := by
  intro script
  obtain ⟨running, hresume, hscript⟩ := newThread_resumes (m := machine [1] script) rfl rfl rfl
  exact ⟨script, running, hresume, hscript⟩

/-- With no site at 0x40, the trap that is set there strikes. -/
theorem machine_arrives :
    ArrivesNext 1 0x40 (machine [1] [.report (trapEvent 1 0x40)]) := by
  intro toRemove armed htrap
  have hset : setTrap 0x40 (machine [1] [.report (trapEvent 1 0x40)]) = _ :=
    setTrap_free rfl rfl rfl
  rw [hset] at htrap
  cases htrap
  obtain ⟨running, hresume, hscript⟩ :=
    newThread_resumes (m := (machine [1] [.report (trapEvent 1 0x40)]).withTrap 0x40) rfl rfl
      (by decide +kernel)
  refine ⟨running, hresume, ?_⟩
  rw [hscript]
  exact .instruction (by decide +kernel) memory_withTrap (trapEvent_isTrap 1 0x40)

/-- One thread, no site at the address: the run ends there. -/
theorem runUntilAddress_stopsAt_iff_free :
    ArrivesNext 1 0x40 (machine [1] [.report (trapEvent 1 0x40)]) ∧
      StopsAt 1 0x40 (runUntilAddress passing 0x40 none
        (machine [1] [.report (trapEvent 1 0x40)])) :=
  ⟨machine_arrives,
    (runUntilAddress_stopsAt_iff passing 0x40 none (machine [1] []) (fun _ _ => nofun)
      (machine_stoppable [] []) machine_resumable).mpr rfl _ machine_arrives⟩

/-- With a disabled site at the address no trap is set: the thread runs past it, and the
run ends at a later stop. -/
theorem runUntilAddress_passes_disabled :
    Stoppable 1 (withDisabledSite [stop 1 2 .other 0x80]) ∧
      ArrivesNext 1 0x40 (withDisabledSite [stop 1 2 .other 0x80]) ∧
      ¬ StopsAt 1 0x40 (runUntilAddress passing 0x40 (some 1)
        (withDisabledSite [stop 1 2 .other 0x80])) := by
  refine ⟨machine_stoppable _ _, ?_, ?_⟩
  · intro toRemove armed htrap
    have hset : setTrap 0x40 (withDisabledSite [stop 1 2 .other 0x80]) = _ := setTrap_taken rfl
    rw [hset] at htrap
    cases htrap
    obtain ⟨running, hresume, -⟩ :=
      newThread_resumes (m := withDisabledSite [stop 1 2 .other 0x80]) rfl rfl rfl
    exact ⟨running, hresume, .nothing (by decide +kernel) (by decide +kernel)⟩
  · rintro ⟨reason, m, hrun, hstep, -⟩
    have hreason : ((runUntilAddress passing 0x40 (some 1)
        (withDisabledSite [stop 1 2 .other 0x80])).1.toOption.map StopReason.isStep) =
          some false := by
      decide +kernel
    rw [hrun] at hreason
    change some reason.isStep = some false at hreason
    rw [hstep] at hreason
    cases hreason

end RunUntilWitness

end Gsdb
