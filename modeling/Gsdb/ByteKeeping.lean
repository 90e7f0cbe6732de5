/-
What the debugger leaves in the memory of the inferior while it calls functions there.  A byte
is followed that the inferior itself does not change: from one stop to the next it stays as it
is, unless the debugger writes over it.
-/
import Gsdb.CallAlignment

namespace Gsdb

open ByteMemory Effects Eff Debugger

/-- A call of `malloc` in the history of a machine has returned a block.  Its size is the word
that was passed. -/
def GaveBlock (env : Environment) (ptr : Word) (size : Nat) (m : Machine) : Prop :=
  size < 2 ^ 64 ∧ ∃ before after : Machine, inferiorMalloc env size before = (.ok ptr, after) ∧
    after.trace <:+ m.trace

/-- An address in a block that `malloc` has given.  A result is stored in whole registers,
24 bytes at most, whatever the size of its block. -/
def InBlock (env : Environment) (address : Word) (m : Machine) : Prop :=
  ∃ ptr size, GaveBlock env ptr size m ∧ ∃ i < max size 24, address = ptr + BitVec.ofNat 64 i

/-- Where an operation makes a breakpoint site. -/
def SiteOperation.created? : SiteOperation → Option Word
  | .create address _ _ | .createFor _ _ address _ _ => some address
  | _ => none

/-- No hit handler makes a breakpoint site at an address. -/
def HitHandlers.Avoid (handlers : HitHandlers) (address : Word) : Prop :=
  ∀ handler m op, HitAction.site op ∈ (handlers.onHit handler m).1 → op.created? ≠ some address

/-- A byte in memory, the same in every report still to come, with no breakpoint site on it. -/
structure Intact (address : Word) (byte : Byte) (m : Machine) : Prop where
  memory : m.kernel.memory address = byte
  reports : ∀ event, .report event ∈ m.kernel.script → event.memory address = byte
  sites : ∀ site ∈ m.process.breakpointSites, site.address ≠ address

/-- From one machine to another a byte that the inferior leaves alone is left alone, outside
the blocks that `malloc` has given: it is as before whenever a state change is delivered. -/
def Keeps (env : Environment) (address : Word) (byte : Byte) (m m' : Machine) : Prop :=
  ∃ recent, m'.trace = recent ++ m.trace ∧
    (Intact address byte m → ¬ InBlock env address m' → Intact address byte m' ∧
      ∀ delivery, .delivered delivery ∈ recent → delivery.before.kernel.memory address = byte)

section Keeping

variable {env : Environment} {address : Word} {byte : Byte} {m m' m'' : Machine} {α : Type}

theorem GaveBlock.mono {ptr : Word} {size : Nat} (h : GaveBlock env ptr size m)
    (hsuffix : m.trace <:+ m'.trace) : GaveBlock env ptr size m' := by
  obtain ⟨hsize, before, after, hcall, hafter⟩ := h
  exact ⟨hsize, before, after, hcall, hafter.trans hsuffix⟩

theorem InBlock.mono (h : InBlock env address m) (hsuffix : m.trace <:+ m'.trace) :
    InBlock env address m' := by
  obtain ⟨ptr, size, hgave, hinside⟩ := h
  exact ⟨ptr, size, hgave.mono hsuffix, hinside⟩

instance : Std.Refl (Keeps env address byte) :=
  ⟨fun _ => ⟨[], rfl, fun hintact _ => ⟨hintact, fun _ hmem => by cases hmem⟩⟩⟩

instance : IsTrans Machine (Keeps env address byte) := ⟨fun m m₁ m' h h' => by
  obtain ⟨recent, htrace, hkeeps⟩ := h
  obtain ⟨recent', htrace', hkeeps'⟩ := h'
  refine ⟨recent' ++ recent, by rw [htrace', htrace, List.append_assoc], fun hintact hblock => ?_⟩
  obtain ⟨hintact₁, hearlier⟩ := hkeeps hintact fun hin => hblock (hin.mono ⟨recent', htrace'.symm⟩)
  obtain ⟨hintact', hlater⟩ := hkeeps' hintact₁ hblock
  refine ⟨hintact', fun delivery hmem => ?_⟩
  exact (List.mem_append.mp hmem).elim (hlater delivery) (hearlier delivery)⟩

theorem Keeps.suffix (h : Keeps env address byte m m') : m.trace <:+ m'.trace := by
  obtain ⟨recent, htrace, -⟩ := h
  exact ⟨recent, htrace.symm⟩

/-- What leaves memory, script and history as they are and makes no site. -/
theorem Keeps.of_eq (htrace : m'.trace = m.trace) (hmemory : m'.kernel.memory = m.kernel.memory)
    (hscript : m'.kernel.script = m.kernel.script)
    (hsites : m'.process.breakpointSites = m.process.breakpointSites) :
    Keeps env address byte m m' := by
  refine ⟨[], htrace, fun hintact _ => ⟨⟨?_, ?_, ?_⟩, fun _ hmem => by cases hmem⟩⟩
  · rw [hmemory]
    exact hintact.memory
  · rw [hscript]
    exact hintact.reports
  · rw [hsites]
    exact hintact.sites

theorem keeps_of_state {α : Type} {x : Debugger α} (h : Respects (Fixes fun m => m) x) :
    Respects (Keeps env address byte) x :=
  h.mono fun m m' heq => by
    obtain rfl : m' = m := heq
    exact refl_of _ m'

theorem Keeps.note (m : Machine) {observation : Observation}
    (h : ∀ delivery, observation ≠ .delivered delivery) :
    Keeps env address byte m (m.observe observation) :=
  ⟨[observation], rfl, fun hintact _ => ⟨⟨hintact.memory, hintact.reports, hintact.sites⟩,
    fun delivery hmem => absurd (List.mem_singleton.mp hmem).symm (h delivery)⟩⟩

/-- What happens to the sites alone, when none is put on the byte. -/
theorem Keeps.of_sites {sites : StoppointCollection BreakpointSite} {next : Int}
    (h : (∀ site ∈ m.process.breakpointSites, site.address ≠ address) →
      ∀ site ∈ sites, site.address ≠ address) :
    Keeps env address byte m (m.setProcess fun p =>
      { p with breakpointSites := sites, nextSiteId := next }) :=
  ⟨[], rfl, fun hintact _ => ⟨⟨hintact.memory, hintact.reports, h hintact.sites⟩,
    fun _ hmem => by cases hmem⟩⟩

/-- What is written elsewhere. -/
theorem Keeps.setMemory {memory : Memory 64}
    (h : (∀ site ∈ m.process.breakpointSites, site.address ≠ address) →
      ¬ InBlock env address m → memory address = m.kernel.memory address) :
    Keeps env address byte m (m.setMemory memory) :=
  ⟨[], rfl, fun hintact hblock => ⟨⟨(h hintact.sites hblock).trans hintact.memory, hintact.reports,
    hintact.sites⟩, fun _ hmem => by cases hmem⟩⟩

theorem writeRegister_keeps (tid : Tid) (id : RegisterId) (val : Value) (commit : Bool) :
    Respects (Keeps env address byte) (writeRegister tid id val commit) :=
  writeRegister_respects (fun _ _ => .of_eq rfl rfl rfl rfl) (fun _ _ => .of_eq rfl rfl rfl rfl) id
    val commit

theorem debugRegisterFrame_keeps : DebugRegisterFrame (Keeps env address byte) :=
  fun tid _ id val _ => writeRegister_keeps tid id val true

theorem siteNote_keeps (m : Machine) (observation : Observation)
    (h : Observation.isSiteNote observation = true) :
    Keeps env address byte m (m.observe observation) :=
  .note m fun delivery heq => by
    subst heq
    cases h

theorem updateSite_keeps (index : Nat) {f : BreakpointSite → BreakpointSite}
    (hf : ∀ site, (f site).address = site.address) :
    Respects (Keeps env address byte) (updateSite index f) := by
  refine Respects.modify fun m => .of_sites fun hsites site hsite => ?_
  obtain ⟨i, hi, rfl⟩ := List.getElem_of_mem hsite
  rw [List.getElem_modify]
  rw [List.length_modify] at hi
  split
  · rw [hf]
    exact hsites _ (List.getElem_mem hi)
  · exact hsites _ (List.getElem_mem hi)

/-- Putting back the word at a site with its first byte replaced changes that byte alone. -/
theorem pokeSite_keeps {site : BreakpointSite} {memory : Memory 64}
    (hsite : ∃ other ∈ m.process.breakpointSites, other.address = site.address)
    (hmemory : m.kernel.memory = memory) (low : Byte) (what : String) :
    Keeps env address byte m (pokeData site.address
      (withLowByte (BitVec.ofNat 64 (ofLe (memory.read site.address 8))) low) what m).2 := by
  subst hmemory
  rcases pokeData_cases site.address
    (withLowByte (BitVec.ofNat 64 (ofLe (m.kernel.memory.read site.address 8))) low) what m with
    h | h
  · rw [h]
    exact refl_of _ m
  · rw [h, write_withLowByte]
    obtain ⟨other, hother, haddress⟩ := hsite
    refine .setMemory fun hsites _ => Function.update_of_ne ?_ _ _
    exact fun heq => hsites other hother (haddress.trans heq.symm)

/-- A site that was changed, but for its address, is still there. -/
theorem exists_modified {sites : List BreakpointSite} {index : Nat} {site : BreakpointSite}
    {f : BreakpointSite → BreakpointSite} (hsite : sites[index]? = some site)
    (hf : ∀ site, (f site).address = site.address) :
    ∃ other ∈ sites.modify index f, other.address = site.address := by
  refine ⟨f site, List.mem_of_getElem? (?_ : (sites.modify index f)[index]? = _), hf site⟩
  rw [List.getElem?_modify_eq, hsite]
  rfl

theorem enableSite_keeps (index : Nat) :
    Respects (Keeps env address byte) (enableSite index) := by
  intro m
  refine SiteFrame.siteAt_bind fun site hsite => ?_
  split
  · exact refl_of _ m
  split
  · refine Respects.bind (debugRegisterFrame_keeps.setHardwareStoppoint siteNote_keeps _ _ _)
      (fun slot => ?_) m
    exact Respects.bind (updateSite_keeps _ fun _ => rfl) fun _ => updateSite_keeps _ fun _ => rfl
  · rcases peekData_cases site.address "Enabling breakpoint site failed!" m with h | h
    · rw [bind_of_error h]
      exact refl_of _ m
    rw [bind_of_ok h]
    refine related_bind (updateSite_keeps index ?_ m) fun _ m' hupdate => ?_
    · exact fun _ => rfl
    obtain ⟨hsites, hmemory⟩ : (∃ other ∈ m'.process.breakpointSites,
        other.address = site.address) ∧ m'.kernel.memory = m.kernel.memory := by
      cases hupdate
      exact ⟨exists_modified hsite fun _ => rfl, rfl⟩
    refine related_bind (pokeSite_keeps hsites hmemory _ _) fun _ last _ => ?_
    refine updateSite_keeps index ?_ last
    exact fun _ => rfl

theorem disableSite_keeps (index : Nat) :
    Respects (Keeps env address byte) (disableSite index) := by
  intro m
  refine SiteFrame.siteAt_bind fun site hsite => ?_
  split
  · exact refl_of _ m
  split
  · refine Respects.bind (debugRegisterFrame_keeps.clearHardwareStoppoint siteNote_keeps _)
      (fun slot => ?_) m
    exact Respects.bind (updateSite_keeps _ fun _ => rfl) fun _ => updateSite_keeps _ fun _ => rfl
  · rcases peekData_cases site.address "Disabling breakpoint site failed!" m with h | h
    · rw [bind_of_error h]
      exact refl_of _ m
    rw [bind_of_ok h]
    refine related_bind (pokeSite_keeps ⟨site, List.mem_of_getElem? hsite, rfl⟩ rfl _ _)
      fun _ m' _ => ?_
    refine updateSite_keeps index ?_ m'
    exact fun _ => rfl

/-- A site is made elsewhere. -/
theorem pushSite_keeps {created : Word} {site : Process → BreakpointSite × Process}
    (hsite : ∀ p, (site p).1.address ≠ address ∧
      (site p).2.breakpointSites = p.breakpointSites) :
    Respects (Keeps env address byte) (pushSite created site) := by
  refine Respects.bind Respects.get fun _ => Respects.ite (Respects.throw _) ?_
  refine Respects.bind (Respects.modify fun m => ?_) fun _ => Respects.pure _
  obtain ⟨haddress, hsites⟩ := hsite m.process
  refine ⟨[], rfl, fun hintact _ => ⟨⟨hintact.memory, hintact.reports, fun other hother => ?_⟩,
    fun _ hmem => by cases hmem⟩⟩
  change other ∈ (site m.process).2.breakpointSites ++ [(site m.process).1] at hother
  rw [hsites] at hother
  rcases List.mem_append.mp hother with hold | hnew
  · exact hintact.sites other hold
  · rw [List.mem_singleton.mp hnew]
    exact haddress

theorem removeSite_keeps (index : Option Nat) :
    Respects (Keeps env address byte) (removeSite index) := by
  cases index with
  | none => exact Respects.pure _
  | some index =>
      refine Respects.bind (disableSite_keeps index) fun _ => Respects.modify fun m => ?_
      exact .of_sites fun hsites site hsite => hsites site (List.mem_of_mem_eraseIdx hsite)

theorem siteOperation_keeps {op : SiteOperation} (hop : op.created? ≠ some address) :
    Respects (Keeps env address byte) op.run := by
  refine Respects.bind (op.touch_respects fun m _ => .note m fun _ heq => by cases heq) fun _ => ?_
  cases op with
  | create created hardware internal =>
      have hcreated : created ≠ address := fun heq => hop (congrArg some heq)
      refine Respects.bind (pushSite_keeps fun p => ?_) fun _ => Respects.pure _
      cases internal with
      | true => exact ⟨hcreated, rfl⟩
      | false => exact ⟨hcreated, rfl⟩
  | createFor parent id created hardware internal =>
      have hcreated : created ≠ address := fun heq => hop (congrArg some heq)
      exact Respects.bind (pushSite_keeps fun p => ⟨hcreated, rfl⟩) fun _ => Respects.pure _
  | enable index => exact enableSite_keeps index
  | disable index => exact disableSite_keeps index
  | removeById => exact Respects.bind Respects.get fun _ => removeSite_keeps _
  | removeByAddress => exact Respects.bind Respects.get fun _ => removeSite_keeps _

theorem augmentStopReason_keepsByte (reason : StopReason) :
    Respects (Keeps env address byte) (augmentStopReason reason) := by
  intro m
  have hnoted : ∀ (entry : Bool) (last : StopReason), Keeps env address byte m
      ((m.setProcess fun p => { p with expectingSyscallExit := entry }).observe
        (.augmented last)) := by
    intro entry last
    have hflag : Keeps env address byte m (m.setProcess fun p =>
        { p with expectingSyscallExit := entry }) := .of_eq rfl rfl rfl rfl
    exact trans_of _ hflag (.note _ fun delivery heq => by cases heq)
  rcases augmentStopReason_cases reason m with ⟨e, h⟩ | ⟨info, -, -, h⟩ | ⟨-, h⟩
  · rw [h]
    exact refl_of _ m
  · rw [h]
    exact hnoted _ _
  · rw [h]
    exact hnoted _ _

/-- A report is of the inferior's own doing. -/
theorem deliver_keeps (waiter : Waiter) {event : WaitEvent} {rest : List WaitAnswer}
    (hscript : m.kernel.script = .report event :: rest) :
    Keeps env address byte m ((m.deliver waiter event).setScript rest) := by
  refine ⟨[_], rfl, fun hintact _ => ⟨⟨?_, fun later hlater => ?_, hintact.sites⟩,
    fun delivery hmem => ?_⟩⟩
  · exact hintact.reports event (by rw [hscript]; exact List.mem_cons_self)
  · exact hintact.reports later (by rw [hscript]; exact List.mem_cons_of_mem _ hlater)
  · cases List.mem_singleton.mp hmem
    exact hintact.memory

theorem setScript_keeps {answer : WaitAnswer} {rest : List WaitAnswer}
    (hscript : m.kernel.script = answer :: rest) :
    Keeps env address byte m (m.setScript rest) := by
  refine ⟨[], rfl, fun hintact _ => ⟨⟨hintact.memory, fun later hlater => ?_, hintact.sites⟩,
    fun _ hmem => by cases hmem⟩⟩
  exact hintact.reports later (by rw [hscript]; exact List.mem_cons_of_mem _ hlater)

theorem resumeFrame_keeps (t : Tid) : ResumeFrame t (Keeps env address byte) where
  enableSite := enableSite_keeps
  disableSite := disableSite_keeps
  swallowed := Respects.modify fun _ => .of_eq rfl rfl rfl rfl
  continued := Respects.modify fun _ => .of_eq rfl rfl rfl rfl
  script := fun _ _ _ hscript => setScript_keeps hscript
  deliver := fun _ waiter _ _ hscript _ => deliver_keeps waiter hscript
  running := fun m request _ => trans_of _
    (.of_eq rfl rfl rfl rfl : Keeps env address byte m (m.setThreadStatus t .running))
    (.note _ fun _ heq => by cases heq)
  process := fun _ => .of_eq rfl rfl rfl rfl
  note := fun m o ho => .note m fun _ heq => by subst heq; cases ho

theorem signalFrame_keeps {handlers : HitHandlers} (havoid : handlers.Avoid address) (t : Tid) :
    SignalFrame handlers t (Keeps env address byte) where
  action := fun handler m action haction => by
    cases action with
    | site op => exact siteOperation_keeps (havoid handler m op haction)
    | breakpoints points => exact Respects.modify fun _ => .of_eq rfl rfl rfl rfl
  setPc := fun _ => writeRegister_keeps _ _ _ _
  data := fun _ _ _ => .of_eq rfl rfl rfl rfl
  augment := fun reason _ _ => augmentStopReason_keepsByte reason
  load := readAllRegisters_respects fun _ => Respects.modify fun _ => .of_eq rfl rfl rfl rfl
  consumed := Respects.modify fun _ => .of_eq rfl rfl rfl rfl
  track := fun _ _ => .of_eq rfl rfl rfl rfl
  lifecycle := fun m _ _ _ => .note m fun _ heq => by cases heq

/-- Waiting leaves the byte to the inferior. -/
theorem waitFrame_keeps {handlers : HitHandlers} (havoid : handlers.Avoid address) :
    WaitFrame handlers (fun _ => True) (Keeps env address byte) where
  resumes := fun t _ => resumeFrame_keeps t
  handles := fun t _ => signalFrame_keeps havoid t
  updateThread := fun _ _ _ => Respects.modify fun _ => .of_eq rfl rfl rfl rfl
  waits := fun waiter toAwait _ m => by
    rcases waitpid_cases waiter toAwait m with
      h | ⟨rest, hscript, h⟩ | ⟨event, rest, -, hscript, h⟩
    · rw [h]
      exact refl_of _ m
    · rw [h]
      exact setScript_keeps hscript
    · rw [h]
      exact deliver_keeps waiter hscript
  cleanup := fun _ _ => .of_eq rfl rfl rfl rfl
  process := fun _ _ _ _ _ => .of_eq rfl rfl rfl rfl
  lifecycle := fun m _ => .note m fun _ heq => by cases heq
  note := fun m o ho => .note m fun _ heq => by subst heq; cases ho

end Keeping


section Writing

variable {env : Environment} {address : Word} {byte : Byte} {m m' : Machine}

/-- Writing memory leaves every other byte alone, also where it stops half way. -/
theorem writeMemory_keeps {start : Word} {data : List Byte} (m : Machine)
    (h : ¬ InBlock env address m → ∀ i < data.length, address ≠ start + BitVec.ofNat 64 i) :
    Keeps env address byte m (writeMemory start data m).2 := by
  have hloop : ∀ (rounds offset : Nat) (last : Machine), last.trace = m.trace →
      Keeps env address byte last (writeMemoryLoop rounds (start + BitVec.ofNat 64 offset)
        (data.drop offset) last).2 := by
    intro rounds
    induction rounds with
    | zero =>
        intro offset last htrace
        exact refl_of _ last
    | succ rounds ih =>
        intro offset last htrace
        rw [writeMemoryLoop]
        split
        · exact refl_of _ last
        rcases cases_of_snd_eq (nextWord_unchanged (start + BitVec.ofNat 64 offset)
          (data.drop offset) last) with ⟨e, hnext⟩ | ⟨word, hnext⟩
        · rw [bind_of_error hnext]
          exact refl_of _ last
        rw [bind_of_ok hnext]
        rcases hpoke : pokeData (start + BitVec.ofNat 64 offset) (BitVec.ofNat 64 (ofLe word))
          "Failed to write memory!" last with ⟨e | u, written⟩
        · rcases pokeData_cases (start + BitVec.ofNat 64 offset) (BitVec.ofNat 64 (ofLe word))
            "Failed to write memory!" last with h | h
          · rw [bind_of_error h]
            exact refl_of _ last
          · rw [hpoke] at h
            cases h
        obtain ⟨hmapped, rfl⟩ := pokeData_eq_ok hpoke
        obtain ⟨hlength, hwrite⟩ := nextWord_eq_ok hnext hmapped
        rw [bind_of_ok hpoke, toNat_ofNat_ofLe hlength, hwrite]
        have hrest := ih (offset + 8) (last.setMemory (last.kernel.memory.write
          (start + BitVec.ofNat 64 offset) ((data.drop offset).take 8))) htrace
        rw [BitVec.ofNat_add, ← BitVec.add_assoc, ← List.drop_drop] at hrest
        refine trans_of _ (.setMemory fun _ hblock => ?_) hrest
        refine Memory.write_outside _ _ _ _ fun i hi => ?_
        have hmisses := h (fun hin => hblock (hin.mono (by rw [htrace]))) (offset + i) (by
          rw [List.length_take, List.length_drop] at hi
          omega)
        rwa [BitVec.ofNat_add, ← BitVec.add_assoc] at hmisses
  have hall := hloop data.length 0 m rfl
  rwa [BitVec.add_zero, List.drop_zero] at hall

end Writing


section Calling

variable {env : Environment} {address : Word} {byte : Byte} {t c : Tid} {sp : Word}
  {m m' : Machine}

theorem commitRegister_keepsByte (tid : Tid) (id : RegisterId) (val : Value) :
    Respects (Keeps env address byte) (commitRegister tid id val) :=
  commitRegister_respects (writeRegister_keeps _ _ _ _) fun m => .note m fun _ heq => by cases heq

/-- Sending a thread to a function writes the return address below its stack pointer. -/
theorem sendTo_keeps {funcAddr returnAddr : Word} (hsp : StackIs t sp m)
    (hmisses : ∀ i < 8, address ≠ sp - 8 + BitVec.ofNat 64 i) :
    Keeps env address byte m (sendTo funcAddr returnAddr t m).2 := by
  refine related_bind (commitRegister_keepsByte t _ _ m) fun _ m₁ hrip => ?_
  have hsp₁ := commitRegister_stackIs rip_info rfl (by omega) hsp hrip
  refine related_bind (readRegister_respects t .rsp m₁) fun rsp m₂ hread => ?_
  obtain ⟨rfl, thread, hthread, hvalue⟩ := readRegister_rsp hread
  obtain rfl : rsp = sp := hvalue.symm.trans (hsp₁ thread hthread)
  refine related_bind (writeMemory_keeps m₂ fun _ => ?_) fun _ m₃ _ =>
    commitRegister_keepsByte t _ _ m₃
  rw [toLe_length]
  exact hmisses

/-- Running a thread until it returns leaves the byte to the inferior. -/
theorem awaitReturn_keeps (havoid : env.handlers.Avoid address) (saved : Registers) :
    Respects (Keeps env address byte) (awaitReturn env.handlers saved t) := by
  refine Respects.bind (resumeFrame_keeps t).resume fun _ => ?_
  refine Respects.bind ((waitFrame_keeps havoid).waitOnSignal (fun _ => trivial) _) fun reason => ?_
  refine Respects.ite (Respects.throw _) (Respects.bind (Respects.asks _) fun newRegs => ?_)
  refine Respects.bind (Respects.modify fun _ => .of_eq rfl rfl rfl rfl) fun _ => ?_
  exact Respects.bind (flush_respects fun _ _ => .of_eq rfl rfl rfl rfl) fun _ => Respects.pure _

theorem inferiorCall_keeps {funcAddr returnAddr : Word} {saved : Registers} {otid : Option Tid}
    (havoid : env.handlers.Avoid address) (ht : otid.getD m.process.currentThread = t)
    (hsp : StackIs t sp m) (hmisses : ∀ i < 8, address ≠ sp - 8 + BitVec.ofNat 64 i) :
    Keeps env address byte m (inferiorCall env.handlers funcAddr returnAddr saved otid m).2 := by
  rw [inferiorCall, bind_of_ok (get_apply m), ht, callThread_eq]
  refine related_bind ?_ fun newRegs m₁ _ => ?_
  · exact related_bind (sendTo_keeps hsp hmisses) fun _ m₂ _ => awaitReturn_keeps havoid saved m₂
  · exact .note m₁ fun _ heq => by cases heq

theorem installStopHandler_keeps (entry : Word) :
    Respects (Keeps env address byte) (installStopHandler entry) :=
  Respects.bind Respects.get fun _ => Respects.bind (Respects.ofExcept _) fun _ =>
    Respects.modify fun _ => .of_eq rfl rfl rfl rfl

/-- A call of `malloc` writes its return address on the stack of the current thread. -/
theorem inferiorMalloc_keeps {size : Nat} (havoid : env.handlers.Avoid address)
    (hstack : OnStack c sp m) (hmisses : ∀ i < 8, address ≠ sp - 8 + BitVec.ofNat 64 i) :
    Keeps env address byte m (inferiorMalloc env size m).2 := by
  rw [inferiorMalloc, bind_of_ok (get_apply m)]
  refine related_bind (refl_of _ m) fun saved m₁ hat => ?_
  obtain ⟨-, rfl⟩ := threadAt_eq_ok hat
  obtain ⟨rfl, hsp⟩ := hstack
  cases env.mallocAddress m₁ with
  | none => exact refl_of _ m₁
  | some callAddr =>
      refine related_bind (installStopHandler_keeps _ m₁) fun _ m₂ hinstall => ?_
      have hharmless := (installStopHandler_harmless (t := m₁.process.currentThread) _).apply_eq
        hinstall
      refine related_bind (commitRegister_keepsByte _ _ _ m₂) fun _ m₃ hcommit => ?_
      have hsp₃ : StackIs m₁.process.currentThread sp m₃ :=
        commitRegister_stackIs rdi_info rfl (by omega)
          (fun thread hthread => hsp thread (hharmless.thread? _ ▸ hthread)) hcommit
      refine related_bind (inferiorCall_keeps havoid ?_ hsp₃ hmisses) fun _ m₄ _ => refl_of _ m₄
      exact (commitRegister_current hcommit).trans hharmless.current

end Calling

end Gsdb
