/-
The rules for the parts of an evaluation.  A part is safe if the registers of
the interrupted thread are as before it, unless it threw with registers set
for a call.  The call of `malloc`, the setting up of arguments and the call
itself are safe, and so is everything made of them.
-/
import Gsdb.CallHistory

namespace Gsdb

open ByteMemory Effects Eff Debugger

/-- The registers that are promised: all of them, or all but the debug registers
where hardware sites may be switched on other threads. -/
def isPromisedByte (hardware : Bool) (i : Nat) : Prop := isRegisterByte i ∧ Stays hardware i

/-- A stopped thread whose registers are in the cache.  It is the current thread,
or else no hardware site is around, unless they are allowed for. -/
structure Ready (handlers : HitHandlers) (hardware : Bool) (t : Tid) (m : Machine) : Prop where
  stopped : (m.kernel.threads t).status = .stopped
  cached : ∀ thread, m.thread? t = some thread → ∀ i, isPromisedByte hardware i →
    thread.regs.data i = (m.kernel.threads t).user i
  scope : m.process.currentThread = t ∨
    (handlers.Tame hardware ∧ Tame hardware m ∧ Settled t m)

def SameRegisters (hardware : Bool) (t : Tid) (m m' : Machine) : Prop :=
  ∀ i, isPromisedByte hardware i → (m'.kernel.threads t).user i = (m.kernel.threads t).user i

/-- A computation after which the registers of a thread are as before, unless it
threw with registers set for a call, or the thread ended. -/
structure Safe {α : Type} (handlers : HitHandlers) (hardware : Bool) (t : Tid)
    (x : Debugger α) : Prop where
  grows : Respects (Grows t) x
  ok : ∀ {m a m'}, Ready handlers hardware t m → x m = (.ok a, m') →
    Gone t m' ∨ (Ready handlers hardware t m' ∧ SameRegisters hardware t m m')
  error : ∀ {m e m'}, Ready handlers hardware t m → x m = (.error e, m') →
    Gone t m' ∨ Marked t m m' ∨ SameRegisters hardware t m m'

/-- A change that does not concern the registers of a thread. -/
structure Harmless (t : Tid) (m m' : Machine) : Prop where
  threads : m'.kernel.threads = m.kernel.threads
  cached : m'.process.threads = m.process.threads
  sites : m'.process.breakpointSites = m.process.breakpointSites
  current : m'.process.currentThread = m.process.currentThread
  trace : m'.trace = m.trace

section Composition

variable {handlers : HitHandlers} {hardware : Bool} {t : Tid} {α β : Type}

instance : Std.Refl (Harmless t) := ⟨fun _ => ⟨rfl, rfl, rfl, rfl, rfl⟩⟩

instance : IsTrans Machine (Harmless t) := ⟨fun _ _ _ h h' =>
  ⟨h'.threads.trans h.threads, h'.cached.trans h.cached, h'.sites.trans h.sites,
    h'.current.trans h.current, h'.trace.trans h.trace⟩⟩

theorem Harmless.thread? {m m' : Machine} (h : Harmless t m m') (tid : Tid) :
    m'.thread? tid = m.thread? tid := by
  simp only [Machine.thread?, h.cached]

theorem Harmless.onward {m m' : Machine} (h : Harmless t m m') : Onward t m m' :=
  .of_eq h.trace (by rw [h.threads])

theorem Harmless.sameRegisters {m m' : Machine} (h : Harmless t m m') :
    SameRegisters hardware t m m' :=
  fun i _ => by rw [h.threads]

theorem Harmless.ready {m m' : Machine} (h : Harmless t m m')
    (hready : Ready handlers hardware t m) : Ready handlers hardware t m' where
  stopped := by rw [h.threads]; exact hready.stopped
  cached := fun thread hthread i hi => by
    rw [h.threads]
    exact hready.cached thread (h.thread? t ▸ hthread) i hi
  scope := by
    rw [h.current, Tame, h.sites, Settled, h.thread? t]
    exact hready.scope

theorem SameRegisters.refl (m : Machine) : SameRegisters hardware t m m := fun _ _ => rfl

theorem SameRegisters.trans {m m' m'' : Machine} (h : SameRegisters hardware t m m')
    (h' : SameRegisters hardware t m' m'') : SameRegisters hardware t m m'' :=
  fun i hi => (h' i hi).trans (h i hi)

theorem SameRegisters.symm {m m' : Machine} (h : SameRegisters hardware t m m') :
    SameRegisters hardware t m' m :=
  fun i hi => (h i hi).symm

theorem Safe.of_harmless {x : Debugger α} (h : Respects (Harmless t) x) :
    Safe handlers hardware t x where
  grows := h.mono fun _ _ hm => hm.onward.grows
  ok := fun hready hrun =>
    .inr ⟨(h.apply_eq hrun).ready hready, (h.apply_eq hrun).sameRegisters⟩
  error := fun _ hrun => .inr (.inr (h.apply_eq hrun).sameRegisters)

theorem Safe.bind {x : Debugger α} {f : α → Debugger β} (hx : Safe handlers hardware t x)
    (hf : ∀ a, Safe handlers hardware t (f a)) : Safe handlers hardware t (x >>= f) where
  grows := Respects.bind hx.grows fun a => (hf a).grows
  ok := fun {m b m'} hready hrun => by
    obtain ⟨a, middle, hfirst, hrest⟩ := Eff.bind_eq_ok.mp hrun
    rcases hx.ok hready hfirst with hgone | ⟨hready', hsame⟩
    · exact .inl (((hf a).grows.apply_eq hrest).gone hgone)
    rcases (hf a).ok hready' hrest with hgone | ⟨hready'', hsame'⟩
    · exact .inl hgone
    · exact .inr ⟨hready'', hsame.trans hsame'⟩
  error := fun {m e m'} hready hrun => by
    rcases bind_eq_error.mp hrun with hfirst | ⟨a, middle, hfirst, hrest⟩
    · exact hx.error hready hfirst
    rcases hx.ok hready hfirst with hgone | ⟨hready', hsame⟩
    · exact .inl (((hf a).grows.apply_eq hrest).gone hgone)
    rcases (hf a).error hready' hrest with hgone | hmarked | hsame'
    · exact .inl hgone
    · exact .inr (.inl (hmarked.of_grows (hx.grows.apply_eq hfirst)))
    · exact .inr (.inr (hsame.trans hsame'))

theorem Safe.pure (a : α) : Safe handlers hardware t (pure a : Debugger α) :=
  .of_harmless (Respects.pure a)

theorem Safe.ofExcept (x : Except Failure α) :
    Safe handlers hardware t (ofExcept x : Debugger α) :=
  .of_harmless (Respects.ofExcept x)

theorem writeMemory_harmless (address : Word) (data : List Byte) :
    Respects (Harmless t) (writeMemory address data) :=
  writeMemory_respects (fun _ _ => ⟨rfl, rfl, rfl, rfl, rfl⟩) address data

theorem installStopHandler_harmless (address : Word) :
    Respects (Harmless t) (installStopHandler address) :=
  Respects.bind Respects.get fun _ => Respects.bind (Respects.ofExcept _) fun _ =>
    Respects.modify fun _ => ⟨rfl, rfl, rfl, rfl, rfl⟩

/-- A register of a thread was set for a call, or nothing was done to it. -/
structure Clobbers (t : Tid) (m m' : Machine) : Prop where
  onward : Onward t m m'
  user : Marked t m m' ∨ (m'.kernel.threads t).user = (m.kernel.threads t).user

instance : Std.Refl (Clobbers t) := ⟨fun m => ⟨refl_of _ m, .inr rfl⟩⟩

instance : IsTrans Machine (Clobbers t) := ⟨fun _ _ _ h h' => by
  refine ⟨trans_of _ h.onward h'.onward, ?_⟩
  rcases h.user with hmarked | hsame
  · exact .inl (hmarked.onward h'.onward)
  rcases h'.user with hmarked | hsame'
  · exact .inl (hmarked.of_grows h.onward.grows)
  · exact .inr (hsame'.trans hsame)⟩

theorem Harmless.clobbers {m m' : Machine} (h : Harmless t m m') : Clobbers t m m' :=
  ⟨h.onward, .inr (by rw [h.threads])⟩

end Composition

section Evaluation

variable {env : Environment} {hardware : Bool} {t : Tid}

theorem writeRegister_trace {tid : Tid} {id : RegisterId} {val : Value} {m m' : Machine}
    {r : Except Failure PUnit} (h : writeRegister tid id val true m = (r, m')) :
    m'.trace = m.trace :=
  (writeRegister_respects (R := Fixes Machine.trace) (fun _ _ => rfl) (fun _ _ => rfl) id val
    true).apply_eq h

/-- A register write that throws has not reached the kernel. -/
theorem writeRegister_kernel_of_error {tid : Tid} {id : RegisterId} {val : Value}
    {m m' : Machine} {e : Failure} (h : writeRegister tid id val true m = (.error e, m')) :
    m'.kernel = m.kernel := by
  cases hinfo : registerInfoById id with
  | error e' =>
      have hfirst : (ofExcept (registerInfoById id) : Debugger RegisterInfo) m =
          (.error e', m) := by rw [ofExcept_apply, hinfo]
      rw [writeRegister, bind_of_error hfirst] at h
      obtain rfl : m = m' := congrArg Prod.snd h
      rfl
  | ok info =>
      rcases writeRegister_cases hinfo tid val m with
        ⟨e', hrun⟩ | ⟨thread, regs, -, -, ⟨-, e', hrun⟩ | ⟨-, hrun⟩⟩
      · rw [hrun] at h
        obtain rfl : m = m' := congrArg Prod.snd h
        rfl
      · rw [hrun] at h
        obtain rfl := (congrArg Prod.snd h).symm
        rfl
      · rw [hrun] at h
        cases h

theorem commitRegister_marked {id : RegisterId} {val : Value} {m m' : Machine} {u : PUnit}
    (h : commitRegister t id val m = (.ok u, m')) : Marked t m m' := by
  obtain ⟨_, m₁, hwrite, hobserve⟩ := Eff.bind_eq_ok.mp h
  obtain rfl := (congrArg Prod.snd hobserve).symm
  refine ⟨[.committed t], ?_, by simp [unrestored]⟩
  change .committed t :: m₁.trace = .committed t :: m.trace
  rw [writeRegister_trace hwrite]

theorem commitRegister_onward (tid : Tid) (id : RegisterId) (val : Value) :
    Respects (Onward t) (commitRegister tid id val) :=
  commitRegister_respects (writeRegister_respects (fun _ _ => .of_eq rfl rfl) (Onward.setUser tid)
    id val true) fun _ => .observe rfl (fun hgone => hgone) (by simp) rfl

theorem commitRegister_clobbers (id : RegisterId) (val : Value) :
    Respects (Clobbers t) (commitRegister t id val) := by
  intro m
  refine ⟨commitRegister_onward t id val m, ?_⟩
  rcases hrun : commitRegister t id val m with ⟨e | u, m'⟩
  · right
    rcases bind_eq_error.mp hrun with hwrite | ⟨_, m₁, -, hobserve⟩
    · rw [writeRegister_kernel_of_error hwrite]
    · cases hobserve
  · exact .inl (commitRegister_marked hrun)

section Setup

variable {R : Machine → Machine → Prop} [Std.Refl R] [IsTrans Machine R]

theorem passReturnSlot_respects (hcommit : ∀ id val, Respects R (commitRegister t id val))
    (returnType : Option Ty) (returnSlot : Option Word) :
    Respects R (passReturnSlot t returnType returnSlot) := by
  cases returnType with
  | none => exact Respects.pure _
  | some ty =>
      refine Respects.bind (Respects.ofExcept _) fun classes => Respects.ite ?_ (Respects.pure _)
      cases returnSlot with
      | none => exact Respects.throw _
      | some slot => exact Respects.bind (hcommit _ _) fun _ => Respects.pure _

theorem passReference_respects (hmemory : ∀ address data, Respects R (writeMemory address data))
    (param : Ty) (arg : TypedData) (rsp : Word) : Respects R (passReference param arg rsp) := by
  refine Respects.bind (Respects.ofExcept _) fun _ => Respects.ite ?_ (Respects.pure _)
  cases arg.address with
  | some address => exact Respects.pure _
  | none => exact Respects.bind (hmemory _ _) fun _ => Respects.pure _

theorem passReferences_respects (hmemory : ∀ address data, Respects R (writeMemory address data))
    (params : List Ty) (args : List TypedData) (rsp : Word) :
    Respects R (passReferences params args rsp) := by
  induction params generalizing args rsp with
  | nil => exact Respects.pure _
  | cons param params ih =>
      cases args with
      | nil => exact Respects.throw _
      | cons arg args =>
          refine Respects.bind (passReference_respects hmemory _ _ _) fun first => ?_
          exact Respects.bind (ih _ _) fun _ => Respects.pure _

theorem placeEightbyte_respects (hcommit : ∀ id val, Respects R (commitRegister t id val))
    (classes : ParameterClasses) (data : List Byte) (index : Nat) (st : ArgumentState) :
    Respects R (placeEightbyte t classes data index st) := by
  refine Respects.bind (Respects.ofExcept _) fun cls => ?_
  have hplace : ∀ (reg : Except Failure RegisterId) (st : ArgumentState),
      Respects R (do
        let reg ← ofExcept reg
        commitRegister t reg (eightbyteAt data index)
        pure st) := fun reg st =>
    Respects.bind (Respects.ofExcept _) fun _ =>
      Respects.bind (hcommit _ _) fun _ => Respects.pure _
  cases cls with
  | integer => exact hplace _ _
  | sse => exact hplace _ _
  | noClass => exact Respects.pure _
  | sseup => exact Respects.throw _
  | x87 => exact Respects.throw _
  | x87up => exact Respects.throw _
  | complexX87 => exact Respects.throw _
  | memory => exact Respects.throw _

theorem placeEightbytes_respects (hcommit : ∀ id val, Respects R (commitRegister t id val))
    (classes : ParameterClasses) (data : List Byte) (indices : List Nat) (st : ArgumentState) :
    Respects R (placeEightbytes t classes data indices st) := by
  induction indices generalizing st with
  | nil => exact Respects.pure _
  | cons index rest ih =>
      exact Respects.bind (placeEightbyte_respects hcommit _ _ _ _) fun st => ih st

theorem placeArguments_respects (hcommit : ∀ id val, Respects R (commitRegister t id val))
    (params : List Ty) (args : List TypedData) (st : ArgumentState) :
    Respects R (placeArguments t params args st) := by
  induction params generalizing args st with
  | nil => exact Respects.pure _
  | cons param params ih =>
      cases args with
      | nil => exact Respects.throw _
      | cons arg args =>
          refine Respects.bind ?_ fun st => ih args st
          exact Respects.bind (Respects.ofExcept _) fun classes =>
            Respects.ite (Respects.pure _) (placeEightbytes_respects hcommit _ _ _ _)

theorem writeStackArgs_respects (hmemory : ∀ address data, Respects R (writeMemory address data))
    (startPos : Word) (stackArgs : List (TypedData × Word)) :
    Respects R (writeStackArgs startPos stackArgs) := by
  induction stackArgs generalizing startPos with
  | nil => exact Respects.pure _
  | cons arg rest ih => exact Respects.bind (hmemory _ _) fun _ => ih _

/-- Setting up the arguments respects what setting registers and writing memory respect. -/
theorem setupArguments_respects (hcommit : ∀ id val, Respects R (commitRegister t id val))
    (hmemory : ∀ address data, Respects R (writeMemory address data)) (func : Function)
    (args : List TypedData) (returnSlot : Option Word) :
    Respects R (setupArguments t func args returnSlot) := by
  refine Respects.bind (Respects.asks _) fun regs => ?_
  refine Respects.bind (Respects.ofExcept _) fun rsp => ?_
  refine Respects.bind (passReturnSlot_respects hcommit _ _) fun currentIntReg => ?_
  refine Respects.bind (passReferences_respects hmemory _ _ _) fun passed => ?_
  refine Respects.bind (placeArguments_respects hcommit _ _ _) fun st => ?_
  refine Respects.bind (writeStackArgs_respects hmemory _ _) fun _ => ?_
  exact Respects.bind (hcommit _ _) fun _ => hcommit _ _

end Setup

/-- Setting up the arguments puts nothing back. -/
theorem setupArguments_clobbers (func : Function) (args : List TypedData)
    (returnSlot : Option Word) :
    Respects (Clobbers t) (setupArguments t func args returnSlot) :=
  setupArguments_respects commitRegister_clobbers
    (fun _ _ => (writeMemory_harmless _ _).mono fun _ _ => Harmless.clobbers) func args returnSlot

/-- When the arguments are set up, registers are set. -/
theorem setupArguments_marked {func : Function} {args : List TypedData}
    {returnSlot : Option Word} {m m' : Machine} {u : PUnit}
    (h : setupArguments t func args returnSlot m = (.ok u, m')) : Marked t m m' := by
  obtain ⟨regs, m₁, hregs, h₁⟩ := Eff.bind_eq_ok.mp h
  obtain ⟨rsp, m₂, hrsp, h₂⟩ := Eff.bind_eq_ok.mp h₁
  obtain ⟨currentIntReg, m₃, hslot, h₃⟩ := Eff.bind_eq_ok.mp h₂
  obtain ⟨passed, m₄, hpassed, h₄⟩ := Eff.bind_eq_ok.mp h₃
  obtain ⟨st, m₅, hplaced, h₅⟩ := Eff.bind_eq_ok.mp h₄
  obtain ⟨_, m₆, hstack, h₆⟩ := Eff.bind_eq_ok.mp h₅
  obtain ⟨_, m₇, hrax, hlast⟩ := Eff.bind_eq_ok.mp h₆
  obtain rfl : m = m₁ := congrArg Prod.snd hregs
  obtain rfl : m = m₂ := congrArg Prod.snd hrsp
  have hcommit := fun id val => commitRegister_onward (t := t) t id val
  have hmemory : ∀ address data, Respects (Onward t) (writeMemory address data) :=
    fun _ _ => (writeMemory_harmless _ _).mono fun _ _ => Harmless.onward
  have hbefore : Onward t m m₇ := by
    refine trans_of _ ((passReturnSlot_respects hcommit _ _).apply_eq hslot) ?_
    refine trans_of _ ((passReferences_respects hmemory _ _ _).apply_eq hpassed) ?_
    refine trans_of _ ((placeArguments_respects hcommit _ _ _).apply_eq hplaced) ?_
    refine trans_of _ ((writeStackArgs_respects hmemory _ _).apply_eq hstack) ?_
    exact (hcommit _ _).apply_eq hrax
  exact (commitRegister_marked hlast).of_grows hbefore.grows

theorem commitRegister_current {tid : Tid} {id : RegisterId} {val : Value} {m m' : Machine}
    {u : PUnit} (h : commitRegister tid id val m = (.ok u, m')) :
    m'.process.currentThread = m.process.currentThread :=
  (commitRegister_respects (R := Fixes fun m => m.process.currentThread)
    (writeRegister_respects (fun _ _ => rfl) (fun _ _ => rfl) id val true)
    fun _ => rfl).apply_eq h

theorem Harmless.keepsIdle {m m' : Machine} (h : Harmless t m m')
    (hattached : m'.process.isAttached = m.process.isAttached) : KeepsIdle hardware t m m' := by
  refine .of_leaves h.onward (LeavesThread.of_eq h.sites hattached (by rw [h.threads]) ?_ ?_)
  · exact fun thread hthread => h.thread? t ▸ hthread
  · rw [h.trace]

/-- A call of `malloc` on another thread leaves a stopped thread alone, unless
it ends. -/
theorem inferiorMalloc_keepsIdle (hhandlers : env.handlers.Tame hardware) (size : Nat)
    {m : Machine} (hm : m.process.currentThread ≠ t) :
    KeepsIdle hardware t m (inferiorMalloc env size m).2 := by
  have hframe := stopFrame_keepsIdle (t := t) hhandlers
  rw [inferiorMalloc, bind_of_ok (get_apply m)]
  refine related_bind (refl_of _ m) fun saved m₁ hat => ?_
  obtain ⟨-, rfl⟩ := threadAt_eq_ok hat
  cases env.mallocAddress m₁ with
  | none => exact refl_of _ m₁
  | some callAddr =>
      have hinstall := installStopHandler_harmless (t := t) env.entryPoint
      have hattached : Respects (Fixes fun m : Machine => m.process.isAttached)
          (installStopHandler env.entryPoint) :=
        Respects.bind Respects.get fun _ => Respects.bind (Respects.ofExcept _) fun _ =>
          Respects.modify fun _ => rfl
      refine related_bind ((hinstall m₁).keepsIdle (hattached m₁)) fun _ m₂ hinstalled => ?_
      have hcommit : Respects (KeepsIdle hardware t) (commitRegister m₁.process.currentThread .rdi
          (.u64 (BitVec.ofNat 64 size))) :=
        commitRegister_respects (hframe.writeRegister ⟨trivial, hm⟩ _ _ _)
          fun _ => .of_eq rfl rfl rfl
      refine related_bind (hcommit m₂) fun _ m₃ hcommitted => ?_
      have hcurrent : m₃.process.currentThread = m₁.process.currentThread :=
        (commitRegister_current hcommitted).trans (hinstall.apply_eq hinstalled).current
      refine related_bind (inferiorCall_keepsIdle hhandlers _ _ _ ?_) fun _ m₄ _ => refl_of _ m₄
      rw [Option.getD_none, hcurrent]
      exact hm

theorem Ready.of_sameThread {handlers : HitHandlers} {m m' : Machine}
    (hready : Ready handlers hardware t m) (hhandlers : handlers.Tame hardware)
    (hidle : Idle hardware t m') (hsame : SameThread hardware t m m') :
    Ready handlers hardware t m' where
  stopped := hidle.stopped
  cached := fun thread' hthread' i hi => by
    obtain ⟨thread, hthread, hcached⟩ := hsame.cached thread' hthread'
    rw [hcached.data i hi.2, hready.cached thread hthread i hi, hsame.user i hi.2]
  scope := .inr ⟨hhandlers, hidle.tame, hidle.settled⟩

theorem Ready.of_restored {handlers : HitHandlers} {m : Machine} {regs : Registers}
    (h : Restored t regs m) : Ready handlers hardware t m where
  stopped := h.stopped
  cached := fun thread hthread i hi => by rw [h.cached thread hthread, h.user i hi.1]
  scope := .inl h.current

theorem inferiorCall_restored {handlers : HitHandlers} {funcAddr returnAddr : Word}
    {regsToRestore newRegs : Registers} {otid : Option Tid} {m m' : Machine}
    (ht : otid.getD m.process.currentThread = t)
    (h : inferiorCall handlers funcAddr returnAddr regsToRestore otid m = (.ok newRegs, m')) :
    Restored t regsToRestore m' := by
  rw [inferiorCall, bind_of_ok (get_apply m), ht] at h
  obtain ⟨_, m₁, hcall, hrest⟩ := Eff.bind_eq_ok.mp h
  obtain ⟨_, m₂, hobserve, hresult⟩ := Eff.bind_eq_ok.mp hrest
  obtain rfl := (congrArg Prod.snd hobserve).symm
  cases hresult
  obtain ⟨hstopped, huser, hcached, hcurrent⟩ := callThread_restored hcall
  exact ⟨hstopped, huser, hcached, hcurrent⟩

theorem inferiorMalloc_grows (size : Nat) : Respects (Grows t) (inferiorMalloc env size) := by
  refine Respects.bind Respects.get fun m => ?_
  refine Respects.bind (Respects.asks _) fun saved => ?_
  cases env.mallocAddress m with
  | none => exact Respects.throw _
  | some callAddr =>
      refine Respects.bind ((installStopHandler_harmless (t := t) _).mono
        fun _ _ h => h.onward.grows) fun _ => ?_
      refine Respects.bind ((commitRegister_onward _ _ _).mono fun _ _ => Onward.grows)
        fun _ => ?_
      exact Respects.bind (inferiorCall_grows _ _ _ _) fun _ => Respects.ofExcept _

/-- The registers saved before a stretch are those of the thread, so that a
restore of them leaves the thread as it was. -/
theorem Restored.sameRegisters {handlers : HitHandlers} {m m' : Machine} {saved : ThreadState}
    (hready : Ready handlers hardware t m) (hsaved : m.thread? t = some saved)
    (h : Restored t saved.regs m') : SameRegisters hardware t m m' :=
  fun i hi => (h.user i hi.1).trans (hready.cached saved hsaved i hi)

theorem Clobbers.outcome {m m' : Machine} (h : Clobbers t m m') :
    Marked t m m' ∨ SameRegisters hardware t m m' := by
  rcases h.user with hmarked | huser
  · exact .inl hmarked
  · exact .inr fun i _ => by rw [huser]

theorem inferiorMalloc_eq_ok {size : Nat} {m m' : Machine} {slot : Word}
    (h : inferiorMalloc env size m = (.ok slot, m')) :
    ∃ saved callAddr, m.thread? m.process.currentThread = some saved ∧
      env.mallocAddress m = some callAddr ∧
      mallocCall env size callAddr saved.regs m.process.currentThread m = (.ok slot, m') := by
  rw [inferiorMalloc, bind_of_ok (get_apply m)] at h
  obtain ⟨saved, m₁, hat, hrest⟩ := Eff.bind_eq_ok.mp h
  obtain ⟨hsaved, rfl⟩ := threadAt_eq_ok hat
  cases haddress : env.mallocAddress m₁ with
  | none =>
      rw [haddress] at hrest
      cases hrest
  | some callAddr =>
      rw [haddress] at hrest
      exact ⟨saved, callAddr, hsaved, rfl, hrest⟩

theorem inferiorMalloc_eq_error {size : Nat} {m m' : Machine} {e : Failure}
    (h : inferiorMalloc env size m = (.error e, m')) :
    m' = m ∨ ∃ saved callAddr, m.thread? m.process.currentThread = some saved ∧
      env.mallocAddress m = some callAddr ∧
      mallocCall env size callAddr saved.regs m.process.currentThread m = (.error e, m') := by
  rw [inferiorMalloc, bind_of_ok (get_apply m)] at h
  rcases bind_eq_error.mp h with hat | ⟨saved, m₁, hat, hrest⟩
  · exact .inl (congrArg Prod.snd hat).symm
  obtain ⟨hsaved, rfl⟩ := threadAt_eq_ok hat
  cases haddress : env.mallocAddress m₁ with
  | none =>
      rw [haddress] at hrest
      exact .inl (congrArg Prod.snd hrest).symm
  | some callAddr =>
      rw [haddress] at hrest
      exact .inr ⟨saved, callAddr, hsaved, rfl, hrest⟩

/-- Setting the argument of `malloc` on its thread. -/
theorem mallocCall_prepared {size : Nat} {m m₁ m₂ : Machine} {u u' : PUnit}
    (hinstall : installStopHandler env.entryPoint m = (.ok u, m₁))
    (hcommit : commitRegister m.process.currentThread .rdi (.u64 (BitVec.ofNat 64 size)) m₁ =
      (.ok u', m₂)) :
    Marked m.process.currentThread m m₂ ∧
      (none : Option Tid).getD m₂.process.currentThread = m.process.currentThread := by
  have hharmless := (installStopHandler_harmless (t := m.process.currentThread) _).apply_eq hinstall
  exact ⟨(commitRegister_marked hcommit).of_grows hharmless.onward.grows,
    (commitRegister_current hcommit).trans hharmless.current⟩

/-- A call of `malloc` that returns puts the registers of its thread back. -/
theorem mallocCall_restored {size : Nat} {callAddr slot : Word} {saved : Registers}
    {m m' : Machine}
    (h : mallocCall env size callAddr saved m.process.currentThread m = (.ok slot, m')) :
    Restored m.process.currentThread saved m' := by
  obtain ⟨_, m₁, hinstall, h₁⟩ := Eff.bind_eq_ok.mp h
  obtain ⟨_, m₂, hcommit, h₂⟩ := Eff.bind_eq_ok.mp h₁
  obtain ⟨newRegs, m₃, hcall, h₃⟩ := Eff.bind_eq_ok.mp h₂
  obtain rfl : m₃ = m' := congrArg Prod.snd h₃
  exact inferiorCall_restored (mallocCall_prepared hinstall hcommit).2 hcall

/-- A call of `malloc` that throws has set nothing, set registers that are not
put back, or put everything back. -/
theorem mallocCall_outcome_of_error {size : Nat} {callAddr : Word} {saved : Registers}
    {m m' : Machine} {e : Failure}
    (h : mallocCall env size callAddr saved m.process.currentThread m = (.error e, m')) :
    Clobbers m.process.currentThread m m' ∨ Restored m.process.currentThread saved m' := by
  rcases bind_eq_error.mp h with hinstall | ⟨_, m₁, hinstall, h₁⟩
  · exact .inl ((installStopHandler_harmless _).apply_eq hinstall).clobbers
  have hbefore := ((installStopHandler_harmless (t := m.process.currentThread) _).apply_eq
    hinstall).clobbers
  rcases bind_eq_error.mp h₁ with hcommit | ⟨_, m₂, hcommit, h₂⟩
  · exact .inl (trans_of _ hbefore ((commitRegister_clobbers _ _).apply_eq hcommit))
  obtain ⟨hmarked, ht⟩ := mallocCall_prepared hinstall hcommit
  have honward := (trans_of _ hbefore ((commitRegister_clobbers _ _).apply_eq hcommit)).onward
  rcases bind_eq_error.mp h₂ with hcall | ⟨newRegs, m₃, hcall, h₃⟩
  · have hcalled := inferiorCall_onward_of_error (t := m.process.currentThread) hcall
    exact .inl ⟨trans_of _ honward hcalled, .inl (hmarked.onward hcalled)⟩
  · obtain rfl : m₃ = m' := congrArg Prod.snd h₃
    exact .inr (inferiorCall_restored ht hcall)

theorem inferiorMalloc_safe (size : Nat) :
    Safe env.handlers hardware t (inferiorMalloc env size) := by
  have hother : ∀ {m m' : Machine} {r : Except Failure Word},
      Ready env.handlers hardware t m → m.process.currentThread ≠ t →
      inferiorMalloc env size m = (r, m') →
      Gone t m' ∨ (Ready env.handlers hardware t m' ∧ SameRegisters hardware t m m') := by
    intro m m' r hready hcurrent hrun
    obtain ⟨hhandlers, htame, hsettled⟩ := hready.scope.resolve_left hcurrent
    have hkeeps := inferiorMalloc_keepsIdle hhandlers size hcurrent
    rw [hrun] at hkeeps
    rcases hkeeps.idle ⟨hready.stopped, htame, hsettled⟩ with hgone | ⟨hidle, hsame⟩
    · exact .inl hgone
    · exact .inr ⟨hready.of_sameThread hhandlers hidle hsame, fun i hi => hsame.user i hi.2⟩
  refine ⟨inferiorMalloc_grows size, fun {m _ m'} hready hrun => ?_,
    fun {m _ m'} hready hrun => ?_⟩
  · by_cases hcurrent : m.process.currentThread = t
    · subst hcurrent
      obtain ⟨saved, callAddr, hsaved, -, hcall⟩ := inferiorMalloc_eq_ok hrun
      have hrestored := mallocCall_restored hcall
      exact .inr ⟨.of_restored hrestored, hrestored.sameRegisters hready hsaved⟩
    · exact hother hready hcurrent hrun
  · by_cases hcurrent : m.process.currentThread = t
    · subst hcurrent
      rcases inferiorMalloc_eq_error hrun with rfl | ⟨saved, callAddr, hsaved, -, hcall⟩
      · exact .inr (.inr (.refl _))
      rcases mallocCall_outcome_of_error hcall with hclobbers | hrestored
      · exact .inr hclobbers.outcome
      · exact .inr (.inr (hrestored.sameRegisters hready hsaved))
    · rcases hother hready hcurrent hrun with hgone | ⟨-, hsame⟩
      · exact .inl hgone
      · exact .inr (.inr hsame)

/-- A string in quotation marks. -/
def IsStringLiteral (arg : Text) : Prop :=
  2 < arg.length ∧ arg.head? = some (charByte '"') ∧ arg.getLast? = some (charByte '"')

/-- A string literal is written to memory that `malloc` gives. -/
theorem parseArgument_literal {tid : Tid} {arg : Text} (h : IsStringLiteral arg) :
    parseArgument env tid arg = inferiorMalloc env (arg.length - 1) >>= fun ptr =>
      writeMemory ptr ((arg.drop 1).take (arg.length - 2) ++ [0]) >>= fun _ =>
        pure ⟨toLe 8 ptr.toNat, .builtin .string, none⟩ := by
  have hsome : arg ≠ [] := by
    rintro rfl
    cases h.2.1
  unfold IsStringLiteral at h
  unfold parseArgument
  rw [if_neg hsome, if_pos h]

/-- Any other argument is only read. -/
theorem parseArgument_reads {tid : Tid} {arg : Text} (h : ¬ IsStringLiteral arg) :
    Respects (Fixes fun m => m) (parseArgument env tid arg) := by
  unfold IsStringLiteral at h
  unfold parseArgument
  rw [if_neg h]
  refine Respects.ite (Respects.throw _) (Respects.ite (Respects.pure _) (Respects.ite ?_ ?_))
  · split
    · exact Respects.ite (Respects.pure _) (Respects.throw _)
    · exact Respects.throw _
  · refine Respects.ite (Respects.ite ?_ ?_) ?_
    · split
      · exact Respects.throw _
      · exact Respects.pure _
    · split
      · exact Respects.throw _
      · exact Respects.pure _
    · refine Respects.bind (readRegister_respects _ _) fun pc => ?_
      refine Respects.bind Respects.get fun m => ?_
      refine Respects.bind (Respects.ofExcept _) fun res => Respects.ite (Respects.throw _) ?_
      cases res.object with
      | none => exact Respects.throw _
      | some object => exact Respects.pure _

/-- A property of computations that sequencing keeps, and that those have that only read,
call `malloc`, or make a string in the memory it gives. -/
structure CollectRule (env : Environment) (S : {α : Type} → Debugger α → Prop) : Prop where
  read : ∀ {α : Type} {x : Debugger α}, Respects (Fixes fun m => m) x → S x
  bind : ∀ {α β : Type} {x : Debugger α} {f : α → Debugger β},
    S x → (∀ a, S (f a)) → S (x >>= f)
  malloc : ∀ size, S (inferiorMalloc env size)
  literal : ∀ size data, S (inferiorMalloc env size >>= fun ptr =>
    writeMemory ptr data >>= fun _ => pure ptr)

namespace CollectRule

variable {S : {α : Type} → Debugger α → Prop} {α : Type}

theorem pure (h : CollectRule env S) (a : α) : S (pure a : Debugger α) := h.read (Respects.pure a)

theorem throw (h : CollectRule env S) (e : Failure) : S (throw e : Debugger α) :=
  h.read (Respects.throw e)

theorem ite {p : Prop} [Decidable p] {x y : Debugger α} (hx : S x) (hy : S y) :
    S (if p then x else y) := by
  split <;> assumption

theorem parseArgument (h : CollectRule env S) (tid : Tid) (arg : Text) :
    S (parseArgument env tid arg) := by
  by_cases hliteral : IsStringLiteral arg
  · have hmade := h.bind (h.literal (arg.length - 1) ((arg.drop 1).take (arg.length - 2) ++ [0]))
      fun ptr => h.pure (⟨toLe 8 ptr.toNat, .builtin .string, none⟩ : TypedData)
    rw [parseArgument_literal hliteral]
    simp only [bind_assoc] at hmade
    exact hmade
  · exact h.read (parseArgument_reads hliteral)

theorem collectFrom (h : CollectRule env S) (tid : Tid) (argString : Text)
    (argsEnd rounds argsStart : Nat) :
    S (collectFrom env tid argString argsEnd rounds argsStart) := by
  induction rounds generalizing argsStart with
  | zero => exact h.throw _
  | succ rounds ih =>
      refine ite (ite (h.throw _) ?_) (h.pure _)
      refine h.bind (h.parseArgument _ _) fun arg => ?_
      exact h.bind (ih _) fun args => h.pure _

theorem allocateResult (h : CollectRule env S) (returnType : Option Ty) :
    S (allocateResult env returnType) := by
  cases returnType with
  | none => exact h.pure _
  | some ty => exact h.bind (h.malloc _) fun slot => h.pure _

end CollectRule

theorem collectRule_safe : CollectRule env (Safe env.handlers hardware t) where
  read := fun hx => .of_harmless (hx.mono fun m m' heq => by
    obtain rfl : m' = m := heq
    exact refl_of _ m')
  bind := .bind
  malloc := inferiorMalloc_safe
  literal := fun size data => Safe.bind (inferiorMalloc_safe size) fun ptr =>
    Safe.bind (.of_harmless (writeMemory_harmless ptr data)) fun _ => .pure ptr

theorem readEightbyte_harmless (returnSlot : Word) (regs : Registers) (cls : ParameterClass)
    (st : ReturnState) : Respects (Harmless t) (readEightbyte returnSlot regs cls st) := by
  cases cls with
  | integer => exact Respects.bind (Respects.ofExcept _) fun _ => Respects.pure _
  | sse =>
      exact Respects.bind (Respects.ofExcept _) fun _ =>
        Respects.bind (writeMemory_harmless _ _) fun _ => Respects.pure _
  | noClass => exact Respects.pure _
  | sseup => exact Respects.throw _
  | x87 => exact Respects.throw _
  | x87up => exact Respects.throw _
  | complexX87 => exact Respects.throw _
  | memory => exact Respects.throw _

theorem readReturnValue_harmless (retType : Ty) (returnSlot : Word) (regs : Registers) :
    Respects (Harmless t) (readReturnValue retType returnSlot regs) := by
  refine Respects.bind (Respects.ofExcept _) fun classes => Respects.ite ?_ (Respects.ite ?_ ?_)
  · refine Respects.bind Respects.get fun m => ?_
    exact Respects.bind (Respects.ofExcept _) fun _ => Respects.pure _
  · refine Respects.bind (Respects.ofExcept _) fun data => ?_
    exact Respects.bind (writeMemory_harmless _ _) fun _ => Respects.pure _
  · refine Respects.bind (readEightbyte_harmless _ _ _ _) fun st => ?_
    refine Respects.bind (readEightbyte_harmless _ _ _ _) fun st => ?_
    exact Respects.bind (writeMemory_harmless _ _) fun _ => Respects.pure _

theorem readResult_harmless (newRegs : Registers) (returnType : Option Ty)
    (returnSlot : Option Word) :
    Respects (Harmless t) (readResult newRegs returnType returnSlot) := by
  cases returnType with
  | none => exact Respects.pure _
  | some ty =>
      cases returnSlot with
      | none => exact Respects.pure _
      | some slot =>
          exact Respects.bind (readReturnValue_harmless _ _ _) fun _ => Respects.pure _

theorem Restored.of_harmless {regs : Registers} {m m' : Machine} (h : Harmless t m m')
    (hrestored : Restored t regs m) : Restored t regs m' where
  stopped := by rw [h.threads]; exact hrestored.stopped
  user := by rw [h.threads]; exact hrestored.user
  cached := fun thread hthread => hrestored.cached thread (h.thread? t ▸ hthread)
  current := h.current.trans hrestored.current

theorem performCall_grows (func : Function) (args : List TypedData)
    (callAddr returnAddr : Word) (saved : Registers) (returnSlot : Option Word) :
    Respects (Grows t) (performCall env func args callAddr returnAddr saved t returnSlot) := by
  refine Respects.bind ((setupArguments_clobbers _ _ _).mono fun _ _ h => h.onward.grows)
    fun _ => ?_
  refine Respects.bind (inferiorCall_grows _ _ _ _) fun newRegs => ?_
  exact (readResult_harmless _ _ _).mono fun _ _ h => h.onward.grows

/-- A call that returns puts the registers of its thread back. -/
theorem performCall_restored {func : Function} {args : List TypedData}
    {callAddr returnAddr : Word} {saved : Registers} {returnSlot : Option Word}
    {m m' : Machine} {ret : Option TypedData}
    (h : performCall env func args callAddr returnAddr saved t returnSlot m = (.ok ret, m')) :
    Restored t saved m' := by
  obtain ⟨_, m₁, -, h₁⟩ := Eff.bind_eq_ok.mp h
  obtain ⟨newRegs, m₂, hcall, hread⟩ := Eff.bind_eq_ok.mp h₁
  have hrestored : Restored t saved m₂ := inferiorCall_restored (Option.getD_some ..) hcall
  exact hrestored.of_harmless ((readResult_harmless _ _ _).apply_eq hread)

/-- A call that throws has set nothing, set registers that are not put back, or
put everything back. -/
theorem performCall_outcome_of_error {func : Function} {args : List TypedData}
    {callAddr returnAddr : Word} {saved : Registers} {returnSlot : Option Word}
    {m m' : Machine} {e : Failure}
    (h : performCall env func args callAddr returnAddr saved t returnSlot m = (.error e, m')) :
    Clobbers t m m' ∨ Restored t saved m' := by
  rcases bind_eq_error.mp h with hsetup | ⟨_, m₁, hsetup, h₁⟩
  · exact .inl ((setupArguments_clobbers _ _ _).apply_eq hsetup)
  have hbefore := (setupArguments_clobbers (t := t) _ _ _).apply_eq hsetup
  rcases bind_eq_error.mp h₁ with hcall | ⟨newRegs, m₂, hcall, hread⟩
  · have hcalled := inferiorCall_onward_of_error (t := t) hcall
    exact .inl ⟨trans_of _ hbefore.onward hcalled,
      .inl ((setupArguments_marked hsetup).onward hcalled)⟩
  · have hrestored : Restored t saved m₂ := inferiorCall_restored (Option.getD_some ..) hcall
    exact .inr (hrestored.of_harmless ((readResult_harmless _ _ _).apply_eq hread))

theorem inferiorCallFromDwarf_grows (func : Function) (args : List TypedData)
    (returnAddr : Word) :
    Respects (Grows t) (inferiorCallFromDwarf env func args returnAddr t) := by
  have hallocate : Safe env.handlers true t (allocateResult env func.returnType) :=
    collectRule_safe.allocateResult _
  refine Respects.bind (Respects.asks _) fun saved => ?_
  refine Respects.bind (Respects.ofExcept _) fun callAddr => ?_
  exact Respects.bind hallocate.grows fun returnSlot => performCall_grows _ _ _ _ _ _

/-- A call by its debug information that returns leaves the registers of its
thread as they were. -/
theorem inferiorCallFromDwarf_ready {func : Function} {args : List TypedData}
    {returnAddr : Word} {m m' : Machine} {ret : Option TypedData}
    (hready : Ready env.handlers hardware t m)
    (h : inferiorCallFromDwarf env func args returnAddr t m = (.ok ret, m')) :
    Ready env.handlers hardware t m' ∧ SameRegisters hardware t m m' := by
  obtain ⟨saved, m₁, hat, h₁⟩ := Eff.bind_eq_ok.mp h
  obtain ⟨hsaved, rfl⟩ := threadAt_eq_ok hat
  obtain ⟨callAddr, m₂, -, h₂⟩ := Eff.bind_eq_ok.mp h₁
  obtain ⟨returnSlot, m₃, -, hperform⟩ := Eff.bind_eq_ok.mp h₂
  have hrestored := performCall_restored hperform
  exact ⟨.of_restored hrestored, hrestored.sameRegisters hready hsaved⟩

theorem inferiorCallFromDwarf_safe (func : Function) (args : List TypedData)
    (returnAddr : Word) :
    Safe env.handlers hardware t (inferiorCallFromDwarf env func args returnAddr t) := by
  refine ⟨inferiorCallFromDwarf_grows func args returnAddr,
    fun hready hrun => .inr (inferiorCallFromDwarf_ready hready hrun),
    fun {m e m'} hready hrun => ?_⟩
  rcases bind_eq_error.mp hrun with hat | ⟨saved, m₁, hat, h₁⟩
  · obtain rfl : m = m' := congrArg Prod.snd hat
    exact .inr (.inr (.refl m))
  obtain ⟨hsaved, rfl⟩ := threadAt_eq_ok hat
  rcases bind_eq_error.mp h₁ with haddress | ⟨callAddr, m₂, haddress, h₂⟩
  · obtain rfl : m₁ = m' := congrArg Prod.snd haddress
    exact .inr (.inr (.refl m₁))
  obtain rfl : m₁ = m₂ := congrArg Prod.snd haddress
  have hallocate : Safe env.handlers hardware t (allocateResult env func.returnType) :=
    collectRule_safe.allocateResult _
  rcases bind_eq_error.mp h₂ with hresult | ⟨returnSlot, m₃, hresult, hperform⟩
  · exact hallocate.error hready hresult
  rcases hallocate.ok hready hresult with hgone | ⟨hready₃, hsame₃⟩
  · exact .inl (((performCall_grows _ _ _ _ _ _).apply_eq hperform).gone hgone)
  rcases performCall_outcome_of_error hperform with hclobbers | hrestored
  · have houtcome : Marked t m₃ m' ∨ SameRegisters hardware t m₃ m' := hclobbers.outcome
    rcases houtcome with hmarked | hsame
    · exact .inr (.inl (hmarked.of_grows (hallocate.grows.apply_eq hresult)))
    · exact .inr (.inr (hsame₃.trans hsame))
  · exact .inr (.inr (hrestored.sameRegisters hready hsaved))

theorem recordResult_harmless (ret : Option TypedData) :
    Respects (Harmless t) (recordResult ret) := by
  cases ret with
  | none => exact Respects.pure _
  | some value =>
      refine Respects.bind (Respects.modify fun _ => ⟨rfl, rfl, rfl, rfl, rfl⟩) fun _ => ?_
      exact Respects.bind Respects.get fun _ => Respects.pure _

end Evaluation

end Gsdb
