/-
What an evaluation leaves of the registers of the interrupted thread.  Three
stretches of it set registers and rely on a later restore; an object that is
spilled moves the stack pointer outside of all of them.
-/
import Gsdb.EvaluationFrame

namespace Gsdb

open ByteMemory Effects Eff Debugger

section Evaluation

variable {env : Environment} {hardware : Bool} {t : Tid}

/-- How far the stack pointer is moved for the object of a call. -/
def spillSize : Option TypedData → Word
  | some object => if object.address.isSome then 0 else BitVec.ofNat 64 object.type.byteSize
  | none => 0

theorem rsp_info : registerInfoById .rsp = .ok (gpr64 .rsp "rsp" 7 152) := rfl

/-- A byte of the stack pointer is always promised. -/
theorem isPromisedByte_rsp {i : Nat} (hlow : 152 ≤ i) (hhigh : i < 160) :
    isPromisedByte hardware i := by
  refine ⟨.inl ?_, fun _ hdebug => ?_⟩
  · simp only [regsOffset, regsSize]
    omega
  · obtain ⟨hdebug, -⟩ := hdebug
    simp only [debugregOffset] at hdebug
    omega

/-- Moving the stack pointer in the cache and in the kernel keeps the thread
ready, and keeps its registers exactly when the pointer moves nowhere. -/
theorem writeRegister_rsp_ready {handlers : HitHandlers} {m m' : Machine} {rsp size : Word}
    {u : PUnit} (hready : Ready handlers hardware t m)
    (hread : readRegister t .rsp m = (.ok rsp, m))
    (h : writeRegister t .rsp (.u64 (rsp - size)) true m = (.ok u, m')) :
    Ready handlers hardware t m' ∧ (SameRegisters hardware t m m' ↔ size = 0) := by
  obtain ⟨thread, hthread, hstopped, rfl⟩ := writeRegister_gpr64_eq_ok rsp_info rfl h
  obtain ⟨-, thread', hthread', hvalue⟩ := readRegister_eq_ok hread
  rw [hthread] at hthread'
  cases hthread'
  have hoffset : (gpr64 .rsp "rsp" 7 152).offset = 152 := rfl
  have hrsp : rsp = Registers.word thread.regs.data 64 152 := by
    rw [readU64_eq_ok rsp_info rfl rfl hvalue, hoffset]
  have hcached : thread.regs.data.read 152 8 = (m.kernel.threads t).user.read 152 8 :=
    Area.read_congr fun i hlow hhigh =>
      hready.cached thread hthread i (isPromisedByte_rsp hlow hhigh)
  have huser := setUser_user (m.setRegs t { thread.regs with
      data := thread.regs.data.write 152 (toLe 8 (rsp - size).toNat) }) t
    ((m.kernel.threads t).user.write 152 (toLe 8 (rsp - size).toNat))
  refine ⟨⟨?_, fun last hlast i hi => ?_, ?_⟩, fun hsame => ?_, fun hzero i hi => ?_⟩
  · rw [setUser_status]
    exact hready.stopped
  · change (m.setRegs t _).thread? t = some last at hlast
    rw [Machine.thread?_setRegs, hthread] at hlast
    cases hlast
    rw [huser]
    exact Area.write_congr (hready.cached thread hthread i hi) _ _
  · rcases hready.scope with hcurrent | ⟨hhandlers, htame, hsettled⟩
    · exact .inl hcurrent
    · refine .inr ⟨hhandlers, htame, fun last hlast => ?_⟩
      change (m.setRegs t _).thread? t = some last at hlast
      rw [Machine.thread?_setRegs, hthread] at hlast
      cases hlast
      exact hsettled thread hthread
  · have hread : ((m.kernel.threads t).user.write 152 (toLe 8 (rsp - size).toNat)).read 152 8 =
        (m.kernel.threads t).user.read 152 8 := by
      refine Area.read_congr fun i hlow hhigh => ?_
      have hbyte := hsame i (isPromisedByte_rsp hlow hhigh)
      rwa [huser] at hbyte
    have hwritten := Area.read_write (m.kernel.threads t).user 152 (toLe 8 (rsp - size).toNat)
    rw [toLe_length, hread, ← hcached] at hwritten
    have hvalue := toLe_word thread.regs.data 64 152 rfl
    rw [← hrsp] at hvalue
    have hbytes : toLe 8 rsp.toNat = toLe 8 (rsp - size).toNat := hvalue.trans hwritten
    have hnat := congrArg ofLe hbytes
    rw [ofLe_toLe, ofLe_toLe] at hnat
    have hsub : rsp = rsp - size := by
      apply BitVec.eq_of_toNat_eq
      have := rsp.isLt
      have := (rsp - size).isLt
      omega
    simpa using hsub.symm
  · have hmoved : rsp - size = Registers.word thread.regs.data 64 152 := by
      rw [hzero, ← hrsp]
      exact BitVec.sub_zero rsp
    have hvalue : toLe 8 (Registers.word thread.regs.data 64 152).toNat =
        thread.regs.data.read 152 8 := toLe_word thread.regs.data 64 152 rfl
    rw [huser, hmoved, hvalue, hcached, Area.write_read]
    by_cases hrange : 152 ≤ i ∧ i < 152 + 8
    · exact Area.copy_inside hrange
    · exact Area.copy_outside hrange

/-- What placing the object of a call does to the registers of its thread. -/
structure ObjectPlaced (hardware : Bool) (t : Tid) (object : Option TypedData)
    (m m' : Machine) : Prop where
  same : SameRegisters hardware t m m' ↔ spillSize object = 0
  trace : ∃ recent, m'.trace = recent ++ m.trace ∧
    ((∀ size ∈ spilledSizes t recent, size = 0) ↔ spillSize object = 0)

theorem objectData_eq_ok {handlers : HitHandlers} {object : TypedData} {data : List Byte}
    {m m' : Machine} (hready : Ready handlers hardware t m)
    (h : objectData t object m = (.ok data, m')) :
    Ready handlers hardware t m' ∧ ObjectPlaced hardware t (some object) m m' := by
  unfold objectData at h
  cases haddress : object.address with
  | some address =>
      rw [haddress] at h
      cases h
      have hsize : spillSize (some object) = 0 := by simp [spillSize, haddress]
      refine ⟨hready, ⟨fun _ => hsize, fun _ => .refl m⟩, [], rfl, fun _ => hsize, fun _ => ?_⟩
      exact fun size hmem => absurd hmem List.not_mem_nil
  | none =>
      rw [haddress] at h
      obtain ⟨rsp, m₁, hread, h₁⟩ := Eff.bind_eq_ok.mp h
      obtain ⟨rfl, -⟩ := readRegister_eq_ok hread
      obtain ⟨_, m₂, hmemory, h₂⟩ := Eff.bind_eq_ok.mp h₁
      obtain ⟨_, m₃, hwrite, h₃⟩ := Eff.bind_eq_ok.mp h₂
      obtain rfl := (congrArg Prod.snd h₃).symm
      have hharmless := (writeMemory_harmless (t := t) _ _).apply_eq hmemory
      have hread₂ : readRegister t .rsp m₂ = (.ok rsp, m₂) := by
        obtain ⟨-, thread, hthread, hvalue⟩ := readRegister_eq_ok hread
        rw [readRegister, bind_of_ok (threadAt_eq ((hharmless.thread? t).trans hthread)),
          ofExcept_apply, hvalue]
      obtain ⟨hready₃, hsame₃⟩ := writeRegister_rsp_ready (hharmless.ready hready) hread₂ hwrite
      have hsize : spillSize (some object) = BitVec.ofNat 64 object.type.byteSize := by
        simp [spillSize, haddress]
      refine ⟨⟨hready₃.stopped, hready₃.cached, hready₃.scope⟩, ?_, ?_⟩
      · rw [hsize, ← hsame₃]
        constructor
        · exact fun hsame => (hharmless.sameRegisters.symm).trans hsame
        · exact fun hsame => hharmless.sameRegisters.trans hsame
      · refine ⟨[.spilled t (spillSize (some object))], ?_, ?_⟩
        · rw [hsize]
          change _ :: m₃.trace = _ :: m₁.trace
          rw [writeRegister_trace hwrite, hharmless.trace]
        · simp [spilledSizes]

theorem objectData_eq_error {object : TypedData} {e : Failure}
    {m m' : Machine} (h : objectData t object m = (.error e, m')) :
    m'.trace = m.trace ∧ SameRegisters hardware t m m' := by
  unfold objectData at h
  cases haddress : object.address with
  | some address =>
      rw [haddress] at h
      cases h
  | none =>
      rw [haddress] at h
      rcases bind_eq_error.mp h with hread | ⟨rsp, m₁, hread, h₁⟩
      · obtain rfl : m = m' := (readRegister_state t .rsp m).symm.trans (congrArg Prod.snd hread)
        exact ⟨rfl, .refl m⟩
      obtain ⟨rfl, -⟩ := readRegister_eq_ok hread
      rcases bind_eq_error.mp h₁ with hmemory | ⟨_, m₂, hmemory, h₂⟩
      · have hharmless := (writeMemory_harmless (t := t) _ _).apply_eq hmemory
        exact ⟨hharmless.trace, hharmless.sameRegisters⟩
      have hharmless := (writeMemory_harmless (t := t) _ _).apply_eq hmemory
      rcases bind_eq_error.mp h₂ with hwrite | ⟨_, m₃, hwrite, h₃⟩
      · refine ⟨(writeRegister_trace hwrite).trans hharmless.trace,
          hharmless.sameRegisters.trans fun i _ => ?_⟩
        rw [writeRegister_kernel_of_error hwrite]
      · cases h₃

theorem objectArgument_eq_ok {handlers : HitHandlers} {funcs : List Function}
    {object : Option TypedData} {args : List TypedData} {m m' : Machine}
    (hready : Ready handlers hardware t m)
    (h : objectArgument t funcs object m = (.ok args, m')) :
    Ready handlers hardware t m' ∧ ObjectPlaced hardware t object m m' := by
  cases object with
  | none =>
      cases h
      refine ⟨hready, ⟨fun _ => rfl, fun _ => .refl m⟩, [], rfl, fun _ => rfl, fun _ => ?_⟩
      exact fun size hmem => absurd hmem List.not_mem_nil
  | some object =>
      obtain ⟨data, m₁, hdata, h₁⟩ := Eff.bind_eq_ok.mp h
      obtain ⟨ty, m₂, hty, h₂⟩ := Eff.bind_eq_ok.mp h₁
      obtain rfl : m₁ = m₂ := congrArg Prod.snd hty
      cases h₂
      exact objectData_eq_ok hready hdata

theorem objectArgument_eq_error {handlers : HitHandlers} {funcs : List Function}
    {object : Option TypedData} {e : Failure} {m m' : Machine}
    (hready : Ready handlers hardware t m)
    (h : objectArgument t funcs object m = (.error e, m')) :
    (m'.trace = m.trace ∧ SameRegisters hardware t m m') ∨
      ObjectPlaced hardware t object m m' := by
  cases object with
  | none => cases h
  | some object =>
      rcases bind_eq_error.mp h with hdata | ⟨data, m₁, hdata, h₁⟩
      · exact .inl (objectData_eq_error hdata)
      have hplaced := (objectData_eq_ok hready hdata).2
      rcases bind_eq_error.mp h₁ with hty | ⟨ty, m₂, -, h₂⟩
      · obtain rfl : m₁ = m' := congrArg Prod.snd hty
        exact .inr hplaced
      · cases h₂

/-- What follows the placing of the object in an evaluation. -/
def callWith (env : Environment) (tid : Tid) (funcs : List Function) (argString : Text)
    (implicit : List TypedData) : Debugger (Option (TypedData × Nat)) := do
  let explicit ← explicitArguments env tid argString
  let args := implicit ++ explicit
  let func ← ofExcept (resolveOverload env funcs args)
  let ret ← inferiorCallFromDwarf env func args env.entryPoint tid
  recordResult ret

theorem evaluateExpression_eq (env : Environment) (expr : Text) (otid : Option Tid)
    (m : Machine) :
    evaluateExpression env expr otid m = (do
      let res ← resolveCall env (otid.getD m.process.currentThread) expr
      installStopHandler env.entryPoint
      let implicit ← objectArgument (otid.getD m.process.currentThread) res.1.funcs res.1.object
      callWith env (otid.getD m.process.currentThread) res.1.funcs res.2 implicit :
        Debugger (Option (TypedData × Nat))) m := by
  rw [evaluateExpression, bind_of_ok (get_apply m)]
  simp only [collectArguments, bind_assoc]
  rfl

theorem callWith_safe (funcs : List Function) (argString : Text) (implicit : List TypedData) :
    Safe env.handlers hardware t (callWith env t funcs argString implicit) := by
  refine Safe.bind (collectRule_safe.collectFrom _ _ _ _ _) fun explicit => ?_
  refine Safe.bind (.ofExcept _) fun func => ?_
  refine Safe.bind (inferiorCallFromDwarf_safe _ _ _) fun ret => ?_
  exact .of_harmless (recordResult_harmless _)

/-- An evaluation that returns leaves its thread stopped. -/
theorem callWith_stopped {funcs : List Function} {argString : Text}
    {implicit : List TypedData} {m m' : Machine} {result : Option (TypedData × Nat)}
    (h : callWith env t funcs argString implicit m = (.ok result, m')) : ¬ Gone t m' := by
  obtain ⟨explicit, m₁, -, h₁⟩ := Eff.bind_eq_ok.mp h
  obtain ⟨func, m₂, -, h₂⟩ := Eff.bind_eq_ok.mp h₁
  obtain ⟨ret, m₃, hcall, hrecord⟩ := Eff.bind_eq_ok.mp h₂
  obtain ⟨saved, m₄, -, h₄⟩ := Eff.bind_eq_ok.mp hcall
  obtain ⟨callAddr, m₅, -, h₅⟩ := Eff.bind_eq_ok.mp h₄
  obtain ⟨returnSlot, m₆, -, hperform⟩ := Eff.bind_eq_ok.mp h₅
  have hstopped := ((performCall_restored hperform).of_harmless
    ((recordResult_harmless _).apply_eq hrecord)).stopped
  intro hgone
  rw [Gone, hstopped] at hgone
  cases hgone

theorem resolveCall_state (tid : Tid) (expr : Text) (m : Machine) :
    (resolveCall env tid expr m).2 = m := by
  have hreads : Respects (Fixes fun m => m) (resolveCall env tid expr) := by
    refine Respects.bind (readRegister_respects _ _) fun pc => ?_
    refine Respects.ite (Respects.throw _) ?_
    refine Respects.bind Respects.get fun m => ?_
    exact Respects.bind (Respects.ofExcept _) fun res =>
      Respects.ite (Respects.throw _) (Respects.pure _)
  exact hreads m

/-- The object that the function of an expression is called on. -/
def calledObject (env : Environment) (expr : Text) (tid : Tid) (m : Machine) :
    Option TypedData :=
  match (resolveCall env tid expr m).1 with
  | .ok res => res.1.object
  | .error _ => none

/-- An evaluation that returns leaves the registers as they were exactly when
nothing was spilled. -/
theorem evaluateExpression_sameRegisters_iff {expr : Text} {otid : Option Tid} {m m' : Machine}
    {result : Option (TypedData × Nat)} (ht : otid.getD m.process.currentThread = t)
    (hready : Ready env.handlers hardware t m)
    (h : evaluateExpression env expr otid m = (.ok result, m')) :
    SameRegisters hardware t m m' ↔ spillSize (calledObject env expr t m) = 0 := by
  rw [evaluateExpression_eq, ht] at h
  obtain ⟨res, m₁, hresolve, h₁⟩ := Eff.bind_eq_ok.mp h
  have hobject : calledObject env expr t m = res.1.object := by
    simp [calledObject, hresolve]
  obtain rfl : m = m₁ := (resolveCall_state t expr m).symm.trans (congrArg Prod.snd hresolve)
  obtain ⟨_, m₂, hinstall, h₂⟩ := Eff.bind_eq_ok.mp h₁
  obtain ⟨implicit, m₃, hplace, hcall⟩ := Eff.bind_eq_ok.mp h₂
  have hharmless := (installStopHandler_harmless (t := t) _).apply_eq hinstall
  obtain ⟨hready₃, hplaced⟩ := objectArgument_eq_ok (hharmless.ready hready) hplace
  rcases (callWith_safe _ _ _).ok hready₃ hcall with hgone | ⟨-, hsame₃⟩
  · exact absurd hgone (callWith_stopped hcall)
  rw [hobject, ← hplaced.same]
  constructor
  · exact fun hsame => hharmless.sameRegisters.symm.trans (hsame.trans hsame₃.symm)
  · exact fun hsame => hharmless.sameRegisters.trans (hsame.trans hsame₃)

/-- An evaluation that throws with no registers set for a call leaves them as
they were exactly when nothing was spilled. -/
theorem evaluateExpression_sameRegisters_iff_of_error {expr : Text} {otid : Option Tid}
    {m m' : Machine} {e : Failure} {recent : List Observation}
    (ht : otid.getD m.process.currentThread = t) (hready : Ready env.handlers hardware t m)
    (h : evaluateExpression env expr otid m = (.error e, m')) (halive : ¬ Gone t m')
    (htrace : m'.trace = recent ++ m.trace) (hrestored : unrestored t recent = false) :
    SameRegisters hardware t m m' ↔ ∀ size ∈ spilledSizes t recent, size = 0 := by
  have hquiet : m'.trace = m.trace → SameRegisters hardware t m m' →
      (SameRegisters hardware t m m' ↔ ∀ size ∈ spilledSizes t recent, size = 0) := by
    intro hnone hsame
    obtain rfl : recent = [] := List.append_left_eq_self.mp (htrace.symm.trans hnone)
    exact ⟨fun _ size hmem => absurd hmem List.not_mem_nil, fun _ => hsame⟩
  rw [evaluateExpression_eq, ht] at h
  rcases bind_eq_error.mp h with hresolve | ⟨res, m₁, hresolve, h₁⟩
  · obtain rfl : m = m' := (resolveCall_state t expr m).symm.trans (congrArg Prod.snd hresolve)
    exact hquiet rfl (.refl m)
  obtain rfl : m = m₁ := (resolveCall_state t expr m).symm.trans (congrArg Prod.snd hresolve)
  rcases bind_eq_error.mp h₁ with hinstall | ⟨_, m₂, hinstall, h₂⟩
  · have hharmless := (installStopHandler_harmless (t := t) _).apply_eq hinstall
    exact hquiet hharmless.trace hharmless.sameRegisters
  have hharmless := (installStopHandler_harmless (t := t) _).apply_eq hinstall
  have hready₂ := hharmless.ready hready
  rcases bind_eq_error.mp h₂ with hplace | ⟨implicit, m₃, hplace, hcall⟩
  · rcases objectArgument_eq_error hready₂ hplace with ⟨hnone, hsame⟩ | hplaced
    · exact hquiet (hnone.trans hharmless.trace) (hharmless.sameRegisters.trans hsame)
    obtain ⟨spilled, hspilled, hsizes⟩ := hplaced.trace
    obtain rfl : recent = spilled := by
      rw [htrace, hharmless.trace] at hspilled
      exact List.append_cancel_right hspilled
    rw [hsizes, ← hplaced.same]
    constructor
    · exact fun hsame => hharmless.sameRegisters.symm.trans hsame
    · exact fun hsame => hharmless.sameRegisters.trans hsame
  obtain ⟨hready₃, hplaced⟩ := objectArgument_eq_ok hready₂ hplace
  have hsafe : Safe env.handlers hardware t (callWith env t res.1.funcs res.2 implicit) :=
    callWith_safe _ _ _
  obtain ⟨spilled, hspilled, hsizes⟩ := hplaced.trace
  obtain ⟨later, hlater, hnone⟩ := (hsafe.grows.apply_eq hcall).trace
  have hrecent : recent = later ++ spilled := by
    rw [htrace, hspilled, hharmless.trace, ← List.append_assoc] at hlater
    exact List.append_cancel_right hlater
  have hspilledSizes : spilledSizes t recent = spilledSizes t spilled := by
    rw [hrecent, spilledSizes, List.filterMap_append]
    change spilledSizes t later ++ spilledSizes t spilled = spilledSizes t spilled
    rw [hnone, List.nil_append]
  rcases hsafe.error hready₃ hcall with hgone | ⟨marked, hmarked, hmark⟩ | hsame₃
  · exact absurd hgone halive
  · have hsame : later = marked := List.append_cancel_right (hlater.symm.trans hmarked)
    rw [hrecent, hsame, unrestored_append_left hmark] at hrestored
    cases hrestored
  · rw [hspilledSizes, hsizes, ← hplaced.same]
    constructor
    · exact fun hsame => hharmless.sameRegisters.symm.trans (hsame.trans hsame₃.symm)
    · exact fun hsame => hharmless.sameRegisters.trans (hsame.trans hsame₃)

end Evaluation

/-- A thread that the debugger has stopped: its registers are in the cache. -/
structure StoppedThread (t : Tid) (m : Machine) : Prop where
  stopped : (m.kernel.threads t).status = .stopped
  settled : Settled t m
  cached : ∀ thread, m.thread? t = some thread → ∀ i, isRegisterByte i →
    thread.regs.data i = (m.kernel.threads t).user i

/-- No hardware site is around and no hit handler makes one. -/
def SoftwareOnly (env : Environment) (m : Machine) : Prop :=
  env.handlers.Tame false ∧ Tame false m

theorem StoppedThread.ready {env : Environment} {t : Tid} {m : Machine}
    (h : StoppedThread t m) : Ready env.handlers true t m where
  stopped := h.stopped
  cached := fun thread hthread i hi => h.cached thread hthread i hi.1
  scope := .inr ⟨handlers_tame_true _, tame_true m, h.settled⟩

theorem StoppedThread.ready_all {env : Environment} {t : Tid} {m : Machine}
    (h : StoppedThread t m) (hscope : t = m.process.currentThread ∨ SoftwareOnly env m) :
    Ready env.handlers false t m where
  stopped := h.stopped
  cached := fun thread hthread i hi => h.cached thread hthread i hi.1
  scope := by
    rcases hscope with hcurrent | ⟨hhandlers, htame⟩
    · exact .inl hcurrent.symm
    · exact .inr ⟨hhandlers, htame, h.settled⟩

/-- The registers of a thread outside a set of bytes are as they were. -/
def RegistersKept (t : Tid) (m m' : Machine) (excepted : Nat → Prop) : Prop :=
  ∀ i, isRegisterByte i → ¬ excepted i →
    (m'.kernel.threads t).user i = (m.kernel.threads t).user i

theorem registersKept_isDebugByte_iff {t : Tid} {m m' : Machine} :
    RegistersKept t m m' isDebugByte ↔ SameRegisters true t m m' :=
  ⟨fun h i hi => h i hi.1 (hi.2 rfl), fun h i hi hdebug => h i ⟨hi, fun _ => hdebug⟩⟩

theorem registersKept_false_iff {t : Tid} {m m' : Machine} :
    RegistersKept t m m' (fun _ => False) ↔ SameRegisters false t m m' :=
  ⟨fun h i hi => h i hi.1 id, fun h i hi _ => h i ⟨hi, fun hfalse => by cases hfalse⟩⟩

/-- A successful evaluation is transparent to the registers of the thread it
runs on exactly when the object of the call needs no room on the stack.  On
another than the current thread the debug registers can follow hardware sites
that are switched while `malloc` runs. -/
theorem evaluateExpression_transparent_iff (env : Environment) (expr : Text)
    (otid : Option Tid) (m m' : Machine) (result : Option (TypedData × Nat))
    (hstopped : StoppedThread (otid.getD m.process.currentThread) m)
    (h : evaluateExpression env expr otid m = (.ok result, m')) :
    (RegistersKept (otid.getD m.process.currentThread) m m' isDebugByte ↔
        spillSize (calledObject env expr (otid.getD m.process.currentThread) m) = 0) ∧
      (otid.getD m.process.currentThread = m.process.currentThread ∨ SoftwareOnly env m →
        (RegistersKept (otid.getD m.process.currentThread) m m' (fun _ => False) ↔
          spillSize (calledObject env expr (otid.getD m.process.currentThread) m) = 0)) := by
  rw [registersKept_isDebugByte_iff, registersKept_false_iff]
  exact ⟨evaluateExpression_sameRegisters_iff rfl hstopped.ready h,
    fun hscope => evaluateExpression_sameRegisters_iff rfl (hstopped.ready_all hscope) h⟩

namespace EvaluationWitness

/-- Names stand for one object and one function, which starts at an address of
its own; all types are the same. -/
def environment (object : Option TypedData) (params : List Ty) : Environment where
  handlers := ⟨fun _ _ => ([], .ok false)⟩
  resolveIndirectName := fun _ _ _ =>
    .ok ⟨object, [⟨params, none, some 0x1000, none, some (.pointer 0)⟩]⟩
  mallocAddress := fun _ => none
  entryPoint := 0x2000
  sameType := fun _ _ => .ok true
  toDouble := fun _ => none

/-- An object in registers. -/
def object : TypedData := ⟨List.replicate 8 0, .dwarf (.base "long int" .signed 8), none⟩

/-- One stopped thread and a breakpoint at the entry point, which the thread
will hit once it runs. -/
def machine : Machine :=
  let rest := Machine.atRest fun _ => 0
  { rest with
    kernel := { rest.kernel with
      script := [.report ⟨1, .stopped sigtrap 0, .siKernel,
        InferiorCallWitness.userAt 0x2001, fun _ => 0⟩] }
    process := { rest.process with
      breakpointSites := [⟨some 0, 1, 0x2000, true, 0x90, false, true, -1⟩]
      breakpoints := [⟨-1, true, false, true, [0x2000], 1, none⟩]
      threads := [(1, ⟨⟨fun _ => 0, [], 0⟩, ⟨1, .stopped, 0, none, none⟩, .stopped, false⟩)] } }

theorem stoppedThread : StoppedThread 1 machine where
  stopped := rfl
  settled := fun thread hthread => by
    obtain rfl := Option.some.inj hthread
    decide
  cached := fun thread hthread i _ => by
    obtain rfl := Option.some.inj hthread
    rfl

/-- A call of a function without parameters. -/
def freeCall : Except Failure (Option (TypedData × Nat)) × Machine :=
  evaluateExpression (environment none []) (ascii "f()") none machine

/-- A call of a member function. -/
def memberCall : Except Failure (Option (TypedData × Nat)) × Machine :=
  evaluateExpression (environment (some object) [.pointer 0]) (ascii "o.f()") none machine

theorem eq_of_isSome {α : Type} {run : Except Failure α × Machine}
    (h : run.1.toOption.isSome = true) : ∃ a, run = (.ok a, run.2) := by
  rcases run with ⟨e | a, m'⟩
  · cases h
  · exact ⟨a, rfl⟩

theorem eq_of_isNone {α : Type} {run : Except Failure α × Machine}
    (h : run.1.toOption.isNone = true) : ∃ e, run = (.error e, run.2) := by
  rcases run with ⟨e | a, m'⟩
  · exact ⟨e, rfl⟩
  · cases h

end EvaluationWitness

open EvaluationWitness in
theorem evaluateExpression_transparent_iff_freeCall :
    freeCall.1.toOption.isSome = true ∧
      RegistersKept 1 machine freeCall.2 (fun _ => False) := by
  have hreturns : freeCall.1.toOption.isSome = true := by decide +kernel
  obtain ⟨result, hrun⟩ := eq_of_isSome hreturns
  exact ⟨hreturns, ((evaluateExpression_transparent_iff (environment none []) (ascii "f()") none
    machine freeCall.2 result stoppedThread hrun).2 (.inl rfl)).mpr (by decide +kernel)⟩

open EvaluationWitness in
/-- A call on an object in registers leaves the stack pointer lower. -/
theorem evaluateExpression_not_transparent :
    ¬ ∀ (env : Environment) (expr : Text) (otid : Option Tid) (m m' : Machine)
      (result : Option (TypedData × Nat)),
      StoppedThread (otid.getD m.process.currentThread) m →
      evaluateExpression env expr otid m = (.ok result, m') →
      RegistersKept (otid.getD m.process.currentThread) m m' (fun _ => False) := by
  intro hall
  have hreturns : memberCall.1.toOption.isSome = true := by decide +kernel
  obtain ⟨result, hrun⟩ := eq_of_isSome hreturns
  have hkept : RegistersKept 1 machine memberCall.2 (fun _ => False) :=
    hall (environment (some object) [.pointer 0]) (ascii "o.f()") none machine memberCall.2 result
      stoppedThread hrun
  have hmoved : (memberCall.2.kernel.threads 1).user 152 ≠ (machine.kernel.threads 1).user 152 := by
    decide +kernel
  exact hmoved (hkept 152 (by decide) id)

/-- A failed evaluation whose exception does not come from within a call leaves
the registers of its thread untouched exactly when nothing of nonzero size was
spilled before it. -/
theorem evaluateExpression_untouched_iff (env : Environment) (expr : Text)
    (otid : Option Tid) (m m' : Machine) (e : Failure) (recent : List Observation)
    (hstopped : StoppedThread (otid.getD m.process.currentThread) m)
    (h : evaluateExpression env expr otid m = (.error e, m'))
    (halive : ¬ Gone (otid.getD m.process.currentThread) m')
    (htrace : m'.trace = recent ++ m.trace)
    (hrestored : unrestored (otid.getD m.process.currentThread) recent = false) :
    (RegistersKept (otid.getD m.process.currentThread) m m' isDebugByte ↔
        ∀ size ∈ spilledSizes (otid.getD m.process.currentThread) recent, size = 0) ∧
      (otid.getD m.process.currentThread = m.process.currentThread ∨ SoftwareOnly env m →
        (RegistersKept (otid.getD m.process.currentThread) m m' (fun _ => False) ↔
          ∀ size ∈ spilledSizes (otid.getD m.process.currentThread) recent, size = 0)) := by
  rw [registersKept_isDebugByte_iff, registersKept_false_iff]
  exact ⟨evaluateExpression_sameRegisters_iff_of_error rfl hstopped.ready h halive htrace
      hrestored,
    fun hscope => evaluateExpression_sameRegisters_iff_of_error rfl (hstopped.ready_all hscope) h
      halive htrace hrestored⟩

namespace EvaluationWitness

/-- A call with too few arguments. -/
def unmatchedCall : Except Failure (Option (TypedData × Nat)) × Machine :=
  evaluateExpression (environment none [.pointer 0]) (ascii "f()") none machine

/-- A call of a member function with an argument missing. -/
def brokenCall : Except Failure (Option (TypedData × Nat)) × Machine :=
  evaluateExpression (environment (some object) [.pointer 0]) (ascii "o.f(,)") none machine

theorem not_gone_of_ne {t : Tid} {m : Machine} (h : (m.kernel.threads t).status ≠ .absent) :
    ¬ Gone t m := h

end EvaluationWitness

open EvaluationWitness in
theorem evaluateExpression_untouched_iff_unmatchedCall :
    unmatchedCall.1.toOption.isNone = true ∧
      RegistersKept 1 machine unmatchedCall.2 (fun _ => False) := by
  have hthrows : unmatchedCall.1.toOption.isNone = true := by decide +kernel
  obtain ⟨e, hrun⟩ := eq_of_isNone hthrows
  have halive : ¬ Gone 1 unmatchedCall.2 := not_gone_of_ne (by decide +kernel)
  have hsizes : spilledSizes 1 unmatchedCall.2.trace = [] := by decide +kernel
  refine ⟨hthrows, ((evaluateExpression_untouched_iff (environment none [.pointer 0])
    (ascii "f()") none machine unmatchedCall.2 e unmatchedCall.2.trace stoppedThread hrun halive
    (List.append_nil _).symm (by decide +kernel)).2 (.inl rfl)).mpr fun size hmem => ?_⟩
  change size ∈ spilledSizes 1 unmatchedCall.2.trace at hmem
  rw [hsizes] at hmem
  exact absurd hmem List.not_mem_nil

open EvaluationWitness in
/-- An argument that cannot be parsed leaves the stack pointer below the object
that was spilled before it. -/
theorem evaluateExpression_not_untouched :
    ¬ ∀ (env : Environment) (expr : Text) (otid : Option Tid) (m m' : Machine) (e : Failure),
      StoppedThread (otid.getD m.process.currentThread) m →
      evaluateExpression env expr otid m = (.error e, m') →
      ¬ Gone (otid.getD m.process.currentThread) m' →
      RegistersKept (otid.getD m.process.currentThread) m m' (fun _ => False) := by
  intro hall
  have hthrows : brokenCall.1.toOption.isNone = true := by decide +kernel
  obtain ⟨e, hrun⟩ := eq_of_isNone hthrows
  have halive : ¬ Gone 1 brokenCall.2 := not_gone_of_ne (by decide +kernel)
  have hkept : RegistersKept 1 machine brokenCall.2 (fun _ => False) :=
    hall (environment (some object) [.pointer 0]) (ascii "o.f(,)") none machine brokenCall.2 e
      stoppedThread hrun halive
  have hmoved : (brokenCall.2.kernel.threads 1).user 152 ≠ (machine.kernel.threads 1).user 152 := by
    decide +kernel
  exact hmoved (hkept 152 (by decide) id)

end Gsdb
