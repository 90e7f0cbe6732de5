/-
The alignment of the stack where the functions that an evaluation calls are entered.  The
function of the expression is called on a stack that was aligned for it, `malloc` on the
stack of the current thread as it is.
-/
import Gsdb.CallEntries

namespace Gsdb

open ByteMemory Effects Eff Debugger

/-- The debugger's stack pointer of a thread. -/
def Machine.stackPointer (m : Machine) (t : Tid) : Word :=
  ((m.thread? t).map fun thread => User.sp thread.regs.data).getD 0

/-- What is found before the arguments are set up. -/
structure PreparedCall where
  func : Function
  args : List TypedData
  callAddr : Word
  saved : Registers
  returnSlot : Option Word

namespace Debugger

/-- The part of `evaluate_expression` before the arguments are set up.  Whatever it has the
inferior execute is `malloc`. -/
def prepareCall (env : Environment) (expr : Text) (tid : Tid) : Debugger PreparedCall := do
  let res ← resolveCall env tid expr
  installStopHandler env.entryPoint
  let args ← collectArguments env tid res.2 res.1.funcs res.1.object
  let func ← ofExcept (resolveOverload env res.1.funcs args)
  let saved ← threadAt tid
  let callAddr ← ofExcept (callAddress func)
  let returnSlot ← allocateResult env func.returnType
  pure ⟨func, args, callAddr, saved.regs, returnSlot⟩

/-- The part of `evaluate_expression` from there on. -/
def finishCall (env : Environment) (tid : Tid) (call : PreparedCall) :
    Debugger (Option (TypedData × Nat)) := do
  let ret ← performCall env call.func call.args call.callAddr env.entryPoint call.saved tid
    call.returnSlot
  recordResult ret

end Debugger

theorem evaluateExpression_eq_prepareCall (env : Environment) (expr : Text) (otid : Option Tid)
    (m : Machine) :
    evaluateExpression env expr otid m =
      (prepareCall env expr (otid.getD m.process.currentThread) >>=
        finishCall env (otid.getD m.process.currentThread)) m := by
  rw [evaluateExpression, bind_of_ok (get_apply m)]
  simp only [prepareCall, inferiorCallFromDwarf, bind_assoc]
  rfl

/-- The current thread and its stack pointer. -/
def OnStack (c : Tid) (sp : Word) (m : Machine) : Prop :=
  m.process.currentThread = c ∧ StackIs c sp m

/-- An entry of `malloc`, called on a thread with a stack pointer. -/
def MallocEntry (env : Environment) (c : Tid) (sp : Word) (entry : CallEntry) : Prop :=
  ∃ m callAddr, env.mallocAddress m = some callAddr ∧ entry.At c callAddr (sp - 8)

/-- Nothing but `malloc` is called, on the current thread and its stack as it is. -/
def CallsMalloc {α : Type} (env : Environment) (c : Tid) (sp : Word) (x : Debugger α) : Prop :=
  ∀ m₀, Triple (fun m => OnStack c sp m ∧ Returned (MallocEntry env c sp) m₀ m) x
    (fun _ m => OnStack c sp m ∧ Returned (MallocEntry env c sp) m₀ m)
    (fun _ m => Entered (MallocEntry env c sp) m₀ m)

section Allocating

variable {env : Environment} {c : Tid} {sp : Word} {α β : Type}

theorem CallsMalloc.of_harmless {x : Debugger α} (h : Respects (Harmless c) x) :
    CallsMalloc env c sp x := by
  rintro m₀ m ⟨⟨hcurrent, hsp⟩, hreturned⟩
  have hafter : ∀ r m', x m = (r, m') →
      OnStack c sp m' ∧ Returned (MallocEntry env c sp) m₀ m' := by
    intro r m' hrun
    have hharmless := h.apply_eq hrun
    refine ⟨⟨hharmless.current.trans hcurrent, fun thread hthread => ?_⟩, ?_⟩
    · exact hsp thread (hharmless.thread? c ▸ hthread)
    · exact trans_of _ hreturned (.of_eq hharmless.trace)
  exact ⟨fun a m' hrun => hafter _ m' hrun, fun e m' hrun => (hafter _ m' hrun).2.entered⟩

theorem CallsMalloc.bind {x : Debugger α} {f : α → Debugger β} (hx : CallsMalloc env c sp x)
    (hf : ∀ a, CallsMalloc env c sp (f a)) : CallsMalloc env c sp (x >>= f) :=
  fun m₀ => Triple.bind (hx m₀) fun a => hf a m₀

theorem rdi_info : registerInfoById .rdi = .ok (gpr64 .rdi "rdi" 5 112) := rfl

/-- The call of `malloc` on the current thread enters it on the stack as it is, and puts
the registers back. -/
theorem mallocCall_entries {size : Nat} {callAddr : Word} {saved : Registers} {m m' : Machine}
    {r : Except Failure Word} (hstack : OnStack c sp m) (hsaved : User.sp saved.data = sp)
    (haddress : ∃ m, env.mallocAddress m = some callAddr)
    (h : mallocCall env size callAddr saved c m = (r, m')) :
    Entered (MallocEntry env c sp) m m' ∧
      ∀ a, r = .ok a → OnStack c sp m' ∧ Called (MallocEntry env c sp) m m' := by
  obtain ⟨hcurrent, hsp⟩ := hstack
  obtain ⟨before, haddress⟩ := haddress
  have hmalloc : ∀ entry, CallEntry.At c callAddr (sp - 8) entry → MallocEntry env c sp entry :=
    fun entry hentry => ⟨before, callAddr, haddress, hentry⟩
  rcases hinstall : installStopHandler env.entryPoint m with ⟨e | u, m₁⟩
  · rw [mallocCall, bind_of_error hinstall] at h
    cases h
    have hharmless := (installStopHandler_harmless (t := c) _).apply_eq hinstall
    exact ⟨(Returned.of_eq hharmless.trace).entered, fun a heq => by cases heq⟩
  rw [mallocCall, bind_of_ok hinstall] at h
  have hharmless := (installStopHandler_harmless (t := c) _).apply_eq hinstall
  have hnothing : Logs (· = .committed c) m m₁ := .of_eq hharmless.trace
  rcases hcommit : commitRegister c .rdi (.u64 (BitVec.ofNat 64 size)) m₁ with ⟨e | u, m₂⟩
  · rw [bind_of_error hcommit] at h
    cases h
    obtain ⟨recent, htrace, hset⟩ :=
      trans_of _ hnothing ((commitRegister_logs _ _).apply_eq hcommit)
    refine ⟨⟨recent, htrace, fun entry hentry => ?_⟩, fun a heq => by cases heq⟩
    rw [(callEntries_of_committed hset).1] at hentry
    cases hentry
  rw [bind_of_ok hcommit] at h
  have hbefore := trans_of _ hnothing ((commitRegister_logs _ _).apply_eq hcommit)
  have hsp₂ : StackIs c sp m₂ := commitRegister_stackIs rdi_info rfl (by omega)
    (fun thread hthread => hsp thread (hharmless.thread? c ▸ hthread)) hcommit
  have hcurrent₂ : (none : Option Tid).getD m₂.process.currentThread = c :=
    (commitRegister_current hcommit).trans (hharmless.current.trans hcurrent)
  rcases hcall : inferiorCall env.handlers callAddr env.entryPoint saved none m₂ with
    ⟨e | newRegs, m₃⟩
  · rw [bind_of_error hcall] at h
    cases h
    exact ⟨(inferiorCall_entries hcurrent₂ hbefore hsp₂ hcall).1.mono hmalloc,
      fun a heq => by cases heq⟩
  · rw [bind_of_ok hcall] at h
    obtain rfl : m₃ = m' := congrArg Prod.snd h
    have hcalled := ((inferiorCall_entries hcurrent₂ hbefore hsp₂ hcall).2 _ rfl).mono hmalloc
    have hrestored := inferiorCall_restored hcurrent₂ hcall
    refine ⟨hcalled.1.entered, fun a _ => ⟨⟨hrestored.current, fun thread hthread => ?_⟩,
      hcalled⟩⟩
    rw [hrestored.cached thread hthread, hsaved]

theorem inferiorMalloc_called {size : Nat} {m m' : Machine} {slot : Word}
    (hstack : OnStack c sp m) (h : inferiorMalloc env size m = (.ok slot, m')) :
    OnStack c sp m' ∧ Called (MallocEntry env c sp) m m' := by
  obtain ⟨saved, callAddr, hsaved, haddress, hrun⟩ := inferiorMalloc_eq_ok h
  rw [hstack.1] at hsaved hrun
  exact (mallocCall_entries hstack (hstack.2 saved hsaved) ⟨m, haddress⟩ hrun).2 slot rfl

theorem inferiorMalloc_callsMalloc (size : Nat) :
    CallsMalloc env c sp (inferiorMalloc env size) := by
  rintro m₀ m ⟨hstack, hreturned⟩
  refine ⟨fun slot m' hrun => ?_, fun e m' hrun => ?_⟩
  · obtain ⟨hstack', hcalled⟩ := inferiorMalloc_called hstack hrun
    exact ⟨hstack', trans_of _ hreturned hcalled.1⟩
  · rcases inferiorMalloc_eq_error hrun with rfl | ⟨saved, callAddr, hsaved, haddress, hrun⟩
    · exact hreturned.entered
    · rw [hstack.1] at hsaved hrun
      exact hreturned.entered_trans
        (mallocCall_entries hstack (hstack.2 saved hsaved) ⟨m, haddress⟩ hrun).1

theorem collectRule_callsMalloc : CollectRule env (CallsMalloc env c sp) where
  read := fun hx => .of_harmless (hx.mono fun m m' heq => by
    obtain rfl : m' = m := heq
    exact refl_of _ m')
  bind := .bind
  malloc := inferiorMalloc_callsMalloc
  literal := fun size data => CallsMalloc.bind (inferiorMalloc_callsMalloc size) fun ptr =>
    CallsMalloc.bind (.of_harmless (writeMemory_harmless ptr data)) fun _ =>
      .of_harmless (Respects.pure ptr)

end Allocating

/-- The stack pointer on which an evaluation calls `malloc`: that of the current thread,
below the object of the call if this was spilled there. -/
def mallocStackPointer (env : Environment) (expr : Text) (t : Tid) (m : Machine) : Word :=
  m.stackPointer m.process.currentThread -
    if m.process.currentThread = t then spillSize (calledObject env expr t m) else 0

section Preparing

variable {env : Environment} {c t : Tid} {sp : Word} {m m' : Machine}

theorem stackIs_stackPointer (m : Machine) (t : Tid) : StackIs t (m.stackPointer t) m := by
  intro thread hthread
  rw [Machine.stackPointer, hthread]
  rfl

theorem Machine.thread?_setRegs_of_ne (m : Machine) {tid t : Tid} (hne : tid ≠ t)
    (regs : Registers) : (m.setRegs tid regs).thread? t = m.thread? t :=
  Machine.thread?_updateThread_of_ne m _ (Ne.symm hne)

/-- An object that has no address is put on the stack. -/
def spillObject (t : Tid) (object : TypedData) : Debugger (List Byte) := do
  let rsp ← readRegister t .rsp
  writeMemory (rsp - BitVec.ofNat 64 object.type.byteSize) object.data
  writeRegister t .rsp (.u64 (rsp - BitVec.ofNat 64 object.type.byteSize)) true
  modify (Machine.observe (.spilled t (BitVec.ofNat 64 object.type.byteSize)))
  pure (toLe 8 (rsp - BitVec.ofNat 64 object.type.byteSize).toNat)

theorem objectData_eq_spillObject {object : TypedData} (h : object.address = none) :
    objectData t object = spillObject t object := by
  rw [objectData, h]
  rfl

/-- The object of a call lowers the stack pointer of its thread by its room, and that of no
other. -/
theorem objectData_stackIs {object : TypedData} {data : List Byte} (hsp : StackIs c sp m)
    (h : objectData t object m = (.ok data, m')) :
    m'.process.currentThread = m.process.currentThread ∧
      StackIs c (sp - if c = t then spillSize (some object) else 0) m' := by
  cases haddress : object.address with
  | some address =>
      rw [objectData, haddress] at h
      cases h
      have hsize : spillSize (some object) = 0 := by simp [spillSize, haddress]
      rw [hsize, ite_self]
      exact ⟨rfl, fun thread hthread => (hsp thread hthread).trans (BitVec.sub_zero sp).symm⟩
  | none =>
      rw [objectData_eq_spillObject haddress, spillObject] at h
      have hsize : spillSize (some object) = BitVec.ofNat 64 object.type.byteSize := by
        simp [spillSize, haddress]
      obtain ⟨rsp, m₁, hread, h₁⟩ := Eff.bind_eq_ok.mp h
      obtain ⟨rfl, thread, hthread, hvalue⟩ := readRegister_rsp hread
      obtain ⟨_, m₂, hwrite, h₂⟩ := Eff.bind_eq_ok.mp h₁
      have hharmless := (writeMemory_harmless (t := t) _ _).apply_eq hwrite
      obtain ⟨_, m₃, hset, h₃⟩ := Eff.bind_eq_ok.mp h₂
      obtain ⟨thread₂, hthread₂, -, rfl⟩ := writeRegister_gpr64_eq_ok rsp_info rfl hset
      cases h₃
      refine ⟨hharmless.current, fun last hlast => ?_⟩
      change (m₂.setRegs t _).thread? c = some last at hlast
      by_cases hct : c = t
      · subst hct
        rw [Machine.thread?_setRegs, hthread₂] at hlast
        cases hlast
        rw [User.sp_write, if_pos rfl, hsize, ← hvalue, hsp thread hthread]
      · rw [Machine.thread?_setRegs_of_ne _ (Ne.symm hct), hharmless.thread? c] at hlast
        rw [if_neg hct]
        exact (hsp last hlast).trans (BitVec.sub_zero sp).symm

theorem objectArgument_stackIs {funcs : List Function} {object : Option TypedData}
    {args : List TypedData} (hsp : StackIs c sp m)
    (h : objectArgument t funcs object m = (.ok args, m')) :
    m'.process.currentThread = m.process.currentThread ∧
      StackIs c (sp - if c = t then spillSize object else 0) m' := by
  cases object with
  | none =>
      cases h
      rw [spillSize, ite_self]
      exact ⟨rfl, fun thread hthread => (hsp thread hthread).trans (BitVec.sub_zero sp).symm⟩
  | some object =>
      obtain ⟨data, m₁, hdata, h₁⟩ := Eff.bind_eq_ok.mp h
      obtain ⟨ty, m₂, hty, h₂⟩ := Eff.bind_eq_ok.mp h₁
      obtain rfl : m₁ = m₂ := congrArg Prod.snd hty
      cases h₂
      exact objectData_stackIs hsp hdata

/-- Placing the object of a call calls nothing. -/
theorem objectArgument_returned (p : CallEntry → Prop) (funcs : List Function)
    (object : Option TypedData) : Respects (Returned p) (objectArgument t funcs object) := by
  cases object with
  | none => exact Respects.pure _
  | some object =>
      refine Respects.bind ?_ fun data => Respects.bind (Respects.ofExcept _) fun _ =>
        Respects.pure _
      cases haddress : object.address with
      | some address =>
          rw [objectData, haddress]
          exact Respects.pure _
      | none =>
          rw [objectData_eq_spillObject haddress]
          refine Respects.bind (readRegister_respects _ _) fun rsp => ?_
          refine Respects.bind (writeMemory_respects (fun _ _ => .of_eq rfl) _ _) fun _ => ?_
          refine Respects.bind (writeRegister_respects (fun _ _ => .of_eq rfl)
            (fun _ _ => .of_eq rfl) _ _ _) fun _ => ?_
          refine Respects.bind (Respects.modify fun m => ?_) fun _ => Respects.pure _
          exact ⟨[_], rfl, fun _ => rfl, fun entry hentry => by cases hentry⟩

/-- What follows the placing of the object until the arguments are set up. -/
theorem collectRule_prepared {S : {α : Type} → Debugger α → Prop} (h : CollectRule env S)
    (funcs : List Function) (argString : Text) (implicit : List TypedData) :
    S (do
      let explicit ← explicitArguments env t argString
      let args ← (pure (implicit ++ explicit) : Debugger (List TypedData))
      let func ← ofExcept (resolveOverload env funcs args)
      let saved ← threadAt t
      let callAddr ← ofExcept (callAddress func)
      let returnSlot ← allocateResult env func.returnType
      pure ⟨func, args, callAddr, saved.regs, returnSlot⟩ : Debugger PreparedCall) := by
  refine h.bind (h.collectFrom _ _ _ _ _) fun explicit => ?_
  refine h.bind (h.pure _) fun args => ?_
  refine h.bind (h.read (Respects.ofExcept _)) fun func => ?_
  refine h.bind (h.read (Respects.asks _)) fun saved => ?_
  refine h.bind (h.read (Respects.ofExcept _)) fun callAddr => ?_
  exact h.bind (h.allocateResult _) fun returnSlot => h.pure _

/-- Before the arguments are set up nothing but `malloc` is called, on one stack pointer. -/
theorem prepareCall_entries {expr : Text} {r : Except Failure PreparedCall}
    (h : prepareCall env expr t m = (r, m')) :
    Entered (MallocEntry env m.process.currentThread (mallocStackPointer env expr t m)) m m' ∧
      ∀ call, r = .ok call →
        OnStack m.process.currentThread (mallocStackPointer env expr t m) m' ∧
        Returned (MallocEntry env m.process.currentThread (mallocStackPointer env expr t m))
          m m' := by
  rcases hresolve : resolveCall env t expr m with ⟨e | res, m₁⟩
  · have hsame : m₁ = m := (congrArg Prod.snd hresolve).symm.trans (resolveCall_state t expr m)
    rw [prepareCall, bind_of_error hresolve] at h
    cases h
    rw [hsame]
    exact ⟨(Returned.of_eq rfl).entered, fun call heq => by cases heq⟩
  have hobject : calledObject env expr t m = res.1.object := by
    simp [calledObject, hresolve]
  obtain rfl : m = m₁ := (resolveCall_state t expr m).symm.trans (congrArg Prod.snd hresolve)
  rw [prepareCall, bind_of_ok hresolve] at h
  rcases hinstall : installStopHandler env.entryPoint m with ⟨e | u, m₂⟩
  · have hharmless := (installStopHandler_harmless (t := t) _).apply_eq hinstall
    rw [bind_of_error hinstall] at h
    cases h
    exact ⟨(Returned.of_eq hharmless.trace).entered, fun call heq => by cases heq⟩
  have hharmless := (installStopHandler_harmless (t := t) _).apply_eq hinstall
  rw [bind_of_ok hinstall] at h
  have hsame : StackIs m.process.currentThread (m.stackPointer m.process.currentThread) m₂ :=
    fun thread hthread => stackIs_stackPointer m _ thread (hharmless.thread? _ ▸ hthread)
  simp only [collectArguments, bind_assoc] at h
  have hplaced := objectArgument_returned (t := t)
    (MallocEntry env m.process.currentThread (mallocStackPointer env expr t m)) res.1.funcs
    res.1.object
  rcases hplace : objectArgument t res.1.funcs res.1.object m₂ with ⟨e | implicit, m₃⟩
  · rw [bind_of_error hplace] at h
    cases h
    exact ⟨(trans_of (Returned _) (.of_eq hharmless.trace) (hplaced.apply_eq hplace)).entered,
      fun call heq => by cases heq⟩
  rw [bind_of_ok hplace] at h
  have honstack : OnStack m.process.currentThread (mallocStackPointer env expr t m) m₃ := by
    obtain ⟨hcurrent, hsp⟩ := objectArgument_stackIs hsame hplace
    rw [← hobject] at hsp
    exact ⟨hcurrent.trans hharmless.current, hsp⟩
  have hbefore := trans_of (Returned _) (.of_eq hharmless.trace) (hplaced.apply_eq hplace)
  have hrest : CallsMalloc env m.process.currentThread (mallocStackPointer env expr t m) _ :=
    collectRule_prepared (t := t) collectRule_callsMalloc res.1.funcs res.2 implicit
  obtain ⟨hok, herror⟩ := hrest m m₃ ⟨honstack, hbefore⟩
  rcases r with e | call
  · exact ⟨herror e m' h, fun call heq => by cases heq⟩
  · obtain ⟨honstack', hreturned'⟩ := hok call m' h
    exact ⟨hreturned'.entered, fun _ _ => ⟨honstack', hreturned'⟩⟩

end Preparing

/-- An entry of the function of an expression, on a stack that was aligned for it. -/
def FunctionEntry (t : Tid) (callAddr : Word) (entry : CallEntry) : Prop :=
  ∃ sp : Word, sp.toNat % 16 = 0 ∧ entry.At t callAddr (sp - 8)

section Calling

variable {env : Environment} {t : Tid} {m m' : Machine}

theorem CallEntry.At.aligned_iff {function sp : Word} {entry : CallEntry}
    (h : entry.At t function (sp - 8)) : entry.Aligned ↔ sp.toNat % 16 = 0 := by
  obtain ⟨-, -, hsp⟩ := h
  rw [CallEntry.Aligned, hsp, BitVec.sub_add_cancel]

theorem argumentBase_aligned (stackArgs : List (TypedData × Word)) (rsp : Word) :
    (argumentBase stackArgs rsp).toNat % 16 = 0 := by
  have hclear := toNat_clearLow (stackArgs.foldl (fun rsp arg => rsp - arg.2) rsp) 4
  change BitVec.toNat (_ &&& ~~~(BitVec.ofNat 64 (2 ^ 4 - 1))) % 16 = 0
  rw [hclear]
  omega

theorem RegisterHolds.stackIs {x : Word} (h : RegisterHolds m t .rsp (toLe 8 x.toNat)) :
    StackIs t x m := by
  obtain ⟨info, thread, hinfo, hthread, -, hcache, -⟩ := h
  obtain rfl := Except.ok.inj (rsp_info.symm.trans hinfo)
  intro last hlast
  rw [hthread] at hlast
  cases hlast
  have hbytes : thread.regs.data.read 152 8 = toLe 8 x.toNat := by
    refine hcache.trans ?_
    change toLe 8 x.toNat ++ List.replicate (8 - (toLe 8 x.toNat).length) 0 = toLe 8 x.toNat
    rw [toLe_length]
    exact List.append_nil _
  have hwrite := Registers.word_write thread.regs.data 152 x
  rw [← hbytes, Area.write_read] at hwrite
  refine Eq.trans ?_ hwrite
  refine User.sp_congr fun i hlow hhigh => ?_
  exact (Area.copy_inside ⟨hlow, hhigh⟩).symm

theorem setupArguments_logs (func : Function) (args : List TypedData)
    (returnSlot : Option Word) :
    Respects (Logs (· = .committed t)) (setupArguments t func args returnSlot) :=
  setupArguments_respects commitRegister_logs writeMemory_logs func args returnSlot

/-- The function of the expression is entered on the stack that was set up for it. -/
theorem finishCall_entered {call : PreparedCall} {r : Except Failure (Option (TypedData × Nat))}
    {p : CallEntry → Prop}
    (hsetup : ∀ u m₁, setupArguments t call.func call.args call.returnSlot m = (.ok u, m₁) →
      ∃ sp, StackIs t sp m₁ ∧ ∀ entry, CallEntry.At t call.callAddr (sp - 8) entry → p entry)
    (h : finishCall env t call m = (r, m')) : Entered p m m' := by
  simp only [finishCall, performCall, bind_assoc] at h
  rcases hrun : setupArguments t call.func call.args call.returnSlot m with ⟨e | u, m₁⟩
  · obtain ⟨recent, htrace, hset⟩ := (setupArguments_logs _ _ _).apply_eq hrun
    rw [bind_of_error hrun] at h
    cases h
    refine ⟨recent, htrace, fun entry hentry => ?_⟩
    rw [(callEntries_of_committed hset).1] at hentry
    cases hentry
  have hbefore := (setupArguments_logs _ _ _).apply_eq hrun
  obtain ⟨sp, hsp, hfunction⟩ := hsetup u m₁ hrun
  rw [bind_of_ok hrun] at h
  rcases hcall : inferiorCall env.handlers call.callAddr env.entryPoint call.saved (some t) m₁ with
    ⟨e | newRegs, m₂⟩
  · rw [bind_of_error hcall] at h
    cases h
    exact (inferiorCall_entries (Option.getD_some ..) hbefore hsp hcall).1.mono hfunction
  · have hreturned := (inferiorCall_entries (Option.getD_some ..) hbefore hsp hcall).2 _ rfl
    rw [bind_of_ok hcall] at h
    have hrest : Respects (Harmless t) (readResult newRegs call.func.returnType call.returnSlot >>=
        recordResult) :=
      Respects.bind (readResult_harmless _ _ _) fun ret => recordResult_harmless ret
    exact (hreturned.1.mono hfunction).entered_trans
      (Returned.of_eq (hrest.apply_eq h).trace).entered

/-- Once the arguments are set up only the function of the expression is called, on an
aligned stack. -/
theorem finishCall_entries {call : PreparedCall}
    {r : Except Failure (Option (TypedData × Nat))} (h : finishCall env t call m = (r, m')) :
    Entered (FunctionEntry t call.callAddr) m m' := by
  refine finishCall_entered (fun u m₁ hsetup => ?_) h
  obtain ⟨rsp, placements, left, -, hpassed⟩ := setupArguments_eq_ok hsetup
  exact ⟨_, hpassed.stackPointer.stackIs, fun entry hentry =>
    ⟨_, argumentBase_aligned _ _, hentry⟩⟩

/-- `malloc` is entered before the arguments of the call are set up. -/
def MallocEntered (env : Environment) (expr : Text) (t : Tid) (m : Machine) : Prop :=
  callEntries (observedSince m (prepareCall env expr t m).2) ≠ []

theorem Called.trans {p : CallEntry → Prop} {m'' : Machine} (h : Called p m m')
    (h' : Returned p m' m'') : Called p m m'' := by
  refine ⟨trans_of _ h.1 h', ?_⟩
  rw [h.1.callEntries_observedSince h'.entered]
  exact List.append_ne_nil_of_right_ne_nil _ h.2

theorem Returned.called_trans {p : CallEntry → Prop} {m'' : Machine} (h : Returned p m m')
    (h' : Called p m' m'') : Called p m m'' := by
  refine ⟨trans_of _ h h'.1, ?_⟩
  rw [h.callEntries_observedSince h'.1.entered]
  exact List.append_ne_nil_of_left_ne_nil h'.2 _

end Calling

/-- The texts that the loop of `collect_arguments` takes for arguments. -/
def argumentTexts (argString : Text) (argsEnd : Nat) : Nat → Nat → List Text
  | 0, _ => []
  | rounds + 1, argsStart =>
      if argsStart < argsEnd then
        let found := findFrom argString ',' argsStart
        let commaPos := if found = npos then argsEnd else found
        (argString.drop argsStart).take (commaPos - argsStart) ::
          argumentTexts argString argsEnd rounds ((commaPos + 1) % 2 ^ 64)
      else []

/-- The texts of the arguments in an expression. -/
def expressionArguments (expr : Text) : List Text :=
  let argString := expr.drop (findFrom expr '(' 0)
  argumentTexts argString (findFrom argString ')' 0) (argString.length + 2) 1

section Literals

variable {env : Environment} {c t : Tid} {sp : Word} {m m' : Machine}

/-- A string literal is made by calling `malloc`; any other argument is only read. -/
theorem parseArgument_called {arg : Text} {value : TypedData} (hstack : OnStack c sp m)
    (h : parseArgument env t arg m = (.ok value, m')) :
    (IsStringLiteral arg → OnStack c sp m' ∧ Called (MallocEntry env c sp) m m') ∧
      (¬ IsStringLiteral arg → m' = m) := by
  refine ⟨fun hliteral => ?_, fun hliteral => (parseArgument_reads hliteral).apply_eq h⟩
  rw [parseArgument_literal hliteral] at h
  obtain ⟨ptr, m₁, hmalloc, h₁⟩ := Eff.bind_eq_ok.mp h
  obtain ⟨_, m₂, hwrite, h₂⟩ := Eff.bind_eq_ok.mp h₁
  obtain rfl : m₂ = m' := congrArg Prod.snd h₂
  have hboth : OnStack c sp m₁ ∧ Called (MallocEntry env c sp) m m₁ :=
    inferiorMalloc_called hstack hmalloc
  obtain ⟨hstack₁, hcalled⟩ := hboth
  have hharmless := (writeMemory_harmless (t := c) _ _).apply_eq hwrite
  refine ⟨⟨hharmless.current.trans hstack₁.1, fun thread hthread => ?_⟩,
    hcalled.trans (.of_eq hharmless.trace)⟩
  exact hstack₁.2 thread (hharmless.thread? c ▸ hthread)

/-- `malloc` is called for the arguments exactly if a string literal is among them. -/
theorem collectFrom_called {argString : Text} {argsEnd rounds argsStart : Nat}
    {args : List TypedData} (hstack : OnStack c sp m)
    (h : collectFrom env t argString argsEnd rounds argsStart m = (.ok args, m')) :
    OnStack c sp m' ∧
      ((∃ text ∈ argumentTexts argString argsEnd rounds argsStart, IsStringLiteral text) →
        Called (MallocEntry env c sp) m m') ∧
      ((∀ text ∈ argumentTexts argString argsEnd rounds argsStart, ¬ IsStringLiteral text) →
        m' = m) := by
  induction rounds generalizing argsStart m args with
  | zero => cases h
  | succ rounds ih =>
      rw [collectFrom] at h
      rw [argumentTexts]
      split at h
      · rename_i hmore
        rw [if_pos hmore]
        split at h
        · cases h
        obtain ⟨value, m₁, hparse, h₁⟩ := Eff.bind_eq_ok.mp h
        obtain ⟨rest, m₂, hcollect, h₂⟩ := Eff.bind_eq_ok.mp h₁
        obtain rfl : m₂ = m' := congrArg Prod.snd h₂
        obtain ⟨hmade, hread⟩ := parseArgument_called hstack hparse
        by_cases hliteral : IsStringLiteral ((argString.drop argsStart).take
            ((if findFrom argString ',' argsStart = npos then argsEnd
              else findFrom argString ',' argsStart) - argsStart))
        · obtain ⟨hstack₁, hcalled⟩ := hmade hliteral
          obtain ⟨hstack₂, hsome, hnone⟩ := ih hstack₁ hcollect
          refine ⟨hstack₂, fun _ => ?_, fun hnot => absurd hliteral (hnot _ List.mem_cons_self)⟩
          by_cases hlater : ∃ text ∈ argumentTexts argString argsEnd rounds
              (((if findFrom argString ',' argsStart = npos then argsEnd
                else findFrom argString ',' argsStart) + 1) % 2 ^ 64), IsStringLiteral text
          · exact hcalled.trans (hsome hlater).1
          · rw [hnone fun text hmem hyes => hlater ⟨text, hmem, hyes⟩]
            exact hcalled
        · obtain rfl := hread hliteral
          obtain ⟨hstack₂, hsome, hnone⟩ := ih hstack hcollect
          refine ⟨hstack₂, fun hexists => ?_, fun hnot => ?_⟩
          · obtain ⟨text, hmem, hyes⟩ := hexists
            rcases List.mem_cons.mp hmem with rfl | hmem
            · exact absurd hyes hliteral
            · exact hsome ⟨text, hmem, hyes⟩
          · exact hnone fun text hmem => hnot text (List.mem_cons_of_mem _ hmem)
      · rename_i hdone
        rw [if_neg hdone]
        cases h
        exact ⟨hstack, fun hexists => by simp at hexists, fun _ => rfl⟩

theorem allocateResult_called {ty : Option Ty} {slot : Option Word} (hstack : OnStack c sp m)
    (h : allocateResult env ty m = (.ok slot, m')) :
    (ty.isSome → Called (MallocEntry env c sp) m m') ∧ (¬ ty.isSome → m' = m) := by
  cases ty with
  | none =>
      cases h
      exact ⟨fun hsome => Bool.noConfusion hsome, fun _ => rfl⟩
  | some ty =>
      obtain ⟨ptr, m₁, hmalloc, hrest⟩ := Eff.bind_eq_ok.mp h
      obtain rfl : m₁ = m' := congrArg Prod.snd hrest
      exact ⟨fun _ => (inferiorMalloc_called hstack hmalloc).2, fun hnone => absurd rfl hnone⟩

theorem resolveCall_eq_ok {expr : Text} {res : Resolution × Text}
    (h : resolveCall env t expr m = (.ok res, m')) :
    res.2 = expr.drop (findFrom expr '(' 0) ∧ m' = m := by
  refine ⟨?_, (congrArg Prod.snd h).symm.trans (resolveCall_state t expr m)⟩
  rw [resolveCall] at h
  obtain ⟨pc, m₁, -, h₁⟩ := Eff.bind_eq_ok.mp h
  split at h₁
  · cases h₁
  · obtain ⟨_, m₂, -, h₂⟩ := Eff.bind_eq_ok.mp h₁
    obtain ⟨found, m₃, -, h₃⟩ := Eff.bind_eq_ok.mp h₂
    split at h₃
    · cases h₃
    · cases h₃
      rfl

/-- A call that is prepared needs `malloc` exactly if a string literal is among its
arguments or its function returns a value. -/
theorem mallocEntered_iff {expr : Text} {call : PreparedCall}
    (h : prepareCall env expr t m = (.ok call, m')) :
    MallocEntered env expr t m ↔
      (∃ text ∈ expressionArguments expr, IsStringLiteral text) ∨
        call.func.returnType.isSome := by
  rw [MallocEntered, h]
  obtain ⟨res, m₁, hresolve, h₁⟩ := Eff.bind_eq_ok.mp h
  obtain ⟨htext, rfl⟩ := resolveCall_eq_ok hresolve
  obtain ⟨_, m₂, hinstall, h₂⟩ := Eff.bind_eq_ok.mp h₁
  have hharmless := (installStopHandler_harmless (t := t) _).apply_eq hinstall
  obtain ⟨args, m₃, hcollect, h₃⟩ := Eff.bind_eq_ok.mp h₂
  obtain ⟨implicit, m₄, hplace, hcollect₁⟩ := Eff.bind_eq_ok.mp hcollect
  obtain ⟨explicit, m₅, hexplicit, hcollect₂⟩ := Eff.bind_eq_ok.mp hcollect₁
  obtain rfl : m₅ = m₃ := congrArg Prod.snd hcollect₂
  obtain ⟨func, m₆, hresolved, h₄⟩ := Eff.bind_eq_ok.mp h₃
  obtain rfl : m₅ = m₆ := congrArg Prod.snd hresolved
  obtain ⟨saved, m₇, hsaved, h₅⟩ := Eff.bind_eq_ok.mp h₄
  obtain ⟨-, rfl⟩ := threadAt_eq_ok hsaved
  obtain ⟨callAddr, m₈, haddress, h₆⟩ := Eff.bind_eq_ok.mp h₅
  obtain rfl : m₇ = m₈ := congrArg Prod.snd haddress
  obtain ⟨slot, m₉, hallocate, h₇⟩ := Eff.bind_eq_ok.mp h₆
  obtain ⟨rfl, rfl⟩ : ⟨func, args, callAddr, saved.regs, slot⟩ = call ∧ m₉ = m' := by
    cases h₇
    exact ⟨rfl, rfl⟩
  have hstack : OnStack m₁.process.currentThread (m₁.stackPointer m₁.process.currentThread) m₂ :=
    ⟨hharmless.current, fun thread hthread =>
      stackIs_stackPointer m₁ _ thread (hharmless.thread? _ ▸ hthread)⟩
  have hplaced := (objectArgument_returned (t := t) (fun _ => False) _ _).apply_eq hplace
  obtain ⟨hcurrent, hsp₄⟩ := objectArgument_stackIs hstack.2 hplace
  have hquiet := trans_of (Returned _) (.of_eq hharmless.trace) hplaced
  obtain ⟨hstack₅, hliteral, hno⟩ := collectFrom_called ⟨hcurrent.trans hstack.1, hsp₄⟩ hexplicit
  rw [htext] at hliteral hno
  obtain ⟨hreturns, hvoid⟩ := allocateResult_called hstack₅ hallocate
  by_cases hsome : ∃ text ∈ expressionArguments expr, IsStringLiteral text
  · have hcalled := (hquiet.mono fun _ hnone => hnone.elim).called_trans (hliteral hsome)
    refine iff_of_true ?_ (.inl hsome)
    by_cases hreturn : func.returnType.isSome
    · exact (hcalled.1.called_trans (hreturns hreturn)).2
    · rw [hvoid hreturn]
      exact hcalled.2
  obtain rfl := hno fun text hmem hyes => hsome ⟨text, hmem, hyes⟩
  by_cases hreturn : func.returnType.isSome
  · have hcalled := (hquiet.mono fun _ hnone => hnone.elim).called_trans (hreturns hreturn)
    exact iff_of_true hcalled.2 (.inr hreturn)
  · obtain rfl := hvoid hreturn
    refine iff_of_false (fun hne => hne ?_) (not_or.mpr ⟨hsome, hreturn⟩)
    exact List.eq_nil_iff_forall_not_mem.mpr fun entry hentry => hquiet.entered.mem hentry

end Literals

/-- Every function that an evaluation calls is entered on an aligned stack exactly if
`malloc` is not entered or the stack pointer it finds is aligned already. -/
theorem evaluateExpression_aligned_iff (env : Environment) (expr : Text) (otid : Option Tid)
    (m : Machine) :
    (∀ entry ∈ callEntries (observedSince m (evaluateExpression env expr otid m).2),
        entry.Aligned) ↔
      (MallocEntered env expr (otid.getD m.process.currentThread) m →
        (mallocStackPointer env expr (otid.getD m.process.currentThread) m).toNat % 16 = 0) := by
  rw [evaluateExpression_eq_prepareCall]
  generalize otid.getD m.process.currentThread = t
  rcases hprepare : prepareCall env expr t m with ⟨r, m₁⟩
  obtain ⟨hentered, hreturned⟩ := prepareCall_entries hprepare
  have hmalloc : (∀ entry ∈ callEntries (observedSince m m₁), entry.Aligned) ↔
      (MallocEntered env expr t m → (mallocStackPointer env expr t m).toNat % 16 = 0) := by
    rw [MallocEntered, hprepare]
    constructor
    · intro haligned hsome
      obtain ⟨entry, hentry⟩ := List.exists_mem_of_ne_nil _ hsome
      obtain ⟨_, _, -, hat⟩ := hentered.mem hentry
      exact hat.aligned_iff.mp (haligned entry hentry)
    · intro haligned entry hentry
      obtain ⟨_, _, -, hat⟩ := hentered.mem hentry
      exact hat.aligned_iff.mpr (haligned (List.ne_nil_of_mem hentry))
  rw [← hmalloc]
  rcases r with e | call
  · rw [bind_of_error hprepare]
  rw [bind_of_ok hprepare]
  rcases hfinish : finishCall env t call m₁ with ⟨r', m₂⟩
  have hcalled := finishCall_entries hfinish
  have hfunction : ∀ entry ∈ callEntries (observedSince m₁ m₂), entry.Aligned := by
    intro entry hentry
    obtain ⟨sp, haligned, hat⟩ := hcalled.mem hentry
    exact hat.aligned_iff.mpr haligned
  change (∀ entry ∈ callEntries (observedSince m m₂), entry.Aligned) ↔ _
  rw [(hreturned call rfl).2.callEntries_observedSince hcalled]
  constructor
  · exact fun hall entry hentry => hall entry (List.mem_append_right _ hentry)
  · exact fun hall entry hentry =>
      (List.mem_append.mp hentry).elim (hfunction entry) (hall entry)

namespace CallAlignmentWitness

/-- Names stand for one function that returns a number. -/
def environment : Environment where
  handlers := ⟨fun _ _ => ([], .ok false)⟩
  resolveIndirectName := fun _ _ _ =>
    .ok ⟨none, [⟨[], some (.base "int" .signed 4), some 0x1000, none, none⟩]⟩
  mallocAddress := fun _ => some 0x3000
  entryPoint := 0x2000
  sameType := fun _ _ => .ok true
  toDouble := fun _ => none

/-- A user area that is zero but for the program counter and the stack pointer. -/
def userAt (pc sp : Word) : User :=
  Area.write (InferiorCallWitness.userAt pc) 152 (toLe 8 sp.toNat)

/-- One stopped thread, which will hit the breakpoint at the entry point twice. -/
def machine (sp : Word) : Machine :=
  let rest := EvaluationWitness.machine
  let returned := WaitAnswer.report ⟨1, .stopped sigtrap 0, .siKernel, userAt 0x2001 sp, fun _ => 0⟩
  { rest with
    kernel := { rest.kernel with
      threads := fun _ => ⟨.stopped, userAt 0x1234 sp, .other⟩
      script := [returned, returned] }
    process := { rest.process with
      threads :=
        [(1, ⟨⟨userAt 0x1234 sp, [], 0⟩, ⟨1, .stopped, 0, none, none⟩, .stopped, false⟩)] } }

def call (sp : Word) : Except Failure (Option (TypedData × Nat)) × Machine :=
  evaluateExpression environment (ascii "f()") none (machine sp)

/-- Where the functions are entered, newest first, and how far from an aligned stack. -/
def entries (sp : Word) : List (Word × Nat) :=
  (callEntries (observedSince (machine sp) (call sp).2)).map fun entry =>
    (User.pc entry.user, (User.sp entry.user + 8).toNat % 16)

theorem machine_stopped (sp : Word) : StoppedThread 1 (machine sp) where
  stopped := rfl
  settled := fun thread hthread hrunning => by
    obtain rfl := Option.some.inj hthread
    cases hrunning
  cached := fun thread hthread i _ => by
    obtain rfl := Option.some.inj hthread
    rfl

end CallAlignmentWitness

open CallAlignmentWitness in
/-- A thread that is stopped between two pushes enters `malloc` on a misaligned stack. -/
theorem malloc_misaligned :
    ¬ ∀ (env : Environment) (expr : Text) (otid : Option Tid) (m : Machine),
      StoppedThread (otid.getD m.process.currentThread) m →
      ∀ entry ∈ callEntries (observedSince m (evaluateExpression env expr otid m).2),
        entry.Aligned := by
  intro hall
  have haligned := hall environment (ascii "f()") none (machine 0x7ff8) (machine_stopped 0x7ff8)
  have hentries : entries 0x7ff8 = [(0x1000, 0), (0x3000, 8)] := by decide +kernel
  have hlast : ((0x3000, 8) : Word × Nat) ∈ entries 0x7ff8 := by
    rw [hentries]
    exact List.mem_cons_of_mem _ (List.mem_singleton_self _)
  obtain ⟨entry, hentry, heq⟩ := List.mem_map.mp hlast
  obtain ⟨-, hrest⟩ := Prod.mk.inj heq
  have hnone : (User.sp entry.user + 8).toNat % 16 = 0 := haligned entry hentry
  omega

end Gsdb
