/-
What an evaluation reaches on the stack.  The object of the call, the copies, the arguments and
the return addresses go right below the stack pointer, where a leaf function may keep its data:
no room is left for it.
-/
import Gsdb.CallRoom

namespace Gsdb

open ByteMemory Effects Eff Debugger

/-- The room of an object that has no address. -/
def spillRoom : Option TypedData → Nat
  | some object => if object.address = none then object.type.byteSize else 0
  | none => 0

/-- An object that has no address is no longer than its type says. -/
def ObjectFits (object : Option TypedData) : Prop :=
  ∀ value, object = some value → value.address = none → value.data.length ≤ value.type.byteSize

/-- The inferior's byte at an address, if it does not change it itself, is as before whenever a
state change is delivered, and at the end. -/
def LeftAlone (address : Word) (m m' : Machine) : Prop :=
  (∀ event, .report event ∈ m.kernel.script → event.memory address = m.kernel.memory address) →
    m'.kernel.memory address = m.kernel.memory address ∧
      ∀ delivery, .delivered delivery ∈ observedSince m m' →
        delivery.before.kernel.memory address = m.kernel.memory address

/-- What an evaluation reaches on the stack: it writes there only, but for the sites of
breakpoints and the blocks that `malloc` has given, and every function that it calls is entered
with its return address there. -/
structure StaysWithin (env : Environment) (reach : Word → Prop) (m m' : Machine) : Prop where
  writes : ∀ address, ¬ reach address → env.handlers.Avoid address →
    (∀ site ∈ m.process.breakpointSites, site.address ≠ address) → ¬ InBlock env address m' →
    LeftAlone address m m'
  entries : ∀ entry ∈ callEntries (observedSince m m'), ∀ i < 8,
    reach (User.sp entry.user + BitVec.ofNat 64 i)

/-- The data of the object and of the arguments fit where they are written. -/
def EvaluationFits (env : Environment) (expr : Text) (t : Tid) (m : Machine) : Prop :=
  ObjectFits (calledObject env expr t m) ∧
    ∀ call, (prepareCall env expr t m).1 = .ok call →
      ArgumentsFit call.func.parameterTypes call.args

/-- The room of an evaluation on the stack of its thread: that of the object, the arguments and
the return address. -/
def evaluationRoom (env : Environment) (expr : Text) (t : Tid) (m : Machine) : Nat :=
  spillRoom (calledObject env expr t m) +
    (match (prepareCall env expr t m).1 with
      | .ok call => argumentsRoom call.func call.args
      | .error _ => 0) + 8

/-- The room of an evaluation, and the return address of `malloc` on the stack of the current
thread. -/
def reachedByEvaluation (env : Environment) (expr : Text) (t : Tid) (m : Machine)
    (address : Word) : Prop :=
  Beneath (m.stackPointer t) (evaluationRoom env expr t m) address ∨
    Beneath (m.stackPointer m.process.currentThread) 8 address

/-- The thread is still there when the arguments are set up, if it is not the one that `malloc`
was called on. -/
def StaysAlive (env : Environment) (expr : Text) (t : Tid) (m : Machine) : Prop :=
  m.process.currentThread ≠ t → ¬ Gone t (prepareCall env expr t m).2

section Preparing

variable {env : Environment} {address : Word} {byte : Byte} {t c : Tid} {sp : Word}
  {m m' : Machine}

theorem spillSize_eq (object : Option TypedData) :
    spillSize object = BitVec.ofNat 64 (spillRoom object) := by
  cases object with
  | none => rfl
  | some object =>
      by_cases haddress : object.address = none
      · simp [spillSize, spillRoom, haddress]
      · obtain ⟨address, haddress⟩ := Option.ne_none_iff_exists'.mp haddress
        simp [spillSize, spillRoom, haddress]

/-- An object is put below the stack pointer of its thread. -/
theorem objectArgument_keeps {funcs : List Function} {object : Option TypedData}
    (hsp : StackIs t sp m) (hfits : ObjectFits object)
    (haddress : ¬ Beneath sp (spillRoom object) address) :
    Keeps env address byte m (objectArgument t funcs object m).2 := by
  cases object with
  | none => exact refl_of _ m
  | some object =>
      refine related_bind ?_ fun data m₁ _ => ?_
      · cases hplace : object.address with
        | some place =>
            rw [objectData, hplace]
            exact refl_of _ m
        | none =>
            rw [objectData_eq_spillObject hplace]
            have hroom : spillRoom (some object) = object.type.byteSize := if_pos hplace
            rw [hroom] at haddress
            refine related_bind (readRegister_respects t .rsp m) fun rsp m₁ hread => ?_
            obtain ⟨rfl, thread, hthread, hvalue⟩ := readRegister_rsp hread
            obtain rfl : rsp = sp := hvalue.symm.trans (hsp thread hthread)
            refine related_bind (writeMemory_keeps m₁ fun _ =>
              not_beneath haddress (hfits object rfl hplace) (Nat.le_refl _)) fun _ m₂ _ => ?_
            refine related_bind (writeRegister_keeps t _ _ _ m₂) fun _ m₃ _ => ?_
            exact .note m₃ fun _ heq => by cases heq
      · refine keeps_of_state ?_ m₁
        exact Respects.bind (Respects.ofExcept _) fun _ => Respects.pure _

theorem parseArgument_onStack {arg : Text} {value : TypedData} (hstack : OnStack c sp m)
    (h : parseArgument env t arg m = (.ok value, m')) : OnStack c sp m' := by
  obtain ⟨hliteral, hother⟩ := parseArgument_called hstack h
  by_cases harg : IsStringLiteral arg
  · exact (hliteral harg).1
  · rw [hother harg]
    exact hstack

theorem parseArgument_keeps {arg : Text} (havoid : env.handlers.Avoid address)
    (htext : arg.length < 2 ^ 64) (hstack : OnStack c sp m)
    (hmisses : ∀ i < 8, address ≠ sp - 8 + BitVec.ofNat 64 i) :
    Keeps env address byte m (parseArgument env t arg m).2 := by
  by_cases harg : IsStringLiteral arg
  swap
  · exact keeps_of_state (parseArgument_reads harg) m
  rw [parseArgument_literal harg]
  refine related_bind (inferiorMalloc_keeps havoid hstack hmisses) fun ptr m₁ hmalloc => ?_
  refine related_bind (writeMemory_keeps m₁ fun hblock i hi heq => hblock ?_) fun _ m₂ _ =>
    refl_of _ m₂
  have hlong := harg.1
  refine ⟨ptr, _, ⟨by omega, m, m₁, hmalloc, List.suffix_refl _⟩, i, ?_, heq⟩
  simp only [List.length_append, List.length_take, List.length_drop, List.length_cons,
    List.length_nil] at hi
  omega

theorem collectFrom_keeps (havoid : env.handlers.Avoid address) {argString : Text}
    {argsEnd rounds argsStart : Nat} (htext : argString.length < 2 ^ 64) (hstack : OnStack c sp m)
    (hmisses : ∀ i < 8, address ≠ sp - 8 + BitVec.ofNat 64 i) :
    Keeps env address byte m (collectFrom env t argString argsEnd rounds argsStart m).2 := by
  induction rounds generalizing argsStart m with
  | zero => exact refl_of _ m
  | succ rounds ih =>
      rw [collectFrom]
      split
      swap
      · exact refl_of _ m
      split
      · exact refl_of _ m
      have harg : ∀ size, ((argString.drop argsStart).take size).length < 2 ^ 64 := by
        intro size
        rw [List.length_take, List.length_drop]
        omega
      refine related_bind (parseArgument_keeps havoid (harg _) hstack hmisses)
        fun value m₁ hparse => ?_
      exact related_bind (ih (parseArgument_onStack hstack hparse)) fun _ m₂ _ => refl_of _ m₂

theorem allocateResult_keeps (havoid : env.handlers.Avoid address) {ty : Option Ty}
    (hstack : OnStack c sp m) (hmisses : ∀ i < 8, address ≠ sp - 8 + BitVec.ofNat 64 i) :
    Keeps env address byte m (allocateResult env ty m).2 := by
  cases ty with
  | none => exact refl_of _ m
  | some ty =>
      exact related_bind (inferiorMalloc_keeps havoid hstack hmisses) fun _ m₁ _ => refl_of _ m₁

/-- Until the arguments are set up, only the object and the return addresses of `malloc` are
written below the stack pointers. -/
theorem prepareCall_keeps {expr : Text} (havoid : env.handlers.Avoid address)
    (htext : expr.length < 2 ^ 64)
    (hfits : ObjectFits (calledObject env expr t m))
    (hobject : ¬ Beneath (m.stackPointer t) (spillRoom (calledObject env expr t m)) address)
    (hmalloc : ∀ i < 8, address ≠ mallocStackPointer env expr t m - 8 + BitVec.ofNat 64 i) :
    Keeps env address byte m (prepareCall env expr t m).2 := by
  refine related_bind ?_ fun res m₁ hresolve => ?_
  · rw [resolveCall_state]
    exact refl_of _ m
  have hcalled : calledObject env expr t m = res.1.object := by
    simp [calledObject, hresolve]
  obtain rfl : m = m₁ := (resolveCall_state t expr m).symm.trans (congrArg Prod.snd hresolve)
  refine related_bind (installStopHandler_keeps _ m) fun _ m₂ hinstall => ?_
  have hharmless := (installStopHandler_harmless (t := t) _).apply_eq hinstall
  have hsame : ∀ tid, StackIs tid (m.stackPointer tid) m₂ := fun tid thread hthread =>
    stackIs_stackPointer m tid thread (hharmless.thread? tid ▸ hthread)
  simp only [collectArguments, bind_assoc]
  rw [hcalled] at hfits hobject
  refine related_bind (objectArgument_keeps (hsame t) hfits hobject) fun implicit m₃ hplace => ?_
  have hstack : OnStack m.process.currentThread (mallocStackPointer env expr t m) m₃ := by
    rw [mallocStackPointer, hcalled]
    obtain ⟨hcurrent, hsp⟩ := objectArgument_stackIs (hsame m.process.currentThread) hplace
    exact ⟨hcurrent.trans hharmless.current, hsp⟩
  have hargs : res.2.length < 2 ^ 64 := by
    rw [(resolveCall_eq_ok hresolve).1, List.length_drop]
    omega
  refine related_bind (collectFrom_keeps havoid hargs hstack hmalloc)
    fun explicit m₄ hexplicit => ?_
  have hstack₄ := (collectFrom_called hstack hexplicit).1
  refine related_bind (refl_of _ m₄) fun args m₅ hargs => ?_
  obtain rfl : m₄ = m₅ := congrArg Prod.snd hargs
  refine related_bind (keeps_of_state (Respects.ofExcept _) m₄) fun func m₅ hfunc => ?_
  obtain rfl : m₄ = m₅ := congrArg Prod.snd hfunc
  refine related_bind (refl_of _ m₄) fun saved m₅ hsaved => ?_
  obtain ⟨-, rfl⟩ := threadAt_eq_ok hsaved
  refine related_bind (keeps_of_state (Respects.ofExcept _) m₅) fun callAddr m₆ haddress => ?_
  obtain rfl : m₅ = m₆ := congrArg Prod.snd haddress
  exact related_bind (allocateResult_keeps havoid hstack₄ hmalloc) fun _ m₇ _ => refl_of _ m₇

/-- The size is passed in a register. -/
theorem inferiorMalloc_mod (size : Nat) :
    inferiorMalloc env (size % 2 ^ 64) = inferiorMalloc env size := by
  have hword : BitVec.ofNat 64 (size % 2 ^ 64) = BitVec.ofNat 64 size := by
    apply BitVec.eq_of_toNat_eq
    rw [BitVec.toNat_ofNat, BitVec.toNat_ofNat, Nat.mod_mod]
  unfold inferiorMalloc mallocCall
  rw [hword]

theorem allocateResult_gave {ty : Option Ty} {slot : Word}
    (h : allocateResult env ty m = (.ok (some slot), m')) : ∃ size, GaveBlock env slot size m' := by
  cases ty with
  | none => cases h
  | some ty =>
      obtain ⟨ptr, m₁, hmalloc, hrest⟩ := Eff.bind_eq_ok.mp h
      cases hrest
      rw [← inferiorMalloc_mod] at hmalloc
      exact ⟨_, Nat.mod_lt _ (by decide), m, m', hmalloc, List.suffix_refl _⟩

/-- A thread that is ready has the stack pointer that the kernel has. -/
theorem Ready.sp_eq {handlers : HitHandlers} {hardware : Bool} (h : Ready handlers hardware t m)
    {thread : ThreadState} (hthread : m.thread? t = some thread) :
    User.sp thread.regs.data = User.sp (m.kernel.threads t).user :=
  User.sp_congr fun i hlow hhigh => h.cached thread hthread i (isPromisedByte_rsp hlow hhigh)

/-- Placing the object of a call makes no thread known and forgets none. -/
theorem objectArgument_known (funcs : List Function) (object : Option TypedData) :
    Respects (Fixes fun m => (m.thread? t).isSome) (objectArgument t funcs object) := by
  have hupdate : ∀ f, Respects (Fixes fun m => (m.thread? t).isSome) (updateThread t f) := by
    intro f m
    change ((updateThread t f m).2.thread? t).isSome = _
    rw [Machine.thread?_updateThread, Option.isSome_map]
  cases object with
  | none => exact Respects.pure _
  | some object =>
      refine Respects.bind ?_ fun data => Respects.bind (Respects.ofExcept _) fun _ =>
        Respects.pure _
      cases hplace : object.address with
      | some place =>
          rw [objectData, hplace]
          exact Respects.pure _
      | none =>
          rw [objectData_eq_spillObject hplace]
          refine Respects.bind (readRegister_respects _ _) fun rsp => ?_
          refine Respects.bind (writeMemory_respects (fun _ _ => rfl) _ _) fun _ => ?_
          refine Respects.bind (writeRegister_respects (fun _ => hupdate _) (fun _ _ => rfl) _ _ _)
            fun _ => ?_
          exact Respects.bind (Respects.modify fun _ => rfl) fun _ => Respects.pure _

/-- The thread of a prepared call has its stack pointer below the object. -/
theorem prepareCall_stackIs {expr : Text} {call : PreparedCall}
    (hready : Ready env.handlers true t m) (h : prepareCall env expr t m = (.ok call, m'))
    (halive : m.process.currentThread ≠ t → ¬ Gone t m') :
    StackIs t (m.stackPointer t - spillSize (calledObject env expr t m)) m' := by
  by_cases hcurrent : m.process.currentThread = t
  · have hstack := ((prepareCall_entries h).2 call rfl).1
    rw [mallocStackPointer, if_pos hcurrent, hcurrent] at hstack
    exact hstack.2
  obtain ⟨res, m₁, hresolve, h₁⟩ := Eff.bind_eq_ok.mp h
  have hcalled : calledObject env expr t m = res.1.object := by
    simp [calledObject, hresolve]
  obtain rfl : m = m₁ := (resolveCall_state t expr m).symm.trans (congrArg Prod.snd hresolve)
  obtain ⟨_, m₂, hinstall, h₂⟩ := Eff.bind_eq_ok.mp h₁
  have hharmless := (installStopHandler_harmless (t := t) _).apply_eq hinstall
  simp only [collectArguments, bind_assoc] at h₂
  obtain ⟨implicit, m₃, hplace, h₃⟩ := Eff.bind_eq_ok.mp h₂
  obtain ⟨hready₃, -⟩ := objectArgument_eq_ok (hharmless.ready hready) hplace
  have hsp₃ := (objectArgument_stackIs (fun thread hthread => stackIs_stackPointer m t thread
    (hharmless.thread? t ▸ hthread)) hplace).2
  rw [if_pos rfl, ← hcalled] at hsp₃
  have hrest : Safe env.handlers true t _ :=
    collectRule_prepared (t := t) collectRule_safe res.1.funcs res.2 implicit
  obtain ⟨hready', hsame⟩ := (hrest.ok hready₃ h₃).resolve_left (halive hcurrent)
  obtain ⟨thread₃, hthread₃⟩ : ∃ thread, m₃.thread? t = some thread := by
    obtain ⟨pc, m₄, hpc, -⟩ := Eff.bind_eq_ok.mp hresolve
    obtain ⟨-, thread, hthread, -⟩ := readRegister_eq_ok hpc
    have hknown := (objectArgument_known _ _).apply_eq hplace
    rw [Fixes, hharmless.thread? t, hthread] at hknown
    exact Option.isSome_iff_exists.mp hknown
  intro thread hthread
  rw [hready'.sp_eq hthread, ← hsp₃ thread₃ hthread₃, hready₃.sp_eq hthread₃]
  exact User.sp_congr fun i hlow hhigh => hsame i (isPromisedByte_rsp hlow hhigh)

/-- Room for the result of a prepared call was given by `malloc`. -/
theorem prepareCall_gave {expr : Text} {call : PreparedCall} {slot : Word}
    (h : prepareCall env expr t m = (.ok call, m')) (hslot : call.returnSlot = some slot) :
    ∃ size, GaveBlock env slot size m' := by
  obtain ⟨res, m₁, -, h₁⟩ := Eff.bind_eq_ok.mp h
  obtain ⟨_, m₂, -, h₂⟩ := Eff.bind_eq_ok.mp h₁
  obtain ⟨args, m₃, -, h₃⟩ := Eff.bind_eq_ok.mp h₂
  obtain ⟨func, m₄, -, h₄⟩ := Eff.bind_eq_ok.mp h₃
  obtain ⟨saved, m₅, -, h₅⟩ := Eff.bind_eq_ok.mp h₄
  obtain ⟨callAddr, m₆, -, h₆⟩ := Eff.bind_eq_ok.mp h₅
  obtain ⟨returnSlot, m₇, hallocate, h₇⟩ := Eff.bind_eq_ok.mp h₆
  cases h₇
  obtain rfl : returnSlot = some slot := hslot
  exact allocateResult_gave hallocate

end Preparing

section Finishing

variable {env : Environment} {address : Word} {byte : Byte} {t : Tid} {sp slot : Word}
  {m m' : Machine} {room size : Nat}

/-- A result is stored in the block that `malloc` gave for it, or just behind. -/
theorem writeResult_keeps {data : List Byte} (hgave : GaveBlock env slot size m)
    (hdata : data.length ≤ 24) : Keeps env address byte m (writeMemory slot data m).2 :=
  writeMemory_keeps m fun hblock i hi heq => hblock ⟨slot, size, hgave, i, by omega, heq⟩

theorem readEightbyte_keeps {regs : Registers} {cls : ParameterClass} {st : ReturnState}
    (hgave : GaveBlock env slot size m) :
    Keeps env address byte m (readEightbyte slot regs cls st m).2 := by
  cases cls with
  | sse =>
      refine related_bind (keeps_of_state (Respects.ofExcept _) m) fun data m₁ hdata => ?_
      obtain rfl : m = m₁ := congrArg Prod.snd hdata
      refine related_bind (writeResult_keeps hgave ?_) fun _ m₂ _ => refl_of _ m₂
      rw [toLe_length]
      omega
  | integer =>
      refine keeps_of_state ?_ m
      exact Respects.bind (Respects.ofExcept _) fun _ => Respects.pure _
  | noClass => exact refl_of _ m
  | sseup => exact refl_of _ m
  | x87 => exact refl_of _ m
  | x87up => exact refl_of _ m
  | complexX87 => exact refl_of _ m
  | memory => exact refl_of _ m

theorem readEightbyte_length {regs : Registers} {cls : ParameterClass} {st st' : ReturnState}
    (h : readEightbyte slot regs cls st m = (.ok st', m')) :
    st'.value.length ≤ max (st.value.length + 8) 16 := by
  cases cls with
  | sse =>
      obtain ⟨data, m₁, -, h₁⟩ := Eff.bind_eq_ok.mp h
      obtain ⟨_, m₂, -, h₂⟩ := Eff.bind_eq_ok.mp h₁
      cases h₂
      change (toLe 16 data.toNat).length ≤ _
      rw [toLe_length]
      omega
  | integer =>
      obtain ⟨data, m₁, -, h₁⟩ := Eff.bind_eq_ok.mp h
      cases h₁
      change (st.value ++ toLe 8 data.toNat).length ≤ _
      rw [List.length_append, toLe_length]
      omega
  | noClass =>
      cases h
      omega
  | sseup => cases h
  | x87 => cases h
  | x87up => cases h
  | complexX87 => cases h
  | memory => cases h

theorem readReturnValue_keeps {ty : Ty} {regs : Registers} (hgave : GaveBlock env slot size m) :
    Keeps env address byte m (readReturnValue ty slot regs m).2 := by
  refine related_bind (keeps_of_state (Respects.ofExcept _) m) fun classes m₁ hclasses => ?_
  obtain rfl : m = m₁ := congrArg Prod.snd hclasses
  split
  · refine keeps_of_state (Respects.bind Respects.get fun m => ?_) m
    exact Respects.bind (Respects.ofExcept _) fun _ => Respects.pure _
  split
  · refine related_bind (keeps_of_state (Respects.ofExcept _) m) fun data m₁ hdata => ?_
    obtain rfl : m = m₁ := congrArg Prod.snd hdata
    refine related_bind (writeResult_keeps hgave ?_) fun _ m₂ _ => refl_of _ m₂
    rw [toLe_length]
    omega
  · have hsame : ∀ (cls : ParameterClass) (st : ReturnState) (m m' : Machine)
        (st' : ReturnState), readEightbyte slot regs cls st m = (.ok st', m') →
        GaveBlock env slot size m → GaveBlock env slot size m' := by
      intro cls st m m' st' hread hgave
      have hharmless := (readEightbyte_harmless (t := m.process.currentThread) slot regs cls
        st).apply_eq hread
      exact hgave.mono (by rw [hharmless.trace])
    refine related_bind (readEightbyte_keeps hgave) fun st m₁ hfirst => ?_
    have hgave₁ := hsame _ _ _ _ _ hfirst hgave
    refine related_bind (readEightbyte_keeps hgave₁) fun st' m₂ hsecond => ?_
    have hgave₂ := hsame _ _ _ _ _ hsecond hgave₁
    have hlength := readEightbyte_length hfirst
    have hlength' := readEightbyte_length hsecond
    change st.value.length ≤ max 8 16 at hlength
    exact related_bind (writeResult_keeps hgave₂ (by omega)) fun _ m₃ _ => refl_of _ m₃

theorem readResult_keeps {newRegs : Registers} {ty : Option Ty} {returnSlot : Option Word}
    (hgave : ∀ slot, returnSlot = some slot → ∃ size, GaveBlock env slot size m) :
    Keeps env address byte m (readResult newRegs ty returnSlot m).2 := by
  cases ty with
  | none => exact refl_of _ m
  | some ty =>
      cases returnSlot with
      | none => exact refl_of _ m
      | some slot =>
          obtain ⟨size, hgave⟩ := hgave slot rfl
          exact related_bind (readReturnValue_keeps hgave) fun _ m₁ _ => refl_of _ m₁

theorem recordResult_keeps (ret : Option TypedData) :
    Respects (Keeps env address byte) (recordResult ret) := by
  cases ret with
  | none => exact Respects.pure _
  | some value =>
      refine Respects.bind (Respects.modify fun _ => .of_eq rfl rfl rfl rfl) fun _ => ?_
      exact Respects.bind Respects.get fun _ => Respects.pure _

/-- From the arguments on, only these and the return address are written below the stack
pointer. -/
theorem finishCall_keeps {call : PreparedCall} (havoid : env.handlers.Avoid address) (depth : Nat)
    (hsp : StackIs t (sp - BitVec.ofNat 64 depth) m)
    (hgave : ∀ slot, call.returnSlot = some slot → ∃ size, GaveBlock env slot size m)
    (hfits : ArgumentsFit call.func.parameterTypes call.args)
    (hroom : depth + argumentsRoom call.func call.args + 8 ≤ room)
    (haddress : ¬ Beneath sp room address) :
    Keeps env address byte m (finishCall env t call m).2 := by
  simp only [finishCall, performCall, bind_assoc]
  have hsetup : Keeps env address byte m
      (setupArguments t call.func call.args call.returnSlot m).2 :=
    setupArguments_keeps depth hsp hfits (by omega) haddress
  refine related_bind hsetup fun _ m₁ hrun => ?_
  rw [hrun] at hsetup
  obtain ⟨lower, hlower, hsp₁⟩ := setupArguments_depth depth hsp hrun
  have hmisses : ∀ i < 8, address ≠ sp - BitVec.ofNat 64 lower - 8 + BitVec.ofNat 64 i := by
    rw [return_depth]
    exact not_beneath haddress (by omega) (by omega)
  have hcall : Keeps env address byte m₁ (inferiorCall env.handlers call.callAddr env.entryPoint
      call.saved (some t) m₁).2 :=
    inferiorCall_keeps havoid (Option.getD_some ..) hsp₁ hmisses
  refine related_bind hcall fun newRegs m₂ hreturned => ?_
  rw [hreturned] at hcall
  refine related_bind (readResult_keeps fun slot hslot => ?_) fun ret m₃ _ =>
    recordResult_keeps ret m₃
  obtain ⟨size, hgave⟩ := hgave slot hslot
  exact ⟨size, hgave.mono (hsetup.suffix.trans hcall.suffix)⟩

end Finishing

section Reaching

variable {env : Environment} {address : Word} {t : Tid} {m m' : Machine}

theorem Keeps.leftAlone (h : Keeps env address (m.kernel.memory address) m m')
    (hsites : ∀ site ∈ m.process.breakpointSites, site.address ≠ address)
    (hblock : ¬ InBlock env address m') : LeftAlone address m m' := by
  intro hreports
  obtain ⟨recent, htrace, hkeeps⟩ := h
  obtain ⟨hintact, hdelivered⟩ := hkeeps ⟨rfl, hreports, hsites⟩ hblock
  rw [observedSince_eq htrace]
  exact ⟨hintact.memory, hdelivered⟩

/-- The return address of `malloc`. -/
theorem mallocReturn_reached {expr : Text} {i : Nat} (hi : i < 8) :
    reachedByEvaluation env expr t m
      (mallocStackPointer env expr t m - 8 + BitVec.ofNat 64 i) := by
  rw [mallocStackPointer]
  by_cases hcurrent : m.process.currentThread = t
  · left
    rw [if_pos hcurrent, hcurrent, spillSize_eq, return_depth]
    refine beneath_of_depth (Nat.le_add_left _ _) ?_ hi
    rw [evaluationRoom]
    omega
  · right
    rw [if_neg hcurrent]
    change Beneath _ 8 (m.stackPointer m.process.currentThread - 0#64 - BitVec.ofNat 64 8 + _)
    rw [BitVec.sub_zero]
    exact beneath_of_depth (Nat.le_refl _) (Nat.le_refl _) hi

theorem evaluationRoom_of_ok {expr : Text} {call : PreparedCall}
    (h : prepareCall env expr t m = (.ok call, m')) : evaluationRoom env expr t m =
      spillRoom (calledObject env expr t m) + argumentsRoom call.func call.args + 8 := by
  rw [evaluationRoom, h]

theorem prepareCall_depth {expr : Text} {call : PreparedCall} (hstopped : StoppedThread t m)
    (halive : StaysAlive env expr t m) (h : prepareCall env expr t m = (.ok call, m')) :
    StackIs t (m.stackPointer t - BitVec.ofNat 64 (spillRoom (calledObject env expr t m))) m' := by
  rw [StaysAlive, h] at halive
  rw [← spillSize_eq]
  exact prepareCall_stackIs hstopped.ready h halive

theorem evaluation_keeps {expr : Text} {byte : Byte} (htext : expr.length < 2 ^ 64)
    (hstopped : StoppedThread t m)
    (hfits : EvaluationFits env expr t m) (halive : StaysAlive env expr t m)
    (havoid : env.handlers.Avoid address) (hreach : ¬ reachedByEvaluation env expr t m address) :
    Keeps env address byte m ((prepareCall env expr t >>= finishCall env t) m).2 := by
  refine related_bind
    (prepareCall_keeps havoid htext hfits.1 (fun hin => hreach (.inl (hin.mono ?_)))
    fun i hi heq => hreach (heq ▸ mallocReturn_reached hi)) fun call m₁ hprepare => ?_
  · rw [evaluationRoom]
    omega
  have hsp := prepareCall_depth hstopped halive hprepare
  have hcall : ArgumentsFit call.func.parameterTypes call.args :=
    hfits.2 call (congrArg Prod.fst hprepare)
  exact finishCall_keeps havoid _ hsp (fun slot hslot => prepareCall_gave hprepare hslot) hcall
    (Nat.le_of_eq (evaluationRoom_of_ok hprepare).symm) fun hin => hreach (.inl hin)

theorem evaluation_entered {expr : Text} (hstopped : StoppedThread t m)
    (halive : StaysAlive env expr t m) :
    Entered (fun entry => ∀ i < 8, reachedByEvaluation env expr t m
      (User.sp entry.user + BitVec.ofNat 64 i)) m
      ((prepareCall env expr t >>= finishCall env t) m).2 := by
  have hmalloc : ∀ entry, MallocEntry env m.process.currentThread
      (mallocStackPointer env expr t m) entry → ∀ i < 8, reachedByEvaluation env expr t m
        (User.sp entry.user + BitVec.ofNat 64 i) := by
    rintro entry ⟨_, _, -, -, -, hsp⟩ i hi
    rw [hsp]
    exact mallocReturn_reached hi
  rcases hprepare : prepareCall env expr t m with ⟨e | call, m₁⟩
  · rw [bind_of_error hprepare]
    exact (prepareCall_entries hprepare).1.mono hmalloc
  rw [bind_of_ok hprepare]
  have hsp := prepareCall_depth hstopped halive hprepare
  refine (((prepareCall_entries hprepare).2 call rfl).2.mono hmalloc).entered_trans ?_
  refine finishCall_entered (fun u m₂ hsetup => ?_) rfl
  obtain ⟨lower, hlower, hsp₂⟩ := setupArguments_depth _ hsp hsetup
  refine ⟨_, hsp₂, fun entry hat i hi => .inl ?_⟩
  rw [hat.2.2, return_depth]
  refine beneath_of_depth (Nat.le_add_left _ _) ?_ hi
  rw [evaluationRoom_of_ok hprepare]
  omega

end Reaching

/-- An evaluation on a stopped thread reaches the room of the call right below the stack pointer
and nothing else on the stack.  The length of a text is a 64-bit number. -/
theorem evaluateExpression_staysWithin (env : Environment) (expr : Text) (otid : Option Tid)
    (m : Machine) (htext : expr.length < 2 ^ 64)
    (hstopped : StoppedThread (otid.getD m.process.currentThread) m)
    (hfits : EvaluationFits env expr (otid.getD m.process.currentThread) m)
    (halive : StaysAlive env expr (otid.getD m.process.currentThread) m) :
    StaysWithin env (reachedByEvaluation env expr (otid.getD m.process.currentThread) m) m
      (evaluateExpression env expr otid m).2 := by
  rw [evaluateExpression_eq_prepareCall]
  constructor
  · intro address hreach havoid hsites hblock
    exact (evaluation_keeps htext hstopped hfits halive havoid hreach).leftAlone hsites hblock
  · exact fun entry hentry => (evaluation_entered hstopped halive).mem hentry

namespace StackReachWitness

/-- Names stand for one function that takes a reference and returns a number. -/
def environment : Environment where
  handlers := ⟨fun _ _ => ([], .ok false)⟩
  resolveIndirectName := fun _ _ _ =>
    .ok ⟨none, [⟨[.reference false 8], some (.base "int" .signed 4), some 0x1000, none, none⟩]⟩
  mallocAddress := fun _ => some 0x3000
  entryPoint := 0x2000
  sameType := fun _ _ => .ok true
  toDouble := fun _ => none

def call : Except Failure (Option (TypedData × Nat)) × Machine :=
  evaluateExpression environment (ascii "f(7)") none (CallAlignmentWitness.machine 0x8000)

/-- The stack pointers with which functions are entered, newest first. -/
def stackPointers : List Word :=
  (callEntries (observedSince (CallAlignmentWitness.machine 0x8000) call.2)).map fun entry =>
    User.sp entry.user

/-- The arguments fit, and the copy of the number is among them. -/
def argumentsFit : Bool :=
  match (prepareCall environment (ascii "f(7)") 1 (CallAlignmentWitness.machine 0x8000)).1 with
  | .ok call => decide (ArgumentsFit call.func.parameterTypes call.args)
  | .error _ => true

end StackReachWitness

open StackReachWitness in
/-- A number passed by reference: the copy, the padding and two return addresses. -/
theorem evaluateExpression_staysWithin_reference :
    StaysWithin environment
      (reachedByEvaluation environment (ascii "f(7)") 1 (CallAlignmentWitness.machine 0x8000))
      (CallAlignmentWitness.machine 0x8000) call.2 := by
  refine evaluateExpression_staysWithin environment (ascii "f(7)") none
    (CallAlignmentWitness.machine 0x8000) (by decide) (CallAlignmentWitness.machine_stopped 0x8000)
    ⟨fun object hobject => ?_, fun prepared hprepared => ?_⟩ fun hne => absurd rfl hne
  · have hnone : (calledObject environment (ascii "f(7)") 1
      (CallAlignmentWitness.machine 0x8000)).isNone = true := by decide +kernel
    rw [Option.isNone_iff_eq_none] at hnone
    exact absurd (hnone.symm.trans hobject) (by simp)
  · have hfits : argumentsFit = true := by decide +kernel
    change (prepareCall environment (ascii "f(7)") 1 (CallAlignmentWitness.machine 0x8000)).1 =
      .ok prepared at hprepared
    rw [argumentsFit, hprepared] at hfits
    exact of_decide_eq_true hfits

open StackReachWitness in
/-- The return addresses are written where a leaf function keeps its data: within 128 bytes
below the stack pointer. -/
theorem redZone_reached :
    ¬ ∀ (env : Environment) (expr : Text) (otid : Option Tid) (m : Machine),
      StoppedThread (otid.getD m.process.currentThread) m →
      StaysWithin env (fun address =>
        ¬ Beneath (m.stackPointer (otid.getD m.process.currentThread)) 128 address) m
        (evaluateExpression env expr otid m).2 := by
  intro hall
  have hwithin := hall environment (ascii "f(7)") none (CallAlignmentWitness.machine 0x8000)
    (CallAlignmentWitness.machine_stopped 0x8000)
  have hpointers : stackPointers = [0x7fe8, 0x7ff8] := by decide +kernel
  have hlast : (0x7ff8 : Word) ∈ stackPointers := by
    rw [hpointers]
    exact List.mem_cons_of_mem _ (List.mem_singleton_self _)
  obtain ⟨entry, hentry, heq⟩ := List.mem_map.mp hlast
  refine hwithin.entries entry hentry 0 (by decide) ⟨8, by decide, by decide, ?_⟩
  rw [heq]
  decide +kernel

end Gsdb
