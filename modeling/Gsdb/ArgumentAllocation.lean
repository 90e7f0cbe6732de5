/-
What `setup_arguments` leaves behind: the arguments in registers and on the stack, as
the convention places them, and the kinds of arguments it refuses.
-/
import Gsdb.ArgumentRegisters

namespace Gsdb

open ByteMemory Effects Eff Debugger PoolAllocation

/-- The arguments of a call are passed, given the stack pointer at the start and the
registers each argument takes. -/
structure ArgumentsPassed (tid : Tid) (func : Function) (args : List TypedData)
    (returnSlot : Option Word) (rsp : Word) (placements : List (Placement RegisterId))
    (left : Pools ParameterClass RegisterId) (m m' : Machine) : Prop where
  allocates : Allocates (argumentPools func.returnType) (func.parameterTypes.map Ty.demand)
    placements left
  once : (placements.flatMap Placement.taken).Nodup
  slot : returnsInMemory func.returnType = true → .rdi ∉ placements.flatMap Placement.taken ∧
    ∃ slot, returnSlot = some slot ∧ RegisterHolds m' tid .rdi (toLe 8 slot.toNat)
  held : ArgumentsHeld m' tid func.parameterTypes
    (passedArguments func.parameterTypes args rsp) placements
  stack : (∀ arg ∈ args, arg.data.length ≤ 2 ^ 64) → m'.kernel.memory =
    writeEach (writeEach m.kernel.memory (argumentCopies func.parameterTypes args rsp))
      (slotWrites
        (argumentBase (stackArguments func.parameterTypes
          (passedArguments func.parameterTypes args rsp) placements)
          (belowCopies func.parameterTypes args rsp))
        (stackArguments func.parameterTypes
          (passedArguments func.parameterTypes args rsp) placements))
  sseCount : RegisterHolds m' tid .rax
    (toLe 8 ((placements.flatMap Placement.taken).countP fun reg => decide (reg ∈ sseRegs)))
  stackPointer : RegisterHolds m' tid .rsp
    (toLe 8 (argumentBase (stackArguments func.parameterTypes
      (passedArguments func.parameterTypes args rsp) placements)
      (belowCopies func.parameterTypes args rsp)).toNat)

/-- The stack pointer of a thread, as the debugger has it. -/
def Machine.StackPointerAt (m : Machine) (tid : Tid) (rsp : Word) : Prop :=
  ∃ thread, m.thread? tid = some thread ∧ thread.regs.readU64 .rsp = .ok rsp

section Passed

variable {tid : Tid} {func : Function} {args : List TypedData} {returnSlot : Option Word}
  {m m' : Machine} {u : PUnit}

theorem regsAt_eq_ok {regs : Registers} (h : regsAt tid m = (.ok regs, m')) :
    m' = m ∧ ∃ thread, m.thread? tid = some thread ∧ thread.regs = regs := by
  unfold regsAt at h
  rw [asks_apply] at h
  cases hthread : m.thread? tid with
  | none => rw [hthread] at h; cases h
  | some thread => rw [hthread] at h; cases h; exact ⟨rfl, thread, rfl, rfl⟩

/-- The pools at the start of the second loop. -/
theorem argumentPools_counters (returnType : Option Ty) {k : Nat}
    (hk : k = if returnsInMemory returnType then 1 else 0) :
    CountersAt ⟨k, 0, []⟩ (argumentPools returnType) := by
  subst hk
  refine ⟨?_, rfl, fun cls hint hsse => ?_, ?_, Nat.zero_le _⟩
  · unfold argumentPools
    cases returnsInMemory returnType <;> rfl
  · cases cls <;> first | rfl | contradiction
  · cases returnsInMemory returnType <;> decide

/-- A result in memory takes the first register, and no other does. -/
theorem passReturnSlot_eq_ok {returnType : Option Ty} {k : Nat}
    (h : passReturnSlot tid returnType returnSlot m = (.ok k, m')) :
    (k = if returnsInMemory returnType then 1 else 0) ∧ SetOnly tid [.rdi] m m' ∧
      (returnsInMemory returnType = true →
        ∃ slot, returnSlot = some slot ∧ RegisterHolds m' tid .rdi (toLe 8 slot.toNat)) := by
  have hsame : SetOnly tid [.rdi] m m := ⟨rfl, fun _ _ _ _ h => h⟩
  cases returnType with
  | none =>
      cases h
      exact ⟨rfl, hsame, fun hin => by simp [returnsInMemory] at hin⟩
  | some ty =>
      obtain ⟨classes, m₁, hclasses, hrest⟩ := Eff.bind_eq_ok.mp h
      obtain ⟨hcomputed, rfl⟩ := Prod.mk.inj hclasses
      have hin : returnsInMemory (some ty) = decide (classes.first = .memory) := by
        simp [returnsInMemory, Ty.classes_eq hcomputed]
      rw [hin]
      split at hrest
      · rename_i hmemory
        cases returnSlot with
        | none => cases hrest
        | some slot =>
            obtain ⟨_, m₂, hcommit, hend⟩ := Eff.bind_eq_ok.mp hrest
            cases hend
            have hrdi : RegisterId.rdi ∈ callRegisters := by decide
            exact ⟨by simp [hmemory], commitRegister_setOnly hrdi hcommit, fun _ => ⟨slot, rfl,
              commitRegister_holds hrdi (Value.isWord_u64 slot) hcommit⟩⟩
      · rename_i hmemory
        cases hrest
        exact ⟨by simp [hmemory], hsame, fun hin => by simp [hmemory] at hin⟩

theorem passedArguments_length_le {params : List Ty} {rsp : Word}
    (h : ∀ arg ∈ args, arg.data.length ≤ 2 ^ 64) :
    ∀ arg ∈ passedArguments params args rsp, arg.data.length ≤ 2 ^ 64 := by
  induction params generalizing args rsp with
  | nil =>
      cases args with
      | nil => exact h
      | cons arg args => exact h
  | cons param params ih =>
      cases args with
      | nil => exact h
      | cons arg args =>
          intro passed hpassed
          rcases List.mem_cons.mp hpassed with rfl | hpassed
          · unfold passedArgument
            split
            · simp
            · exact h arg List.mem_cons_self
          · exact ih (fun a ha => h a (List.mem_cons_of_mem _ ha)) passed hpassed

theorem passedArguments_length {params : List Ty} {rsp : Word} :
    (passedArguments params args rsp).length = args.length := by
  induction params generalizing args rsp with
  | nil =>
      cases args with
      | nil => rfl
      | cons arg args => rfl
  | cons param params ih =>
      cases args with
      | nil => rfl
      | cons arg args => exact congrArg (· + 1) ih

theorem stackArguments_mem {params : List Ty} {placements : List (Placement RegisterId)}
    {arg : TypedData × Word} (h : arg ∈ stackArguments params args placements) :
    arg.1 ∈ args := by
  induction params generalizing args placements with
  | nil => simp [stackArguments] at h
  | cons param params ih =>
      cases args with
      | nil => simp [stackArguments] at h
      | cons first args =>
          cases placements with
          | nil => simp [stackArguments] at h
          | cons placement placements =>
              cases placement with
              | apart =>
                  rcases List.mem_cons.mp h with rfl | h
                  · exact List.mem_cons_self
                  · exact List.mem_cons_of_mem _ (ih h)
              | among taken => exact List.mem_cons_of_mem _ (ih h)

/-- How many of the registers are SSE registers is what the counter says. -/
theorem countP_sseRegs {placements : List (Placement RegisterId)} {st : ArgumentState}
    {left : Pools ParameterClass RegisterId}
    (halloc : Allocates (argumentPools func.returnType) (func.parameterTypes.map Ty.demand)
      placements left) (hst : CountersAt st left) :
    (placements.flatMap Placement.taken).countP (fun reg => decide (reg ∈ sseRegs)) =
      st.currentSseReg := by
  have hstart := argumentPools_counters func.returnType rfl
  have hrecognizes : Recognizes (fun reg => decide (reg ∈ sseRegs)) .sse
      (argumentPools func.returnType) := by
    refine ⟨fun reg hreg => decide_eq_true (hstart.mem_sse hreg), fun cls hcls reg hreg => ?_⟩
    rcases hstart.mem_cases hreg with ⟨-, hint⟩ | ⟨hsse, -⟩
    · exact decide_eq_false (intRegs_sseRegs reg hint)
    · exact absurd hsse hcls
  have hsupply := congrArg List.length (halloc.supply hrecognizes)
  rw [List.length_append, hst.sse, List.length_drop, hstart.sse, ← List.countP_eq_length_filter]
    at hsupply
  have hbound := hst.sses
  simp only [List.drop_zero] at hsupply
  omega

/-- When `setup_arguments` returns, the arguments are passed. -/
theorem setupArguments_eq_ok (h : setupArguments tid func args returnSlot m = (.ok u, m')) :
    ∃ rsp placements left, m.StackPointerAt tid rsp ∧
      ArgumentsPassed tid func args returnSlot rsp placements left m m' := by
  obtain ⟨regs, m₁, hregs, h₁⟩ := Eff.bind_eq_ok.mp h
  obtain ⟨rsp, m₂, hrsp, h₂⟩ := Eff.bind_eq_ok.mp h₁
  obtain ⟨k, m₃, hslot, h₃⟩ := Eff.bind_eq_ok.mp h₂
  obtain ⟨⟨passed, below⟩, m₄, hpassed, h₄⟩ := Eff.bind_eq_ok.mp h₃
  obtain ⟨st, m₅, hplaced, h₅⟩ := Eff.bind_eq_ok.mp h₄
  obtain ⟨_, m₆, hstack, h₆⟩ := Eff.bind_eq_ok.mp h₅
  obtain ⟨_, m₇, hrax, hlast⟩ := Eff.bind_eq_ok.mp h₆
  obtain ⟨rfl, thread, hthread, hcached⟩ := regsAt_eq_ok hregs
  obtain ⟨hread, rfl⟩ := Prod.mk.inj hrsp
  obtain ⟨hk, hsetSlot, hslotHolds⟩ := passReturnSlot_eq_ok hslot
  obtain ⟨rfl, rfl, hcopies⟩ := passReferences_eq_ok hpassed
  have hcopied := (passReferences_respects (writeMemory_harmless (t := tid)) _ _ _).apply_eq hpassed
  have hstart := argumentPools_counters func.returnType hk
  obtain ⟨placements, left, halloc, hleft, hargs, hset, hheld⟩ :=
    placeArguments_eq_ok hstart hplaced
  rw [List.nil_append] at hargs
  have hwritten := (writeStackArgs_respects (writeMemory_harmless (t := tid)) _ _).apply_eq hstack
  obtain ⟨honce, hfrom⟩ := halloc.disjoint hstart.disjoint
  have hcall : ∀ reg ∈ placements.flatMap Placement.taken,
      reg ∈ callRegisters ∧ reg ≠ .rax ∧ reg ≠ .rsp := by
    intro reg hreg
    obtain ⟨cls, hcls⟩ := hfrom reg hreg
    exact hstart.mem_callRegisters hcls
  have hraxCall : RegisterId.rax ∈ callRegisters := by decide
  have hrspCall : RegisterId.rsp ∈ callRegisters := by decide
  have hsetRax := commitRegister_setOnly hraxCall hrax
  have hsetRsp := commitRegister_setOnly hrspCall hlast
  have hend := hsetRax.trans hsetRsp
  have hafter : ∀ reg ∈ callRegisters, reg ≠ .rax → reg ≠ .rsp → ∀ bytes,
      RegisterHolds m₅ tid reg bytes → RegisterHolds m' tid reg bytes := by
    intro reg hreg hnotRax hnotRsp bytes hholds
    exact hend.keeps reg hreg (by simp [hnotRax, hnotRsp]) bytes (hholds.of_harmless hwritten)
  refine ⟨rsp, placements, left, ⟨thread, hthread, by rw [hcached]; exact hread⟩, ?_⟩
  constructor
  · exact halloc
  · exact honce
  · intro hin
    have hnot : RegisterId.rdi ∉ placements.flatMap Placement.taken := by
      intro hmem
      obtain ⟨cls, hcls⟩ := hfrom _ hmem
      rcases hstart.mem_cases hcls with ⟨rfl, -⟩ | ⟨-, hsse⟩
      · simp only [argumentPools, hin, if_true] at hcls
        revert hcls
        decide
      · revert hsse
        decide
    obtain ⟨slot, hsome, hholds⟩ := hslotHolds hin
    refine ⟨hnot, slot, hsome, hafter .rdi (by decide) (by decide) (by decide) _ ?_⟩
    exact hset.keeps _ (by decide) hnot _ (hholds.of_harmless hcopied)
  · refine hheld.keep fun reg hreg => ?_
    obtain ⟨hin, hnotRax, hnotRsp⟩ := hcall reg hreg
    exact hafter reg hin hnotRax hnotRsp
  · intro hfits
    have hslots := writeStackArgs_eq_ok hstack fun arg harg => by
      rw [hargs] at harg
      exact passedArguments_length_le hfits _ (stackArguments_mem harg)
    rw [hend.memory, hslots, hset.memory, hcopies hfits, hsetSlot.memory, hargs]
    rfl
  · have hcount := countP_sseRegs halloc hleft
    have hbound := hleft.sses
    have hsmall : st.currentSseReg < 2 ^ 64 := by
      simp only [sseRegs, List.length_cons, List.length_nil] at hbound
      omega
    have hword := Value.isWord_u64 (BitVec.ofNat 64 st.currentSseReg)
    rw [BitVec.toNat_ofNat, Nat.mod_eq_of_lt hsmall] at hword
    rw [hcount]
    exact hsetRsp.keeps _ hraxCall (by decide) _ (commitRegister_holds hraxCall hword hrax)
  · rw [← hargs]
    exact commitRegister_holds hrspCall (Value.isWord_u64 _) hlast

end Passed

/-- What the debugger can write to: the memory of the inferior and a thread's registers. -/
structure Writable (tid : Tid) (m : Machine) : Prop where
  known : ∃ thread, m.thread? tid = some thread
  stopped : m.isStopped tid = true
  memory : MemoryAccessible m

/-- The parameters of a function and the arguments for them are ones that
`setup_arguments` can look at. -/
structure Computable (params : List Ty) (args : List TypedData) : Prop where
  classes : ∀ param ∈ params, ∃ classes, param.getParameterClasses = .ok classes
  references : ∀ param ∈ params, param.isReferenceType = true → param.byteSize = 8
  arguments : params.length ≤ args.length
  data : ∀ arg ∈ args, arg.data.length ≤ 2 ^ 64

/-- The result has classes, and storage if it is returned in memory. -/
structure Returnable (returnType : Option Ty) (returnSlot : Option Word) : Prop where
  classes : ∀ ty, returnType = some ty → ∃ classes, ty.getParameterClasses = .ok classes
  slot : returnsInMemory returnType = true → ∃ slot, returnSlot = some slot

/-- Every parameter is set apart or finds registers for all its eightbytes. -/
def Allocatable (func : Function) : Prop :=
  ∃ placements left, Allocates (argumentPools func.returnType)
    (func.parameterTypes.map Ty.demand) placements left

def unsupportedClass : Failure := .error "Unsupported parameter class!"

section Progress

variable {tid : Tid} {m m' : Machine}

theorem Writable.setMemory (h : Writable tid m) (memory : Memory 64) :
    Writable tid (m.setMemory memory) :=
  ⟨h.known, h.stopped, h.memory.setMemory memory⟩

theorem Writable.writeMemory (h : Writable tid m) (address : Word) {data : List Byte}
    (hfits : data.length ≤ 2 ^ 64) :
    ∃ m', writeMemory address data m = (.ok ⟨⟩, m') ∧ Writable tid m' :=
  ⟨_, h.memory.writeMemory address data hfits, h.setMemory _⟩

theorem Writable.commitRegister (h : Writable tid m) (id : RegisterId) {val : Value}
    {bytes : List Byte} (hid : id ∈ callRegisters) (hval : val.IsWord bytes) :
    ∃ m', commitRegister tid id val m = (.ok ⟨⟩, m') ∧ Writable tid m' := by
  obtain ⟨thread, hthread⟩ := h.known
  obtain ⟨info, hmem, hinfo, -⟩ := callRegisters_info hid
  obtain ⟨hsize, -⟩ := callInfos_shape info hmem
  have hfits : val.sizeof ≤ info.size := by
    rw [(hval.widen info hsize).2]
    exact hsize
  have hdata : thread.regs.writeData info val = .ok { thread.regs with
      data := thread.regs.data.write info.offset (toLe info.size (widen info val).toNat) } :=
    if_pos hfits
  have hwrite := writeRegister_of_stopped hinfo hthread hdata h.stopped
  refine ⟨_, bind_of_ok hwrite _, ⟨_, thread?_committed hthread⟩, ?_, ?_, h.memory.mapped,
    h.memory.iovMax⟩
  · have hstatus := setUser_status (m.setRegs tid { thread.regs with
      data := thread.regs.data.write info.offset (toLe info.size (widen info val).toNat) }) tid tid
    have hstopped := h.stopped
    simp only [Machine.isStopped, decide_eq_true_eq] at hstopped ⊢
    exact (hstatus _).trans hstopped
  · have hstatus := setUser_status (m.setRegs tid { thread.regs with
      data := thread.regs.data.write info.offset (toLe info.size (widen info val).toNat) }) tid
      m.process.pid
    have hstopped := h.memory.stopped
    simp only [Machine.isStopped, decide_eq_true_eq] at hstopped ⊢
    exact (hstatus _).trans hstopped

theorem Writable.passReturnSlot (h : Writable tid m) {returnType : Option Ty}
    {returnSlot : Option Word} (hreturn : Returnable returnType returnSlot) :
    ∃ k m', passReturnSlot tid returnType returnSlot m = (.ok k, m') ∧ Writable tid m' := by
  cases returnType with
  | none => exact ⟨0, m, rfl, h⟩
  | some ty =>
      obtain ⟨classes, hclasses⟩ := hreturn.classes ty rfl
      have hfirst : (ofExcept ty.getParameterClasses : Debugger ParameterClasses) m =
          (.ok classes, m) := by
        rw [ofExcept_apply, hclasses]
      by_cases hmemory : classes.first = .memory
      · have hin : returnsInMemory (some ty) = true := by
          simp [returnsInMemory, Ty.classes_eq hclasses, hmemory]
        obtain ⟨slot, rfl⟩ := hreturn.slot hin
        obtain ⟨m', hcommit, hlast⟩ := h.commitRegister .rdi (by decide)
          (Value.isWord_u64 slot)
        refine ⟨1, m', (bind_of_ok hfirst _).trans ?_, hlast⟩
        rw [if_pos hmemory]
        exact bind_of_ok hcommit _
      · refine ⟨0, m, (bind_of_ok hfirst _).trans ?_, h⟩
        rw [if_neg hmemory]
        rfl

theorem Computable.tail {param : Ty} {params : List Ty} {arg : TypedData}
    {args : List TypedData} (h : Computable (param :: params) (arg :: args)) :
    Computable params args where
  classes := fun p hp => h.classes p (List.mem_cons_of_mem _ hp)
  references := fun p hp => h.references p (List.mem_cons_of_mem _ hp)
  arguments := by simpa using h.arguments
  data := fun a ha => h.data a (List.mem_cons_of_mem _ ha)

theorem Writable.passReference (h : Writable tid m) {param : Ty} {arg : TypedData} (rsp : Word)
    {classes : ParameterClasses} (hclasses : param.getParameterClasses = .ok classes)
    (hfits : arg.data.length ≤ 2 ^ 64) :
    ∃ passed m', passReference param arg rsp m = (.ok passed, m') ∧ Writable tid m' := by
  have hfirst : (ofExcept param.getParameterClasses : Debugger ParameterClasses) m =
      (.ok classes, m) := by
    rw [ofExcept_apply, hclasses]
  rw [Debugger.passReference, bind_of_ok hfirst]
  by_cases href : param.isReferenceType = true
  · rw [if_pos href]
    cases arg.address with
    | some address => exact ⟨_, m, rfl, h⟩
    | none =>
        obtain ⟨m', hwrite, hlast⟩ := h.writeMemory
          ((rsp - BitVec.ofNat 64 arg.type.byteSize) &&&
            ~~~(BitVec.ofNat 64 arg.type.alignment - 1)) hfits
        exact ⟨_, m', bind_of_ok hwrite _, hlast⟩
  · rw [if_neg href]
    exact ⟨_, m, rfl, h⟩

theorem Writable.passReferences {params : List Ty} {args : List TypedData} (h : Writable tid m)
    (hargs : Computable params args) (rsp : Word) :
    ∃ passed m', passReferences params args rsp m = (.ok passed, m') ∧ Writable tid m' := by
  induction params generalizing args rsp m with
  | nil => exact ⟨(args, rsp), m, rfl, h⟩
  | cons param params ih =>
      cases args with
      | nil => exact absurd hargs.arguments (by simp)
      | cons arg args =>
          obtain ⟨classes, hclasses⟩ := hargs.classes param List.mem_cons_self
          obtain ⟨first, m₁, hfirst, h₁⟩ := h.passReference rsp hclasses
            (hargs.data arg List.mem_cons_self)
          obtain ⟨later, m₂, hlater, h₂⟩ := ih h₁ hargs.tail first.2
          refine ⟨(first.1 :: later.1, later.2), m₂, ?_, h₂⟩
          rw [Debugger.passReferences, bind_of_ok hfirst]
          exact bind_of_ok hlater _

theorem Writable.writeStackArgs {stackArgs : List (TypedData × Word)} (h : Writable tid m)
    (hfits : ∀ arg ∈ stackArgs, arg.1.data.length ≤ 2 ^ 64) (start : Word) :
    ∃ m', writeStackArgs start stackArgs m = (.ok ⟨⟩, m') ∧ Writable tid m' := by
  induction stackArgs generalizing start m with
  | nil => exact ⟨m, rfl, h⟩
  | cons arg rest ih =>
      obtain ⟨m₁, hfirst, h₁⟩ := h.writeMemory start (hfits arg List.mem_cons_self)
      obtain ⟨m₂, hrest, h₂⟩ := ih h₁ (fun a ha => hfits a (List.mem_cons_of_mem _ ha))
        (start + arg.2)
      exact ⟨m₂, (bind_of_ok hfirst _).trans hrest, h₂⟩

end Progress

section Refusal

variable {tid : Tid} {m : Machine} {st : ArgumentState}
  {pools : Pools ParameterClass RegisterId} {classes : ParameterClasses} {data : List Byte}

/-- What needs registers fits into two eightbytes. -/
theorem byteSize_le_of_reserved {param : Ty}
    (href : param.isReferenceType = true → param.byteSize = 8)
    (hclasses : param.getParameterClasses = .ok classes)
    (hcount : ¬ (classes.count .integer = 0 ∧ classes.count .sse = 0)) :
    param.byteSize ≤ 16 := by
  have hmemory : ∀ {ty : Ty} {classify : Except Failure ParameterClasses},
      ty.classifyClassType classify = .ok classes → ty.byteSize ≤ 16 := by
    intro ty classify h
    unfold Ty.classifyClassType at h
    obtain ⟨nonTrivial, -, h⟩ := bind_eq_ok.mp h
    split at h
    · cases h
    · by_contra hsize
      rw [if_pos (.inl (by omega))] at h
      cases h
      exact hcount ⟨rfl, rfl⟩
  match param with
  | .base _ encoding byteSize =>
      by_contra hsize
      change ¬ byteSize ≤ 16 at hsize
      change Ty.baseClasses encoding byteSize = .ok classes at hclasses
      unfold Ty.baseClasses at hclasses
      rw [if_neg (by omega), if_neg fun h => hsize (Nat.le_of_eq h.2)] at hclasses
      cases hclasses
      exact hcount ⟨rfl, rfl⟩
  | .pointer _ => exact (by decide : (8 : Nat) ≤ 16)
  | .reference _ _ =>
      have hsize := href rfl
      omega
  | .enumeration _ _ =>
      cases hclasses
      exact absurd ⟨rfl, rfl⟩ hcount
  | .memberPointer _ =>
      cases hclasses
      exact absurd ⟨rfl, rfl⟩ hcount
  | .other _ =>
      cases hclasses
      exact absurd ⟨rfl, rfl⟩ hcount
  | .array _ _ =>
      rw [Ty.getParameterClasses] at hclasses
      exact hmemory hclasses
  | .cls _ _ _ _ =>
      rw [Ty.getParameterClasses] at hclasses
      exact hmemory hclasses
  | .alias _ _ target =>
      rw [Ty.getParameterClasses] at hclasses
      split at hclasses
      · exact hmemory hclasses
      · exact hmemory hclasses
      · change target.isReferenceType = true → target.byteSize = 8 at href
        change target.byteSize ≤ 16
        exact byteSize_le_of_reserved href hclasses hcount

/-- The eightbytes of a parameter that needs registers are among its two classes. -/
theorem count_taken_le {param : Ty} (hsize : param.byteSize ≤ 16) {cls : ParameterClass}
    (hcls : cls = .integer ∨ cls = .sse) :
    param.demand.taken.count cls ≤ param.demand.reserved.count cls := by
  have hne : cls ≠ .noClass := by
    rcases hcls with rfl | rfl <;> decide
  have htaken : param.demand.taken.count cls =
      ((List.range ((param.byteSize + 7) / 8)).map param.classes.eightbyte).count cls := by
    have hmap : param.demand.taken =
        ((List.range ((param.byteSize + 7) / 8)).map param.classes.eightbyte).filter fun c =>
          c ≠ .noClass := by
      simp only [Ty.demand, Ty.eightbytes, ParameterClasses.eightbytes, List.filter_map,
        List.map_map]
      rfl
    rw [hmap, List.count_filter (by simpa using hne)]
  have hreserved : param.demand.reserved.count cls =
      [param.classes.first, param.classes.second].count cls := by
    rw [Ty.demand, List.count_filter (by simpa using hcls)]
  rw [htaken, hreserved]
  have hblocks : (param.byteSize + 7) / 8 ≤ 2 := by omega
  have hrange : List.Sublist ((List.range ((param.byteSize + 7) / 8)).map param.classes.eightbyte)
      [param.classes.first, param.classes.second] := by
    have hsub : List.Sublist (List.range ((param.byteSize + 7) / 8)) (List.range 2) :=
      List.range_sublist.mpr hblocks
    exact hsub.map param.classes.eightbyte
  exact hrange.count_le cls

/-- One eightbyte is placed, or is refused because of its class. -/
theorem Writable.placeEightbyte (h : Writable tid m) (data : List Byte)
    (hst : CountersAt st pools) {index : Nat} (hindex : index ≤ 1)
    (hroom : classes.eightbyte index = .integer ∨ classes.eightbyte index = .sse →
      pools (classes.eightbyte index) ≠ []) :
    (∃ st' m', placeEightbyte tid classes data index st m = (.ok st', m') ∧ Writable tid m') ∨
      (classes.eightbyte index ≠ .noClass ∧ pools (classes.eightbyte index) = [] ∧
        placeEightbyte tid classes data index st m = (.error unsupportedClass, m)) := by
  have hat : classes.atIndex index = .ok (classes.eightbyte index) := by
    match index with
    | 0 => rfl
    | 1 => rfl
    | _ + 2 => omega
  have hfirst : (ofExcept (classes.atIndex index) : Debugger ParameterClass) m =
      (.ok (classes.eightbyte index), m) := by
    rw [ofExcept_apply, hat]
  have hcommit : ∀ reg : RegisterId, reg ∈ callRegisters →
      ∃ m', Debugger.commitRegister tid reg (eightbyteAt data index) m = (.ok ⟨⟩, m') ∧
        Writable tid m' :=
    fun reg hreg => h.commitRegister reg hreg (eightbyteAt_isWord data index)
  rw [Debugger.placeEightbyte, bind_of_ok hfirst]
  cases hcls : classes.eightbyte index with
  | noClass => exact .inl ⟨st, m, rfl, h⟩
  | integer =>
      rw [hcls] at hroom
      cases hpool : intRegs[st.currentIntReg]? with
      | none =>
          have hempty := List.drop_eq_nil_of_le (List.getElem?_eq_none_iff.mp hpool)
          exact absurd (hst.integer.trans hempty) (hroom (.inl rfl))
      | some reg =>
          obtain ⟨m', hrun, hlast⟩ := hcommit reg (List.mem_append_left _
            (List.mem_append_left _ (List.mem_of_getElem? hpool)))
          have hreg : (ofExcept (inBounds (some reg)) : Debugger RegisterId) m =
              (.ok reg, m) := rfl
          refine .inl ⟨{ st with currentIntReg := st.currentIntReg + 1 }, m', ?_, hlast⟩
          exact (bind_of_ok hreg _).trans (bind_of_ok hrun _)
  | sse =>
      rw [hcls] at hroom
      cases hpool : sseRegs[st.currentSseReg]? with
      | none =>
          have hempty := List.drop_eq_nil_of_le (List.getElem?_eq_none_iff.mp hpool)
          exact absurd (hst.sse.trans hempty) (hroom (.inr rfl))
      | some reg =>
          obtain ⟨m', hrun, hlast⟩ := hcommit reg (List.mem_append_left _
            (List.mem_append_right _ (List.mem_of_getElem? hpool)))
          have hreg : (ofExcept (inBounds (some reg)) : Debugger RegisterId) m =
              (.ok reg, m) := rfl
          refine .inl ⟨{ st with currentSseReg := st.currentSseReg + 1 }, m', ?_, hlast⟩
          exact (bind_of_ok hreg _).trans (bind_of_ok hrun _)
  | sseup => exact .inr ⟨by simp, hst.other _ (by simp) (by simp), rfl⟩
  | x87 => exact .inr ⟨by simp, hst.other _ (by simp) (by simp), rfl⟩
  | x87up => exact .inr ⟨by simp, hst.other _ (by simp) (by simp), rfl⟩
  | complexX87 => exact .inr ⟨by simp, hst.other _ (by simp) (by simp), rfl⟩
  | memory => exact .inr ⟨by simp, hst.other _ (by simp) (by simp), rfl⟩

/-- The eightbytes of an argument are placed, or the registers do not suffice for them,
one of them being of another class. -/
theorem Writable.placeEightbytes {indices : List Nat} (h : Writable tid m)
    (data : List Byte) (hst : CountersAt st pools) (hindices : ∀ index ∈ indices, index ≤ 1)
    (hroom : ∀ cls, cls = .integer ∨ cls = .sse →
      ((classes.eightbytes indices).map (·.1)).count cls ≤ (pools cls).length) :
    (∃ st' m', placeEightbytes tid classes data indices st m = (.ok st', m') ∧
        Writable tid m') ∨
      (¬ Suffices pools ((classes.eightbytes indices).map (·.1)) ∧
        ∃ m', placeEightbytes tid classes data indices st m = (.error unsupportedClass, m')) := by
  induction indices generalizing st m pools with
  | nil => exact .inl ⟨st, m, rfl, h⟩
  | cons index rest ih =>
      rw [eightbytes_cons] at hroom ⊢
      have hfirstRoom : classes.eightbyte index = .integer ∨ classes.eightbyte index = .sse →
          pools (classes.eightbyte index) ≠ [] := by
        intro hcls hnil
        have hcount := hroom _ hcls
        have hsome : classes.eightbyte index ≠ .noClass := by
          rcases hcls with heq | heq <;> rw [heq] <;> decide
        rw [if_neg hsome, hnil] at hcount
        simp at hcount
      rcases h.placeEightbyte data hst (hindices index List.mem_cons_self) hfirstRoom with
        ⟨middle, m₁, hrun, h₁⟩ | ⟨hsome, hempty, hrun⟩
      · have hrestIndices : ∀ index ∈ rest, index ≤ 1 :=
          fun index hindex => hindices index (List.mem_cons_of_mem _ hindex)
        have hsplit : Debugger.placeEightbytes tid classes data (index :: rest) st m =
            Debugger.placeEightbytes tid classes data rest middle m₁ := bind_of_ok hrun _
        rw [hsplit]
        rcases placeEightbyte_eq_ok hst hrun with
          ⟨hnone, rfl, rfl⟩ | ⟨reg, left, hsome, hpool, -, hmiddle, -⟩
        · rw [if_pos hnone] at hroom ⊢
          exact ih h₁ hst hrestIndices hroom
        rw [if_neg hsome] at hroom ⊢
        have hlater : ∀ cls, cls = .integer ∨ cls = .sse →
            ((classes.eightbytes rest).map (·.1)).count cls ≤
              (Function.update pools (classes.eightbyte index) left cls).length := by
          intro cls hcls
          have hcount := hroom cls hcls
          rw [List.map_cons] at hcount
          by_cases heq : cls = classes.eightbyte index
          · subst heq
            rw [Function.update_self]
            rw [hpool, List.count_cons_self, List.length_cons] at hcount
            omega
          · rw [Function.update_of_ne heq]
            rwa [List.count_cons_of_ne (Ne.symm heq)] at hcount
        rcases ih h₁ hmiddle hrestIndices hlater with hok | ⟨hno, hfailed⟩
        · exact .inl hok
        refine .inr ⟨fun hall => hno fun cls => ?_, hfailed⟩
        have hcount := hall cls
        rw [List.map_cons] at hcount
        by_cases heq : cls = classes.eightbyte index
        · subst heq
          rw [Function.update_self]
          rw [hpool, List.count_cons_self, List.length_cons] at hcount
          omega
        · rw [Function.update_of_ne heq]
          rwa [List.count_cons_of_ne (Ne.symm heq)] at hcount
      · refine .inr ⟨fun hall => ?_, m, bind_of_error hrun _⟩
        have hcount := hall (classes.eightbyte index)
        rw [if_neg hsome, hempty] at hcount
        simp at hcount

/-- The arguments are placed, or no allocation exists. -/
theorem Writable.placeArguments {params : List Ty} {args : List TypedData}
    (h : Writable tid m) (hst : CountersAt st pools) (hargs : Computable params args) :
    (∃ st' m', placeArguments tid params args st m = (.ok st', m') ∧ Writable tid m') ∨
      ((¬ ∃ placements left, Allocates pools (params.map Ty.demand) placements left) ∧
        ∃ m', placeArguments tid params args st m = (.error unsupportedClass, m')) := by
  induction params generalizing args st m pools with
  | nil => exact .inl ⟨st, m, rfl, h⟩
  | cons param params ih =>
      cases args with
      | nil => exact absurd hargs.arguments (by simp)
      | cons arg args =>
          obtain ⟨classes, hclasses⟩ := hargs.classes param List.mem_cons_self
          have hfirst : (ofExcept param.getParameterClasses : Debugger ParameterClasses) m =
              (.ok classes, m) := by
            rw [ofExcept_apply, hclasses]
          obtain rfl := Ty.classes_eq hclasses
          have htest := hst.apart_iff param
          have hsplit : ∀ {middle m₁}, placeArgument tid param arg st m = (.ok middle, m₁) →
              Debugger.placeArguments tid (param :: params) (arg :: args) st m =
                Debugger.placeArguments tid params args middle m₁ :=
            fun hrun => bind_of_ok hrun _
          by_cases hapart : intRegs.length < st.currentIntReg + param.classes.count .integer ∨
              sseRegs.length < st.currentSseReg + param.classes.count .sse ∨
              (param.classes.count .integer = 0 ∧ param.classes.count .sse = 0)
          · have hrun : placeArgument tid param arg st m =
                (.ok { st with stackArgs := st.stackArgs ++ [(arg, slotSize param)] }, m) := by
              rw [Debugger.placeArgument, bind_of_ok hfirst, if_pos hapart]
              rfl
            rw [hsplit hrun]
            have hst' : CountersAt
                { st with stackArgs := st.stackArgs ++ [(arg, slotSize param)] } pools :=
              ⟨hst.integer, hst.sse, hst.other, hst.ints, hst.sses⟩
            rcases ih h hst' hargs.tail with hok | ⟨hno, hfailed⟩
            · exact .inl hok
            refine .inr ⟨?_, hfailed⟩
            rintro ⟨placements, left, halloc⟩
            cases halloc with
            | apart _ hrest => exact hno ⟨_, _, hrest⟩
            | among hsome hsuffices _ _ =>
                rcases htest.mp hapart with hnil | hnot
                · exact hsome hnil
                · exact hnot hsuffices
          · have hreserve : ¬ (param.demand.reserved = [] ∨
                ¬ Suffices pools param.demand.reserved) := fun h => hapart (htest.mpr h)
            rw [not_or, not_not] at hreserve
            have hsize := byteSize_le_of_reserved (hargs.references param List.mem_cons_self)
              hclasses fun hnone => hapart (.inr (.inr hnone))
            have hindices : ∀ index ∈ List.range ((param.byteSize + 7) / 8), index ≤ 1 := by
              intro index hindex
              have := List.mem_range.mp hindex
              omega
            have hroom : ∀ cls, cls = .integer ∨ cls = .sse →
                (param.eightbytes.map (·.1)).count cls ≤ (pools cls).length :=
              fun cls hcls => Nat.le_trans (count_taken_le hsize hcls) (hreserve.2 cls)
            have hplace : placeArgument tid param arg st m = Debugger.placeEightbytes tid
                param.classes arg.data (List.range ((param.byteSize + 7) / 8)) st m := by
              rw [Debugger.placeArgument, bind_of_ok hfirst, if_neg hapart]
            rcases h.placeEightbytes arg.data hst hindices hroom with
              ⟨middle, m₁, hrun, h₁⟩ | ⟨hno, m₁, hrun⟩
            · rw [hsplit (hplace.trans hrun)]
              obtain ⟨taken, middlePools, htakes, hmiddle, -⟩ := placeEightbytes_eq_ok hst hrun
              rcases ih h₁ hmiddle hargs.tail with hok | ⟨hnone, hfailed⟩
              · exact .inl hok
              refine .inr ⟨?_, hfailed⟩
              rintro ⟨placements, left, halloc⟩
              cases halloc with
              | apart hapart' _ => exact hapart (htest.mpr hapart')
              | among _ _ htakes' hrest =>
                  obtain ⟨-, rfl⟩ := htakes.unique htakes'
                  exact hnone ⟨_, _, hrest⟩
            · refine .inr ⟨?_, m₁, bind_of_error (hplace.trans hrun) _⟩
              rintro ⟨placements, left, halloc⟩
              cases halloc with
              | apart hapart' _ => exact hapart (htest.mpr hapart')
              | among _ _ htakes _ => exact hno htakes.suffices

end Refusal

/-- `setup_arguments` allocates the registers and writes the others on the stack.  With
parameters and a thread that can be set up it returns exactly if every parameter that
finds enough registers has classes only that go into registers, and refuses otherwise. -/
theorem setupArguments_allocates (tid : Tid) (func : Function) (args : List TypedData)
    (returnSlot : Option Word) (m : Machine) :
    (∀ u m', setupArguments tid func args returnSlot m = (.ok u, m') →
      ∃ rsp placements left, m.StackPointerAt tid rsp ∧
        ArgumentsPassed tid func args returnSlot rsp placements left m m') ∧
    (Writable tid m → (∃ rsp, m.StackPointerAt tid rsp) →
      Computable func.parameterTypes args → Returnable func.returnType returnSlot →
      (Allocatable func ∧ ∃ m', setupArguments tid func args returnSlot m = (.ok ⟨⟩, m')) ∨
        (¬ Allocatable func ∧
          ∃ m', setupArguments tid func args returnSlot m = (.error unsupportedClass, m'))) := by
  refine ⟨fun u m' h => setupArguments_eq_ok h, ?_⟩
  rintro hwritable ⟨rsp, thread, hthread, hread⟩ hargs hreturn
  have hregs : regsAt tid m = (.ok thread.regs, m) := by
    unfold regsAt
    rw [asks_apply, hthread]
  have hrsp : (ofExcept (thread.regs.readU64 .rsp) : Debugger Word) m = (.ok rsp, m) := by
    rw [ofExcept_apply, hread]
  obtain ⟨k, m₁, hslot, h₁⟩ := hwritable.passReturnSlot hreturn
  obtain ⟨⟨passed, below⟩, m₂, hpassed, h₂⟩ := h₁.passReferences hargs rsp
  obtain ⟨rfl, rfl, -⟩ := passReferences_eq_ok hpassed
  have hstart := argumentPools_counters func.returnType (passReturnSlot_eq_ok hslot).1
  have hpassedArgs : Computable func.parameterTypes
      (passedArguments func.parameterTypes args rsp) :=
    ⟨hargs.classes, hargs.references, by
      rw [passedArguments_length]
      exact hargs.arguments, passedArguments_length_le hargs.data⟩
  rcases h₂.placeArguments hstart hpassedArgs with ⟨st, m₃, hplaced, h₃⟩ | ⟨hno, m₃, hplaced⟩
  · obtain ⟨placements, left, halloc, -, hstack, -⟩ := placeArguments_eq_ok hstart hplaced
    rw [List.nil_append] at hstack
    have hfits : ∀ arg ∈ st.stackArgs, arg.1.data.length ≤ 2 ^ 64 := by
      intro arg harg
      rw [hstack] at harg
      exact passedArguments_length_le hargs.data _ (stackArguments_mem harg)
    obtain ⟨m₄, hwritten, h₄⟩ := h₃.writeStackArgs hfits (argumentBase st.stackArgs
      (belowCopies func.parameterTypes args rsp))
    obtain ⟨m₅, hrax, h₅⟩ := h₄.commitRegister .rax (by decide)
      (Value.isWord_u64 (BitVec.ofNat 64 st.currentSseReg))
    obtain ⟨m₆, hlast, -⟩ := h₅.commitRegister .rsp (by decide)
      (Value.isWord_u64 (argumentBase st.stackArgs (belowCopies func.parameterTypes args rsp)))
    refine .inl ⟨⟨placements, left, halloc⟩, m₆, ?_⟩
    rw [setupArguments, bind_of_ok hregs, bind_of_ok hrsp, bind_of_ok hslot, bind_of_ok hpassed]
    refine (bind_of_ok hplaced _).trans ?_
    exact (bind_of_ok hwritten _).trans ((bind_of_ok hrax _).trans hlast)
  · refine .inr ⟨hno, m₃, ?_⟩
    rw [setupArguments, bind_of_ok hregs, bind_of_ok hrsp, bind_of_ok hslot, bind_of_ok hpassed]
    exact bind_of_error hplaced _

namespace AllocationWitness

/-- `union U { long double l; struct { long : 64; long b; } s; };` -/
def mixed : Ty :=
  .cls .union_ "U" (some 16)
    (.member (.base "long double" .float 16)
      ⟨"l", false, some 0, none, none, none, none, none⟩
    (.member (.cls .structure_ none (some 16) (.member (.base "long" .signed 8)
        ⟨"b", false, some 8, none, none, none, none, none⟩ .nil))
      ⟨"s", false, some 0, none, none, none, none, none⟩ .nil))

/-- `void f(U);` -/
def takesMixed : Function := ⟨[mixed], none, none, none, none⟩

def argument : TypedData := ⟨List.replicate 16 0, .dwarf mixed, none⟩

/-- One stopped thread over zeroed memory. -/
def machine : Machine :=
  let rest := Machine.atRest fun _ => 0
  { rest with process := { rest.process with
      threads := [(1, ⟨⟨fun _ => 0, [], 0⟩, ⟨1, .stopped, 0, none, none⟩, .stopped, false⟩)] } }

end AllocationWitness

open AllocationWitness in
/-- A long double that shares its storage with a structure is not passed at all. -/
theorem mixed_not_passed :
    mixed.getParameterClasses = .ok ⟨.x87, .integer⟩ ∧
      ¬ ∀ (tid : Tid) (func : Function) (args : List TypedData) (m : Machine),
        Writable tid m → (∃ rsp, m.StackPointerAt tid rsp) →
        Computable func.parameterTypes args → Returnable func.returnType none →
        ∃ m', setupArguments tid func args none m = (.ok ⟨⟩, m') := by
  refine ⟨by decide +kernel, fun hall => ?_⟩
  have hclasses : mixed.getParameterClasses = .ok ⟨.x87, .integer⟩ := by decide +kernel
  have hrefused : (setupArguments 1 takesMixed [argument] none machine).1.toOption = none := by
    decide +kernel
  have hreferences : ∀ param ∈ takesMixed.parameterTypes,
      param.isReferenceType = true → param.byteSize = 8 := by
    intro param hparam href
    obtain rfl : param = mixed := by simpa [takesMixed] using hparam
    cases href
  obtain ⟨m', hrun⟩ := hall 1 takesMixed [argument] machine
    ⟨⟨_, rfl⟩, rfl, rfl, fun _ => rfl, by decide⟩ ⟨0, _, rfl, by decide +kernel⟩
    ⟨by simp [takesMixed, hclasses], hreferences, Nat.le_refl 1, by simp [argument]⟩
    ⟨by simp [takesMixed], by simp [returnsInMemory, takesMixed]⟩
  rw [hrun] at hrefused
  cases hrefused

end Gsdb
