/-
Whether unwinding ends.  A round of the loop depends on the registers and the
program counter alone, and there are finitely many of them; so the loop ends
unless the chain of callers in the inferior's memory closes.
-/
import Gsdb.PartialOrbit
import Gsdb.StackFrames
import Mathlib.Data.Finite.Prod

namespace Gsdb

open ByteMemory ByteCursor PartialOrbit

/-- `sizeof(user)`. -/
def userSize : Nat := 912

/-- What can be read of a set of registers: the bytes of the user area, which
registers are undefined, and the CFA. -/
abbrev RegisterView := (Fin userSize → Byte) × (Fin userSize → Bool) × Word

def Registers.view (regs : Registers) : RegisterView :=
  (fun i => regs.data i, fun i => regs.undefinedOffsets.contains i.val, regs.cfa)

/-- The loop of `stack::unwind` as a step from a frame to its caller: registers
and program counter. -/
def StackEnv.callerOf (env : StackEnv) (m : Machine) (state : Registers × Word) :
    Option (Registers × Word) :=
  match env.unwindRound m state.1 state.2 with
  | .done _ _ => none
  | .next _ regs virtPc => some (regs, virtPc)

/-- Following the callers leads to the same registers and program counter twice. -/
def StackEnv.CallersClose (env : StackEnv) (m : Machine) (regs : Registers) (virtPc : Word) :
    Prop :=
  Recurs (env.callerOf m) (fun state => (state.1.view, state.2)) (regs, virtPc)

/-- Two computations that go on in the same way from results that look the
same. -/
theorem map_bind_congr {ε α β γ δ : Type} {x y : Except ε α} {f g : α → Except ε β} {u : α → γ}
    {v : β → δ} (h : x.map u = y.map u)
    (hnext : ∀ a b, u a = u b → (f a).map v = (g b).map v) :
    (x >>= f).map v = (y >>= g).map v := by
  cases x with
  | error e =>
      cases y with
      | error e' => exact congrArg Except.error (Except.error.inj h)
      | ok b => cases h
  | ok a =>
      cases y with
      | error e' => cases h
      | ok b => exact hnext a b (Except.ok.inj h)

section Views

variable {regs regs' : Registers} {info : RegisterInfo}

theorem registers_inside : ∀ info ∈ registerInfos,
    info.offset / 2 < userSize ∧ info.offset + info.size ≤ userSize ∧
      (info.format = .uint ∨ info.offset + 16 ≤ userSize) := by
  decide +kernel

theorem view_data (h : regs.view = regs'.view) {i : Nat} (hi : i < userSize) :
    regs.data i = regs'.data i :=
  congrFun (congrArg Prod.fst h) ⟨i, hi⟩

theorem view_undefined (h : regs.view = regs'.view) {i : Nat} (hi : i < userSize) :
    regs.undefinedOffsets.contains i = regs'.undefinedOffsets.contains i :=
  congrFun (congrArg (fun view => view.2.1) h) ⟨i, hi⟩

theorem view_cfa (h : regs.view = regs'.view) : regs.cfa = regs'.cfa :=
  congrArg (fun view => view.2.2) h

theorem view_ext (hdata : ∀ i < userSize, regs.data i = regs'.data i)
    (hundefined : ∀ i < userSize,
      regs.undefinedOffsets.contains i = regs'.undefinedOffsets.contains i)
    (hcfa : regs.cfa = regs'.cfa) : regs.view = regs'.view := by
  refine Prod.ext (funext fun i => hdata i i.isLt) (Prod.ext (funext fun i => ?_) hcfa)
  exact hundefined i i.isLt

theorem view_word (h : regs.view = regs'.view) {w offset : Nat}
    (hinside : offset + w / 8 ≤ userSize) :
    Registers.word regs.data w offset = Registers.word regs'.data w offset := by
  rw [Registers.word, Registers.word, Area.read_congr fun i _ hi => view_data h (by omega)]

/-- A register reads the same in two sets of registers that look the same. -/
theorem view_read (h : regs.view = regs'.view) (hinfo : info ∈ registerInfos) :
    regs.read info = regs'.read info := by
  obtain ⟨hhalf, hsized, hinside⟩ := registers_inside info hinfo
  have hundefined : regs.isUndefined info = regs'.isUndefined info := view_undefined h hhalf
  rw [Registers.read, Registers.read, hundefined]
  cases hformat : info.format with
  | uint =>
      have hbytes : ∀ w, w / 8 = info.size →
          Registers.word regs.data w info.offset = Registers.word regs'.data w info.offset :=
        fun w hw => view_word h (by omega)
      simp only
      split
      · rfl
      · split
        · rename_i hsize
          rw [hbytes 8 hsize.symm]
        · rename_i hsize
          rw [hbytes 16 hsize.symm]
        · rename_i hsize
          rw [hbytes 32 hsize.symm]
        · rename_i hsize
          rw [hbytes 64 hsize.symm]
        · rfl
  | doubleFloat => rfl
  | longDouble =>
      rw [hformat] at hinside
      simp only [reduceCtorEq, false_or] at hinside
      rw [view_word h (show info.offset + 128 / 8 ≤ userSize by omega)]
  | vector =>
      rw [hformat] at hinside
      simp only [reduceCtorEq, false_or] at hinside
      rw [view_word h (show info.offset + 128 / 8 ≤ userSize by omega),
        view_word h (show info.offset + 64 / 8 ≤ userSize by omega)]

theorem view_writeData (h : regs.view = regs'.view) (info : RegisterInfo) (value : Value) :
    (regs.writeData info value).map Registers.view =
      (regs'.writeData info value).map Registers.view := by
  have hcfa := view_cfa h
  rw [Registers.writeData, Registers.writeData]
  split
  · refine congrArg Except.ok (view_ext (fun i hi => ?_) (fun i hi => view_undefined h hi) hcfa)
    exact Area.write_congr (view_data h hi) _ _
  · rfl

theorem view_undefine (h : regs.view = regs'.view) (info : RegisterInfo) :
    (regs.undefine info).view = (regs'.undefine info).view := by
  have hcfa := view_cfa h
  refine view_ext (fun i hi => view_data h hi) (fun i hi => ?_) hcfa
  simp only [Registers.undefine, List.contains_append, view_undefined h hi]

theorem view_setCfa (h : regs.view = regs'.view) (cfa : Word) :
    Registers.view { regs with cfa := cfa } = Registers.view { regs' with cfa := cfa } :=
  view_ext (fun _ hi => view_data h hi) (fun _ hi => view_undefined h hi) rfl

theorem view_readU64 (h : regs.view = regs'.view) (id : RegisterId) :
    regs.readU64 id = regs'.readU64 id := by
  rw [Registers.readU64, Registers.readU64]
  cases hinfo : registerInfoById id with
  | error failure => rfl
  | ok info => rw [ok_bind, ok_bind, view_read h (registerInfoBy_mem hinfo)]

theorem view_dwarfRegister {ctx : EvalContext} (h : ctx.regs.view = regs'.view) (reg : Word) :
    EvalContext.dwarfRegister { ctx with regs := regs' } reg = ctx.dwarfRegister reg := by
  rw [EvalContext.dwarfRegister, EvalContext.dwarfRegister]
  cases hinfo : registerInfoByDwarf (reg.setWidth 32).toInt with
  | error failure => rfl
  | ok info => rw [ok_bind, ok_bind, view_read h (registerInfoBy_mem hinfo)]

/-- An operation of an expression sees the registers through their view. -/
theorem view_executeDwOp {ctx : EvalContext} (h : ctx.regs.view = regs'.view) (st : EvalState)
    (op : DwOp) : executeDwOp { ctx with regs := regs' } st op = executeDwOp ctx st op := by
  have hcfa := view_cfa h
  cases op <;> simp only [executeDwOp, view_dwarfRegister h, hcfa]

theorem view_evalExpression {ctx : EvalContext} (h : ctx.regs.view = regs'.view) (rounds : Nat)
    (st : EvalState) :
    evalExpression { ctx with regs := regs' } rounds st = evalExpression ctx rounds st := by
  induction rounds generalizing st with
  | zero => rfl
  | succ rounds ih =>
      simp only [evalExpression, evalStep, view_executeDwOp h, ih]

end Views

section Unwinding

variable {env : UnwindEnv} {file : Elf} {regs regs' : Registers}

theorem view_evalNested (h : regs.view = regs'.view) (depth : Nat) (expr : List Byte)
    (pushCfa : Bool) :
    env.evalNested file regs depth expr pushCfa =
      env.evalNested file regs' depth expr pushCfa := by
  induction depth generalizing expr pushCfa with
  | zero => rfl
  | succ depth ih =>
      rw [UnwindEnv.evalNested, UnwindEnv.evalNested, view_readU64 h]
      refine bind_congr fun pc => ?_
      simp only [ih, EvalState.start, view_cfa h]
      exact (view_evalExpression h _ _).symm

theorem view_evalAddress (h : regs.view = regs'.view) (expr : List Byte) (pushCfa : Bool) :
    env.evalAddress file regs expr pushCfa = env.evalAddress file regs' expr pushCfa := by
  rw [UnwindEnv.evalAddress, UnwindEnv.evalAddress, view_evalNested h]

theorem view_cfaOf (h : regs.view = regs'.view) (rule : CfaRule) :
    env.cfaOf file regs rule = env.cfaOf file regs' rule := by
  cases rule with
  | register reg offset =>
      rw [UnwindEnv.cfaOf, UnwindEnv.cfaOf]
      cases hinfo : registerInfoByDwarf reg.toInt with
      | error failure => rfl
      | ok info => rw [ok_bind, ok_bind, view_read h (registerInfoBy_mem hinfo)]
  | expr bytes => exact view_evalAddress h bytes false

theorem view_ruleValue (h : regs.view = regs'.view) (cfa : Word) (rule : RegisterRule) :
    env.ruleValue file regs cfa rule = env.ruleValue file regs' cfa rule := by
  cases rule with
  | undefined => rfl
  | same => rfl
  | offset offset => rfl
  | valOffset offset => rfl
  | register reg =>
      rw [UnwindEnv.ruleValue, UnwindEnv.ruleValue]
      cases hinfo : registerInfoByDwarf reg.toInt with
      | error failure => rfl
      | ok info => rw [ok_bind, ok_bind, view_read h (registerInfoBy_mem hinfo)]
  | expr bytes => rw [UnwindEnv.ruleValue, UnwindEnv.ruleValue, view_evalAddress h]
  | valExpr bytes => rw [UnwindEnv.ruleValue, UnwindEnv.ruleValue, view_evalAddress h]

theorem view_executeRule {unwound unwound' : Registers} (h : regs.view = regs'.view)
    (hunwound : unwound.view = unwound'.view) (cfa : Word) (reg : BitVec 32)
    (rule : RegisterRule) :
    (env.executeRule file regs cfa unwound reg rule).map Registers.view =
      (env.executeRule file regs' cfa unwound' reg rule).map Registers.view := by
  rw [UnwindEnv.executeRule, UnwindEnv.executeRule, view_ruleValue h]
  cases hinfo : registerInfoByDwarf reg.toInt with
  | error failure => rfl
  | ok info =>
      rw [ok_bind, ok_bind]
      split
      · exact congrArg Except.ok (view_undefine hunwound info)
      · cases hvalue : env.ruleValue file regs' cfa rule with
        | error failure => rfl
        | ok value =>
            cases value with
            | none => exact congrArg Except.ok hunwound
            | some value => exact view_writeData hunwound info value

theorem view_executeRules {unwound unwound' : Registers} (h : regs.view = regs'.view)
    (hunwound : unwound.view = unwound'.view) (cfa : Word)
    (rules : List (BitVec 32 × RegisterRule)) :
    (env.executeRules file regs cfa rules unwound).map Registers.view =
      (env.executeRules file regs' cfa rules unwound').map Registers.view := by
  induction rules generalizing unwound unwound' with
  | nil => exact congrArg Except.ok hunwound
  | cons rule rest ih =>
      rw [UnwindEnv.executeRules, UnwindEnv.executeRules]
      exact map_bind_congr (view_executeRule h hunwound cfa rule.1 rule.2) fun _ _ hnext =>
        ih hnext

theorem view_executeUnwindRules (h : regs.view = regs'.view) (ctx : UnwindContext) :
    (env.executeUnwindRules file ctx regs).2.map Registers.view =
      (env.executeUnwindRules file ctx regs').2.map Registers.view := by
  rw [UnwindEnv.executeUnwindRules, UnwindEnv.executeUnwindRules, view_cfaOf h]
  cases hcfa : env.cfaOf file regs' ctx.cfaRule with
  | error failure => rfl
  | ok cfa =>
      refine map_bind_congr (u := id) rfl fun rsp rsp' hrsp => ?_
      obtain rfl : rsp = rsp' := hrsp
      exact map_bind_congr (view_writeData h rsp (.u64 cfa)) fun _ _ hwritten =>
        view_executeRules (view_setCfa h cfa) hwritten cfa _

/-- The registers of the caller, as far as they can be read, depend on what can
be read of the registers of the frame. -/
theorem view_unwind (h : regs.view = regs'.view) (pc : FileAddr) :
    (env.unwind pc regs).2.map Registers.view = (env.unwind pc regs').2.map Registers.view := by
  rw [UnwindEnv.unwind, UnwindEnv.unwind]
  split
  · rfl
  split
  · rfl
  · exact view_executeUnwindRules h _

end Unwinding

section Callers

variable {env : StackEnv} {m : Machine} {regs regs' : Registers} {virtPc : Word}

theorem createInlineStackFrames_result (regs regs' : Registers) (dies : List Die) :
    (env.createInlineStackFrames regs dies).2 = (env.createInlineStackFrames regs' dies).2 := by
  induction dies with
  | nil => rfl
  | cons inner rest ih =>
      cases rest with
      | nil => rfl
      | cons die rest =>
          rw [StackEnv.createInlineStackFrames, StackEnv.createInlineStackFrames]
          split
          · rfl
          · exact ih

/-- Whether frames can be created does not depend on the registers. -/
theorem createFrames_result (regs regs' : Registers) (pc : FileAddr) (inner : Die)
    (outer : List Die) :
    (env.createFrames regs pc inner outer).2 = (env.createFrames regs' pc inner outer).2 := by
  have hbase : (env.createBaseFrame regs inner pc (outer ≠ [])).map (fun _ => ()) =
      (env.createBaseFrame regs' inner pc (outer ≠ [])).map (fun _ => ()) := by
    rw [StackEnv.createBaseFrame, StackEnv.createBaseFrame]
    refine map_bind_congr (u := id) rfl fun _ _ _ => ?_
    refine map_bind_congr (u := id) rfl fun row row' hrow => ?_
    obtain rfl : row = row' := hrow
    cases row with
    | none => rfl
    | some row => exact map_bind_congr (u := id) rfl fun _ _ _ => rfl
  rw [StackEnv.createFrames, StackEnv.createFrames]
  cases hleft : env.createBaseFrame regs inner pc (outer ≠ []) with
  | error failure =>
      cases hright : env.createBaseFrame regs' inner pc (outer ≠ []) with
      | error failure' =>
          rw [hleft, hright] at hbase
          exact congrArg Except.error (Except.error.inj hbase)
      | ok base' =>
          rw [hleft, hright] at hbase
          cases hbase
  | ok base =>
      cases hright : env.createBaseFrame regs' inner pc (outer ≠ []) with
      | error failure' =>
          rw [hleft, hright] at hbase
          cases hbase
      | ok base' => exact createInlineStackFrames_result regs regs' _

/-- The caller of a physical frame whose frames were created. -/
theorem callerOf_created {physical : PhysicalFrame} :
    (match env.unwindCaller m physical with
      | .done _ _ => none
      | .next _ regs virtPc => some (regs, virtPc)) =
    ((do
      let regs ← ((env.unwindEnv m).unwind physical.pc physical.regs).2
      let rip ← regs.readU64 .rip
      pure (regs, rip - 1)) : Except Failure (Registers × Word)).toOption := by
  rw [StackEnv.unwindCaller]
  cases hunwind : ((env.unwindEnv m).unwind physical.pc physical.regs).2 with
  | error failure => simp [hunwind, Except.toOption]
  | ok caller =>
      cases hrip : caller.readU64 .rip with
      | error failure => simp [hunwind, hrip, Except.toOption]
      | ok rip => simp [hunwind, hrip, Except.toOption, pure, Except.pure]

theorem toOption_map {α β : Type} (x : Except Failure α) (f : α → β) :
    x.toOption.map f = (x.map f).toOption := by
  cases x <;> rfl

/-- The caller depends on the registers as far as they can be read, and on the
program counter. -/
theorem callerOf_respects (env : StackEnv) (m : Machine) :
    RespectsView (env.callerOf m) fun state => (state.1.view, state.2) := by
  rintro ⟨regs, virtPc⟩ ⟨regs', virtPc'⟩ hview
  have hregs : regs.view = regs'.view := congrArg Prod.fst hview
  obtain rfl : virtPc = virtPc' := congrArg Prod.snd hview
  simp only [StackEnv.callerOf, StackEnv.unwindRound]
  by_cases hstop : virtPc = 0 ∨ (toFileAddr env.elves virtPc).elf = none
  · simp only [if_pos hstop]
  simp only [if_neg hstop]
  cases hstack : env.inlineStackAtAddress (toFileAddr env.elves virtPc) with
  | error failure => rfl
  | ok inlineStack =>
      cases hreverse : inlineStack.reverse with
      | nil => simp only [hreverse]
      | cons inner outer =>
          have hresult := @createFrames_result env regs regs' (toFileAddr env.elves virtPc) inner
            outer
          simp only [hreverse, hresult]
          cases hcreated : (env.createFrames regs' (toFileAddr env.elves virtPc) inner outer).2 with
          | error failure => rfl
          | ok created =>
              simp only [callerOf_created, toOption_map]
              refine congrArg Except.toOption ?_
              refine map_bind_congr (view_unwind hregs _) fun caller caller' hcaller => ?_
              rw [view_readU64 hcaller]
              refine map_bind_congr (u := id) rfl fun rip rip' hrip => ?_
              obtain rfl : rip = rip' := hrip
              exact congrArg Except.ok (Prod.ext hcaller rfl)

/-- The loop goes through as many rounds as there are callers to follow. -/
theorem unwindLoop_length (h : ¬ Halts (env.callerOf m) (regs, virtPc)) (rounds : Nat) :
    (env.unwindLoop m rounds regs virtPc).1.length = rounds := by
  induction rounds generalizing regs virtPc with
  | zero => rfl
  | succ rounds ih =>
      rw [StackEnv.unwindLoop]
      cases hround : env.unwindRound m regs virtPc with
      | done created result =>
          refine absurd ⟨1, ?_⟩ h
          simp only [orbit, Option.bind_some, StackEnv.callerOf, hround]
      | next created caller callerPc =>
          have hcaller : env.callerOf m (regs, virtPc) = some (caller, callerPc) := by
            simp only [StackEnv.callerOf, hround]
          have hrest := ih fun hhalts => h ((halts_iff_of_next hcaller).mpr hhalts)
          simp only [List.length_cons, hrest]

/-- Once there is no caller left, more rounds change nothing. -/
theorem unwindLoop_stable {n : Nat} (h : orbit (env.callerOf m) (regs, virtPc) n = none) :
    ∀ rounds ≥ n, env.unwindLoop m rounds regs virtPc = env.unwindLoop m n regs virtPc := by
  induction n generalizing regs virtPc with
  | zero => cases h
  | succ n ih =>
      intro rounds hrounds
      obtain ⟨rounds, rfl⟩ : ∃ k, rounds = k + 1 := ⟨rounds - 1, by omega⟩
      rw [StackEnv.unwindLoop, StackEnv.unwindLoop]
      cases hround : env.unwindRound m regs virtPc with
      | done created result => rfl
      | next created caller callerPc =>
          have hcaller : env.callerOf m (regs, virtPc) = some (caller, callerPc) := by
            simp only [StackEnv.callerOf, hround]
          rw [orbit_succ hcaller] at h
          simp only [ih h rounds (by omega)]

/-- The loop ends exactly if the callers do. -/
theorem unwindLoop_ends_iff :
    (∃ n, ∀ rounds ≥ n, env.unwindLoop m rounds regs virtPc = env.unwindLoop m n regs virtPc) ↔
      Halts (env.callerOf m) (regs, virtPc) := by
  constructor
  · rintro ⟨n, hstable⟩
    by_contra hhalts
    have hmore := congrArg (fun out => out.1.length) (hstable (n + 1) (Nat.le_succ n))
    simp only [unwindLoop_length hhalts] at hmore
    omega
  · rintro ⟨n, hn⟩
    exact ⟨n, unwindLoop_stable hn⟩

end Callers

instance finite_bitVec (w : Nat) : Finite (BitVec w) :=
  Finite.of_injective BitVec.toFin fun _ _ h => BitVec.eq_of_toFin_eq h

/-- Unwinding a thread ends exactly if the callers do. -/
theorem physicalFrames_ends_iff {env : StackEnv} {m : Machine} {tid : Tid} {regs : Registers}
    {virtPc : Word} (hregs : m.getRegisters (some tid) = .ok regs)
    (hpc : regs.readU64 .rip = .ok virtPc) :
    (∃ n, ∀ rounds ≥ n,
        Stack.physicalFrames env m tid rounds = Stack.physicalFrames env m tid n) ↔
      Halts (env.callerOf m) (regs, virtPc) := by
  have hvirtPc : m.getPc (some tid) = .ok virtPc := by
    rw [Machine.getPc, hregs, ok_bind, hpc]
  rw [← unwindLoop_ends_iff]
  by_cases hfile : (toFileAddr env.elves virtPc).elf = none
  · have hdone : env.unwindRound m regs virtPc = .done none (.ok ⟨⟩) := by
      simp only [StackEnv.unwindRound, hfile, or_true, if_pos]
    constructor
    · intro _
      refine ⟨1, fun rounds hrounds => ?_⟩
      obtain ⟨rounds, rfl⟩ : ∃ k, rounds = k + 1 := ⟨rounds - 1, by omega⟩
      simp only [StackEnv.unwindLoop, hdone]
    · intro _
      refine ⟨0, fun rounds _ => ?_⟩
      simp only [Stack.physicalFrames, hvirtPc, hregs, ok_bind, if_pos hfile]
  · have hloop : ∀ rounds, Stack.physicalFrames env m tid rounds =
        .ok (env.unwindLoop m rounds regs virtPc) := by
      intro rounds
      simp only [Stack.physicalFrames, hvirtPc, hregs, ok_bind, if_neg hfile]
      rfl
    simp only [hloop, Except.ok.injEq]

/-- Unwinding the stack of a thread ends exactly if the chain of callers does not
close: no two of them have the same registers and program counter. -/
theorem unwind_terminates_iff (env : StackEnv) (m : Machine) (tid : Tid) (regs : Registers)
    (virtPc : Word) (hregs : m.getRegisters (some tid) = .ok regs)
    (hpc : regs.readU64 .rip = .ok virtPc) :
    (∃ n, ∀ rounds ≥ n,
        Stack.physicalFrames env m tid rounds = Stack.physicalFrames env m tid n) ↔
      ¬ env.CallersClose m regs virtPc := by
  rw [physicalFrames_ends_iff hregs hpc, StackEnv.CallersClose]
  exact halts_iff_not_recurs (callerOf_respects env m)

namespace StackTerminationWitness

open StackWitness

section Behind

variable {env : UnwindEnv} {file : Elf} {cfa : Word} {old regs unwound caller callee : Registers}
  {bound i : Nat}

/-- The registers of the rules end below an offset of the user area. -/
def rulesEnd (bound : Nat) (rules : List (BitVec 32 × RegisterRule)) : Bool :=
  rules.all fun rule => (registerInfoByDwarf rule.1.toInt).toOption.all fun info =>
    info.offset + info.size ≤ bound

theorem writeData_behind {info : RegisterInfo} {value : Value}
    (h : regs.writeData info value = .ok unwound) (hi : info.offset + info.size ≤ i) :
    unwound.data i = regs.data i := by
  unfold Registers.writeData at h
  split at h
  · obtain rfl := Except.ok.inj h
    exact Area.write_outside (.inr (by rwa [toLe_length]))
  · cases h

theorem executeRules_behind {rules : List (BitVec 32 × RegisterRule)}
    (h : env.executeRules file old cfa rules regs = .ok unwound)
    (hend : rulesEnd bound rules = true) (hi : bound ≤ i) : unwound.data i = regs.data i := by
  induction rules generalizing regs with
  | nil =>
      obtain rfl := Except.ok.inj h
      rfl
  | cons rule rest ih =>
      obtain ⟨hrule, hrest⟩ := Bool.and_eq_true_iff.mp hend
      obtain ⟨next, hnext, h⟩ := bind_eq_ok.mp h
      refine (ih h hrest).trans ?_
      obtain ⟨info, hinfo, hnext⟩ := bind_eq_ok.mp hnext
      have hbelow : info.offset + info.size ≤ bound := by
        simpa [hinfo, Except.toOption] using hrule
      split at hnext
      · obtain rfl := Except.ok.inj hnext
        rfl
      · obtain ⟨value, -, hnext⟩ := bind_eq_ok.mp hnext
        cases value with
        | none =>
            obtain rfl := Except.ok.inj hnext
            rfl
        | some value => exact writeData_behind hnext (by omega)

/-- Unwinding leaves alone what lies behind the registers of the row. -/
theorem unwind_behind {pc : FileAddr} {position : Nat} {elf : Elf}
    (h : env.unwind pc regs = (callee, .ok caller)) (hfile : pc.elf = some position)
    (helf : env.elves[position]? = some elf)
    (hend : (unwindRow elf (env.ehHdr position) pc.addr).toOption.all (fun ctx =>
      rulesEnd bound (env.enumerate ctx.registerRules)) = true)
    (hrsp : 160 ≤ bound) (hi : bound ≤ i) : caller.data i = regs.data i := by
  simp only [UnwindEnv.unwind, hfile, helf, Option.bind_some, Option.map_some] at h
  cases hrow : unwindRow elf (env.ehHdr position) pc.addr with
  | error failure =>
      rw [hrow] at h
      cases congrArg Prod.snd h
  | ok ctx =>
      simp only [hrow, UnwindEnv.executeUnwindRules] at h
      rw [hrow] at hend
      split at h
      · cases congrArg Prod.snd h
      · obtain ⟨rsp, hinfo, hwritten⟩ := bind_eq_ok.mp (congrArg Prod.snd h)
        obtain ⟨written, hwrite, hrules⟩ := bind_eq_ok.mp hwritten
        obtain rfl : gpr64 .rsp "rsp" 7 152 = rsp := Except.ok.inj hinfo
        rw [executeRules_behind hrules hend hi]
        exact writeData_behind hwrite (show 152 + 8 ≤ i by omega)

end Behind

/-- A saved frame pointer that points to itself, below a return address into the
function. -/
def linkedToItself : Memory 64 :=
  Memory.write (Memory.write (fun _ => 0) 0x7000 (toLe 8 0x7000)) 0x7008 (toLe 8 0x1008)

def corrupted : Machine := stoppedAt linkedToItself 0x1004 0x1008 1

def callee : Registers × Word := (regsAt 0x1004 0x7000, 0x1004)

def caller : Registers × Word := (plainEnv.callerOf corrupted callee).getD callee

def callersCaller : Registers × Word := (plainEnv.callerOf corrupted caller).getD caller

theorem some_getD {α : Type} {x : Option α} {a : α} (h : x.isSome = true) :
    x = some (x.getD a) := by
  cases x with
  | none => cases h
  | some b => rfl

/-- The caller has what the frame has behind the registers of the row. -/
theorem callerOf_behind {state next : Registers × Word} {i : Nat}
    (h : plainEnv.callerOf corrupted state = some next)
    (hfile : (toFileAddr plainEnv.elves state.2).elf = some 0)
    (hend : (unwindRow program (plainEnv.ehHdr 0)
      (toFileAddr plainEnv.elves state.2).addr).toOption.all (fun ctx =>
        rulesEnd 160 (plainEnv.enumerate ctx.registerRules)) = true)
    (hi : 160 ≤ i) : next.1.data i = state.1.data i := by
  unfold StackEnv.callerOf at h
  cases hround : plainEnv.unwindRound corrupted state.1 state.2 with
  | done =>
      rw [hround] at h
      cases h
  | next physical regs virtPc =>
      rw [hround] at h
      obtain rfl := Option.some.inj h
      obtain ⟨-, -, callee, hunwind, -⟩ := unwindRound_next hround
      exact unwind_behind hunwind hfile rfl hend (le_refl _) hi

/-- The caller and the caller's caller exist, and are the same as far as the
registers of the row reach. -/
theorem callers_evaluated :
    (plainEnv.callerOf corrupted callee).isSome = true ∧
      (plainEnv.callerOf corrupted caller).isSome = true ∧
      (caller.2 = callersCaller.2 ∧
        caller.1.undefinedOffsets = callersCaller.1.undefinedOffsets ∧
        caller.1.cfa = callersCaller.1.cfa ∧
        ∀ i < 160, caller.1.data i = callersCaller.1.data i) ∧
      (toFileAddr plainEnv.elves caller.2).elf = some 0 ∧
      (unwindRow program (plainEnv.ehHdr 0)
        (toFileAddr plainEnv.elves caller.2).addr).toOption.all (fun ctx =>
          rulesEnd 160 (plainEnv.enumerate ctx.registerRules)) = true := by
  decide +kernel

theorem callers_close : plainEnv.CallersClose corrupted callee.1 callee.2 := by
  obtain ⟨hfirst, hsecond, ⟨hpc, hundefined, hcfa, hfront⟩, hfile, hend⟩ := callers_evaluated
  have hcaller : plainEnv.callerOf corrupted callee = some caller := some_getD hfirst
  have hnext : plainEnv.callerOf corrupted caller = some callersCaller := some_getD hsecond
  have hview : caller.1.view = callersCaller.1.view := by
    refine view_ext (fun i _ => ?_) (fun i _ => by rw [hundefined]) hcfa
    by_cases hi : i < 160
    · exact hfront i hi
    · exact (callerOf_behind hnext hfile hend (by omega)).symm
  refine ⟨1, 2, caller, callersCaller, by decide, ?_, ?_, Prod.ext hview hpc⟩
  · exact hcaller
  · rw [orbit, orbit, orbit, Option.bind_some]
    change (plainEnv.callerOf corrupted callee).bind _ = _
    rw [hcaller, Option.bind_some, hnext]

/-- The loop goes round for ever. -/
theorem unwind_not_terminates :
    ¬ ∃ n, ∀ rounds ≥ n, Stack.physicalFrames plainEnv corrupted 1 rounds =
      Stack.physicalFrames plainEnv corrupted 1 n := by
  rw [physicalFrames_ends_iff (show corrupted.getRegisters (some 1) = .ok callee.1 from rfl)
    (show callee.1.readU64 .rip = .ok callee.2 from rfl)]
  exact callers_close.not_halts (callerOf_respects plainEnv corrupted)

theorem unwind_terminates_iff_outermost :
    (∃ n, ∀ rounds ≥ n, Stack.physicalFrames plainEnv inlined 1 rounds =
        Stack.physicalFrames plainEnv inlined 1 n) ∧
      ¬ plainEnv.CallersClose inlined (regsAt 0x1006 0x7000) 0x1006 := by
  have hends : ∃ n, ∀ rounds ≥ n, Stack.physicalFrames plainEnv inlined 1 rounds =
      Stack.physicalFrames plainEnv inlined 1 n := by
    refine (@physicalFrames_ends_iff plainEnv inlined 1 (regsAt 0x1006 0x7000) 0x1006 rfl
      rfl).mpr ⟨2, ?_⟩
    exact Option.isNone_iff_eq_none.mp (by decide +kernel)
  exact ⟨hends, (unwind_terminates_iff plainEnv inlined 1 (regsAt 0x1006 0x7000) 0x1006 rfl
    rfl).mp hends⟩

end StackTerminationWitness

end Gsdb
