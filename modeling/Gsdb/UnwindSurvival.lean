/-
Whether executing the rules of a row can end the debugger.  Evaluating expressions,
reading memory and looking up registers report what they do not support; writing a
value that is larger than its register calls `std::terminate`.
-/
import Gsdb.RestoredRegisters

namespace Gsdb

open ByteMemory ByteCursor

/-- An outcome other than a call of `std::terminate`. -/
def Survives {α : Type} (x : Except Failure α) : Prop := x ≠ .error .terminate

section Survival

variable {α β : Type}

theorem Survives.ok (a : α) : Survives (.ok a : Except Failure α) := nofun

theorem Survives.pure (a : α) : Survives (pure a : Except Failure α) := nofun

theorem Survives.error {e : Failure} (h : e ≠ .terminate) :
    Survives (.error e : Except Failure α) :=
  fun heq => h (Except.error.inj heq)

theorem Survives.bind {x : Except Failure α} {f : α → Except Failure β} (hx : Survives x)
    (hf : ∀ a, Survives (f a)) : Survives (x >>= f) := by
  cases x with
  | error e =>
      intro heq
      exact hx (congrArg Except.error (Except.error.inj heq))
  | ok a => exact hf a

theorem Survives.ite {p : Prop} [Decidable p] {x y : Except Failure α} (hx : Survives x)
    (hy : Survives y) : Survives (if p then x else y) := by
  split
  · exact hx
  · exact hy

@[simp]
theorem stackUnderflow_ne_terminate : stackUnderflow ≠ .terminate := by
  simp [stackUnderflow]

theorem inBounds_survives (x : Option α) : Survives (inBounds x) := by
  cases x with
  | none => exact .error (by simp)
  | some a => exact .ok a

theorem registerInfoBy_survives (f : RegisterInfo → Bool) : Survives (registerInfoBy f) := by
  unfold registerInfoBy
  split
  · exact .ok _
  · exact .error (by simp)

theorem asU64_survives (value : Value) : Survives (Registers.asU64 value) := by
  unfold Registers.asU64
  split
  · exact .ok _
  · exact .error (by simp)

theorem read_survives (regs : Registers) (info : RegisterInfo) : Survives (regs.read info) := by
  unfold Registers.read
  refine .ite (.error (by simp)) ?_
  split
  · split
    · exact .ok _
    · exact .ok _
    · exact .ok _
    · exact .ok _
    · exact .error (by simp)
  · exact .error (by simp)
  · exact .ok _
  · exact .ite (.ok _) (.ok _)

theorem readU64_survives (regs : Registers) (id : RegisterId) : Survives (regs.readU64 id) :=
  .bind (registerInfoBy_survives _) fun info => .bind (read_survives regs info) asU64_survives

theorem dwarfRegister_survives (ctx : EvalContext) (reg : Word) :
    Survives (ctx.dwarfRegister reg) :=
  .bind (registerInfoBy_survives _) fun info => .bind (read_survives _ info) asU64_survives

theorem jump_survives (cur : Cursor) : Survives (jump cur) :=
  .bind (inBounds_survives _) fun _ => .ite (.pure _) (.error (by simp))

theorem shiftBy_survives (rhs : Word) (value : Nat → Word) : Survives (shiftBy rhs value) :=
  .ite (.ok _) (.error (by simp))

theorem divide_survives (lhs rhs : Word) : Survives (divide lhs rhs) :=
  .ite (.error (by simp)) (.ite (.error (by simp)) (.ok _))

theorem modulo_survives (lhs rhs : Word) : Survives (modulo lhs rhs) :=
  .ite (.error (by simp)) (.ok _)

theorem negate_survives (value : Word) : Survives (negate value) := .ite (.error (by simp)) (.ok _)

theorem absolute_survives (value : Word) : Survives (absolute value) :=
  .ite (negate_survives value) (.ok _)

theorem readFrameBaseResult_survives (result : EvalResult) :
    Survives (readFrameBaseResult result) := by
  unfold readFrameBaseResult
  split
  · exact .ok _
  · exact .error (by simp)

variable (st : EvalState)

theorem pushOperand_survives (operand : Option (Word × Cursor)) :
    Survives (st.pushOperand operand) :=
  .bind (inBounds_survives _) fun _ => .pure _

theorem replaceTop_survives {f : Word → Except Failure Word} (hf : ∀ top, Survives (f top)) :
    Survives (st.replaceTop f) := by
  unfold EvalState.replaceTop
  split
  · exact .bind (hf _) fun _ => .pure _
  · exact .error (by simp)

theorem binop_survives {f : Word → Word → Except Failure Word}
    (hf : ∀ lhs rhs, Survives (f lhs rhs)) : Survives (st.binop f) := by
  unfold EvalState.binop
  split
  · exact .bind (hf _ _) fun _ => .pure _
  · exact .error (by simp)

theorem relop_survives (f : Int → Int → Bool) : Survives (st.relop f) :=
  binop_survives st fun _ _ => .ok _

/-- No operation of an expression ends the debugger, if reading memory and finding the
frame base do not. -/
theorem executeDwOp_survives {ctx : EvalContext}
    (hmemory : ∀ address n, Survives (ctx.readMemory address n)) (hframe : Survives ctx.frameBase)
    (op : DwOp) : Survives (executeDwOp ctx st op) := by
  cases op
  case lit | callFrameCfa | stackValue | nop => exact .pure _
  case breg =>
    exact .bind (dwarfRegister_survives _ _) fun _ => .bind (inBounds_survives _) fun _ => .pure _
  case reg => exact .ite (.bind (dwarfRegister_survives _ _) fun _ => .pure _) (.pure _)
  case addr => exact .bind (inBounds_survives _) fun _ => .pure _
  case const1u | const1s | const2u | const2s | const4u | const4s | const8u | const8s | constu |
      consts =>
    exact pushOperand_survives _ _
  case bregx =>
    exact .bind (inBounds_survives _) fun _ => .bind (dwarfRegister_survives _ _) fun _ =>
      .bind (inBounds_survives _) fun _ => .pure _
  case fbreg =>
    exact .bind (inBounds_survives _) fun _ => .bind hframe fun _ =>
      .bind (readFrameBaseResult_survives _) fun _ => .pure _
  case dup | drop | «over» | swap | rot =>
    simp only [executeDwOp]
    split
    · exact .pure _
    · exact .error (by simp)
  case pick =>
    refine .bind (inBounds_survives _) fun read => ?_
    obtain ⟨index, cur⟩ := read
    dsimp only
    split
    · exact .pure _
    · exact .error (by simp)
  case deref => exact replaceTop_survives _ fun _ => .bind (hmemory _ _) fun _ => .pure _
  case derefSize =>
    refine .bind (inBounds_survives _) fun _ => replaceTop_survives _ fun _ => ?_
    exact .bind (hmemory _ _) fun _ => .ite (.pure _) (.error (by simp))
  case xderef | xderefSize | pushObjectAddress | formTlsAddress | call2 | call4 | callRef =>
    exact .error (by simp)
  case minus | mul | and | or | plus | xor => exact binop_survives _ fun _ _ => .ok _
  case mod => exact binop_survives _ modulo_survives
  case shl | shr | shra => exact binop_survives _ fun _ _ => shiftBy_survives _ _
  case div => exact binop_survives _ divide_survives
  case abs => exact replaceTop_survives _ absolute_survives
  case neg => exact replaceTop_survives _ negate_survives
  case plusUconst =>
    exact .bind (inBounds_survives _) fun _ => replaceTop_survives _ fun _ => .ok _
  case not => exact replaceTop_survives _ fun _ => .ok _
  case le | ge | eq | lt | gt | ne =>
    simp only [executeDwOp]
    exact relop_survives _ _
  case skip => exact .bind (jump_survives _) fun _ => .pure _
  case bra =>
    simp only [executeDwOp]
    split
    · exact .error (by simp)
    · exact .ite (.bind (jump_survives _) fun _ => .pure _) (.pure _)
  case regx =>
    refine .bind (inBounds_survives _) fun _ => ?_
    exact .ite (.bind (dwarfRegister_survives _ _) fun _ => .pure _) (.pure _)
  case implicitValue =>
    exact .bind (inBounds_survives _) fun _ => .bind (inBounds_survives _) fun _ => .pure _
  case piece => exact .bind (inBounds_survives _) fun _ => .pure _
  case bitPiece =>
    exact .bind (inBounds_survives _) fun _ => .bind (inBounds_survives _) fun _ => .pure _

theorem evalStep_survives {ctx : EvalContext}
    (hmemory : ∀ address n, Survives (ctx.readMemory address n))
    (hframe : Survives ctx.frameBase) : Survives (evalStep ctx st) := by
  refine .bind (inBounds_survives _) fun read => ?_
  obtain ⟨opcode, cur⟩ := read
  cases hop : DwOp.ofByte opcode with
  | some op =>
      simp only [hop]
      exact executeDwOp_survives _ hmemory hframe _
  | none =>
      simp only [hop]
      exact .pure _

theorem evalExpression_survives {ctx : EvalContext}
    (hmemory : ∀ address n, Survives (ctx.readMemory address n)) (hframe : Survives ctx.frameBase)
    (rounds : Nat) : Survives (evalExpression ctx rounds st) := by
  induction rounds generalizing st with
  | zero => exact .ite (.ok _) (.error (by simp))
  | succ rounds ih => exact .ite (.ok _) (.bind (evalStep_survives st hmemory hframe) ih)

end Survival

/-- How many bytes the value of a rule has; `undefined` and `same` have none. -/
def RegisterRule.restoredSize : RegisterRule → Option Nat
  | .undefined | .same => none
  | .register reg => (registerInfoByDwarf reg.toInt).toOption.map RegisterInfo.size
  | .offset _ | .valOffset _ | .expr _ | .valExpr _ => some 8

/-- What unwinding takes from elsewhere does not end the debugger. -/
structure UnwindEnv.Reports (env : UnwindEnv) : Prop where
  readMemory : ∀ address n, Survives (env.readMemory address n)
  frameBase : ∀ pc, Survives (env.frameBase pc)

section Rules

variable {env : UnwindEnv} {file : Elf} {cfa : Word} {old : Registers}

theorem evalNested_survives (h : env.Reports) (regs : Registers) (depth : Nat) (expr : List Byte)
    (pushCfa : Bool) : Survives (env.evalNested file regs depth expr pushCfa) := by
  induction depth generalizing expr pushCfa with
  | zero => exact .error (by simp)
  | succ depth ih =>
      refine .bind (readU64_survives _ _) fun pc => ?_
      refine evalExpression_survives _ h.readMemory (.bind (h.frameBase pc) fun nested => ?_) _
      cases nested with
      | none => exact .pure _
      | some nested => exact ih nested false

theorem evalAddress_survives (h : env.Reports) (regs : Registers) (expr : List Byte)
    (pushCfa : Bool) : Survives (env.evalAddress file regs expr pushCfa) := by
  refine .bind (evalNested_survives h regs env.depth expr pushCfa) fun result => ?_
  split
  · exact .ok _
  · exact .error (by simp)

theorem memoryWord_survives (h : env.Reports) (address : Word) : Survives (env.readU64 address) :=
  .bind (h.readMemory address 8) fun _ => .pure _

theorem cfaOf_survives (h : env.Reports) (regs : Registers) (rule : CfaRule) :
    Survives (env.cfaOf file regs rule) := by
  cases rule with
  | register reg offset =>
      exact .bind (registerInfoBy_survives _) fun info =>
          .bind (read_survives regs info) fun value =>
        .bind (asU64_survives value) fun _ => .pure _
  | expr bytes => exact evalAddress_survives h regs bytes false

theorem ruleValue_survives (h : env.Reports) (rule : RegisterRule) :
    Survives (env.ruleValue file old cfa rule) := by
  cases rule with
  | undefined => exact .ok _
  | same => exact .ok _
  | register reg =>
      exact .bind (registerInfoBy_survives _) fun info => .bind (read_survives old info) fun _ =>
        .pure _
  | offset offset => exact .bind (memoryWord_survives h _) fun _ => .pure _
  | valOffset offset => exact .ok _
  | expr bytes =>
      exact .bind (evalAddress_survives h old bytes true) fun _ =>
        .bind (memoryWord_survives h _) fun _ => .pure _
  | valExpr bytes => exact .bind (evalAddress_survives h old bytes true) fun _ => .pure _

/-- A register is read as a value of its size. -/
theorem read_sizeof {regs : Registers} {info : RegisterInfo} {value : Value}
    (hsized : info.IsSized) (h : regs.read info = .ok value) : value.sizeof = info.size := by
  unfold Registers.read at h
  split at h
  · cases h
  · unfold RegisterInfo.IsSized at hsized
    cases hformat : info.format with
    | uint =>
        rw [hformat] at h hsized
        rcases hsized with hsize | hsize | hsize | hsize <;>
          · rw [hsize] at h ⊢
            cases h
            rfl
    | doubleFloat =>
        rw [hformat] at h
        cases h
    | longDouble =>
        rw [hformat] at h hsized
        cases h
        exact hsized.symm
    | vector =>
        rw [hformat] at h hsized
        rcases hsized with hsize | hsize <;>
          · rw [hsize] at h ⊢
            cases h
            rfl

/-- The value of a rule has the size that goes with the rule. -/
theorem ruleValue_sizeof {rule : RegisterRule} {restored : Option Value}
    (h : env.ruleValue file old cfa rule = .ok restored) :
    rule.restoredSize = restored.map Value.sizeof := by
  cases rule with
  | undefined | same =>
      cases h
      rfl
  | register reg =>
      obtain ⟨info, hinfo, hread⟩ := bind_eq_ok.mp h
      obtain ⟨value, hvalue, hdone⟩ := bind_eq_ok.mp hread
      cases hdone
      have hsize := read_sizeof (registerInfos_isSized info (registerInfoBy_mem hinfo)) hvalue
      rw [RegisterRule.restoredSize, hinfo]
      exact congrArg some hsize.symm
  | offset offset =>
      obtain ⟨_, -, hdone⟩ := bind_eq_ok.mp h
      cases hdone
      rfl
  | valOffset offset =>
      cases h
      rfl
  | expr bytes =>
      obtain ⟨_, -, hrest⟩ := bind_eq_ok.mp h
      obtain ⟨_, -, hdone⟩ := bind_eq_ok.mp hrest
      cases hdone
      rfl
  | valExpr bytes =>
      obtain ⟨_, -, hdone⟩ := bind_eq_ok.mp h
      cases hdone
      rfl

/-- A rule ends the debugger exactly if it has a value that is larger than its
register. -/
theorem action_terminates_iff (h : env.Reports) (reg : BitVec 32) (rule : RegisterRule) :
    env.action file old cfa (reg, rule) = .error .terminate ↔
      ∃ info n, registerInfoByDwarf reg.toInt = .ok info ∧ rule.restoredSize = some n ∧
        info.size < n ∧ ∃ restored, env.ruleValue file old cfa rule = .ok restored := by
  unfold UnwindEnv.action
  cases hinfo : registerInfoByDwarf reg.toInt with
  | error e =>
      have hsurvives : e ≠ .terminate := by
        rintro rfl
        exact registerInfoBy_survives _ hinfo
      simp [hsurvives]
  | ok info =>
      have hbind : ∀ x : Except Failure RuleEffect,
          ((do let effect ← x; pure (info, effect)) : Except Failure (RegisterInfo × RuleEffect)) =
            .error .terminate ↔ x = .error .terminate := by
        intro x
        cases x with
        | error e =>
          exact ⟨fun heq => congrArg _ (Except.error.inj heq), fun heq => by rw [heq]; rfl⟩
        | ok effect => exact ⟨nofun, nofun⟩
      simp only [ok_bind, hbind, Except.ok.injEq, exists_and_left, exists_eq_left']
      unfold UnwindEnv.ruleEffect
      by_cases hrule : rule = .undefined
      · subst hrule
        simp [RegisterRule.restoredSize]
      · rw [if_neg hrule]
        cases hvalue : env.ruleValue file old cfa rule with
        | error e =>
            have hsurvives : e ≠ .terminate := by
              rintro rfl
              exact ruleValue_survives h rule hvalue
            simp [hsurvives]
        | ok restored =>
            rw [ruleValue_sizeof hvalue, ok_bind]
            cases restored with
            | none => exact ⟨nofun, fun ⟨_, hnone, _⟩ => nomatch hnone⟩
            | some value =>
                by_cases hsize : value.sizeof ≤ info.size
                · simp only [hsize, if_true, Option.map_some, Option.some.injEq, exists_eq_left']
                  exact ⟨nofun, fun hlarger => absurd hlarger.1 (Nat.not_lt.mpr hsize)⟩
                · simp [hsize, Nat.lt_of_not_le hsize]

/-- The loop over the rules ends the debugger exactly if one of them does, and those
before it have been executed. -/
theorem executeRules_terminates_iff (rules : List (BitVec 32 × RegisterRule))
    (unwound : Registers) :
    env.executeRules file old cfa rules unwound = .error .terminate ↔
      ∃ before rule after, rules = before ++ rule :: after ∧
        (∀ earlier ∈ before, ∃ action, env.action file old cfa earlier = .ok action) ∧
        env.action file old cfa rule = .error .terminate := by
  induction rules generalizing unwound with
  | nil => simp [UnwindEnv.executeRules]
  | cons first rest ih =>
      rw [executeRules_cons]
      cases haction : env.action file old cfa first with
      | error e =>
          rw [error_bind]
          constructor
          · intro heq
            cases heq
            exact ⟨[], first, rest, rfl, by simp, haction⟩
          · rintro ⟨before, rule, after, hsplit, hbefore, hrule⟩
            cases before with
            | nil =>
                obtain ⟨rfl, -⟩ := List.cons.inj hsplit
                rw [haction] at hrule
                cases hrule
                rfl
            | cons other before =>
                obtain ⟨rfl, -⟩ := List.cons.inj hsplit
                obtain ⟨action, hok⟩ := hbefore first List.mem_cons_self
                cases haction.symm.trans hok
      | ok action =>
          rw [ok_bind, ih]
          constructor
          · rintro ⟨before, rule, after, rfl, hbefore, hrule⟩
            refine ⟨first :: before, rule, after, rfl, ?_, hrule⟩
            exact List.forall_mem_cons.mpr ⟨⟨action, haction⟩, hbefore⟩
          · rintro ⟨before, rule, after, hsplit, hbefore, hrule⟩
            cases before with
            | nil =>
                obtain ⟨rfl, -⟩ := List.cons.inj hsplit
                cases haction.symm.trans hrule
            | cons other before =>
                obtain ⟨-, rfl⟩ := List.cons.inj hsplit
                exact ⟨before, rule, after, rfl, (List.forall_mem_cons.mp hbefore).2, hrule⟩

/-- Executing the rules of a row does not end the debugger, if and only if every rule
with a value larger than its register throws before it is written, or comes behind one
that throws. -/
theorem executeUnwindRules_survives_iff (env : UnwindEnv) (file : Elf) (ctx : UnwindContext)
    (regs : Registers) (hreports : env.Reports) :
    Survives (env.executeUnwindRules file ctx regs).2 ↔
      ∀ cfa, env.cfaOf file regs ctx.cfaRule = .ok cfa →
        ∀ before reg rule after info n,
          env.enumerate ctx.registerRules = before ++ (reg, rule) :: after →
          registerInfoByDwarf reg.toInt = .ok info → rule.restoredSize = some n → info.size < n →
          (∃ e, env.ruleValue file { regs with cfa := cfa } cfa rule = .error e) ∨
          ∃ earlier ∈ before, ∃ e,
            env.action file { regs with cfa := cfa } cfa earlier = .error e := by
  unfold UnwindEnv.executeUnwindRules
  cases hcfa : env.cfaOf file regs ctx.cfaRule with
  | error e =>
      have hsurvives : Survives (.error e : Except Failure Word) :=
        hcfa ▸ cfaOf_survives hreports regs ctx.cfaRule
      refine iff_of_true (fun heq => hsurvives ?_) fun _ h => ?_
      · exact congrArg Except.error (Except.error.inj heq)
      · cases h
  | ok cfa =>
      obtain ⟨rsp, start, hrsp, hstart⟩ := writeData_rsp regs cfa
      have hrun : (do
          let rsp ← registerInfoById .rsp
          let unwound ← regs.writeData rsp (.u64 cfa)
          env.executeRules file { regs with cfa := cfa } cfa
            (env.enumerate ctx.registerRules) unwound : Except Failure Registers) =
          env.executeRules file { regs with cfa := cfa } cfa
            (env.enumerate ctx.registerRules) start := by
        rw [hrsp, ok_bind, hstart, ok_bind]
      simp only [hrun, Survives, ne_eq, executeRules_terminates_iff, Except.ok.injEq,
        forall_eq']
      constructor
      · intro hnone before reg rule after info n hsplit hinfo hsize hlarger
        by_contra hthrows
        obtain ⟨hvalue, hearlier⟩ := not_or.mp hthrows
        refine hnone ⟨before, (reg, rule), after, hsplit, fun earlier hmem => ?_, ?_⟩
        · cases haction : env.action file { regs with cfa := cfa } cfa earlier with
          | error e => exact absurd ⟨earlier, hmem, e, haction⟩ hearlier
          | ok action => exact ⟨action, rfl⟩
        · refine (action_terminates_iff hreports reg rule).mpr ⟨info, n, hinfo, hsize, hlarger, ?_⟩
          cases hrestored : env.ruleValue file { regs with cfa := cfa } cfa rule with
          | error e => exact absurd ⟨e, hrestored⟩ hvalue
          | ok restored => exact ⟨restored, rfl⟩
      · rintro hthrows ⟨before, ⟨reg, rule⟩, after, hsplit, hbefore, hterminates⟩
        obtain ⟨info, n, hinfo, hsize, hlarger, restored, hrestored⟩ :=
          (action_terminates_iff hreports reg rule).mp hterminates
        rcases hthrows before reg rule after info n hsplit hinfo hsize hlarger with
          ⟨e, herror⟩ | ⟨earlier, hmem, e, herror⟩
        · cases hrestored.symm.trans herror
        · obtain ⟨action, hok⟩ := hbefore earlier hmem
          cases hok.symm.trans herror

end Rules

namespace UnwindSurvivalWitness

open ExpressionRulesWitness RestoredRegistersWitness

theorem env_reports : (env id).Reports := ⟨fun _ _ => .ok _, fun _ => .ok _⟩

/-- A row that restores `mxcsr`, of four bytes, from the stack. -/
def mxcsrRow : UnwindContext :=
  ⟨⟨[], 0⟩, 0, 0x1000, .register 6 16, ∅, (∅ : Ruleset).emplace 64 (.offset (-24)), []⟩

/-- Restoring `rbx` from the stack does not end the debugger. -/
theorem executeUnwindRules_survives_iff_rbx :
    Survives ((env id).executeUnwindRules program (rowOf (.offset (-24))) regs).2 := by
  refine (executeUnwindRules_survives_iff (env id) program _ regs env_reports).mpr ?_
  intro cfa _ before reg rule after info n hsplit hinfo hsize hlarger
  have hrules : [(3, .offset (-24))] = before ++ (reg, rule) :: after := hsplit
  have hmem : (reg, rule) ∈ [((3 : BitVec 32), RegisterRule.offset (-24))] := by
    rw [hrules]
    exact List.mem_append_right _ List.mem_cons_self
  obtain ⟨rfl, rfl⟩ := Prod.mk.inj (List.mem_singleton.mp hmem)
  have hrbx : registerInfoByDwarf (3 : BitVec 32).toInt = .ok rbx := rfl
  obtain rfl : rbx = info := Except.ok.inj (hrbx.symm.trans hinfo)
  cases hsize
  exact absurd hlarger (by decide)

/-- Eight bytes do not fit into `mxcsr`. -/
theorem mxcsr_not_survives :
    ¬ ∀ (env : UnwindEnv) (file : Elf) (ctx : UnwindContext) (regs : Registers),
      env.Reports → (∀ reg ∈ ctx.registerRules, ∃ info ∈ registerInfos,
        info.dwarfId = reg.toInt) →
      Survives (env.executeUnwindRules file ctx regs).2 := by
  intro h
  refine h (env id) program mxcsrRow regs env_reports (fun reg hreg => ?_) rfl
  have hkeys : reg ∈ mxcsrRow.registerRules.keys := hreg
  obtain rfl := List.mem_singleton.mp hkeys
  exact ⟨fprInfo .mxcsr "mxcsr" 64 4 24, by decide +kernel, rfl⟩

end UnwindSurvivalWitness

end Gsdb
