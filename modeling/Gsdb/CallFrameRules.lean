/-
Register rules are meant to be last-writer-wins.  `RuleChange` is the meaning
the format gives to an instruction; the theorems compare what the executed
instruction leaves in the rule set with it, step by step and over whole runs.
-/
import Gsdb.CallFrame

namespace Gsdb

open ByteMemory ByteCursor

/-- What an instruction does to the register rules. -/
inductive RuleChange where
  | defines (reg : BitVec 32) (rule : RegisterRule)
  | restores (reg : BitVec 32)
  | keeps
  | restoresAll
deriving DecidableEq, Repr

/-- A register number operand, then a rule. -/
def definesRule (cur : Cursor) (rule : Cursor → Option RegisterRule) : Option RuleChange := do
  let (reg, cur) ← cur.uleb128
  let rule ← rule cur
  some (.defines (reg.setWidth 32) rule)

/-- A factored offset operand: the operand times the data alignment factor. -/
def unsignedFactored (cie : CommonInformationEntry) (cur : Cursor) : Option Word :=
  cur.uleb128.map fun operand => operand.1 * cie.dataAlignmentFactor

def signedFactored (cie : CommonInformationEntry) (cur : Cursor) : Option Word :=
  cur.sleb128.map fun operand => operand.1 * cie.dataAlignmentFactor

/-- A length and that many bytes. -/
def countedBlock (cur : Cursor) : Option (List Byte) := do
  let (len, cur) ← cur.uleb128
  let (bytes, _) ← cur.block len.toNat
  some bytes

/-- The meaning of an opcode for the register rules, its operands at `cur`;
`none` when the operands are cut short. -/
def CfaOpcode.ruleChange (cie : CommonInformationEntry) (low6 : BitVec 6) (cur : Cursor) :
    CfaOpcode → Option RuleChange
  | .offset => (unsignedFactored cie cur).map fun n => .defines (low6.setWidth 32) (.offset n)
  | .offsetExtended => definesRule cur fun cur => (unsignedFactored cie cur).map .offset
  | .offsetExtendedSf => definesRule cur fun cur => (signedFactored cie cur).map .offset
  | .valOffset => definesRule cur fun cur => (unsignedFactored cie cur).map .valOffset
  | .valOffsetSf => definesRule cur fun cur => (signedFactored cie cur).map .valOffset
  | .register => definesRule cur fun cur =>
      cur.uleb128.map fun operand => .register (operand.1.setWidth 32)
  | .undefined => definesRule cur fun _ => some .undefined
  | .sameValue => definesRule cur fun _ => some .same
  | .expression => definesRule cur fun cur => (countedBlock cur).map .expr
  | .valExpression => definesRule cur fun cur => (countedBlock cur).map .valExpr
  | .restore => some (.restores (low6.setWidth 32))
  | .restoreExtended => cur.uleb128.map fun operand => .restores (operand.1.setWidth 32)
  | .restoreState => some .restoresAll
  | _ => some .keeps

/-- The meaning of the instruction at a cursor; `none` when it is not a well
formed instruction. -/
def ruleChange (cie : CommonInformationEntry) (cur : Cursor) : Option RuleChange := do
  let (opcode, cur) ← cur.u8
  let op ← CfaOpcode.ofByte opcode
  op.ruleChange cie (opcode.setWidth 6) cur

/-- The entry of every other register is the one it was. -/
def SameElsewhere (reg : BitVec 32) (before after : Ruleset) : Prop :=
  ∀ other, other ≠ reg → after.lookup other = before.lookup other

/-- The instruction at the cursor is executed as it is meant: a defining
instruction returns and leaves its own rule, a restoring one returns and
leaves the rule the CIE gave (or none), and nothing else changes. -/
def LastWriterWins (bases : PointerBases) (fde : FrameDescriptionEntry) (cieRules : Ruleset)
    (ctx : UnwindContext) : Prop :=
  match ruleChange fde.cie ctx.cur with
  | some (.defines reg rule) => ∃ next, executeCfiInstruction bases fde ctx = .ok next ∧
      next.registerRules.lookup reg = some rule ∧
      SameElsewhere reg ctx.registerRules next.registerRules
  | some (.restores reg) => ∃ next, executeCfiInstruction bases fde ctx = .ok next ∧
      next.registerRules.lookup reg = cieRules.lookup reg ∧
      SameElsewhere reg ctx.registerRules next.registerRules
  | some .keeps => ∀ next, executeCfiInstruction bases fde ctx = .ok next →
      next.registerRules = ctx.registerRules
  | some .restoresAll => True
  | none => True

namespace RegisterRule

def isExpression : RegisterRule → Bool
  | .expr _ => true
  | .valExpr _ => true
  | _ => false

/-- The rule that is put into the rule set for an instruction's rule. -/
def stored : RegisterRule → RegisterRule
  | .expr bytes => .valExpr bytes
  | .valExpr bytes => .expr bytes
  | rule => rule

theorem stored_eq_self (rule : RegisterRule) :
    rule.stored = rule ↔ rule.isExpression = false := by
  cases rule <;> simp [stored, isExpression]

end RegisterRule

/-- Nothing stands in the way of the instruction at the cursor: a register
that it defines has no rule yet, unless it is the very same one, and the rule
is not an expression; a register that it restores has a rule in the CIE and
none that differs from it now. -/
def NoRuleInTheWay (fde : FrameDescriptionEntry) (cieRules : Ruleset) (ctx : UnwindContext) :
    Prop :=
  match ruleChange fde.cie ctx.cur with
  | some (.defines reg rule) => ctx.registerRules.lookup reg = some rule ∨
      (ctx.registerRules.lookup reg = none ∧ rule.isExpression = false)
  | some (.restores reg) => ∃ rule, cieRules.lookup reg = some rule ∧
      (ctx.registerRules.lookup reg = none ∨ ctx.registerRules.lookup reg = some rule)
  | _ => True

namespace Ruleset

theorem lookup_emplace_self (rules : Ruleset) (reg : BitVec 32) (rule : RegisterRule) :
    (rules.emplace reg rule).lookup reg = some ((rules.lookup reg).getD rule) := by
  unfold emplace
  cases h : rules.lookup reg with
  | none => simp
  | some old => simp [h]

theorem lookup_emplace_ne (rules : Ruleset) {reg other : BitVec 32} (rule : RegisterRule)
    (hne : other ≠ reg) : (rules.emplace reg rule).lookup other = rules.lookup other := by
  unfold emplace
  split
  · rfl
  · exact AList.lookup_insert_ne hne

end Ruleset

section Operands

variable {cie : CommonInformationEntry} {cur : Cursor}

private theorem unsignedFactored_eq_some {value : Word}
    (h : unsignedFactored cie cur = some value) :
    ∃ n after, cur.uleb128 = some (n, after) ∧ n * cie.dataAlignmentFactor = value := by
  obtain ⟨⟨n, after⟩, hread, hvalue⟩ := Option.map_eq_some_iff.mp h
  exact ⟨n, after, hread, hvalue⟩

private theorem signedFactored_eq_some {value : Word}
    (h : signedFactored cie cur = some value) :
    ∃ n after, cur.sleb128 = some (n, after) ∧ n * cie.dataAlignmentFactor = value := by
  obtain ⟨⟨n, after⟩, hread, hvalue⟩ := Option.map_eq_some_iff.mp h
  exact ⟨n, after, hread, hvalue⟩

private theorem countedBlock_eq_some {bytes : List Byte} (h : countedBlock cur = some bytes) :
    ∃ after, expressionBlock cur = .ok (bytes, after) := by
  simp only [countedBlock, Option.bind_eq_bind, Option.bind_eq_some_iff, Prod.exists,
    Option.some.injEq] at h
  obtain ⟨len, middle, hlen, block, after, hblock, rfl⟩ := h
  exact ⟨after, by simp only [expressionBlock, hlen, hblock, inBounds_some, ok_bind]⟩

private theorem definesRule_eq_some {f : Cursor → Option RegisterRule} {reg : BitVec 32}
    {rule : RegisterRule} (h : definesRule cur f = some (.defines reg rule)) :
    ∃ n after, cur.uleb128 = some (n, after) ∧ n.setWidth 32 = reg ∧ f after = some rule := by
  simp only [definesRule, Option.bind_eq_bind, Option.bind_eq_some_iff, Prod.exists,
    Option.some.injEq, RuleChange.defines.injEq] at h
  obtain ⟨n, after, hread, rule', hrule, hreg, rfl⟩ := h
  exact ⟨n, after, hread, hreg, hrule⟩

end Operands

/-- The operands of a defining opcode are read as they are meant, and its rule
is emplaced, with the two kinds of expressions exchanged. -/
theorem executeCfaOpcode_defines (bases : PointerBases) (fde : FrameDescriptionEntry)
    (ctx : UnwindContext) {low6 : BitVec 6} {cur : Cursor} {op : CfaOpcode}
    {reg : BitVec 32} {rule : RegisterRule}
    (h : op.ruleChange fde.cie low6 cur = some (.defines reg rule)) :
    ∃ after, executeCfaOpcode bases fde ctx low6 cur op =
      .ok (ctx.emplaceRule after reg rule.stored) := by
  cases op <;> simp only [CfaOpcode.ruleChange] at h
  case offset =>
    obtain ⟨value, hvalue, heq⟩ := Option.map_eq_some_iff.mp h
    obtain ⟨n, after, hread, rfl⟩ := unsignedFactored_eq_some hvalue
    cases heq
    exact ⟨after, by simp only [executeCfaOpcode, hread, inBounds_some, ok_bind]; rfl⟩
  case undefined =>
    obtain ⟨n, after, hread, rfl, hrule⟩ := definesRule_eq_some h
    cases hrule
    exact ⟨after, by simp only [executeCfaOpcode, hread, inBounds_some, ok_bind]; rfl⟩
  case sameValue =>
    obtain ⟨n, after, hread, rfl, hrule⟩ := definesRule_eq_some h
    cases hrule
    exact ⟨after, by simp only [executeCfaOpcode, hread, inBounds_some, ok_bind]; rfl⟩
  case register =>
    obtain ⟨n, middle, hread, rfl, hrule⟩ := definesRule_eq_some h
    obtain ⟨⟨other, after⟩, hother, rfl⟩ := Option.map_eq_some_iff.mp hrule
    exact ⟨after, by simp only [executeCfaOpcode, hread, hother, inBounds_some, ok_bind]; rfl⟩
  case offsetExtended =>
    obtain ⟨n, middle, hread, rfl, hrule⟩ := definesRule_eq_some h
    obtain ⟨value, hvalue, rfl⟩ := Option.map_eq_some_iff.mp hrule
    obtain ⟨n', after, hread', rfl⟩ := unsignedFactored_eq_some hvalue
    exact ⟨after, by simp only [executeCfaOpcode, hread, hread', inBounds_some, ok_bind]; rfl⟩
  case valOffset =>
    obtain ⟨n, middle, hread, rfl, hrule⟩ := definesRule_eq_some h
    obtain ⟨value, hvalue, rfl⟩ := Option.map_eq_some_iff.mp hrule
    obtain ⟨n', after, hread', rfl⟩ := unsignedFactored_eq_some hvalue
    exact ⟨after, by simp only [executeCfaOpcode, hread, hread', inBounds_some, ok_bind]; rfl⟩
  case offsetExtendedSf =>
    obtain ⟨n, middle, hread, rfl, hrule⟩ := definesRule_eq_some h
    obtain ⟨value, hvalue, rfl⟩ := Option.map_eq_some_iff.mp hrule
    obtain ⟨n', after, hread', rfl⟩ := signedFactored_eq_some hvalue
    exact ⟨after, by simp only [executeCfaOpcode, hread, hread', inBounds_some, ok_bind]; rfl⟩
  case valOffsetSf =>
    obtain ⟨n, middle, hread, rfl, hrule⟩ := definesRule_eq_some h
    obtain ⟨value, hvalue, rfl⟩ := Option.map_eq_some_iff.mp hrule
    obtain ⟨n', after, hread', rfl⟩ := signedFactored_eq_some hvalue
    exact ⟨after, by simp only [executeCfaOpcode, hread, hread', inBounds_some, ok_bind]; rfl⟩
  case expression =>
    obtain ⟨n, middle, hread, rfl, hrule⟩ := definesRule_eq_some h
    obtain ⟨bytes, hblock, rfl⟩ := Option.map_eq_some_iff.mp hrule
    obtain ⟨after, hread'⟩ := countedBlock_eq_some hblock
    exact ⟨after, by simp only [executeCfaOpcode, hread, hread', inBounds_some, ok_bind]; rfl⟩
  case valExpression =>
    obtain ⟨n, middle, hread, rfl, hrule⟩ := definesRule_eq_some h
    obtain ⟨bytes, hblock, rfl⟩ := Option.map_eq_some_iff.mp hrule
    obtain ⟨after, hread'⟩ := countedBlock_eq_some hblock
    exact ⟨after, by simp only [executeCfaOpcode, hread, hread', inBounds_some, ok_bind]; rfl⟩
  all_goals simp at h

/-- A restoring opcode looks its register up in the CIE's rules and emplaces
what it finds. -/
theorem executeCfaOpcode_restores (bases : PointerBases) (fde : FrameDescriptionEntry)
    (ctx : UnwindContext) {low6 : BitVec 6} {cur : Cursor} {op : CfaOpcode}
    {reg : BitVec 32} (h : op.ruleChange fde.cie low6 cur = some (.restores reg)) :
    ∃ after, executeCfaOpcode bases fde ctx low6 cur op =
      (ctx.cieRule reg).map (ctx.emplaceRule after reg) := by
  cases op <;> simp only [CfaOpcode.ruleChange] at h
  case restore =>
    cases h
    exact ⟨cur, rfl⟩
  case restoreExtended =>
    obtain ⟨⟨n, after⟩, hread, hreg⟩ := Option.map_eq_some_iff.mp h
    cases hreg
    refine ⟨after, ?_⟩
    simp only [executeCfaOpcode, hread, inBounds_some, ok_bind]
    rfl
  all_goals simp [definesRule, Option.bind_eq_some_iff] at h

/-- An opcode about the location, the CFA or the rule stack changes no rule. -/
theorem executeCfaOpcode_keeps {bases : PointerBases} {fde : FrameDescriptionEntry}
    {ctx next : UnwindContext} {low6 : BitVec 6} {cur : Cursor} {op : CfaOpcode}
    (h : op.ruleChange fde.cie low6 cur = some .keeps)
    (hrun : executeCfaOpcode bases fde ctx low6 cur op = .ok next) :
    next.registerRules = ctx.registerRules := by
  cases op <;> simp only [CfaOpcode.ruleChange] at h
  case advanceLoc | nop | rememberState =>
    cases hrun
    rfl
  case setLoc | advanceLoc1 | advanceLoc2 | advanceLoc4 | defCfaExpression =>
    obtain ⟨_, -, hrest⟩ := bind_eq_ok.mp hrun
    cases hrest
    rfl
  case defCfa | defCfaSf | defCfaRegister | defCfaOffset | defCfaOffsetSf =>
    obtain ⟨_, -, hsecond⟩ := bind_eq_ok.mp hrun
    obtain ⟨_, -, hrest⟩ := bind_eq_ok.mp hsecond
    cases hrest
    rfl
  all_goals simp [definesRule, Option.bind_eq_some_iff] at h

/-- The CIE's rules are fixed while instructions are executed. -/
theorem executeCfaOpcode_cieRegisterRules {bases : PointerBases}
    {fde : FrameDescriptionEntry} {ctx next : UnwindContext} {low6 : BitVec 6}
    {cur : Cursor} {op : CfaOpcode}
    (hrun : executeCfaOpcode bases fde ctx low6 cur op = .ok next) :
    next.cieRegisterRules = ctx.cieRegisterRules := by
  cases op
  case advanceLoc | nop | rememberState =>
    cases hrun
    rfl
  case restoreState =>
    simp only [executeCfaOpcode] at hrun
    split at hrun <;> cases hrun
    rfl
  case setLoc | advanceLoc1 | advanceLoc2 | advanceLoc4 | defCfaExpression | offset | restore
      | undefined | sameValue =>
    obtain ⟨_, -, hrest⟩ := bind_eq_ok.mp hrun
    cases hrest
    rfl
  all_goals
    obtain ⟨_, -, hsecond⟩ := bind_eq_ok.mp hrun
    obtain ⟨_, -, hrest⟩ := bind_eq_ok.mp hsecond
    cases hrest
    rfl

theorem executeCfiInstruction_cieRegisterRules {bases : PointerBases}
    {fde : FrameDescriptionEntry} {ctx next : UnwindContext}
    (hrun : executeCfiInstruction bases fde ctx = .ok next) :
    next.cieRegisterRules = ctx.cieRegisterRules := by
  obtain ⟨⟨opcode, cur⟩, -, hrest⟩ := bind_eq_ok.mp hrun
  simp only at hrest
  split at hrest
  · exact executeCfaOpcode_cieRegisterRules hrest
  · cases hrest
    rfl

theorem executeCfiInstructions_cieRegisterRules {bases : PointerBases}
    {fde : FrameDescriptionEntry} {n : Nat} {ctx next : UnwindContext}
    (hrun : executeCfiInstructions bases fde n ctx = .ok next) :
    next.cieRegisterRules = ctx.cieRegisterRules := by
  induction n generalizing ctx with
  | zero =>
      cases hrun
      rfl
  | succ n ih =>
      obtain ⟨middle, hstep, hrest⟩ := bind_eq_ok.mp hrun
      exact (ih hrest).trans (executeCfiInstruction_cieRegisterRules hstep)

/-- A well formed instruction is executed by the case of its opcode. -/
theorem ruleChange_eq_some {fde : FrameDescriptionEntry} {ctx : UnwindContext}
    {change : RuleChange} (h : ruleChange fde.cie ctx.cur = some change) :
    ∃ low6 cur op, op.ruleChange fde.cie low6 cur = some change ∧
      ∀ bases, executeCfiInstruction bases fde ctx =
        executeCfaOpcode bases fde ctx low6 cur op := by
  simp only [ruleChange, Option.bind_eq_bind, Option.bind_eq_some_iff, Prod.exists] at h
  obtain ⟨opcode, cur, hread, op, hop, hchange⟩ := h
  refine ⟨opcode.setWidth 6, cur, op, hchange, fun bases => ?_⟩
  simp only [executeCfiInstruction, hread, inBounds_some, ok_bind, hop]

section Emplace

variable {rules : Ruleset} {reg : BitVec 32} {rule stored : RegisterRule}

/-- An emplaced rule is the register's rule exactly when no other rule was
there before it. -/
theorem lookup_emplace_eq_some_iff :
    (rules.emplace reg stored).lookup reg = some rule ↔
      rules.lookup reg = some rule ∨ (rules.lookup reg = none ∧ stored = rule) := by
  rw [Ruleset.lookup_emplace_self]
  cases rules.lookup reg <;> simp

theorem emplace_sameElsewhere : SameElsewhere reg rules (rules.emplace reg stored) :=
  fun _ hne => rules.lookup_emplace_ne stored hne

end Emplace

/-- One instruction: it has the meaning the format gives it exactly when no
rule stands in its way. -/
theorem lastWriterWins_step (bases : PointerBases) (fde : FrameDescriptionEntry)
    (ctx : UnwindContext) :
    LastWriterWins bases fde ctx.cieRegisterRules ctx ↔
      NoRuleInTheWay fde ctx.cieRegisterRules ctx := by
  unfold LastWriterWins NoRuleInTheWay
  cases hchange : ruleChange fde.cie ctx.cur with
  | none => simp
  | some change =>
      obtain ⟨low6, cur, op, hop, hrun⟩ := ruleChange_eq_some hchange
      simp only [hrun bases]
      cases change with
      | defines reg rule =>
          obtain ⟨after, hexec⟩ := executeCfaOpcode_defines bases fde ctx hop
          simp only [hexec, Except.ok.injEq, exists_eq_left', UnwindContext.emplaceRule,
            lookup_emplace_eq_some_iff, emplace_sameElsewhere, and_true,
            RegisterRule.stored_eq_self]
      | restores reg =>
          obtain ⟨after, hexec⟩ := executeCfaOpcode_restores bases fde ctx hop
          rw [hexec, UnwindContext.cieRule]
          cases hcie : ctx.cieRegisterRules.lookup reg with
          | none => simp [Except.map, hcie]
          | some rule =>
              simp only [Except.map, Except.ok.injEq, exists_eq_left', hcie,
                UnwindContext.emplaceRule, lookup_emplace_eq_some_iff, emplace_sameElsewhere,
                and_true, Option.some.injEq]
              exact or_comm
      | keeps => simpa using fun next h => executeCfaOpcode_keeps hop h
      | restoresAll => simp

/-- Every run, from any context: all its instructions have the meaning the
format gives them exactly when each finds no rule in its way. -/
theorem executeCfiInstructions_lastWriterWins_iff (bases : PointerBases)
    (fde : FrameDescriptionEntry) (start : UnwindContext) :
    (∀ n ctx, executeCfiInstructions bases fde n start = .ok ctx →
        LastWriterWins bases fde start.cieRegisterRules ctx) ↔
      ∀ n ctx, executeCfiInstructions bases fde n start = .ok ctx →
        NoRuleInTheWay fde start.cieRegisterRules ctx := by
  have hstep : ∀ n ctx, executeCfiInstructions bases fde n start = .ok ctx →
      (LastWriterWins bases fde start.cieRegisterRules ctx ↔
        NoRuleInTheWay fde start.cieRegisterRules ctx) := by
    intro n ctx hrun
    rw [← executeCfiInstructions_cieRegisterRules hrun]
    exact lastWriterWins_step bases fde ctx
  constructor
  · exact fun h n ctx hrun => (hstep n ctx hrun).mp (h n ctx hrun)
  · exact fun h n ctx hrun => (hstep n ctx hrun).mpr (h n ctx hrun)

namespace LastWriterWinsWitness

def cie : CommonInformationEntry := ⟨1, -8, 0, []⟩

/-- `DW_CFA_offset r6` twice, with different offsets. -/
def fde : FrameDescriptionEntry := ⟨cie, 0x1000, 0x100, [0x86, 2, 0x86, 3]⟩

def bases : PointerBases := ⟨0, 0⟩

def start : UnwindContext :=
  ⟨⟨fde.instructions, 0⟩, 0, 0x1000, .register 7 8, ∅, ∅, []⟩

/-- The context after the first instruction. -/
def second : UnwindContext :=
  start.emplaceRule ⟨fde.instructions, 2⟩ 6 (.offset (-16))

end LastWriterWinsWitness

open LastWriterWinsWitness in
/-- The second rule for a register does not replace the first. -/
theorem executeCfiInstructions_not_lastWriterWins :
    ¬ ∀ (bases : PointerBases) (fde : FrameDescriptionEntry) (start : UnwindContext) (n : Nat)
        (ctx : UnwindContext), executeCfiInstructions bases fde n start = .ok ctx →
      LastWriterWins bases fde start.cieRegisterRules ctx := by
  intro h
  have hwins := h bases fde start 1 second rfl
  have hway := (lastWriterWins_step bases fde second).mp hwins
  have hchange : ruleChange fde.cie second.cur = some (.defines 6 (.offset (-24))) := by decide
  have hrule : second.registerRules.lookup 6 = some (.offset (-16)) := by decide
  simp only [NoRuleInTheWay, hchange, hrule] at hway
  revert hway
  decide

end Gsdb
