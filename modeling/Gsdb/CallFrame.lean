/-
Call frame instructions: one row of the unwind table is computed by executing
the instructions of a CIE and then those of an FDE.  The instructions are
executed as they are read; a register rule is put into the current rule set by
`std::unordered_map::emplace`.
-/
import Gsdb.Failure
import Mathlib.Data.List.AList

namespace Gsdb

open ByteMemory ByteCursor

/-- The call frame opcodes.  The first three carry an operand in their low six
bits. -/
inductive CfaOpcode where
  | advanceLoc | offset | restore
  | nop | setLoc | advanceLoc1 | advanceLoc2 | advanceLoc4
  | offsetExtended | restoreExtended | undefined | sameValue | register
  | rememberState | restoreState
  | defCfa | defCfaRegister | defCfaOffset | defCfaExpression
  | expression | offsetExtendedSf | defCfaSf | defCfaOffsetSf
  | valOffset | valOffsetSf | valExpression
deriving DecidableEq, Repr

def CfaOpcode.ofExtended : Nat → Option CfaOpcode
  | 0x00 => some .nop
  | 0x01 => some .setLoc
  | 0x02 => some .advanceLoc1
  | 0x03 => some .advanceLoc2
  | 0x04 => some .advanceLoc4
  | 0x05 => some .offsetExtended
  | 0x06 => some .restoreExtended
  | 0x07 => some .undefined
  | 0x08 => some .sameValue
  | 0x09 => some .register
  | 0x0a => some .rememberState
  | 0x0b => some .restoreState
  | 0x0c => some .defCfa
  | 0x0d => some .defCfaRegister
  | 0x0e => some .defCfaOffset
  | 0x0f => some .defCfaExpression
  | 0x10 => some .expression
  | 0x11 => some .offsetExtendedSf
  | 0x12 => some .defCfaSf
  | 0x13 => some .defCfaOffsetSf
  | 0x14 => some .valOffset
  | 0x15 => some .valOffsetSf
  | 0x16 => some .valExpression
  | _ => none

/-- The opcode in an instruction's first byte: the two top bits, or the low
six when these are clear. -/
def CfaOpcode.ofByte (opcode : Byte) : Option CfaOpcode :=
  match (opcode &&& 0xc0).toNat with
  | 0x40 => some .advanceLoc
  | 0x80 => some .offset
  | 0xc0 => some .restore
  | _ => ofExtended (opcode &&& 0x3f).toNat

/-- How to restore a register.  An expression is the byte string it is
evaluated from. -/
inductive RegisterRule where
  | undefined
  | same
  | offset (offset : Word)
  | valOffset (offset : Word)
  | register (reg : BitVec 32)
  | expr (bytes : List Byte)
  | valExpr (bytes : List Byte)
deriving DecidableEq, Repr

inductive CfaRule where
  | register (reg : BitVec 32) (offset : Word)
  | expr (bytes : List Byte)
deriving DecidableEq, Repr

/-- A map from DWARF register numbers to rules. -/
abbrev Ruleset := AList fun _ : BitVec 32 => RegisterRule

/-- `std::unordered_map::emplace`: a key that is present keeps its value. -/
def Ruleset.emplace (rules : Ruleset) (reg : BitVec 32) (rule : RegisterRule) : Ruleset :=
  if (rules.lookup reg).isSome then rules else rules.insert reg rule

structure CommonInformationEntry where
  codeAlignmentFactor : Word
  dataAlignmentFactor : Word
  fdePointerEncoding : Byte
  instructions : List Byte

structure FrameDescriptionEntry where
  cie : CommonInformationEntry
  initialLocation : Word
  addressRange : Word
  instructions : List Byte

/-- The section addresses that relative pointers refer to. -/
structure PointerBases where
  textSectionStart : Word
  pltStart : Word

/-- `unwind_context`; `origin` is the file offset of the cursor's first byte. -/
structure UnwindContext where
  cur : Cursor
  origin : Word
  location : Word
  cfaRule : CfaRule
  cieRegisterRules : Ruleset
  registerRules : Ruleset
  ruleStack : List (Ruleset × CfaRule)

/-- The low four bits of the encoding select the operand's format. -/
def parseEhFramePointerWithBase (cur : Cursor) (encoding : Byte) (base : Word) :
    Except Failure (Word × Cursor) := do
  match (encoding &&& 0x0f).toNat with
  | 0x00 =>
      let (value, cur) ← inBounds cur.u64
      pure (base + value, cur)
  | 0x01 =>
      let (value, cur) ← inBounds cur.uleb128
      pure (base + value, cur)
  | 0x02 =>
      let (value, cur) ← inBounds cur.u16
      pure (base + value.setWidth 64, cur)
  | 0x03 =>
      let (value, cur) ← inBounds cur.u32
      pure (base + value.setWidth 64, cur)
  | 0x04 =>
      let (value, cur) ← inBounds cur.u64
      pure (base + value, cur)
  | 0x09 =>
      let (value, cur) ← inBounds cur.sleb128
      pure (base + value, cur)
  | 0x0a =>
      let (value, cur) ← inBounds cur.u16
      pure (base + value.signExtend 64, cur)
  | 0x0b =>
      let (value, cur) ← inBounds cur.u32
      pure (base + value.signExtend 64, cur)
  | 0x0c =>
      let (value, cur) ← inBounds cur.u64
      pure (base + value, cur)
  | _ => .error (.error "Unknown eh_frame pointer encoding!")

/-- The middle three bits select the base; indirection is ignored. -/
def parseEhFramePointer (cur : Cursor) (encoding : Byte)
    (pc textSectionStart dataSectionStart funcStart : Word) :
    Except Failure (Word × Cursor) :=
  match (encoding &&& 0x70).toNat with
  | 0x00 => parseEhFramePointerWithBase cur encoding 0
  | 0x10 => parseEhFramePointerWithBase cur encoding pc
  | 0x20 => parseEhFramePointerWithBase cur encoding textSectionStart
  | 0x30 => parseEhFramePointerWithBase cur encoding dataSectionStart
  | 0x40 => parseEhFramePointerWithBase cur encoding funcStart
  | _ => .error (.error "Unknown eh_frame pointer encoding!")

/-- A counted block of expression bytes. -/
def expressionBlock (cur : Cursor) : Except Failure (List Byte × Cursor) := do
  let (len, cur) ← inBounds cur.uleb128
  inBounds (cur.block len.toNat)

namespace UnwindContext

def advanceLocation (ctx : UnwindContext) (cur : Cursor) (delta : Word) : UnwindContext :=
  { ctx with cur := cur, location := ctx.location + delta }

def setCfa (ctx : UnwindContext) (cur : Cursor) (rule : CfaRule) : UnwindContext :=
  { ctx with cur := cur, cfaRule := rule }

def emplaceRule (ctx : UnwindContext) (cur : Cursor) (reg : BitVec 32)
    (rule : RegisterRule) : UnwindContext :=
  { ctx with cur := cur, registerRules := ctx.registerRules.emplace reg rule }

/-- `std::get<cfa_register_rule>`. -/
def cfaRegister (ctx : UnwindContext) : Except Failure (BitVec 32 × Word) :=
  match ctx.cfaRule with
  | .register reg offset => .ok (reg, offset)
  | .expr _ => .error (.exception "bad_variant_access")

/-- `cie_register_rules.at`. -/
def cieRule (ctx : UnwindContext) (reg : BitVec 32) : Except Failure RegisterRule :=
  match ctx.cieRegisterRules.lookup reg with
  | some rule => .ok rule
  | none => .error (.exception "out_of_range")

end UnwindContext

/-- The operands of an opcode are read from `cur` and the instruction is
executed.  Products with an alignment factor wrap. -/
def executeCfaOpcode (bases : PointerBases) (fde : FrameDescriptionEntry)
    (ctx : UnwindContext) (low6 : BitVec 6) (cur : Cursor) :
    CfaOpcode → Except Failure UnwindContext
  | .advanceLoc =>
      pure (ctx.advanceLocation cur (low6.setWidth 64 * fde.cie.codeAlignmentFactor))
  | .offset => do
      let (n, cur) ← inBounds cur.uleb128
      pure (ctx.emplaceRule cur (low6.setWidth 32) (.offset (n * fde.cie.dataAlignmentFactor)))
  | .restore => do
      let rule ← ctx.cieRule (low6.setWidth 32)
      pure (ctx.emplaceRule cur (low6.setWidth 32) rule)
  | .nop => pure { ctx with cur := cur }
  | .setLoc => do
      let (loc, cur) ← parseEhFramePointer cur fde.cie.fdePointerEncoding
        (ctx.origin + BitVec.ofNat 64 cur.pos) bases.textSectionStart bases.pltStart
        fde.initialLocation
      pure { ctx with cur := cur, location := loc }
  | .advanceLoc1 => do
      let (delta, cur) ← inBounds cur.u8
      pure (ctx.advanceLocation cur (delta.setWidth 64 * fde.cie.codeAlignmentFactor))
  | .advanceLoc2 => do
      let (delta, cur) ← inBounds cur.u16
      pure (ctx.advanceLocation cur (delta.setWidth 64 * fde.cie.codeAlignmentFactor))
  | .advanceLoc4 => do
      let (delta, cur) ← inBounds cur.u32
      pure (ctx.advanceLocation cur (delta.setWidth 64 * fde.cie.codeAlignmentFactor))
  | .defCfa => do
      let (reg, cur) ← inBounds cur.uleb128
      let (offset, cur) ← inBounds cur.uleb128
      pure (ctx.setCfa cur (.register (reg.setWidth 32) ((offset.setWidth 32).setWidth 64)))
  | .defCfaSf => do
      let (reg, cur) ← inBounds cur.uleb128
      let (offset, cur) ← inBounds cur.sleb128
      pure (ctx.setCfa cur
        (.register (reg.setWidth 32) (offset * fde.cie.dataAlignmentFactor)))
  | .defCfaRegister => do
      let (reg, cur) ← inBounds cur.uleb128
      let (_, offset) ← ctx.cfaRegister
      pure (ctx.setCfa cur (.register (reg.setWidth 32) offset))
  | .defCfaOffset => do
      let (offset, cur) ← inBounds cur.uleb128
      let (reg, _) ← ctx.cfaRegister
      pure (ctx.setCfa cur (.register reg offset))
  | .defCfaOffsetSf => do
      let (offset, cur) ← inBounds cur.sleb128
      let (reg, _) ← ctx.cfaRegister
      pure (ctx.setCfa cur (.register reg (offset * fde.cie.dataAlignmentFactor)))
  | .defCfaExpression => do
      let (expr, cur) ← expressionBlock cur
      pure (ctx.setCfa cur (.expr expr))
  | .undefined => do
      let (reg, cur) ← inBounds cur.uleb128
      pure (ctx.emplaceRule cur (reg.setWidth 32) .undefined)
  | .sameValue => do
      let (reg, cur) ← inBounds cur.uleb128
      pure (ctx.emplaceRule cur (reg.setWidth 32) .same)
  | .offsetExtended => do
      let (reg, cur) ← inBounds cur.uleb128
      let (n, cur) ← inBounds cur.uleb128
      pure (ctx.emplaceRule cur (reg.setWidth 32) (.offset (n * fde.cie.dataAlignmentFactor)))
  | .offsetExtendedSf => do
      let (reg, cur) ← inBounds cur.uleb128
      let (n, cur) ← inBounds cur.sleb128
      pure (ctx.emplaceRule cur (reg.setWidth 32) (.offset (n * fde.cie.dataAlignmentFactor)))
  | .valOffset => do
      let (reg, cur) ← inBounds cur.uleb128
      let (n, cur) ← inBounds cur.uleb128
      pure (ctx.emplaceRule cur (reg.setWidth 32)
        (.valOffset (n * fde.cie.dataAlignmentFactor)))
  | .valOffsetSf => do
      let (reg, cur) ← inBounds cur.uleb128
      let (n, cur) ← inBounds cur.sleb128
      pure (ctx.emplaceRule cur (reg.setWidth 32)
        (.valOffset (n * fde.cie.dataAlignmentFactor)))
  | .register => do
      let (reg, cur) ← inBounds cur.uleb128
      let (other, cur) ← inBounds cur.uleb128
      pure (ctx.emplaceRule cur (reg.setWidth 32) (.register (other.setWidth 32)))
  | .expression => do
      let (reg, cur) ← inBounds cur.uleb128
      let (expr, cur) ← expressionBlock cur
      pure (ctx.emplaceRule cur (reg.setWidth 32) (.valExpr expr))
  | .valExpression => do
      let (reg, cur) ← inBounds cur.uleb128
      let (expr, cur) ← expressionBlock cur
      pure (ctx.emplaceRule cur (reg.setWidth 32) (.expr expr))
  | .restoreExtended => do
      let (reg, cur) ← inBounds cur.uleb128
      let rule ← ctx.cieRule (reg.setWidth 32)
      pure (ctx.emplaceRule cur (reg.setWidth 32) rule)
  | .rememberState =>
      pure { ctx with
        cur := cur
        ruleStack := (ctx.registerRules, ctx.cfaRule) :: ctx.ruleStack }
  | .restoreState =>
      match ctx.ruleStack with
      | [] => .error (.undefined "back of an empty vector")
      | (rules, cfa) :: rest =>
          pure { ctx with cur := cur, registerRules := rules, cfaRule := cfa, ruleStack := rest }

/-- `execute_cfi_instruction`.  An opcode the switch does not list has no
effect beyond its own byte. -/
def executeCfiInstruction (bases : PointerBases) (fde : FrameDescriptionEntry)
    (ctx : UnwindContext) : Except Failure UnwindContext := do
  let (opcode, cur) ← inBounds ctx.cur.u8
  match CfaOpcode.ofByte opcode with
  | some op => executeCfaOpcode bases fde ctx (opcode.setWidth 6) cur op
  | none => pure { ctx with cur := cur }

/-- A number of instructions, one after the other. -/
def executeCfiInstructions (bases : PointerBases) (fde : FrameDescriptionEntry) :
    Nat → UnwindContext → Except Failure UnwindContext
  | 0, ctx => .ok ctx
  | n + 1, ctx => do
      let ctx ← executeCfiInstruction bases fde ctx
      executeCfiInstructions bases fde n ctx

end Gsdb
