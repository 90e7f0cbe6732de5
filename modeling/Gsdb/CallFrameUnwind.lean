/-
Unwinding one physical frame: the row of the unwind table for a program counter
is computed, and its rules are executed on the registers of the frame.
-/
import Gsdb.DwarfExpression
import Gsdb.EhFrame

namespace Gsdb

open ByteMemory ByteCursor

/-- What unwinding takes from the loaded files and the inferior: the files with
their search tables, the bytes of memory, the expression of `DW_AT_frame_base` of
the function at a program counter (for a location list the one that covers it),
and the order in which a rule set enumerates.  Expressions are given up after a
number of rounds, and beyond a depth of nested ones. -/
structure UnwindEnv where
  elves : ElfCollection
  ehHdr : Nat → EhHdr
  readMemory : Word → Nat → Except Failure (List Byte)
  frameBase : Word → Except Failure (Option (List Byte))
  enumerate : Ruleset → List (BitVec 32 × RegisterRule)
  rounds : Nat
  depth : Nat

namespace UnwindEnv

/-- `dwarf_expression::eval` in frame information, with the expressions that
`DW_OP_fbreg` evaluates. -/
def evalNested (env : UnwindEnv) (file : Elf) (regs : Registers) :
    Nat → List Byte → Bool → Except Failure EvalResult
  | 0, _, _ => .error .schedule
  | depth + 1, expr, pushCfa => do
      let pc ← regs.readU64 .rip
      let ctx : EvalContext :=
        { regs := regs
          readMemory := env.readMemory
          elf := file
          inFrameInfo := true
          frameBase := do
            match ← env.frameBase pc with
            | none => pure (.simple .empty)
            | some nested => evalNested env file regs depth nested false }
      evalExpression ctx env.rounds (EvalState.start ctx expr pushCfa)

/-- `dwexp_addr_result` of an expression. -/
def evalAddress (env : UnwindEnv) (file : Elf) (regs : Registers) (expr : List Byte)
    (pushCfa : Bool) : Except Failure Word := do
  match ← env.evalNested file regs env.depth expr pushCfa with
  | .simple (.address address) => .ok address
  | _ => .error (.exception "bad_variant_access")

def readU64 (env : UnwindEnv) (address : Word) : Except Failure Word := do
  let bytes ← env.readMemory address 8
  pure (BitVec.ofNat 64 (ofLe bytes))

/-- The canonical frame address. -/
def cfaOf (env : UnwindEnv) (file : Elf) (regs : Registers) :
    CfaRule → Except Failure Word
  | .register reg offset => do
      let info ← registerInfoByDwarf reg.toInt
      let value ← Registers.asU64 (← regs.read info)
      pure (value + offset)
  | .expr bytes => env.evalAddress file regs bytes false

/-- The value that a rule restores; `none` leaves the register as it is. -/
def ruleValue (env : UnwindEnv) (file : Elf) (old : Registers) (cfa : Word) :
    RegisterRule → Except Failure (Option Value)
  | .undefined | .same => .ok none
  | .register reg => do
      let other ← registerInfoByDwarf reg.toInt
      let value ← old.read other
      pure (some value)
  | .offset offset => do
      let value ← env.readU64 (cfa + offset)
      pure (some (.u64 value))
  | .valOffset offset => .ok (some (.u64 (cfa + offset)))
  | .expr bytes => do
      let address ← env.evalAddress file old bytes true
      let value ← env.readU64 address
      pure (some (.u64 value))
  | .valExpr bytes => do
      let address ← env.evalAddress file old bytes true
      pure (some (.u64 address))

/-- One round of the loop of `execute_unwind_rules`. -/
def executeRule (env : UnwindEnv) (file : Elf) (old : Registers) (cfa : Word)
    (unwound : Registers) (reg : BitVec 32) (rule : RegisterRule) :
    Except Failure Registers := do
  let info ← registerInfoByDwarf reg.toInt
  if rule = .undefined then pure (unwound.undefine info)
  else
    match ← env.ruleValue file old cfa rule with
    | none => pure unwound
    | some value => unwound.writeData info value

def executeRules (env : UnwindEnv) (file : Elf) (old : Registers) (cfa : Word) :
    List (BitVec 32 × RegisterRule) → Registers → Except Failure Registers
  | [], unwound => .ok unwound
  | (reg, rule) :: rest, unwound => do
      let unwound ← env.executeRule file old cfa unwound reg rule
      env.executeRules file old cfa rest unwound

/-- `execute_unwind_rules`.  The registers of the frame are a reference: their CFA
is set as soon as it is known, after they were copied for the caller. -/
def executeUnwindRules (env : UnwindEnv) (file : Elf) (ctx : UnwindContext)
    (regs : Registers) : Registers × Except Failure Registers :=
  match env.cfaOf file regs ctx.cfaRule with
  | .error failure => (regs, .error failure)
  | .ok cfa =>
      let old := { regs with cfa := cfa }
      (old, do
        let rsp ← registerInfoById .rsp
        let unwound ← regs.writeData rsp (.u64 cfa)
        env.executeRules file old cfa (env.enumerate ctx.registerRules) unwound)

end UnwindEnv

/-- The two loops of `call_frame_information::unwind` over instructions, as long
as the location allows it.  Every instruction takes a byte at least. -/
def cfiLoop (bases : PointerBases) (fde : FrameDescriptionEntry) (goesOn : Word → Bool) :
    Nat → UnwindContext → Except Failure UnwindContext
  | 0, ctx => .ok ctx
  | rounds + 1, ctx =>
      if !ctx.cur.finished && goesOn ctx.location then do
        let ctx ← executeCfiInstruction bases fde ctx
        cfiLoop bases fde goesOn rounds ctx
      else .ok ctx

/-- `unwind_context{}` over the instructions of a CIE. -/
def UnwindContext.start (fde : ParsedFde) : UnwindContext :=
  { cur := ⟨fde.cie.instructions, 0⟩
    origin := BitVec.ofNat 64 fde.cieInstructionsStart
    location := 0
    cfaRule := .register 0 0
    cieRegisterRules := ∅
    registerRules := ∅
    ruleStack := [] }

/-- The row of the table that covers a program counter. -/
def unwindRow (elf : Elf) (hdr : EhHdr) (pc : Word) : Except Failure UnwindContext := do
  let fde ← findFde elf hdr pc
  let text ← elf.textSectionStart
  let bases : PointerBases := ⟨text, (elf.getSectionStartAddress ".got.plt").getD 0⟩
  let ctx ← cfiLoop bases fde.toFrameDescriptionEntry (fun _ => true) fde.cie.instructions.length
    (UnwindContext.start fde)
  let ctx :=
    { ctx with
      cieRegisterRules := ctx.registerRules
      cur := ⟨fde.instructions, 0⟩
      origin := BitVec.ofNat 64 fde.instructionsStart
      location := fde.initialLocation }
  cfiLoop bases fde.toFrameDescriptionEntry (fun location => location ≤ pc)
    fde.instructions.length ctx

/-- `call_frame_information::unwind`: the registers of the frame, with their CFA
set, and those of its caller. -/
def UnwindEnv.unwind (env : UnwindEnv) (pc : FileAddr) (regs : Registers) :
    Registers × Except Failure Registers :=
  match pc.elf.bind fun position => (env.elves[position]?).map fun elf => (position, elf) with
  | none => (regs, .error (.undefined "no file"))
  | some (position, elf) =>
      match unwindRow elf (env.ehHdr position) pc.addr with
      | .error failure => (regs, .error failure)
      | .ok ctx => env.executeUnwindRules elf ctx regs

end Gsdb
