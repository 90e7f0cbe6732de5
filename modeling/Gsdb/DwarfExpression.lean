/-
DWARF expressions: a stack machine over a byte string whose result is a
location.  One loop reads an opcode, reads the operands of that opcode and
acts on the stack; `evalStep` is one round of it.
-/
import Gsdb.Elf
import Gsdb.Registers

namespace Gsdb

open ByteMemory ByteCursor

/-- The operations of the interpreter's switch; `lit`, `reg` and `breg` stand
for the three ranges of 32 opcodes. -/
inductive DwOp where
  | addr | deref
  | const1u | const1s | const2u | const2s | const4u | const4s | const8u | const8s
  | constu | consts
  | dup | drop | over | pick | swap | rot | xderef
  | abs | and | div | minus | mod | mul | neg | not | or | plus | plusUconst
  | shl | shr | shra | xor
  | skip | bra | eq | ge | gt | le | lt | ne
  | lit (n : BitVec 8) | reg (n : BitVec 8) | breg (n : BitVec 8)
  | regx | fbreg | bregx | piece | derefSize | xderefSize | nop
  | pushObjectAddress | call2 | call4 | callRef | formTlsAddress | callFrameCfa
  | bitPiece | implicitValue | stackValue
deriving DecidableEq, Repr

def DwOp.ofByte (opcode : Byte) : Option DwOp :=
  if 0x30 ≤ opcode ∧ opcode ≤ 0x4f then some (.lit (opcode - 0x30))
  else if 0x70 ≤ opcode ∧ opcode ≤ 0x8f then some (.breg (opcode - 0x70))
  else if 0x50 ≤ opcode ∧ opcode ≤ 0x6f then some (.reg (opcode - 0x50))
  else match opcode.toNat with
    | 0x03 => some .addr
    | 0x06 => some .deref
    | 0x08 => some .const1u
    | 0x09 => some .const1s
    | 0x0a => some .const2u
    | 0x0b => some .const2s
    | 0x0c => some .const4u
    | 0x0d => some .const4s
    | 0x0e => some .const8u
    | 0x0f => some .const8s
    | 0x10 => some .constu
    | 0x11 => some .consts
    | 0x12 => some .dup
    | 0x13 => some .drop
    | 0x14 => some .over
    | 0x15 => some .pick
    | 0x16 => some .swap
    | 0x17 => some .rot
    | 0x18 => some .xderef
    | 0x19 => some .abs
    | 0x1a => some .and
    | 0x1b => some .div
    | 0x1c => some .minus
    | 0x1d => some .mod
    | 0x1e => some .mul
    | 0x1f => some .neg
    | 0x20 => some .not
    | 0x21 => some .or
    | 0x22 => some .plus
    | 0x23 => some .plusUconst
    | 0x24 => some .shl
    | 0x25 => some .shr
    | 0x26 => some .shra
    | 0x27 => some .xor
    | 0x28 => some .bra
    | 0x29 => some .eq
    | 0x2a => some .ge
    | 0x2b => some .gt
    | 0x2c => some .le
    | 0x2d => some .lt
    | 0x2e => some .ne
    | 0x2f => some .skip
    | 0x90 => some .regx
    | 0x91 => some .fbreg
    | 0x92 => some .bregx
    | 0x93 => some .piece
    | 0x94 => some .derefSize
    | 0x95 => some .xderefSize
    | 0x96 => some .nop
    | 0x97 => some .pushObjectAddress
    | 0x98 => some .call2
    | 0x99 => some .call4
    | 0x9a => some .callRef
    | 0x9b => some .formTlsAddress
    | 0x9c => some .callFrameCfa
    | 0x9d => some .bitPiece
    | 0x9e => some .implicitValue
    | 0x9f => some .stackValue
    | _ => none

/-- `dwarf_expression::simple_location`. -/
inductive SimpleLocation where
  | address (address : Word)
  | register (regNum : Word)
  | data (bytes : List Byte)
  | literal (value : Word)
  | empty
deriving DecidableEq, Repr

structure Piece where
  location : SimpleLocation
  bitSize : Word
  offset : Word
deriving DecidableEq, Repr

inductive EvalResult where
  | simple (location : SimpleLocation)
  | pieces (pieces : List Piece)
deriving DecidableEq, Repr

/-- What an expression is evaluated in: the registers, the inferior's memory,
the file that the expression is of, whether it belongs to frame information, and
the location that the function's `DW_AT_frame_base` evaluates to. -/
structure EvalContext where
  regs : Registers
  readMemory : Word → Nat → Except Failure (List Byte)
  elf : Elf
  inFrameInfo : Bool
  frameBase : Except Failure EvalResult

/-- The interpreter's variables.  The top of the stack comes first. -/
structure EvalState where
  cur : Cursor
  stack : List Word
  mostRecentLocation : Option SimpleLocation
  pieces : List Piece
  resultIsAddress : Bool
deriving DecidableEq, Repr

/-- Access to a stack that is too short. -/
def stackUnderflow : Failure := .undefined "stack underflow"

namespace EvalState

def push (st : EvalState) (value : Word) : EvalState :=
  { st with stack := value :: st.stack }

def setCur (st : EvalState) (cur : Cursor) : EvalState := { st with cur := cur }

/-- Replace the top of the stack. -/
def replaceTop (st : EvalState) (f : Word → Except Failure Word) : Except Failure EvalState :=
  match st.stack with
  | top :: rest => do
      let value ← f top
      pure { st with stack := value :: rest }
  | [] => .error stackUnderflow

/-- Replace the two top elements by a function of them. -/
def binop (st : EvalState) (f : Word → Word → Except Failure Word) :
    Except Failure EvalState :=
  match st.stack with
  | rhs :: lhs :: rest => do
      let value ← f lhs rhs
      pure { st with stack := value :: rest }
  | _ => .error stackUnderflow

/-- A comparison of the two top elements as signed numbers. -/
def relop (st : EvalState) (f : Int → Int → Bool) : Except Failure EvalState :=
  st.binop fun lhs rhs => .ok (if f lhs.toInt rhs.toInt then 1 else 0)

/-- Push the operand at the cursor. -/
def pushOperand (st : EvalState) (operand : Option (Word × Cursor)) :
    Except Failure EvalState := do
  let (value, cur) ← inBounds operand
  pure ((st.setCur cur).push value)

/-- `get_current_location`: the location the machine's state stands for, and
the state without it. -/
def getCurrentLocation (st : EvalState) : SimpleLocation × EvalState :=
  match st.stack with
  | [] => (st.mostRecentLocation.getD .empty, { st with mostRecentLocation := none })
  | top :: rest =>
      if st.resultIsAddress then (.address top, { st with stack := rest })
      else (.literal top, { st with stack := rest, resultIsAddress := true })

def addPiece (st : EvalState) (bitSize offset : Word) : EvalState :=
  let (location, st) := st.getCurrentLocation
  { st with pieces := st.pieces ++ [⟨location, bitSize, offset⟩] }

end EvalState

/-- An operand of fewer than 64 bits, zero-extended or sign-extended. -/
def unsignedOperand {w : Nat} (operand : Option (BitVec w × Cursor)) : Option (Word × Cursor) :=
  operand.map fun (value, cur) => (value.setWidth 64, cur)

def signedOperand {w : Nat} (operand : Option (BitVec w × Cursor)) : Option (Word × Cursor) :=
  operand.map fun (value, cur) => (value.signExtend 64, cur)

/-- `std::get<std::uint64_t>(regs.read(register_info_by_dwarf(reg)))`; the
register number is converted to a 32-bit signed integer. -/
def EvalContext.dwarfRegister (ctx : EvalContext) (reg : Word) : Except Failure Word := do
  let info ← registerInfoByDwarf (reg.setWidth 32).toInt
  Registers.asU64 (← ctx.regs.read info)

/-- `read_frame_base_result`. -/
def readFrameBaseResult : EvalResult → Except Failure Word
  | .simple (.address address) => .ok address
  | _ => .error (.error "Unsupported frame base location!")

/-- `cur += cur.s16()`: the displacement counts from behind the operand.  A
position in front of the expression is outside the buffer. -/
def jump (cur : Cursor) : Except Failure Cursor := do
  let (delta, cur) ← inBounds cur.u16
  let target : Int := cur.pos + delta.toInt
  if 0 ≤ target then pure { cur with pos := target.toNat }
  else .error (.undefined "jump in front of the expression")

/-- A shift by the width or more has no defined result. -/
def shiftBy (rhs : Word) (value : Nat → Word) : Except Failure Word :=
  if rhs.toNat < 64 then .ok (value rhs.toNat)
  else .error (.undefined "shift amount out of range")

def modulo (lhs rhs : Word) : Except Failure Word :=
  if rhs = 0 then .error (.undefined "division by zero") else .ok (lhs.umod rhs)

/-- Signed division; a zero divisor and the one overflowing quotient have no
defined result. -/
def divide (lhs rhs : Word) : Except Failure Word :=
  if rhs = 0 then .error (.undefined "division by zero")
  else if lhs = BitVec.intMin 64 ∧ rhs = -1 then .error (.undefined "signed overflow")
  else .ok (lhs.sdiv rhs)

def negate (value : Word) : Except Failure Word :=
  if value = BitVec.intMin 64 then .error (.undefined "signed overflow") else .ok (-value)

def absolute (value : Word) : Except Failure Word :=
  if value.toInt < 0 then negate value else .ok value

/-- The cases of the switch, with the opcode already read. -/
def executeDwOp (ctx : EvalContext) (st : EvalState) : DwOp → Except Failure EvalState
  | .lit n => pure (st.push (n.setWidth 64))
  | .breg n => do
      let value ← ctx.dwarfRegister (n.setWidth 64)
      let (offset, cur) ← inBounds st.cur.sleb128
      pure ((st.setCur cur).push (value + offset))
  | .reg n =>
      if ctx.inFrameInfo then do
        let value ← ctx.dwarfRegister (n.setWidth 64)
        pure (st.push value)
      else pure { st with mostRecentLocation := some (.register (n.setWidth 64)) }
  | .addr => do
      let (addr, cur) ← inBounds st.cur.u64
      pure ((st.setCur cur).push (ctx.elf.toVirtAddr addr))
  | .const1u => st.pushOperand (unsignedOperand st.cur.u8)
  | .const1s => st.pushOperand (signedOperand st.cur.u8)
  | .const2u => st.pushOperand (unsignedOperand st.cur.u16)
  | .const2s => st.pushOperand (signedOperand st.cur.u16)
  | .const4u => st.pushOperand (unsignedOperand st.cur.u32)
  | .const4s => st.pushOperand (signedOperand st.cur.u32)
  | .const8u => st.pushOperand st.cur.u64
  | .const8s => st.pushOperand st.cur.u64
  | .constu => st.pushOperand st.cur.uleb128
  | .consts => st.pushOperand st.cur.sleb128
  | .bregx => do
      let (reg, cur) ← inBounds st.cur.uleb128
      let value ← ctx.dwarfRegister reg
      let (offset, cur) ← inBounds cur.sleb128
      pure ((st.setCur cur).push (value + offset))
  | .fbreg => do
      let (offset, cur) ← inBounds st.cur.sleb128
      let location ← ctx.frameBase
      let address ← readFrameBaseResult location
      pure ((st.setCur cur).push (address + offset))
  | .dup =>
      match st.stack with
      | top :: _ => pure (st.push top)
      | [] => .error stackUnderflow
  | .drop =>
      match st.stack with
      | _ :: rest => pure { st with stack := rest }
      | [] => .error stackUnderflow
  | .pick => do
      let (index, cur) ← inBounds st.cur.u8
      match st.stack[index.toNat]? with
      | some value => pure ((st.setCur cur).push value)
      | none => .error stackUnderflow
  | .over =>
      match st.stack with
      | _ :: second :: _ => pure (st.push second)
      | _ => .error stackUnderflow
  | .swap =>
      match st.stack with
      | first :: second :: rest => pure { st with stack := second :: first :: rest }
      | _ => .error stackUnderflow
  | .rot =>
      match st.stack with
      | first :: second :: third :: rest =>
          pure { st with stack := second :: third :: first :: rest }
      | _ => .error stackUnderflow
  | .deref => st.replaceTop fun top => do
      let bytes ← ctx.readMemory top 8
      pure (BitVec.ofNat 64 (ofLe bytes))
  | .derefSize => do
      let (size, cur) ← inBounds st.cur.u8
      (st.setCur cur).replaceTop fun top => do
        let bytes ← ctx.readMemory top size.toNat
        if bytes.length ≤ 8 then pure (BitVec.ofNat 64 (ofLe bytes))
        else .error (.undefined "copy outside the variable")
  | .xderef => .error (.error "DW_OP_xderef not supported!")
  | .xderefSize => .error (.error "DW_OP_xderef_size not supported!")
  | .pushObjectAddress => .error (.error "Unsupported opcode DW_OP_push_object_address!")
  | .formTlsAddress => .error (.error "Unsupported opcode DW_OP_form_tls_address!")
  | .callFrameCfa => pure (st.push ctx.regs.cfa)
  | .minus => st.binop fun lhs rhs => .ok (lhs - rhs)
  | .mod => st.binop modulo
  | .mul => st.binop fun lhs rhs => .ok (lhs * rhs)
  | .and => st.binop fun lhs rhs => .ok (lhs &&& rhs)
  | .or => st.binop fun lhs rhs => .ok (lhs ||| rhs)
  | .plus => st.binop fun lhs rhs => .ok (lhs + rhs)
  | .shl => st.binop fun lhs rhs => shiftBy rhs (lhs <<< ·)
  | .shr => st.binop fun lhs rhs => shiftBy rhs (lhs >>> ·)
  | .shra => st.binop fun lhs rhs => shiftBy rhs lhs.sshiftRight
  | .xor => st.binop fun lhs rhs => .ok (lhs ^^^ rhs)
  | .div => st.binop divide
  | .abs => st.replaceTop absolute
  | .neg => st.replaceTop negate
  | .plusUconst => do
      let (operand, cur) ← inBounds st.cur.uleb128
      (st.setCur cur).replaceTop fun top => .ok (top + operand)
  | .not => st.replaceTop fun top => .ok (~~~top)
  | .le => st.relop fun lhs rhs => lhs ≤ rhs
  | .ge => st.relop fun lhs rhs => lhs ≥ rhs
  | .eq => st.relop fun lhs rhs => lhs = rhs
  | .lt => st.relop fun lhs rhs => lhs < rhs
  | .gt => st.relop fun lhs rhs => lhs > rhs
  | .ne => st.relop fun lhs rhs => lhs ≠ rhs
  | .skip => do
      let cur ← jump st.cur
      pure (st.setCur cur)
  | .bra =>
      match st.stack with
      | [] => .error stackUnderflow
      | top :: rest =>
          if top ≠ 0 then do
            let cur ← jump st.cur
            pure { st with cur := cur, stack := rest }
          else pure { st with stack := rest }
  | .call2 => .error (.error "Unsupported opcode DW_OP_call2!")
  | .call4 => .error (.error "Unsupported opcode DW_OP_call4!")
  | .callRef => .error (.error "Unsupported opcode DW_OP_call_ref!")
  | .regx => do
      let (reg, cur) ← inBounds st.cur.uleb128
      if ctx.inFrameInfo then do
        let value ← ctx.dwarfRegister reg
        pure ((st.setCur cur).push value)
      else pure { st with cur := cur, mostRecentLocation := some (.register reg) }
  | .implicitValue => do
      let (length, cur) ← inBounds st.cur.uleb128
      let (bytes, _) ← inBounds (cur.block length.toNat)
      pure { st with cur := cur, mostRecentLocation := some (.data bytes) }
  | .stackValue => pure { st with resultIsAddress := false }
  | .nop => pure st
  | .piece => do
      let (byteSize, cur) ← inBounds st.cur.uleb128
      pure ((st.setCur cur).addPiece (byteSize * 8) 0)
  | .bitPiece => do
      let (bitSize, cur) ← inBounds st.cur.uleb128
      let (offset, cur) ← inBounds cur.uleb128
      pure ((st.setCur cur).addPiece bitSize offset)

/-- One round of the loop of `dwarf_expression::eval`.  An opcode that the
switch does not list has no effect. -/
def evalStep (ctx : EvalContext) (st : EvalState) : Except Failure EvalState := do
  let (opcode, cur) ← inBounds st.cur.u8
  match DwOp.ofByte opcode with
  | some op => executeDwOp ctx (st.setCur cur) op
  | none => pure (st.setCur cur)

/-- A number of rounds of the loop. -/
def evalSteps (ctx : EvalContext) : Nat → EvalState → Except Failure EvalState
  | 0, st => .ok st
  | n + 1, st => do
      let st ← evalStep ctx st
      evalSteps ctx n st

/-- The state in which the loop is entered. -/
def EvalState.start (ctx : EvalContext) (exprData : List Byte) (pushCfa : Bool) : EvalState :=
  ⟨⟨exprData, 0⟩, if pushCfa then [ctx.regs.cfa] else [], none, [], true⟩

/-- What `dwarf_expression::eval` returns when the loop ends in a state. -/
def EvalState.result (st : EvalState) : EvalResult :=
  if st.pieces = [] then .simple st.getCurrentLocation.1 else .pieces st.pieces

/-- `dwarf_expression::eval`, given up after a number of rounds: an expression
may branch back for ever. -/
def evalExpression (ctx : EvalContext) : Nat → EvalState → Except Failure EvalResult
  | 0, st => if st.cur.finished then .ok st.result else .error .schedule
  | n + 1, st =>
      if st.cur.finished then .ok st.result
      else do
        let st ← evalStep ctx st
        evalExpression ctx n st

end Gsdb
