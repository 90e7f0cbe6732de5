/-
DWARF expressions without branches, as postfix code.  Every encoding of an expression tree
evaluates to the tree's value, and straight-line arithmetic that leaves one value is the encoding
of exactly one tree.
-/
import Gsdb.CompositeLocations
import Gsdb.PostfixCode

namespace Gsdb

open ByteMemory ByteCursor PostfixCode

/-- The operations that push a value of their own. -/
inductive ValueOp where
  | constant (value : Word)
  | address (address : Word)
  | register (reg offset : Word)
  | frameBase (offset : Word)
  | callFrameCfa
deriving DecidableEq, Repr

/-- The operations on the top of the stack. -/
inductive UnaryOp where
  | deref
  | derefSize (size : Byte)
  | abs | neg | not
  | plusUconst (operand : Word)
deriving DecidableEq, Repr

/-- The operations on the two top elements. -/
inductive BinaryOp where
  | and | div | minus | mod | mul | or | plus | shl | shr | shra | xor
  | eq | ge | gt | le | lt | ne
deriving DecidableEq, Repr

abbrev ExprTree := Tree ValueOp UnaryOp BinaryOp

abbrev ExprCode := List (Instruction ValueOp UnaryOp BinaryOp)

namespace ValueOp

def value (ctx : EvalContext) : ValueOp → Except Failure Word
  | .constant x => .ok x
  | .address x => .ok (ctx.elf.toVirtAddr x)
  | .register reg offset => do
      let value ← ctx.dwarfRegister reg
      pure (value + offset)
  | .frameBase offset => do
      let location ← ctx.frameBase
      let address ← readFrameBaseResult location
      pure (address + offset)
  | .callFrameCfa => .ok ctx.regs.cfa

/-- The encodings of an operation; a constant has many. -/
inductive Encodes : ValueOp → List Byte → Prop where
  | lit {n : Byte} (h : n < 32) : Encodes (.constant (n.setWidth 64)) [0x30 + n]
  | addr (address : Word) : Encodes (.address address) (0x03 :: toLe 8 address.toNat)
  | const1u (x : BitVec 8) : Encodes (.constant (x.setWidth 64)) (0x08 :: toLe 1 x.toNat)
  | const1s (x : BitVec 8) : Encodes (.constant (x.signExtend 64)) (0x09 :: toLe 1 x.toNat)
  | const2u (x : BitVec 16) : Encodes (.constant (x.setWidth 64)) (0x0a :: toLe 2 x.toNat)
  | const2s (x : BitVec 16) : Encodes (.constant (x.signExtend 64)) (0x0b :: toLe 2 x.toNat)
  | const4u (x : BitVec 32) : Encodes (.constant (x.setWidth 64)) (0x0c :: toLe 4 x.toNat)
  | const4s (x : BitVec 32) : Encodes (.constant (x.signExtend 64)) (0x0d :: toLe 4 x.toNat)
  | const8u (x : Word) : Encodes (.constant x) (0x0e :: toLe 8 x.toNat)
  | const8s (x : Word) : Encodes (.constant x) (0x0f :: toLe 8 x.toNat)
  | constu {x : Word} {bytes : List Byte} (h : EncodesUleb bytes x) :
      Encodes (.constant x) (0x10 :: bytes)
  | consts {x : Word} {bytes : List Byte} (h : EncodesSleb bytes x) :
      Encodes (.constant x) (0x11 :: bytes)
  | breg {n : Byte} {offset : Word} {bytes : List Byte} (h : n < 32)
      (hoffset : EncodesSleb bytes offset) :
      Encodes (.register (n.setWidth 64) offset) ((0x70 + n) :: bytes)
  | bregx {reg offset : Word} {front bytes : List Byte} (hreg : EncodesUleb front reg)
      (hoffset : EncodesSleb bytes offset) :
      Encodes (.register reg offset) (0x92 :: (front ++ bytes))
  | fbreg {offset : Word} {bytes : List Byte} (h : EncodesSleb bytes offset) :
      Encodes (.frameBase offset) (0x91 :: bytes)
  | callFrameCfa : Encodes .callFrameCfa [0x9c]

end ValueOp

namespace UnaryOp

def value (ctx : EvalContext) : UnaryOp → Word → Except Failure Word
  | deref, x => do
      let bytes ← ctx.readMemory x 8
      pure (BitVec.ofNat 64 (ofLe bytes))
  | derefSize size, x => do
      let bytes ← ctx.readMemory x size.toNat
      if bytes.length ≤ 8 then pure (BitVec.ofNat 64 (ofLe bytes))
      else .error (.undefined "copy outside the variable")
  | abs, x => absolute x
  | neg, x => negate x
  | not, x => .ok (~~~x)
  | plusUconst operand, x => .ok (x + operand)

inductive Encodes : UnaryOp → List Byte → Prop where
  | deref : Encodes .deref [0x06]
  | derefSize (size : Byte) : Encodes (.derefSize size) [0x94, size]
  | abs : Encodes .abs [0x19]
  | neg : Encodes .neg [0x1f]
  | not : Encodes .not [0x20]
  | plusUconst {operand : Word} {bytes : List Byte} (h : EncodesUleb bytes operand) :
      Encodes (.plusUconst operand) (0x23 :: bytes)

end UnaryOp

namespace BinaryOp

/-- A comparison leaves one or zero. -/
def truth (b : Bool) : Word := if b then 1 else 0

def value : BinaryOp → Word → Word → Except Failure Word
  | and, x, y => .ok (x &&& y)
  | div, x, y => divide x y
  | minus, x, y => .ok (x - y)
  | mod, x, y => modulo x y
  | mul, x, y => .ok (x * y)
  | or, x, y => .ok (x ||| y)
  | plus, x, y => .ok (x + y)
  | shl, x, y => shiftBy y (x <<< ·)
  | shr, x, y => shiftBy y (x >>> ·)
  | shra, x, y => shiftBy y x.sshiftRight
  | xor, x, y => .ok (x ^^^ y)
  | eq, x, y => .ok (truth (x.toInt = y.toInt))
  | ge, x, y => .ok (truth (x.toInt ≥ y.toInt))
  | gt, x, y => .ok (truth (x.toInt > y.toInt))
  | le, x, y => .ok (truth (x.toInt ≤ y.toInt))
  | lt, x, y => .ok (truth (x.toInt < y.toInt))
  | ne, x, y => .ok (truth (x.toInt ≠ y.toInt))

def opcode : BinaryOp → Byte
  | and => 0x1a
  | div => 0x1b
  | minus => 0x1c
  | mod => 0x1d
  | mul => 0x1e
  | or => 0x21
  | plus => 0x22
  | shl => 0x24
  | shr => 0x25
  | shra => 0x26
  | xor => 0x27
  | eq => 0x29
  | ge => 0x2a
  | gt => 0x2b
  | le => 0x2c
  | lt => 0x2d
  | ne => 0x2e

end BinaryOp

/-- What the operations compute in a context. -/
def dwarfMeaning (ctx : EvalContext) : Meaning ValueOp UnaryOp BinaryOp Failure Word where
  leaf := ValueOp.value ctx
  unary := UnaryOp.value ctx
  binary := BinaryOp.value
  underflow := stackUnderflow

inductive EncodesInstruction : Instruction ValueOp UnaryOp BinaryOp → List Byte → Prop where
  | push {op : ValueOp} {bytes : List Byte} (h : op.Encodes bytes) :
      EncodesInstruction (.push op) bytes
  | apply {op : UnaryOp} {bytes : List Byte} (h : op.Encodes bytes) :
      EncodesInstruction (.apply op) bytes
  | combine (op : BinaryOp) : EncodesInstruction (.combine op) [op.opcode]

/-- Encoded instructions one behind the other. -/
inductive EncodesCode : ExprCode → List Byte → Prop where
  | nil : EncodesCode [] []
  | cons {instruction : Instruction ValueOp UnaryOp BinaryOp} {code : ExprCode}
      {first bytes : List Byte} (hfirst : EncodesInstruction instruction first)
      (hrest : EncodesCode code bytes) : EncodesCode (instruction :: code) (first ++ bytes)

section Steps

variable {ctx : EvalContext} {st : EvalState} {after tail : List Byte}

/-- A step whose opcode is known. -/
theorem evalStep_cons (op : DwOp) {opcode : Byte} (hrest : st.cur.rest = opcode :: tail)
    (hop : DwOp.ofByte opcode = some op) :
    evalStep ctx st = executeDwOp ctx (st.setCur (st.cur.advance 1)) op := by
  simp only [evalStep, Cursor.u8_of_cons hrest, inBounds_some, ok_bind, hop]

/-- A number in front of other bytes is read. -/
theorem fixedInt_number {w : Nat} {cur : Cursor} (hw : w = 8 * (w / 8)) (x : BitVec w)
    (hcur : cur.rest = toLe (w / 8) x.toNat ++ after) :
    cur.fixedInt w = some (x, cur.advance (w / 8)) := by
  have hlength := toLe_length (w / 8) x.toNat
  have hpow : 256 ^ (w / 8) = 2 ^ w := by
    rw [show 256 = 2 ^ 8 from rfl, ← Nat.pow_mul, ← hw]
  rw [Cursor.fixedInt_of_le (by rw [hcur, List.length_append, hlength]; omega), hcur,
    List.take_left' hlength, ofLe_toLe, hpow, Nat.mod_eq_of_lt x.isLt, BitVec.ofNat_toNat,
    BitVec.setWidth_eq]

theorem rest_behind_opcode {opcode : Byte} (hrest : st.cur.rest = opcode :: tail) :
    (st.cur.advance 1).rest = tail := by
  rw [Cursor.rest_advance, hrest]
  rfl

/-- The state behind some bytes, with another stack. -/
def EvalState.moved (st : EvalState) (n : Nat) (stack : List Word) : EvalState :=
  { st with cur := st.cur.advance n, stack := stack }

theorem pushOperand_number {w : Nat} (f : BitVec w → Word) (x : BitVec w) {opcode : Byte}
    (hw : w = 8 * (w / 8)) (hrest : st.cur.rest = opcode :: toLe (w / 8) x.toNat ++ after) :
    (st.setCur (st.cur.advance 1)).pushOperand
        (((st.cur.advance 1).fixedInt w).map fun (value, cur) => (f value, cur)) =
      .ok (st.moved (1 + w / 8) (f x :: st.stack)) := by
  rw [fixedInt_number hw x (rest_behind_opcode hrest), Cursor.advance_advance]
  rfl

theorem pushOperand_word (x : Word) {opcode : Byte}
    (hrest : st.cur.rest = opcode :: toLe 8 x.toNat ++ after) :
    (st.setCur (st.cur.advance 1)).pushOperand (st.cur.advance 1).u64 =
      .ok (st.moved 9 (x :: st.stack)) := by
  have hread : (st.cur.advance 1).u64 = some (x, (st.cur.advance 1).advance 8) :=
    fixedInt_number (by rfl) x (rest_behind_opcode hrest)
  rw [hread]
  rfl

theorem litOpcode : ∀ n : Byte, n < 32 → DwOp.ofByte (0x30 + n) = some (.lit n) := by
  decide +kernel

theorem bregOpcode : ∀ n : Byte, n < 32 → DwOp.ofByte (0x70 + n) = some (.breg n) := by
  decide +kernel

/-- A value is pushed, whatever stands behind its encoding. -/
theorem ValueOp.Encodes.step {op : ValueOp} {bytes : List Byte} (h : op.Encodes bytes)
    (hcur : st.cur.rest = bytes ++ after) : evalStep ctx st =
      (op.value ctx).map fun x => st.moved bytes.length (x :: st.stack) := by
  cases h with
  | lit h =>
      rw [evalStep_cons _ hcur (litOpcode _ h)]
      rfl
  | callFrameCfa =>
      rw [evalStep_cons .callFrameCfa hcur (by rfl)]
      rfl
  | addr address =>
      have hread : (st.cur.advance 1).u64 = some (address, (st.cur.advance 1).advance 8) :=
        fixedInt_number (by rfl) address (rest_behind_opcode hcur)
      rw [evalStep_cons .addr hcur (by rfl)]
      simp only [executeDwOp, EvalState.setCur_cur, hread, inBounds_some, ok_bind]
      rfl
  | const1u x =>
      rw [evalStep_cons .const1u hcur (by rfl)]
      exact pushOperand_number (·.setWidth 64) x (by rfl) hcur
  | const1s x =>
      rw [evalStep_cons .const1s hcur (by rfl)]
      exact pushOperand_number (·.signExtend 64) x (by rfl) hcur
  | const2u x =>
      rw [evalStep_cons .const2u hcur (by rfl)]
      exact pushOperand_number (·.setWidth 64) x (by rfl) hcur
  | const2s x =>
      rw [evalStep_cons .const2s hcur (by rfl)]
      exact pushOperand_number (·.signExtend 64) x (by rfl) hcur
  | const4u x =>
      rw [evalStep_cons .const4u hcur (by rfl)]
      exact pushOperand_number (·.setWidth 64) x (by rfl) hcur
  | const4s x =>
      rw [evalStep_cons .const4s hcur (by rfl)]
      exact pushOperand_number (·.signExtend 64) x (by rfl) hcur
  | const8u x =>
      rw [evalStep_cons .const8u hcur (by rfl)]
      exact pushOperand_word x hcur
  | const8s x =>
      rw [evalStep_cons .const8s hcur (by rfl)]
      exact pushOperand_word x hcur
  | @constu x bytes h =>
      rw [evalStep_cons .constu hcur (by rfl)]
      simp only [executeDwOp, EvalState.setCur_cur, h.read (rest_behind_opcode hcur)]
      rw [Cursor.advance_advance, List.length_cons, Nat.add_comm]
      rfl
  | @consts x bytes h =>
      rw [evalStep_cons .consts hcur (by rfl)]
      simp only [executeDwOp, EvalState.setCur_cur, h.read (rest_behind_opcode hcur)]
      rw [Cursor.advance_advance, List.length_cons, Nat.add_comm]
      rfl
  | @breg n offset bytes h hoffset =>
      have hread := hoffset.read (rest_behind_opcode hcur)
      rw [evalStep_cons _ hcur (bregOpcode _ h)]
      simp only [executeDwOp, EvalState.setCur_cur, hread, inBounds_some, ok_bind, ValueOp.value]
      cases ctx.dwarfRegister (n.setWidth 64) with
      | error e => rfl
      | ok value =>
          rw [Cursor.advance_advance, List.length_cons, Nat.add_comm]
          rfl
  | @bregx reg offset front bytes hreg hoffset =>
      have hfront : (st.cur.advance 1).rest = front ++ (bytes ++ after) :=
        (rest_behind_opcode hcur).trans (List.append_assoc _ _ _)
      have hread := hreg.read hfront
      have hbehind : ((st.cur.advance 1).advance front.length).rest = bytes ++ after := by
        rw [Cursor.rest_advance, hfront, List.drop_left]
      have hread' := hoffset.read hbehind
      rw [evalStep_cons .bregx hcur (by rfl)]
      simp only [executeDwOp, EvalState.setCur_cur, hread, hread', inBounds_some, ok_bind,
        ValueOp.value]
      cases ctx.dwarfRegister reg with
      | error e => rfl
      | ok value =>
          rw [Cursor.advance_advance, Cursor.advance_advance, List.length_cons,
            List.length_append, Nat.add_comm 1]
          rfl
  | @fbreg offset bytes h =>
      have hread := h.read (rest_behind_opcode hcur)
      rw [evalStep_cons .fbreg hcur (by rfl)]
      simp only [executeDwOp, EvalState.setCur_cur, hread, inBounds_some, ok_bind, ValueOp.value]
      cases ctx.frameBase with
      | error e => rfl
      | ok location =>
          simp only [ok_bind]
          cases readFrameBaseResult location with
          | error e => rfl
          | ok address =>
              rw [Cursor.advance_advance, List.length_cons, Nat.add_comm]
              rfl

theorem replaceTop_step {op : UnaryOp} {f : Word → Except Failure Word} (n : Nat)
    (hf : ∀ x, f x = op.value ctx x) : (st.setCur (st.cur.advance n)).replaceTop f =
      (PostfixCode.step (dwarfMeaning ctx) (.apply op) st.stack).map (st.moved n) := by
  obtain ⟨cur, stack, mostRecentLocation, pieces, resultIsAddress⟩ := st
  cases stack with
  | nil => rfl
  | cons x stack =>
      change (f x >>= _) = Except.map _ (op.value ctx x >>= _)
      rw [hf]
      cases op.value ctx x <;> rfl

theorem UnaryOp.Encodes.step {op : UnaryOp} {bytes : List Byte} (h : op.Encodes bytes)
    (hcur : st.cur.rest = bytes ++ after) : evalStep ctx st =
      (PostfixCode.step (dwarfMeaning ctx) (.apply op) st.stack).map (st.moved bytes.length) := by
  cases h with
  | deref =>
      rw [evalStep_cons .deref hcur (by rfl)]
      exact replaceTop_step 1 fun _ => rfl
  | abs =>
      rw [evalStep_cons .abs hcur (by rfl)]
      exact replaceTop_step 1 fun _ => rfl
  | neg =>
      rw [evalStep_cons .neg hcur (by rfl)]
      exact replaceTop_step 1 fun _ => rfl
  | not =>
      rw [evalStep_cons .not hcur (by rfl)]
      exact replaceTop_step 1 fun _ => rfl
  | derefSize size =>
      have hread := Cursor.u8_of_cons (rest_behind_opcode hcur)
      rw [evalStep_cons .derefSize hcur (by rfl)]
      simp only [executeDwOp, EvalState.setCur_cur, hread, inBounds_some, ok_bind]
      rw [Cursor.advance_advance]
      exact replaceTop_step 2 fun _ => rfl
  | @plusUconst operand bytes h =>
      have hread := h.read (rest_behind_opcode hcur)
      rw [evalStep_cons .plusUconst hcur (by rfl)]
      simp only [executeDwOp, EvalState.setCur_cur, hread, inBounds_some, ok_bind]
      rw [Cursor.advance_advance, List.length_cons, Nat.add_comm]
      exact replaceTop_step _ fun _ => rfl

theorem binop_step {op : BinaryOp} {f : Word → Word → Except Failure Word}
    (hf : ∀ x y, f x y = op.value x y) : (st.setCur (st.cur.advance 1)).binop f =
      (PostfixCode.step (dwarfMeaning ctx) (.combine op) st.stack).map (st.moved 1) := by
  obtain ⟨cur, stack, mostRecentLocation, pieces, resultIsAddress⟩ := st
  match stack with
  | [] => rfl
  | [_] => rfl
  | y :: x :: stack =>
      change (f x y >>= _) = Except.map _ (op.value x y >>= _)
      rw [hf]
      cases op.value x y <;> rfl

theorem BinaryOp.step (op : BinaryOp) (hcur : st.cur.rest = op.opcode :: after) :
    evalStep ctx st =
      (PostfixCode.step (dwarfMeaning ctx) (.combine op) st.stack).map (st.moved 1) := by
  cases op <;> rw [evalStep_cons _ hcur (by rfl)] <;> exact binop_step fun _ _ => rfl

/-- One round of the loop does one instruction. -/
theorem EncodesInstruction.step {instruction : Instruction ValueOp UnaryOp BinaryOp}
    {bytes : List Byte} (h : EncodesInstruction instruction bytes)
    (hcur : st.cur.rest = bytes ++ after) : evalStep ctx st =
      (PostfixCode.step (dwarfMeaning ctx) instruction st.stack).map (st.moved bytes.length) := by
  cases h with
  | @push op bytes h =>
      rw [h.step hcur]
      change _ = Except.map _ (op.value ctx >>= _)
      cases op.value ctx <;> rfl
  | apply h => exact h.step hcur
  | combine op => exact op.step hcur

theorem EncodesInstruction.ne_nil {instruction : Instruction ValueOp UnaryOp BinaryOp}
    {bytes : List Byte} (h : EncodesInstruction instruction bytes) : 0 < bytes.length := by
  cases h with
  | push h => cases h <;> exact Nat.succ_pos _
  | apply h => cases h <;> exact Nat.succ_pos _
  | combine op => exact Nat.succ_pos _

theorem moved_moved (st : EvalState) (n k : Nat) (stack stack' : List Word) :
    (st.moved n stack).moved k stack' = st.moved (n + k) stack' := by
  simp only [EvalState.moved, Cursor.advance_advance]

theorem rest_moved {bytes : List Byte} (stack : List Word) (hcur : st.cur.rest = bytes ++ after) :
    (st.moved bytes.length stack).cur.rest = after := by
  rw [EvalState.moved, Cursor.rest_advance, hcur, List.drop_left]

theorem unfinished_of_rest {opcode : Byte} (hrest : st.cur.rest = opcode :: tail) :
    ¬ st.cur.finished = true := by
  intro hfinished
  have hlength := congrArg List.length hrest
  rw [Cursor.finished, decide_eq_true_eq] at hfinished
  simp only [Cursor.rest, List.length_drop, List.length_cons] at hlength
  omega

theorem finished_of_rest (hrest : st.cur.rest = []) : st.cur.finished = true := by
  rw [Cursor.finished, decide_eq_true_eq]
  exact List.drop_eq_nil_iff.mp hrest

/-- The loop runs encoded code, and goes on behind it. -/
theorem EncodesCode.eval {code : ExprCode} {bytes : List Byte} (h : EncodesCode code bytes)
    (hcur : st.cur.rest = bytes ++ after) (n : Nat) :
    evalExpression ctx (code.length + n) st =
      (run (dwarfMeaning ctx) code st.stack >>= fun stack =>
        evalExpression ctx n (st.moved bytes.length stack)) := by
  induction h generalizing st with
  | nil =>
      rw [List.length_nil, Nat.zero_add]
      rfl
  | @cons instruction code first bytes hfirst hrest ih =>
      rw [List.append_assoc] at hcur
      obtain ⟨opcode, more, hopcode⟩ := List.exists_cons_of_length_pos hfirst.ne_nil
      have hopen : ¬ st.cur.finished = true := by
        rw [hopcode, List.cons_append] at hcur
        exact unfinished_of_rest hcur
      rw [List.length_cons, Nat.add_right_comm, evalExpression, if_neg hopen, hfirst.step hcur, run]
      cases PostfixCode.step (dwarfMeaning ctx) instruction st.stack with
      | error e => rfl
      | ok stack =>
          change evalExpression ctx (code.length + n) (st.moved first.length stack) = _
          rw [ih (rest_moved stack hcur), List.length_append]
          simp only [moved_moved]
          rfl

theorem EncodesCode.length_le {code : ExprCode} {bytes : List Byte} (h : EncodesCode code bytes) :
    code.length ≤ bytes.length := by
  induction h with
  | nil => exact Nat.le_refl _
  | cons hfirst hrest ih =>
      have hpos := hfirst.ne_nil
      rw [List.length_cons, List.length_append]
      omega

theorem rest_start (ctx : EvalContext) (bytes : List Byte) (pushCfa : Bool) :
    (EvalState.start ctx bytes pushCfa).cur.rest = bytes := rfl

/-- A whole expression. -/
theorem EncodesCode.evalWhole {code : ExprCode} {bytes : List Byte} (h : EncodesCode code bytes)
    (pushCfa : Bool) {n : Nat} (hn : bytes.length ≤ n) :
    evalExpression ctx n (.start ctx bytes pushCfa) =
      (run (dwarfMeaning ctx) code (EvalState.start ctx bytes pushCfa).stack).map fun stack =>
        ((EvalState.start ctx bytes pushCfa).moved bytes.length stack).result := by
  have hle := h.length_le
  have hcur : (EvalState.start ctx bytes pushCfa).cur.rest = bytes ++ [] :=
    (List.append_nil bytes).symm
  obtain ⟨k, rfl⟩ := Nat.exists_eq_add_of_le (Nat.le_trans hle hn)
  rw [h.eval hcur k]
  cases run (dwarfMeaning ctx) code (EvalState.start ctx bytes pushCfa).stack with
  | error e => rfl
  | ok stack => exact evalExpression_of_finished k (finished_of_rest (rest_moved stack hcur))

/-- A whole expression whose value is the object itself. -/
theorem EncodesCode.evalValue {code : ExprCode} {bytes : List Byte} (h : EncodesCode code bytes)
    (pushCfa : Bool) {n : Nat} (hn : bytes.length < n) :
    evalExpression ctx n (.start ctx (bytes ++ [0x9f]) pushCfa) =
      (run (dwarfMeaning ctx) code (EvalState.start ctx (bytes ++ [0x9f]) pushCfa).stack).map
        fun stack => EvalState.result
          { (EvalState.start ctx (bytes ++ [0x9f]) pushCfa).moved (bytes.length + 1) stack with
            resultIsAddress := false } := by
  have hle := h.length_le
  have hcur := rest_start ctx (bytes ++ [0x9f]) pushCfa
  obtain ⟨k, rfl⟩ := Nat.exists_eq_add_of_le (Nat.le_trans (Nat.succ_le_succ hle) hn)
  rw [Nat.succ_add_eq_add_succ, h.eval hcur (k + 1)]
  cases run (dwarfMeaning ctx) code (EvalState.start ctx (bytes ++ [0x9f]) pushCfa).stack with
  | error e => rfl
  | ok stack =>
      have hlast := rest_moved stack hcur
      change evalExpression ctx (k + 1) _ = _
      rw [evalExpression, if_neg (unfinished_of_rest hlast), evalStep_stackValue hlast, ok_bind,
        evalExpression_of_finished]
      · rfl
      · exact finished_of_rest (rest_behind_opcode hlast)

end Steps

theorem run_tree {ctx : EvalContext} (tree : ExprTree) (stack : List Word) :
    run (dwarfMeaning ctx) tree.code stack = (tree.value (dwarfMeaning ctx)).map (· :: stack) := by
  have hcode := @run_code _ _ _ _ _ (dwarfMeaning ctx) stack [] tree
  rw [List.append_nil] at hcode
  rw [hcode]
  cases tree.value (dwarfMeaning ctx) <;> rfl

theorem EncodesCode.evalTree {tree : ExprTree} {bytes : List Byte}
    (h : EncodesCode tree.code bytes) (pushCfa : Bool) {n : Nat} (hn : bytes.length ≤ n) :
    evalExpression ctx n (.start ctx bytes pushCfa) =
      (tree.value (dwarfMeaning ctx)).map fun x => .simple (.address x) := by
  rw [h.evalWhole pushCfa hn, run_tree]
  cases tree.value (dwarfMeaning ctx) <;> rfl

/-- Each encoding of a tree evaluates to the tree's value, as an address or, with
`DW_OP_stack_value` behind it, as the value itself; where the tree's value fails, the evaluation
fails alike. -/
theorem evalExpression_tree (ctx : EvalContext) (tree : ExprTree) (bytes : List Byte)
    (pushCfa : Bool) (h : EncodesCode tree.code bytes) (n : Nat) (hn : bytes.length < n) :
    evalExpression ctx n (.start ctx bytes pushCfa) =
        (tree.value (dwarfMeaning ctx)).map (fun x => .simple (.address x)) ∧
      evalExpression ctx n (.start ctx (bytes ++ [0x9f]) pushCfa) =
        (tree.value (dwarfMeaning ctx)).map (fun x => .simple (.literal x)) := by
  refine ⟨h.evalTree pushCfa (Nat.le_of_lt hn), ?_⟩
  rw [h.evalValue pushCfa hn, run_tree]
  cases tree.value (dwarfMeaning ctx) <;> rfl

/-- Straight-line arithmetic is the encoding of exactly one tree and evaluates to its value, or it
does not leave one value; where its stack would run empty, it fails. -/
theorem evalExpression_arithmetic (ctx : EvalContext) (code : ExprCode) (bytes : List Byte)
    (h : EncodesCode code bytes) :
    (sizeBehind code 0 = some 1 → ∃ tree : ExprTree, tree.code = code ∧
      (∀ other : ExprTree, other.code = code → other = tree) ∧
      ∀ n > bytes.length, evalExpression ctx n (.start ctx bytes false) =
        (tree.value (dwarfMeaning ctx)).map (fun x => .simple (.address x))) ∧
    (sizeBehind code 0 = none → ∀ n > bytes.length,
      ∃ e, evalExpression ctx n (.start ctx bytes false) = .error e) := by
  constructor
  · intro hsize
    obtain ⟨tree, rfl⟩ := exists_tree hsize
    exact ⟨tree, rfl, fun other => code_injective,
      fun n hn => h.evalTree false (Nat.le_of_lt hn)⟩
  · intro hsize n hn
    rw [h.evalWhole false (Nat.le_of_lt hn)]
    change ∃ e, (run (dwarfMeaning ctx) code []).map _ = .error e
    cases hrun : run (dwarfMeaning ctx) code [] with
    | error e => exact ⟨e, rfl⟩
    | ok stack =>
        have hknown := run_size hrun
        rw [List.length_nil, hsize] at hknown
        cases hknown

namespace TreeWitness

/-- The place of an object in `.data`, less the product of two and the address of nothing. -/
def tree : ExprTree :=
  .binary .minus (.leaf (.address 0x4008))
    (.binary .mul (.leaf (.constant 2)) (.leaf (.address 0x4018)))

def bytes : List Byte :=
  [0x03, 0x08, 0x40, 0, 0, 0, 0, 0, 0, 0x32, 0x03, 0x18, 0x40, 0, 0, 0, 0, 0, 0, 0x1e, 0x1c]

theorem tree_encoded : EncodesCode tree.code bytes :=
  .cons (.push (.addr 0x4008)) (.cons (.push (.lit (n := 2) (by decide)))
    (.cons (.push (.addr 0x4018)) (.cons (.combine .mul) (.cons (.combine .minus) .nil))))

/-- The value is an address, or with `DW_OP_stack_value` behind the code the object itself. -/
theorem evalExpression_tree_addresses :
    evalExpression FramingWitness.context 22 (.start FramingWitness.context bytes false) =
        .ok (.simple (.address 0x555555554008)) ∧
      evalExpression FramingWitness.context 22
        (.start FramingWitness.context (bytes ++ [0x9f]) false) =
          .ok (.simple (.literal 0x555555554008)) :=
  evalExpression_tree FramingWitness.context tree bytes false tree_encoded 22 (by decide)

/-- The code of a tree leaves one value; its last operation alone finds no operands. -/
theorem evalExpression_arithmetic_addresses :
    (∃ other : ExprTree, other.code = tree.code ∧
      evalExpression FramingWitness.context 22 (.start FramingWitness.context bytes false) =
        (other.value (dwarfMeaning FramingWitness.context)).map
          (fun x => .simple (.address x))) ∧
    ∃ e, evalExpression FramingWitness.context 2
      (.start FramingWitness.context [0x1c] false) = .error e := by
  constructor
  · obtain ⟨other, hcode, -, hvalue⟩ :=
      (evalExpression_arithmetic FramingWitness.context tree.code bytes tree_encoded).1 (by decide)
    exact ⟨other, hcode, hvalue 22 (by decide)⟩
  · exact (evalExpression_arithmetic FramingWitness.context [.combine .minus] [0x1c]
      (.cons (.combine .minus) .nil)).2 (by rfl) 2 (by decide)

end TreeWitness

end Gsdb
