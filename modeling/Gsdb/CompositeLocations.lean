/-
Composite locations.  A straight-line part of an expression runs inside the
whole as it runs alone, and after every piece the interpreter is back in the
state it started in, so that a composite location is assembled piece by piece.
-/
import Gsdb.ExpressionFraming
import Gsdb.Leb128

namespace Gsdb

open ByteMemory ByteCursor

/-- The operations that compute on the stack and neither branch, name a location
nor end a piece. -/
def DwOp.isStackOperation : DwOp → Bool
  | .skip | .bra | .reg _ | .regx | .implicitValue | .stackValue | .piece | .bitPiece => false
  | _ => true

/-- The operations that name a register as the location. -/
def DwOp.isRegister : DwOp → Bool
  | .reg _ | .regx => true
  | _ => false

/-- A byte string that is a sequence of operations of a kind. -/
inductive OperationsOf (kind : DwOp → Bool) : List Byte → Prop where
  | nil : OperationsOf kind []
  | cons {bytes : List Byte} {op : DwOp} {n : Nat} (front : operationAt bytes = some (op, n))
      (hop : kind op = true) (rest : OperationsOf kind (bytes.drop n)) :
      OperationsOf kind bytes

/-- A straight-line computation on the stack. -/
def StackOperations : List Byte → Prop := OperationsOf DwOp.isStackOperation

/-- An expression evaluates to a result, given enough rounds. -/
def Evaluates (ctx : EvalContext) (exprData : List Byte) (result : EvalResult) : Prop :=
  ∃ rounds, ∀ n ≥ rounds, evalExpression ctx n (EvalState.start ctx exprData false) = .ok result

/-- An expression runs to its end and leaves one value. -/
def LeavesOneValue (ctx : EvalContext) (exprData : List Byte) : Prop :=
  ∃ rounds last value, evalSteps ctx rounds (EvalState.start ctx exprData false) = .ok last ∧
    last.cur.finished = true ∧ last.stack = [value]

/-- A simple location description: empty, a register, or a straight-line
computation of one value that is an address or, with `DW_OP_stack_value`, the
value itself. -/
inductive SimpleDescription (ctx : EvalContext) : List Byte → Prop where
  | empty : SimpleDescription ctx []
  | register {bytes : List Byte} {op : DwOp} (front : operationAt bytes = some (op, bytes.length))
      (hop : op.isRegister = true) : SimpleDescription ctx bytes
  | address {bytes : List Byte} (hops : StackOperations bytes)
      (hleaves : LeavesOneValue ctx bytes) : SimpleDescription ctx bytes
  | value {bytes : List Byte} (hops : StackOperations bytes)
      (hleaves : LeavesOneValue ctx bytes) : SimpleDescription ctx (bytes ++ [0x9f])

/-- `DW_OP_piece` and `DW_OP_bit_piece` with their operands. -/
inductive PieceOperation where
  | piece (byteSize : Word)
  | bitPiece (bitSize offset : Word)

namespace PieceOperation

def bitSize : PieceOperation → Word
  | .piece byteSize => byteSize * 8
  | .bitPiece bitSize _ => bitSize

def offset : PieceOperation → Word
  | .piece _ => 0
  | .bitPiece _ offset => offset

def Encodes : PieceOperation → List Byte → Prop
  | .piece byteSize, bytes => ∃ size, EncodesUleb size byteSize ∧ bytes = 0x93 :: size
  | .bitPiece bitSize offset, bytes => ∃ size place, EncodesUleb size bitSize ∧
      EncodesUleb place offset ∧ bytes = 0x9d :: (size ++ place)

end PieceOperation

/-- A description and the operation that ends its piece. -/
structure CompositePart where
  description : List Byte
  operation : PieceOperation
  operationBytes : List Byte

def CompositePart.bytes (part : CompositePart) : List Byte :=
  part.description ++ part.operationBytes

/-- A part of a composite location is well formed. -/
structure CompositePart.WellFormed (ctx : EvalContext) (part : CompositePart) : Prop where
  description : SimpleDescription ctx part.description
  operation : part.operation.Encodes part.operationBytes

/-- What a piece should be: the location of its description alone, with the size
and offset of its operation. -/
structure CompositePart.Yields (ctx : EvalContext) (part : CompositePart) (piece : Piece) :
    Prop where
  location : Evaluates ctx part.description (.simple piece.location)
  bitSize : piece.bitSize = part.operation.bitSize
  offset : piece.offset = part.operation.offset

/-- A state of the evaluation of a part, as a state of the evaluation of the
whole with pieces before it. -/
def EvalState.within (st : EvalState) (whole : List Byte) (base : Nat) (pieces : List Piece) :
    EvalState :=
  { st with cur := st.cur.within whole base, pieces := pieces ++ st.pieces }

section Within

variable {ctx : EvalContext} {st next : EvalState} {whole after : List Byte} {base : Nat}
  {pieces : List Piece}

theorem binop_within {f : Word → Word → Except Failure Word} (h : st.binop f = .ok next) :
    (st.within whole base pieces).binop f = .ok (next.within whole base pieces) := by
  unfold EvalState.binop at h ⊢
  rw [show (st.within whole base pieces).stack = st.stack from rfl]
  split at h
  · obtain ⟨value, hvalue, hnext⟩ := bind_eq_ok.mp h
    cases hnext
    simp only [hvalue, ok_bind]
    rfl
  · cases h

theorem replaceTop_within {f : Word → Except Failure Word} (h : st.replaceTop f = .ok next) :
    (st.within whole base pieces).replaceTop f = .ok (next.within whole base pieces) := by
  unfold EvalState.replaceTop at h ⊢
  rw [show (st.within whole base pieces).stack = st.stack from rfl]
  split at h
  · obtain ⟨value, hvalue, hnext⟩ := bind_eq_ok.mp h
    cases hnext
    simp only [hvalue, ok_bind]
    rfl
  · cases h

/-- An operand that is read inside the part is pushed. -/
theorem pushOperand_within {operand operand' : Option (Word × Cursor)}
    (h : st.pushOperand operand = .ok next)
    (hread : ∀ value cur, operand = some (value, cur) →
      operand' = some (value, cur.within whole base)) :
    (st.within whole base pieces).pushOperand operand' =
      .ok (next.within whole base pieces) := by
  obtain ⟨⟨value, cur⟩, hoperand, hnext⟩ := bind_eq_ok.mp h
  cases hnext
  rw [EvalState.pushOperand, hread value cur (inBounds_eq_ok.mp hoperand)]
  rfl

theorem unsignedOperand_within {w : Nat} (hw : 8 ≤ w) {cur : Cursor}
    (hpart : whole.drop base = cur.data ++ after) (value : Word) (last : Cursor)
    (h : unsignedOperand (cur.fixedInt w) = some (value, last)) :
    unsignedOperand ((cur.within whole base).fixedInt w) =
      some (value, last.within whole base) := by
  obtain ⟨⟨x, cur'⟩, hread, hout⟩ := Option.map_eq_some_iff.mp h
  cases hout
  rw [Cursor.fixedInt_within hw hpart hread]
  rfl

theorem signedOperand_within {w : Nat} (hw : 8 ≤ w) {cur : Cursor}
    (hpart : whole.drop base = cur.data ++ after) (value : Word) (last : Cursor)
    (h : signedOperand (cur.fixedInt w) = some (value, last)) :
    signedOperand ((cur.within whole base).fixedInt w) =
      some (value, last.within whole base) := by
  obtain ⟨⟨x, cur'⟩, hread, hout⟩ := Option.map_eq_some_iff.mp h
  cases hout
  rw [Cursor.fixedInt_within hw hpart hread]
  rfl

/-- The operations that do the same in a part and in the whole. -/
def DwOp.isLocal : DwOp → Bool
  | .skip | .bra | .implicitValue | .piece | .bitPiece => false
  | _ => true

theorem executeDwOp_within {op : DwOp} (hop : op.isLocal = true)
    (hpart : whole.drop base = st.cur.data ++ after) (h : executeDwOp ctx st op = .ok next) :
    executeDwOp ctx (st.within whole base pieces) op = .ok (next.within whole base pieces) := by
  cases op
  case skip | bra | implicitValue | piece | bitPiece => cases hop
  case xderef | xderefSize | pushObjectAddress | formTlsAddress | call2 | call4 | callRef =>
    cases h
  case lit | callFrameCfa | stackValue | nop =>
    cases h
    rfl
  case minus | mod | mul | and | or | plus | shl | shr | shra | xor | div =>
    exact binop_within h
  case le | ge | eq | lt | gt | ne => exact binop_within h
  case abs | neg | not | deref => exact replaceTop_within h
  case dup | drop | «over» | swap | rot =>
    simp only [executeDwOp] at h ⊢
    rw [show (st.within whole base pieces).stack = st.stack from rfl]
    split at h <;> cases h
    rfl
  case const8u | const8s =>
    exact pushOperand_within h fun _ _ hread => Cursor.fixedInt_within (by decide) hpart hread
  case constu => exact pushOperand_within h fun _ _ hread => Cursor.uleb128_within hpart hread
  case consts => exact pushOperand_within h fun _ _ hread => Cursor.sleb128_within hpart hread
  case const1u | const2u | const4u =>
    exact pushOperand_within h (unsignedOperand_within (by decide) hpart)
  case const1s | const2s | const4s =>
    exact pushOperand_within h (signedOperand_within (by decide) hpart)
  case addr =>
    obtain ⟨⟨addr, cur⟩, hread, hnext⟩ := bind_eq_ok.mp h
    cases hnext
    have hwhole : (st.within whole base pieces).cur.u64 = some (addr, cur.within whole base) :=
      Cursor.fixedInt_within (by decide) hpart (inBounds_eq_ok.mp hread)
    simp only [executeDwOp, hwhole, inBounds_some, ok_bind]
    rfl
  case reg =>
    simp only [executeDwOp] at h ⊢
    split at h
    · rename_i hframe
      obtain ⟨value, hvalue, hnext⟩ := bind_eq_ok.mp h
      cases hnext
      rw [if_pos hframe, hvalue]
      rfl
    · rename_i hframe
      cases h
      rw [if_neg hframe]
      rfl
  case breg =>
    obtain ⟨value, hvalue, hrest⟩ := bind_eq_ok.mp h
    obtain ⟨⟨offset, cur⟩, hread, hnext⟩ := bind_eq_ok.mp hrest
    cases hnext
    have hwhole : (st.within whole base pieces).cur.sleb128 =
        some (offset, cur.within whole base) :=
      Cursor.sleb128_within hpart (inBounds_eq_ok.mp hread)
    simp only [executeDwOp, hvalue, hwhole, inBounds_some, ok_bind]
    rfl
  case fbreg =>
    obtain ⟨⟨offset, cur⟩, hread, hrest⟩ := bind_eq_ok.mp h
    obtain ⟨location, hlocation, hrest⟩ := bind_eq_ok.mp hrest
    obtain ⟨address, haddress, hnext⟩ := bind_eq_ok.mp hrest
    cases hnext
    have hwhole : (st.within whole base pieces).cur.sleb128 =
        some (offset, cur.within whole base) :=
      Cursor.sleb128_within hpart (inBounds_eq_ok.mp hread)
    simp only [executeDwOp, hlocation, haddress, hwhole, inBounds_some, ok_bind]
    rfl
  case bregx =>
    obtain ⟨⟨reg, middle⟩, hreg, hrest⟩ := bind_eq_ok.mp h
    obtain ⟨value, hvalue, hrest⟩ := bind_eq_ok.mp hrest
    obtain ⟨⟨offset, cur⟩, hoffset, hnext⟩ := bind_eq_ok.mp hrest
    cases hnext
    have hmiddle : middle.data = st.cur.data := by
      obtain ⟨n, -, rfl⟩ := Cursor.uleb128_eq_some (inBounds_eq_ok.mp hreg)
      rfl
    have hwhole : (st.within whole base pieces).cur.uleb128 =
        some (reg, middle.within whole base) :=
      Cursor.uleb128_within hpart (inBounds_eq_ok.mp hreg)
    have hwhole' : (middle.within whole base).sleb128 = some (offset, cur.within whole base) :=
      Cursor.sleb128_within (hmiddle ▸ hpart) (inBounds_eq_ok.mp hoffset)
    simp only [executeDwOp, hvalue, hwhole, hwhole', inBounds_some, ok_bind]
    rfl
  case regx =>
    obtain ⟨⟨reg, cur⟩, hread, hrest⟩ := bind_eq_ok.mp h
    have hwhole : (st.within whole base pieces).cur.uleb128 =
        some (reg, cur.within whole base) :=
      Cursor.uleb128_within hpart (inBounds_eq_ok.mp hread)
    simp only [executeDwOp, hwhole, inBounds_some, ok_bind] at hrest ⊢
    split at hrest
    · rename_i hframe
      obtain ⟨value, hvalue, hnext⟩ := bind_eq_ok.mp hrest
      cases hnext
      rw [if_pos hframe, hvalue]
      rfl
    · rename_i hframe
      cases hrest
      rw [if_neg hframe]
      rfl
  case plusUconst =>
    obtain ⟨⟨operand, cur⟩, hread, hrest⟩ := bind_eq_ok.mp h
    have hwhole : (st.within whole base pieces).cur.uleb128 =
        some (operand, cur.within whole base) :=
      Cursor.uleb128_within hpart (inBounds_eq_ok.mp hread)
    simp only [executeDwOp, hwhole, inBounds_some, ok_bind]
    exact replaceTop_within hrest
  case derefSize =>
    obtain ⟨⟨size, cur⟩, hread, hrest⟩ := bind_eq_ok.mp h
    have hwhole : (st.within whole base pieces).cur.u8 = some (size, cur.within whole base) :=
      Cursor.fixedInt_within (by decide) hpart (inBounds_eq_ok.mp hread)
    simp only [executeDwOp, hwhole, inBounds_some, ok_bind]
    exact replaceTop_within hrest
  case pick =>
    obtain ⟨⟨index, cur⟩, hread, hrest⟩ := bind_eq_ok.mp h
    have hwhole : (st.within whole base pieces).cur.u8 = some (index, cur.within whole base) :=
      Cursor.fixedInt_within (by decide) hpart (inBounds_eq_ok.mp hread)
    simp only [executeDwOp, hwhole, inBounds_some, ok_bind] at hrest ⊢
    rw [show (st.within whole base pieces).stack = st.stack from rfl]
    split at hrest <;> cases hrest
    rfl

/-- A step in a sequence of operations executes the first of them and leads
behind it. -/
theorem OperationsOf.step {kind : DwOp → Bool}
    (hkind : ∀ op, kind op = true → op.isLocal = true) (hops : OperationsOf kind st.cur.rest)
    (hpos : st.cur.pos ≤ st.cur.data.length) (h : evalStep ctx st = .ok next) :
    ∃ opcode tail op, st.cur.rest = opcode :: tail ∧ DwOp.ofByte opcode = some op ∧
      kind op = true ∧ executeDwOp ctx (st.setCur (st.cur.advance 1)) op = .ok next ∧
      OperationsOf kind next.cur.rest ∧ next.cur.data = st.cur.data ∧
      next.cur.pos ≤ next.cur.data.length := by
  generalize hbytes : st.cur.rest = bytes at hops
  cases hops with
  | nil =>
      obtain ⟨⟨opcode, cur⟩, hread, -⟩ := bind_eq_ok.mp h
      obtain ⟨hcons, -⟩ := Cursor.u8_eq_some (inBounds_eq_ok.mp hread)
      rw [hbytes] at hcons
      cases hcons
  | @cons bytes op n front hop rest =>
      subst hbytes
      obtain ⟨k, rfl, hsize, hexec⟩ := evalStep_of_operation front
      rw [hexec] at h
      have hplain : op ≠ .skip ∧ op ≠ .bra ∧ op ≠ .implicitValue := by
        have hlocal := hkind op hop
        refine ⟨?_, ?_, ?_⟩ <;> rintro rfl <;> cases hlocal
      obtain ⟨k', hsize', hcur⟩ := executeDwOp_cur h hplain
      obtain rfl : k = k' := Option.some.inj (hsize.symm.trans hsize')
      have hnext : next.cur = st.cur.advance (k + 1) := by
        rw [hcur, Nat.add_comm]
        exact Cursor.advance_advance _ _ _
      obtain ⟨opcode, tail, -, hcons, hbyte, -⟩ := operationAt_eq_some front
      refine ⟨opcode, tail, op, hcons, hbyte, hop, h, ?_, by rw [hnext]; rfl, ?_⟩
      · rw [hnext, Cursor.rest_advance]
        exact rest
      · have hle := operandsSize_le hsize
        rw [hnext, Cursor.advance_data, Cursor.advance_pos]
        simp only [Cursor.rest, Cursor.advance, List.length_drop] at hle
        have hlength := congrArg List.length hcons
        simp only [Cursor.rest, List.length_drop, List.length_cons] at hlength
        omega

/-- A step of a part is a step of the whole. -/
theorem evalStep_within {opcode : Byte} {tail : List Byte} {op : DwOp}
    (hrest : st.cur.rest = opcode :: tail) (hbyte : DwOp.ofByte opcode = some op)
    (hop : op.isLocal = true) (hpart : whole.drop base = st.cur.data ++ after)
    (h : executeDwOp ctx (st.setCur (st.cur.advance 1)) op = .ok next) :
    evalStep ctx (st.within whole base pieces) = .ok (next.within whole base pieces) := by
  have hread : (st.within whole base pieces).cur.u8 =
      some (opcode, (st.cur.advance 1).within whole base) :=
    Cursor.fixedInt_within (by decide) hpart (Cursor.u8_of_cons hrest)
  simp only [evalStep, hread, inBounds_some, ok_bind, hbyte]
  have hpart' : whole.drop base = (st.setCur (st.cur.advance 1)).cur.data ++ after := hpart
  exact executeDwOp_within hop hpart' h

/-- A run of a sequence of operations is a run of the whole, and it stays inside
the sequence. -/
theorem evalSteps_within {kind : DwOp → Bool} {last : EvalState}
    (hkind : ∀ op, kind op = true → op.isLocal = true) (n : Nat) :
    ∀ st, OperationsOf kind st.cur.rest → st.cur.pos ≤ st.cur.data.length →
      whole.drop base = st.cur.data ++ after → evalSteps ctx n st = .ok last →
      evalSteps ctx n (st.within whole base pieces) = .ok (last.within whole base pieces) ∧
        last.cur.data = st.cur.data ∧ last.cur.pos ≤ last.cur.data.length := by
  induction n with
  | zero =>
      intro st hops hpos hpart h
      cases h
      exact ⟨rfl, rfl, hpos⟩
  | succ n ih =>
      intro st hops hpos hpart h
      obtain ⟨next, hstep, hsteps⟩ := bind_eq_ok.mp h
      obtain ⟨opcode, tail, op, hrest, hbyte, hop, hexec, hops', hdata, hpos'⟩ :=
        hops.step hkind hpos hstep
      have hwhole : evalStep ctx (st.within whole base pieces) =
          .ok (next.within whole base pieces) :=
        evalStep_within hrest hbyte (hkind op hop) hpart hexec
      obtain ⟨hrun, hdata', hinside⟩ := ih next hops' hpos' (hdata ▸ hpart) hsteps
      refine ⟨?_, hdata'.trans hdata, hinside⟩
      rw [evalSteps, hwhole, ok_bind, hrun]

end Within

section Stack

variable {ctx : EvalContext} {st next : EvalState}

/-- What a computation on the stack leaves alone. -/
structure EvalState.SameBesides (st next : EvalState) : Prop where
  mostRecentLocation : next.mostRecentLocation = st.mostRecentLocation
  resultIsAddress : next.resultIsAddress = st.resultIsAddress
  pieces : next.pieces = st.pieces

theorem binop_sameBesides {f : Word → Word → Except Failure Word} (h : st.binop f = .ok next) :
    st.SameBesides next := by
  unfold EvalState.binop at h
  split at h
  · obtain ⟨value, -, hnext⟩ := bind_eq_ok.mp h
    cases hnext
    exact ⟨rfl, rfl, rfl⟩
  · cases h

theorem replaceTop_sameBesides {f : Word → Except Failure Word} (h : st.replaceTop f = .ok next) :
    st.SameBesides next := by
  unfold EvalState.replaceTop at h
  split at h
  · obtain ⟨value, -, hnext⟩ := bind_eq_ok.mp h
    cases hnext
    exact ⟨rfl, rfl, rfl⟩
  · cases h

theorem pushOperand_sameBesides {operand : Option (Word × Cursor)}
    (h : st.pushOperand operand = .ok next) : st.SameBesides next := by
  obtain ⟨⟨value, cur⟩, -, hnext⟩ := bind_eq_ok.mp h
  cases hnext
  exact ⟨rfl, rfl, rfl⟩

theorem executeDwOp_sameBesides {op : DwOp} (hop : op.isStackOperation = true)
    (h : executeDwOp ctx st op = .ok next) : st.SameBesides next := by
  cases op
  case skip | bra | reg | regx | implicitValue | stackValue | piece | bitPiece => cases hop
  case xderef | xderefSize | pushObjectAddress | formTlsAddress | call2 | call4 | callRef =>
    cases h
  case lit | callFrameCfa | nop =>
    cases h
    exact ⟨rfl, rfl, rfl⟩
  case minus | mod | mul | and | or | plus | shl | shr | shra | xor | div =>
    exact binop_sameBesides h
  case le | ge | eq | lt | gt | ne => exact binop_sameBesides h
  case abs | neg | not | deref => exact replaceTop_sameBesides h
  case dup | drop | «over» | swap | rot =>
    simp only [executeDwOp] at h
    split at h <;> cases h
    exact ⟨rfl, rfl, rfl⟩
  case const1u | const1s | const2u | const2s | const4u | const4s | const8u | const8s | constu
      | consts =>
    exact pushOperand_sameBesides h
  case addr =>
    obtain ⟨⟨addr, cur⟩, -, hnext⟩ := bind_eq_ok.mp h
    cases hnext
    exact ⟨rfl, rfl, rfl⟩
  case breg =>
    obtain ⟨value, -, hrest⟩ := bind_eq_ok.mp h
    obtain ⟨⟨offset, cur⟩, -, hnext⟩ := bind_eq_ok.mp hrest
    cases hnext
    exact ⟨rfl, rfl, rfl⟩
  case fbreg =>
    obtain ⟨⟨offset, cur⟩, -, hrest⟩ := bind_eq_ok.mp h
    obtain ⟨location, -, hrest⟩ := bind_eq_ok.mp hrest
    obtain ⟨address, -, hnext⟩ := bind_eq_ok.mp hrest
    cases hnext
    exact ⟨rfl, rfl, rfl⟩
  case bregx =>
    obtain ⟨⟨reg, middle⟩, -, hrest⟩ := bind_eq_ok.mp h
    obtain ⟨value, -, hrest⟩ := bind_eq_ok.mp hrest
    obtain ⟨⟨offset, cur⟩, -, hnext⟩ := bind_eq_ok.mp hrest
    cases hnext
    exact ⟨rfl, rfl, rfl⟩
  case plusUconst =>
    obtain ⟨⟨operand, cur⟩, -, hrest⟩ := bind_eq_ok.mp h
    have hset : (st.setCur cur).replaceTop _ = .ok next := hrest
    obtain ⟨hlocation, hflag, hpieces⟩ := replaceTop_sameBesides hset
    exact ⟨hlocation, hflag, hpieces⟩
  case derefSize =>
    obtain ⟨⟨size, cur⟩, -, hrest⟩ := bind_eq_ok.mp h
    have hset : (st.setCur cur).replaceTop _ = .ok next := hrest
    obtain ⟨hlocation, hflag, hpieces⟩ := replaceTop_sameBesides hset
    exact ⟨hlocation, hflag, hpieces⟩
  case pick =>
    obtain ⟨⟨index, cur⟩, -, hrest⟩ := bind_eq_ok.mp h
    simp only at hrest
    split at hrest <;> cases hrest
    exact ⟨rfl, rfl, rfl⟩

theorem isLocal_of_isStackOperation (op : DwOp) (h : op.isStackOperation = true) :
    op.isLocal = true := by
  cases op <;> first | rfl | cases h

/-- A computation on the stack leaves the rest of the interpreter's state alone. -/
theorem evalSteps_sameBesides {last : EvalState} (n : Nat) :
    ∀ st, StackOperations st.cur.rest → st.cur.pos ≤ st.cur.data.length →
      evalSteps ctx n st = .ok last → st.SameBesides last := by
  induction n with
  | zero =>
      intro st hops hpos h
      cases h
      exact ⟨rfl, rfl, rfl⟩
  | succ n ih =>
      intro st hops hpos h
      obtain ⟨next, hstep, hsteps⟩ := bind_eq_ok.mp h
      obtain ⟨opcode, tail, op, -, -, hop, hexec, hops', -, hpos'⟩ :=
        hops.step isLocal_of_isStackOperation hpos hstep
      have hfirst := executeDwOp_sameBesides hop hexec
      have hrest := ih next hops' hpos' hsteps
      exact ⟨hrest.1.trans hfirst.1, hrest.2.trans hfirst.2, hrest.3.trans hfirst.3⟩

end Stack

section Pieces

variable {ctx : EvalContext} {st last : EvalState}

theorem evalSteps_trans {middle : EvalState} {n k : Nat} (hfirst : evalSteps ctx n st = .ok middle)
    (hsecond : evalSteps ctx k middle = .ok last) : evalSteps ctx (n + k) st = .ok last := by
  induction n generalizing st with
  | zero =>
      cases hfirst
      rw [Nat.zero_add]
      exact hsecond
  | succ n ih =>
      obtain ⟨next, hstep, hsteps⟩ := bind_eq_ok.mp hfirst
      rw [Nat.add_right_comm, evalSteps, hstep, ok_bind, ih hsteps]

theorem evalSteps_one {next : EvalState} (h : evalStep ctx st = .ok next) :
    evalSteps ctx 1 st = .ok next := by
  rw [evalSteps, h, ok_bind, evalSteps]

theorem evalStep_unfinished {next : EvalState} (h : evalStep ctx st = .ok next) :
    st.cur.finished = false := by
  obtain ⟨⟨opcode, cur⟩, hread, -⟩ := bind_eq_ok.mp h
  obtain ⟨hrest, -⟩ := Cursor.u8_eq_some (inBounds_eq_ok.mp hread)
  have hlength := congrArg List.length hrest
  simp only [Cursor.rest, List.length_drop, List.length_cons] at hlength
  simp only [Cursor.finished, decide_eq_false_iff_not]
  omega

theorem evalExpression_of_finished (n : Nat) (h : st.cur.finished = true) :
    evalExpression ctx n st = .ok st.result := by
  cases n <;> rw [evalExpression, if_pos h]

theorem evalExpression_of_steps {n : Nat} (k : Nat) (h : evalSteps ctx n st = .ok last) :
    evalExpression ctx (n + k) st = evalExpression ctx k last := by
  induction n generalizing st with
  | zero =>
      cases h
      rw [Nat.zero_add]
  | succ n ih =>
      obtain ⟨next, hstep, hsteps⟩ := bind_eq_ok.mp h
      have hopen : ¬ st.cur.finished = true := by
        rw [evalStep_unfinished hstep]
        decide
      rw [Nat.add_right_comm, evalExpression, if_neg hopen, hstep, ok_bind, ih hsteps]

/-- A run to the end of an expression gives its result. -/
theorem evaluates_of_steps {exprData : List Byte} {n : Nat}
    (h : evalSteps ctx n (EvalState.start ctx exprData false) = .ok last)
    (hend : last.cur.finished = true) : Evaluates ctx exprData last.result := by
  refine ⟨n, fun m hm => ?_⟩
  obtain ⟨k, rfl⟩ := Nat.exists_eq_add_of_le hm
  rw [evalExpression_of_steps k h, evalExpression_of_finished k hend]

/-- The state between two pieces. -/
def EvalState.between (whole : List Byte) (pos : Nat) (pieces : List Piece) : EvalState :=
  ⟨⟨whole, pos⟩, [], none, pieces, true⟩

/-- The state stands for one location, and for nothing else. -/
structure EvalState.OneLocation (st : EvalState) : Prop where
  stack : (st.stack = [] ∧ st.resultIsAddress = true) ∨
    ∃ value, st.stack = [value] ∧ st.mostRecentLocation = none
  pieces : st.pieces = []

theorem EvalState.OneLocation.result (h : last.OneLocation) :
    last.result = .simple last.getCurrentLocation.1 := by
  rw [EvalState.result, if_pos h.pieces]

/-- A piece takes the location, and the interpreter is back between pieces. -/
theorem EvalState.OneLocation.addPiece (h : last.OneLocation) (whole : List Byte) (base pos : Nat)
    (pieces : List Piece) (bitSize offset : Word) :
    ((last.within whole base pieces).setCur ⟨whole, pos⟩).addPiece bitSize offset =
      .between whole pos (pieces ++ [⟨last.getCurrentLocation.1, bitSize, offset⟩]) := by
  obtain ⟨cur, stack, mostRecentLocation, taken, resultIsAddress⟩ := last
  obtain ⟨hstack, htaken⟩ := h
  cases htaken
  rcases hstack with ⟨hstack, hflag⟩ | ⟨value, hstack, hlocation⟩
  · cases hstack
    cases hflag
    simp [EvalState.within, EvalState.setCur, EvalState.addPiece, EvalState.getCurrentLocation,
      EvalState.between]
  · cases hstack
    cases hlocation
    cases resultIsAddress <;>
      simp [EvalState.within, EvalState.setCur, EvalState.addPiece, EvalState.getCurrentLocation,
        EvalState.between]

/-- How a description runs: alone to its end, and in the same way in a whole. -/
structure Runs (ctx : EvalContext) (description : List Byte) (n : Nat) (last : EvalState) :
    Prop where
  alone : evalSteps ctx n (EvalState.start ctx description false) = .ok last
  cur : last.cur = ⟨description, description.length⟩
  oneLocation : last.OneLocation
  within : ∀ (whole after : List Byte) (base : Nat) (pieces : List Piece),
    whole.drop base = description ++ after →
    evalSteps ctx n (.between whole base pieces) = .ok (last.within whole base pieces)

theorem start_within (ctx : EvalContext) (description whole : List Byte) (base : Nat)
    (pieces : List Piece) :
    (EvalState.start ctx description false).within whole base pieces =
      .between whole base pieces := by
  simp [EvalState.start, EvalState.within, EvalState.between, Cursor.within]

/-- Straight-line operations run in a whole as they run alone. -/
theorem runs_within {kind : DwOp → Bool} {bytes : List Byte} {n : Nat}
    (hkind : ∀ op, kind op = true → op.isLocal = true) (hops : OperationsOf kind bytes)
    (h : evalSteps ctx n (EvalState.start ctx bytes false) = .ok last)
    (hend : last.cur.finished = true) :
    last.cur = ⟨bytes, bytes.length⟩ ∧
      ∀ (whole after : List Byte) (base : Nat) (pieces : List Piece),
        whole.drop base = bytes ++ after →
        evalSteps ctx n (.between whole base pieces) = .ok (last.within whole base pieces) := by
  have hrun : ∀ (whole after : List Byte) (base : Nat) (pieces : List Piece),
      whole.drop base = bytes ++ after →
      evalSteps ctx n ((EvalState.start ctx bytes false).within whole base pieces) =
          .ok (last.within whole base pieces) ∧
        last.cur.data = bytes ∧ last.cur.pos ≤ last.cur.data.length :=
    fun whole after base pieces hpart =>
      evalSteps_within hkind n (EvalState.start ctx bytes false) hops (Nat.zero_le _) hpart h
  constructor
  · obtain ⟨-, hdata, hpos⟩ := hrun bytes [] 0 [] (List.append_nil _).symm
    have hpast : last.cur.data.length ≤ last.cur.pos := of_decide_eq_true hend
    have hlength := Nat.le_antisymm hpos hpast
    rw [hdata] at hlength
    calc last.cur = ⟨last.cur.data, last.cur.pos⟩ := rfl
      _ = ⟨bytes, bytes.length⟩ := by rw [hdata, hlength]
  · intro whole after base pieces hpart
    rw [← start_within ctx bytes]
    exact (hrun whole after base pieces hpart).1

theorem LeavesOneValue.runs {bytes : List Byte} (hops : StackOperations bytes)
    (h : LeavesOneValue ctx bytes) :
    ∃ n last, Runs ctx bytes n last ∧
      ∃ value, last.stack = [value] ∧ last.mostRecentLocation = none := by
  obtain ⟨n, last, value, hrun, hend, hstack⟩ := h
  have hsame := evalSteps_sameBesides n (EvalState.start ctx bytes false) hops (Nat.zero_le _) hrun
  obtain ⟨hcur, hwithin⟩ := runs_within isLocal_of_isStackOperation hops hrun hend
  have hvalue : ∃ value, last.stack = [value] ∧ last.mostRecentLocation = none :=
    ⟨value, hstack, hsame.1⟩
  exact ⟨n, last, ⟨hrun, hcur, ⟨.inr hvalue, hsame.3⟩, hwithin⟩, hvalue⟩

theorem runs_empty : Runs ctx [] 0 (EvalState.start ctx [] false) where
  alone := rfl
  cur := rfl
  oneLocation := ⟨.inl ⟨rfl, rfl⟩, rfl⟩
  within whole after base pieces _ := by
    rw [start_within]
    rfl

/-- An operation that is all of a sequence. -/
theorem OperationsOf.single {kind : DwOp → Bool} {bytes : List Byte} {op : DwOp}
    (front : operationAt bytes = some (op, bytes.length)) (hop : kind op = true) :
    OperationsOf kind bytes :=
  .cons front hop (by rw [List.drop_length]; exact .nil)

theorem isLocal_of_isRegister (op : DwOp) (h : op.isRegister = true) : op.isLocal = true := by
  cases op <;> first | rfl | cases h

/-- A register operation names its register and ends. -/
theorem runs_register {bytes : List Byte} {op : DwOp} (hframe : ctx.inFrameInfo = false)
    (front : operationAt bytes = some (op, bytes.length)) (hop : op.isRegister = true) :
    ∃ last, Runs ctx bytes 1 last := by
  have hfront : operationAt (EvalState.start ctx bytes false).cur.rest = some (op, bytes.length) :=
    front
  obtain ⟨k, hlength, hsize, hexec⟩ := evalStep_of_operation hfront
  obtain ⟨reg, hstep⟩ : ∃ reg, evalStep ctx (EvalState.start ctx bytes false) =
      .ok ⟨⟨bytes, bytes.length⟩, [], some (.register reg), [], true⟩ := by
    rw [hexec]
    cases op with
    | reg reg =>
        cases hsize
        refine ⟨reg.setWidth 64, ?_⟩
        rw [hlength]
        simp only [executeDwOp, hframe]
        rfl
    | regx =>
        rw [DwOp.operands, operandsSize_singleton] at hsize
        obtain ⟨reg, hread⟩ := Cursor.uleb128_of_size hsize
        refine ⟨reg, ?_⟩
        simp only [executeDwOp, EvalState.setCur_cur, hread, inBounds_some, ok_bind, hframe]
        rw [hlength, Nat.add_comm, ← Nat.zero_add 1]
        rfl
    | _ => cases hop
  have hrun := evalSteps_one hstep
  have hend : (Cursor.mk bytes bytes.length).finished = true := by simp [Cursor.finished]
  obtain ⟨hcur, hwithin⟩ := runs_within isLocal_of_isRegister (.single front hop) hrun hend
  exact ⟨_, hrun, hcur, ⟨.inl ⟨rfl, rfl⟩, rfl⟩, hwithin⟩

theorem evalStep_stackValue {tail : List Byte} (hrest : st.cur.rest = 0x9f :: tail) :
    evalStep ctx st = .ok { st with cur := st.cur.advance 1, resultIsAddress := false } := by
  simp only [evalStep, Cursor.u8_of_cons hrest, inBounds_some, ok_bind]
  rfl

/-- `DW_OP_stack_value` behind a computation turns its address into a value. -/
theorem Runs.stackValue {bytes : List Byte} {n : Nat} (h : Runs ctx bytes n last)
    (hvalue : ∃ value, last.stack = [value] ∧ last.mostRecentLocation = none) :
    Runs ctx (bytes ++ [0x9f]) (n + 1)
      { last with cur := ⟨bytes ++ [0x9f], bytes.length + 1⟩, resultIsAddress := false } := by
  have hwithin : ∀ (whole after : List Byte) (base : Nat) (pieces : List Piece),
      whole.drop base = bytes ++ [0x9f] ++ after →
      evalSteps ctx (n + 1) (.between whole base pieces) =
        .ok (EvalState.within { last with
          cur := ⟨bytes ++ [0x9f], bytes.length + 1⟩, resultIsAddress := false }
            whole base pieces) := by
    intro whole after base pieces hpart
    rw [List.append_assoc] at hpart
    have hrest : (last.within whole base pieces).cur.rest = 0x9f :: after := by
      change whole.drop (base + last.cur.pos) = _
      rw [h.cur, ← List.drop_drop, hpart, List.drop_left]
      rfl
    have hsteps := evalSteps_trans (h.within whole _ base pieces hpart)
      (evalSteps_one (evalStep_stackValue hrest))
    rw [hsteps]
    simp [EvalState.within, Cursor.within, Cursor.advance, h.cur, Nat.add_assoc]
  constructor
  · have hstart := hwithin (bytes ++ [0x9f]) [] 0 [] (List.append_nil _).symm
    simp only [EvalState.within, Cursor.within, Nat.zero_add, List.nil_append] at hstart
    exact hstart
  · simp
  · exact ⟨.inr hvalue, h.oneLocation.pieces⟩
  · exact hwithin

theorem SimpleDescription.runs {description : List Byte} (hframe : ctx.inFrameInfo = false)
    (h : SimpleDescription ctx description) : ∃ n last, Runs ctx description n last := by
  cases h with
  | empty => exact ⟨0, _, runs_empty⟩
  | register front hop =>
      obtain ⟨last, hruns⟩ := runs_register hframe front hop
      exact ⟨1, last, hruns⟩
  | address hops hleaves =>
      obtain ⟨n, last, hruns, -⟩ := hleaves.runs hops
      exact ⟨n, last, hruns⟩
  | value hops hleaves =>
      obtain ⟨n, last, hruns, hvalue⟩ := hleaves.runs hops
      exact ⟨n + 1, _, hruns.stackValue hvalue⟩

/-- The step at a piece operation. -/
theorem PieceOperation.Encodes.step {operation : PieceOperation} {bytes after whole : List Byte}
    {pos : Nat} (h : operation.Encodes bytes) (hat : st.cur = ⟨whole, pos⟩)
    (hrest : whole.drop pos = bytes ++ after) :
    evalStep ctx st = .ok ((st.setCur ⟨whole, pos + bytes.length⟩).addPiece operation.bitSize
      operation.offset) := by
  cases operation with
  | piece byteSize =>
      obtain ⟨size, hsize, rfl⟩ := h
      have hopcode : st.cur.rest = 0x93 :: (size ++ after) := by
        rw [hat]
        exact hrest
      have hoperand : (st.cur.advance 1).rest = size ++ after := by
        rw [Cursor.rest_advance, hopcode]
        rfl
      have hstep : evalStep ctx st = executeDwOp ctx (st.setCur (st.cur.advance 1)) .piece := by
        simp only [evalStep, Cursor.u8_of_cons hopcode, inBounds_some, ok_bind]
        rfl
      have hend : (st.cur.advance 1).advance size.length =
          ⟨whole, pos + (0x93 :: size).length⟩ := by
        rw [hat, Cursor.advance_advance, List.length_cons, Nat.add_comm 1]
        rfl
      simp only [hstep, executeDwOp, EvalState.setCur_cur, hsize.read hoperand, inBounds_some,
        ok_bind, hend]
      rfl
  | bitPiece bitSize offset =>
      obtain ⟨size, place, hsize, hplace, rfl⟩ := h
      have hopcode : st.cur.rest = 0x9d :: (size ++ (place ++ after)) := by
        rw [hat, ← List.append_assoc]
        exact hrest
      have hoperand : (st.cur.advance 1).rest = size ++ (place ++ after) := by
        rw [Cursor.rest_advance, hopcode]
        rfl
      have hsecond : ((st.cur.advance 1).advance size.length).rest = place ++ after := by
        rw [Cursor.rest_advance, hoperand, List.drop_left]
      have hstep : evalStep ctx st =
          executeDwOp ctx (st.setCur (st.cur.advance 1)) .bitPiece := by
        simp only [evalStep, Cursor.u8_of_cons hopcode, inBounds_some, ok_bind]
        rfl
      have hend : ((st.cur.advance 1).advance size.length).advance place.length =
          ⟨whole, pos + (0x9d :: (size ++ place)).length⟩ := by
        rw [hat, Cursor.advance_advance, Cursor.advance_advance, List.length_cons,
          List.length_append, Nat.add_comm _ 1]
        rfl
      simp only [hstep, executeDwOp, EvalState.setCur_cur, hsize.read hoperand,
        hplace.read hsecond, inBounds_some, ok_bind, hend]
      rfl

/-- The composite expression runs from piece to piece. -/
theorem composite_steps (hframe : ctx.inFrameInfo = false) (whole : List Byte)
    (parts : List CompositePart) :
    ∀ (base : Nat) (pieces : List Piece), (∀ part ∈ parts, part.WellFormed ctx) →
      whole.drop base = parts.flatMap CompositePart.bytes →
      ∃ n more, evalSteps ctx n (.between whole base pieces) =
          .ok (.between whole (base + (parts.flatMap CompositePart.bytes).length)
            (pieces ++ more)) ∧
        List.Forall₂ (CompositePart.Yields ctx) parts more := by
  induction parts with
  | nil =>
      intro base pieces _ _
      exact ⟨0, [], by rw [List.append_nil]; rfl, .nil⟩
  | cons part rest ih =>
      intro base pieces hparts hwhole
      have hpart := hparts part List.mem_cons_self
      obtain ⟨n, last, hruns⟩ := hpart.description.runs hframe
      rw [List.flatMap_cons, CompositePart.bytes, List.append_assoc] at hwhole
      have hdescription := hruns.within whole _ base pieces hwhole
      have hafter : whole.drop (base + part.description.length) =
          part.operationBytes ++ rest.flatMap CompositePart.bytes := by
        rw [← List.drop_drop, hwhole, List.drop_left]
      have hat : (last.within whole base pieces).cur =
          ⟨whole, base + part.description.length⟩ := by
        rw [EvalState.within, Cursor.within, hruns.cur]
      have hpiece : evalSteps ctx 1 (last.within whole base pieces) = _ :=
        evalSteps_one (hpart.operation.step hat hafter)
      rw [hruns.oneLocation.addPiece] at hpiece
      have hrest : whole.drop (base + part.description.length + part.operationBytes.length) =
          rest.flatMap CompositePart.bytes := by
        rw [← List.drop_drop, hafter, List.drop_left]
      obtain ⟨k, more, hsteps, hyields⟩ := ih _ _
        (fun part hmem => hparts part (List.mem_cons_of_mem _ hmem)) hrest
      refine ⟨n + 1 + k, ⟨last.getCurrentLocation.1, part.operation.bitSize,
        part.operation.offset⟩ :: more, ?_, .cons ⟨?_, rfl, rfl⟩ hyields⟩
      · rw [evalSteps_trans (evalSteps_trans hdescription hpiece) hsteps, List.append_assoc,
          List.flatMap_cons, List.length_append, CompositePart.bytes, List.length_append]
        simp only [Nat.add_assoc, List.cons_append, List.nil_append]
      · rw [← hruns.oneLocation.result]
        exact evaluates_of_steps hruns.alone (by simp [hruns.cur, Cursor.finished])

end Pieces

/-- A composite location is assembled piece by piece: every piece has the
location that its description evaluates to alone. -/
theorem eval_composite (ctx : EvalContext) (hframe : ctx.inFrameInfo = false)
    (parts : List CompositePart) (hsome : parts ≠ [])
    (hparts : ∀ part ∈ parts, part.WellFormed ctx) :
    ∃ pieces, Evaluates ctx (parts.flatMap CompositePart.bytes) (.pieces pieces) ∧
      List.Forall₂ (CompositePart.Yields ctx) parts pieces := by
  obtain ⟨n, pieces, hrun, hyields⟩ := composite_steps hframe
    (parts.flatMap CompositePart.bytes) parts 0 [] hparts rfl
  refine ⟨pieces, ?_, hyields⟩
  have hresult := evaluates_of_steps hrun (by simp [EvalState.between, Cursor.finished])
  have hpieces : pieces ≠ [] := by
    intro hempty
    subst hempty
    cases hyields
    exact hsome rfl
  rw [EvalState.result, if_neg] at hresult
  · exact hresult
  · exact hpieces

namespace CompositeWitness

/-- Four bytes in register 16, eight bytes nowhere, five bits at an address. -/
def parts : List CompositePart :=
  [⟨[0x60], .piece 4, [0x93, 4]⟩, ⟨[], .piece 8, [0x93, 8]⟩,
    ⟨[0x0c, 0xff, 0xff, 0xff, 0xff], .bitPiece 5 12, [0x9d, 5, 12]⟩]

theorem encodesUleb_small {byte : Byte} {value : Word} (hlast : continues byte = false)
    (hvalue : value = BitVec.ofNat 64 (lebGroups [byte])) : EncodesUleb [byte] value :=
  ⟨by simpa [isLeb] using hlast, by simp, hvalue⟩

theorem parts_wellFormed : ∀ part ∈ parts, part.WellFormed FramingWitness.context := by
  intro part hpart
  simp only [parts, List.mem_cons, List.not_mem_nil, or_false] at hpart
  rcases hpart with rfl | rfl | rfl
  · have hfront : operationAt [0x60] = some (.reg 16, 1) := by decide
    exact ⟨.register hfront rfl, _, encodesUleb_small (by decide) (by decide), rfl⟩
  · exact ⟨.empty, _, encodesUleb_small (by decide) (by decide), rfl⟩
  · have hfront : operationAt [0x0c, 0xff, 0xff, 0xff, 0xff] = some (.const4u, 5) := by decide
    have hleaves : LeavesOneValue FramingWitness.context [0x0c, 0xff, 0xff, 0xff, 0xff] :=
      ⟨1, _, 0xffffffff, rfl, rfl, rfl⟩
    exact ⟨.address (.cons hfront rfl .nil) hleaves, _, _,
      encodesUleb_small (by decide) (by decide), encodesUleb_small (by decide) (by decide), rfl⟩

theorem eval_composite_three :
    ∃ pieces, pieces.length = 3 ∧
      Evaluates FramingWitness.context
        [0x60, 0x93, 4, 0x93, 8, 0x0c, 0xff, 0xff, 0xff, 0xff, 0x9d, 5, 12] (.pieces pieces) ∧
      List.Forall₂ (CompositePart.Yields FramingWitness.context) parts pieces := by
  obtain ⟨pieces, heval, hyields⟩ := eval_composite FramingWitness.context rfl parts (by decide)
    parts_wellFormed
  exact ⟨pieces, hyields.length_eq.symm, heval, hyields⟩

end CompositeWitness

end Gsdb
