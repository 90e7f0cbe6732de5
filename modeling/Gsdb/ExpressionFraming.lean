/-
Operand framing of DWARF expressions.  The operand formats are those the
format defines for each operation; they cut a byte string into operations.
The interpreter stays on that cut except after two operations: a conditional
branch that is not taken and an implicit value with data.
-/
import Gsdb.DwarfExpression

namespace Gsdb

open ByteMemory ByteCursor

/-- The operands of every operation, in encoding order. -/
def DwOp.operands : DwOp → List OperandFormat
  | .addr | .const8u | .const8s => [.fixed 8]
  | .const1u | .const1s | .pick | .derefSize | .xderefSize => [.fixed 1]
  | .const2u | .const2s | .skip | .bra | .call2 => [.fixed 2]
  | .const4u | .const4s | .call4 | .callRef => [.fixed 4]
  | .constu | .consts | .plusUconst | .breg _ | .regx | .fbreg | .piece => [.leb]
  | .bregx | .bitPiece => [.leb, .leb]
  | .implicitValue => [.block]
  | _ => []

/-- The operations the interpreter does not refuse. -/
def DwOp.isSupported : DwOp → Bool
  | .xderef | .xderefSize | .pushObjectAddress | .formTlsAddress
  | .call2 | .call4 | .callRef => false
  | _ => true

/-- The operation at the front of a byte string and its whole length. -/
def operationAt : List Byte → Option (DwOp × Nat)
  | [] => none
  | opcode :: rest => do
      let op ← DwOp.ofByte opcode
      let n ← operandsSize op.operands rest
      some (op, n + 1)

/-- A byte string that is a sequence of supported operations. -/
inductive Operations : List Byte → Prop where
  | nil : Operations []
  | cons {bytes : List Byte} {op : DwOp} {n : Nat} (front : operationAt bytes = some (op, n))
      (supported : op.isSupported = true) (rest : Operations (bytes.drop n)) :
      Operations bytes

/-- The positions between operations, the two ends included. -/
inductive Boundary (data : List Byte) : Nat → Prop where
  | start : Boundary data 0
  | next {pos : Nat} {op : DwOp} {n : Nat} (before : Boundary data pos)
      (front : operationAt (data.drop pos) = some (op, n)) : Boundary data (pos + n)

/-- Where the branch at a position leads; a negative target is none. -/
def branchTarget (data : List Byte) (pos : Nat) : Option Nat :=
  let delta := BitVec.ofNat 16 (ofLe ((data.drop (pos + 1)).take 2))
  let target : Int := pos + 3 + delta.toInt
  if 0 ≤ target then some target.toNat else none

/-- A sequence of supported operations whose branches lead to operations of
the sequence or to its end. -/
structure WellFormedExpression (data : List Byte) : Prop where
  operations : Operations data
  targets : ∀ pos op n, Boundary data pos → operationAt (data.drop pos) = some (op, n) →
    op = .skip ∨ op = .bra → ∃ target, branchTarget data pos = some target ∧
      Boundary data target

/-- Where the operation at a position leads, given the stack it starts with:
the branch target for a branch that is taken, the next operation otherwise. -/
def nextPosition (data : List Byte) (pos : Nat) (stack : List Word) : Option Nat := do
  let (op, n) ← operationAt (data.drop pos)
  match op with
  | .skip => branchTarget data pos
  | .bra => if stack.head? = some 0 then some (pos + n) else branchTarget data pos
  | _ => some (pos + n)

/-- The state is between two operations, and executing the one that follows
leads where it should. -/
def Framed (ctx : EvalContext) (st : EvalState) : Prop :=
  Boundary st.cur.data st.cur.pos ∧
    ∀ next, evalStep ctx st = .ok next →
      nextPosition st.cur.data st.cur.pos st.stack = some next.cur.pos

/-- The operation that follows is neither a conditional branch that is not
taken nor an implicit value with data. -/
def ConsumesItsOperands (st : EvalState) : Prop :=
  match operationAt st.cur.rest with
  | some (.bra, _) => st.stack.head? ≠ some 0
  | some (.implicitValue, _) => (st.cur.advance 1).uleb128.map (·.1) = some 0
  | _ => True

namespace EvalState

variable {st next : EvalState}

@[simp]
theorem push_cur (st : EvalState) (value : Word) : (st.push value).cur = st.cur := rfl

@[simp]
theorem setCur_cur (st : EvalState) (cur : Cursor) : (st.setCur cur).cur = cur := rfl

theorem getCurrentLocation_cur (st : EvalState) : st.getCurrentLocation.2.cur = st.cur := by
  unfold getCurrentLocation
  split
  · rfl
  · split <;> rfl

@[simp]
theorem addPiece_cur (st : EvalState) (bitSize offset : Word) :
    (st.addPiece bitSize offset).cur = st.cur :=
  getCurrentLocation_cur st

theorem replaceTop_cur {f : Word → Except Failure Word} (h : st.replaceTop f = .ok next) :
    next.cur = st.cur := by
  unfold replaceTop at h
  split at h
  · obtain ⟨value, -, hvalue⟩ := bind_eq_ok.mp h
    cases hvalue
    rfl
  · cases h

theorem binop_cur {f : Word → Word → Except Failure Word} (h : st.binop f = .ok next) :
    next.cur = st.cur := by
  unfold binop at h
  split at h
  · obtain ⟨value, -, hvalue⟩ := bind_eq_ok.mp h
    cases hvalue
    rfl
  · cases h

theorem pushOperand_cur {operand : Option (Word × Cursor)}
    (h : st.pushOperand operand = .ok next) : ∃ value, operand = some (value, next.cur) := by
  obtain ⟨⟨value, cur⟩, hread, hnext⟩ := bind_eq_ok.mp h
  cases hnext
  exact ⟨value, inBounds_eq_ok.mp hread⟩

end EvalState

section Operands

variable {cur next : Cursor}

theorem unsignedOperand_eq_some {w : Nat} {operand : Option (BitVec w × Cursor)} {value : Word}
    (h : unsignedOperand operand = some (value, next)) : ∃ x, operand = some (x, next) := by
  obtain ⟨⟨x, cur⟩, hoperand, heq⟩ := Option.map_eq_some_iff.mp h
  cases heq
  exact ⟨x, hoperand⟩

theorem signedOperand_eq_some {w : Nat} {operand : Option (BitVec w × Cursor)} {value : Word}
    (h : signedOperand operand = some (value, next)) : ∃ x, operand = some (x, next) := by
  obtain ⟨⟨x, cur⟩, hoperand, heq⟩ := Option.map_eq_some_iff.mp h
  cases heq
  exact ⟨x, hoperand⟩

end Operands

/-- Operations without an operand leave the cursor alone; the others move it
by the length of their operands.  Branches and implicit values are treated
apart. -/
theorem executeDwOp_cur {ctx : EvalContext} {st next : EvalState} {op : DwOp}
    (h : executeDwOp ctx st op = .ok next)
    (hplain : op ≠ .skip ∧ op ≠ .bra ∧ op ≠ .implicitValue) :
    ∃ n, operandsSize op.operands st.cur.rest = some n ∧ next.cur = st.cur.advance n := by
  cases op
  case skip | bra | implicitValue => simp at hplain
  case xderef | xderefSize | pushObjectAddress | formTlsAddress | call2 | call4 | callRef =>
    cases h
  case lit | callFrameCfa | stackValue | nop =>
    cases h
    exact ⟨0, rfl, rfl⟩
  case minus | mod | mul | and | or | plus | shl | shr | shra | xor | div =>
    exact ⟨0, rfl, EvalState.binop_cur h⟩
  case le | ge | eq | lt | gt | ne => exact ⟨0, rfl, EvalState.binop_cur h⟩
  case abs | neg | not | deref => exact ⟨0, rfl, EvalState.replaceTop_cur h⟩
  case dup | drop | «over» | swap | rot =>
    simp only [executeDwOp] at h
    split at h <;> cases h
    exact ⟨0, rfl, rfl⟩
  case const8u | const8s =>
    obtain ⟨value, hread⟩ := EvalState.pushOperand_cur h
    exact ⟨8, operandsSize_fixed hread⟩
  case constu =>
    obtain ⟨value, hread⟩ := EvalState.pushOperand_cur h
    obtain ⟨n, hsize, hnext⟩ := Cursor.uleb128_eq_some hread
    exact ⟨n, operandsSize_leb hsize, hnext⟩
  case consts =>
    obtain ⟨value, hread⟩ := EvalState.pushOperand_cur h
    obtain ⟨n, hsize, hnext⟩ := Cursor.sleb128_eq_some hread
    exact ⟨n, operandsSize_leb hsize, hnext⟩
  case const1u | const2u | const4u =>
    obtain ⟨value, hread⟩ := EvalState.pushOperand_cur h
    obtain ⟨x, hoperand⟩ := unsignedOperand_eq_some hread
    exact ⟨_, operandsSize_fixed hoperand⟩
  case const1s | const2s | const4s =>
    obtain ⟨value, hread⟩ := EvalState.pushOperand_cur h
    obtain ⟨x, hoperand⟩ := signedOperand_eq_some hread
    exact ⟨_, operandsSize_fixed hoperand⟩
  case addr =>
    obtain ⟨⟨addr, cur⟩, hread, hnext⟩ := bind_eq_ok.mp h
    cases hnext
    exact ⟨8, operandsSize_fixed (inBounds_eq_ok.mp hread)⟩
  case reg =>
    simp only [executeDwOp] at h
    split at h
    · obtain ⟨value, -, hnext⟩ := bind_eq_ok.mp h
      cases hnext
      exact ⟨0, rfl, rfl⟩
    · cases h
      exact ⟨0, rfl, rfl⟩
  case breg =>
    obtain ⟨value, -, hrest⟩ := bind_eq_ok.mp h
    obtain ⟨⟨offset, cur⟩, hread, hnext⟩ := bind_eq_ok.mp hrest
    obtain ⟨n, hsize, rfl⟩ := Cursor.sleb128_eq_some (inBounds_eq_ok.mp hread)
    cases hnext
    exact ⟨n, operandsSize_leb hsize, rfl⟩
  case fbreg =>
    obtain ⟨⟨offset, cur⟩, hread, hrest⟩ := bind_eq_ok.mp h
    obtain ⟨location, -, hrest⟩ := bind_eq_ok.mp hrest
    obtain ⟨address, -, hnext⟩ := bind_eq_ok.mp hrest
    obtain ⟨n, hsize, rfl⟩ := Cursor.sleb128_eq_some (inBounds_eq_ok.mp hread)
    cases hnext
    exact ⟨n, operandsSize_leb hsize, rfl⟩
  case bregx =>
    obtain ⟨⟨reg, middle⟩, hreg, hrest⟩ := bind_eq_ok.mp h
    obtain ⟨value, -, hrest⟩ := bind_eq_ok.mp hrest
    obtain ⟨⟨offset, cur⟩, hoffset, hnext⟩ := bind_eq_ok.mp hrest
    obtain ⟨n, hsize, rfl⟩ := Cursor.uleb128_eq_some (inBounds_eq_ok.mp hreg)
    obtain ⟨k, hsize', rfl⟩ := Cursor.sleb128_eq_some (inBounds_eq_ok.mp hoffset)
    cases hnext
    exact ⟨n + k, operandsSize_leb_leb hsize hsize', Cursor.advance_advance _ _ _⟩
  case bitPiece =>
    obtain ⟨⟨bitSize, middle⟩, hbits, hrest⟩ := bind_eq_ok.mp h
    obtain ⟨⟨offset, cur⟩, hoffset, hnext⟩ := bind_eq_ok.mp hrest
    obtain ⟨n, hsize, rfl⟩ := Cursor.uleb128_eq_some (inBounds_eq_ok.mp hbits)
    obtain ⟨k, hsize', rfl⟩ := Cursor.uleb128_eq_some (inBounds_eq_ok.mp hoffset)
    cases hnext
    refine ⟨n + k, operandsSize_leb_leb hsize hsize', ?_⟩
    rw [EvalState.addPiece_cur, EvalState.setCur_cur, Cursor.advance_advance]
  case piece =>
    obtain ⟨⟨byteSize, cur⟩, hread, hnext⟩ := bind_eq_ok.mp h
    obtain ⟨n, hsize, rfl⟩ := Cursor.uleb128_eq_some (inBounds_eq_ok.mp hread)
    cases hnext
    exact ⟨n, operandsSize_leb hsize, by simp⟩
  case regx =>
    obtain ⟨⟨reg, cur⟩, hread, hrest⟩ := bind_eq_ok.mp h
    obtain ⟨n, hsize, rfl⟩ := Cursor.uleb128_eq_some (inBounds_eq_ok.mp hread)
    refine ⟨n, operandsSize_leb hsize, ?_⟩
    simp only at hrest
    split at hrest
    · obtain ⟨value, -, hnext⟩ := bind_eq_ok.mp hrest
      cases hnext
      rfl
    · cases hrest
      rfl
  case plusUconst =>
    obtain ⟨⟨operand, cur⟩, hread, hrest⟩ := bind_eq_ok.mp h
    obtain ⟨n, hsize, rfl⟩ := Cursor.uleb128_eq_some (inBounds_eq_ok.mp hread)
    exact ⟨n, operandsSize_leb hsize, EvalState.replaceTop_cur hrest⟩
  case derefSize =>
    obtain ⟨⟨size, cur⟩, hread, hrest⟩ := bind_eq_ok.mp h
    obtain ⟨hsize, rfl⟩ := operandsSize_fixed (inBounds_eq_ok.mp hread)
    exact ⟨1, hsize, EvalState.replaceTop_cur hrest⟩
  case pick =>
    obtain ⟨⟨index, cur⟩, hread, hrest⟩ := bind_eq_ok.mp h
    obtain ⟨hsize, rfl⟩ := operandsSize_fixed (inBounds_eq_ok.mp hread)
    simp only at hrest
    split at hrest <;> cases hrest
    exact ⟨1, hsize, rfl⟩

theorem operationAt_eq_some {bytes : List Byte} {op : DwOp} {n : Nat}
    (h : operationAt bytes = some (op, n)) :
    ∃ opcode rest k, bytes = opcode :: rest ∧ DwOp.ofByte opcode = some op ∧
      operandsSize op.operands rest = some k ∧ n = k + 1 := by
  cases bytes with
  | nil => cases h
  | cons opcode rest =>
      simp only [operationAt, Option.bind_eq_bind, Option.bind_eq_some_iff, Option.some.injEq,
        Prod.mk.injEq] at h
      obtain ⟨op', hop, k, hk, rfl, rfl⟩ := h
      exact ⟨opcode, rest, k, rfl, hop, hk, rfl⟩

/-- A step at an operation reads its opcode and executes its case. -/
theorem evalStep_of_operation {st : EvalState} {op : DwOp} {n : Nat}
    (h : operationAt st.cur.rest = some (op, n)) :
    ∃ k, n = k + 1 ∧ operandsSize op.operands (st.cur.advance 1).rest = some k ∧
      ∀ ctx, evalStep ctx st = executeDwOp ctx (st.setCur (st.cur.advance 1)) op := by
  obtain ⟨opcode, rest, k, hbytes, hop, hsize, hn⟩ := operationAt_eq_some h
  refine ⟨k, hn, ?_, fun ctx => ?_⟩
  · rw [Cursor.rest_advance, hbytes]
    exact hsize
  · simp only [evalStep, Cursor.u8_of_cons hbytes, inBounds_some, ok_bind, hop]

theorem Operations.of_boundary {data : List Byte} {pos : Nat} (h : Operations data)
    (hpos : Boundary data pos) : Operations (data.drop pos) := by
  induction hpos with
  | start => exact h
  | @next pos op n before front ih =>
      generalize hbytes : data.drop pos = bytes at front ih
      cases ih with
      | nil => cases front
      | cons front' supported rest =>
          rw [front] at front'
          cases front'
          rw [← List.drop_drop, hbytes]
          exact rest

/-- Every step from a boundary of a sequence of operations is a step at one of
its operations. -/
theorem Operations.operation_of_step {ctx : EvalContext} {st next : EvalState}
    (h : Operations st.cur.rest) (hstep : evalStep ctx st = .ok next) :
    ∃ op n, operationAt st.cur.rest = some (op, n) := by
  obtain ⟨⟨opcode, cur⟩, hread, -⟩ := bind_eq_ok.mp hstep
  obtain ⟨hbytes, -⟩ := Cursor.u8_eq_some (inBounds_eq_ok.mp hread)
  cases hrest : st.cur.rest with
  | nil => simp [hrest] at hbytes
  | cons byte rest =>
      rw [hrest] at h
      cases h with
      | cons front => exact ⟨_, _, front⟩

theorem jump_eq_ok {cur next : Cursor} (h : jump (cur.advance 1) = .ok next) :
    next.data = cur.data ∧ branchTarget cur.data cur.pos = some next.pos := by
  obtain ⟨⟨delta, after⟩, hread, hrest⟩ := bind_eq_ok.mp h
  obtain ⟨-, hdelta, rfl⟩ := Cursor.fixedInt_eq_some (inBounds_eq_ok.mp hread)
  simp only at hrest
  split at hrest
  · rename_i htarget
    cases hrest
    refine ⟨rfl, ?_⟩
    have hoperand : delta = BitVec.ofNat 16 (ofLe ((cur.data.drop (cur.pos + 1)).take 2)) :=
      hdelta
    have hpos : ((cur.advance 1).advance (16 / 8)).pos = cur.pos + 3 := rfl
    rw [hpos] at htarget ⊢
    rw [branchTarget, ← hoperand]
    simp only [Nat.cast_add, Nat.cast_ofNat] at htarget ⊢
    rw [if_pos htarget]
  · cases hrest

/-- A step that consumes its operands leads where the operation should. -/
theorem evalStep_framed {ctx : EvalContext} {st next : EvalState} {op : DwOp} {n : Nat}
    (hop : operationAt st.cur.rest = some (op, n)) (hconsumes : ConsumesItsOperands st)
    (hstep : evalStep ctx st = .ok next) :
    next.cur.data = st.cur.data ∧
      nextPosition st.cur.data st.cur.pos st.stack = some next.cur.pos := by
  obtain ⟨k, rfl, hsize, hexec⟩ := evalStep_of_operation hop
  rw [hexec] at hstep
  simp only [ConsumesItsOperands, hop] at hconsumes
  have hop' : operationAt (st.cur.data.drop st.cur.pos) = some (op, k + 1) := hop
  simp only [nextPosition, hop', Option.bind_eq_bind, Option.bind_some]
  by_cases hplain : op ≠ .skip ∧ op ≠ .bra ∧ op ≠ .implicitValue
  · obtain ⟨k', hsize', hcur⟩ := executeDwOp_cur hstep hplain
    obtain rfl : k = k' := Option.some.inj (hsize.symm.trans hsize')
    have hnext : next.cur = st.cur.advance (1 + k) := hcur.trans (Cursor.advance_advance _ _ _)
    rw [hnext]
    refine ⟨rfl, ?_⟩
    obtain ⟨hskip, hbra, -⟩ := hplain
    split
    · exact absurd rfl hskip
    · exact absurd rfl hbra
    · simp only [Cursor.advance_pos, Option.some.injEq]
      omega
  · have hcases : op = .skip ∨ op = .bra ∨ op = .implicitValue := by tauto
    rcases hcases with rfl | rfl | rfl
    · obtain ⟨cur, hjump, hnext⟩ := bind_eq_ok.mp hstep
      cases hnext
      exact jump_eq_ok hjump
    · simp only [executeDwOp, EvalState.setCur] at hstep
      split at hstep
      · cases hstep
      · rename_i top rest hstack
        have htop : top ≠ 0 := by simpa [hstack] using hconsumes
        rw [if_pos htop] at hstep
        obtain ⟨cur, hjump, hnext⟩ := bind_eq_ok.mp hstep
        cases hnext
        rw [if_neg hconsumes]
        exact jump_eq_ok hjump
    · obtain ⟨size, len, hleb, hread, -, rfl⟩ := operandsSize_block hsize
      obtain ⟨⟨len', cur⟩, hread', hrest⟩ := bind_eq_ok.mp hstep
      obtain ⟨block, -, hnext⟩ := bind_eq_ok.mp hrest
      cases hnext
      have hcur := Option.some.inj (hread.symm.trans (inBounds_eq_ok.mp hread'))
      have hzero : len = 0 := by simpa [hread] using hconsumes
      cases hcur
      subst hzero
      exact ⟨rfl, by simp; omega⟩

/-- A step that does not consume its operands returns and goes astray. -/
theorem evalStep_astray {ctx : EvalContext} {st : EvalState} {op : DwOp} {n : Nat}
    (hop : operationAt st.cur.rest = some (op, n)) (hastray : ¬ ConsumesItsOperands st) :
    ∃ next, evalStep ctx st = .ok next ∧
      nextPosition st.cur.data st.cur.pos st.stack ≠ some next.cur.pos := by
  obtain ⟨k, rfl, hsize, hexec⟩ := evalStep_of_operation hop
  have hop' : operationAt (st.cur.data.drop st.cur.pos) = some (op, k + 1) := hop
  simp only [ConsumesItsOperands, hop] at hastray
  simp only [nextPosition, hop', Option.bind_eq_bind, Option.bind_some, hexec]
  split at hastray
  · rename_i heq
    cases heq
    have hhead : st.stack.head? = some 0 := by simpa using hastray
    obtain ⟨rest, hstack⟩ := List.head?_eq_some_iff.mp hhead
    refine ⟨{ st.setCur (st.cur.advance 1) with stack := rest }, ?_, ?_⟩
    · simp [executeDwOp, EvalState.setCur, hstack]
      rfl
    · simp only [DwOp.operands, operandsSize, OperandFormat.size, Option.bind_eq_bind] at hsize
      split at hsize
      · simp only [Option.bind_some, Option.some.injEq] at hsize
        simp [hhead, EvalState.setCur]
        omega
      · cases hsize
  · rename_i heq
    cases heq
    obtain ⟨size, len, hleb, hread, hfits, rfl⟩ := operandsSize_block hsize
    have hlen : len ≠ 0 := by simpa [hread] using hastray
    have hpos : 0 < len.toNat := by
      rw [Nat.pos_iff_ne_zero]
      exact fun h => hlen (BitVec.eq_of_toNat_eq h)
    let block := ((st.cur.advance 1).advance size).rest.take len.toNat
    refine ⟨{ st.setCur ((st.cur.advance 1).advance size) with
      mostRecentLocation := some (.data block) }, ?_, ?_⟩
    · simp only [executeDwOp, EvalState.setCur_cur, hread, inBounds_some, ok_bind,
        Cursor.block_of_le hfits]
      rfl
    · simp [EvalState.setCur]
      omega
  · exact absurd trivial hastray

/-- The invariant of a run over a well formed expression. -/
theorem evalSteps_boundary {ctx : EvalContext} {data : List Byte}
    (hwell : WellFormedExpression data) {n : Nat} {start last : EvalState}
    (hdata : start.cur.data = data) (hstart : Boundary data start.cur.pos)
    (hconsumes : ∀ k st, evalSteps ctx k start = .ok st → ConsumesItsOperands st)
    (hrun : evalSteps ctx n start = .ok last) :
    last.cur.data = data ∧ Boundary data last.cur.pos := by
  induction n generalizing start with
  | zero =>
      cases hrun
      exact ⟨hdata, hstart⟩
  | succ n ih =>
      obtain ⟨middle, hstep, hrest⟩ := bind_eq_ok.mp hrun
      subst hdata
      have hops : Operations start.cur.rest := hwell.operations.of_boundary hstart
      obtain ⟨op, size, hop⟩ := hops.operation_of_step hstep
      obtain ⟨hsame, hnext⟩ := evalStep_framed hop (hconsumes 0 start rfl) hstep
      refine ih hsame ?_ ?_ hrest
      · have hop' : operationAt (start.cur.data.drop start.cur.pos) = some (op, size) := hop
        simp only [nextPosition, hop', Option.bind_eq_bind, Option.bind_some] at hnext
        have hbranch : branchTarget start.cur.data start.cur.pos = some middle.cur.pos →
            op = .skip ∨ op = .bra → Boundary start.cur.data middle.cur.pos := by
          intro htarget hkind
          obtain ⟨target, htarget', hbound⟩ := hwell.targets _ op size hstart hop' hkind
          rw [htarget] at htarget'
          cases htarget'
          exact hbound
        split at hnext
        · exact hbranch hnext (.inl rfl)
        · split at hnext
          · rw [← Option.some.inj hnext]
            exact hstart.next hop'
          · exact hbranch hnext (.inr rfl)
        · rw [← Option.some.inj hnext]
          exact hstart.next hop'
      · intro k st hk
        exact hconsumes (k + 1) st (bind_eq_ok.mpr ⟨middle, hstep, hk⟩)

/-- Operand framing over whole runs.  On every sequence of operations, with
any stack to start with, the interpreter executes exactly the operations of
the sequence if and only if it never meets a conditional branch that is not
taken or an implicit value with data. -/
theorem evalSteps_framed_iff (ctx : EvalContext) (data : List Byte)
    (hwell : WellFormedExpression data) (start : EvalState) (hstart : start.cur = ⟨data, 0⟩) :
    (∀ n st, evalSteps ctx n start = .ok st → Framed ctx st) ↔
      ∀ n st, evalSteps ctx n start = .ok st → ConsumesItsOperands st := by
  have hdata : start.cur.data = data := by rw [hstart]
  have hpos : Boundary data start.cur.pos := by
    rw [hstart]
    exact Boundary.start
  constructor
  · intro hframed n st hrun
    by_contra hastray
    obtain ⟨hbound, hnext⟩ := hframed n st hrun
    have hop : ∃ op n, operationAt st.cur.rest = some (op, n) := by
      unfold ConsumesItsOperands at hastray
      split at hastray
      · exact ⟨_, _, by assumption⟩
      · exact ⟨_, _, by assumption⟩
      · exact absurd trivial hastray
    obtain ⟨op, size, hop⟩ := hop
    obtain ⟨next, hstep, hwrong⟩ := evalStep_astray hop hastray
    exact hwrong (hnext next hstep)
  · intro hconsumes n st hrun
    obtain ⟨hsame, hbound⟩ := evalSteps_boundary hwell hdata hpos hconsumes hrun
    have hops : Operations st.cur.rest := by
      have := hwell.operations.of_boundary hbound
      rwa [← hsame] at this
    refine ⟨hsame ▸ hbound, fun next hstep => ?_⟩
    obtain ⟨op, size, hop⟩ := hops.operation_of_step hstep
    exact (evalStep_framed hop (hconsumes n st hrun) hstep).2

/-- Boundaries stay within any set of positions closed under passing over an
operation. -/
theorem Boundary.mem_of_closed {data : List Byte} {positions : List Nat}
    (hstart : 0 ∈ positions)
    (hclosed : ∀ pos ∈ positions, ∀ found ∈ operationAt (data.drop pos),
      pos + found.2 ∈ positions) {pos : Nat} (h : Boundary data pos) : pos ∈ positions := by
  induction h with
  | start => exact hstart
  | next before front ih => exact hclosed _ ih _ front

namespace FramingWitness

def regs : Registers := ⟨fun _ => 0, [], 0⟩

/-- One section, loaded far above its addresses in the file. -/
def program : Elf := ⟨[], [⟨".data", 3, 0x4000, 0x3000, 0x10⟩], 0x555555550000⟩

def context : EvalContext :=
  ⟨regs, fun _ n => .ok (List.replicate n 0), program, false, .error (.error "no frame base")⟩

/-- `DW_OP_lit0; DW_OP_bra +1; DW_OP_nop`: the branch is not taken. -/
def expression : List Byte := [0x30, 0x28, 0x01, 0x00, 0x96]

def start : EvalState := ⟨⟨expression, 0⟩, [], none, [], true⟩

/-- The state in front of the branch. -/
def atBranch : EvalState := ⟨⟨expression, 1⟩, [0], none, [], true⟩

theorem boundary_iff {pos : Nat} (h : Boundary expression pos) : pos ∈ [0, 1, 4, 5] :=
  h.mem_of_closed (by decide) (by decide)

theorem boundary_end : Boundary expression 5 := by
  have hlit : operationAt (expression.drop 0) = some (.lit 0, 1) := by decide
  have hbra : operationAt (expression.drop 1) = some (.bra, 3) := by decide
  have hnop : operationAt (expression.drop 4) = some (.nop, 1) := by decide
  exact ((Boundary.start.next hlit).next hbra).next hnop

theorem wellFormed : WellFormedExpression expression where
  operations :=
    have hlit : operationAt expression = some (.lit 0, 1) := by decide
    have hbra : operationAt (expression.drop 1) = some (.bra, 3) := by decide
    have hnop : operationAt (expression.drop 4) = some (.nop, 1) := by decide
    .cons hlit rfl (.cons hbra rfl (.cons hnop rfl .nil))
  targets := by
    intro pos op n hpos hop hkind
    have hpositions := boundary_iff hpos
    simp only [List.mem_cons, List.not_mem_nil, or_false] at hpositions
    rcases hpositions with rfl | rfl | rfl | rfl
    · have hfound : operationAt (expression.drop 0) = some (.lit 0, 1) := by decide
      rw [hfound] at hop
      cases hop
      simp at hkind
    · exact ⟨5, by decide, boundary_end⟩
    · have hfound : operationAt (expression.drop 4) = some (.nop, 1) := by decide
      rw [hfound] at hop
      cases hop
      simp at hkind
    · cases hop

theorem astray : ¬ ConsumesItsOperands atBranch := by
  have hop : operationAt atBranch.cur.rest = some (.bra, 3) := by decide
  simp only [ConsumesItsOperands, hop]
  decide

end FramingWitness

open FramingWitness in
/-- The branch that is not taken leaves the cursor on its operand. -/
theorem evalSteps_not_framed :
    ¬ ∀ (ctx : EvalContext) (data : List Byte), WellFormedExpression data →
      ∀ start : EvalState, start.cur = ⟨data, 0⟩ →
        ∀ n st, evalSteps ctx n start = .ok st → Framed ctx st := by
  intro h
  have hframed := h context expression wellFormed start rfl 1 atBranch rfl
  have hop : operationAt atBranch.cur.rest = some (.bra, 3) := by decide
  obtain ⟨next, hstep, hwrong⟩ := evalStep_astray hop astray
  exact hwrong (hframed.2 next hstep)

open FramingWitness in
theorem evalSteps_framed_iff_untaken :
    ¬ ∀ n st, evalSteps context n start = .ok st → Framed context st := by
  rw [evalSteps_framed_iff context expression wellFormed start rfl]
  exact fun h => astray (h 1 atBranch rfl)

end Gsdb
