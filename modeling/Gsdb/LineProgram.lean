/-
The line number state machine as the format defines it, and what the iterator
of a line table has to do with it.  A program is a list of instructions cut
from the bytes by the operand counts of the header; the rows it describes are
compared with the rows that iteration produces.
-/
import Gsdb.LineTable

namespace Gsdb

open ByteMemory ByteCursor

inductive LineInstruction where
  | copy
  | advancePc (n : Word)
  | advanceLine (n : Word)
  | setFile (n : Word)
  | setColumn (n : Word)
  | negateStmt
  | setBasicBlock
  | constAddPc
  | fixedAdvancePc (n : BitVec 16)
  | setPrologueEnd
  | setEpilogueBegin
  | setIsa (n : Word)
  | special (opcode : Byte)
  | endSequence
  | setAddress (address : Word)
  | defineFile (file : LineFile)
  | setDiscriminator (n : Word)
deriving DecidableEq, Repr

/-- The operand counts a header declares: `opcode_base - 1` bytes behind the
fixed part. -/
def LineUnit.standardOpcodeLengths (cu : LineUnit) (opcodeBase : BitVec 8) : List Byte :=
  (cu.section_.drop (cu.stmtList.getD 0 + 16)).take (opcodeBase.toNat - 1)

/-- The operands of a standard opcode: as many LEB128 numbers as declared,
except that the operand of `DW_LNS_fixed_advance_pc` is a half-word. -/
def declaredOperands (lengths : List Byte) (opcode : Byte) : Option (List OperandFormat) :=
  lengths[opcode.toNat - 1]?.map fun count =>
    List.replicate count.toNat (if opcode = 0x09 then .fixed 2 else .leb)

/-- A standard opcode with its operand at the cursor. -/
def standardInstruction (opcode : Byte) (cur : Cursor) : Option LineInstruction :=
  match opcode.toNat with
  | 0x01 => some .copy
  | 0x02 => cur.uleb128.map fun operand => .advancePc operand.1
  | 0x03 => cur.sleb128.map fun operand => .advanceLine operand.1
  | 0x04 => cur.uleb128.map fun operand => .setFile operand.1
  | 0x05 => cur.uleb128.map fun operand => .setColumn operand.1
  | 0x06 => some .negateStmt
  | 0x07 => some .setBasicBlock
  | 0x08 => some .constAddPc
  | 0x09 => cur.u16.map fun operand => .fixedAdvancePc operand.1
  | 0x0a => some .setPrologueEnd
  | 0x0b => some .setEpilogueBegin
  | 0x0c => cur.uleb128.map fun operand => .setIsa operand.1
  | _ => none

/-- An extended opcode with its operands, and the cursor behind them. -/
def extendedInstruction (table : LineTable) (cur : Cursor) :
    Option (LineInstruction × Cursor) := do
  let (opcode, cur) ← cur.u8
  match opcode.toNat with
  | 0x01 => some (.endSequence, cur)
  | 0x02 => cur.u64.map fun (address, cur) => (.setAddress address, cur)
  | 0x03 =>
      let (file, cur) ←
        (parseLineTableFile cur table.compilationDir table.includeDirs).toOption
      some (.defineFile file, cur)
  | 0x04 => cur.uleb128.map fun (n, cur) => (.setDiscriminator n, cur)
  | _ => none

/-- The instruction at a cursor and the cursor behind it.  The length operand
of an extended opcode counts the opcode and its operands. -/
def lineInstructionAt (table : LineTable) (lengths : List Byte) (cur : Cursor) :
    Option (LineInstruction × Cursor) := do
  let (opcode, operands) ← cur.u8
  if opcode = 0 then
    let (len, body) ← operands.uleb128
    let (instr, next) ← extendedInstruction table body
    if next.pos = body.pos + len.toNat then some (instr, next) else none
  else if opcode < table.opcodeBase then
    let formats ← declaredOperands lengths opcode
    let n ← operandsSize formats operands.rest
    let instr ← standardInstruction opcode operands
    some (instr, operands.advance n)
  else some (.special opcode, operands)

/-- The registers of the state machine and the files known to it. -/
structure LineState where
  registers : LineEntry
  files : List LineFile
deriving DecidableEq, Repr

namespace LineState

def modify (st : LineState) (f : LineEntry → LineEntry) : LineState :=
  { st with registers := f st.registers }

/-- Append a row and discard the flags that belong to it. -/
def append (st : LineState) : LineState × Option LineEntry :=
  (st.modify fun regs => { regs with
      discriminator := 0, basicBlockStart := false, prologueEnd := false, epilogueBegin := false },
    some st.registers)

end LineState

/-- The address advance of a special opcode. -/
def addressAdvance (table : LineTable) (opcode : Nat) : Word :=
  BitVec.ofNat 64 ((opcode - table.opcodeBase.toNat) / table.lineRange.toNat)

/-- The line advance of a special opcode. -/
def lineAdvance (table : LineTable) (opcode : Nat) : Word :=
  BitVec.ofInt 64 (table.lineBase.toInt +
    ((opcode - table.opcodeBase.toNat) % table.lineRange.toNat : Nat))

/-- The effect of an instruction: the next state, and the row it appends. -/
def LineInstruction.execute (table : LineTable) (st : LineState) :
    LineInstruction → LineState × Option LineEntry
  | .copy => st.append
  | .advancePc n => (st.modify fun regs => { regs with address := regs.address + n }, none)
  | .advanceLine n => (st.modify fun regs => { regs with line := regs.line + n }, none)
  | .setFile n => (st.modify fun regs => { regs with fileIndex := n }, none)
  | .setColumn n => (st.modify fun regs => { regs with column := n }, none)
  | .negateStmt => (st.modify fun regs => { regs with isStmt := !regs.isStmt }, none)
  | .setBasicBlock => (st.modify fun regs => { regs with basicBlockStart := true }, none)
  | .constAddPc => (st.modify fun regs =>
      { regs with address := regs.address + addressAdvance table 255 }, none)
  | .fixedAdvancePc n => (st.modify fun regs =>
      { regs with address := regs.address + n.setWidth 64 }, none)
  | .setPrologueEnd => (st.modify fun regs => { regs with prologueEnd := true }, none)
  | .setEpilogueBegin => (st.modify fun regs => { regs with epilogueBegin := true }, none)
  | .setIsa _ => (st, none)
  | .special opcode => (st.modify fun regs => { regs with
      address := regs.address + addressAdvance table opcode.toNat
      line := regs.line + lineAdvance table opcode.toNat }).append
  | .endSequence =>
      (st.modify fun _ => { isStmt := table.defaultIsStmt },
        some { st.registers with endSequence := true })
  | .setAddress address => (st.modify fun regs => { regs with address := address }, none)
  | .defineFile file => ({ st with files := st.files ++ [file] }, none)
  | .setDiscriminator n => (st.modify fun regs => { regs with discriminator := n }, none)

/-- A row together with the file it names; files are numbered from one. -/
def withFile (files : List LineFile) (row : LineEntry) : LineEntry :=
  { row with fileEntry := files[(row.fileIndex - 1).toNat]? }

/-- The rows a program describes. -/
def lineRows (table : LineTable) (st : LineState) : List LineInstruction → List LineEntry
  | [] => []
  | instr :: rest =>
      let (next, row) := instr.execute table st
      row.toList.map (withFile next.files) ++ lineRows table next rest

/-- The program of a table from a position to the end of the bytes, every
instruction with the position behind it. -/
inductive LineProgram (table : LineTable) (lengths : List Byte) :
    Nat → List (LineInstruction × Nat) → Prop where
  | nil : LineProgram table lengths table.data.length []
  | cons {pos : Nat} {instr : LineInstruction} {next : Cursor}
      {rest : List (LineInstruction × Nat)}
      (front : lineInstructionAt table lengths ⟨table.data, pos⟩ = some (instr, next))
      (tail : LineProgram table lengths next.pos rest) :
      LineProgram table lengths pos ((instr, next.pos) :: rest)

/-- The last instruction, if any, ends a sequence. -/
def EndsSequence (program : List (LineInstruction × Nat)) : Prop :=
  ∀ last ∈ program.getLast?, last.1 = .endSequence

def LineInstruction.isSetIsa : LineInstruction → Bool
  | .setIsa _ => true
  | _ => false

/-- The initial state of the machine. -/
def LineState.initial (table : LineTable) : LineState :=
  ⟨{ isStmt := table.defaultIsStmt }, table.fileNames⟩

/-- Iteration decodes the program: the rows are those of the state machine,
and every instruction ends where the header says. -/
def DecodesProgram (table : LineTable) (program : List (LineInstruction × Nat)) : Prop :=
  table.rows = .ok (lineRows table (.initial table) (program.map (·.1))) ∧
    ∀ k ≤ program.length, ∃ it, table.executeInstructions k table.initial = .ok it ∧
      it.pos = (0 :: program.map (·.2))[k]?

/-- The part of an iterator that the state machine knows. -/
def LineIterator.state (it : LineIterator) : LineState := ⟨it.registers, it.fileNames⟩

/-- The iterator after an effect of the state machine. -/
def LineIterator.after (it : LineIterator) (effect : LineState × Option LineEntry) :
    LineIterator :=
  { it with
    registers := effect.1.registers
    fileNames := effect.1.files
    current := effect.2.getD it.current }

section Operands

variable {cur : Cursor} {n : Nat} {instr : LineInstruction}

private theorem uleb_operand {f : BitVec 64 × Cursor → LineInstruction}
    (hsize : operandsSize [.leb] cur.rest = some n) (hinstr : cur.uleb128.map f = some instr) :
    ∃ v, cur.uleb128 = some (v, cur.advance n) ∧ f (v, cur.advance n) = instr := by
  obtain ⟨⟨v, next⟩, hread, rfl⟩ := Option.map_eq_some_iff.mp hinstr
  obtain ⟨n', hsize', rfl⟩ := Cursor.uleb128_eq_some hread
  obtain rfl : n' = n := Option.some.inj ((operandsSize_leb hsize').symm.trans hsize)
  exact ⟨v, hread, rfl⟩

private theorem sleb_operand {f : BitVec 64 × Cursor → LineInstruction}
    (hsize : operandsSize [.leb] cur.rest = some n) (hinstr : cur.sleb128.map f = some instr) :
    ∃ v, cur.sleb128 = some (v, cur.advance n) ∧ f (v, cur.advance n) = instr := by
  obtain ⟨⟨v, next⟩, hread, rfl⟩ := Option.map_eq_some_iff.mp hinstr
  obtain ⟨n', hsize', rfl⟩ := Cursor.sleb128_eq_some hread
  obtain rfl : n' = n := Option.some.inj ((operandsSize_leb hsize').symm.trans hsize)
  exact ⟨v, hread, rfl⟩

private theorem half_operand {f : BitVec 16 × Cursor → LineInstruction}
    (hsize : operandsSize [.fixed 2] cur.rest = some n) (hinstr : cur.u16.map f = some instr) :
    ∃ v, cur.u16 = some (v, cur.advance n) ∧ f (v, cur.advance n) = instr := by
  obtain ⟨⟨v, next⟩, hread, rfl⟩ := Option.map_eq_some_iff.mp hinstr
  obtain ⟨hsize', rfl⟩ := operandsSize_fixed hread
  obtain rfl : 2 = n := Option.some.inj (hsize'.symm.trans hsize)
  exact ⟨v, hread, rfl⟩

private theorem no_operand (hsize : operandsSize [] cur.rest = some n) : cur.advance n = cur := by
  cases hsize
  rfl

end Operands

/-- The header's counts, where the parser has compared them. -/
def DeclaresExpected (table : LineTable) (lengths : List Byte) : Prop :=
  table.opcodeBase.toNat ≤ 13 ∧
    lengths = expectedOpcodeLens.take (table.opcodeBase.toNat - 1)

theorem declaredOperands_eq {table : LineTable} {lengths : List Byte}
    (h : DeclaresExpected table lengths) {opcode : Byte} (hpos : opcode ≠ 0)
    (hlt : opcode < table.opcodeBase) :
    declaredOperands lengths opcode = declaredOperands expectedOpcodeLens opcode := by
  have hnat : 0 < opcode.toNat := by
    rw [Nat.pos_iff_ne_zero]
    exact fun hzero => hpos (BitVec.eq_of_toNat_eq hzero)
  have hbound : opcode.toNat - 1 < table.opcodeBase.toNat - 1 := by
    rw [BitVec.lt_def] at hlt
    omega
  rw [declaredOperands, declaredOperands, h.2, List.getElem?_take_of_lt hbound]

/-- A standard opcode other than `DW_LNS_set_isa` has its effect and consumes
its operands. -/
theorem executeStandard_eq {table : LineTable} (hrange : table.lineRange ≠ 0)
    (it : LineIterator) {opcode : Byte} {cur : Cursor} {formats : List OperandFormat} {n : Nat}
    {instr : LineInstruction}
    (hformats : declaredOperands expectedOpcodeLens opcode = some formats)
    (hsize : operandsSize formats cur.rest = some n)
    (hinstr : standardInstruction opcode cur = some instr) (hisa : instr.isSetIsa = false) :
    table.executeStandard it opcode cur =
      .ok (it.after (instr.execute table it.state), cur.advance n,
        (instr.execute table it.state).2.isSome) := by
  unfold standardInstruction at hinstr
  unfold LineTable.executeStandard
  split at hinstr
  case h_1 heq =>
    obtain rfl : opcode = 1 := BitVec.eq_of_toNat_eq heq
    cases hformats
    cases hinstr
    rw [no_operand hsize]
    rfl
  case h_2 heq =>
    obtain rfl : opcode = 2 := BitVec.eq_of_toNat_eq heq
    cases hformats
    obtain ⟨v, hread, rfl⟩ := uleb_operand hsize hinstr
    simp only [hread]
    rfl
  case h_3 heq =>
    obtain rfl : opcode = 3 := BitVec.eq_of_toNat_eq heq
    cases hformats
    obtain ⟨v, hread, rfl⟩ := sleb_operand hsize hinstr
    simp only [hread]
    rfl
  case h_4 heq =>
    obtain rfl : opcode = 4 := BitVec.eq_of_toNat_eq heq
    cases hformats
    obtain ⟨v, hread, rfl⟩ := uleb_operand hsize hinstr
    simp only [hread]
    rfl
  case h_5 heq =>
    obtain rfl : opcode = 5 := BitVec.eq_of_toNat_eq heq
    cases hformats
    obtain ⟨v, hread, rfl⟩ := uleb_operand hsize hinstr
    simp only [hread]
    rfl
  case h_6 heq =>
    obtain rfl : opcode = 6 := BitVec.eq_of_toNat_eq heq
    cases hformats
    cases hinstr
    rw [no_operand hsize]
    rfl
  case h_7 heq =>
    obtain rfl : opcode = 7 := BitVec.eq_of_toNat_eq heq
    cases hformats
    cases hinstr
    rw [no_operand hsize]
    rfl
  case h_8 heq =>
    obtain rfl : opcode = 8 := BitVec.eq_of_toNat_eq heq
    cases hformats
    cases hinstr
    rw [no_operand hsize]
    simp only [hrange]
    rfl
  case h_9 heq =>
    obtain rfl : opcode = 9 := BitVec.eq_of_toNat_eq heq
    cases hformats
    obtain ⟨v, hread, rfl⟩ := half_operand hsize hinstr
    simp only [hread]
    rfl
  case h_10 heq =>
    obtain rfl : opcode = 10 := BitVec.eq_of_toNat_eq heq
    cases hformats
    cases hinstr
    rw [no_operand hsize]
    rfl
  case h_11 heq =>
    obtain rfl : opcode = 11 := BitVec.eq_of_toNat_eq heq
    cases hformats
    cases hinstr
    rw [no_operand hsize]
    rfl
  case h_12 heq =>
    obtain ⟨operand, -, rfl⟩ := Option.map_eq_some_iff.mp hinstr
    cases hisa
  case h_13 => cases hinstr

/-- An extended opcode has its effect and consumes its operands. -/
theorem executeExtended_eq {table : LineTable} (it : LineIterator) {operands body next : Cursor}
    {len : BitVec 64} {instr : LineInstruction} (hlen : operands.uleb128 = some (len, body))
    (hinstr : extendedInstruction table body = some (instr, next)) :
    table.executeExtended it operands =
      .ok (it.after (instr.execute table it.state), next,
        (instr.execute table it.state).2.isSome) := by
  simp only [extendedInstruction, Option.bind_eq_bind, Option.bind_eq_some_iff, Prod.exists]
    at hinstr
  obtain ⟨opcode, cur, hopcode, hinstr⟩ := hinstr
  simp only [LineTable.executeExtended, hlen, hopcode, inBounds_some, ok_bind]
  split at hinstr
  case h_1 heq =>
    obtain rfl : opcode = 1 := BitVec.eq_of_toNat_eq heq
    cases hinstr
    rfl
  case h_2 heq =>
    obtain rfl : opcode = 2 := BitVec.eq_of_toNat_eq heq
    obtain ⟨⟨address, after⟩, hread, hout⟩ := Option.map_eq_some_iff.mp hinstr
    cases hout
    simp only [hread]
    rfl
  case h_3 heq =>
    obtain rfl : opcode = 3 := BitVec.eq_of_toNat_eq heq
    cases hfile : parseLineTableFile cur table.compilationDir table.includeDirs with
    | error e => simp [hfile, Except.toOption] at hinstr
    | ok out =>
        simp only [hfile, Except.toOption, Option.bind_some, Option.some.injEq,
          Prod.mk.injEq] at hinstr
        obtain ⟨rfl, rfl⟩ := hinstr
        rfl
  case h_4 heq =>
    obtain rfl : opcode = 4 := BitVec.eq_of_toNat_eq heq
    obtain ⟨⟨v, after⟩, hread, hout⟩ := Option.map_eq_some_iff.mp hinstr
    cases hout
    simp only [hread]
    rfl
  case h_5 => cases hinstr

/-- A special opcode has its effect. -/
theorem executeSpecial_eq {table : LineTable} (hrange : table.lineRange ≠ 0)
    (it : LineIterator) (opcode : Byte) (cur : Cursor) :
    table.executeSpecial it opcode cur =
      .ok (it.after ((LineInstruction.special opcode).execute table it.state), cur, true) := by
  rw [LineTable.executeSpecial, if_neg hrange]
  rfl

section Step

variable {table : LineTable} {lengths : List Byte} {pos : Nat} {instr : LineInstruction}
  {next : Cursor}

/-- What the instruction at a position is made of. -/
theorem lineInstructionAt_eq_some
    (h : lineInstructionAt table lengths ⟨table.data, pos⟩ = some (instr, next)) :
    ∃ opcode operands, (Cursor.mk table.data pos).u8 = some (opcode, operands) ∧
      ((opcode = 0 ∧ ∃ len body, operands.uleb128 = some (len, body) ∧
          extendedInstruction table body = some (instr, next) ∧
          next.pos = body.pos + len.toNat) ∨
        (opcode ≠ 0 ∧ opcode < table.opcodeBase ∧ ∃ formats n,
          declaredOperands lengths opcode = some formats ∧
          operandsSize formats operands.rest = some n ∧
          standardInstruction opcode operands = some instr ∧ next = operands.advance n) ∨
        (opcode ≠ 0 ∧ ¬ opcode < table.opcodeBase ∧ instr = .special opcode ∧
          next = operands)) := by
  simp only [lineInstructionAt, Option.bind_eq_bind, Option.bind_eq_some_iff, Prod.exists] at h
  obtain ⟨opcode, operands, hread, h⟩ := h
  refine ⟨opcode, operands, hread, ?_⟩
  split at h
  · rename_i hzero
    simp only [Option.bind_eq_some_iff, Prod.exists] at h
    obtain ⟨len, body, hlen, instr', next', hinstr, h⟩ := h
    split at h
    · rename_i hend
      cases h
      exact .inl ⟨hzero, len, body, hlen, hinstr, hend⟩
    · cases h
  · rename_i hzero
    split at h
    · rename_i hlt
      simp only [Option.bind_eq_some_iff] at h
      obtain ⟨formats, hformats, n, hsize, instr', hinstr, h⟩ := h
      cases h
      exact .inr (.inl ⟨hzero, hlt, formats, n, hformats, hsize, hinstr, rfl⟩)
    · rename_i hge
      cases h
      exact .inr (.inr ⟨hzero, hge, rfl, rfl⟩)

/-- An instruction other than `DW_LNS_set_isa` has its effect and ends where
it should. -/
theorem executeInstruction_eq (hrange : table.lineRange ≠ 0)
    (hlengths : DeclaresExpected table lengths)
    (h : lineInstructionAt table lengths ⟨table.data, pos⟩ = some (instr, next))
    (hisa : instr.isSetIsa = false) (it : LineIterator) :
    table.executeInstruction it pos =
      .ok ({ it.after (instr.execute table it.state) with pos := some next.pos },
        (instr.execute table it.state).2.isSome) := by
  obtain ⟨opcode, operands, hread, hkind⟩ := lineInstructionAt_eq_some h
  simp only [LineTable.executeInstruction, hread, inBounds_some, ok_bind]
  rcases hkind with ⟨rfl, len, body, hlen, hinstr, -⟩ |
    ⟨hzero, hlt, formats, n, hformats, hsize, hinstr, rfl⟩ | ⟨hzero, hge, rfl, rfl⟩
  · rw [if_neg (by simp), if_pos rfl, executeExtended_eq it hlen hinstr]
    rfl
  · rw [declaredOperands_eq hlengths hzero hlt] at hformats
    have hpos : 0 < opcode := by
      rw [BitVec.lt_def]
      exact Nat.pos_iff_ne_zero.mpr fun hnat => hzero (BitVec.eq_of_toNat_eq hnat)
    rw [if_pos ⟨hpos, hlt⟩, executeStandard_eq hrange it hformats hsize hinstr hisa]
    rfl
  · rw [if_neg (fun hboth => hge hboth.2), if_neg hzero, executeSpecial_eq hrange]
    rfl

/-- An instruction starts inside the program and has a first byte. -/
theorem lineInstructionAt_bounds
    (h : lineInstructionAt table lengths ⟨table.data, pos⟩ = some (instr, next)) :
    pos < table.data.length ∧ pos < next.pos := by
  obtain ⟨opcode, operands, hread, hkind⟩ := lineInstructionAt_eq_some h
  obtain ⟨hbytes, rfl⟩ := Cursor.u8_eq_some hread
  have hlength := congrArg List.length hbytes
  simp only [Cursor.rest, List.length_drop, List.length_cons, Cursor.advance_data,
    Cursor.advance_pos] at hlength
  refine ⟨by omega, ?_⟩
  rcases hkind with ⟨-, len, body, hlen, -, hend⟩ | ⟨-, -, formats, n, -, -, -, rfl⟩ |
    ⟨-, -, -, rfl⟩
  · obtain ⟨n, -, rfl⟩ := Cursor.uleb128_eq_some hlen
    simp only [Cursor.advance_pos] at hend
    omega
  · simp only [Cursor.advance_pos]
    omega
  · simp

theorem extendedInstruction_not_setIsa {cur : Cursor}
    (h : extendedInstruction table cur = some (instr, next)) : instr.isSetIsa = false := by
  simp only [extendedInstruction, Option.bind_eq_bind, Option.bind_eq_some_iff,
    Prod.exists] at h
  obtain ⟨opcode, after, -, h⟩ := h
  split at h
  case h_1 =>
    cases h
    rfl
  case h_3 =>
    obtain ⟨_, -, hout⟩ := Option.bind_eq_some_iff.mp h
    cases hout
    rfl
  case h_2 | h_4 =>
    obtain ⟨_, -, hout⟩ := Option.map_eq_some_iff.mp h
    cases hout
    rfl
  case h_5 => cases h

theorem standardInstruction_setIsa {opcode : Byte} {cur : Cursor}
    (h : standardInstruction opcode cur = some instr) (hisa : instr.isSetIsa = true) :
    opcode = 0x0c := by
  unfold standardInstruction at h
  split at h
  case h_12 heq => exact BitVec.eq_of_toNat_eq heq
  case h_13 => cases h
  case h_2 | h_3 | h_4 | h_5 | h_9 =>
    obtain ⟨_, -, rfl⟩ := Option.map_eq_some_iff.mp h
    cases hisa
  all_goals
    cases h
    cases hisa

/-- `DW_LNS_set_isa` is passed over without its operand. -/
theorem executeInstruction_setIsa (hlengths : DeclaresExpected table lengths)
    (h : lineInstructionAt table lengths ⟨table.data, pos⟩ = some (instr, next))
    (hisa : instr.isSetIsa = true) (it : LineIterator) :
    table.executeInstruction it pos = .ok ({ it with pos := some (pos + 1) }, false) ∧
      pos + 1 < next.pos := by
  obtain ⟨opcode, operands, hread, hkind⟩ := lineInstructionAt_eq_some h
  obtain ⟨-, rfl⟩ := Cursor.u8_eq_some hread
  rcases hkind with ⟨rfl, len, body, hlen, hinstr, -⟩ |
    ⟨hzero, hlt, formats, n, hformats, hsize, hinstr, rfl⟩ | ⟨hzero, hge, rfl, rfl⟩
  · rw [extendedInstruction_not_setIsa hinstr] at hisa
    cases hisa
  · obtain rfl := standardInstruction_setIsa hinstr hisa
    rw [declaredOperands_eq hlengths hzero hlt] at hformats
    cases hformats
    have hleb : lebSize _ = some n := (operandsSize_singleton .leb _).symm.trans hsize
    have hpos := lebSize_pos hleb
    refine ⟨?_, ?_⟩
    · simp only [LineTable.executeInstruction, hread, inBounds_some, ok_bind]
      rw [if_pos ⟨by decide, hlt⟩]
      rfl
    · simp only [Cursor.advance_pos]
      omega
  · cases hisa

end Step

section Run

variable {table : LineTable} {lengths : List Byte}

/-- Instruction by instruction, the iterator stays on the program exactly when
no instruction of it is `DW_LNS_set_isa`. -/
theorem executeInstructions_framed_iff (hrange : table.lineRange ≠ 0)
    (hlengths : DeclaresExpected table lengths) {pos : Nat}
    {program : List (LineInstruction × Nat)} (h : LineProgram table lengths pos program)
    (it : LineIterator) (hit : it.pos = some pos) :
    (∀ k ≤ program.length, ∃ last, table.executeInstructions k it = .ok last ∧
        last.pos = (pos :: program.map (·.2))[k]?) ↔
      ∀ entry ∈ program, entry.1.isSetIsa = false := by
  induction h generalizing it with
  | nil =>
      refine ⟨fun _ => by simp, fun _ k hk => ⟨it, ?_, ?_⟩⟩
      · obtain rfl : k = 0 := by simpa using hk
        rfl
      · obtain rfl : k = 0 := by simpa using hk
        exact hit
  | @cons pos instr next rest front tail ih =>
      cases hisa : instr.isSetIsa with
      | true =>
          refine ⟨fun hframed => ?_, fun hfree => ?_⟩
          · obtain ⟨hexec, hshort⟩ := executeInstruction_setIsa hlengths front hisa it
            obtain ⟨last, hrun, hpos⟩ := hframed 1 (by simp)
            simp only [LineTable.executeInstructions, hit, Option.getD_some, hexec, ok_bind,
              Except.ok.injEq] at hrun
            rw [← hrun] at hpos
            simp only [List.map_cons, List.getElem?_cons_succ, List.getElem?_cons_zero,
              Option.some.injEq] at hpos
            omega
          · have hhead := hfree _ List.mem_cons_self
            simp [hisa] at hhead
      | false =>
          have hexec := executeInstruction_eq hrange hlengths front hisa it
          have hrest := ih { it.after (instr.execute table it.state) with pos := some next.pos } rfl
          rw [List.forall_mem_cons]
          simp only [hisa, true_and]
          rw [← hrest]
          refine ⟨fun hframed k hk => ?_, fun hframed k hk => ?_⟩
          · obtain ⟨last, hrun, hpos⟩ := hframed (k + 1) (by simpa using hk)
            refine ⟨last, ?_, by simpa using hpos⟩
            simpa only [LineTable.executeInstructions, hit, Option.getD_some, hexec,
              ok_bind] using hrun
          · cases k with
            | zero => exact ⟨it, rfl, hit⟩
            | succ k =>
                obtain ⟨last, hrun, hpos⟩ := hframed k (by simpa using hk)
                refine ⟨last, ?_, by simpa using hpos⟩
                simpa only [LineTable.executeInstructions, hit, Option.getD_some, hexec,
                  ok_bind] using hrun

/-- An iterator stands behind the first row of a program, with the rest of the
program before it. -/
structure RowReached (table : LineTable) (lengths : List Byte) (st : LineState)
    (program : List (LineInstruction × Nat)) (it : LineIterator) (row : LineEntry) (pos : Nat)
    (rest : List (LineInstruction × Nat)) : Prop where
  remains : LineProgram table lengths pos rest
  position : it.pos = some pos
  shorter : rest.length < program.length
  subset : rest ⊆ program
  ends : EndsSequence rest
  rows : lineRows table st (program.map (·.1)) =
    row :: lineRows table it.state (rest.map (·.1))

/-- Every instruction takes at least one byte. -/
theorem LineProgram.length_le {pos : Nat} {program : List (LineInstruction × Nat)}
    (h : LineProgram table lengths pos program) : pos + program.length ≤ table.data.length := by
  induction h with
  | nil => simp
  | cons front tail ih =>
      have := (lineInstructionAt_bounds front).2
      simp only [List.length_cons]
      omega

theorem EndsSequence.tail {entry : LineInstruction × Nat}
    {rest : List (LineInstruction × Nat)} (h : EndsSequence (entry :: rest)) :
    EndsSequence rest := by
  intro last hlast
  cases rest with
  | nil => cases hlast
  | cons head rest =>
      apply h last
      rwa [List.getLast?_cons_cons]

/-- The inner loop stops behind the first row of the program. -/
theorem executeUntilRow_reaches (hrange : table.lineRange ≠ 0)
    (hlengths : DeclaresExpected table lengths) {pos : Nat}
    {program : List (LineInstruction × Nat)} (h : LineProgram table lengths pos program)
    (hfree : ∀ entry ∈ program, entry.1.isSetIsa = false) (hends : EndsSequence program)
    (hsome : program ≠ []) (rounds : Nat) (hrounds : table.data.length ≤ pos + rounds)
    (it : LineIterator) :
    ∃ last after rest, table.executeUntilRow rounds it pos = .ok last ∧
      RowReached table lengths it.state program last (withFile last.fileNames last.current)
        after rest := by
  induction h generalizing it rounds with
  | nil => exact absurd rfl hsome
  | @cons pos instr next rest front tail ih =>
      obtain ⟨hlt, hadvance⟩ := lineInstructionAt_bounds front
      have hisa := hfree _ List.mem_cons_self
      have hexec := executeInstruction_eq hrange hlengths front hisa it
      cases rounds with
      | zero => omega
      | succ rounds =>
          cases hrow : (instr.execute table it.state).2 with
          | some row =>
              refine ⟨{ it.after (instr.execute table it.state) with pos := some next.pos },
                next.pos, rest, ?_, tail, rfl, by simp, ?_, hends.tail, ?_⟩
              · simp only [LineTable.executeUntilRow, hexec, ok_bind, hrow, Option.isSome_some,
                  if_true]
                rfl
              · exact List.subset_cons_self _ _
              · simp only [List.map_cons, lineRows, hrow, Option.toList_some, List.map_nil,
                  List.cons_append, List.nil_append]
                simp only [LineIterator.after, hrow, Option.getD_some]
                rfl
          | none =>
              have hrest : rest ≠ [] := by
                rintro rfl
                have hlast : instr = .endSequence := hends (instr, next.pos) (by simp)
                subst hlast
                simp [LineInstruction.execute] at hrow
              obtain ⟨last, after, rest', hrun, hreached⟩ :=
                ih (fun entry hentry => hfree entry (List.mem_cons_of_mem _ hentry)) hends.tail
                  hrest rounds (by omega)
                  { it.after (instr.execute table it.state) with pos := some next.pos }
              refine ⟨last, after, rest', ?_, hreached.remains, hreached.position, ?_, ?_,
                hreached.ends, ?_⟩
              · simpa [LineTable.executeUntilRow, hexec, hrow] using hrun
              · have := hreached.shorter
                simp only [List.length_cons]
                omega
              · exact fun entry hentry => List.mem_cons_of_mem _ (hreached.subset hentry)
              · simp only [List.map_cons, lineRows, hrow, Option.toList_none, List.map_nil,
                  List.nil_append]
                exact hreached.rows

/-- `operator++` in front of a row steps behind it and completes it with its
file. -/
theorem advance_reaches (hrange : table.lineRange ≠ 0)
    (hlengths : DeclaresExpected table lengths) {pos : Nat}
    {program : List (LineInstruction × Nat)} (h : LineProgram table lengths pos program)
    (hfree : ∀ entry ∈ program, entry.1.isSetIsa = false) (hends : EndsSequence program)
    (hsome : program ≠ []) (it : LineIterator) (hit : it.pos = some pos)
    (hfiles : ∀ row ∈ lineRows table it.state (program.map (·.1)), row.fileEntry ≠ none) :
    ∃ next after rest, table.advance it = .ok next ∧
      RowReached table lengths it.state program next next.current after rest := by
  have hinside : pos < table.data.length := by
    cases h with
    | nil => exact absurd rfl hsome
    | cons front tail => exact (lineInstructionAt_bounds front).1
  obtain ⟨last, after, rest, hrun, hreached⟩ := executeUntilRow_reaches hrange hlengths h hfree
    hends hsome (table.data.length - pos) (by omega) it
  have hfile := hfiles _ (hreached.rows ▸ List.mem_cons_self)
  obtain ⟨file, hlookup⟩ := Option.ne_none_iff_exists'.mp hfile
  have hlookup' : last.fileNames[(last.current.fileIndex - 1).toNat]? = some file := hlookup
  have hat : LineTable.fileAt last.fileNames last.current.fileIndex = .ok file := by
    rw [LineTable.fileAt, hlookup']
  refine ⟨{ last with current := { last.current with fileEntry := some file } }, after, rest,
    ?_, hreached.remains, hreached.position, hreached.shorter, hreached.subset, hreached.ends,
    ?_⟩
  · simp only [LineTable.advance, hit, if_neg (Nat.ne_of_lt hinside), hrun, ok_bind, hat]
    rfl
  · rw [hreached.rows, withFile, hlookup']
    rfl

theorem rowsFrom_end (rounds : Nat) {it : LineIterator} (h : it.pos = none) :
    table.rowsFrom rounds it = .ok [] := by
  cases rounds <;> simp [LineTable.rowsFrom, h]

/-- Iteration yields the rows of the program, in order. -/
theorem rowsFrom_eq (hrange : table.lineRange ≠ 0) (hlengths : DeclaresExpected table lengths)
    (rounds : Nat) {pos : Nat} {program : List (LineInstruction × Nat)}
    (h : LineProgram table lengths pos program)
    (hfree : ∀ entry ∈ program, entry.1.isSetIsa = false) (hends : EndsSequence program)
    (hrounds : program.length < rounds) (it : LineIterator) (hit : it.pos = some pos)
    (hfiles : ∀ row ∈ lineRows table it.state (program.map (·.1)), row.fileEntry ≠ none) :
    table.rowsFrom rounds it =
      .ok (it.current :: lineRows table it.state (program.map (·.1))) := by
  induction rounds generalizing pos program it with
  | zero => omega
  | succ rounds ih =>
      rw [LineTable.rowsFrom, if_neg (by simp [hit])]
      by_cases hsome : program = []
      · subst hsome
        cases h with
        | nil =>
            have hend : table.advance it = .ok { it with pos := none } := by
              simp [LineTable.advance, hit]
            rw [hend, ok_bind, rowsFrom_end rounds rfl]
            rfl
      · obtain ⟨next, after, rest, hadvance, hreached⟩ :=
          advance_reaches hrange hlengths h hfree hends hsome it hit hfiles
        have hrest : ∀ row ∈ lineRows table next.state (rest.map (·.1)), row.fileEntry ≠ none :=
          fun row hrow => hfiles row (hreached.rows ▸ List.mem_cons_of_mem _ hrow)
        have hshorter := hreached.shorter
        rw [hadvance, ok_bind, ih hreached.remains (fun entry hentry =>
          hfree entry (hreached.subset hentry)) hreached.ends (by omega) next hreached.position
          hrest, hreached.rows]
        rfl

/-- All rows of the table, from the beginning. -/
theorem rows_eq (hrange : table.lineRange ≠ 0) (hlengths : DeclaresExpected table lengths)
    {program : List (LineInstruction × Nat)} (h : LineProgram table lengths 0 program)
    (hfree : ∀ entry ∈ program, entry.1.isSetIsa = false) (hends : EndsSequence program)
    (hfiles : ∀ row ∈ lineRows table (.initial table) (program.map (·.1)),
      row.fileEntry ≠ none) :
    table.rows = .ok (lineRows table (.initial table) (program.map (·.1))) := by
  by_cases hsome : program = []
  · subst hsome
    have hempty : table.data.length = 0 := by
      generalize hpos : 0 = pos at h
      cases h
      rfl
    have hend : table.advance table.initial = .ok { table.initial with pos := none } := by
      simp [LineTable.advance, LineTable.initial, hempty]
    rw [LineTable.rows, hend, ok_bind, rowsFrom_end _ rfl]
    rfl
  · obtain ⟨next, after, rest, hadvance, hreached⟩ :=
      advance_reaches hrange hlengths h hfree hends hsome table.initial rfl hfiles
    have hrest : ∀ row ∈ lineRows table next.state (rest.map (·.1)), row.fileEntry ≠ none :=
      fun row hrow => hfiles row (hreached.rows ▸ List.mem_cons_of_mem _ hrow)
    have hlength := h.length_le
    have hshorter := hreached.shorter
    rw [LineTable.rows, hadvance, ok_bind, rowsFrom_eq hrange hlengths _ hreached.remains
      (fun entry hentry => hfree entry (hreached.subset hentry)) hreached.ends (by omega) next
      hreached.position hrest, ← hreached.rows]
    rfl

end Run

theorem checkOpcodeLens_eq_ok {cur next : Cursor} {i n : Nat}
    (h : checkOpcodeLens cur i n = .ok next) :
    cur.rest.take n = (expectedOpcodeLens.drop i).take n := by
  induction n generalizing cur i with
  | zero => simp
  | succ n ih =>
      obtain ⟨⟨len, after⟩, hread, hrest⟩ := bind_eq_ok.mp h
      obtain ⟨expected, hexpected, hrest⟩ := bind_eq_ok.mp hrest
      obtain ⟨_, hsame, hrest⟩ := bind_eq_ok.mp hrest
      obtain ⟨hbytes, -⟩ := Cursor.u8_eq_some (inBounds_eq_ok.mp hread)
      obtain ⟨hi, hget⟩ := List.getElem?_eq_some_iff.mp (inBounds_eq_ok.mp hexpected)
      rw [hbytes, List.drop_eq_getElem_cons hi, List.take_succ_cons, List.take_succ_cons,
        ih hrest, hget, require_eq_ok hsame]

private theorem eq_advance {w : Nat} {cur next : Cursor} {value : BitVec w}
    (h : inBounds (cur.fixedInt w) = .ok (value, next)) : next = cur.advance (w / 8) :=
  (Cursor.fixedInt_eq_some (inBounds_eq_ok.mp h)).2.2

/-- The operand counts of an accepted header are the expected ones. -/
theorem parseLineTable_standardOpcodeLengths {cu : LineUnit} {table : LineTable}
    (h : parseLineTable cu = .ok (some table)) :
    cu.standardOpcodeLengths table.opcodeBase =
      expectedOpcodeLens.take (table.opcodeBase.toNat - 1) := by
  unfold parseLineTable at h
  split at h
  · cases h
  · rename_i offset hoffset
    obtain ⟨⟨size, _⟩, hsize, h⟩ := bind_eq_ok.mp h
    obtain rfl := eq_advance hsize
    obtain ⟨⟨version, _⟩, hversion, h⟩ := bind_eq_ok.mp h
    obtain rfl := eq_advance hversion
    obtain ⟨_, -, h⟩ := bind_eq_ok.mp h
    obtain ⟨⟨headerLength, _⟩, hheader, h⟩ := bind_eq_ok.mp h
    obtain rfl := eq_advance hheader
    obtain ⟨⟨minInstructionLen, _⟩, hmin, h⟩ := bind_eq_ok.mp h
    obtain rfl := eq_advance hmin
    obtain ⟨_, -, h⟩ := bind_eq_ok.mp h
    obtain ⟨⟨maxOps, _⟩, hmax, h⟩ := bind_eq_ok.mp h
    obtain rfl := eq_advance hmax
    obtain ⟨_, -, h⟩ := bind_eq_ok.mp h
    obtain ⟨⟨defaultIsStmt, _⟩, hstmt, h⟩ := bind_eq_ok.mp h
    obtain rfl := eq_advance hstmt
    obtain ⟨⟨lineBase, _⟩, hlineBase, h⟩ := bind_eq_ok.mp h
    obtain rfl := eq_advance hlineBase
    obtain ⟨⟨lineRange, _⟩, hlineRange, h⟩ := bind_eq_ok.mp h
    obtain rfl := eq_advance hlineRange
    obtain ⟨⟨opcodeBase, _⟩, hopcodeBase, h⟩ := bind_eq_ok.mp h
    obtain rfl := eq_advance hopcodeBase
    obtain ⟨behind, hlens, h⟩ := bind_eq_ok.mp h
    obtain ⟨_, -, h⟩ := bind_eq_ok.mp h
    obtain ⟨_, -, h⟩ := bind_eq_ok.mp h
    simp only at h
    split at h <;> cases h
    rw [LineUnit.standardOpcodeLengths, hoffset]
    exact checkOpcodeLens_eq_ok hlens

/-- Line program decoding.  For every accepted header and every program whose
sequences end and whose files exist, iteration yields the rows of the state
machine and consumes the declared operands if and only if the program does not
use `DW_LNS_set_isa`. -/
theorem lineTable_decodes_iff (cu : LineUnit) (table : LineTable)
    (hparse : parseLineTable cu = .ok (some table))
    (hbase : 1 ≤ table.opcodeBase.toNat ∧ table.opcodeBase.toNat ≤ 13)
    (hrange : table.lineRange ≠ 0) (program : List (LineInstruction × Nat))
    (hprogram : LineProgram table (cu.standardOpcodeLengths table.opcodeBase) 0 program)
    (hends : EndsSequence program)
    (hfiles : ∀ row ∈ lineRows table (.initial table) (program.map (·.1)),
      row.fileEntry ≠ none) :
    DecodesProgram table program ↔ ∀ entry ∈ program, entry.1.isSetIsa = false := by
  have hlengths : DeclaresExpected table (cu.standardOpcodeLengths table.opcodeBase) :=
    ⟨hbase.2, parseLineTable_standardOpcodeLengths hparse⟩
  have hframed := executeInstructions_framed_iff hrange hlengths hprogram table.initial rfl
  constructor
  · exact fun hdecodes => hframed.mp hdecodes.2
  · exact fun hfree => ⟨rows_eq hrange hlengths hprogram hfree hends hfiles, hframed.mpr hfree⟩

namespace LineProgramWitness

/-- A header with one file, followed by a program of six bytes. -/
def cu (program : List Byte) : LineUnit where
  section_ := [0x25, 0, 0, 0, 4, 0, 0x19, 0, 0, 0, 1, 1, 1, 0xfb, 14, 13] ++
    expectedOpcodeLens ++ [0, 0x61, 0, 0, 0, 0, 0] ++ program
  stmtList := some 0
  compDir := [0x2f]

def table (program : List Byte) : LineTable where
  data := program
  compilationDir := [0x2f]
  defaultIsStmt := true
  lineBase := 0xfb
  lineRange := 14
  opcodeBase := 13
  includeDirs := []
  fileNames := [⟨[0x2f, 0x61], 0, 0⟩]

/-- `DW_LNS_advance_pc 4; DW_LNS_copy; DW_LNE_end_sequence`. -/
def plainBytes : List Byte := [0x02, 0x04, 0x01, 0x00, 0x01, 0x01]

def plainProgram : List (LineInstruction × Nat) :=
  [(.advancePc 4, 2), (.copy, 3), (.endSequence, 6)]

theorem plain_program : LineProgram (table plainBytes) expectedOpcodeLens 0 plainProgram := by
  have hadvance : lineInstructionAt (table plainBytes) expectedOpcodeLens ⟨plainBytes, 0⟩ =
      some (.advancePc 4, ⟨plainBytes, 2⟩) := rfl
  have hcopy : lineInstructionAt (table plainBytes) expectedOpcodeLens ⟨plainBytes, 2⟩ =
      some (.copy, ⟨plainBytes, 3⟩) := rfl
  have hend : lineInstructionAt (table plainBytes) expectedOpcodeLens ⟨plainBytes, 3⟩ =
      some (.endSequence, ⟨plainBytes, 6⟩) := rfl
  exact .cons hadvance (.cons hcopy (.cons hend .nil))

/-- `DW_LNS_set_isa 1; DW_LNS_copy; DW_LNE_end_sequence`. -/
def isaBytes : List Byte := [0x0c, 0x01, 0x01, 0x00, 0x01, 0x01]

def isaProgram : List (LineInstruction × Nat) :=
  [(.setIsa 1, 2), (.copy, 3), (.endSequence, 6)]

theorem isa_program : LineProgram (table isaBytes) expectedOpcodeLens 0 isaProgram := by
  have hisa : lineInstructionAt (table isaBytes) expectedOpcodeLens ⟨isaBytes, 0⟩ =
      some (.setIsa 1, ⟨isaBytes, 2⟩) := rfl
  have hcopy : lineInstructionAt (table isaBytes) expectedOpcodeLens ⟨isaBytes, 2⟩ =
      some (.copy, ⟨isaBytes, 3⟩) := rfl
  have hend : lineInstructionAt (table isaBytes) expectedOpcodeLens ⟨isaBytes, 3⟩ =
      some (.endSequence, ⟨isaBytes, 6⟩) := rfl
  exact .cons hisa (.cons hcopy (.cons hend .nil))

end LineProgramWitness

open LineProgramWitness in
theorem lineTable_decodes_iff_plain : DecodesProgram (table plainBytes) plainProgram := by
  refine (lineTable_decodes_iff (cu plainBytes) (table plainBytes) rfl (by decide) (by decide)
    plainProgram plain_program ?_ (by decide)).mpr (by decide)
  · intro last hlast
    cases hlast
    rfl

open LineProgramWitness in
/-- The operand of `DW_LNS_set_isa` is executed as `DW_LNS_copy`. -/
theorem lineTable_not_decodes :
    ¬ ∀ (cu : LineUnit) (table : LineTable) (program : List (LineInstruction × Nat)),
      parseLineTable cu = .ok (some table) →
      1 ≤ table.opcodeBase.toNat ∧ table.opcodeBase.toNat ≤ 13 → table.lineRange ≠ 0 →
      LineProgram table (cu.standardOpcodeLengths table.opcodeBase) 0 program →
      EndsSequence program →
      (∀ row ∈ lineRows table (.initial table) (program.map (·.1)), row.fileEntry ≠ none) →
      DecodesProgram table program := by
  intro h
  have hends : EndsSequence isaProgram := by
    intro last hlast
    cases hlast
    rfl
  have hdecodes := h (cu isaBytes) (table isaBytes) isaProgram rfl (by decide) (by decide)
    isa_program hends (by decide)
  have hrows : (table isaBytes).rows ≠
      .ok (lineRows (table isaBytes) (.initial (table isaBytes)) (isaProgram.map (·.1))) := by
    decide
  exact hrows hdecodes.1

end Gsdb
