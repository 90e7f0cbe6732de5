/-
Framing of call frame instructions: every instruction stands behind the operands
of the one before it.  The lengths of the operands are those of the format; the
theorems compare with them where an executed instruction leaves the cursor.
-/
import Gsdb.CallFrameUnwind

namespace Gsdb

open ByteMemory ByteCursor

/-- The format of a pointer operand; `none` where it has no meaning. -/
def pointerFormat (encoding : Byte) : Option OperandFormat :=
  match (encoding &&& 0x0f).toNat with
  | 0x00 => some (.fixed 8)
  | 0x01 => some .leb
  | 0x02 => some (.fixed 2)
  | 0x03 => some (.fixed 4)
  | 0x04 => some (.fixed 8)
  | 0x09 => some .leb
  | 0x0a => some (.fixed 2)
  | 0x0b => some (.fixed 4)
  | 0x0c => some (.fixed 8)
  | _ => none

/-- The same for a pointer that is relative to something. -/
def ehPointerFormat (encoding : Byte) : Option OperandFormat :=
  match (encoding &&& 0x70).toNat with
  | 0x00 | 0x10 | 0x20 | 0x30 | 0x40 => pointerFormat encoding
  | _ => none

/-- How the operands of an opcode are encoded.  The pointer of `DW_CFA_set_loc` is
encoded as the CIE says. -/
def CfaOpcode.operandFormats (encoding : Byte) : CfaOpcode → Option (List OperandFormat)
  | .advanceLoc | .restore | .nop | .rememberState | .restoreState => some []
  | .advanceLoc1 => some [.fixed 1]
  | .advanceLoc2 => some [.fixed 2]
  | .advanceLoc4 => some [.fixed 4]
  | .setLoc => (ehPointerFormat encoding).map fun format => [format]
  | .offset | .restoreExtended | .undefined | .sameValue | .defCfaRegister | .defCfaOffset
  | .defCfaOffsetSf => some [.leb]
  | .offsetExtended | .register | .defCfa | .offsetExtendedSf | .defCfaSf | .valOffset
  | .valOffsetSf => some [.leb, .leb]
  | .defCfaExpression => some [.block]
  | .expression | .valExpression => some [.leb, .block]

/-- The opcode of the instruction at a cursor. -/
def cfaOpcodeAt (cur : Cursor) : Option CfaOpcode := cur.rest.head?.bind CfaOpcode.ofByte

/-- The instruction at the cursor is known and was executed with the cursor left
behind its operands, or an error was raised. -/
def InstructionFramed (bases : PointerBases) (fde : FrameDescriptionEntry)
    (ctx : UnwindContext) : Prop :=
  match executeCfiInstruction bases fde ctx with
  | .error e => e.isException = true
  | .ok next => ∃ op formats n, cfaOpcodeAt ctx.cur = some op ∧
      op.operandFormats fde.cie.fdePointerEncoding = some formats ∧
      operandsSize formats (ctx.cur.rest.drop 1) = some n ∧ next.cur = ctx.cur.advance (1 + n)

/-- The opcode is one of those that are handled, its operands are complete, and a
state that is restored was remembered. -/
def InstructionHandled (fde : FrameDescriptionEntry) (ctx : UnwindContext) : Prop :=
  ∃ op, cfaOpcodeAt ctx.cur = some op ∧
    (∀ formats, op.operandFormats fde.cie.fdePointerEncoding = some formats →
      (operandsSize formats (ctx.cur.rest.drop 1)).isSome = true) ∧
    (op = .restoreState → ctx.ruleStack ≠ [])

/-- An instruction whose operands take a number of bytes from a cursor leaves it
behind them or raises an error; if they are cut short it is undefined. -/
def Consumes (cur : Cursor) (size : Option Nat) (result : Except Failure UnwindContext) : Prop :=
  match size with
  | none => ∃ e, result = .error e ∧ e.isException = false
  | some n => (∃ next, result = .ok next ∧ next.cur = cur.advance n) ∨
      ∃ e, result = .error e ∧ e.isException = true

section Operands

variable {cur : Cursor} {result : Except Failure UnwindContext}

theorem Consumes.returns {next : UnwindContext} (h : next.cur = cur) :
    Consumes cur (operandsSize [] cur.rest) (.ok next) :=
  .inl ⟨next, rfl, h⟩

theorem Consumes.raises {e : Failure} (h : e.isException = true) :
    Consumes cur (operandsSize [] cur.rest) (.error e) :=
  .inr ⟨e, rfl, h⟩

/-- The operands behind the first one. -/
theorem Consumes.advance {n : Nat} {size : Option Nat} (h : Consumes (cur.advance n) size result) :
    Consumes cur (size.map (n + ·)) result := by
  cases size with
  | none => exact h
  | some k =>
      rcases h with ⟨next, hnext, hcur⟩ | herror
      · refine .inl ⟨next, hnext, ?_⟩
        rw [hcur, Cursor.advance_advance]
      · exact .inr herror

/-- One operand is read, then the others. -/
theorem Consumes.bind {α : Type} {reader : Cursor → Option (α × Cursor)} {format : OperandFormat}
    (hreads : Reads reader format) {rest : List OperandFormat}
    {f : α × Cursor → Except Failure UnwindContext}
    (h : ∀ a n, Consumes (cur.advance n) (operandsSize rest (cur.advance n).rest)
      (f (a, cur.advance n))) :
    Consumes cur (operandsSize (format :: rest) cur.rest) (inBounds (reader cur) >>= f) := by
  have hread := hreads cur
  cases hsize : format.size cur.rest with
  | none =>
      rw [hsize, Option.map_none, Option.map_eq_none_iff] at hread
      rw [hread, inBounds_none, error_bind]
      simp only [operandsSize, hsize]
      exact ⟨_, rfl, rfl⟩
  | some n =>
      rw [hsize, Option.map_some] at hread
      obtain ⟨⟨a, after⟩, hsome, hafter⟩ := Option.map_eq_some_iff.mp hread
      have hcur : after = cur.advance n := hafter
      subst hcur
      rw [hsome, inBounds_some, ok_bind]
      have hrest := (h a n).advance
      rw [Cursor.rest_advance] at hrest
      have hall : operandsSize (format :: rest) cur.rest =
          (operandsSize rest (cur.rest.drop n)).map (n + ·) := by
        simp only [operandsSize, hsize, Option.bind_eq_bind, Option.bind_some]
        cases operandsSize rest (cur.rest.drop n) <;> rfl
      rw [hall]
      exact hrest

theorem expressionBlock_eq (cur : Cursor) :
    expressionBlock cur = inBounds (cur.uleb128.bind fun read => read.2.block read.1.toNat) := by
  rw [expressionBlock]
  cases cur.uleb128 <;> rfl

/-- A pointer is read from exactly its bytes, or its format is an error. -/
theorem parseEhFramePointerWithBase_consumes (cur : Cursor) (encoding : Byte) (base : Word)
    {f : Word × Cursor → UnwindContext} (hf : ∀ loc cur, (f (loc, cur)).cur = cur) :
    match pointerFormat encoding with
    | some format => Consumes cur (operandsSize [format] cur.rest)
        (parseEhFramePointerWithBase cur encoding base >>= fun read => .ok (f read))
    | none => ∃ e, parseEhFramePointerWithBase cur encoding base = .error e ∧
        e.isException = true := by
  cases hformat : pointerFormat encoding with
  | some format =>
      unfold pointerFormat at hformat
      unfold parseEhFramePointerWithBase
      generalize (encoding &&& 0x0f).toNat = low at hformat ⊢
      split at hformat <;> cases hformat <;> simp only [bind_assoc, pure_bind]
      case h_2 => exact .bind reads_uleb128 fun _ _ => .returns (hf _ _)
      case h_3 | h_7 => exact .bind reads_u16 fun _ _ => .returns (hf _ _)
      case h_4 | h_8 => exact .bind reads_u32 fun _ _ => .returns (hf _ _)
      case h_6 => exact .bind reads_sleb128 fun _ _ => .returns (hf _ _)
      all_goals exact .bind reads_u64 fun _ _ => .returns (hf _ _)
  | none =>
      refine ⟨.error "Unknown eh_frame pointer encoding!", ?_, rfl⟩
      unfold parseEhFramePointerWithBase
      split
      case h_10 => rfl
      all_goals
        rename_i hlow
        rw [pointerFormat, hlow] at hformat
        cases hformat

theorem parseEhFramePointer_consumes (cur : Cursor) (encoding : Byte)
    (pc textSectionStart dataSectionStart funcStart : Word)
    {f : Word × Cursor → UnwindContext} (hf : ∀ loc cur, (f (loc, cur)).cur = cur) :
    match ehPointerFormat encoding with
    | some format => Consumes cur (operandsSize [format] cur.rest)
        (parseEhFramePointer cur encoding pc textSectionStart dataSectionStart funcStart >>=
          fun read => .ok (f read))
    | none => ∃ e, parseEhFramePointer cur encoding pc textSectionStart dataSectionStart funcStart =
        .error e ∧ e.isException = true := by
  have hbase := fun base => parseEhFramePointerWithBase_consumes cur encoding base hf
  cases hformat : ehPointerFormat encoding with
  | some format =>
      unfold ehPointerFormat at hformat
      unfold parseEhFramePointer
      generalize (encoding &&& 0x70).toNat = application at hformat ⊢
      split at hformat
      case h_6 => cases hformat
      all_goals
        rw [hformat] at hbase
        exact hbase _
  | none =>
      simp only [parseEhFramePointer]
      split
      case h_6 => exact ⟨_, rfl, rfl⟩
      all_goals
        rename_i happlication
        rw [ehPointerFormat, happlication] at hformat
        have hnone : pointerFormat encoding = none := hformat
        rw [hnone] at hbase
        exact hbase _

theorem cieRule_consumes {ctx : UnwindContext} (reg : BitVec 32)
    {f : RegisterRule → UnwindContext} (hf : ∀ rule, (f rule).cur = cur) :
    Consumes cur (operandsSize [] cur.rest) (ctx.cieRule reg >>= fun rule => .ok (f rule)) := by
  unfold UnwindContext.cieRule
  split
  · exact .returns (hf _)
  · exact .raises rfl

theorem cfaRegister_consumes {ctx : UnwindContext} {f : BitVec 32 × Word → UnwindContext}
    (hf : ∀ rule, (f rule).cur = cur) :
    Consumes cur (operandsSize [] cur.rest) (ctx.cfaRegister >>= fun rule => .ok (f rule)) := by
  unfold UnwindContext.cfaRegister
  split
  · exact .returns (hf _)
  · exact .raises rfl

/-- Every opcode takes exactly its operands. -/
theorem executeCfaOpcode_consumes (bases : PointerBases) (fde : FrameDescriptionEntry)
    (ctx : UnwindContext) (low6 : BitVec 6) (cur : Cursor) {op : CfaOpcode}
    {formats : List OperandFormat}
    (hformats : op.operandFormats fde.cie.fdePointerEncoding = some formats)
    (hstack : op = .restoreState → ctx.ruleStack ≠ []) :
    Consumes cur (operandsSize formats cur.rest) (executeCfaOpcode bases fde ctx low6 cur op) := by
  cases op with
  | setLoc =>
      obtain ⟨format, hformat, rfl⟩ := Option.map_eq_some_iff.mp hformats
      have hread := parseEhFramePointer_consumes cur fde.cie.fdePointerEncoding
        (ctx.origin + BitVec.ofNat 64 cur.pos) bases.textSectionStart bases.pltStart
        fde.initialLocation (f := fun read => { ctx with cur := read.2, location := read.1 })
        fun _ _ => rfl
      rw [hformat] at hread
      exact hread
  | restoreState =>
      cases hformats
      cases hremembered : ctx.ruleStack with
      | nil => exact absurd hremembered (hstack rfl)
      | cons remembered rest =>
          simp only [executeCfaOpcode, hremembered]
          exact .returns rfl
  | restore =>
      cases hformats
      simp only [executeCfaOpcode]
      exact cieRule_consumes _ fun _ => rfl
  | restoreExtended =>
      cases hformats
      exact .bind reads_uleb128 fun _ _ => cieRule_consumes _ fun _ => rfl
  | defCfaRegister | defCfaOffset =>
      cases hformats
      exact .bind reads_uleb128 fun _ _ => cfaRegister_consumes fun _ => rfl
  | defCfaOffsetSf =>
      cases hformats
      exact .bind reads_sleb128 fun _ _ => cfaRegister_consumes fun _ => rfl
  | defCfaExpression =>
      cases hformats
      simp only [executeCfaOpcode, expressionBlock_eq]
      exact .bind reads_block fun _ _ => .returns rfl
  | expression | valExpression =>
      cases hformats
      simp only [executeCfaOpcode, expressionBlock_eq]
      exact .bind reads_uleb128 fun _ _ => .bind reads_block fun _ _ => .returns rfl
  | advanceLoc | nop | rememberState =>
      cases hformats
      exact .returns rfl
  | advanceLoc1 =>
      cases hformats
      exact .bind reads_u8 fun _ _ => .returns rfl
  | advanceLoc2 =>
      cases hformats
      exact .bind reads_u16 fun _ _ => .returns rfl
  | advanceLoc4 =>
      cases hformats
      exact .bind reads_u32 fun _ _ => .returns rfl
  | offset | undefined | sameValue =>
      cases hformats
      exact .bind reads_uleb128 fun _ _ => .returns rfl
  | offsetExtended | register | defCfa | valOffset =>
      cases hformats
      exact .bind reads_uleb128 fun _ _ => .bind reads_uleb128 fun _ _ => .returns rfl
  | offsetExtendedSf | defCfaSf | valOffsetSf =>
      cases hformats
      exact .bind reads_uleb128 fun _ _ => .bind reads_sleb128 fun _ _ => .returns rfl

end Operands

theorem rest_of_not_finished {cur : Cursor} (h : cur.finished = false) :
    ∃ opcode, cur.rest = opcode :: cur.rest.drop 1 := by
  have hlt : cur.pos < cur.data.length := by simpa [Cursor.finished] using h
  refine ⟨cur.data[cur.pos], ?_⟩
  rw [Cursor.rest, List.drop_drop, List.drop_eq_getElem_cons hlt, Nat.add_comm]

/-- The instruction at a cursor that is not at the end. -/
theorem executeCfiInstruction_of_not_finished (bases : PointerBases) (fde : FrameDescriptionEntry)
    {ctx : UnwindContext} (h : ctx.cur.finished = false) :
    ∃ low6, executeCfiInstruction bases fde ctx = match cfaOpcodeAt ctx.cur with
      | some op => executeCfaOpcode bases fde ctx low6 (ctx.cur.advance 1) op
      | none => .ok { ctx with cur := ctx.cur.advance 1 } := by
  obtain ⟨opcode, hrest⟩ := rest_of_not_finished h
  refine ⟨opcode.setWidth 6, ?_⟩
  rw [executeCfiInstruction, Cursor.u8_of_cons hrest, inBounds_some, ok_bind, cfaOpcodeAt, hrest]
  rfl

/-- An opcode whose operands have no format is an error. -/
theorem executeCfaOpcode_unencoded (bases : PointerBases) (fde : FrameDescriptionEntry)
    (ctx : UnwindContext) (low6 : BitVec 6) (cur : Cursor) {op : CfaOpcode}
    (h : op.operandFormats fde.cie.fdePointerEncoding = none) :
    ∃ e, executeCfaOpcode bases fde ctx low6 cur op = .error e ∧ e.isException = true := by
  cases op <;> simp only [CfaOpcode.operandFormats, reduceCtorEq, Option.map_eq_none_iff] at h
  have hread := parseEhFramePointer_consumes cur fde.cie.fdePointerEncoding
    (ctx.origin + BitVec.ofNat 64 cur.pos) bases.textSectionStart bases.pltStart
    fde.initialLocation (f := fun read => { ctx with cur := read.2, location := read.1 })
    fun _ _ => rfl
  rw [h] at hread
  obtain ⟨e, herror, hexception⟩ := hread
  refine ⟨e, ?_, hexception⟩
  rw [executeCfaOpcode, herror]
  rfl

/-- A handled opcode is executed with its operands, or raises an error. -/
theorem executeCfaOpcode_handled (bases : PointerBases) (fde : FrameDescriptionEntry)
    (ctx : UnwindContext) (low6 : BitVec 6) (cur : Cursor) {op : CfaOpcode}
    (hcomplete : ∀ formats, op.operandFormats fde.cie.fdePointerEncoding = some formats →
      (operandsSize formats cur.rest).isSome = true)
    (hstack : op = .restoreState → ctx.ruleStack ≠ []) :
    (∃ next formats n, executeCfaOpcode bases fde ctx low6 cur op = .ok next ∧
        op.operandFormats fde.cie.fdePointerEncoding = some formats ∧
        operandsSize formats cur.rest = some n ∧ next.cur = cur.advance n) ∨
      ∃ e, executeCfaOpcode bases fde ctx low6 cur op = .error e ∧ e.isException = true := by
  cases hformats : op.operandFormats fde.cie.fdePointerEncoding with
  | none => exact .inr (executeCfaOpcode_unencoded bases fde ctx low6 cur hformats)
  | some formats =>
      obtain ⟨n, hsize⟩ := Option.isSome_iff_exists.mp (hcomplete formats hformats)
      have hconsumes := executeCfaOpcode_consumes bases fde ctx low6 cur hformats hstack
      rw [hsize] at hconsumes
      rcases hconsumes with ⟨next, hnext, hcur⟩ | herror
      · exact .inl ⟨next, formats, n, hnext, rfl, hsize, hcur⟩
      · exact .inr herror

/-- Any other opcode has no defined outcome. -/
theorem executeCfaOpcode_unhandled (bases : PointerBases) (fde : FrameDescriptionEntry)
    (ctx : UnwindContext) (low6 : BitVec 6) (cur : Cursor) {op : CfaOpcode}
    (h : ¬ ((∀ formats, op.operandFormats fde.cie.fdePointerEncoding = some formats →
        (operandsSize formats cur.rest).isSome = true) ∧
      (op = .restoreState → ctx.ruleStack ≠ []))) :
    ∃ e, executeCfaOpcode bases fde ctx low6 cur op = .error e ∧ e.isException = false := by
  by_cases hstack : op = .restoreState → ctx.ruleStack ≠ []
  · obtain ⟨formats, hformats, hcut⟩ : ∃ formats,
        op.operandFormats fde.cie.fdePointerEncoding = some formats ∧
          ¬ (operandsSize formats cur.rest).isSome = true := by
      by_contra hnone
      push Not at hnone
      exact h ⟨hnone, hstack⟩
    have hconsumes := executeCfaOpcode_consumes bases fde ctx low6 cur hformats hstack
    rw [Option.not_isSome_iff_eq_none.mp hcut] at hconsumes
    exact hconsumes
  · push Not at hstack
    obtain ⟨rfl, hempty⟩ := hstack
    refine ⟨.undefined "back of an empty vector", ?_, rfl⟩
    simp only [executeCfaOpcode, hempty]

/-- One instruction: it is framed exactly when it is handled. -/
theorem instructionFramed_iff (bases : PointerBases) (fde : FrameDescriptionEntry)
    {ctx : UnwindContext} (h : ctx.cur.finished = false) :
    InstructionFramed bases fde ctx ↔ InstructionHandled fde ctx := by
  obtain ⟨low6, hexecute⟩ := executeCfiInstruction_of_not_finished bases fde h
  have hrest : (ctx.cur.advance 1).rest = ctx.cur.rest.drop 1 := Cursor.rest_advance _ _
  constructor
  · intro hframed
    cases hop : cfaOpcodeAt ctx.cur with
    | none =>
        rw [hop] at hexecute
        rw [InstructionFramed, hexecute] at hframed
        obtain ⟨op, -, -, hsome, -⟩ := hframed
        rw [hop] at hsome
        cases hsome
    | some op =>
        rw [hop] at hexecute
        refine ⟨op, hop, ?_⟩
        by_contra hunhandled
        rw [← hrest] at hunhandled
        obtain ⟨e, herror, hundefined⟩ := executeCfaOpcode_unhandled bases fde ctx low6 _ hunhandled
        rw [InstructionFramed, hexecute] at hframed
        simp only [herror, hundefined] at hframed
        cases hframed
  · rintro ⟨op, hop, hcomplete, hstack⟩
    rw [hop] at hexecute
    rw [InstructionFramed, hexecute]
    rw [← hrest] at hcomplete
    rcases executeCfaOpcode_handled bases fde ctx low6 _ hcomplete hstack with
      ⟨next, formats, n, hnext, hformats, hsize, hcur⟩ | ⟨e, herror, hexception⟩
    · rw [hrest] at hsize
      rw [Cursor.advance_advance] at hcur
      simp only [hnext]
      exact ⟨op, formats, n, hop, hformats, hsize, hcur⟩
    · simp only [herror]
      exact hexception

/-- A context from which a loop of `call_frame_information::unwind` executes an
instruction. -/
def CfiIteration (bases : PointerBases) (fde : FrameDescriptionEntry) (goesOn : Word → Bool)
    (start ctx : UnwindContext) : Prop :=
  ∃ rounds, cfiLoop bases fde goesOn rounds start = .ok ctx ∧
    (!ctx.cur.finished && goesOn ctx.location) = true

/-- Every loop over instructions, over every byte string and from any context:
all its instructions are framed exactly when all of them are handled. -/
theorem cfiLoop_framed_iff (bases : PointerBases) (fde : FrameDescriptionEntry)
    (goesOn : Word → Bool) (start : UnwindContext) :
    (∀ ctx, CfiIteration bases fde goesOn start ctx → InstructionFramed bases fde ctx) ↔
      ∀ ctx, CfiIteration bases fde goesOn start ctx → InstructionHandled fde ctx := by
  have hstep : ∀ ctx, CfiIteration bases fde goesOn start ctx →
      (InstructionFramed bases fde ctx ↔ InstructionHandled fde ctx) := by
    rintro ctx ⟨rounds, -, hcondition⟩
    rw [Bool.and_eq_true, Bool.not_eq_true'] at hcondition
    exact instructionFramed_iff bases fde hcondition.1
  constructor
  · exact fun h ctx hctx => (hstep ctx hctx).mp (h ctx hctx)
  · exact fun h ctx hctx => (hstep ctx hctx).mpr (h ctx hctx)

namespace CallFrameFramingWitness

/-- `DW_CFA_GNU_args_size 10`: an opcode of the vendors' range and its operand. -/
def fde : FrameDescriptionEntry := ⟨⟨1, -8, 0, []⟩, 0x1000, 0x100, [0x2e, 0x0a]⟩

def start : UnwindContext := ⟨⟨fde.instructions, 0⟩, 0, 0x1000, .register 7 8, ∅, ∅, []⟩

/-- The operand of an opcode that is not handled is executed. -/
theorem cfiLoop_not_framed :
    ¬ ∀ (bases : PointerBases) (fde : FrameDescriptionEntry) (goesOn : Word → Bool)
        (start ctx : UnwindContext), CfiIteration bases fde goesOn start ctx →
      InstructionFramed bases fde ctx := by
  intro h
  have hframed := h ⟨0, 0⟩ fde (fun _ => true) start start ⟨0, rfl, rfl⟩
  obtain ⟨op, hop, -⟩ := (instructionFramed_iff ⟨0, 0⟩ fde rfl).mp hframed
  have hnone : cfaOpcodeAt start.cur = none := rfl
  rw [hnone] at hop
  cases hop

end CallFrameFramingWitness

end Gsdb
