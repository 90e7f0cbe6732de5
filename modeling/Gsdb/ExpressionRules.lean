/-
Expression rules of a row: which instruction a rule came from is followed along
the execution of the instructions, and the value that is restored is compared with
the one that the format gives to that instruction.
-/
import Gsdb.CallFrameRules
import Gsdb.UnwindRules

namespace Gsdb

open ByteMemory ByteCursor

/-- The instructions that the register rules came from: the current ones, those of
the CIE and the remembered ones. -/
structure RuleOrigins where
  current : BitVec 32 → Option CfaOpcode
  cie : BitVec 32 → Option CfaOpcode
  stack : List (BitVec 32 → Option CfaOpcode)

namespace RuleOrigins

def start : RuleOrigins := ⟨fun _ => none, fun _ => none, []⟩

/-- A register that has a rule keeps it, and with it its origin. -/
def define (origins : RuleOrigins) (rules : Ruleset) (reg : BitVec 32) (op : Option CfaOpcode) :
    RuleOrigins :=
  if (rules.lookup reg).isSome then origins
  else { origins with current := Function.update origins.current reg op }

/-- The origins after the instruction at the cursor. -/
def step (fde : FrameDescriptionEntry) (ctx : UnwindContext) (origins : RuleOrigins) :
    RuleOrigins :=
  match ruleChange fde.cie ctx.cur with
  | some (.defines reg _) => origins.define ctx.registerRules reg (cfaOpcodeAt ctx.cur)
  | some (.restores reg) => origins.define ctx.registerRules reg (origins.cie reg)
  | some .restoresAll =>
      match origins.stack with
      | [] => origins
      | top :: rest => { origins with current := top, stack := rest }
  | _ =>
      if cfaOpcodeAt ctx.cur = some .rememberState then
        { origins with stack := origins.current :: origins.stack }
      else origins

end RuleOrigins

/-- `cfiLoop` with the origins of the rules. -/
def cfiLoopOrigins (bases : PointerBases) (fde : FrameDescriptionEntry) (goesOn : Word → Bool) :
    Nat → UnwindContext → RuleOrigins → Except Failure (UnwindContext × RuleOrigins)
  | 0, ctx, origins => .ok (ctx, origins)
  | rounds + 1, ctx, origins =>
      if !ctx.cur.finished && goesOn ctx.location then do
        let next ← executeCfiInstruction bases fde ctx
        cfiLoopOrigins bases fde goesOn rounds next (origins.step fde ctx)
      else .ok (ctx, origins)

/-- `unwindRow` with the origins of the rules. -/
def unwindRowOrigins (elf : Elf) (hdr : EhHdr) (pc : Word) :
    Except Failure (UnwindContext × RuleOrigins) := do
  let fde ← findFde elf hdr pc
  let text ← elf.textSectionStart
  let (ctx, origins) ← cfiLoopOrigins (elf.pointerBases text) fde.toFrameDescriptionEntry
    (fun _ => true) fde.cie.instructions.length (UnwindContext.start fde) RuleOrigins.start
  cfiLoopOrigins (elf.pointerBases text) fde.toFrameDescriptionEntry (fun location => location ≤ pc)
    fde.instructions.length (ctx.restart fde) { origins with cie := origins.current }

/-- The expression of a rule. -/
def RegisterRule.expression? : RegisterRule → Option (List Byte)
  | .expr bytes => some bytes
  | .valExpr bytes => some bytes
  | _ => none

/-- The instruction that stores an expression rule of this kind. -/
def RegisterRule.storedBy : RegisterRule → Option CfaOpcode
  | .expr _ => some .valExpression
  | .valExpr _ => some .expression
  | _ => none

/-- Every expression rule came from the instruction that stores its kind. -/
def OriginsOf (rules : Ruleset) (origin : BitVec 32 → Option CfaOpcode) : Prop :=
  ∀ reg rule, rules.lookup reg = some rule → rule.expression?.isSome → origin reg = rule.storedBy

structure OriginsTracked (ctx : UnwindContext) (origins : RuleOrigins) : Prop where
  current : OriginsOf ctx.registerRules origins.current
  cie : OriginsOf ctx.cieRegisterRules origins.cie
  stack : List.Forall₂ (fun entry origin => OriginsOf entry.1 origin) ctx.ruleStack origins.stack

section Origins

variable {bases : PointerBases} {fde : FrameDescriptionEntry} {ctx next : UnwindContext}
  {origins : RuleOrigins}

/-- A rule that an instruction defines is stored as the kind that belongs to it. -/
theorem ruleChange_storedBy {cie : CommonInformationEntry} {low6 : BitVec 6} {cur : Cursor}
    {op : CfaOpcode} {reg : BitVec 32} {rule : RegisterRule}
    (h : op.ruleChange cie low6 cur = some (.defines reg rule))
    (hexpression : rule.stored.expression?.isSome) : some op = rule.stored.storedBy := by
  cases op <;> simp only [CfaOpcode.ruleChange, definesRule, Option.bind_eq_bind,
    Option.bind_eq_some_iff, Option.map_eq_some_iff, Prod.exists, Option.some.injEq,
    RuleChange.defines.injEq, reduceCtorEq, and_false, exists_false] at h
  case expression =>
    obtain ⟨_, _, _, _, ⟨bytes, -, rfl⟩, -, rfl⟩ := h
    rfl
  case valExpression =>
    obtain ⟨_, _, _, _, ⟨bytes, -, rfl⟩, -, rfl⟩ := h
    rfl
  case undefined | sameValue =>
    obtain ⟨_, _, _, _, rfl, -, rfl⟩ := h
    cases hexpression
  case offset =>
    obtain ⟨_, -, -, rfl⟩ := h
    cases hexpression
  case register =>
    obtain ⟨_, _, _, _, ⟨_, _, -, rfl⟩, -, rfl⟩ := h
    cases hexpression
  all_goals
    obtain ⟨_, _, _, _, ⟨_, -, rfl⟩, -, rfl⟩ := h
    cases hexpression

/-- The operands of an executed instruction could be read. -/
theorem ruleChange_of_executed {low6 : BitVec 6} {cur : Cursor} {op : CfaOpcode}
    (h : executeCfaOpcode bases fde ctx low6 cur op = .ok next) :
    ∃ change, op.ruleChange fde.cie low6 cur = some change := by
  cases op
  case offset | undefined | sameValue =>
    obtain ⟨⟨_, _⟩, hread, -⟩ := bind_eq_ok.mp h
    simp [CfaOpcode.ruleChange, definesRule, unsignedFactored, inBounds_eq_ok.mp hread]
  case restoreExtended =>
    obtain ⟨⟨_, _⟩, hread, -⟩ := bind_eq_ok.mp h
    simp [CfaOpcode.ruleChange, inBounds_eq_ok.mp hread]
  case offsetExtended | offsetExtendedSf | valOffset | valOffsetSf | register =>
    obtain ⟨⟨_, _⟩, hread, hsecond⟩ := bind_eq_ok.mp h
    obtain ⟨⟨_, _⟩, hread', -⟩ := bind_eq_ok.mp hsecond
    simp [CfaOpcode.ruleChange, definesRule, unsignedFactored, signedFactored,
      inBounds_eq_ok.mp hread, inBounds_eq_ok.mp hread']
  case expression | valExpression =>
    obtain ⟨⟨_, _⟩, hread, hsecond⟩ := bind_eq_ok.mp h
    obtain ⟨⟨_, _⟩, hblock, -⟩ := bind_eq_ok.mp hsecond
    obtain ⟨⟨_, _⟩, hlength, hbytes⟩ := bind_eq_ok.mp hblock
    simp [CfaOpcode.ruleChange, definesRule, countedBlock, inBounds_eq_ok.mp hread,
      inBounds_eq_ok.mp hlength, inBounds_eq_ok.mp hbytes]
  all_goals exact ⟨_, rfl⟩

/-- The origins of an emplaced rule. -/
theorem OriginsOf.define (h : OriginsOf ctx.registerRules origins.current) {reg : BitVec 32}
    {rule : RegisterRule} {op : Option CfaOpcode}
    (hop : rule.expression?.isSome → op = rule.storedBy) :
    OriginsOf (ctx.registerRules.emplace reg rule)
      (origins.define ctx.registerRules reg op).current := by
  unfold RuleOrigins.define Ruleset.emplace
  split
  · exact h
  · intro other stored hlookup hexpression
    by_cases heq : other = reg
    · subst heq
      rw [AList.lookup_insert] at hlookup
      cases hlookup
      simpa using hop hexpression
    · rw [AList.lookup_insert_ne heq] at hlookup
      simpa [Function.update_of_ne heq] using h other stored hlookup hexpression

theorem RuleOrigins.define_cie (reg : BitVec 32) (op : Option CfaOpcode) :
    (origins.define ctx.registerRules reg op).cie = origins.cie := by
  unfold RuleOrigins.define
  split <;> rfl

theorem RuleOrigins.define_stack (reg : BitVec 32) (op : Option CfaOpcode) :
    (origins.define ctx.registerRules reg op).stack = origins.stack := by
  unfold RuleOrigins.define
  split <;> rfl

/-- An emplaced rule keeps the origins tracked. -/
theorem OriginsTracked.emplace (h : OriginsTracked ctx origins) {cur : Cursor} {reg : BitVec 32}
    {rule : RegisterRule} {op : Option CfaOpcode}
    (hop : rule.expression?.isSome → op = rule.storedBy) :
    OriginsTracked (ctx.emplaceRule cur reg rule) (origins.define ctx.registerRules reg op) := by
  constructor
  · exact h.current.define hop
  · rw [RuleOrigins.define_cie]
    exact h.cie
  · rw [RuleOrigins.define_stack]
    exact h.stack

/-- The byte of an executed instruction. -/
theorem executed_byte (h : executeCfiInstruction bases fde ctx = .ok next) :
    ∃ opcode, cfaOpcodeAt ctx.cur = CfaOpcode.ofByte opcode ∧
      ctx.cur.u8 = some (opcode, ctx.cur.advance 1) := by
  obtain ⟨opcode, hrest⟩ := rest_of_not_finished (not_finished_of_executed h)
  refine ⟨opcode, ?_, Cursor.u8_of_cons hrest⟩
  rw [cfaOpcodeAt, hrest]
  rfl

/-- Forgetting and remembering origins follows the remembered states. -/
theorem originsTracked_opcode (h : OriginsTracked ctx origins) {low6 : BitVec 6} {cur : Cursor}
    {op : CfaOpcode} {change : RuleChange} (hop : cfaOpcodeAt ctx.cur = some op)
    (hchange : ruleChange fde.cie ctx.cur = some change)
    (hopChange : op.ruleChange fde.cie low6 cur = some change)
    (hexecute : executeCfaOpcode bases fde ctx low6 cur op = .ok next) :
    OriginsTracked next (origins.step fde ctx) := by
  have heffect := executeCfaOpcode_effect hexecute
  unfold RuleOrigins.step
  rw [hchange]
  cases change with
  | defines reg rule =>
      obtain ⟨after, hdefines⟩ := executeCfaOpcode_defines bases fde ctx hopChange
      cases hdefines.symm.trans hexecute
      refine h.emplace ?_
      rw [hop]
      exact ruleChange_storedBy hopChange
  | restores reg =>
      obtain ⟨after, hrestores⟩ := executeCfaOpcode_restores bases fde ctx hopChange
      rw [hexecute, UnwindContext.cieRule] at hrestores
      cases hcie : ctx.cieRegisterRules.lookup reg with
      | none => simp [hcie, Except.map] at hrestores
      | some rule =>
          simp only [hcie, Except.map, Except.ok.injEq] at hrestores
          rw [hrestores]
          exact h.emplace (h.cie reg rule hcie)
  | restoresAll =>
      have hrestore : op = .restoreState := by
        cases op <;> simp [CfaOpcode.ruleChange, definesRule, Option.bind_eq_some_iff]
          at hopChange ⊢
      obtain ⟨rules, cfa, rest, hstack, hnext⟩ := heffect.restored hrestore
      have htracked := h.stack
      rw [hstack] at htracked
      cases horigins : origins.stack with
      | nil =>
          rw [horigins] at htracked
          cases htracked
      | cons top tops =>
          rw [horigins] at htracked
          obtain ⟨htop, hrest⟩ := List.forall₂_cons.mp htracked
          rw [hnext]
          exact ⟨htop, h.cie, hrest⟩
  | keeps =>
      have hrules := executeCfaOpcode_keeps hopChange hexecute
      have hcurrent : OriginsOf next.registerRules origins.current := by
        rw [hrules]
        exact h.current
      have hcie : OriginsOf next.cieRegisterRules origins.cie := by
        rw [heffect.cie]
        exact h.cie
      by_cases hremember : op = .rememberState
      · rw [if_pos (by rw [hop, hremember])]
        refine ⟨hcurrent, hcie, ?_⟩
        rw [heffect.remembered hremember]
        exact .cons h.current h.stack
      · rw [if_neg (by rw [hop]; exact fun h => hremember (Option.some.inj h))]
        refine ⟨hcurrent, hcie, ?_⟩
        have hrestore : op ≠ .restoreState := by
          rintro rfl
          cases hopChange
        rw [heffect.stack hremember hrestore]
        exact h.stack

/-- One instruction keeps the origins tracked. -/
theorem originsTracked_step (h : OriginsTracked ctx origins)
    (hrun : executeCfiInstruction bases fde ctx = .ok next) :
    OriginsTracked next (origins.step fde ctx) := by
  obtain ⟨opcode, hopcode, hread⟩ := executed_byte hrun
  rw [executeCfiInstruction, hread, inBounds_some, ok_bind] at hrun
  simp only at hrun
  cases hop : CfaOpcode.ofByte opcode with
  | none =>
      have hchange : ruleChange fde.cie ctx.cur = none := by
        simp [ruleChange, hread, hop]
      rw [hop] at hrun hopcode
      cases hrun
      unfold RuleOrigins.step
      rw [hchange, hopcode]
      exact ⟨h.current, h.cie, h.stack⟩
  | some op =>
      rw [hop] at hrun hopcode
      obtain ⟨change, hopChange⟩ := ruleChange_of_executed hrun
      have hchange : ruleChange fde.cie ctx.cur = some change := by
        simp [ruleChange, hread, hop, hopChange]
      exact originsTracked_opcode h hopcode hchange hopChange hrun

/-- The loops keep the origins tracked, and compute what they do without them. -/
theorem originsTracked_cfiLoop {goesOn : Word → Bool} {rounds : Nat} {row : UnwindContext}
    {last : RuleOrigins} (h : OriginsTracked ctx origins)
    (hrun : cfiLoopOrigins bases fde goesOn rounds ctx origins = .ok (row, last)) :
    OriginsTracked row last := by
  induction rounds generalizing ctx origins with
  | zero =>
      cases hrun
      exact h
  | succ rounds ih =>
      rw [cfiLoopOrigins] at hrun
      split at hrun
      · obtain ⟨next, hstep, hrest⟩ := bind_eq_ok.mp hrun
        exact ih (originsTracked_step h hstep) hrest
      · cases hrun
        exact h

theorem cfiLoopOrigins_fst (bases : PointerBases) (fde : FrameDescriptionEntry)
    (goesOn : Word → Bool) (rounds : Nat) (ctx : UnwindContext) (origins : RuleOrigins) :
    (cfiLoopOrigins bases fde goesOn rounds ctx origins).map Prod.fst =
      cfiLoop bases fde goesOn rounds ctx := by
  induction rounds generalizing ctx origins with
  | zero => rfl
  | succ rounds ih =>
      rw [cfiLoopOrigins, cfiLoop]
      split
      · cases hstep : executeCfiInstruction bases fde ctx with
        | error e => rfl
        | ok next =>
            simp only [ok_bind]
            exact ih next _
      · rfl

/-- The row with the origins of its rules is the row. -/
theorem unwindRowOrigins_fst (elf : Elf) (hdr : EhHdr) (pc : Word) :
    (unwindRowOrigins elf hdr pc).map Prod.fst = unwindRow elf hdr pc := by
  unfold unwindRowOrigins unwindRow
  cases findFde elf hdr pc with
  | error e => rfl
  | ok parsed =>
      cases elf.textSectionStart with
      | error e => rfl
      | ok text =>
          simp only [ok_bind]
          have hshared := cfiLoopOrigins_fst (elf.pointerBases text)
            parsed.toFrameDescriptionEntry (fun _ => true) parsed.cie.instructions.length
            (UnwindContext.start parsed) RuleOrigins.start
          cases hfirst : cfiLoopOrigins (elf.pointerBases text) parsed.toFrameDescriptionEntry
              (fun _ => true) parsed.cie.instructions.length (UnwindContext.start parsed)
              RuleOrigins.start with
          | error e =>
              rw [hfirst] at hshared
              change _ = (cfiLoop (elf.pointerBases text) _ _ _ _ >>= _)
              rw [← hshared]
              rfl
          | ok shared =>
              rw [hfirst] at hshared
              change _ = (cfiLoop (elf.pointerBases text) _ _ _ _ >>= _)
              rw [← hshared]
              exact cfiLoopOrigins_fst _ _ _ _ _ _

theorem unwindRowOrigins_tracked {elf : Elf} {hdr : EhHdr} {pc : Word} {row : UnwindContext}
    {last : RuleOrigins} (h : unwindRowOrigins elf hdr pc = .ok (row, last)) :
    OriginsTracked row last := by
  obtain ⟨parsed, -, hrest⟩ := bind_eq_ok.mp h
  obtain ⟨text, -, hrest⟩ := bind_eq_ok.mp hrest
  obtain ⟨⟨shared, origins⟩, hshared, hrest⟩ := bind_eq_ok.mp hrest
  have hstart : OriginsTracked (UnwindContext.start parsed) RuleOrigins.start := by
    refine ⟨?_, ?_, .nil⟩ <;>
      · intro reg rule hlookup
        cases hlookup
  have htracked := originsTracked_cfiLoop hstart hshared
  have hrestart : OriginsTracked (shared.restart parsed) { origins with cie := origins.current } :=
    ⟨htracked.current, htracked.current, htracked.stack⟩
  exact originsTracked_cfiLoop hrestart hrest

end Origins

/-- A register holds a value of eight bytes: it is not undefined, and its bytes are
those of the value. -/
def Registers.Holds (regs : Registers) (info : RegisterInfo) (value : Word) : Prop :=
  regs.isUndefined info = false ∧
    regs.data.read info.offset info.size = toLe info.size value.toNat

/-- The rules are executed, and the register then holds the value. -/
def UnwindEnv.RestoresTo (env : UnwindEnv) (file : Elf) (ctx : UnwindContext)
    (regs : Registers) (reg : BitVec 32) (value : Word) : Prop :=
  ∃ info unwound, registerInfoByDwarf reg.toInt = .ok info ∧
    (env.executeUnwindRules file ctx regs).2 = .ok unwound ∧ unwound.Holds info value

/-- What the format restores from an expression that evaluates to an address: the
value stored there for `DW_CFA_expression`, the address itself for
`DW_CFA_val_expression`. -/
def UnwindEnv.RestoresExpression (env : UnwindEnv) (file : Elf) (ctx : UnwindContext)
    (regs : Registers) (reg : BitVec 32) (origin : Option CfaOpcode) (address : Word) : Prop :=
  (origin = some .expression → ∃ value, env.readU64 address = .ok value ∧
      env.RestoresTo file ctx regs reg value) ∧
    (origin = some .valExpression → env.RestoresTo file ctx regs reg address)

/-- A register of eight bytes at least whose value is known in the frame. -/
def Registers.Restorable (regs : Registers) (reg : BitVec 32) : Prop :=
  ∃ info, registerInfoByDwarf reg.toInt = .ok info ∧ 8 ≤ info.size ∧ regs.isUndefined info = false

section Restored

variable {env : UnwindEnv} {file : Elf} {cfa address : Word} {ctx : UnwindContext}
  {regs : Registers}
  {reg : BitVec 32} {rule : RegisterRule} {expr : List Byte}

/-- DWARF registers start at even offsets. -/
theorem registerInfoByDwarf_even {number : Int} {info : RegisterInfo}
    (h : registerInfoByDwarf number = .ok info) : info.offset % 2 = 0 ∧ 0 < info.size := by
  have htable : ∀ info ∈ registerInfos, info.dwarfId ≠ -1 → info.offset % 2 = 0 ∧
      0 < info.size := by
    decide +kernel
  by_cases hnumber : number = -1
  · subst hnumber
    have horig : registerInfoByDwarf (-1) = .ok (gpr64 .origRax "orig_rax" (-1) 120) := by
      decide +kernel
    rw [horig] at h
    cases h
    decide
  · refine htable info (registerInfoBy_mem h) ?_
    rw [registerInfoByDwarf_dwarfId h]
    exact hnumber

/-- Registers that share no byte are undefined independently. -/
theorem canonical_ne_of_apart {info info' : RegisterInfo} {number number' : Int}
    (hinfo : registerInfoByDwarf number = .ok info)
    (hinfo' : registerInfoByDwarf number' = .ok info') (hapart : SlotsApart info info') :
    info.offset / 2 ≠ info'.offset / 2 := by
  have heven := registerInfoByDwarf_even hinfo
  have heven' := registerInfoByDwarf_even hinfo'
  unfold SlotsApart at hapart
  omega

/-- The bytes of two words in a register of eight bytes at least. -/
theorem toLe_word_inj {n : Nat} (hsize : 8 ≤ n) {a b : Word}
    (h : toLe n a.toNat = toLe n b.toNat) : a = b := by
  have hle : 2 ^ 64 ≤ 256 ^ n := by
    calc 2 ^ 64 = 256 ^ 8 := by norm_num
      _ ≤ 256 ^ n := Nat.pow_le_pow_right (by norm_num) hsize
  have hvalues := congrArg ofLe h
  rw [ofLe_toLe, ofLe_toLe, Nat.mod_eq_of_lt (lt_of_lt_of_le a.isLt hle),
    Nat.mod_eq_of_lt (lt_of_lt_of_le b.isLt hle)] at hvalues
  exact BitVec.eq_of_toNat_eq hvalues

/-- A rule for a word is executed when its register has room for it. -/
theorem ruleEffect_word {old : Registers} {info : RegisterInfo} {value : Word}
    (hrule : rule ≠ .undefined) (hvalue : env.ruleValue file old cfa rule = .ok (some (.u64 value)))
    (hsize : 8 ≤ info.size) :
    env.ruleEffect file old cfa info rule = .ok (.write (toLe info.size value.toNat)) := by
  have hword : (widen info (.u64 value)).toNat = value.toNat := by
    simp only [widen, BitVec.toNat_setWidth]
    exact Nat.mod_eq_of_lt (lt_of_lt_of_le value.isLt (by decide))
  unfold UnwindEnv.ruleEffect
  rw [if_neg hrule, hvalue, ok_bind, ← hword]
  exact if_pos hsize

/-- An executed rule for a word has room for it. -/
theorem ruleEffect_word_inv {old : Registers} {info : RegisterInfo} {value : Word}
    {effect : RuleEffect} (hrule : rule ≠ .undefined)
    (hvalue : env.ruleValue file old cfa rule = .ok (some (.u64 value)))
    (heffect : env.ruleEffect file old cfa info rule = .ok effect) :
    8 ≤ info.size ∧ effect = .write (toLe info.size value.toNat) := by
  have hsize : 8 ≤ info.size := by
    unfold UnwindEnv.ruleEffect at heffect
    rw [if_neg hrule, hvalue, ok_bind] at heffect
    by_contra hsmall
    have herror : (if (Value.u64 value).sizeof ≤ info.size then
        pure (.write (toLe info.size (widen info (.u64 value)).toNat))
        else .error .terminate : Except Failure RuleEffect) = .error .terminate := if_neg hsmall
    simp only [herror, reduceCtorEq] at heffect
  refine ⟨hsize, ?_⟩
  rw [ruleEffect_word hrule hvalue hsize] at heffect
  exact (Except.ok.inj heffect).symm

theorem isUndefined_eq_false {info : RegisterInfo} :
    regs.isUndefined info = false ↔ info.offset / 2 ∉ regs.undefinedOffsets := by
  simp [Registers.isUndefined]

theorem writeData_undefinedOffsets {info : RegisterInfo} {value : Value} {next : Registers}
    (h : regs.writeData info value = .ok next) :
    next.undefinedOffsets = regs.undefinedOffsets := by
  unfold Registers.writeData at h
  split at h <;> cases h
  rfl

/-- The stack pointer has room for the CFA. -/
theorem writeData_rsp (regs : Registers) (cfa : Word) :
    ∃ rsp start, registerInfoById .rsp = .ok rsp ∧ regs.writeData rsp (.u64 cfa) = .ok start :=
  ⟨gpr64 .rsp "rsp" 7 152, _, by decide +kernel, rfl⟩

/-- The other rules of a row: they are for registers that share no byte with the
register, and can be executed. -/
def UnwindEnv.OthersExecute (env : UnwindEnv) (file : Elf) (old : Registers) (cfa : Word)
    (rules : Ruleset) (reg : BitVec 32) : Prop :=
  ∀ other rule, rules.lookup other = some rule → other ≠ reg →
    RegistersApart reg other ∧ ∃ action, env.action file old cfa (other, rule) = .ok action

/-- A register whose rule restores a word holds exactly that word afterwards. -/
theorem restoresTo_iff (henumerate : (env.enumerate ctx.registerRules).Perm ctx.registerRules.rules)
    (hcfa : env.cfaOf file regs ctx.cfaRule = .ok cfa)
    (hlookup : ctx.registerRules.lookup reg = some rule) (hrule : rule ≠ .undefined)
    (hword : ∀ restored, env.ruleValue file { regs with cfa := cfa } cfa rule = .ok restored →
      ∃ word, restored = some (.u64 word))
    (hothers : env.OthersExecute file { regs with cfa := cfa } cfa ctx.registerRules reg)
    (value : Word) :
    env.RestoresTo file ctx regs reg value ↔
      env.ruleValue file { regs with cfa := cfa } cfa rule = .ok (some (.u64 value)) ∧
        regs.Restorable reg := by
  have hmem : (reg, rule) ∈ env.enumerate ctx.registerRules :=
    henumerate.mem_iff.mpr (mem_rules.mpr hlookup)
  have hnodup : ((env.enumerate ctx.registerRules).map Prod.fst).Nodup :=
    (henumerate.map Prod.fst).nodup_iff.mpr (rules_nodup _)
  have hlookups : ∀ other ∈ env.enumerate ctx.registerRules,
      ctx.registerRules.lookup other.1 = some other.2 :=
    fun other hother => mem_rules.mp (henumerate.mem_iff.mp hother)
  have hapart : ∀ other ∈ env.enumerate ctx.registerRules, other.1 ≠ reg →
      RegistersApart reg other.1 :=
    fun other hother hne => (hothers _ _ (hlookups other hother) hne).1
  constructor
  · rintro ⟨info, unwound, hinfo, hdone, hdefined, hslot⟩
    rw [UnwindEnv.executeUnwindRules, hcfa] at hdone
    obtain ⟨rsp, -, hrest⟩ := bind_eq_ok.mp hdone
    obtain ⟨start, hstart, hrun⟩ := bind_eq_ok.mp hrest
    obtain ⟨info', effect, hinfo', heffect⟩ := executed_rule hrun hmem
    cases hinfo'.symm.trans hinfo
    have hrestored : ∃ restored,
        env.ruleValue file { regs with cfa := cfa } cfa rule = .ok restored := by
      unfold UnwindEnv.ruleEffect at heffect
      rw [if_neg hrule] at heffect
      obtain ⟨restored, hrestored, -⟩ := bind_eq_ok.mp heffect
      exact ⟨restored, hrestored⟩
    obtain ⟨restored, hrestored⟩ := hrestored
    obtain ⟨word, rfl⟩ := hword restored hrestored
    obtain ⟨hsize, rfl⟩ := ruleEffect_word_inv hrule hrestored heffect
    have hbytes := executeRules_slot hrun hmem hnodup hapart hinfo heffect
    have hsame : word = value := toLe_word_inj hsize (hbytes.symm.trans hslot)
    subst hsame
    refine ⟨hrestored, info, hinfo, hsize, isUndefined_eq_false.mpr ?_⟩
    intro hundefined
    rw [← writeData_undefinedOffsets hstart] at hundefined
    exact isUndefined_eq_false.mp hdefined (executeRules_stays_undefined hrun hundefined)
  · rintro ⟨hvalue, info, hinfo, hsize, hdefined⟩
    have heffect := ruleEffect_word hrule hvalue hsize
    have hactions : ∀ other ∈ env.enumerate ctx.registerRules,
        ∃ action, env.action file { regs with cfa := cfa } cfa other = .ok action := by
      intro other hother
      by_cases hreg : other.1 = reg
      · have hown := hlookups other hother
        rw [hreg, hlookup] at hown
        refine ⟨(info, .write (toLe info.size value.toNat)), ?_⟩
        rw [UnwindEnv.action, hreg, hinfo, ← Option.some.inj hown, ok_bind, heffect]
        rfl
      · exact (hothers _ _ (hlookups other hother) hreg).2
    obtain ⟨rsp, start, hrsp, hstart⟩ := writeData_rsp regs cfa
    obtain ⟨unwound, hrun⟩ := executeRules_ok hactions start
    refine ⟨info, unwound, hinfo, ?_, ?_, executeRules_slot hrun hmem hnodup hapart hinfo heffect⟩
    · rw [UnwindEnv.executeUnwindRules, hcfa]
      exact bind_eq_ok.mpr ⟨rsp, hrsp, bind_eq_ok.mpr ⟨start, hstart, hrun⟩⟩
    · refine isUndefined_eq_false.mpr ?_
      intro hundefined
      rcases executeRules_undefined hrun hundefined with
        hbefore | ⟨other, hother, info', hkind, hinfo', hoffset⟩
      · rw [writeData_undefinedOffsets hstart] at hbefore
        exact isUndefined_eq_false.mp hdefined hbefore
      · have hne : other.1 ≠ reg := by
          intro heq
          have hown := hlookups other hother
          rw [heq, hlookup, hkind] at hown
          exact hrule (Option.some.inj hown)
        exact canonical_ne_of_apart hinfo hinfo' (hapart other hother hne _ _ hinfo hinfo')
          hoffset.symm

theorem ruleValue_expr_word {old : Registers} (hexpression : rule.expression? = some expr)
    {restored : Option Value} (h : env.ruleValue file old cfa rule = .ok restored) :
    ∃ word, restored = some (.u64 word) := by
  cases rule <;> simp only [RegisterRule.expression?, reduceCtorEq] at hexpression
  case expr =>
    obtain ⟨_, -, hrest⟩ := bind_eq_ok.mp h
    obtain ⟨word, -, hdone⟩ := bind_eq_ok.mp hrest
    cases hdone
    exact ⟨word, rfl⟩
  case valExpr =>
    obtain ⟨word, -, hdone⟩ := bind_eq_ok.mp h
    cases hdone
    exact ⟨word, rfl⟩

/-- A row restores a register from an expression as the format says exactly when
the eight bytes at the address of the expression are that address, and the register
can hold them. -/
theorem restoresExpression_iff {elf : Elf} {hdr : EhHdr} {pc : Word} {origins : RuleOrigins}
    (hrow : unwindRowOrigins elf hdr pc = .ok (ctx, origins))
    (henumerate : (env.enumerate ctx.registerRules).Perm ctx.registerRules.rules)
    (hcfa : env.cfaOf file regs ctx.cfaRule = .ok cfa)
    (hlookup : ctx.registerRules.lookup reg = some rule)
    (hexpression : rule.expression? = some expr)
    (haddress : env.evalAddress file { regs with cfa := cfa } expr true = .ok address)
    (hothers : env.OthersExecute file { regs with cfa := cfa } cfa ctx.registerRules reg) :
    env.RestoresExpression file ctx regs reg (origins.current reg) address ↔
      env.readU64 address = .ok address ∧ regs.Restorable reg := by
  have hrule : rule ≠ .undefined := by
    rintro rfl
    cases hexpression
  have horigin := (unwindRowOrigins_tracked hrow).current reg rule hlookup
    (by rw [hexpression]; rfl)
  have hvalues := restoresTo_iff henumerate hcfa hlookup hrule
    (fun _ h => ruleValue_expr_word hexpression h) hothers
  unfold UnwindEnv.RestoresExpression
  rw [horigin]
  cases rule <;> simp only [RegisterRule.expression?, reduceCtorEq, Option.some.injEq]
    at hexpression
  case expr bytes =>
    rw [hexpression] at hlookup hvalues
    have hstored : ∀ value, env.ruleValue file { regs with cfa := cfa } cfa (.expr expr) =
        .ok (some (.u64 value)) ↔ env.readU64 address = .ok value := by
      intro value
      rw [UnwindEnv.ruleValue, haddress, ok_bind]
      cases env.readU64 address with
      | error e =>
          constructor <;>
            · intro h
              cases h
      | ok word => simp [pure, Except.pure, ok_bind]
    simp only [RegisterRule.storedBy, hvalues, hstored]
    simp
  case valExpr bytes =>
    rw [hexpression] at hlookup hvalues
    have hstored : ∀ value, env.ruleValue file { regs with cfa := cfa } cfa (.valExpr expr) =
        .ok (some (.u64 value)) ↔ address = value := by
      intro value
      simp [UnwindEnv.ruleValue, haddress, pure, Except.pure]
    simp only [RegisterRule.storedBy, hvalues, hstored]
    simp

end Restored

namespace ExpressionRulesWitness

/-- A CIE whose rules find the frame pointer and the return address below the CFA,
and an FDE with `DW_CFA_expression` for `rbx`: the CFA itself. -/
def tables : List Byte :=
  [0x01, 0x1b, 0x03, 0x3b, 0x10, 0, 0, 0, 1, 0, 0, 0, 0, 0x10, 0, 0, 0x2c, 0, 0, 0] ++
  [0x14, 0, 0, 0, 0, 0, 0, 0, 1, 0x7a, 0x52, 0, 1, 0x78, 0x10, 1, 0x1b] ++
  [0x0c, 6, 16, 0x90, 1, 0x86, 2] ++
  [0x11, 0, 0, 0, 0x1c, 0, 0, 0, 0xcc, 0x0f, 0, 0, 0x10, 0, 0, 0, 0, 0x10, 3, 1, 0x96]

def program : Elf :=
  ⟨tables, [⟨".text", 6, 0x1000, 0x1000, 0x10⟩, ⟨".eh_frame_hdr", 2, 0, 0, 20⟩,
    ⟨".eh_frame", 2, 20, 20, 45⟩], 0⟩

def hdr : EhHdr := ⟨0, 12, 1, 0x3b⟩

def rules : Ruleset :=
  (((∅ : Ruleset).emplace 16 (.offset (-8))).emplace 6 (.offset (-16))).emplace 3 (.valExpr [0x96])

def shared : Ruleset := ((∅ : Ruleset).emplace 16 (.offset (-8))).emplace 6 (.offset (-16))

def ctx : UnwindContext :=
  ⟨⟨[0x10, 3, 1, 0x96], 4⟩, 61, 0x1000, .register 6 16, shared, rules, []⟩

def origins : RuleOrigins :=
  ⟨Function.update (Function.update (Function.update (fun _ => none) 16 (some .offset)) 6
      (some .offset)) 3 (some .expression),
    Function.update (Function.update (fun _ => none) 16 (some .offset)) 6 (some .offset), []⟩

theorem row : unwindRowOrigins program hdr 0x1003 = .ok (ctx, origins) := by
  rfl

/-- An inferior with some word at every address. -/
def env (stored : Word → Word) : UnwindEnv :=
  { elves := [program]
    ehHdr := fun _ => hdr
    readMemory := fun address n => .ok (toLe n (stored address).toNat)
    frameBase := fun _ => .ok none
    enumerate := Ruleset.rules
    rounds := 10
    depth := 1 }

/-- `rbp` is `0x7ff0`. -/
def regs : Registers :=
  { data := fun offset => if offset = 32 then 0xf0 else if offset = 33 then 0x7f else 0
    undefinedOffsets := []
    cfa := 0 }

theorem othersExecute (stored : Word → Word) :
    (env stored).OthersExecute program { regs with cfa := 0x8000 } 0x8000 ctx.registerRules 3 := by
  intro other rule hlookup hne
  have hmem : (other, rule) ∈ ctx.registerRules.rules := mem_rules.mpr hlookup
  have hrules : ctx.registerRules.rules =
      [(3, .valExpr [0x96]), (6, .offset (-16)), (16, .offset (-8))] := rfl
  rw [hrules] at hmem
  simp only [List.mem_cons, Prod.mk.injEq, List.not_mem_nil, or_false] at hmem
  rcases hmem with ⟨rfl, rfl⟩ | ⟨rfl, rfl⟩ | ⟨rfl, rfl⟩
  · exact absurd rfl hne
  · exact ⟨registersApart_of_ne (by decide) (by decide) (by decide), _, rfl⟩
  · exact ⟨registersApart_of_ne (by decide) (by decide) (by decide), _, rfl⟩

/-- Where every address stores itself, the value at the CFA is restored. -/
theorem restoresExpression_iff_itself :
    (env id).RestoresExpression program ctx regs 3 (origins.current 3) 0x8000 := by
  have hlookup : ctx.registerRules.lookup 3 = some (.valExpr [0x96]) := rfl
  have haddress : (env id).evalAddress program { regs with cfa := 0x8000 } [0x96] true =
    .ok 0x8000 := rfl
  refine (restoresExpression_iff row (List.Perm.refl _) rfl hlookup rfl haddress
    (othersExecute id)).mpr ?_
  exact ⟨rfl, gpr64 .rbx "rbx" 3 40, rfl, by decide, rfl⟩

/-- Where memory holds nothing but zeros, `rbx` is restored to the CFA and not to
the zero that is stored there. -/
theorem expression_not_restored :
    ¬ ∀ (env : UnwindEnv) (elf : Elf) (hdr : EhHdr) (file : Elf) (pc cfa address : Word)
        (ctx : UnwindContext) (origins : RuleOrigins) (regs : Registers) (reg : BitVec 32)
        (rule : RegisterRule) (expr : List Byte),
      unwindRowOrigins elf hdr pc = .ok (ctx, origins) →
      (env.enumerate ctx.registerRules).Perm ctx.registerRules.rules →
      env.cfaOf file regs ctx.cfaRule = .ok cfa →
      ctx.registerRules.lookup reg = some rule → rule.expression? = some expr →
      env.evalAddress file { regs with cfa := cfa } expr true = .ok address →
      env.OthersExecute file { regs with cfa := cfa } cfa ctx.registerRules reg →
      env.RestoresExpression file ctx regs reg (origins.current reg) address := by
  intro h
  have hrestores := (h (env fun _ => 0) program hdr program 0x1003 0x8000 0x8000 ctx origins regs 3
    (.valExpr [0x96]) [0x96] row (List.Perm.refl _) rfl rfl rfl rfl (othersExecute _)).1 rfl
  obtain ⟨value, hvalue, hrestored⟩ := hrestores
  have hzero : value = 0 := (Except.ok.inj hvalue).symm
  have hlookup : ctx.registerRules.lookup 3 = some (.valExpr [0x96]) := rfl
  obtain ⟨hcfa, -⟩ := (restoresTo_iff (List.Perm.refl _) rfl hlookup (by decide)
    (fun _ h => ruleValue_expr_word rfl h) (othersExecute _) value).mp hrestored
  rw [hzero] at hcfa
  exact absurd hcfa (by decide +kernel)

end ExpressionRulesWitness

end Gsdb
