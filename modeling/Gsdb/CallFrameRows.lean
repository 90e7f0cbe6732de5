/-
Rows of the unwind table: which instructions make up the row for a program
counter, and the states that are remembered and restored on the way to it.
-/
import Gsdb.CallFrameFraming

namespace Gsdb

open ByteMemory ByteCursor

/-- The opcodes of the next instructions, as far as they can be executed. -/
def executedOpcodes (bases : PointerBases) (fde : FrameDescriptionEntry) :
    Nat → UnwindContext → List (Option CfaOpcode)
  | 0, _ => []
  | n + 1, ctx => cfaOpcodeAt ctx.cur :: match executeCfiInstruction bases fde ctx with
      | .ok next => executedOpcodes bases fde n next
      | .error _ => []

/-- Instructions that restore exactly the states they have remembered themselves,
with a number of them still to be restored. -/
def restoresOwn : Nat → List (Option CfaOpcode) → Bool
  | depth, [] => depth == 0
  | depth, some .rememberState :: rest => restoresOwn (depth + 1) rest
  | 0, some .restoreState :: _ => false
  | depth + 1, some .restoreState :: rest => restoresOwn depth rest
  | depth, _ :: rest => restoresOwn depth rest

/-- The instructions that change the location. -/
def CfaOpcode.changesLocation : CfaOpcode → Bool
  | .advanceLoc | .setLoc | .advanceLoc1 | .advanceLoc2 | .advanceLoc4 => true
  | _ => false

section Instruction

variable {bases : PointerBases} {fde : FrameDescriptionEntry} {ctx next : UnwindContext}

theorem not_finished_of_executed (h : executeCfiInstruction bases fde ctx = .ok next) :
    ctx.cur.finished = false := by
  obtain ⟨⟨opcode, cur⟩, hread, -⟩ := bind_eq_ok.mp h
  obtain ⟨hle, -⟩ := Cursor.fixedInt_eq_some (inBounds_eq_ok.mp hread)
  simp only [Cursor.rest, List.length_drop] at hle
  simp only [Cursor.finished, decide_eq_false_iff_not]
  omega

/-- An executed instruction with its opcode. -/
theorem executed_cases (h : executeCfiInstruction bases fde ctx = .ok next) :
    (cfaOpcodeAt ctx.cur = none ∧ next = { ctx with cur := ctx.cur.advance 1 }) ∨
      ∃ op low6, cfaOpcodeAt ctx.cur = some op ∧
        executeCfaOpcode bases fde ctx low6 (ctx.cur.advance 1) op = .ok next := by
  obtain ⟨low6, hexecute⟩ :=
    executeCfiInstruction_of_not_finished bases fde (not_finished_of_executed h)
  rw [h] at hexecute
  cases hop : cfaOpcodeAt ctx.cur with
  | none =>
      rw [hop] at hexecute
      exact .inl ⟨rfl, Except.ok.inj hexecute⟩
  | some op =>
      rw [hop] at hexecute
      exact .inr ⟨op, low6, rfl, hexecute.symm⟩

theorem executed_known {op : CfaOpcode} (h : executeCfiInstruction bases fde ctx = .ok next)
    (hop : cfaOpcodeAt ctx.cur = some op) :
    ∃ low6, executeCfaOpcode bases fde ctx low6 (ctx.cur.advance 1) op = .ok next := by
  rcases executed_cases h with ⟨hnone, -⟩ | ⟨op', low6, hop', hexecute⟩
  · rw [hop] at hnone
    cases hnone
  · rw [hop] at hop'
    cases hop'
    exact ⟨low6, hexecute⟩

/-- Every instruction takes a byte at least. -/
theorem executed_advances (h : executeCfiInstruction bases fde ctx = .ok next) :
    ∃ n, next.cur = ctx.cur.advance (n + 1) := by
  rcases executed_cases h with ⟨-, rfl⟩ | ⟨op, low6, -, hop⟩
  · exact ⟨0, rfl⟩
  · cases hformats : op.operandFormats fde.cie.fdePointerEncoding with
    | none =>
        obtain ⟨e, herror, -⟩ := executeCfaOpcode_unencoded bases fde ctx low6
          (ctx.cur.advance 1) hformats
        rw [hop] at herror
        cases herror
    | some formats =>
        have hstack : op = .restoreState → ctx.ruleStack ≠ [] := by
          rintro rfl hempty
          simp only [executeCfaOpcode, hempty] at hop
          cases hop
        have hconsumes := executeCfaOpcode_consumes bases fde ctx low6 (ctx.cur.advance 1)
          hformats hstack
        cases hsize : operandsSize formats (ctx.cur.advance 1).rest with
        | none =>
            rw [hsize, hop] at hconsumes
            obtain ⟨e, herror, -⟩ := hconsumes
            cases herror
        | some n =>
            rw [hsize, hop] at hconsumes
            rcases hconsumes with ⟨_, hsame, hcur⟩ | ⟨e, herror, -⟩
            · cases hsame
              refine ⟨n, ?_⟩
              rw [hcur, Cursor.advance_advance, Nat.add_comm 1 n]
            · cases herror

/-- What an instruction leaves alone: the rules of the CIE, the remembered states
unless it is about them, the location or the rules. -/
structure OpcodeEffect (op : CfaOpcode) (ctx next : UnwindContext) : Prop where
  origin : next.origin = ctx.origin
  cie : next.cieRegisterRules = ctx.cieRegisterRules
  remembered : op = .rememberState → next = { ctx with
    cur := next.cur, ruleStack := (ctx.registerRules, ctx.cfaRule) :: ctx.ruleStack }
  restored : op = .restoreState → ∃ rules cfa rest, ctx.ruleStack = (rules, cfa) :: rest ∧
    next = { ctx with cur := next.cur, registerRules := rules, cfaRule := cfa, ruleStack := rest }
  stack : op ≠ .rememberState → op ≠ .restoreState → next.ruleStack = ctx.ruleStack
  moved : op.changesLocation = true → next = { ctx with
    cur := next.cur, location := next.location }
  stays : op.changesLocation = false → next.location = ctx.location

theorem executeCfaOpcode_effect {low6 : BitVec 6} {cur : Cursor} {op : CfaOpcode}
    (h : executeCfaOpcode bases fde ctx low6 cur op = .ok next) : OpcodeEffect op ctx next := by
  cases op
  case advanceLoc | nop | rememberState =>
    cases h
    constructor <;> simp [UnwindContext.advanceLocation, CfaOpcode.changesLocation]
  case restoreState =>
    simp only [executeCfaOpcode] at h
    split at h
    · cases h
    · rename_i rules cfa rest hstack
      cases h
      constructor <;> simp [CfaOpcode.changesLocation, hstack]
  case setLoc | advanceLoc1 | advanceLoc2 | advanceLoc4 | defCfaExpression | offset | restore
      | undefined | sameValue =>
    obtain ⟨_, -, hrest⟩ := bind_eq_ok.mp h
    cases hrest
    constructor <;> simp [UnwindContext.advanceLocation, UnwindContext.setCfa,
      UnwindContext.emplaceRule, CfaOpcode.changesLocation]
  all_goals
    obtain ⟨_, -, hsecond⟩ := bind_eq_ok.mp h
    obtain ⟨_, -, hrest⟩ := bind_eq_ok.mp hsecond
    cases hrest
    constructor <;> simp [UnwindContext.setCfa, UnwindContext.emplaceRule,
      CfaOpcode.changesLocation]

end Instruction

section Bracket

variable {bases : PointerBases} {fde : FrameDescriptionEntry}

theorem restoresOwn_other {op : Option CfaOpcode} (hremember : op ≠ some .rememberState)
    (hrestore : op ≠ some .restoreState) (depth : Nat) (rest : List (Option CfaOpcode)) :
    restoresOwn depth (op :: rest) = restoresOwn depth rest := by
  cases op with
  | none => cases depth <;> rfl
  | some op => cases op <;> cases depth <;> first | rfl | contradiction

theorem executedOpcodes_succ {ctx next : UnwindContext}
    (h : executeCfiInstruction bases fde ctx = .ok next) (n : Nat) :
    executedOpcodes bases fde (n + 1) ctx =
      cfaOpcodeAt ctx.cur :: executedOpcodes bases fde n next := by
  rw [executedOpcodes, h]

/-- Instructions that restore their own states only take what is left to restore
from the stack. -/
theorem ruleStack_of_restoresOwn {n depth : Nat} {ctx last : UnwindContext}
    (hown : restoresOwn depth (executedOpcodes bases fde n ctx) = true)
    (hrun : executeCfiInstructions bases fde n ctx = .ok last) :
    last.ruleStack = ctx.ruleStack.drop depth := by
  induction n generalizing depth ctx with
  | zero =>
      cases hrun
      have hzero : depth = 0 := by simpa [executedOpcodes, restoresOwn] using hown
      subst hzero
      rfl
  | succ n ih =>
      obtain ⟨next, hstep, hrest⟩ := bind_eq_ok.mp hrun
      rw [executedOpcodes_succ hstep] at hown
      by_cases hremember : cfaOpcodeAt ctx.cur = some .rememberState
      · rw [hremember] at hown
        have hdeeper : restoresOwn (depth + 1) (executedOpcodes bases fde n next) = true := by
          cases depth <;> exact hown
        have hnext := ih hdeeper hrest
        obtain ⟨low6, hexecute⟩ := executed_known hstep hremember
        rw [hnext, (executeCfaOpcode_effect hexecute).remembered rfl]
        rfl
      by_cases hrestore : cfaOpcodeAt ctx.cur = some .restoreState
      · rw [hrestore] at hown
        cases depth with
        | zero => cases hown
        | succ depth =>
            have hshallower : restoresOwn depth (executedOpcodes bases fde n next) = true := hown
            have hnext := ih hshallower hrest
            obtain ⟨low6, hexecute⟩ := executed_known hstep hrestore
            obtain ⟨rules, cfa, rest, hstack, hlast⟩ :=
              (executeCfaOpcode_effect hexecute).restored rfl
            rw [hnext, hlast, hstack]
            rfl
      · rw [restoresOwn_other hremember hrestore] at hown
        rw [ih hown hrest]
        rcases executed_cases hstep with ⟨-, rfl⟩ | ⟨op, low6, hop, hexecute⟩
        · rfl
        · rw [(executeCfaOpcode_effect hexecute).stack (fun h => hremember (h ▸ hop))
            fun h => hrestore (h ▸ hop)]

/-- Execution never touches the rules of the CIE nor the place of the bytes. -/
theorem executeCfiInstructions_fixed {n : Nat} {ctx last : UnwindContext}
    (hrun : executeCfiInstructions bases fde n ctx = .ok last) :
    last.origin = ctx.origin ∧ last.cieRegisterRules = ctx.cieRegisterRules := by
  induction n generalizing ctx with
  | zero =>
      cases hrun
      exact ⟨rfl, rfl⟩
  | succ n ih =>
      obtain ⟨next, hstep, hrest⟩ := bind_eq_ok.mp hrun
      obtain ⟨horigin, hcie⟩ := ih hrest
      rcases executed_cases hstep with ⟨-, rfl⟩ | ⟨op, low6, -, hexecute⟩
      · exact ⟨horigin, hcie⟩
      · have heffect := executeCfaOpcode_effect hexecute
        exact ⟨horigin.trans heffect.origin, hcie.trans heffect.cie⟩

theorem executeCfiInstructions_add {n k : Nat} {ctx last : UnwindContext}
    (h : executeCfiInstructions bases fde (n + k) ctx = .ok last) :
    ∃ middle, executeCfiInstructions bases fde n ctx = .ok middle ∧
      executeCfiInstructions bases fde k middle = .ok last ∧
      executedOpcodes bases fde (n + k) ctx =
        executedOpcodes bases fde n ctx ++ executedOpcodes bases fde k middle := by
  induction n generalizing ctx with
  | zero =>
      rw [Nat.zero_add] at h ⊢
      exact ⟨ctx, rfl, h, rfl⟩
  | succ n ih =>
      rw [Nat.succ_add] at h ⊢
      obtain ⟨next, hstep, hrest⟩ := bind_eq_ok.mp h
      obtain ⟨middle, hfirst, hsecond, hopcodes⟩ := ih hrest
      refine ⟨middle, bind_eq_ok.mpr ⟨next, hstep, hfirst⟩, hsecond, ?_⟩
      rw [executedOpcodes_succ hstep, executedOpcodes_succ hstep, hopcodes]
      rfl

/-- A remembered state is restored: around instructions that restore exactly what
they remember themselves, from any context, only the cursor and the location are
changed. -/
theorem rememberState_restoreState {n : Nat} {ctx last : UnwindContext}
    {inside : List (Option CfaOpcode)}
    (hopcodes : executedOpcodes bases fde (n + 2) ctx =
      some .rememberState :: (inside ++ [some .restoreState]))
    (hbalanced : restoresOwn 0 inside = true)
    (hrun : executeCfiInstructions bases fde (n + 2) ctx = .ok last) :
    last = { ctx with cur := last.cur, location := last.location } := by
  obtain ⟨first, hstep, hrest⟩ := bind_eq_ok.mp hrun
  rw [executedOpcodes_succ hstep] at hopcodes
  obtain ⟨hremember, htail⟩ := List.cons.inj hopcodes
  obtain ⟨middle, hinside, hone, hsplit⟩ := executeCfiInstructions_add (n := n) (k := 1) hrest
  obtain ⟨final, hfinal, hdone⟩ := bind_eq_ok.mp hone
  cases hdone
  rw [hsplit, executedOpcodes_succ hfinal] at htail
  obtain ⟨hown, hsingle⟩ := List.append_inj' htail rfl
  have hrestore := (List.cons.inj hsingle).1
  rw [← hown] at hbalanced
  have hstack := ruleStack_of_restoresOwn hbalanced hinside
  obtain ⟨horigin, hcie⟩ := executeCfiInstructions_fixed hrun
  obtain ⟨low6, hfirst⟩ := executed_known hstep hremember
  obtain ⟨low6', hlast⟩ := executed_known hfinal hrestore
  have hpushed := (executeCfaOpcode_effect hfirst).remembered rfl
  obtain ⟨rules, cfa, rest, htop, hpopped⟩ := (executeCfaOpcode_effect hlast).restored rfl
  rw [List.drop_zero, htop, hpushed] at hstack
  cases hstack
  have hrules : last.registerRules = ctx.registerRules := by rw [hpopped]
  have hcfa : last.cfaRule = ctx.cfaRule := by rw [hpopped]
  have hrest : last.ruleStack = ctx.ruleStack := by rw [hpopped]
  calc last = ⟨last.cur, last.origin, last.location, last.cfaRule, last.cieRegisterRules,
        last.registerRules, last.ruleStack⟩ := rfl
    _ = { ctx with cur := last.cur, location := last.location } := by
        rw [horigin, hcfa, hcie, hrules, hrest]

end Bracket

/-- The instruction at the cursor moves the location beyond a program counter. -/
def MovesBeyond (bases : PointerBases) (fde : FrameDescriptionEntry) (pc : Word)
    (ctx : UnwindContext) : Prop :=
  ∃ op next, cfaOpcodeAt ctx.cur = some op ∧ op.changesLocation = true ∧
    executeCfiInstruction bases fde ctx = .ok next ∧ pc < next.location

/-- All instructions of a byte string were executed. -/
def ExecutedAll (bases : PointerBases) (fde : FrameDescriptionEntry)
    (start ctx : UnwindContext) : Prop :=
  ∃ n, executeCfiInstructions bases fde n start = .ok ctx ∧ ctx.cur.finished = true

/-- Precisely the instructions were executed that precede the first one that moves
the location beyond a program counter. -/
def ExecutedBefore (bases : PointerBases) (fde : FrameDescriptionEntry) (pc : Word)
    (start ctx : UnwindContext) : Prop :=
  ∃ n, executeCfiInstructions bases fde n start = .ok ctx ∧
    (∀ k < n, ∀ middle, executeCfiInstructions bases fde k start = .ok middle →
      ¬ MovesBeyond bases fde pc middle) ∧
    (ctx.cur.finished = true ∨ MovesBeyond bases fde pc ctx)

/-- The context in which the instructions of the FDE are executed after those of
the CIE. -/
def UnwindContext.restart (ctx : UnwindContext) (fde : ParsedFde) : UnwindContext :=
  { ctx with
    cieRegisterRules := ctx.registerRules
    cur := ⟨fde.instructions, 0⟩
    origin := BitVec.ofNat 64 fde.instructionsStart
    location := fde.initialLocation }

section Rows

variable {bases : PointerBases} {fde : FrameDescriptionEntry} {pc : Word}
  {start next ctx row : UnwindContext} {rounds : Nat}

/-- The bytes that are left. -/
def UnwindContext.left (ctx : UnwindContext) : Nat := ctx.cur.data.length - ctx.cur.pos

theorem left_of_executed (h : executeCfiInstruction bases fde start = .ok next) :
    next.left + 1 ≤ start.left := by
  obtain ⟨n, hcur⟩ := executed_advances h
  have hfinished := not_finished_of_executed h
  simp only [Cursor.finished, decide_eq_false_iff_not] at hfinished
  simp only [UnwindContext.left, hcur, Cursor.advance_data, Cursor.advance_pos]
  omega

theorem left_of_finished (h : start.cur.finished = false) : 1 ≤ start.left := by
  simp only [Cursor.finished, decide_eq_false_iff_not] at h
  simp only [UnwindContext.left]
  omega

theorem cfiLoop_stop {goesOn : Word → Bool}
    (h : (!start.cur.finished && goesOn start.location) = false) :
    cfiLoop bases fde goesOn rounds start = .ok start := by
  cases rounds with
  | zero => rfl
  | succ rounds => simp [cfiLoop, h]

theorem cfiLoop_step {goesOn : Word → Bool}
    (h : (!start.cur.finished && goesOn start.location) = true) :
    cfiLoop bases fde goesOn (rounds + 1) start =
      executeCfiInstruction bases fde start >>= cfiLoop bases fde goesOn rounds := by
  simp [cfiLoop, h]

/-- The loop over the instructions of a CIE executes all of them. -/
theorem cfiLoop_all (hrounds : start.left ≤ rounds) :
    cfiLoop bases fde (fun _ => true) rounds start = .ok row ↔
      ExecutedAll bases fde start row := by
  constructor
  · intro hloop
    induction rounds generalizing start with
    | zero =>
        cases hloop
        refine ⟨0, rfl, ?_⟩
        by_contra hfinished
        have hleft := left_of_finished (Bool.not_eq_true _ ▸ hfinished)
        omega
    | succ rounds ih =>
        cases hfinished : start.cur.finished with
        | true =>
            rw [cfiLoop_stop (by simp [hfinished])] at hloop
            cases hloop
            exact ⟨0, rfl, hfinished⟩
        | false =>
            rw [cfiLoop_step (by simp [hfinished])] at hloop
            obtain ⟨next, hstep, hrest⟩ := bind_eq_ok.mp hloop
            have hleft := left_of_executed hstep
            obtain ⟨n, hrun, hdone⟩ := ih (by omega) hrest
            exact ⟨n + 1, bind_eq_ok.mpr ⟨next, hstep, hrun⟩, hdone⟩
  · rintro ⟨n, hrun, hdone⟩
    induction n generalizing start rounds with
    | zero =>
        cases hrun
        exact cfiLoop_stop (by simp [hdone])
    | succ n ih =>
        obtain ⟨next, hstep, hrest⟩ := bind_eq_ok.mp hrun
        have hleft := left_of_executed hstep
        obtain ⟨rounds, rfl⟩ : ∃ k, rounds = k + 1 := ⟨rounds - 1, by omega⟩
        rw [cfiLoop_step (by simp [not_finished_of_executed hstep])]
        exact bind_eq_ok.mpr ⟨next, hstep, ih (by omega) hrest⟩

/-- An instruction that moves the location beyond changes no rule. -/
theorem MovesBeyond.rules (h : MovesBeyond bases fde pc start)
    (hstep : executeCfiInstruction bases fde start = .ok next) :
    pc < next.location ∧ next.registerRules = start.registerRules ∧
      next.cfaRule = start.cfaRule := by
  obtain ⟨op, next', hop, hchanges, hstep', hbeyond⟩ := h
  rw [hstep] at hstep'
  cases hstep'
  obtain ⟨low6, hexecute⟩ := executed_known hstep hop
  have hmoved := (executeCfaOpcode_effect hexecute).moved hchanges
  refine ⟨hbeyond, ?_, ?_⟩
  · rw [hmoved]
  · rw [hmoved]

/-- Any other instruction leaves the location where the program counter is. -/
theorem location_of_not_movesBeyond (h : ¬ MovesBeyond bases fde pc start)
    (hstep : executeCfiInstruction bases fde start = .ok next) (hle : start.location ≤ pc) :
    next.location ≤ pc := by
  rcases executed_cases hstep with ⟨-, rfl⟩ | ⟨op, low6, hop, hexecute⟩
  · exact hle
  · cases hchanges : op.changesLocation with
    | false =>
        rw [(executeCfaOpcode_effect hexecute).stays hchanges]
        exact hle
    | true =>
        by_contra hbeyond
        exact h ⟨op, next, hop, hchanges, hstep, BitVec.not_le.mp hbeyond⟩

theorem ExecutedBefore.step (hstep : executeCfiInstruction bases fde start = .ok next)
    (hstays : ¬ MovesBeyond bases fde pc start) (h : ExecutedBefore bases fde pc next ctx) :
    ExecutedBefore bases fde pc start ctx := by
  obtain ⟨n, hrun, hbefore, hstop⟩ := h
  refine ⟨n + 1, bind_eq_ok.mpr ⟨next, hstep, hrun⟩, fun k hk middle hmiddle => ?_, hstop⟩
  cases k with
  | zero =>
      cases hmiddle
      exact hstays
  | succ k =>
      obtain ⟨next', hstep', hrest⟩ := bind_eq_ok.mp hmiddle
      rw [hstep] at hstep'
      cases hstep'
      exact hbefore k (by omega) middle hrest

/-- The loop over the instructions of an FDE has executed those before the program
counter, and perhaps the one that moves the location beyond it. -/
theorem executedBefore_of_cfiLoop (hrounds : start.left ≤ rounds) (hle : start.location ≤ pc)
    (hloop : cfiLoop bases fde (fun location => location ≤ pc) rounds start = .ok row) :
    ∃ ctx, ExecutedBefore bases fde pc start ctx ∧ ctx.registerRules = row.registerRules ∧
      ctx.cfaRule = row.cfaRule := by
  induction rounds generalizing start with
  | zero =>
      cases hloop
      refine ⟨row, ⟨0, rfl, fun k hk => by omega, .inl ?_⟩, rfl, rfl⟩
      by_contra hfinished
      have hleft := left_of_finished (Bool.not_eq_true _ ▸ hfinished)
      omega
  | succ rounds ih =>
      cases hfinished : start.cur.finished with
      | true =>
          rw [cfiLoop_stop (by simp [hfinished])] at hloop
          cases hloop
          exact ⟨row, ⟨0, rfl, fun k hk => by omega, .inl hfinished⟩, rfl, rfl⟩
      | false =>
          rw [cfiLoop_step (by simp [hfinished, hle])] at hloop
          obtain ⟨next, hstep, hrest⟩ := bind_eq_ok.mp hloop
          by_cases hmoves : MovesBeyond bases fde pc start
          · obtain ⟨hbeyond, hrules, hcfa⟩ := hmoves.rules hstep
            rw [cfiLoop_stop (by simp [BitVec.not_le.mpr hbeyond])] at hrest
            cases hrest
            exact ⟨start, ⟨0, rfl, fun k hk => by omega, .inr hmoves⟩, hrules.symm, hcfa.symm⟩
          · have hleft := left_of_executed hstep
            obtain ⟨ctx, hctx, hsame⟩ := ih (by omega)
              (location_of_not_movesBeyond hmoves hstep hle) hrest
            exact ⟨ctx, hctx.step hstep hmoves, hsame⟩

/-- If those instructions can be executed, the loop ends with their rules. -/
theorem cfiLoop_of_executedBefore (hrounds : start.left ≤ rounds) (hle : start.location ≤ pc)
    (h : ExecutedBefore bases fde pc start ctx) :
    ∃ row, cfiLoop bases fde (fun location => location ≤ pc) rounds start = .ok row ∧
      row.registerRules = ctx.registerRules ∧ row.cfaRule = ctx.cfaRule := by
  obtain ⟨n, hrun, hbefore, hstop⟩ := h
  induction n generalizing start rounds with
  | zero =>
      cases hrun
      rcases hstop with hfinished | hmoves
      · exact ⟨ctx, cfiLoop_stop (by simp [hfinished]), rfl, rfl⟩
      · obtain ⟨op, next, hop, hchanges, hstep, hbeyond⟩ := hmoves
        obtain ⟨-, hrules, hcfa⟩ :=
          MovesBeyond.rules ⟨op, next, hop, hchanges, hstep, hbeyond⟩ hstep
        have hleft := left_of_executed hstep
        obtain ⟨rounds, rfl⟩ : ∃ k, rounds = k + 1 := ⟨rounds - 1, by omega⟩
        refine ⟨next, ?_, hrules, hcfa⟩
        rw [cfiLoop_step (by simp [not_finished_of_executed hstep, hle]), hstep, ok_bind]
        exact cfiLoop_stop (by simp [BitVec.not_le.mpr hbeyond])
  | succ n ih =>
      obtain ⟨next, hstep, hrest⟩ := bind_eq_ok.mp hrun
      have hstays := hbefore 0 (by omega) start rfl
      have hleft := left_of_executed hstep
      obtain ⟨rounds, rfl⟩ : ∃ k, rounds = k + 1 := ⟨rounds - 1, by omega⟩
      have hnext : ∀ k < n, ∀ middle, executeCfiInstructions bases fde k next = .ok middle →
          ¬ MovesBeyond bases fde pc middle :=
        fun k hk middle hmiddle => hbefore (k + 1) (by omega) middle
          (bind_eq_ok.mpr ⟨next, hstep, hmiddle⟩)
      have hrounds' : next.left ≤ rounds := by omega
      obtain ⟨row, hloop, hsame⟩ := ih hrounds' (location_of_not_movesBeyond hstays hstep hle)
        hrest hnext
      refine ⟨row, ?_, hsame⟩
      rw [cfiLoop_step (by simp [not_finished_of_executed hstep, hle]), hstep, ok_bind]
      exact hloop

theorem findFde_location {elf : Elf} {hdr : EhHdr} {parsed : ParsedFde}
    (h : findFde elf hdr pc = .ok parsed) : parsed.initialLocation ≤ pc := by
  obtain ⟨offset, -, hrest⟩ := bind_eq_ok.mp h
  obtain ⟨fde, -, hrest⟩ := bind_eq_ok.mp hrest
  obtain ⟨u, hcheck, hdone⟩ := bind_eq_ok.mp hrest
  cases hdone
  have hinside := require_eq_ok hcheck
  push Not at hinside
  exact BitVec.not_lt.mp hinside.1

/-- The sections that relative pointers refer to. -/
def Elf.pointerBases (elf : Elf) (text : Word) : PointerBases :=
  ⟨text, (elf.getSectionStartAddress ".got.plt").getD 0⟩

/-- The row that `call_frame_information::unwind` executes has the rules of all
instructions of the CIE followed by precisely those of the FDE that precede the
first one that moves the location beyond the program counter. -/
theorem unwindRow_covers_pc {elf : Elf} {hdr : EhHdr} {parsed : ParsedFde} {text : Word}
    (hfde : findFde elf hdr pc = .ok parsed) (htext : elf.textSectionStart = .ok text)
    (rules : Ruleset) (cfa : CfaRule) :
    (∃ row, unwindRow elf hdr pc = .ok row ∧ row.registerRules = rules ∧ row.cfaRule = cfa) ↔
      ∃ shared ctx,
        ExecutedAll (elf.pointerBases text) parsed.toFrameDescriptionEntry
          (UnwindContext.start parsed) shared ∧
        ExecutedBefore (elf.pointerBases text) parsed.toFrameDescriptionEntry pc
          (shared.restart parsed) ctx ∧
        ctx.registerRules = rules ∧ ctx.cfaRule = cfa := by
  have hle : parsed.initialLocation ≤ pc := findFde_location hfde
  have hrow : unwindRow elf hdr pc = (cfiLoop (elf.pointerBases text)
      parsed.toFrameDescriptionEntry (fun _ => true) parsed.cie.instructions.length
      (UnwindContext.start parsed) >>= fun shared => cfiLoop (elf.pointerBases text)
        parsed.toFrameDescriptionEntry (fun location => location ≤ pc) parsed.instructions.length
        (shared.restart parsed)) := by
    simp only [unwindRow, hfde, htext, ok_bind]
    rfl
  have hshared : ∀ shared, cfiLoop (elf.pointerBases text) parsed.toFrameDescriptionEntry
      (fun _ => true) parsed.cie.instructions.length (UnwindContext.start parsed) = .ok shared ↔
      ExecutedAll (elf.pointerBases text) parsed.toFrameDescriptionEntry
        (UnwindContext.start parsed) shared :=
    fun shared => cfiLoop_all (Nat.le_refl _)
  rw [hrow]
  constructor
  · rintro ⟨row, hboth, rfl, rfl⟩
    obtain ⟨shared, hfirst, hsecond⟩ := bind_eq_ok.mp hboth
    have hleft : (shared.restart parsed).left ≤ parsed.instructions.length := Nat.le_refl _
    obtain ⟨ctx, hctx, hsame⟩ := executedBefore_of_cfiLoop hleft hle hsecond
    exact ⟨shared, ctx, (hshared shared).mp hfirst, hctx, hsame⟩
  · rintro ⟨shared, ctx, hfirst, hctx, rfl, rfl⟩
    have hleft : (shared.restart parsed).left ≤ parsed.instructions.length := Nat.le_refl _
    obtain ⟨row, hsecond, hsame⟩ := cfiLoop_of_executedBefore hleft hle hctx
    exact ⟨row, bind_eq_ok.mpr ⟨shared, (hshared shared).mpr hfirst, hsecond⟩, hsame⟩

end Rows

namespace CallFrameRowsWitness

/-- `DW_CFA_remember_state`, `DW_CFA_def_cfa_offset 16`, a nested pair around
`DW_CFA_offset r6`, and `DW_CFA_restore_state`. -/
def fde : FrameDescriptionEntry :=
  ⟨⟨1, -8, 0, []⟩, 0x1000, 0x100, [0x0a, 0x0e, 0x10, 0x0a, 0x86, 0x02, 0x0b, 0x41, 0x0b]⟩

def start : UnwindContext := ⟨⟨fde.instructions, 0⟩, 0, 0x1000, .register 7 8, ∅, ∅, []⟩

def bases : PointerBases := ⟨0, 0⟩

/-- The opcodes between the first instruction and the last. -/
def inside : List (Option CfaOpcode) :=
  [some .defCfaOffset, some .rememberState, some .offset, some .restoreState, some .advanceLoc]

theorem opcodes_nested : executedOpcodes bases fde (5 + 2) start =
    some .rememberState :: (inside ++ [some .restoreState]) := by
  decide

theorem rememberState_restoreState_nested :
    ∃ last, executeCfiInstructions bases fde 7 start = .ok last ∧
      last = { start with cur := last.cur, location := last.location } :=
  ⟨_, rfl, rememberState_restoreState opcodes_nested (by decide) rfl⟩

/-- A search table with one row, a CIE whose rules find the frame pointer and the
return address below the CFA, and an FDE for sixteen bytes of code that moves the
CFA after four of them. -/
def tables : List Byte :=
  [0x01, 0x1b, 0x03, 0x3b, 0x10, 0, 0, 0, 1, 0, 0, 0, 0, 0x10, 0, 0, 0x2c, 0, 0, 0] ++
  [0x14, 0, 0, 0, 0, 0, 0, 0, 1, 0x7a, 0x52, 0, 1, 0x78, 0x10, 1, 0x1b] ++
  [0x0c, 6, 16, 0x90, 1, 0x86, 2] ++
  [0x10, 0, 0, 0, 0x1c, 0, 0, 0, 0xcc, 0x0f, 0, 0, 0x10, 0, 0, 0, 0, 0x44, 0x0e, 0x18]

def program : Elf :=
  ⟨tables, [⟨".text", 6, 0x1000, 0x1000, 0x10⟩, ⟨".eh_frame_hdr", 2, 0, 0, 20⟩,
    ⟨".eh_frame", 2, 20, 20, 44⟩], 0⟩

def hdr : EhHdr := ⟨0, 12, 1, 0x3b⟩

def parsed : ParsedFde :=
  ⟨⟨⟨1, -8, 0x1b, [0x0c, 6, 16, 0x90, 1, 0x86, 2]⟩, 0x1000, 0x10, [0x44, 0x0e, 0x18]⟩, 37, 61⟩

example : [0x1003, 0x1004, 0x100f].map (fun pc => (unwindRow program hdr pc).map (·.cfaRule)) =
    [.ok (.register 6 16), .ok (.register 6 24), .ok (.register 6 24)] := by
  decide +kernel

theorem found : findFde program hdr 0x1003 = .ok parsed := rfl

theorem unwindRow_covers_pc_before :
    ∃ rules shared ctx,
      ExecutedAll (program.pointerBases 0x1000) parsed.toFrameDescriptionEntry
        (UnwindContext.start parsed) shared ∧
      ExecutedBefore (program.pointerBases 0x1000) parsed.toFrameDescriptionEntry 0x1003
        (shared.restart parsed) ctx ∧
      ctx.registerRules = rules ∧ ctx.cfaRule = .register 6 16 :=
  ⟨_, (unwindRow_covers_pc found rfl _ _).mp ⟨_, rfl, rfl, rfl⟩⟩

end CallFrameRowsWitness

end Gsdb
