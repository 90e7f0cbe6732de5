/-
Stepping into a function, and the prologue.  The thread is stepped until it gets to
another line entry; at the start of a function it is then run to the address of the
line entry behind the one it is at, like a breakpoint on the function is set there.
Whether that entry still belongs to the function is not looked at.
-/
import Gsdb.CodePosition
import Gsdb.LineLookup
import Gsdb.SourceBreakpoints
import Gsdb.StepOut

namespace Gsdb

open AdjacentPairs ByteMemory Effects Eff Debugger

/-- What stepping into a function asks the debug information besides: the function
and the compile unit at an address, and the line table of a unit. -/
structure StepInEnv extends StepEnv where
  functionContainingAddress : FileAddr → Except Failure (Option Die)
  compileUnitContainingAddress : FileAddr → Except Failure (Option CompileUnit)
  lines : CompileUnit → Except Failure LineTable

/-- An iterator of the line table of a unit. -/
structure LineAt where
  elf : Nat
  cu : CompileUnit
  table : LineTable
  it : LineIterator

/-- `line_table::iterator::operator==`, which compares positions in the bytes of the
section; all iterators at the end are equal. -/
def LineAt.same : Option LineAt → Option LineAt → Bool
  | none, none => true
  | some line, some other =>
      line.elf = other.elf && line.cu.offset = other.cu.offset && line.it.pos = other.it.pos
  | _, _ => false

/-- The entry of an iterator at the end is a default one. -/
def LineAt.endSequence : Option LineAt → Bool
  | none => false
  | some line => line.it.current.endSequence

namespace StepInEnv

/-- `target::line_entry_at_pc`. -/
def lineEntryAtPc (env : StepInEnv) (m : Machine) (otid : Option Tid) :
    Except Failure (Option LineAt) := do
  let pc ← env.getPcFileAddress m otid
  match pc.elf with
  | none => pure none
  | some elf => do
      match ← env.compileUnitContainingAddress pc with
      | none => pure none
      | some cu => do
          let table ← env.lines cu
          let (found, _) ← table.getEntryByAddress pc.addr
          pure (found.map fun it => LineAt.mk elf cu table it)

/-- The address that `target::step_in` runs to when it has got to another line: that
of the second line entry, at the start of a function. -/
def bodyAddress (env : StepInEnv) (m : Machine) (tid : Tid) : Except Failure (Option Word) := do
  let pc ← env.getPcFileAddress m (some tid)
  if pc.elf = none then pure none
  else do
    match ← env.functionContainingAddress pc with
    | none => pure none
    | some func => do
        let lowPc ← env.lowPc func
        if lowPc = pc then do
          match ← env.lineEntryAtPc m (some tid) with
          | none => pure none
          | some line => do
              let next ← line.table.advance line.it
              let address ← FileAddr.toVirtAddr env.elves ⟨some line.elf, next.current.address⟩
              pure (some address)
        else pure none

end StepInEnv

namespace Debugger

/-- `process::step_instruction`, with what it does to the stack of the thread. -/
def stepAndUnwind (env : StepEnv) (tid : Tid) (stack : Stack) : Debugger (StopReason × Stack) := do
  let (toReenable, pc) ← beginStep tid
  let reason ← waitOnSignal env.handlers (some tid)
  let stack ← notifyStop env tid reason stack
  reenable toReenable pc
  pure (reason, stack)

/-- Report a stop of a thread. -/
def report (tid : Tid) (reason : StopReason) : Debugger StopReason := do
  let _ ← threadAt tid
  updateThread tid fun t => { t with reason := reason }
  pure reason

/-- The loop of `target::step_in`, given up after a number of rounds: a stop other
than a step ends it with the reason, another line entry without. -/
def stepInLoop (env : StepInEnv) (tid : Tid) (origLine : Option LineAt) :
    Nat → Stack → Debugger (Option StopReason × Stack)
  | 0, _ => throw .schedule
  | rounds + 1, stack => do
      let (reason, stack) ← stepAndUnwind env.toStepEnv tid stack
      if !reason.isStep then do
        let reason ← report tid reason
        pure (some reason, stack)
      else do
        let m ← get
        let line ← ofExcept (env.lineEntryAtPc m (some tid))
        if (LineAt.same line origLine || LineAt.endSequence line) && line.isSome then
          stepInLoop env tid origLine rounds stack
        else pure (none, stack)

/-- The last part of `target::step_in`, after the loop. -/
def finishStepIn (env : StepInEnv) (tid : Tid) (stack : Stack) :
    Debugger (StopReason × Stack) := do
  let m ← get
  match ← ofExcept (env.bodyAddress m tid) with
  | some address => runAndUnwind env.toStepEnv address tid stack
  | none => do
      let reason ← report tid ⟨tid, .stopped, sigtrap, some .singleStep, none⟩
      pure (reason, stack)

/-- `target::step_in`, for a thread with a stack. -/
def stepIn (env : StepInEnv) (rounds : Nat) (otid : Option Tid) (stack : Stack) :
    Debugger (StopReason × Stack) := do
  let m ← get
  let tid := otid.getD m.process.currentThread
  if 0 < stack.inlineHeight then do
    let reason ← report tid ⟨tid, .stopped, sigtrap, some .singleStep, none⟩
    pure (reason, stack.simulateInlinedStepIn)
  else do
    let origLine ← ofExcept (env.lineEntryAtPc m (some tid))
    let (reason, stack) ← stepInLoop env tid origLine rounds stack
    match reason with
    | some reason => pure (reason, stack)
    | none => finishStepIn env tid stack

end Debugger

/-- A row of a function's own code. -/
structure StaysInside (ranges : List Byte) (cu : CompileUnit) (entry : DieEntry)
    (row : LineEntry) : Prop where
  inside : Die.containsAddress ranges cu entry row.address = .ok true
  isRow : row.endSequence = false

/-- The code of a function has a second row: the one behind that for its first
address does not end the sequence, and it is inside the function. -/
def HasSecondRow (ranges : List Byte) (cu : CompileUnit) (entry : DieEntry)
    (rows : List LineEntry) (lowPc : Word) : Prop :=
  ∃ row next, firstPair (LineEntry.Around lowPc) rows = some (row, next) ∧
    next.endSequence = false ∧ Die.containsAddress ranges cu entry next.address = .ok true

/-- A thread is at the start of a function, which the debugger knows with its line
table. -/
structure AtStart (env : StepInEnv) (m : Machine) (tid : Tid) (die : Die) (lowPc : FileAddr)
    (table : LineTable) : Prop where
  pc : env.getPcFileAddress m (some tid) = .ok lowPc
  function : env.functionContainingAddress lowPc = .ok (some die)
  first : env.lowPc die = .ok lowPc
  unit : env.compileUnitContainingAddress lowPc = .ok (some die.cu)
  lines : env.lines die.cu = .ok table

section Prologues

variable {table : LineTable} {rows : List LineEntry} {lowPc : FileAddr} {position : Nat}
  {die : Die} {it behind last : LineIterator}

/-- Where an address has a row, the lookup finds the first and the increment gets
to the row behind it. -/
theorem getEntryByAddress_covered {address : Word} (hrows : table.rows = .ok rows)
    (hcovered : firstPair (LineEntry.Around address) rows ≠ none) :
    ∃ it behind last, table.getEntryByAddress address = .ok (some it, last) ∧
      table.advance it = .ok behind ∧
      firstPair (LineEntry.Around address) rows = some (it.current, behind.current) := by
  obtain ⟨found, last, hget, hfound⟩ := getEntryByAddress_looksUp address hrows
  cases found with
  | none => exact absurd hfound hcovered
  | some it =>
      obtain ⟨behind, hadvance, -, hpair⟩ := hfound
      exact ⟨it, behind, last, hget, hadvance, hpair⟩

theorem diePlace_behind {env : ResolveEnv} {entry : DieEntry} (hentry : die.entry = some entry)
    (htag : entry.abbrevEntry.tag = tagSubprogram)
    (haddress : (Die.contains entry atLowPc || Die.contains entry atRanges) = true)
    (hfile : lowPc.elf = some position) (hlow : env.lowPc die = .ok lowPc)
    (hlines : env.lines die.cu = .ok table)
    (hget : table.getEntryByAddress lowPc.addr = .ok (some it, last))
    (hadvance : table.advance it = .ok behind) :
    env.diePlace die =
      (FileAddr.toVirtAddr env.elves ⟨some position, behind.current.address⟩).map some := by
  have hregular : entry.abbrevEntry.tag ≠ tagInlinedSubroutine := by
    rw [htag]
    decide
  simp only [ResolveEnv.diePlace, hentry, if_pos haddress, hlow, ok_bind, if_neg hregular,
    ResolveEnv.afterPrologue, hlines, hget, hadvance, hfile]
  change (FileAddr.toVirtAddr env.elves ⟨some position, behind.current.address⟩ >>= fun address =>
    pure (some address)) = _
  cases FileAddr.toVirtAddr env.elves ⟨some position, behind.current.address⟩ with
  | error failure => rfl
  | ok address => rfl

theorem bodyAddress_behind {env : StepInEnv} {m : Machine} {tid : Tid} {address : Word}
    (h : AtStart env m tid die lowPc table) (hfile : lowPc.elf = some position)
    (hget : table.getEntryByAddress lowPc.addr = .ok (some it, last))
    (hadvance : table.advance it = .ok behind)
    (hvirt : FileAddr.toVirtAddr env.elves ⟨some position, behind.current.address⟩ =
      .ok address) : env.bodyAddress m tid = .ok (some address) := by
  have hline : env.lineEntryAtPc m (some tid) = .ok (some ⟨position, die.cu, table, it⟩) := by
    simp only [StepInEnv.lineEntryAtPc, h.pc, ok_bind, hfile, h.unit, h.lines, hget]
    rfl
  have hinside : lowPc.elf ≠ none := by
    rw [hfile]
    exact Option.some_ne_none position
  simp only [StepInEnv.bodyAddress, h.pc, ok_bind, if_neg hinside, h.function, h.first, if_true,
    hline, hadvance, hvirt]
  rfl

/-- A thread that steps to the start of a function is run to the row behind. -/
theorem stepIn_atStart {env : StepInEnv} {m m' : Machine} {tid : Tid} {stack stack' : Stack}
    {rounds : Nat} {origLine : Option LineAt} {address : Word} (hheight : stack.inlineHeight = 0)
    (horig : env.lineEntryAtPc m (some tid) = .ok origLine)
    (hloop : stepInLoop env tid origLine rounds stack m = (.ok (none, stack'), m'))
    (hbody : env.bodyAddress m' tid = .ok (some address)) :
    stepIn env rounds (some tid) stack m = runAndUnwind env.toStepEnv address tid stack' m' := by
  have hnone : ¬ 0 < stack.inlineHeight := by
    rw [hheight]
    exact Nat.lt_irrefl 0
  have horig' : ofExcept (env.lineEntryAtPc m (some tid)) m = (.ok origLine, m) := by
    rw [horig]
    rfl
  have hbody' : ofExcept (env.bodyAddress m' tid) m' = (.ok (some address), m') := by
    rw [hbody]
    rfl
  rw [stepIn, bind_of_ok (get_apply m)]
  simp only [Option.getD_some, if_neg hnone]
  rw [bind_of_ok horig', bind_of_ok hloop]
  change finishStepIn env tid stack' m' = _
  rw [finishStepIn, bind_of_ok (get_apply m'), bind_of_ok hbody']

/-- In a table of sequences, a function of one range of addresses has a second row
exactly if a row of its sequence begins behind its first address and inside it. -/
theorem hasSecondRow_iff {ranges : List Byte} {cu : CompileUnit} {entry : DieEntry}
    {sequences : List (List LineEntry)} {sequence : List LineEntry} {row : LineEntry}
    {low high : Word} (hsequences : ∀ sequence ∈ sequences, IsSequence sequence)
    (hdisjoint : sequences.Pairwise fun sequence other =>
      ∀ address, ¬ (InSequence sequence address ∧ InSequence other address))
    (hmem : sequence ∈ sequences) (hbody : ∀ row ∈ sequence.dropLast, row.endSequence = false)
    (hrow : IsRowFor sequence low row)
    (hrange : ∀ address, Die.containsAddress ranges cu entry address = .ok true ↔
      low ≤ address ∧ address < high) :
    HasSecondRow ranges cu entry sequences.flatten low ↔
      ∃ later ∈ sequence, later.endSequence = false ∧ low < later.address ∧
        later.address < high := by
  obtain ⟨next, hpair⟩ := (hsequences sequence hmem).isRowFor_iff.mp hrow
  have hfound := (firstPair_sequences hsequences hdisjoint (row, next)).mpr ⟨sequence, hmem, hpair⟩
  obtain ⟨⟨hlow, hbehind, -⟩, before, after, hsplit⟩ := firstPair_eq_some hpair
  constructor
  · rintro ⟨_, other, hother, hisRow, hinside⟩
    rw [hfound] at hother
    obtain ⟨-, rfl⟩ := Prod.mk.inj (Option.some.inj hother)
    refine ⟨next, ?_, hisRow, hbehind, ((hrange _).mp hinside).2⟩
    rw [hsplit]
    simp
  · rintro ⟨later, hlater, hisRow, hafter, hbefore⟩
    have hsorted := (hsequences sequence hmem).sorted
    rw [hsplit] at hsorted hlater
    obtain ⟨-, hrest, hfront⟩ := List.pairwise_append.mp hsorted
    obtain ⟨-, hnext⟩ := List.pairwise_cons.mp hrest
    have hlast : later ∈ next :: after := by
      rcases List.mem_append.mp hlater with hearlier | hlater
      · have hle := hfront later hearlier row List.mem_cons_self
        exact absurd hafter (BitVec.not_lt.mpr (BitVec.le_trans hle hlow))
      · rcases List.mem_cons.mp hlater with rfl | hlater
        · exact absurd hafter (BitVec.not_lt.mpr hlow)
        · exact hlater
    have hle : next.address ≤ later.address := by
      rcases List.mem_cons.mp hlast with rfl | hmem
      · exact BitVec.le_refl _
      · exact (List.pairwise_cons.mp hnext).1 later hmem
    have hend : next.endSequence = false := by
      rcases List.mem_cons.mp hlast with rfl | hmem
      · exact hisRow
      · refine hbody next ?_
        rw [hsplit]
        cases after with
        | nil => cases hmem
        | cons other after => simp [List.dropLast_append_of_ne_nil]
    have hinside := (hrange next.address).mpr
      ⟨BitVec.le_of_lt hbehind, Nat.lt_of_le_of_lt hle hbefore⟩
    exact ⟨row, next, hfound, hend, hinside⟩

end Prologues

/-- The place of a breakpoint on a function, and the address that a step into it runs
to, are those of the row behind the one for its first address; that row is one of
the function exactly if the function has a second row. -/
theorem prologue_staysInside_iff (env : ResolveEnv) (steps : StepInEnv) (ranges : List Byte)
    (die : Die) (entry : DieEntry) (lowPc : FileAddr) (position : Nat) (table : LineTable)
    (rows before after : List LineEntry) (row next : LineEntry)
    (hentry : die.entry = some entry) (htag : entry.abbrevEntry.tag = tagSubprogram)
    (haddress : (Die.contains entry atLowPc || Die.contains entry atRanges) = true)
    (hfile : lowPc.elf = some position) (hlow : env.lowPc die = .ok lowPc)
    (hlines : env.lines die.cu = .ok table) (hrows : table.rows = .ok rows)
    (hsplit : rows = before ++ row :: next :: after)
    (hcovered : LineEntry.Around lowPc.addr row next) :
    ∃ it behind last, table.getEntryByAddress lowPc.addr = .ok (some it, last) ∧
      table.advance it = .ok behind ∧
      env.diePlace die =
        (FileAddr.toVirtAddr env.elves ⟨some position, behind.current.address⟩).map some ∧
      (∀ (m m' : Machine) (tid : Tid) (stack stack' : Stack) (rounds : Nat)
          (origLine : Option LineAt) (address : Word), stack.inlineHeight = 0 →
        steps.lineEntryAtPc m (some tid) = .ok origLine →
        stepInLoop steps tid origLine rounds stack m = (.ok (none, stack'), m') →
        AtStart steps m' tid die lowPc table →
        FileAddr.toVirtAddr steps.elves ⟨some position, behind.current.address⟩ = .ok address →
        stepIn steps rounds (some tid) stack m =
          runAndUnwind steps.toStepEnv address tid stack' m') ∧
      (StaysInside ranges die.cu entry behind.current ↔
        HasSecondRow ranges die.cu entry rows lowPc.addr) := by
  have hfound : firstPair (LineEntry.Around lowPc.addr) rows ≠ none := by
    rw [hsplit]
    exact firstPair_ne_none hcovered
  obtain ⟨it, behind, last, hget, hadvance, hpair⟩ := getEntryByAddress_covered hrows hfound
  refine ⟨it, behind, last, hget, hadvance, ?_, ?_, ?_⟩
  · exact diePlace_behind hentry htag haddress hfile hlow hlines hget hadvance
  · intro m m' tid stack stack' rounds origLine address hheight horig hloop hstart hvirt
    exact stepIn_atStart hheight horig hloop (bodyAddress_behind hstart hfile hget hadvance hvirt)
  · constructor
    · rintro ⟨hinside, hisRow⟩
      exact ⟨it.current, behind.current, hpair, hisRow, hinside⟩
    · rintro ⟨row, next, hother, hisRow, hinside⟩
      rw [hpair] at hother
      obtain ⟨-, rfl⟩ := Prod.mk.inj (Option.some.inj hother)
      exact ⟨hinside, hisRow⟩

namespace StepInWitness

open CodePositionWitness (cu caller neighbour functionEntry program)
open LineLookupWitness (rowAt)

/-- One row for the first function and two for the second, in one sequence. -/
def table : LineTable :=
  { LineLookupWitness.table with
    data := [0x00, 0x09, 0x02, 0x00, 0x10, 0, 0, 0, 0, 0, 0, 0x01, 0x02, 0x10, 0x03, 0x04, 0x01,
      0x02, 0x08, 0x03, 0x01, 0x01, 0x02, 0x08, 0x00, 0x01, 0x01] }

def rows : List LineEntry :=
  [rowAt 0x1000 1, rowAt 0x1010 5, rowAt 0x1018 6, { rowAt 0x1020 6 with endSequence := true }]

/-- The functions start sixteen bytes apart. -/
def lowPc (die : Die) : Except Failure FileAddr :=
  .ok ⟨some 0, if die = caller then 0x1000 else 0x1010⟩

def env : ResolveEnv where
  elves := [program]
  findFunctions := fun _ => .ok ([caller], [])
  compileUnits := [(0, cu)]
  lines := fun _ => .ok table
  lowPc := lowPc
  inlineStackAtAddress := fun _ => .ok []

def steps : StepInEnv :=
  { CodePositionWitness.env with
    lowPc := lowPc
    highPc := fun _ => .ok ⟨some 0, 0x1020⟩
    handlers := ⟨fun _ _ => ([], .ok true)⟩
    unwindRounds := 2
    functionContainingAddress := fun _ => .ok (some caller)
    compileUnitContainingAddress := fun _ => .ok (some cu)
    lines := fun _ => .ok table }

/-- A thread at the start of the first function. -/
def entered : Machine := StackWitness.stoppedAt (fun _ => 0) 0x1000 0x1000 1

/-- The first function has a single row: the site and the end of the step are in the
second. -/
theorem single_row_left :
    env.diePlace caller = .ok (some 0x1010) ∧ steps.bodyAddress entered 1 = .ok (some 0x1010) ∧
    Die.containsAddress [] cu ⟨12, functionEntry, [13, 21]⟩ 0x1010 = .ok false ∧
    ∀ it behind last, table.getEntryByAddress 0x1000 = .ok (some it, last) →
      table.advance it = .ok behind →
      ¬ StaysInside [] cu ⟨12, functionEntry, [13, 21]⟩ behind.current := by
  have hleft : Die.containsAddress [] cu ⟨12, functionEntry, [13, 21]⟩ 0x1010 = .ok false := by
    decide +kernel
  refine ⟨by decide +kernel, by decide +kernel, hleft, ?_⟩
  intro it behind last hget hadvance hstays
  have haddress : ((table.getEntryByAddress 0x1000).bind fun found => do
      let it ← found.1.elim (.error .schedule) table.advance
      pure it.current.address) = .ok 0x1010 := by
    decide +kernel
  rw [hget] at haddress
  change (table.advance it >>= fun it => pure it.current.address) = _ at haddress
  rw [hadvance] at haddress
  have hinside := hstays.inside
  rw [Except.ok.inj haddress, hleft] at hinside
  cases hinside

/-- The second function has two rows. -/
theorem prologue_staysInside_iff_second : ∃ behind : LineIterator,
    env.diePlace neighbour =
      (FileAddr.toVirtAddr env.elves ⟨some 0, behind.current.address⟩).map some ∧
    StaysInside [] cu ⟨22, functionEntry, [23, 31]⟩ behind.current := by
  obtain ⟨it, behind, last, -, -, hplace, -, hiff⟩ := prologue_staysInside_iff env steps []
    neighbour ⟨22, functionEntry, [23, 31]⟩ ⟨some 0, 0x1010⟩ 0 table rows [rowAt 0x1000 1]
    [{ rowAt 0x1020 6 with endSequence := true }] (rowAt 0x1010 5) (rowAt 0x1018 6) rfl rfl
    (by decide) rfl (by decide) rfl (by decide +kernel) rfl (by decide)
  refine ⟨behind, hplace, hiff.mpr ⟨rowAt 0x1010 5, rowAt 0x1018 6, by decide, rfl, ?_⟩⟩
  decide +kernel

end StepInWitness

end Gsdb
