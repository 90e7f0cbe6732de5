/-
Rows that end a sequence.  The lookup by line takes them like other rows, with the
line and the file that the registers have when the sequence ends; a breakpoint on
the line then has a place behind the sequence.
-/
import Gsdb.LineHistory
import Gsdb.LineLookup
import Gsdb.SourceBreakpoints

namespace Gsdb

open ByteMemory ByteCursor

/-- `DW_LNE_end_sequence` at a position of the program. -/
def EndSequenceAt (table : LineTable) (pos : Nat) : Prop :=
  ∃ operands length code next, (Cursor.mk table.data pos).u8 = some (0, operands) ∧
    operands.uleb128 = some (length, code) ∧ code.u8 = some (1, next)

/-- The iterator with the file of its row. -/
def LineIterator.withRowFile (it : LineIterator) : LineIterator :=
  { it with current := withFile it.fileNames it.current }

/-- The instructions that iterating over a table executes: the state of the
iterator in front of each, and its position. -/
inductive Executes (table : LineTable) : LineIterator → Nat → Prop where
  | first (hinside : 0 ≠ table.data.length) : Executes table table.initial 0
  | next {it middle : LineIterator} {pos : Nat} (hbefore : Executes table it pos)
      (hstep : table.executeInstruction it pos = .ok (middle, false)) :
      Executes table middle (middle.pos.getD 0)
  | behind {it row : LineIterator} {pos after : Nat} (hbefore : Executes table it pos)
      (hstep : table.executeInstruction it pos = .ok (row, true)) (hpos : row.pos = some after)
      (hinside : after ≠ table.data.length) :
      Executes table row.withRowFile after

/-- A sequence ends while the registers have a line of a file. -/
def EndsOnLine (table : LineTable) (path : List Byte) (line : Word) : Prop :=
  ∃ it pos, Executes table it pos ∧ EndSequenceAt table pos ∧
    LineTable.selectsRow path line (withFile it.fileNames it.registers) = true

section Instructions

variable {table : LineTable} {it next : LineIterator} {pos : Nat} {emitted : Bool}

theorem executeInstruction_endSequence (h : EndSequenceAt table pos) (it : LineIterator) :
    ∃ next, table.executeInstruction it pos = .ok (next, true) ∧
      next.current = { it.registers with endSequence := true } ∧ next.fileNames = it.fileNames := by
  obtain ⟨operands, length, code, behind, hopcode, hlength, hcode⟩ := h
  simp only [LineTable.executeInstruction, LineTable.executeExtended, hopcode, hlength, hcode,
    inBounds_some, ok_bind]
  exact ⟨_, rfl, rfl, rfl⟩

/-- An instruction other than the end of a sequence leaves the flag clear, in the
registers and in the row it emits. -/
structure FlagClear (it next : LineIterator) (emitted : Bool) : Prop where
  registers : it.registers.endSequence = false → next.registers.endSequence = false
  current : it.registers.endSequence = false → emitted = true → next.current.endSequence = false

theorem flagClear_set {cur cur' : Cursor} {registers : LineEntry}
    (h : (pure (LineTable.setRegisters it cur registers) : Except Failure _) =
      .ok (next, cur', emitted))
    (hflag : registers.endSequence = it.registers.endSequence) : FlagClear it next emitted := by
  cases h
  exact ⟨fun hclear => hflag.trans hclear, fun _ hemitted => by cases hemitted⟩

theorem flagClear_emit {cur cur' : Cursor} {registers : LineEntry}
    (h : (Except.ok (LineTable.emitRow it registers, cur, true) : Except Failure _) =
      .ok (next, cur', emitted))
    (hflag : registers.endSequence = it.registers.endSequence) : FlagClear it next emitted := by
  cases h
  exact ⟨fun hclear => hflag.trans hclear, fun hclear _ => hflag.trans hclear⟩

theorem executeStandard_flagClear {opcode : Byte} {cur cur' : Cursor}
    (h : table.executeStandard it opcode cur = .ok (next, cur', emitted)) :
    FlagClear it next emitted := by
  unfold LineTable.executeStandard at h
  simp only at h
  split at h
  · exact flagClear_emit h rfl
  · obtain ⟨read, -, h⟩ := bind_eq_ok.mp h
    exact flagClear_set h rfl
  · obtain ⟨read, -, h⟩ := bind_eq_ok.mp h
    exact flagClear_set h rfl
  · obtain ⟨read, -, h⟩ := bind_eq_ok.mp h
    exact flagClear_set h rfl
  · obtain ⟨read, -, h⟩ := bind_eq_ok.mp h
    exact flagClear_set h rfl
  · exact flagClear_set h rfl
  · exact flagClear_set h rfl
  · split at h
    · cases h
    · exact flagClear_set h rfl
  · obtain ⟨read, -, h⟩ := bind_eq_ok.mp h
    exact flagClear_set h rfl
  · exact flagClear_set h rfl
  · exact flagClear_set h rfl
  · cases h
    exact ⟨id, fun _ hemitted => by cases hemitted⟩
  · cases h

theorem executeSpecial_flagClear {opcode : Byte} {cur cur' : Cursor}
    (h : table.executeSpecial it opcode cur = .ok (next, cur', emitted)) :
    FlagClear it next emitted := by
  unfold LineTable.executeSpecial at h
  split at h
  · cases h
  · exact flagClear_emit h rfl

/-- Of the extended instructions only the end of a sequence sets the flag, in the
row. -/
theorem executeExtended_flagClear {cur cur' : Cursor}
    (h : table.executeExtended it cur = .ok (next, cur', emitted)) :
    FlagClear it next emitted ∨ (next.registers = table.reset ∧
      ∃ length code behind, cur.uleb128 = some (length, code) ∧ code.u8 = some (1, behind)) := by
  obtain ⟨⟨length, code⟩, hlength, h⟩ := bind_eq_ok.mp h
  obtain ⟨⟨extended, behind⟩, hcode, h⟩ := bind_eq_ok.mp h
  rw [inBounds_eq_ok] at hlength hcode
  simp only at h
  split at h
  · rename_i hone
    cases h
    have hextended : extended = 1 := BitVec.eq_of_toNat_eq hone
    subst hextended
    exact .inr ⟨rfl, length, code, _, hlength, hcode⟩
  · obtain ⟨read, -, h⟩ := bind_eq_ok.mp h
    exact .inl (flagClear_set h rfl)
  · obtain ⟨read, -, h⟩ := bind_eq_ok.mp h
    cases h
    exact .inl ⟨id, fun _ hemitted => by cases hemitted⟩
  · obtain ⟨read, -, h⟩ := bind_eq_ok.mp h
    exact .inl (flagClear_set h rfl)
  · cases h

theorem FlagClear.withPos (h : FlagClear it next emitted) (pos : Option Nat) :
    FlagClear it { next with pos := pos } emitted :=
  ⟨h.registers, h.current⟩

theorem executeInstruction_flagClear
    (h : table.executeInstruction it pos = .ok (next, emitted)) :
    FlagClear it next emitted ∨ (next.registers = table.reset ∧ EndSequenceAt table pos) := by
  obtain ⟨⟨opcode, operands⟩, hopcode, h⟩ := bind_eq_ok.mp h
  rw [inBounds_eq_ok] at hopcode
  simp only at h
  split at h
  · obtain ⟨⟨after, cur, row⟩, hexec, h⟩ := bind_eq_ok.mp h
    cases h
    exact .inl ((executeStandard_flagClear hexec).withPos _)
  split at h
  · rename_i hzero
    subst hzero
    obtain ⟨⟨after, cur, row⟩, hexec, h⟩ := bind_eq_ok.mp h
    cases h
    rcases executeExtended_flagClear hexec with hclear | ⟨hreset, length, code, next, hread⟩
    · exact .inl (hclear.withPos _)
    · exact .inr ⟨hreset, operands, length, code, next, hopcode, hread⟩
  · obtain ⟨⟨after, cur, row⟩, hexec, h⟩ := bind_eq_ok.mp h
    cases h
    exact .inl ((executeSpecial_flagClear hexec).withPos _)

theorem executeInstruction_registers (hclear : it.registers.endSequence = false)
    (h : table.executeInstruction it pos = .ok (next, emitted)) :
    next.registers.endSequence = false := by
  rcases executeInstruction_flagClear h with hflag | ⟨hreset, -⟩
  · exact hflag.registers hclear
  · rw [hreset]
    rfl

theorem endSequenceAt_of_row (hclear : it.registers.endSequence = false)
    (h : table.executeInstruction it pos = .ok (next, true))
    (hrow : next.current.endSequence = true) : EndSequenceAt table pos := by
  rcases executeInstruction_flagClear h with hflag | ⟨-, hend⟩
  · rw [hflag.current hclear rfl] at hrow
    cases hrow
  · exact hend

theorem Executes.registers (h : Executes table it pos) : it.registers.endSequence = false := by
  induction h with
  | first => rfl
  | next _ hstep ih => exact executeInstruction_registers ih hstep
  | behind _ hstep _ _ ih =>
      have hregisters := executeInstruction_registers ih hstep
      exact hregisters

end Instructions

section Runs

variable {table : LineTable} {it next : LineIterator} {pos : Nat} {rows : List LineEntry}

theorem executeUntilRow_executes {rounds : Nat} (h : Executes table it pos)
    (hrun : table.executeUntilRow rounds it pos = .ok next) :
    ∃ before at_, Executes table before at_ ∧
      table.executeInstruction before at_ = .ok (next, true) := by
  induction rounds generalizing it pos with
  | zero => cases hrun
  | succ rounds ih =>
      obtain ⟨⟨middle, emitted⟩, hstep, hrun⟩ := bind_eq_ok.mp hrun
      cases emitted with
      | true =>
          cases hrun
          exact ⟨it, pos, h, hstep⟩
      | false => exact ih (.next h hstep) hrun

/-- An increment in front of the end of the program runs to a row. -/
theorem advance_row (hpos : it.pos = some pos) (hinside : pos ≠ table.data.length)
    (h : table.advance it = .ok next) :
    ∃ row, table.executeUntilRow (table.data.length - pos) it pos = .ok row ∧
      next = row.withRowFile := by
  rw [LineTable.advance, hpos] at h
  simp only [if_neg hinside] at h
  obtain ⟨row, hrun, h⟩ := bind_eq_ok.mp h
  obtain ⟨file, hfile, h⟩ := bind_eq_ok.mp h
  cases h
  refine ⟨row, hrun, ?_⟩
  unfold LineTable.fileAt at hfile
  split at hfile
  · rename_i found hfound
    cases hfile
    rw [LineIterator.withRowFile, withFile, hfound]
  · cases hfile

theorem advance_end (hpos : it.pos = some table.data.length) (h : table.advance it = .ok next) :
    next.pos = none := by
  rw [LineTable.advance, hpos] at h
  simp only [if_true] at h
  cases h
  rfl

/-- An iterator at the end, or at a row that an instruction emitted. -/
def AtRow (table : LineTable) (it : LineIterator) : Prop :=
  it.pos = none ∨ ∃ before pos row, Executes table before pos ∧
    table.executeInstruction before pos = .ok (row, true) ∧ it = row.withRowFile

theorem advance_atRow (hinside : ∀ pos, it.pos = some pos → pos ≠ table.data.length →
      Executes table it pos) (h : table.advance it = .ok next) : AtRow table next := by
  cases hpos : it.pos with
  | none =>
      rw [LineTable.advance, hpos] at h
      cases h
  | some pos =>
      by_cases hend : pos = table.data.length
      · exact .inl (advance_end (by rw [hpos, hend]) h)
      · obtain ⟨row, hrun, rfl⟩ := advance_row hpos hend h
        obtain ⟨before, at_, hexecutes, hstep⟩ :=
          executeUntilRow_executes (hinside pos hpos hend) hrun
        exact .inr ⟨before, at_, row, hexecutes, hstep, rfl⟩

theorem AtRow.executes (h : AtRow table it) (hpos : it.pos = some pos)
    (hinside : pos ≠ table.data.length) : Executes table it pos := by
  rcases h with hnone | ⟨before, at_, row, hexecutes, hstep, rfl⟩
  · rw [hnone] at hpos
    cases hpos
  · exact .behind hexecutes hstep hpos hinside

/-- Every row that is visited was emitted by an instruction. -/
theorem Visits.emitted (h : Visits table it rows) (hit : AtRow table it) :
    ∀ row ∈ rows, ∃ before pos emitted, Executes table before pos ∧
      table.executeInstruction before pos = .ok (emitted, true) ∧
      row = withFile emitted.fileNames emitted.current := by
  induction h with
  | done => simp
  | @row it next rows hpos hadvance _ ih =>
      intro row hmem
      rcases List.mem_cons.mp hmem with rfl | hmem
      · rcases hit with hnone | ⟨before, at_, emitted, hexecutes, hstep, rfl⟩
        · exact absurd hnone hpos
        · exact ⟨before, at_, emitted, hexecutes, hstep, rfl⟩
      · exact ih (advance_atRow (fun _ => hit.executes) hadvance) row hmem

/-- Every instruction that is executed leads to a row that is visited. -/
theorem Executes.visited (h : Executes table it pos) (hrows : table.rows = .ok rows) :
    ∃ rounds row rest, table.executeUntilRow rounds it pos = .ok row ∧
      Visits table row.withRowFile rest ∧ ∀ entry ∈ rest, entry ∈ rows := by
  induction h with
  | first hinside =>
      obtain ⟨first, hfirst, hrest⟩ := bind_eq_ok.mp hrows
      obtain ⟨row, hrun, rfl⟩ := advance_row rfl hinside hfirst
      exact ⟨_, row, rows, hrun, (rowsFrom_visits hrest).1, fun _ hmem => hmem⟩
  | next _ hstep ih =>
      obtain ⟨rounds, row, rest, hrun, hvisits, hsubset⟩ := ih
      cases rounds with
      | zero => cases hrun
      | succ rounds =>
          rw [LineTable.executeUntilRow, hstep, ok_bind] at hrun
          exact ⟨rounds, row, rest, hrun, hvisits, hsubset⟩
  | @behind _ emitted _ after _ hstep hpos hinside ih =>
      have hpos : emitted.withRowFile.pos = some after := hpos
      obtain ⟨rounds, row, rest, hrun, hvisits, hsubset⟩ := ih
      cases rounds with
      | zero => cases hrun
      | succ rounds =>
          rw [LineTable.executeUntilRow, hstep, ok_bind] at hrun
          cases hrun
          cases hvisits with
          | done hnone =>
              have hsome := hpos.symm.trans hnone
              cases hsome
          | row _ hadvance hvisits =>
              obtain ⟨later, hrun, rfl⟩ := advance_row hpos hinside hadvance
              exact ⟨_, later, _, hrun, hvisits,
                fun entry hmem => hsubset entry (List.mem_cons_of_mem _ hmem)⟩

/-- The rows with a line that end a sequence are those of sequences that end on the
line. -/
theorem endsOnLine_iff {path : List Byte} {line : Word} (hrows : table.rows = .ok rows) :
    EndsOnLine table path line ↔ ∃ row ∈ rows, row.endSequence = true ∧
      LineTable.selectsRow path line row = true := by
  constructor
  · rintro ⟨it, pos, hexecutes, hend, hselects⟩
    obtain ⟨rounds, row, rest, hrun, hvisits, hsubset⟩ := hexecutes.visited hrows
    obtain ⟨emitted, hstep, hcurrent, hfiles⟩ := executeInstruction_endSequence hend it
    cases rounds with
    | zero => cases hrun
    | succ rounds =>
        rw [LineTable.executeUntilRow, hstep, ok_bind] at hrun
        obtain rfl : emitted = row := Except.ok.inj hrun
        have hrow : emitted.withRowFile.current =
            { withFile it.fileNames it.registers with endSequence := true } := by
          rw [LineIterator.withRowFile, hcurrent, hfiles]
          rfl
        cases hvisits with
        | done hnone =>
            have hpos : emitted.pos = none := hnone
            exact absurd hpos (executeInstruction_pos hstep)
        | row _ _ _ =>
            refine ⟨_, hsubset _ List.mem_cons_self, ?_, ?_⟩
            · rw [hrow]
            · rw [hrow]
              exact hselects
  · rintro ⟨row, hmem, hend, hselects⟩
    obtain ⟨first, hfirst, hrest⟩ := bind_eq_ok.mp hrows
    have hstart : AtRow table first := by
      refine advance_atRow (fun pos hpos hinside => ?_) hfirst
      cases hpos
      exact .first hinside
    obtain ⟨before, pos, emitted, hexecutes, hstep, rfl⟩ :=
      (rowsFrom_visits hrest).1.emitted hstart row hmem
    have hat := endSequenceAt_of_row hexecutes.registers hstep hend
    obtain ⟨next, hnext, hcurrent, hfiles⟩ := executeInstruction_endSequence hat before
    cases hstep.symm.trans hnext
    refine ⟨before, pos, hexecutes, hat, ?_⟩
    rw [hcurrent, hfiles] at hselects
    exact hselects

end Runs

section Entries

variable {env : ResolveEnv} {table : LineTable} {rows : List LineEntry} {path : List Byte}
  {line : Word}

theorem getEntriesByLine_endSequence (hrows : table.rows = .ok rows) :
    ∃ entries last, table.getEntriesByLine path line = .ok (entries, last) ∧
      ((∀ it ∈ entries, it.current.endSequence = false) ↔ ¬ EndsOnLine table path line) := by
  obtain ⟨entries, last, hget, hentries⟩ := getEntriesByLine_filter path line hrows
  refine ⟨entries, last, hget, ?_⟩
  rw [endsOnLine_iff hrows]
  constructor
  · rintro hnone ⟨row, hmem, hend, hselects⟩
    have hfound : row ∈ entries.map LineIterator.current := by
      rw [hentries]
      exact List.mem_filter.mpr ⟨hmem, hselects⟩
    obtain ⟨it, hit, rfl⟩ := List.mem_map.mp hfound
    rw [hnone it hit] at hend
    cases hend
  · intro hnone it hit
    have hfound : it.current ∈ rows.filter (LineTable.selectsRow path line) := by
      rw [← hentries]
      exact List.mem_map_of_mem hit
    obtain ⟨hmem, hselects⟩ := List.mem_filter.mp hfound
    cases hend : it.current.endSequence with
    | false => rfl
    | true => exact absurd ⟨it.current, hmem, hend, hselects⟩ hnone

/-- The entries of one compile unit. -/
def ResolveEnv.unitEntries (env : ResolveEnv) (path : List Byte) (line : Word)
    (unit : Nat × CompileUnit) : Except Failure (List LineRef) := do
  let table ← env.lines unit.2
  let (newEntries, _) ← table.getEntriesByLine path line
  pure (newEntries.map fun it => LineRef.mk unit.1 table it)

theorem unitEntries_endSequence {unit : Nat × CompileUnit} (hlines : env.lines unit.2 = .ok table)
    (hrows : table.rows = .ok rows) :
    ∃ refs, env.unitEntries path line unit = .ok refs ∧
      ((∀ ref ∈ refs, ref.it.current.endSequence = false) ↔ ¬ EndsOnLine table path line) := by
  obtain ⟨entries, last, hget, hiff⟩ := @getEntriesByLine_endSequence _ _ path line hrows
  refine ⟨entries.map fun it => LineRef.mk unit.1 table it, ?_, ?_⟩
  · simp only [ResolveEnv.unitEntries, hlines, hget, ok_bind]
    rfl
  · rw [← hiff, List.forall_mem_map]

/-- The entries of all compile units are those of each. -/
theorem mapM_unitEntries {units : List (Nat × CompileUnit)}
    (htables : ∀ unit ∈ units, ∃ table rows, env.lines unit.2 = .ok table ∧
      table.rows = .ok rows) :
    ∃ found, units.mapM (env.unitEntries path line) = .ok found ∧
      ((∀ ref ∈ found.flatten, ref.it.current.endSequence = false) ↔
        ∀ unit ∈ units, ∀ table, env.lines unit.2 = .ok table → ¬ EndsOnLine table path line) := by
  induction units with
  | nil => exact ⟨[], rfl, by simp⟩
  | cons unit rest ih =>
      obtain ⟨table, rows, hlines, hrows⟩ := htables unit List.mem_cons_self
      obtain ⟨refs, hrefs, hiff⟩ := @unitEntries_endSequence _ _ _ path line _ hlines hrows
      obtain ⟨found, hfound, hrest⟩ := ih fun other hmem =>
        htables other (List.mem_cons_of_mem _ hmem)
      refine ⟨refs :: found, ?_, ?_⟩
      · rw [List.mapM_cons, hrefs, ok_bind, hfound, ok_bind]
        rfl
      · rw [List.flatten_cons, List.forall_mem_append, hiff, hrest, List.forall_mem_cons, hlines]
        simp

end Entries

/-- The lookup by line returns no row that ends a sequence exactly if no sequence
ends on the line; and a breakpoint on the line is resolved at no such row exactly
if that holds in all compile units. -/
theorem lineEntries_endSequence_iff (env : ResolveEnv) (path : List Byte) (line : Word)
    (htables : ∀ unit ∈ env.compileUnits, ∃ table rows, env.lines unit.2 = .ok table ∧
      table.rows = .ok rows) :
    (∀ table rows, LineTable.rows table = .ok rows →
      ∃ entries last, table.getEntriesByLine path line = .ok (entries, last) ∧
        ((∀ it ∈ entries, it.current.endSequence = false) ↔ ¬ EndsOnLine table path line)) ∧
    ∃ refs, env.lineEntriesByLine path line = .ok refs ∧
      env.linePlaces path line = .ok (refs.map env.entryPlace) ∧
      ((∀ ref ∈ refs, ref.it.current.endSequence = false) ↔
        ∀ unit ∈ env.compileUnits, ∀ table, env.lines unit.2 = .ok table →
          ¬ EndsOnLine table path line) := by
  refine ⟨fun table rows hrows => getEntriesByLine_endSequence hrows, ?_⟩
  obtain ⟨found, hfound, hiff⟩ := @mapM_unitEntries env path line _ htables
  have hentries : env.lineEntriesByLine path line = .ok found.flatten := by
    change (env.compileUnits.mapM (env.unitEntries path line) >>= fun found =>
      pure found.flatten) = _
    rw [hfound, ok_bind]
    rfl
  refine ⟨found.flatten, hentries, ?_, hiff⟩
  rw [ResolveEnv.linePlaces, hentries, ok_bind]
  rfl

namespace EndSequencesWitness

open LineLookupWitness (file)

/-- A sequence of two rows of eight bytes, on lines five and six, which ends on the
second. -/
def program : List Byte :=
  [0x00, 0x09, 0x02, 0x00, 0x10, 0, 0, 0, 0, 0, 0, 0x03, 0x04, 0x01, 0x02, 0x08, 0x03, 0x01, 0x01,
   0x02, 0x08, 0x00, 0x01, 0x01]

def table : LineTable := { LineLookupWitness.table with data := program }

def elf : Elf := ⟨[], [⟨".text", 6, 0x1000, 0x1000, 0x20⟩], 0⟩

def cu : CompileUnit := ⟨0, [], []⟩

/-- Code behind the sequence, of which no function is known. -/
def env : ResolveEnv where
  elves := [elf]
  findFunctions := fun _ => .ok ([], [])
  compileUnits := [(0, cu)]
  lines := fun _ => .ok table
  lowPc := fun _ => .ok ⟨some 0, 0x1000⟩
  inlineStackAtAddress := fun _ => .ok []

/-- A breakpoint on line six has a place behind the sequence. -/
theorem end_of_sequence_found :
    (¬ ∀ (table : LineTable) (path : List Byte) (line : Word) (entries : List LineIterator)
        (last : LineIterator), table.getEntriesByLine path line = .ok (entries, last) →
      ∀ it ∈ entries, it.current.endSequence = false) ∧
    env.linePlaces file.path 6 = .ok [.ok (some 0x1008), .ok (some 0x1010)] := by
  constructor
  · intro hall
    have hflags : (table.getEntriesByLine file.path 6).map (fun found =>
        found.1.map fun it => it.current.endSequence) = .ok [false, true] := by
      decide +kernel
    cases hget : table.getEntriesByLine file.path 6 with
    | error failure =>
        rw [hget] at hflags
        cases hflags
    | ok found =>
        rw [hget] at hflags
        have hflags : found.1.map (fun it => it.current.endSequence) = [false, true] :=
          Except.ok.inj hflags
        have hmem : true ∈ found.1.map fun it => it.current.endSequence := by
          rw [hflags]
          decide
        obtain ⟨it, hit, hend⟩ := List.mem_map.mp hmem
        rw [hall table file.path 6 found.1 found.2 hget it hit] at hend
        cases hend
  · decide +kernel

/-- No sequence ends on line five. -/
theorem lineEntries_endSequence_iff_five : ¬ EndsOnLine table file.path 5 ∧
    env.linePlaces file.path 5 = .ok [.ok (some 0x1000)] := by
  have htables : ∀ unit ∈ env.compileUnits, ∃ table rows, env.lines unit.2 = .ok table ∧
      table.rows = .ok rows := by
    intro unit _
    have hrows : (table.rows).toBool = true := by decide +kernel
    cases hread : table.rows with
    | error failure =>
        rw [hread] at hrows
        cases hrows
    | ok rows => exact ⟨table, rows, rfl, hread⟩
  obtain ⟨-, refs, hrefs, -, hiff⟩ := lineEntries_endSequence_iff env file.path 5 htables
  have hflags : (env.lineEntriesByLine file.path 5).map (fun refs =>
      refs.map fun ref => ref.it.current.endSequence) = .ok [false] := by
    decide +kernel
  rw [hrefs] at hflags
  have hflags : refs.map (fun ref => ref.it.current.endSequence) = [false] :=
    Except.ok.inj hflags
  have hclear : ∀ ref ∈ refs, ref.it.current.endSequence = false := by
    intro ref hmem
    have hflag : ref.it.current.endSequence ∈ refs.map fun ref => ref.it.current.endSequence :=
      List.mem_map_of_mem hmem
    rw [hflags] at hflag
    exact List.mem_singleton.mp hflag
  exact ⟨hiff.mp hclear (0, cu) List.mem_cons_self table rfl, by decide +kernel⟩

end EndSequencesWitness

end Gsdb
