/-
Iterating over a line table again and again.  An instruction that defines a file
appends it to the table's own list, every time an iteration passes over it; what
a later iteration makes of a file number depends on where the earlier ones
stopped.
-/
import Gsdb.LineProgram

namespace Gsdb

open ByteMemory ByteCursor

/-- What can be done with a line table: `begin()` and a number of increments,
and the two lookups. -/
inductive LineQuery where
  | walk (n : Nat)
  | getEntryByAddress (address : Word)
  | getEntriesByLine (path : List Byte) (line : Word)
deriving DecidableEq, Repr

/-- The last iterator that a query makes. -/
def LineQuery.last (table : LineTable) : LineQuery → Except Failure LineIterator
  | .walk n => table.walk n
  | .getEntryByAddress address => do
      let (_, it) ← table.getEntryByAddress address
      pure it
  | .getEntriesByLine path line => do
      let (_, it) ← table.getEntriesByLine path line
      pure it

/-- A query leaves its mark on the file table. -/
def LineQuery.run (query : LineQuery) (table : LineTable) : Except Failure LineTable := do
  let it ← query.last table
  pure { table with fileNames := it.fileNames }

/-- One query after the other. -/
def performQueries : List LineQuery → LineTable → Except Failure LineTable
  | [], table => .ok table
  | query :: rest, table => do
      let table ← query.run table
      performQueries rest table

/-- Two iterators at the same place, one of which has seen other files before. -/
structure Parallel (files : List LineFile) (it it' : LineIterator) : Prop where
  registers : it'.registers = it.registers
  pos : it'.pos = it.pos
  fileNames : it'.fileNames = files ++ it.fileNames

/-- The iterator as it would be behind other files; its row is `old` until one is
emitted. -/
def LineIterator.behind (files : List LineFile) (old : LineEntry) (it : LineIterator)
    (emitted : Bool) : LineIterator :=
  ⟨if emitted then it.current else old, it.registers, it.pos, files ++ it.fileNames⟩

section Append

variable {table : LineTable} {files : List LineFile} {it it' : LineIterator}

theorem executeStandard_behind (h : Parallel files it it') (opcode : Byte) (cur : Cursor) :
    table.executeStandard it' opcode cur = (table.executeStandard it opcode cur).map
      fun r => (r.1.behind files it'.current r.2.2, r.2) := by
  obtain ⟨current, registers, pos, names⟩ := it
  obtain ⟨current', registers', pos', names'⟩ := it'
  obtain ⟨hregisters, hpos, hfiles⟩ := h
  cases hregisters
  cases hpos
  obtain rfl : names' = files ++ names := hfiles
  unfold LineTable.executeStandard
  split
  · rfl
  · cases cur.uleb128 <;> rfl
  · cases cur.sleb128 <;> rfl
  · cases cur.uleb128 <;> rfl
  · cases cur.uleb128 <;> rfl
  · rfl
  · rfl
  · by_cases hrange : table.lineRange = 0
    · rw [if_pos hrange, if_pos hrange]
      rfl
    · rw [if_neg hrange, if_neg hrange]
      rfl
  · cases cur.u16 <;> rfl
  · rfl
  · rfl
  · rfl
  · rfl

theorem executeExtended_behind (h : Parallel files it it') (cur : Cursor) :
    table.executeExtended it' cur = (table.executeExtended it cur).map
      fun r => (r.1.behind files it'.current r.2.2, r.2) := by
  obtain ⟨current, registers, pos, names⟩ := it
  obtain ⟨current', registers', pos', names'⟩ := it'
  obtain ⟨hregisters, hpos, hfiles⟩ := h
  cases hregisters
  cases hpos
  obtain rfl : names' = files ++ names := hfiles
  unfold LineTable.executeExtended
  cases cur.uleb128 with
  | none => rfl
  | some length =>
      simp only [inBounds_some, ok_bind]
      cases length.2.u8 with
      | none => rfl
      | some opcode =>
          simp only [inBounds_some, ok_bind]
          split
          · rfl
          · cases opcode.2.u64 <;> rfl
          · cases parseLineTableFile opcode.2 table.compilationDir table.includeDirs with
            | error e => rfl
            | ok file =>
                simp only [ok_bind, List.append_assoc]
                rfl
          · cases opcode.2.uleb128 <;> rfl
          · rfl

theorem executeSpecial_behind (h : Parallel files it it') (opcode : Byte) (cur : Cursor) :
    table.executeSpecial it' opcode cur = (table.executeSpecial it opcode cur).map
      fun r => (r.1.behind files it'.current r.2.2, r.2) := by
  obtain ⟨current, registers, pos, names⟩ := it
  obtain ⟨current', registers', pos', names'⟩ := it'
  obtain ⟨hregisters, hpos, hfiles⟩ := h
  cases hregisters
  cases hpos
  obtain rfl : names' = files ++ names := hfiles
  unfold LineTable.executeSpecial
  by_cases hrange : table.lineRange = 0
  · rw [if_pos hrange, if_pos hrange]
    rfl
  · rw [if_neg hrange, if_neg hrange]
    rfl

/-- An instruction looks at no file that was defined before it. -/
theorem executeInstruction_behind (h : Parallel files it it') (pos : Nat) :
    table.executeInstruction it' pos = (table.executeInstruction it pos).map
      fun r => (r.1.behind files it'.current r.2, r.2) := by
  unfold LineTable.executeInstruction
  cases (Cursor.mk table.data pos).u8 with
  | none => rfl
  | some opcode =>
      simp only [inBounds_some, ok_bind]
      have hdispatch : ∀ x x' : Except Failure (LineIterator × Cursor × Bool),
          x' = x.map (fun r => (r.1.behind files it'.current r.2.2, r.2)) →
          (x' >>= fun r => pure ({ r.1 with pos := some r.2.1.pos }, r.2.2)) =
            (x >>= fun r => pure ({ r.1 with pos := some r.2.1.pos }, r.2.2)).map
              fun r : LineIterator × Bool => (r.1.behind files it'.current r.2, r.2) := by
        rintro (e | r) x' rfl <;> rfl
      split
      · exact hdispatch _ _ (executeStandard_behind h _ _)
      · split
        · exact hdispatch _ _ (executeExtended_behind h _)
        · exact hdispatch _ _ (executeSpecial_behind h _ _)

/-- The iterator with other files before its own. -/
def LineIterator.shift (files : List LineFile) (it : LineIterator) : LineIterator :=
  { it with fileNames := files ++ it.fileNames }

theorem executeUntilRow_shift (rounds : Nat) (h : Parallel files it it') (pos : Nat) :
    table.executeUntilRow rounds it' pos =
      (table.executeUntilRow rounds it pos).map (LineIterator.shift files) := by
  induction rounds generalizing it it' pos with
  | zero => rfl
  | succ rounds ih =>
      rw [LineTable.executeUntilRow, LineTable.executeUntilRow, executeInstruction_behind h]
      rcases table.executeInstruction it pos with e | ⟨next, emitted⟩
      · rfl
      · cases emitted with
        | true => rfl
        | false =>
            have hnext : Parallel files next (next.behind files it'.current false) :=
              ⟨rfl, rfl, rfl⟩
            exact ih hnext _

/-- The files of an iterator stay, and further ones come behind them. -/
theorem executeUntilRow_extends {rounds pos : Nat} {next : LineIterator}
    (h : table.executeUntilRow rounds it pos = .ok next) : it.fileNames <+: next.fileNames := by
  have hempty : Parallel it.fileNames { it with fileNames := [] } it :=
    ⟨rfl, rfl, (List.append_nil _).symm⟩
  rw [executeUntilRow_shift rounds hempty] at h
  rcases hrun : table.executeUntilRow rounds { it with fileNames := [] } pos with e | next'
  · rw [hrun] at h
    cases h
  · rw [hrun] at h
    cases h
    exact List.prefix_append _ _

theorem executeInstruction_pos {pos : Nat} {next : LineIterator} {emitted : Bool}
    (h : table.executeInstruction it pos = .ok (next, emitted)) : next.pos ≠ none := by
  obtain ⟨⟨opcode, cur⟩, -, hrest⟩ := bind_eq_ok.mp h
  dsimp only at hrest
  split at hrest
  · obtain ⟨r, -, hend⟩ := bind_eq_ok.mp hrest
    cases hend
    simp
  · split at hrest
    · obtain ⟨r, -, hend⟩ := bind_eq_ok.mp hrest
      cases hend
      simp
    · obtain ⟨r, -, hend⟩ := bind_eq_ok.mp hrest
      cases hend
      simp

theorem executeUntilRow_pos {rounds pos : Nat} {next : LineIterator}
    (h : table.executeUntilRow rounds it pos = .ok next) : next.pos ≠ none := by
  induction rounds generalizing it pos with
  | zero => cases h
  | succ rounds ih =>
      obtain ⟨⟨middle, emitted⟩, hexec, hrest⟩ := bind_eq_ok.mp h
      cases emitted with
      | true =>
          cases hrest
          exact executeInstruction_pos hexec
      | false => exact ih hrest

end Append

/-- The iterators behind the rows that are still to come, each with the files
that were defined up to it. -/
inductive Stops (table : LineTable) : LineIterator → List LineIterator → Prop where
  | done {it : LineIterator} (hpos : it.pos = some table.data.length) : Stops table it []
  | row {it next : LineIterator} {stops : List LineIterator} {pos : Nat}
      (hpos : it.pos = some pos) (hinside : pos ≠ table.data.length)
      (hrun : table.executeUntilRow (table.data.length - pos) it pos = .ok next)
      (rest : Stops table next stops) : Stops table it (next :: stops)

/-- The row of an iterator, with its file looked up behind other files. -/
def resolve (files : List LineFile) (stop : LineIterator) : LineEntry :=
  withFile (files ++ stop.fileNames) stop.current

/-- All file numbers can be looked up. -/
def Resolves (files : List LineFile) (stops : List LineIterator) : Prop :=
  ∀ stop ∈ stops, (resolve files stop).fileEntry ≠ none

section Walks

variable {table : LineTable} {files : List LineFile} {it it' next : LineIterator}
  {stops : List LineIterator}

theorem fileAt_of_resolve (h : (resolve files next).fileEntry ≠ none) :
    ∃ file, LineTable.fileAt (files ++ next.fileNames) next.current.fileIndex = .ok file ∧
      resolve files next = { next.current with fileEntry := some file } := by
  obtain ⟨file, hfile⟩ := Option.ne_none_iff_exists'.mp h
  have hlookup : (files ++ next.fileNames)[(next.current.fileIndex - 1).toNat]? = some file :=
    hfile
  exact ⟨file, by rw [LineTable.fileAt, hlookup], by rw [resolve, withFile, hlookup]⟩

/-- An increment in front of a row. -/
theorem advance_parallel (h : Parallel files it it') {pos : Nat} (hpos : it.pos = some pos)
    (hinside : pos ≠ table.data.length)
    (hrun : table.executeUntilRow (table.data.length - pos) it pos = .ok next)
    (hfile : (resolve files next).fileEntry ≠ none) :
    ∃ next', table.advance it' = .ok next' ∧ Parallel files next next' ∧
      next'.current = resolve files next := by
  obtain ⟨file, hat, hresolve⟩ := fileAt_of_resolve hfile
  have hpos' : it'.pos = some pos := h.pos.trans hpos
  refine ⟨{ next.shift files with current := resolve files next }, ?_, ⟨rfl, rfl, rfl⟩, rfl⟩
  simp only [LineTable.advance, hpos', if_neg hinside, executeUntilRow_shift _ h, hrun]
  change (LineTable.fileAt (files ++ next.fileNames) next.current.fileIndex >>= _) = _
  rw [hat, hresolve]
  rfl

/-- An increment that returned a row. -/
theorem advance_eq_ok (h : Parallel files it it') {pos : Nat} (hpos : it.pos = some pos)
    (hinside : pos ≠ table.data.length) {next' : LineIterator}
    (hadvance : table.advance it' = .ok next') :
    ∃ next, table.executeUntilRow (table.data.length - pos) it pos = .ok next ∧
      Parallel files next next' ∧ next'.current = resolve files next ∧
      (resolve files next).fileEntry ≠ none := by
  have hpos' : it'.pos = some pos := h.pos.trans hpos
  simp only [LineTable.advance, hpos', if_neg hinside, executeUntilRow_shift _ h] at hadvance
  rcases hrun : table.executeUntilRow (table.data.length - pos) it pos with e | next
  · rw [hrun] at hadvance
    cases hadvance
  · rw [hrun] at hadvance
    obtain ⟨shifted, hshifted, hrest⟩ := bind_eq_ok.mp hadvance
    cases hshifted
    obtain ⟨file, hat, hend⟩ := bind_eq_ok.mp hrest
    have hlookup : (files ++ next.fileNames)[(next.current.fileIndex - 1).toNat]? = some file := by
      have hat' : LineTable.fileAt (files ++ next.fileNames) next.current.fileIndex = .ok file :=
        hat
      unfold LineTable.fileAt at hat'
      split at hat'
      · rename_i found hfound
        cases hat'
        exact hfound
      · cases hat'
    have hresolve : resolve files next = { next.current with fileEntry := some file } := by
      rw [resolve, withFile, hlookup]
    cases hend
    exact ⟨next, rfl, ⟨rfl, rfl, rfl⟩, hresolve.symm, by rw [hresolve]; simp⟩

theorem advance_done (h : Parallel files it it') (hpos : it.pos = some table.data.length) :
    table.advance it' = .ok { it' with pos := none } := by
  simp only [LineTable.advance, h.pos.trans hpos, if_true]

/-- Rows that were iterated over have stops behind them. -/
theorem stops_of_rowsFrom (rounds : Nat) (h : Parallel files it it') (hpos : it.pos ≠ none)
    {rows : List LineEntry} (hrows : table.rowsFrom rounds it' = .ok rows) :
    ∃ stops, Stops table it stops ∧ rows = it'.current :: stops.map (resolve files) ∧
      Resolves files stops ∧ stops.length < rounds := by
  induction rounds generalizing it it' rows with
  | zero =>
      rw [LineTable.rowsFrom, if_neg (h.pos ▸ hpos)] at hrows
      cases hrows
  | succ rounds ih =>
      rw [LineTable.rowsFrom, if_neg (h.pos ▸ hpos)] at hrows
      obtain ⟨next', hadvance, hrest⟩ := bind_eq_ok.mp hrows
      obtain ⟨later, hlater, hend⟩ := bind_eq_ok.mp hrest
      cases hend
      obtain ⟨pos, hat⟩ := Option.ne_none_iff_exists'.mp hpos
      by_cases hinside : pos = table.data.length
      · rw [advance_done h (hinside ▸ hat)] at hadvance
        cases hadvance
        rw [rowsFrom_end rounds rfl] at hlater
        cases hlater
        exact ⟨[], .done (hinside ▸ hat), rfl, fun _ hstop => (by cases hstop), by simp⟩
      · obtain ⟨next, hrun, hnext, hcurrent, hfile⟩ := advance_eq_ok h hat hinside hadvance
        obtain ⟨stops, hstops, rfl, hresolves, hlength⟩ :=
          ih hnext (executeUntilRow_pos hrun) hlater
        refine ⟨next :: stops, .row hat hinside hrun hstops, ?_, ?_, by simpa using hlength⟩
        · rw [List.map_cons, hcurrent]
        · intro stop hstop
          rcases List.mem_cons.mp hstop with rfl | hrest
          · exact hfile
          · exact hresolves stop hrest

/-- Stops whose files can be looked up are iterated over. -/
theorem rowsFrom_of_stops (rounds : Nat) (hstops : Stops table it stops)
    (h : Parallel files it it') (hresolves : Resolves files stops)
    (hrounds : stops.length < rounds) :
    table.rowsFrom rounds it' = .ok (it'.current :: stops.map (resolve files)) := by
  induction hstops generalizing it' rounds with
  | done hpos =>
      cases rounds with
      | zero => omega
      | succ rounds =>
          rw [LineTable.rowsFrom, if_neg (by rw [h.pos, hpos]; simp), advance_done h hpos, ok_bind,
            rowsFrom_end rounds rfl]
          rfl
  | row hpos hinside hrun rest ih =>
      cases rounds with
      | zero => omega
      | succ rounds =>
          obtain ⟨next', hadvance, hnext, hcurrent⟩ := advance_parallel h hpos hinside hrun
            (hresolves _ List.mem_cons_self)
          have hlater := ih rounds hnext
            (fun stop hstop => hresolves stop (List.mem_cons_of_mem _ hstop))
              (by simpa using hrounds)
          rw [LineTable.rowsFrom, if_neg (by rw [h.pos, hpos]; simp), hadvance, ok_bind, hlater,
            hcurrent]
          rfl

/-- The stop at which a number of increments ends. -/
def stopAfter (it : LineIterator) (stops : List LineIterator) (n : Nat) : LineIterator :=
  (stops.take n).getLastD it

theorem stopAfter_succ (it next : LineIterator) (stops : List LineIterator) (n : Nat) :
    stopAfter it (next :: stops) (n + 1) = stopAfter next stops n := by
  rw [stopAfter, stopAfter, List.take_succ_cons, List.getLastD_cons]

/-- Increments append the files that were defined up to the stop. -/
theorem advanceBy_of_stops (n : Nat) (hstops : Stops table it stops)
    (h : Parallel files it it') (hresolves : Resolves files stops) :
    ∃ last, table.advanceBy n it' = .ok last ∧
      last.fileNames = files ++ (stopAfter it stops n).fileNames := by
  induction hstops generalizing it' n with
  | @done it hpos =>
      have hnone : ∀ k, table.advanceBy k { it' with pos := none } =
          .ok { it' with pos := none } := fun k => by cases k <;> simp [LineTable.advanceBy]
      have hstop : stopAfter it [] n = it := by simp [stopAfter]
      rw [hstop]
      cases n with
      | zero => exact ⟨it', rfl, h.fileNames⟩
      | succ n =>
          refine ⟨{ it' with pos := none }, ?_, h.fileNames⟩
          rw [LineTable.advanceBy, if_neg (by rw [h.pos, hpos]; simp), advance_done h hpos, ok_bind,
            hnone]
  | row hpos hinside hrun rest ih =>
      cases n with
      | zero => exact ⟨it', rfl, h.fileNames⟩
      | succ n =>
          obtain ⟨next', hadvance, hnext, -⟩ := advance_parallel h hpos hinside hrun
            (hresolves _ List.mem_cons_self)
          obtain ⟨last, hlast, hfiles⟩ := ih n hnext
            (fun stop hstop => hresolves stop (List.mem_cons_of_mem _ hstop))
          refine ⟨last, ?_, by rw [hfiles, stopAfter_succ]⟩
          rw [LineTable.advanceBy, if_neg (by rw [h.pos, hpos]; simp), hadvance, ok_bind, hlast]

/-- The loop of the lookup by address ends at one of the stops. -/
theorem entryByAddressLoop_of_stops (address : Word) (rounds : Nat)
    (hstops : Stops table it stops) (h : Parallel files it it') (hresolves : Resolves files stops)
    (hrounds : stops.length + 1 < rounds) (prev : LineIterator) :
    ∃ entry last n, table.entryByAddressLoop address rounds prev it' = .ok (entry, last) ∧
      last.fileNames = files ++ (stopAfter it stops n).fileNames := by
  induction hstops generalizing it' rounds prev with
  | @done it hpos =>
      obtain ⟨rounds, rfl⟩ : ∃ k, rounds = k + 2 := ⟨rounds - 2, by simp at hrounds; omega⟩
      rw [LineTable.entryByAddressLoop, if_neg (by rw [h.pos, hpos]; simp)]
      split
      · exact ⟨_, it', 0, rfl, h.fileNames⟩
      · rw [advance_done h hpos, ok_bind, LineTable.entryByAddressLoop, if_pos rfl]
        exact ⟨_, _, 0, rfl, h.fileNames⟩
  | row hpos hinside hrun rest ih =>
      obtain ⟨rounds, rfl⟩ : ∃ k, rounds = k + 1 := ⟨rounds - 1, by omega⟩
      rw [LineTable.entryByAddressLoop, if_neg (by rw [h.pos, hpos]; simp)]
      split
      · exact ⟨_, it', 0, rfl, h.fileNames⟩
      · obtain ⟨next', hadvance, hnext, -⟩ := advance_parallel h hpos hinside hrun
          (hresolves _ List.mem_cons_self)
        obtain ⟨entry, last, n, hlast, hfiles⟩ := ih rounds hnext
          (fun stop hstop => hresolves stop (List.mem_cons_of_mem _ hstop))
          (by simpa using hrounds) it'
        refine ⟨entry, last, n + 1, ?_, by rw [hfiles, stopAfter_succ]⟩
        rw [hadvance, ok_bind, hlast]

/-- The loop of the lookup by line visits all stops. -/
theorem entriesByLineLoop_of_stops (path : List Byte) (line : Word) (rounds : Nat)
    (hstops : Stops table it stops) (h : Parallel files it it') (hresolves : Resolves files stops)
    (hrounds : stops.length + 1 < rounds) :
    ∃ entries last n, table.entriesByLineLoop path line rounds it' = .ok (entries, last) ∧
      last.fileNames = files ++ (stopAfter it stops n).fileNames := by
  induction hstops generalizing it' rounds with
  | @done it hpos =>
      obtain ⟨rounds, rfl⟩ : ∃ k, rounds = k + 2 := ⟨rounds - 2, by simp at hrounds; omega⟩
      rw [LineTable.entriesByLineLoop, if_neg (by rw [h.pos, hpos]; simp), advance_done h hpos,
        ok_bind, LineTable.entriesByLineLoop, if_pos rfl]
      exact ⟨_, _, 0, rfl, h.fileNames⟩
  | row hpos hinside hrun rest ih =>
      obtain ⟨rounds, rfl⟩ : ∃ k, rounds = k + 1 := ⟨rounds - 1, by omega⟩
      obtain ⟨next', hadvance, hnext, -⟩ := advance_parallel h hpos hinside hrun
        (hresolves _ List.mem_cons_self)
      obtain ⟨entries, last, n, hlast, hfiles⟩ := ih rounds hnext
        (fun stop hstop => hresolves stop (List.mem_cons_of_mem _ hstop)) (by simpa using hrounds)
      rw [LineTable.entriesByLineLoop, if_neg (by rw [h.pos, hpos]; simp), hadvance, ok_bind,
        hlast]
      exact ⟨_, last, n + 1, rfl, by rw [hfiles, stopAfter_succ]⟩

end Walks

/-- The iterator before its first increment, without any files. -/
def LineTable.origin (table : LineTable) : LineIterator := ⟨{}, table.reset, some 0, []⟩

theorem initial_parallel (table : LineTable) :
    Parallel table.fileNames table.origin table.initial :=
  ⟨rfl, rfl, (List.append_nil _).symm⟩

section Queries

variable {table : LineTable} {stops : List LineIterator}

theorem walk_eq (table : LineTable) (n : Nat) :
    table.walk n = table.advanceBy (n + 1) table.initial := by
  rw [LineTable.advanceBy, if_neg (by simp [LineTable.initial]), LineTable.walk]

theorem getEntryByAddress_of_stops (address : Word) (hstops : Stops table table.origin stops)
    (hresolves : Resolves table.fileNames stops) (hlength : stops.length ≤ table.data.length + 1) :
    ∃ entry last n, table.getEntryByAddress address = .ok (entry, last) ∧
      last.fileNames = table.fileNames ++ (stopAfter table.origin stops n).fileNames := by
  have hstart := initial_parallel table
  rw [LineTable.getEntryByAddress]
  cases hstops with
  | done hpos =>
      rw [advance_done hstart hpos, ok_bind, if_pos rfl]
      exact ⟨_, _, 0, rfl, hstart.fileNames⟩
  | row hpos hinside hrun rest =>
      obtain ⟨prev, hadvance, hprev, -⟩ := advance_parallel hstart hpos hinside hrun
        (hresolves _ List.mem_cons_self)
      rw [hadvance, ok_bind, if_neg (hprev.pos ▸ executeUntilRow_pos hrun)]
      cases rest with
      | done hend =>
          rw [advance_done hprev hend, ok_bind, LineTable.entryByAddressLoop, if_pos rfl]
          exact ⟨_, _, 1, rfl, hprev.fileNames⟩
      | @row _ _ later _ hpos' hinside' hrun' rest' =>
          have hlater : Resolves table.fileNames later := fun stop hstop =>
            hresolves stop (List.mem_cons_of_mem _ (List.mem_cons_of_mem _ hstop))
          obtain ⟨it, hadvance', hit, -⟩ := advance_parallel hprev hpos' hinside' hrun'
            (hresolves _ (List.mem_cons_of_mem _ List.mem_cons_self))
          rw [hadvance', ok_bind]
          obtain ⟨entry, last, n, hloop, hfiles⟩ := entryByAddressLoop_of_stops address
            (table.data.length + 1) rest' hit hlater (by simp at hlength; omega) prev
          exact ⟨entry, last, n + 2, hloop, by rw [hfiles, stopAfter_succ, stopAfter_succ]⟩

theorem getEntriesByLine_of_stops (path : List Byte) (line : Word)
    (hstops : Stops table table.origin stops)
    (hresolves : Resolves table.fileNames stops) (hlength : stops.length ≤ table.data.length + 1) :
    ∃ entries last n, table.getEntriesByLine path line = .ok (entries, last) ∧
      last.fileNames = table.fileNames ++ (stopAfter table.origin stops n).fileNames := by
  have hstart := initial_parallel table
  rw [LineTable.getEntriesByLine]
  cases hstops with
  | done hpos =>
      rw [advance_done hstart hpos, ok_bind, LineTable.entriesByLineLoop, if_pos rfl]
      exact ⟨_, _, 0, rfl, hstart.fileNames⟩
  | @row _ _ later _ hpos hinside hrun rest =>
      have hlater : Resolves table.fileNames later := fun stop hstop =>
        hresolves stop (List.mem_cons_of_mem _ hstop)
      obtain ⟨first, hadvance, hfirst, -⟩ := advance_parallel hstart hpos hinside hrun
        (hresolves _ List.mem_cons_self)
      rw [hadvance, ok_bind]
      obtain ⟨entries, last, n, hloop, hfiles⟩ := entriesByLineLoop_of_stops path line
        (table.data.length + 2) rest hfirst hlater (by simp at hlength; omega)
      exact ⟨entries, last, n + 1, hloop, by rw [hfiles, stopAfter_succ]⟩

/-- A query ends at one of the stops and appends the files defined up to it. -/
theorem LineQuery.run_of_stops (query : LineQuery) (hstops : Stops table table.origin stops)
    (hresolves : Resolves table.fileNames stops) (hlength : stops.length ≤ table.data.length + 1) :
    ∃ n, query.run table = .ok { table with
      fileNames := table.fileNames ++ (stopAfter table.origin stops n).fileNames } := by
  have hlast : ∃ last n, query.last table = .ok last ∧
      last.fileNames = table.fileNames ++ (stopAfter table.origin stops n).fileNames := by
    cases query with
    | walk n =>
        obtain ⟨last, hwalk, hfiles⟩ :=
          advanceBy_of_stops (n + 1) hstops (initial_parallel table) hresolves
        exact ⟨last, n + 1, (walk_eq table n).trans hwalk, hfiles⟩
    | getEntryByAddress address =>
        obtain ⟨entry, last, n, hget, hfiles⟩ :=
          getEntryByAddress_of_stops address hstops hresolves hlength
        exact ⟨last, n, by rw [LineQuery.last, hget]; rfl, hfiles⟩
    | getEntriesByLine path line =>
        obtain ⟨entries, last, n, hget, hfiles⟩ :=
          getEntriesByLine_of_stops path line hstops hresolves hlength
        exact ⟨last, n, by rw [LineQuery.last, hget]; rfl, hfiles⟩
  obtain ⟨last, n, hrun, hfiles⟩ := hlast
  exact ⟨n, by rw [LineQuery.run, hrun, ok_bind, hfiles]; rfl⟩

end Queries

/-- The table as a history of queries left it. -/
def LineTable.withFiles (table : LineTable) (files : List LineFile) : LineTable :=
  { table with fileNames := files }

/-- Every entry of a list is one of another, not further from the beginning. -/
def EarlierIn {α : Type} (all list : List α) : Prop :=
  ∀ (i : Nat) (entry : α), list[i]? = some entry → ∃ j ≤ i, all[j]? = some entry

theorem EarlierIn.append {α : Type} {all list first : List α} (h : EarlierIn all list)
    (hfirst : first <+: all) : EarlierIn all (list ++ first) := by
  intro i entry hentry
  by_cases hi : i < list.length
  · rw [List.getElem?_append_left hi] at hentry
    exact h i entry hentry
  · rw [List.getElem?_append_right (by omega)] at hentry
    refine ⟨i - list.length, by omega, ?_⟩
    obtain ⟨rest, rfl⟩ := hfirst
    rw [List.getElem?_append_left (List.getElem?_eq_some_iff.mp hentry).1, hentry]

/-- How many of the defined files the rows refer to: up to the last one. -/
def filesNeeded (header : Nat) (rows : List LineEntry) : Nat :=
  (rows.map fun row => (row.fileIndex - 1).toNat + 1 - header).foldr max 0

theorem foldr_max_le {values : List Nat} {bound : Nat} :
    values.foldr max 0 ≤ bound ↔ ∀ value ∈ values, value ≤ bound := by
  induction values with
  | nil => simp
  | cons value rest ih => simp [ih]

/-- The first query that defines files defines all that are needed. -/
def Settles (needed : Nat) : LineTable → List LineQuery → Prop
  | _, [] => True
  | table, query :: rest =>
      match query.run table with
      | .error _ => False
      | .ok after =>
          if after.fileNames.length = table.fileNames.length then Settles needed after rest
          else needed ≤ after.fileNames.length - table.fileNames.length

instance decidableSettles (needed : Nat) :
    (table : LineTable) → (history : List LineQuery) → Decidable (Settles needed table history)
  | _, [] => inferInstanceAs (Decidable True)
  | table, query :: rest =>
      match hrun : query.run table with
      | .error _ => decidable_of_iff False (by rw [Settles, hrun])
      | .ok after =>
          have := decidableSettles needed after rest
          decidable_of_iff (if after.fileNames.length = table.fileNames.length then
            Settles needed after rest
          else needed ≤ after.fileNames.length - table.fileNames.length) (by rw [Settles, hrun])

section History

variable {table : LineTable} {it : LineIterator} {stops : List LineIterator}
  {files : List LineFile}

theorem executeUntilRow_withFiles (files : List LineFile) (rounds : Nat) (it : LineIterator)
    (pos : Nat) : (table.withFiles files).executeUntilRow rounds it pos =
      table.executeUntilRow rounds it pos := by
  induction rounds generalizing it pos with
  | zero => rfl
  | succ rounds ih =>
      simp only [LineTable.executeUntilRow, ih]
      rfl

theorem Stops.withFiles (h : Stops table it stops) (files : List LineFile) :
    Stops (table.withFiles files) it stops := by
  induction h with
  | done hpos => exact .done hpos
  | row hpos hinside hrun rest ih =>
      exact .row hpos hinside ((executeUntilRow_withFiles files _ _ _).trans hrun) ih

/-- The files defined up to a stop are the first of those defined in all. -/
theorem Stops.fileNames_grow (h : Stops table it stops) :
    it.fileNames <+: (stops.getLastD it).fileNames ∧
      ∀ stop ∈ stops, stop.fileNames <+: (stops.getLastD it).fileNames := by
  induction h with
  | done hpos => exact ⟨List.prefix_refl _, fun stop hstop => by cases hstop⟩
  | row hpos hinside hrun rest ih =>
      rw [List.getLastD_cons]
      refine ⟨(executeUntilRow_extends hrun).trans ih.1, fun stop hstop => ?_⟩
      rcases List.mem_cons.mp hstop with rfl | hrest
      · exact ih.1
      · exact ih.2 stop hrest

theorem Stops.stopAfter_extends (h : Stops table it stops) (n : Nat) :
    (stopAfter it stops n).fileNames <+: (stops.getLastD it).fileNames := by
  have hmem : stopAfter it stops n ∈ it :: stops := by
    refine List.mem_of_mem_take (i := n + 1) ?_
    rw [List.take_succ_cons]
    exact List.getLastD_mem_cons
  rcases List.mem_cons.mp hmem with heq | hstop
  · rw [heq]
    exact h.fileNames_grow.1
  · exact h.fileNames_grow.2 _ hstop

theorem Resolves.append (h : Resolves files stops) (later : List LineFile) :
    Resolves (files ++ later) stops := by
  intro stop hstop
  have hlookup : (files ++ stop.fileNames)[(stop.current.fileIndex - 1).toNat]? ≠ none :=
    h stop hstop
  change (files ++ later ++ stop.fileNames)[(stop.current.fileIndex - 1).toNat]? ≠ none
  rw [ne_eq, List.getElem?_eq_none_iff] at hlookup ⊢
  simp only [List.length_append] at hlookup ⊢
  omega

/-- A query defines some of the files, from the first on. -/
theorem LineQuery.run_withFiles (query : LineQuery) (hstops : Stops table table.origin stops)
    (hresolves : Resolves files stops) (hlength : stops.length ≤ table.data.length + 1) :
    ∃ defined, defined <+: (stops.getLastD table.origin).fileNames ∧
      query.run (table.withFiles files) = .ok (table.withFiles (files ++ defined)) := by
  obtain ⟨n, hrun⟩ := query.run_of_stops (hstops.withFiles files) hresolves hlength
  exact ⟨_, hstops.stopAfter_extends n, hrun⟩

theorem performQueries_withFiles (history : List LineQuery)
    (hstops : Stops table table.origin stops) (hresolves : Resolves files stops)
    (hlength : stops.length ≤ table.data.length + 1) {before : List LineFile}
    (hbefore : EarlierIn (stops.getLastD table.origin).fileNames before) :
    ∃ defined, EarlierIn (stops.getLastD table.origin).fileNames defined ∧
      performQueries history (table.withFiles (files ++ before)) =
        .ok (table.withFiles (files ++ defined)) := by
  induction history generalizing before with
  | nil => exact ⟨before, hbefore, rfl⟩
  | cons query rest ih =>
      obtain ⟨defined, hdefined, hrun⟩ :=
        query.run_withFiles hstops (hresolves.append before) hlength
      obtain ⟨last, hlast, hperform⟩ := ih (hbefore.append hdefined)
      refine ⟨last, hlast, ?_⟩
      rw [performQueries, hrun, ok_bind, List.append_assoc, hperform]

/-- What a history leaves behind: nothing, or the files that its first defining
query defined and then repetitions. -/
theorem performQueries_settles (history : List LineQuery) (needed : Nat)
    (hstops : Stops table table.origin stops) (hresolves : Resolves files stops)
    (hlength : stops.length ≤ table.data.length + 1) :
    ∃ defined, performQueries history (table.withFiles files) =
        .ok (table.withFiles (files ++ defined)) ∧
      (defined = [] ∧ Settles needed (table.withFiles files) history ∨
        ∃ first rest, first ≠ [] ∧ first <+: (stops.getLastD table.origin).fileNames ∧
          defined = first ++ rest ∧ EarlierIn (stops.getLastD table.origin).fileNames rest ∧
          (Settles needed (table.withFiles files) history ↔ needed ≤ first.length)) := by
  induction history with
  | nil => exact ⟨[], by rw [List.append_nil]; rfl, .inl ⟨rfl, trivial⟩⟩
  | cons query rest ih =>
      obtain ⟨first, hfirst, hrun⟩ := query.run_withFiles hstops hresolves hlength
      by_cases hnone : first = []
      · subst hnone
        rw [List.append_nil] at hrun
        obtain ⟨defined, hperform, hsettles⟩ := ih
        refine ⟨defined, by rw [performQueries, hrun, ok_bind, hperform], ?_⟩
        simp only [Settles, hrun, if_true]
        exact hsettles
      · have hempty : EarlierIn (stops.getLastD table.origin).fileNames [] :=
          fun i entry hentry => by cases hentry
        obtain ⟨later, hlater, hperform⟩ := performQueries_withFiles rest hstops
          (hresolves.append first) hlength hempty
        rw [List.append_nil] at hperform
        refine ⟨first ++ later, ?_, .inr ⟨first, later, hnone, hfirst, rfl, hlater, ?_⟩⟩
        · rw [performQueries, hrun, ok_bind, hperform, List.append_assoc]
        · have hgrown : ¬ (table.withFiles (files ++ first)).fileNames.length =
              (table.withFiles files).fileNames.length := by
            have hpos := List.length_pos_iff.mpr hnone
            simp only [LineTable.withFiles, List.length_append]
            omega
          simp only [Settles, hrun, if_neg hgrown]
          simp [LineTable.withFiles]

/-- The rows of a table, whatever its file table has become. -/
theorem rows_of_stops (hstops : Stops table table.origin stops) (hresolves : Resolves files stops)
    (hlength : stops.length ≤ table.data.length + 1) :
    (table.withFiles files).rows = .ok (stops.map (resolve files)) := by
  have hrows := rowsFrom_of_stops (table.data.length + 2) (hstops.withFiles files)
    (initial_parallel (table.withFiles files)) hresolves (by omega)
  rw [LineTable.rowsFrom, if_neg (by simp [LineTable.initial])] at hrows
  rw [LineTable.rows]
  obtain ⟨first, hfirst, hrest⟩ := bind_eq_ok.mp hrows
  obtain ⟨rows, hlater, hend⟩ := bind_eq_ok.mp hrest
  cases hend
  rw [hfirst, ok_bind]
  exact hlater

/-- A first full iteration passes the stops. -/
theorem stops_of_rows {rows : List LineEntry} (hrows : table.rows = .ok rows) :
    ∃ stops, Stops table table.origin stops ∧ rows = stops.map (resolve table.fileNames) ∧
      Resolves table.fileNames stops ∧ stops.length ≤ table.data.length + 1 := by
  have hall : table.rowsFrom (table.data.length + 2) table.initial = .ok ({} :: rows) := by
    obtain ⟨first, hfirst, hlater⟩ := bind_eq_ok.mp hrows
    rw [LineTable.rowsFrom, if_neg (by simp [LineTable.initial]), hfirst, ok_bind, hlater]
    rfl
  obtain ⟨stops, hstops, hmap, hresolves, hlength⟩ :=
    stops_of_rowsFrom _ (initial_parallel table) (by simp [LineTable.origin]) hall
  exact ⟨stops, hstops, (List.cons.inj hmap).2, hresolves, by omega⟩

/-- A file number means the same behind the files that were defined first, as far
as those reach. -/
theorem resolve_eq {first rest : List LineFile} {stop : LineIterator}
    (hstop : stop.fileNames <+: (stops.getLastD it).fileNames)
    (hfirst : first <+: (stops.getLastD it).fileNames)
    (hfile : (resolve files stop).fileEntry ≠ none)
    (hneeded : (stop.current.fileIndex - 1).toNat + 1 - files.length ≤ first.length) :
    resolve (files ++ (first ++ rest)) stop = resolve files stop := by
  have hlookup : (files ++ stop.fileNames)[(stop.current.fileIndex - 1).toNat]? ≠ none := hfile
  rw [ne_eq, List.getElem?_eq_none_iff, List.length_append] at hlookup
  have hsame : (files ++ (first ++ rest) ++ stop.fileNames)[(stop.current.fileIndex - 1).toNat]? =
      (files ++ stop.fileNames)[(stop.current.fileIndex - 1).toNat]? := by
    generalize (stop.current.fileIndex - 1).toNat = index at hlookup hneeded
    by_cases hheader : index < files.length
    · rw [List.append_assoc, List.getElem?_append_left hheader,
        List.getElem?_append_left hheader]
    · obtain ⟨others, hothers⟩ := hfirst
      obtain ⟨more, hmore⟩ := hstop
      have hboth : (first ++ others)[index - files.length]? =
          (stop.fileNames ++ more)[index - files.length]? := by
        rw [hothers, hmore]
      rw [List.getElem?_append_left (by omega), List.getElem?_append_left (by omega)] at hboth
      rw [List.append_assoc, List.append_assoc, List.getElem?_append_right (by omega),
        List.getElem?_append_left (by omega), hboth, List.getElem?_append_right (by omega)]
  rw [resolve, resolve, withFile, withFile, hsame]

/-- Behind too few of them it means a file that was defined earlier. -/
theorem resolve_ne {first rest : List LineFile} {stop : LineIterator}
    (hstop : stop.fileNames <+: (stops.getLastD it).fileNames) (hnone : first ≠ [])
    (hrest : EarlierIn (stops.getLastD it).fileNames rest)
    (hfile : (resolve files stop).fileEntry ≠ none)
    (hfew : first.length < (stop.current.fileIndex - 1).toNat + 1 - files.length)
    (hdistinct : ((stops.getLastD it).fileNames.map (·.path)).Nodup) :
    (resolve (files ++ (first ++ rest)) stop).fileEntry.map (·.path) ≠
      (resolve files stop).fileEntry.map (·.path) := by
  have hlookup : (files ++ stop.fileNames)[(stop.current.fileIndex - 1).toNat]? ≠ none := hfile
  change Option.map (·.path)
      (files ++ (first ++ rest) ++ stop.fileNames)[(stop.current.fileIndex - 1).toNat]? ≠
    Option.map (·.path) (files ++ stop.fileNames)[(stop.current.fileIndex - 1).toNat]?
  generalize (stop.current.fileIndex - 1).toNat = index at hlookup hfew
  have hpos := List.length_pos_iff.mpr hnone
  rw [ne_eq, List.getElem?_eq_none_iff, List.length_append] at hlookup
  obtain ⟨more, hmore⟩ := hstop
  have hright : (files ++ stop.fileNames)[index]? =
      (stops.getLastD it).fileNames[index - files.length]? := by
    rw [← hmore, List.getElem?_append_right (by omega), List.getElem?_append_left (by omega)]
  have hleft : (files ++ (first ++ rest) ++ stop.fileNames)[index]? =
      (rest ++ stop.fileNames)[index - files.length - first.length]? := by
    rw [List.append_assoc, List.getElem?_append_right (by omega), List.append_assoc,
      List.getElem?_append_right (by omega)]
  obtain ⟨entry, hentry⟩ : ∃ entry,
      (rest ++ stop.fileNames)[index - files.length - first.length]? = some entry := by
    refine ⟨_, List.getElem?_eq_getElem ?_⟩
    rw [List.length_append]
    omega
  obtain ⟨j, hj, hearlier⟩ := hrest.append ⟨more, hmore⟩ _ entry hentry
  intro heq
  rw [hleft, hentry, ← hearlier, hright, ← List.getElem?_map, ← List.getElem?_map] at heq
  have hlt : j < ((stops.getLastD it).fileNames.map (·.path)).length := by
    rw [List.length_map]
    exact (List.getElem?_eq_some_iff.mp hearlier).1
  have hsame := (List.getElem?_inj hlt hdistinct).mp heq
  omega

end History

/-- The files that a full iteration over a newly parsed table defines. -/
def LineTable.definedFiles (table : LineTable) : Except Failure (List LineFile) := do
  let it ← table.walk (table.data.length + 1)
  pure (it.fileNames.drop table.fileNames.length)

/-- What a row shows: its registers and the path of its file. -/
def LineEntry.shown (row : LineEntry) : LineEntry × Option (List Byte) :=
  ({ row with fileEntry := none }, row.fileEntry.map (·.path))

theorem definedFiles_of_stops {table : LineTable} {stops : List LineIterator}
    (hstops : Stops table table.origin stops) (hresolves : Resolves table.fileNames stops)
    (hlength : stops.length ≤ table.data.length + 1) :
    table.definedFiles = .ok (stops.getLastD table.origin).fileNames := by
  obtain ⟨last, hlast, hfiles⟩ := advanceBy_of_stops (table.data.length + 2) hstops
    (initial_parallel table) hresolves
  rw [LineTable.definedFiles, walk_eq, hlast, ok_bind, hfiles, List.drop_left, stopAfter,
    List.take_of_length_le (by omega)]
  rfl

/-- After any history of queries a full iteration yields the rows of the first
one, if the first query that defined files defined all that the rows refer to;
and if the defined files have different paths, only then. -/
theorem rows_independent_iff_settles (table : LineTable) (rows : List LineEntry)
    (history : List LineQuery) (hrows : table.rows = .ok rows) :
    ∃ after, performQueries history table = .ok after ∧
      (Settles (filesNeeded table.fileNames.length rows) table history →
        after.rows = .ok rows) ∧
      ∀ defined, table.definedFiles = .ok defined → (defined.map (·.path)).Nodup →
        ((∃ rows', after.rows = .ok rows' ∧
            rows'.map LineEntry.shown = rows.map LineEntry.shown) ↔
          Settles (filesNeeded table.fileNames.length rows) table history) := by
  obtain ⟨stops, hstops, rfl, hresolves, hlength⟩ := stops_of_rows hrows
  obtain ⟨later, hperform, hleft⟩ := performQueries_settles history
    (filesNeeded table.fileNames.length (stops.map (resolve table.fileNames))) hstops hresolves
    hlength
  have hafter := rows_of_stops hstops (hresolves.append later) hlength
  have hsufficient : Settles (filesNeeded table.fileNames.length
      (stops.map (resolve table.fileNames))) table history →
      (table.withFiles (table.fileNames ++ later)).rows =
        .ok (stops.map (resolve table.fileNames)) := by
    intro hsettles
    rw [hafter]
    rcases hleft with ⟨rfl, -⟩ | ⟨first, rest, -, hfirst, rfl, -, hneeded⟩
    · rw [List.append_nil]
    · refine congrArg Except.ok (List.map_congr_left fun stop hstop => ?_)
      have hbound := foldr_max_le.mp (hneeded.mp hsettles)
      refine resolve_eq (hstops.fileNames_grow.2 stop hstop) hfirst (hresolves stop hstop)
        (hbound _ ?_)
      exact List.mem_map.mpr ⟨_, List.mem_map_of_mem hstop, rfl⟩
  refine ⟨_, hperform, hsufficient, fun defined hdefined hdistinct =>
    ⟨?_, fun hsettles => ⟨_, hsufficient hsettles, rfl⟩⟩⟩
  rintro ⟨rows', hrows', hshown⟩
  rw [definedFiles_of_stops hstops hresolves hlength] at hdefined
  cases hdefined
  rw [hafter] at hrows'
  cases hrows'
  rcases hleft with ⟨-, hsettles⟩ | ⟨first, rest, hsome, -, rfl, hrest, hneeded⟩
  · exact hsettles
  · refine hneeded.mpr (foldr_max_le.mpr fun value hvalue => ?_)
    obtain ⟨row, hrow, rfl⟩ := List.mem_map.mp hvalue
    obtain ⟨stop, hstop, rfl⟩ := List.mem_map.mp hrow
    rw [List.map_map, List.map_map] at hshown
    have hsame := List.map_inj_left.mp hshown stop hstop
    by_contra hfew
    exact resolve_ne (hstops.fileNames_grow.2 stop hstop) hsome hrest (hresolves stop hstop)
      (Nat.lt_of_not_le hfew) hdistinct (congrArg Prod.snd hsame)

namespace LineHistoryWitness

/-- A program that defines `/a`, emits a row, defines `/b` and emits a row that
refers to it, as the end of its sequence. -/
def program : List Byte :=
  [0x00, 0x07, 0x03, 0x2f, 0x61, 0x00, 0x00, 0x00, 0x00, 0x01,
   0x00, 0x07, 0x03, 0x2f, 0x62, 0x00, 0x00, 0x00, 0x00, 0x04, 0x03, 0x00, 0x01, 0x01]

def table : LineTable where
  data := program
  compilationDir := []
  defaultIsStmt := true
  lineBase := 0xfb
  lineRange := 14
  opcodeBase := 13
  includeDirs := []
  fileNames := [⟨[0x2f, 0x6d], 0, 0⟩]

/-- The rows of the first iteration. -/
def firstRows : List LineEntry :=
  [{ isStmt := true, fileEntry := some ⟨[0x2f, 0x6d], 0, 0⟩ },
   { fileIndex := 3, isStmt := true, endSequence := true,
     fileEntry := some ⟨[0x2f, 0x62], 0, 0⟩ }]

theorem table_rows : table.rows = .ok firstRows := by decide +kernel

/-- A complete iteration in between changes nothing. -/
theorem rows_independent_iff_settles_complete : ∃ after,
    performQueries [.getEntriesByLine [0x62] 1] table = .ok after ∧
      after.rows = .ok firstRows := by
  obtain ⟨after, hperform, hsufficient, -⟩ :=
    rows_independent_iff_settles table firstRows [.getEntriesByLine [0x62] 1] table_rows
  exact ⟨after, hperform, hsufficient (by decide +kernel)⟩

/-- The table after `begin()` alone. -/
def begun : LineTable := table.withFiles (table.fileNames ++ [⟨[0x2f, 0x61], 0, 0⟩])

/-- After `begin()` alone the second row refers to `/a` where it referred to
`/b`. -/
theorem rows_not_independent :
    ¬ ∀ (table after : LineTable) (rows : List LineEntry) (history : List LineQuery),
      table.rows = .ok rows → performQueries history table = .ok after →
      ∃ rows', after.rows = .ok rows' ∧
        rows'.map LineEntry.shown = rows.map LineEntry.shown := by
  intro hall
  obtain ⟨rows', hrows', hshown⟩ :=
    hall table begun firstRows [.walk 0] table_rows (by decide +kernel)
  have hbegun : begun.rows.map (fun rows => rows.map LineEntry.shown) ≠
      .ok (firstRows.map LineEntry.shown) := by
    decide +kernel
  rw [hrows'] at hbegun
  exact hbegun (congrArg Except.ok hshown)

end LineHistoryWitness

end Gsdb
