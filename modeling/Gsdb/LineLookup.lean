/-
Looking up rows of the line table.  An address is looked up by the first two rows
around it of which the first does not end a sequence; where the rows are sequences
with disjoint ranges, these are rows of one sequence and the only ones.  A line is
looked up among all rows, those that end a sequence included.
-/
import Gsdb.AdjacentPairs
import Gsdb.LineTable

namespace Gsdb

open AdjacentPairs ByteMemory

/-- An address from a row on and in front of the next one. -/
def LineEntry.Around (address : Word) (row next : LineEntry) : Prop :=
  row.address ≤ address ∧ address < next.address ∧ row.endSequence = false

instance (address : Word) : DecidableRel (LineEntry.Around address) :=
  fun _ _ => inferInstanceAs (Decidable (_ ∧ _))

/-- A sequence: addresses that do not decrease, up to a row that ends it. -/
structure IsSequence (rows : List LineEntry) : Prop where
  sorted : rows.Pairwise fun row later => row.address ≤ later.address
  ended : ∃ body last, rows = body ++ [last] ∧ last.endSequence = true

/-- The addresses of a sequence, from its first row up to the one that ends it. -/
def InSequence (rows : List LineEntry) (address : Word) : Prop :=
  ∃ first last, rows.head? = some first ∧ rows.getLast? = some last ∧
    first.address ≤ address ∧ address < last.address

/-- The row of a sequence for an address: the address lies between the row and the
next one, and the row is the last at its own address. -/
def IsRowFor (sequence : List LineEntry) (address : Word) (row : LineEntry) : Prop :=
  ∃ before next after, sequence = before ++ row :: next :: after ∧ row.endSequence = false ∧
    row.address ≤ address ∧ address < next.address ∧
    ∀ later ∈ next :: after, later.address ≠ row.address

/-- The rows that iterating from an iterator visits. -/
inductive Visits (table : LineTable) : LineIterator → List LineEntry → Prop where
  | done {it : LineIterator} (hpos : it.pos = none) : Visits table it []
  | row {it next : LineIterator} {rows : List LineEntry} (hpos : it.pos ≠ none)
      (hadvance : table.advance it = .ok next) (hrest : Visits table next rows) :
      Visits table it (it.current :: rows)

section Walks

variable {table : LineTable} {it : LineIterator} {rows : List LineEntry} {rounds : Nat}

theorem rowsFrom_visits (h : table.rowsFrom rounds it = .ok rows) :
    Visits table it rows ∧ rows.length ≤ rounds := by
  induction rounds generalizing it rows with
  | zero =>
      rw [LineTable.rowsFrom] at h
      split at h
      · rename_i hpos
        cases h
        exact ⟨.done hpos, Nat.le_refl _⟩
      · cases h
  | succ rounds ih =>
      rw [LineTable.rowsFrom] at h
      split at h
      · rename_i hpos
        cases h
        exact ⟨.done hpos, Nat.zero_le _⟩
      · rename_i hpos
        obtain ⟨next, hadvance, h⟩ := bind_eq_ok.mp h
        obtain ⟨rest, hrest, h⟩ := bind_eq_ok.mp h
        cases h
        obtain ⟨hvisits, hlength⟩ := ih hrest
        exact ⟨.row hpos hadvance hvisits, Nat.succ_le_succ hlength⟩

/-- What a lookup by address returns: nothing, or the first of two neighbours
around the address, with the second one behind it. -/
def LooksUp (table : LineTable) (address : Word) (rows : List LineEntry) :
    Option LineIterator → Prop
  | none => firstPair (LineEntry.Around address) rows = none
  | some it => ∃ next, table.advance it = .ok next ∧ next.pos ≠ none ∧
      firstPair (LineEntry.Around address) rows = some (it.current, next.current)

theorem LooksUp.current_eq_some_iff {address : Word} {found : Option LineIterator} {row : LineEntry}
    (h : LooksUp table address rows found) :
    found.map LineIterator.current = some row ↔
      ∃ next, firstPair (LineEntry.Around address) rows = some (row, next) := by
  cases found with
  | none =>
      have hnone : firstPair (LineEntry.Around address) rows = none := h
      simp [hnone]
  | some it =>
      obtain ⟨next, -, -, hpair⟩ := h
      simp [hpair]

theorem entryByAddressLoop_row {prev : LineIterator} (address : Word) (hpos : it.pos ≠ none) :
    table.entryByAddressLoop address (rounds + 1) prev it =
      if LineEntry.Around address prev.current it.current then .ok (some prev, it)
      else table.advance it >>= table.entryByAddressLoop address rounds it := by
  rw [LineTable.entryByAddressLoop, if_neg hpos]
  rfl

theorem entryByAddressLoop_looksUp {prev : LineIterator} (address : Word)
    (h : Visits table it rows) (hprev : table.advance prev = .ok it)
    (hrounds : rows.length < rounds) :
    ∃ found last, table.entryByAddressLoop address rounds prev it = .ok (found, last) ∧
      LooksUp table address (prev.current :: rows) found := by
  induction h generalizing prev rounds with
  | @done it hpos =>
      obtain ⟨rounds, rfl⟩ := Nat.exists_eq_add_of_lt hrounds
      rw [LineTable.entryByAddressLoop, if_pos hpos]
      exact ⟨none, it, rfl, rfl⟩
  | @row it next rows hpos hadvance hrest ih =>
      obtain ⟨rounds, rfl⟩ : ∃ k, rounds = k + 1 := ⟨rounds - 1, by omega⟩
      rw [entryByAddressLoop_row address hpos]
      by_cases haround : LineEntry.Around address prev.current it.current
      · rw [if_pos haround]
        refine ⟨some prev, it, rfl, it, hprev, hpos, ?_⟩
        rw [firstPair_cons_cons, if_pos haround]
      · rw [if_neg haround, hadvance, ok_bind]
        obtain ⟨found, last, hloop, hfound⟩ := ih hadvance (Nat.lt_of_succ_lt_succ hrounds)
        refine ⟨found, last, hloop, ?_⟩
        cases found with
        | none =>
            change firstPair _ _ = none
            rw [firstPair_cons_cons, if_neg haround]
            exact hfound
        | some entry =>
            obtain ⟨behind, hbehind, hinside, hpair⟩ := hfound
            refine ⟨behind, hbehind, hinside, ?_⟩
            rw [firstPair_cons_cons, if_neg haround]
            exact hpair

/-- `get_entry_by_address` returns the first neighbours around the address. -/
theorem getEntryByAddress_looksUp (address : Word) (hrows : table.rows = .ok rows) :
    ∃ found last, table.getEntryByAddress address = .ok (found, last) ∧
      LooksUp table address rows found := by
  obtain ⟨first, hfirst, hrest⟩ := bind_eq_ok.mp hrows
  obtain ⟨hvisits, hlength⟩ := rowsFrom_visits hrest
  rw [LineTable.getEntryByAddress, hfirst, ok_bind]
  cases hvisits with
  | done hpos =>
      rw [if_pos hpos]
      exact ⟨none, first, rfl, rfl⟩
  | row hpos hadvance hvisits =>
      rw [if_neg hpos, hadvance, ok_bind]
      exact entryByAddressLoop_looksUp address hvisits hadvance hlength

theorem entriesByLineLoop_filter (path : List Byte) (line : Word) (h : Visits table it rows)
    (hrounds : rows.length < rounds) :
    ∃ entries last, table.entriesByLineLoop path line rounds it = .ok (entries, last) ∧
      entries.map LineIterator.current = rows.filter (LineTable.selectsRow path line) := by
  induction h generalizing rounds with
  | @done it hpos =>
      obtain ⟨rounds, rfl⟩ := Nat.exists_eq_add_of_lt hrounds
      rw [LineTable.entriesByLineLoop, if_pos hpos]
      exact ⟨[], it, rfl, rfl⟩
  | @row it next rows hpos hadvance _ ih =>
      obtain ⟨rounds, rfl⟩ : ∃ k, rounds = k + 1 := ⟨rounds - 1, by omega⟩
      obtain ⟨entries, last, hloop, hentries⟩ := ih (Nat.lt_of_succ_lt_succ hrounds)
      rw [LineTable.entriesByLineLoop, if_neg hpos, hadvance, ok_bind, hloop]
      refine ⟨_, last, rfl, ?_⟩
      rw [List.filter_cons]
      split
      · rw [List.map_cons, hentries]
      · exact hentries

/-- `get_entries_by_line` returns the rows with the line, of a file that matches the
path. -/
theorem getEntriesByLine_filter (path : List Byte) (line : Word) (hrows : table.rows = .ok rows) :
    ∃ entries last, table.getEntriesByLine path line = .ok (entries, last) ∧
      entries.map LineIterator.current = rows.filter (LineTable.selectsRow path line) := by
  obtain ⟨first, hfirst, hrest⟩ := bind_eq_ok.mp hrows
  obtain ⟨hvisits, hlength⟩ := rowsFrom_visits hrest
  rw [LineTable.getEntriesByLine, hfirst, ok_bind]
  exact entriesByLineLoop_filter path line hvisits (Nat.lt_succ_of_le hlength)

end Walks

section Sequences

variable {sequence : List LineEntry} {address : Word} {row next : LineEntry}

/-- In a sequence the search finds the row for the address. -/
theorem IsSequence.isRowFor_iff (h : IsSequence sequence) :
    IsRowFor sequence address row ↔
      ∃ next, firstPair (LineEntry.Around address) sequence = some (row, next) := by
  constructor
  · rintro ⟨before, next, after, hsplit, hend, hlow, hhigh, -⟩
    have hsorted : sequence.Pairwise fun row later => row.address.toNat ≤ later.address.toNat :=
      h.sorted
    have haround : ∀ row next : LineEntry, LineEntry.Around address row next →
        row.address.toNat ≤ address.toNat ∧ address.toNat < next.address.toNat :=
      fun _ _ haround => ⟨haround.1, haround.2.1⟩
    exact ⟨next, firstPair_eq_of_sorted hsorted haround hsplit ⟨hlow, hhigh, hend⟩⟩
  · rintro ⟨next, hfound⟩
    obtain ⟨⟨hlow, hhigh, hend⟩, before, after, rfl⟩ := firstPair_eq_some hfound
    refine ⟨before, next, after, rfl, hend, hlow, hhigh, ?_⟩
    intro later hlater heq
    have hsorted := (List.pairwise_append.mp h.sorted).2.1
    have hnext : next.address ≤ later.address := by
      rcases List.mem_cons.mp hlater with rfl | hmem
      · exact BitVec.le_refl _
      · exact (List.pairwise_cons.mp (List.pairwise_cons.mp hsorted).2).1 later hmem
    rw [heq] at hnext
    exact absurd (Nat.lt_of_lt_of_le hhigh hnext) (Nat.not_lt.mpr hlow)

/-- An address with a row in a sequence is one of the sequence. -/
theorem IsSequence.inSequence (h : IsSequence sequence)
    (hfound : firstPair (LineEntry.Around address) sequence ≠ none) :
    InSequence sequence address := by
  obtain ⟨⟨row, next⟩, hpair⟩ := Option.ne_none_iff_exists'.mp hfound
  obtain ⟨⟨hlow, hhigh, -⟩, before, after, hsplit⟩ := firstPair_eq_some hpair
  have hrow : row ∈ sequence := by
    rw [hsplit]
    simp
  have hnext : next ∈ sequence := by
    rw [hsplit]
    simp
  obtain ⟨body, last, hended, -⟩ := h.ended
  have hlast : next.address ≤ last.address := by
    rw [hended] at hnext
    rcases List.mem_append.mp hnext with hmem | hmem
    · have hsorted := h.sorted
      rw [hended] at hsorted
      exact (List.pairwise_append.mp hsorted).2.2 next hmem last List.mem_cons_self
    · obtain rfl := List.mem_singleton.mp hmem
      exact BitVec.le_refl _
  cases sequence with
  | nil => cases hrow
  | cons first rest =>
      have hfirst : first.address ≤ row.address := by
        rcases List.mem_cons.mp hrow with rfl | hmem
        · exact BitVec.le_refl _
        · exact (List.pairwise_cons.mp h.sorted).1 row hmem
      refine ⟨first, last, rfl, ?_, BitVec.le_trans hfirst hlow, Nat.lt_of_lt_of_le hhigh hlast⟩
      rw [hended]
      exact List.getLast?_concat

/-- In sequences with disjoint ranges the search finds the rows of one of them. -/
theorem firstPair_sequences {sequences : List (List LineEntry)}
    (hsequences : ∀ sequence ∈ sequences, IsSequence sequence)
    (hdisjoint : sequences.Pairwise fun sequence other =>
      ∀ address, ¬ (InSequence sequence address ∧ InSequence other address))
    (found : LineEntry × LineEntry) :
    firstPair (LineEntry.Around address) sequences.flatten = some found ↔
      ∃ sequence ∈ sequences, firstPair (LineEntry.Around address) sequence = some found := by
  have hended : ∀ sequence ∈ sequences, ∃ body last, sequence = body ++ [last] ∧
      ∀ next, ¬ LineEntry.Around address last next := by
    intro sequence hmem
    obtain ⟨body, last, hsplit, hend⟩ := (hsequences sequence hmem).ended
    refine ⟨body, last, hsplit, fun next haround => ?_⟩
    rw [haround.2.2] at hend
    cases hend
  have hone : sequences.Pairwise fun sequence other =>
      firstPair (LineEntry.Around address) sequence = none ∨
        firstPair (LineEntry.Around address) other = none := by
    refine hdisjoint.imp_of_mem fun {sequence other} hsequence hother hapart => ?_
    by_contra hboth
    rw [not_or] at hboth
    exact hapart address ⟨(hsequences sequence hsequence).inSequence hboth.1,
      (hsequences other hother).inSequence hboth.2⟩
  exact firstPair_flatten hended hone found

end Sequences

/-- The lookup by address returns the row for the address of the sequence that has
one, and the end exactly if none has. -/
theorem getEntryByAddress_isRowFor (table : LineTable) (rows : List LineEntry)
    (sequences : List (List LineEntry)) (address : Word) (hrows : table.rows = .ok rows)
    (hflatten : rows = sequences.flatten) (hsequences : ∀ sequence ∈ sequences, IsSequence sequence)
    (hdisjoint : sequences.Pairwise fun sequence other =>
      ∀ address, ¬ (InSequence sequence address ∧ InSequence other address)) :
    ∃ found last, table.getEntryByAddress address = .ok (found, last) ∧
      (∀ row, found.map LineIterator.current = some row ↔
        ∃ sequence ∈ sequences, IsRowFor sequence address row) ∧
      (found = none ↔ ∀ sequence ∈ sequences, ∀ row, ¬ IsRowFor sequence address row) := by
  obtain ⟨found, last, hget, hfound⟩ := getEntryByAddress_looksUp address hrows
  have hiff : ∀ row, found.map LineIterator.current = some row ↔
      ∃ sequence ∈ sequences, IsRowFor sequence address row := by
    intro row
    rw [hfound.current_eq_some_iff, hflatten]
    simp only [firstPair_sequences hsequences hdisjoint]
    constructor
    · rintro ⟨next, sequence, hmem, hpair⟩
      exact ⟨sequence, hmem, (hsequences sequence hmem).isRowFor_iff.mpr ⟨next, hpair⟩⟩
    · rintro ⟨sequence, hmem, hrow⟩
      obtain ⟨next, hpair⟩ := (hsequences sequence hmem).isRowFor_iff.mp hrow
      exact ⟨next, sequence, hmem, hpair⟩
  refine ⟨found, last, hget, hiff, ?_⟩
  constructor
  · rintro rfl sequence hmem row hrow
    cases (hiff row).mpr ⟨sequence, hmem, hrow⟩
  · intro hnone
    cases found with
    | none => rfl
    | some it =>
        obtain ⟨sequence, hmem, hrow⟩ := (hiff it.current).mp rfl
        exact absurd hrow (hnone sequence hmem it.current)

namespace LineLookupWitness

/-- A program of two sequences, the one with the higher addresses first. -/
def program : List Byte :=
  [0x00, 0x09, 0x02, 0x00, 0x20, 0, 0, 0, 0, 0, 0, 0x01, 0x02, 0x10, 0x00, 0x01, 0x01,
   0x00, 0x09, 0x02, 0x00, 0x10, 0, 0, 0, 0, 0, 0, 0x01, 0x03, 0x01, 0x01, 0x02, 0x08, 0x01,
   0x02, 0x08, 0x00, 0x01, 0x01]

def file : LineFile := ⟨[0x2f, 0x61], 0, 0⟩

def table : LineTable where
  data := program
  compilationDir := []
  defaultIsStmt := true
  lineBase := 0xfb
  lineRange := 14
  opcodeBase := 13
  includeDirs := []
  fileNames := [file]

def rowAt (address line : Word) : LineEntry :=
  { address := address, line := line, isStmt := true, fileEntry := some file }

def upper : List LineEntry := [rowAt 0x2000 1, { rowAt 0x2010 1 with endSequence := true }]

/-- Two rows are at the first address. -/
def lower : List LineEntry :=
  [rowAt 0x1000 1, rowAt 0x1000 2, rowAt 0x1008 2, { rowAt 0x1010 2 with endSequence := true }]

theorem isSequence_of_mem : ∀ sequence ∈ [upper, lower], IsSequence sequence := by
  intro sequence hmem
  rcases List.mem_cons.mp hmem with rfl | hmem
  · exact ⟨by decide, [rowAt 0x2000 1], _, rfl, rfl⟩
  · obtain rfl := List.mem_singleton.mp hmem
    exact ⟨by decide, [rowAt 0x1000 1, rowAt 0x1000 2, rowAt 0x1008 2], _, rfl, rfl⟩

theorem disjoint : [upper, lower].Pairwise fun sequence other =>
    ∀ address, ¬ (InSequence sequence address ∧ InSequence other address) := by
  rw [List.pairwise_pair]
  rintro address ⟨⟨first, _, hfirst, -, hlow, -⟩, ⟨_, last, -, hlast, -, hhigh⟩⟩
  obtain rfl := Option.some.inj hfirst
  obtain rfl := Option.some.inj hlast
  have hlow : 0x2000 ≤ address.toNat := hlow
  have hhigh : address.toNat < 0x1010 := hhigh
  omega

/-- The second of the rows at an address is the one for it. -/
theorem getEntryByAddress_isRowFor_lower : ∃ found last,
    table.getEntryByAddress 0x1004 = .ok (found, last) ∧
      found.map LineIterator.current = some (rowAt 0x1000 2) := by
  obtain ⟨found, last, hget, hrow, -⟩ := getEntryByAddress_isRowFor table [upper, lower].flatten
    [upper, lower] 0x1004 (by decide +kernel) rfl isSequence_of_mem disjoint
  refine ⟨found, last, hget, (hrow _).mpr ⟨lower, by simp, ?_⟩⟩
  exact ⟨[rowAt 0x1000 1], rowAt 0x1008 2, [{ rowAt 0x1010 2 with endSequence := true }], rfl, rfl,
    by decide, by decide, by decide⟩

end LineLookupWitness

end Gsdb
