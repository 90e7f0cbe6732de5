/-
Line tables: parsing the header of a line number program and iterating over
the rows it describes.  The iterator executes instructions until one of them
emits a row; the file table is shared and grows when an instruction defines a
file.
-/
import Gsdb.Failure

namespace Gsdb

open ByteMemory ByteCursor

/-- `line_table::file`; a path is its bytes. -/
structure LineFile where
  path : List Byte
  modificationTime : Word
  fileLength : Word
deriving DecidableEq, Repr

/-- `line_table::entry`: the registers of the state machine, and a row. -/
structure LineEntry where
  address : Word := 0
  fileIndex : Word := 1
  line : Word := 1
  column : Word := 0
  isStmt : Bool := false
  basicBlockStart : Bool := false
  endSequence : Bool := false
  prologueEnd : Bool := false
  epilogueBegin : Bool := false
  discriminator : Word := 0
  fileEntry : Option LineFile := none
deriving DecidableEq, Repr

structure LineTable where
  data : List Byte
  compilationDir : List Byte
  defaultIsStmt : Bool
  lineBase : BitVec 8
  lineRange : BitVec 8
  opcodeBase : BitVec 8
  includeDirs : List (List Byte)
  fileNames : List LineFile
deriving DecidableEq, Repr

/-- `path / path` with a relative right-hand side. -/
def joinPath (dir file : List Byte) : List Byte :=
  match dir.getLast? with
  | none => file
  | some 0x2f => dir ++ file
  | some _ => dir ++ 0x2f :: file

/-- The path of a file entry.  An empty name has no first character, and an
index past the include directories no directory. -/
def linePath (compilationDir : List Byte) (includeDirs : List (List Byte)) (file : List Byte)
    (dirIndex : Word) : Except Failure (List Byte) :=
  match file with
  | [] => .error (.undefined "first character of an empty string")
  | first :: _ =>
      if first = 0x2f then .ok file
      else if dirIndex = 0 then .ok (joinPath compilationDir file)
      else
        match includeDirs[(dirIndex - 1).toNat]? with
        | some dir => .ok (joinPath dir file)
        | none => .error (.undefined "include directory out of range")

def parseLineTableFile (cur : Cursor) (compilationDir : List Byte)
    (includeDirs : List (List Byte)) : Except Failure (LineFile × Cursor) := do
  let (file, cur) := cur.string
  let (dirIndex, cur) ← inBounds cur.uleb128
  let (modificationTime, cur) ← inBounds cur.uleb128
  let (fileLength, cur) ← inBounds cur.uleb128
  let path ← linePath compilationDir includeDirs file dirIndex
  pure (⟨path, modificationTime, fileLength⟩, cur)

/-- The numbers of operands of the standard opcodes 1 to 12. -/
def expectedOpcodeLens : List Byte := [0, 1, 1, 1, 1, 0, 0, 0, 1, 0, 0, 1]

/-- The loop that compares the declared operand counts with the expected ones,
from opcode `i + 1` on. -/
def checkOpcodeLens (cur : Cursor) (i : Nat) : Nat → Except Failure Cursor
  | 0 => .ok cur
  | n + 1 => do
      let (len, cur) ← inBounds cur.u8
      let expected ← inBounds expectedOpcodeLens[i]?
      require (len = expected) "Unexpected opcode length!"
      checkOpcodeLens cur (i + 1) n

/-- Include directories up to the empty string. -/
def parseIncludeDirs (compilationDir : List Byte) :
    Nat → Cursor → Except Failure (List (List Byte) × Cursor)
  | 0, _ => .error (.undefined "read outside the buffer")
  | rounds + 1, cur => do
      let (dir, cur) := cur.string
      match dir with
      | [] => pure ([], cur)
      | first :: _ =>
          let path := if first = 0x2f then dir else joinPath compilationDir dir
          let (dirs, cur) ← parseIncludeDirs compilationDir rounds cur
          pure (path :: dirs, cur)

/-- File entries up to a null byte, which is passed over. -/
def parseFileNames (compilationDir : List Byte) (includeDirs : List (List Byte)) :
    Nat → Cursor → Except Failure (List LineFile × Cursor)
  | 0, _ => .error (.undefined "read outside the buffer")
  | rounds + 1, cur => do
      let (first, _) ← inBounds cur.u8
      if first = 0 then pure ([], cur.advance 1)
      else
        let (file, cur) ← parseLineTableFile cur compilationDir includeDirs
        let (files, cur) ← parseFileNames compilationDir includeDirs rounds cur
        pure (file :: files, cur)

/-- What a compile unit gives to `parse_line_table`: the contents of
`.debug_line`, its `DW_AT_stmt_list` and its `DW_AT_comp_dir`. -/
structure LineUnit where
  section_ : List Byte
  stmtList : Option Nat
  compDir : List Byte

def parseLineTable (cu : LineUnit) : Except Failure (Option LineTable) :=
  match cu.stmtList with
  | none => .ok none
  | some offset => do
      let (size, cur) ← inBounds (Cursor.mk cu.section_ offset).u32
      let tableEnd := cur.pos + size.toNat
      let (version, cur) ← inBounds cur.u16
      require (version = 4) "Only DWARF 4 is supported!"
      let (_, cur) ← inBounds cur.u32
      let (minInstructionLen, cur) ← inBounds cur.u8
      require (minInstructionLen = 1) "Invalid minimum instruction length!"
      let (maxOpsPerInstruction, cur) ← inBounds cur.u8
      require (maxOpsPerInstruction = 1) "Invalid max operations per instruction!"
      let (defaultIsStmt, cur) ← inBounds cur.u8
      let (lineBase, cur) ← inBounds cur.u8
      let (lineRange, cur) ← inBounds cur.u8
      let (opcodeBase, cur) ← inBounds cur.u8
      let cur ← checkOpcodeLens cur 0 (opcodeBase.toNat - 1)
      let rounds := cu.section_.length
      let (includeDirs, cur) ← parseIncludeDirs cu.compDir rounds cur
      let (fileNames, cur) ← parseFileNames cu.compDir includeDirs rounds cur
      if cur.pos ≤ tableEnd ∧ tableEnd ≤ cu.section_.length then
        pure (some {
          data := (cu.section_.take tableEnd).drop cur.pos
          compilationDir := cu.compDir
          defaultIsStmt := defaultIsStmt ≠ 0
          lineBase, lineRange, opcodeBase, includeDirs, fileNames })
      else .error (.undefined "program outside the section")

/-- `line_table::iterator` and the mutable file table behind it.  A position
of `none` is the null pointer of the past-the-end iterator. -/
structure LineIterator where
  current : LineEntry
  registers : LineEntry
  pos : Option Nat
  fileNames : List LineFile
deriving DecidableEq, Repr

namespace LineTable

/-- Fresh registers. -/
def reset (table : LineTable) : LineEntry := { isStmt := table.defaultIsStmt }

/-- The flags that hold for one row only. -/
def clearRowFlags (registers : LineEntry) : LineEntry :=
  { registers with
    basicBlockStart := false
    prologueEnd := false
    epilogueBegin := false
    discriminator := 0 }

/-- `current_ = registers_` and the reset that follows it. -/
def emitRow (it : LineIterator) (registers : LineEntry) : LineIterator :=
  { it with current := registers, registers := clearRowFlags registers }

def setRegisters (it : LineIterator) (cur : Cursor) (registers : LineEntry) :
    LineIterator × Cursor × Bool :=
  ({ it with registers := registers }, cur, false)

/-- The standard opcodes; the result says whether a row was emitted. -/
def executeStandard (table : LineTable) (it : LineIterator) (opcode : Byte) (cur : Cursor) :
    Except Failure (LineIterator × Cursor × Bool) := do
  let regs := it.registers
  match opcode.toNat with
  | 0x01 => pure (emitRow it regs, cur, true)
  | 0x02 =>
      let (n, cur) ← inBounds cur.uleb128
      pure (setRegisters it cur { regs with address := regs.address + n })
  | 0x03 =>
      let (n, cur) ← inBounds cur.sleb128
      pure (setRegisters it cur { regs with line := regs.line + n })
  | 0x04 =>
      let (n, cur) ← inBounds cur.uleb128
      pure (setRegisters it cur { regs with fileIndex := n })
  | 0x05 =>
      let (n, cur) ← inBounds cur.uleb128
      pure (setRegisters it cur { regs with column := n })
  | 0x06 => pure (setRegisters it cur { regs with isStmt := !regs.isStmt })
  | 0x07 => pure (setRegisters it cur { regs with basicBlockStart := true })
  | 0x08 =>
      if table.lineRange = 0 then .error (.undefined "division by zero")
      else
        let advance := (255 - table.opcodeBase.toNat) / table.lineRange.toNat
        pure (setRegisters it cur
          { regs with address := regs.address + BitVec.ofNat 64 advance })
  | 0x09 =>
      let (n, cur) ← inBounds cur.u16
      pure (setRegisters it cur { regs with address := regs.address + n.setWidth 64 })
  | 0x0a => pure (setRegisters it cur { regs with prologueEnd := true })
  | 0x0b => pure (setRegisters it cur { regs with epilogueBegin := true })
  | 0x0c => pure (it, cur, false)
  | _ => .error (.error "Unexpected standard opcode!")

/-- The extended opcodes; their length operand is read and ignored. -/
def executeExtended (table : LineTable) (it : LineIterator) (cur : Cursor) :
    Except Failure (LineIterator × Cursor × Bool) := do
  let regs := it.registers
  let (_, cur) ← inBounds cur.uleb128
  let (extendedOpcode, cur) ← inBounds cur.u8
  match extendedOpcode.toNat with
  | 0x01 =>
      pure ({ it with current := { regs with endSequence := true }, registers := table.reset },
        cur, true)
  | 0x02 =>
      let (address, cur) ← inBounds cur.u64
      pure (setRegisters it cur { regs with address := address })
  | 0x03 =>
      let (file, cur) ← parseLineTableFile cur table.compilationDir table.includeDirs
      pure ({ it with fileNames := it.fileNames ++ [file] }, cur, false)
  | 0x04 =>
      let (n, cur) ← inBounds cur.uleb128
      pure (setRegisters it cur { regs with discriminator := n })
  | _ => .error (.error "Unexpected extended opcode!")

/-- The special opcodes: one byte that advances both address and line and
emits a row.  The line increment is a signed sum of `int`s. -/
def executeSpecial (table : LineTable) (it : LineIterator) (opcode : Byte) (cur : Cursor) :
    Except Failure (LineIterator × Cursor × Bool) :=
  if table.lineRange = 0 then .error (.undefined "division by zero")
  else
    let regs := it.registers
    let adjustedOpcode := opcode.toNat - table.opcodeBase.toNat
    let address := regs.address + BitVec.ofNat 64 (adjustedOpcode / table.lineRange.toNat)
    let line := regs.line +
      BitVec.ofInt 64 (table.lineBase.toInt + (adjustedOpcode % table.lineRange.toNat : Nat))
    .ok (emitRow it { regs with address := address, line := line }, cur, true)

/-- `line_table::iterator::execute_instruction` at a position. -/
def executeInstruction (table : LineTable) (it : LineIterator) (pos : Nat) :
    Except Failure (LineIterator × Bool) := do
  let (opcode, cur) ← inBounds (Cursor.mk table.data pos).u8
  let (it, cur, emitted) ←
    if 0 < opcode ∧ opcode < table.opcodeBase then table.executeStandard it opcode cur
    else if opcode = 0 then table.executeExtended it cur
    else table.executeSpecial it opcode cur
  pure ({ it with pos := some cur.pos }, emitted)

/-- The inner loop of `operator++`: instructions up to the first that emits a
row.  Every instruction takes at least one byte, so the number of bytes bounds
the rounds. -/
def executeUntilRow (table : LineTable) : Nat → LineIterator → Nat → Except Failure LineIterator
  | 0, _, _ => .error (.undefined "read outside the buffer")
  | rounds + 1, it, pos => do
      let (next, emitted) ← table.executeInstruction it pos
      if emitted then pure next
      else executeUntilRow table rounds next (next.pos.getD 0)

/-- The file a row refers to; indices start at one. -/
def fileAt (files : List LineFile) (fileIndex : Word) : Except Failure LineFile :=
  match files[(fileIndex - 1).toNat]? with
  | some file => .ok file
  | none => .error (.undefined "file index out of range")

/-- `line_table::iterator::operator++`. -/
def advance (table : LineTable) (it : LineIterator) : Except Failure LineIterator :=
  match it.pos with
  | none => .error (.undefined "increment of the past-the-end iterator")
  | some pos =>
      if pos = table.data.length then .ok { it with pos := none }
      else do
        let it ← executeUntilRow table (table.data.length - pos) it pos
        let file ← fileAt it.fileNames it.current.fileIndex
        pure { it with current := { it.current with fileEntry := some file } }

/-- The state of the iterator before its first increment. -/
def initial (table : LineTable) : LineIterator := ⟨{}, table.reset, some 0, table.fileNames⟩

/-- The rows from an iterator to the end: `*it` and then the rows after `++it`. -/
def rowsFrom (table : LineTable) : Nat → LineIterator → Except Failure (List LineEntry)
  | 0, it => if it.pos = none then .ok [] else .error .schedule
  | rounds + 1, it =>
      if it.pos = none then .ok []
      else do
        let next ← table.advance it
        let rows ← rowsFrom table rounds next
        pure (it.current :: rows)

/-- The rows of `for (auto it = begin(); it != end(); ++it)`. -/
def rows (table : LineTable) : Except Failure (List LineEntry) := do
  let first ← table.advance table.initial
  table.rowsFrom (table.data.length + 1) first

/-- A number of calls of `execute_instruction`, one after the other. -/
def executeInstructions (table : LineTable) : Nat → LineIterator → Except Failure LineIterator
  | 0, it => .ok it
  | n + 1, it => do
      let (next, _) ← table.executeInstruction it (it.pos.getD 0)
      executeInstructions table n next

/-- The rest of a `for` loop that ends after a number of increments, or at the
end of the table. -/
def advanceBy (table : LineTable) : Nat → LineIterator → Except Failure LineIterator
  | 0, it => .ok it
  | n + 1, it =>
      if it.pos = none then .ok it
      else do
        let next ← table.advance it
        advanceBy table n next

/-- `begin()`, followed by a number of increments. -/
def walk (table : LineTable) (n : Nat) : Except Failure LineIterator := do
  let first ← table.advance table.initial
  table.advanceBy n first

/-- The loop of `line_table::get_entry_by_address`; `it` is the row after
`prev`.  The result is the entry, if there is one, and the last iterator that
was made. -/
def entryByAddressLoop (table : LineTable) (address : Word) :
    Nat → LineIterator → LineIterator → Except Failure (Option LineIterator × LineIterator)
  | 0, _, _ => .error .schedule
  | rounds + 1, prev, it =>
      if it.pos = none then .ok (none, it)
      else if prev.current.address ≤ address ∧ it.current.address > address ∧
          prev.current.endSequence = false then .ok (some prev, it)
      else do
        let next ← table.advance it
        entryByAddressLoop table address rounds it next

def getEntryByAddress (table : LineTable) (address : Word) :
    Except Failure (Option LineIterator × LineIterator) := do
  let prev ← table.advance table.initial
  if prev.pos = none then .ok (none, prev)
  else
    let it ← table.advance prev
    table.entryByAddressLoop address (table.data.length + 1) prev it

end LineTable

/-- The elements that iterating over a `std::filesystem::path` yields: the root
directory, the names, and an empty name after a trailing separator. -/
def pathElements (path : List Byte) : List (List Byte) :=
  let names := path.splitOn 0x2f
  let root := if path.head? = some 0x2f then [[0x2f]] else []
  let inner := root ++ names.dropLast.filter (· ≠ [])
  match names.getLast? with
  | none => inner
  | some [] => if names.dropLast.all (· = []) then inner else inner ++ [[]]
  | some last => inner ++ [last]

def isAbsolute (path : List Byte) : Bool := path.head? = some 0x2f

def pathEndsIn (lhs rhs : List Byte) : Bool :=
  let lhs := pathElements lhs
  let rhs := pathElements rhs
  if lhs.length < rhs.length then false
  else lhs.drop (lhs.length - rhs.length) = rhs

namespace LineTable

/-- The test of `line_table::get_entries_by_line`. -/
def selectsRow (path : List Byte) (line : Word) (row : LineEntry) : Bool :=
  match row.fileEntry with
  | none => false
  | some file => decide (row.line = line) &&
      ((isAbsolute path && decide (pathElements file.path = pathElements path)) ||
        (!isAbsolute path && pathEndsIn file.path path))

/-- The loop of `line_table::get_entries_by_line`: the entries, and the iterator
at the end. -/
def entriesByLineLoop (table : LineTable) (path : List Byte) (line : Word) :
    Nat → LineIterator → Except Failure (List LineIterator × LineIterator)
  | 0, _ => .error .schedule
  | rounds + 1, it =>
      if it.pos = none then .ok ([], it)
      else do
        let next ← table.advance it
        let (entries, last) ← entriesByLineLoop table path line rounds next
        pure (if selectsRow path line it.current then it :: entries else entries, last)

def getEntriesByLine (table : LineTable) (path : List Byte) (line : Word) :
    Except Failure (List LineIterator × LineIterator) := do
  let first ← table.advance table.initial
  table.entriesByLineLoop path line (table.data.length + 2) first

end LineTable

end Gsdb
