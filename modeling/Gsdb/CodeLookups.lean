/-
Lookups in the debug information by a code address: the function that contains
it, the functions that are inlined there, the source location of an entry and the
entry of a location list.
-/
import Gsdb.NameIndex
import Gsdb.Stack

namespace Gsdb

open ByteMemory ByteCursor

/-- `DW_AT_*` of source locations. -/
def atDeclFile : Word := 0x3a
def atDeclLine : Word := 0x3b
def atCallFile : Word := 0x58
def atCallLine : Word := 0x59

/-- What the lookups read of a file: the debug information, the bytes of
`.debug_ranges`, and the functions in the order in which the index enumerates
them. -/
structure DebugFile where
  dwarf : Dwarf
  ranges : List Byte
  functions : List (List Byte × IndexEntry)

namespace DebugFile

/-- `dwarf::function_containing_address` of the file at a position.  No entry
contains an address of another file. -/
def functionContainingAddress (file : DebugFile) (position : Nat) (address : FileAddr) :
    Except Failure (Option Die) :=
  if address.elf = some position then Dwarf.functionAt file.ranges address.addr file.functions
  else do
    let _ ← file.functions.mapM fun entry => parseDie entry.2.cu entry.2.pos
    pure none

/-- `std::find_if` over the children from an iterator: the first inlined function
that contains an address. -/
def findInlined (file : DebugFile) (address : Word) : Nat → Die → Except Failure (Option Die)
  | 0, _ => .error .schedule
  | rounds + 1, child =>
      match child.entry with
      | none => .ok none
      | some entry => do
          let found ←
            if entry.abbrevEntry.tag = tagInlinedSubroutine then
              Die.containsAddress file.ranges child.cu entry address
            else pure false
          if found then pure (some child)
          else do
            let next ← Die.increment file.dwarf (child.cu.data.length + 1) child
            findInlined file address rounds next

def inlinedChild (file : DebugFile) (address : Word) (die : Die) : Except Failure (Option Die) :=
  match die.entry with
  | none => .error (.undefined "children of a null entry")
  | some entry =>
      if entry.abbrevEntry.hasChildren then do
        let first ← parseDie die.cu die.next
        file.findInlined address (die.cu.data.length + 1) first
      else .ok none

/-- The loop of `dwarf::inline_stack_at_address`, with a bound on its length: an
entry and the functions that are inlined into it. -/
def inlineStackFrom (file : DebugFile) (address : Word) : Nat → Die → Except Failure (List Die)
  | 0, _ => .error .schedule
  | rounds + 1, die => do
      match ← file.inlinedChild address die with
      | none => pure [die]
      | some child => do
          let rest ← file.inlineStackFrom address rounds child
          pure (die :: rest)

/-- `dwarf::inline_stack_at_address`. -/
def inlineStackAtAddress (file : DebugFile) (position : Nat) (address : FileAddr) :
    Except Failure (List Die) := do
  match ← file.functionContainingAddress position address with
  | none => pure []
  | some die => file.inlineStackFrom address.addr (die.cu.data.length + 1) die

end DebugFile

namespace Die

/-- The attributes with the file and the line of an entry: those of the call for
an inlined function, of the declaration otherwise. -/
def locationAttributes (entry : DieEntry) : Word × Word :=
  if entry.abbrevEntry.tag = tagInlinedSubroutine then (atCallFile, atCallLine)
  else (atDeclFile, atDeclLine)

/-- `die::location`, given the files of the line table of a unit; they are counted
from one. -/
def location (fileNames : CompileUnit → List (List Byte)) (die : Die) :
    Except Failure SourceLocation :=
  match die.entry with
  | none => .error (.undefined "attribute of a null entry")
  | some entry => do
      let fileAttr ← attr die.cu entry (locationAttributes entry).1
      let index ← fileAttr.asInt
      match (fileNames die.cu)[(index - 1).toNat]? with
      | none => .error (.undefined "file index outside the list")
      | some path => do
          let lineAttr ← attr die.cu entry (locationAttributes entry).2
          let line ← lineAttr.asInt
          pure ⟨some path, line⟩

end Die

/-- The stack over the debug information of the files. -/
def StackEnv.withDebugInfo (env : StackEnv) (files : Nat → DebugFile)
    (fileNames : CompileUnit → List (List Byte)) : StackEnv :=
  { env with
    inlineStackAtAddress := fun address =>
      match address.elf with
      | none => .error (.undefined "debug information of no file")
      | some position => (files position).inlineStackAtAddress position address
    location := Die.location fileNames }

/-- An entry of a location list: the addresses it is for, and where its expression
is in the list. -/
structure LocationEntry where
  low : Word
  high : Word
  start : Nat
  length : Nat
deriving DecidableEq, Repr

def LocationEntry.contains (entry : LocationEntry) (address : Word) : Bool :=
  decide (address ≥ entry.low) && decide (address < entry.high)

/-- The loop of `location_list::eval`: the entry for a program counter, given up
after a number of rounds. -/
def selectLocation (pc : Word) : Nat → Cursor → Word → Except Failure (Option LocationEntry)
  | 0, _, _ => .error .schedule
  | rounds + 1, cur, base => do
      let (first, cur) ← inBounds cur.u64
      let (second, cur) ← inBounds cur.u64
      if first = 0 ∧ second = 0 then pure none
      else if first = -1 then selectLocation pc rounds cur second
      else do
        let (length, cur) ← inBounds cur.u16
        let entry : LocationEntry := ⟨base + first, base + second, cur.pos, length.toNat⟩
        if entry.contains pc then pure (some entry)
        else selectLocation pc rounds (cur.advance length.toNat) base

end Gsdb
