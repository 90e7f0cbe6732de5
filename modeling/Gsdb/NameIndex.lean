/-
The index over the entries of all units: names of functions and of global variables,
and definitions of member functions.  It is built on the first lookup, entry by
entry while the units are walked through, and what was added before an exception
stays in it.
-/
import Gsdb.DieTree

namespace Gsdb

open ByteMemory ByteCursor Effects

/-- `DW_AT_*` and `DW_TAG_*` that the index looks at. -/
def atLocation : Word := 0x02
def atName : Word := 0x03
def atHighPc : Word := 0x12
def atAbstractOrigin : Word := 0x31
def atSpecification : Word := 0x47

def tagSubprogram : Word := 0x2e
def tagVariable : Word := 0x34

namespace DieEntry

def hasRange (entry : DieEntry) : Bool :=
  Die.contains entry atLowPc || Die.contains entry atRanges

def isFunction (entry : DieEntry) : Bool :=
  entry.abbrevEntry.tag = tagSubprogram || entry.abbrevEntry.tag = tagInlinedSubroutine

def isLocatedVariable (entry : DieEntry) : Bool :=
  Die.contains entry atLocation && entry.abbrevEntry.tag = tagVariable

end DieEntry

namespace Die

/-- The entry that an attribute refers to. -/
def reference (dw : Dwarf) (cu : CompileUnit) (entry : DieEntry) (name : Word) :
    Except Failure Die := do
  let attr ← attr cu entry name
  attr.asReference dw

def text (dw : Dwarf) (cu : CompileUnit) (entry : DieEntry) (name : Word) :
    Except Failure (List Byte) := do
  let attr ← attr cu entry name
  attr.asString dw

/-- `die::name`, with a bound on the length of a chain of references. -/
def name (dw : Dwarf) : Nat → Die → Except Failure (Option (List Byte))
  | 0, _ => .error .schedule
  | rounds + 1, die =>
      match die.entry with
      | none => .error (.undefined "name of a null entry")
      | some entry =>
          if contains entry atName then do
            let text ← text dw die.cu entry atName
            pure (some text)
          else if contains entry atSpecification then do
            let target ← reference dw die.cu entry atSpecification
            name dw rounds target
          else if contains entry atAbstractOrigin then do
            let target ← reference dw die.cu entry atAbstractOrigin
            name dw rounds target
          else .ok none

/-- `die::position`, as an offset in the section; the null entry has none. -/
def position (die : Die) : Option Nat := die.entry.map fun entry => die.cu.offset + entry.pos

/-- `range_list::contains`: the entries of the list, relative to a base that the
list may change, up to the pair of zeros. -/
def rangeListContains (address : Word) : Nat → Cursor → Word → Except Failure Bool
  | 0, _, _ => .error (.undefined "read outside the buffer")
  | rounds + 1, cur, base => do
      let (low, cur) ← inBounds cur.u64
      let (high, cur) ← inBounds cur.u64
      if low = -1 then rangeListContains address rounds cur high
      else if low = 0 ∧ high = 0 then pure false
      else if low + base ≤ address ∧ address < high + base then pure true
      else rangeListContains address rounds cur base

/-- The base of a unit's range lists. -/
def rangeBase (cu : CompileUnit) : Except Failure Word := do
  let root ← cu.root
  match root.entry with
  | none => .error (.undefined "attribute of a null entry")
  | some entry =>
      if contains entry atLowPc then do
        let low ← attr cu entry atLowPc
        low.asAddress
      else pure 0

def lowPc (cu : CompileUnit) (entry : DieEntry) : Except Failure Word := do
  let low ← attr cu entry atLowPc
  low.asAddress

/-- `die::high_pc` of an entry without ranges. -/
def highPc (cu : CompileUnit) (entry : DieEntry) : Except Failure Word :=
  if contains entry atHighPc then do
    let high ← attr cu entry atHighPc
    if high.form = .addr then high.asAddress
    else do
      let low ← lowPc cu entry
      let size ← high.asInt
      pure (low + size)
  else .error (.error "DIE does not have high PC!")

/-- `die::contains_address`, for an address of the same file; `ranges` are the bytes
of `.debug_ranges`. -/
def containsAddress (ranges : List Byte) (cu : CompileUnit) (entry : DieEntry) (address : Word) :
    Except Failure Bool :=
  if contains entry atRanges then do
    let list ← attr cu entry atRanges
    let offset ← list.asSectionOffset
    let base ← rangeBase cu
    rangeListContains address (ranges.length + 1) ⟨ranges, offset.toNat⟩ base
  else if contains entry atLowPc then do
    let low ← lowPc cu entry
    if low ≤ address then do
      let high ← highPc cu entry
      pure (address < high)
    else pure false
  else .ok false

end Die

structure IndexEntry where
  cu : CompileUnit
  pos : Nat
deriving DecidableEq

/-- `function_index_`, `global_variable_index_` and `member_function_index_`.  Equal
keys of the first two are kept in the order in which they were added; the last maps
the position of a declaration to its definition. -/
structure NameIndex where
  functions : List (List Byte × IndexEntry)
  globalVariables : List (List Byte × IndexEntry)
  memberFunctions : List (Option Nat × IndexEntry)
deriving DecidableEq

namespace NameIndex

def empty : NameIndex := ⟨[], [], []⟩

def addFunction (name : List Byte) (entry : IndexEntry) (index : NameIndex) : NameIndex :=
  { index with functions := index.functions ++ [(name, entry)] }

def addGlobalVariable (name : List Byte) (entry : IndexEntry) (index : NameIndex) : NameIndex :=
  { index with globalVariables := index.globalVariables ++ [(name, entry)] }

/-- `std::unordered_map::insert`: a key that is present keeps its value. -/
def addMemberFunction (declaration : Option Nat) (entry : IndexEntry) (index : NameIndex) :
    NameIndex :=
  if index.memberFunctions.any fun member => member.1 = declaration then index
  else { index with memberFunctions := index.memberFunctions ++ [(declaration, entry)] }

end NameIndex

/-- Computations that fill the index. -/
abbrev Indexing := Eff Failure NameIndex

namespace Dwarf

/-- `index_die`: the name of a function with a range. -/
def indexFunction (dw : Dwarf) (rounds : Nat) (die : Die) (entry : DieEntry) : Indexing PUnit :=
  if entry.hasRange && entry.isFunction then do
    match ← Eff.ofExcept (die.name dw rounds) with
    | some name => Eff.modify (NameIndex.addFunction name ⟨die.cu, entry.pos⟩)
    | none => pure ⟨⟩
  else pure ⟨⟩

/-- `index_die`: the declaration that a function refers to. -/
def indexMemberFunction (dw : Dwarf) (die : Die) (entry : DieEntry) : Indexing PUnit :=
  if entry.isFunction then
    if Die.contains entry atSpecification then do
      let target ← Eff.ofExcept (Die.reference dw die.cu entry atSpecification)
      Eff.modify (NameIndex.addMemberFunction target.position ⟨die.cu, entry.pos⟩)
    else if Die.contains entry atAbstractOrigin then do
      let target ← Eff.ofExcept (Die.reference dw die.cu entry atAbstractOrigin)
      Eff.modify (NameIndex.addMemberFunction target.position ⟨die.cu, entry.pos⟩)
    else pure ⟨⟩
  else pure ⟨⟩

/-- `index_die`: the name of a global variable. -/
def indexGlobalVariable (dw : Dwarf) (rounds : Nat) (die : Die) (entry : DieEntry)
    (inFunction : Bool) : Indexing PUnit :=
  if entry.isLocatedVariable && !inFunction then do
    match ← Eff.ofExcept (die.name dw rounds) with
    | some name => Eff.modify (NameIndex.addGlobalVariable name ⟨die.cu, entry.pos⟩)
    | none => pure ⟨⟩
  else pure ⟨⟩

/-- The part of `index_die` before its loop over the children. -/
def indexEntry (dw : Dwarf) (rounds : Nat) (die : Die) (entry : DieEntry) (inFunction : Bool) :
    Indexing PUnit := do
  dw.indexFunction rounds die entry
  dw.indexMemberFunction die entry
  dw.indexGlobalVariable rounds die entry inFunction

/-- `for (auto child : current.children())`: the iterator is incremented after the
child was visited. -/
def forChildren (dw : Dwarf) (depth : Nat) (visit : Die → Indexing PUnit) :
    Nat → Die → Indexing PUnit
  | 0, _ => Eff.throw .schedule
  | rounds + 1, die =>
      match die.entry with
      | none => pure ⟨⟩
      | some _ => do
          visit die
          let next ← Eff.ofExcept (Die.increment dw depth die)
          forChildren dw depth visit rounds next

/-- `dwarf::index_die`, with a bound on the depth of the tree. -/
def indexDie (dw : Dwarf) (rounds : Nat) : Nat → Die → Bool → Indexing PUnit
  | 0, _, _ => Eff.throw .schedule
  | depth + 1, die, inFunction =>
      match die.entry with
      | none => Eff.throw (.undefined "index of a null entry")
      | some entry => do
          dw.indexEntry rounds die entry inFunction
          if entry.abbrevEntry.hasChildren then
            let first ← Eff.ofExcept (parseDie die.cu die.next)
            forChildren dw (die.cu.data.length + 1)
              (fun child => indexDie dw rounds depth child (inFunction || entry.isFunction))
              (die.cu.data.length + 1) first
          else pure ⟨⟩

/-- One round of the loop of `dwarf::index`. -/
def indexUnit (dw : Dwarf) (rounds : Nat) (cu : CompileUnit) : Indexing PUnit := do
  let root ← Eff.ofExcept cu.root
  dw.indexDie rounds (cu.data.length + 1) root false

/-- `dwarf::index`. -/
def index (dw : Dwarf) (rounds : Nat) : Indexing PUnit := do
  let index ← Eff.get
  if index.functions.isEmpty then Eff.forEach (dw.indexUnit rounds) dw.units
  else pure ⟨⟩

/-- `dwarf::find_functions`. -/
def findFunctions (dw : Dwarf) (rounds : Nat) (name : List Byte) : Indexing (List Die) := do
  dw.index rounds
  let index ← Eff.get
  Eff.ofExcept ((index.functions.filter fun entry => entry.1 = name).mapM fun entry =>
    parseDie entry.2.cu entry.2.pos)

/-- `dwarf::find_global_variable`. -/
def findGlobalVariable (dw : Dwarf) (rounds : Nat) (name : List Byte) :
    Indexing (Option Die) := do
  dw.index rounds
  let index ← Eff.get
  match index.globalVariables.find? fun entry => entry.1 = name with
  | none => pure none
  | some entry => do
      let die ← Eff.ofExcept (parseDie entry.2.cu entry.2.pos)
      pure (some die)

/-- The loop of `dwarf::function_containing_address`. -/
def functionAt (ranges : List Byte) (address : Word) :
    List (List Byte × IndexEntry) → Except Failure (Option Die)
  | [] => .ok none
  | entry :: rest => do
      let die ← parseDie entry.2.cu entry.2.pos
      match die.entry with
      | none => .error (.undefined "attribute of a null entry")
      | some parsed =>
          if (← Die.containsAddress ranges die.cu parsed address) &&
              parsed.abbrevEntry.tag = tagSubprogram then pure (some die)
          else functionAt ranges address rest

/-- `dwarf::function_containing_address`, for an address of the same file. -/
def functionContainingAddress (dw : Dwarf) (rounds : Nat) (ranges : List Byte) (address : Word) :
    Indexing (Option Die) := do
  dw.index rounds
  let index ← Eff.get
  Eff.ofExcept (functionAt ranges address index.functions)

/-- `dwarf::get_member_function_definition`, with a bound on the length of a chain of
definitions. -/
def getMemberFunctionDefinition (dw : Dwarf) (rounds : Nat) :
    Nat → Option Nat → Indexing (Option Die)
  | 0, _ => Eff.throw .schedule
  | chain + 1, declaration => do
      dw.index rounds
      let index ← Eff.get
      match index.memberFunctions.find? fun member => member.1 = declaration with
      | none => pure none
      | some member => do
          let die ← Eff.ofExcept (parseDie member.2.cu member.2.pos)
          match die.entry with
          | none => Eff.throw (.undefined "attribute of a null entry")
          | some entry =>
              if entry.hasRange then pure (some die)
              else getMemberFunctionDefinition dw rounds chain die.position

end Dwarf

/-- The lookups that go through the index. -/
inductive Lookup where
  | functions (name : List Byte)
  | globalVariable (name : List Byte)
  | functionContaining (address : Word)
  | memberFunction (declaration : Option Nat)

/-- The entries that a lookup returns. -/
def Dwarf.lookup (dw : Dwarf) (rounds : Nat) (ranges : List Byte) :
    Lookup → Indexing (List Die)
  | .functions name => dw.findFunctions rounds name
  | .globalVariable name => do
      let found ← dw.findGlobalVariable rounds name
      pure found.toList
  | .functionContaining address => do
      let found ← dw.functionContainingAddress rounds ranges address
      pure found.toList
  | .memberFunction declaration => do
      let found ← dw.getMemberFunctionDefinition rounds rounds declaration
      pure found.toList

/-- A lookup for its effect on the index. -/
def Dwarf.perform (dw : Dwarf) (rounds : Nat) (ranges : List Byte) (query : Lookup) :
    Indexing PUnit := do
  let _ ← dw.lookup rounds ranges query
  pure ⟨⟩

/-- The index after lookups, one after the other. -/
def Dwarf.indexAfter (dw : Dwarf) (rounds : Nat) (ranges : List Byte) (lookups : List Lookup) :
    NameIndex :=
  Eff.performAll (dw.perform rounds ranges) lookups NameIndex.empty

end Gsdb
