/-
The breakpoints of a target: resolving a function name or a source line to
addresses, creating a site at each of them, resolving the breakpoints again when
a library is loaded, and switching and deleting a breakpoint together with its
sites.
-/
import Gsdb.BreakpointSites
import Gsdb.DebugInfo
import Gsdb.Elf
import Gsdb.LineTable

namespace Gsdb

open ByteMemory Effects Eff Debugger

/-- What resolving a breakpoint asks the loaded files: the functions of a name,
as debug entries and as symbols of the files that have no such entry; the
compile units in the order in which they are searched, each with the file it
belongs to, and their line tables; the first address of a function, and the
functions at an address. -/
structure ResolveEnv where
  elves : ElfCollection
  findFunctions : List Byte → Except Failure (List Die × List (Nat × Word))
  compileUnits : List (Nat × CompileUnit)
  lines : CompileUnit → Except Failure LineTable
  lowPc : Die → Except Failure FileAddr
  inlineStackAtAddress : FileAddr → Except Failure (List Die)

/-- A line table entry in the file it belongs to. -/
structure LineRef where
  elf : Nat
  table : LineTable
  it : LineIterator

/-- What one entry of a resolved name comes to: an address, nothing, or a
failure. -/
abbrev Place := Except Failure (Option Word)

namespace ResolveEnv

/-- The first address after the prologue of a function: that of the second line
table entry. -/
def afterPrologue (env : ResolveEnv) (cu : CompileUnit) (lowPc : FileAddr) :
    Except Failure FileAddr := do
  let table ← env.lines cu
  let (functionLine, _) ← table.getEntryByAddress lowPc.addr
  match functionLine with
  | none => .error (.undefined "increment of the past-the-end iterator")
  | some functionLine => do
      let functionLine ← table.advance functionLine
      pure ⟨lowPc.elf, functionLine.current.address⟩

/-- The load address of a function of the debug information.  An entry without
an address is passed over. -/
def diePlace (env : ResolveEnv) (die : Die) : Place :=
  match die.entry with
  | none => .error (.undefined "attribute of a null entry")
  | some entry =>
      if Die.contains entry atLowPc || Die.contains entry atRanges then do
        let lowPc ← env.lowPc die
        let addr ←
          if entry.abbrevEntry.tag = tagInlinedSubroutine then pure lowPc
          else env.afterPrologue die.cu lowPc
        let loadAddress ← addr.toVirtAddr env.elves
        pure (some loadAddress)
      else pure none

/-- The load address of a symbol. -/
def symbolPlace (env : ResolveEnv) (sym : Nat × Word) : Place := do
  let loadAddress ← FileAddr.toVirtAddr env.elves ⟨some sym.1, sym.2⟩
  pure (some loadAddress)

/-- The places that `function_breakpoint::resolve` goes through. -/
def functionPlaces (env : ResolveEnv) (functionName : List Byte) :
    Except Failure (List Place) := do
  let (dwarfFunctions, elfFunctions) ← env.findFunctions functionName
  pure (dwarfFunctions.map env.diePlace ++ elfFunctions.map env.symbolPlace)

/-- `target::get_line_entries_by_line`. -/
def lineEntriesByLine (env : ResolveEnv) (path : List Byte) (line : Word) :
    Except Failure (List LineRef) := do
  let found ← env.compileUnits.mapM fun (elf, cu) => do
    let table ← env.lines cu
    let (newEntries, _) ← table.getEntriesByLine path line
    pure (newEntries.map fun it => LineRef.mk elf table it)
  pure found.flatten

/-- Whether the prologue of the function at an address is skipped: the address
is the start of a function with no other inlined into it there. -/
def shouldSkipPrologue (env : ResolveEnv) (address : FileAddr) : List Die → Except Failure Bool
  | [die] =>
      match die.entry with
      | none => .error (.undefined "attribute of a null entry")
      | some entry =>
          if Die.contains entry atRanges || Die.contains entry atLowPc then do
            let lowPc ← env.lowPc die
            pure (lowPc = address)
          else pure false
  | _ => pure false

/-- The load address of a line table entry. -/
def entryPlace (env : ResolveEnv) (entry : LineRef) : Place := do
  let address : FileAddr := ⟨some entry.elf, entry.it.current.address⟩
  let stack ← env.inlineStackAtAddress address
  let skips ← env.shouldSkipPrologue address stack
  let it ← if skips then entry.table.advance entry.it else pure entry.it
  let loadAddress ← FileAddr.toVirtAddr env.elves ⟨some entry.elf, it.current.address⟩
  pure (some loadAddress)

/-- The places that `line_breakpoint::resolve` goes through. -/
def linePlaces (env : ResolveEnv) (file : List Byte) (line : Word) :
    Except Failure (List Place) := do
  let entries ← env.lineEntriesByLine file line
  pure (entries.map env.entryPlace)

end ResolveEnv

namespace Debugger

/-- The site of a breakpoint at an address, unless it has one there. -/
def resolveAt (index : Nat) (point : Breakpoint) (address : Word) : Debugger Breakpoint :=
  if point.sites.contains address then pure point
  else do
    let newSite ← createBreakpointSiteFor index point.nextSiteId address point.isHardware
      point.isInternal
    let resolved := { point with
      sites := point.sites ++ [address], nextSiteId := point.nextSiteId + 1 }
    if point.isEnabled then do
      enableSite newSite
      pure resolved
    else pure resolved

/-- The loop of the `resolve` functions over the places, for the breakpoint
that is or will be at a position of the target's list. -/
def resolvePlaces (index : Nat) : Breakpoint → List Place → Debugger Breakpoint
  | point, [] => pure point
  | point, place :: rest => do
      match ← ofExcept place with
      | none => resolvePlaces index point rest
      | some address => do
          let point ← resolveAt index point address
          resolvePlaces index point rest

/-- A breakpoint before it is resolved; `nextId` is the next number of the
static counter. -/
def newBreakpoint (nextId : Int) (hardware internal : Bool) : Breakpoint :=
  ⟨if internal then -1 else nextId, false, hardware, internal, [], 1, none⟩

/-- The constructors of the breakpoints, which resolve, and the push onto the
target's list, which only a constructed breakpoint reaches. -/
def createBreakpoint (nextId : Int) (hardware internal : Bool)
    (places : Except Failure (List Place)) : Debugger PUnit := do
  let places ← ofExcept places
  let m ← get
  let point ← resolvePlaces m.process.breakpoints.length
    (newBreakpoint nextId hardware internal) places
  modifyProcess fun p => { p with breakpoints := p.breakpoints.push point }

/-- `target::create_address_breakpoint`. -/
def createAddressBreakpoint (nextId : Int) (address : Word) (hardware internal : Bool) :
    Debugger PUnit :=
  createBreakpoint nextId hardware internal (.ok [.ok (some address)])

/-- `target::create_function_breakpoint`. -/
def createFunctionBreakpoint (env : ResolveEnv) (nextId : Int) (functionName : List Byte)
    (hardware internal : Bool) : Debugger PUnit :=
  createBreakpoint nextId hardware internal (env.functionPlaces functionName)

/-- `target::create_line_breakpoint`. -/
def createLineBreakpoint (env : ResolveEnv) (nextId : Int) (file : List Byte) (line : Word)
    (hardware internal : Bool) : Debugger PUnit :=
  createBreakpoint nextId hardware internal (env.linePlaces file line)

/-- The breakpoint at a position of the target's list. -/
def breakpointAt (index : Nat) : Debugger Breakpoint :=
  asks fun m => match m.process.breakpoints[index]? with
    | some point => .ok point
    | none => .error (.undefined "dangling breakpoint")

def updateBreakpoint (index : Nat) (f : Breakpoint → Breakpoint) : Debugger PUnit :=
  modifyProcess fun p => { p with breakpoints := p.breakpoints.modify index f }

/-- The site that a breakpoint of the target's list creates at an address.  The
number of the site is taken before the address is looked at. -/
def addSite (index : Nat) (address : Word) : Debugger PUnit := do
  let point ← breakpointAt index
  updateBreakpoint index fun point => { point with nextSiteId := point.nextSiteId + 1 }
  let newSite ← createBreakpointSiteFor index point.nextSiteId address point.isHardware
    point.isInternal
  updateBreakpoint index fun point => { point with sites := point.sites ++ [address] }
  if point.isEnabled then enableSite newSite else pure ⟨⟩

/-- One round of the `resolve` functions, for a breakpoint of the target's
list. -/
def resolvePlace (index : Nat) (place : Place) : Debugger PUnit := do
  match ← ofExcept place with
  | none => pure ⟨⟩
  | some address => do
      let point ← breakpointAt index
      if point.sites.contains address then pure ⟨⟩ else addSite index address

/-- What a breakpoint was set on: `address_breakpoint`, `function_breakpoint`
and `line_breakpoint`. -/
inductive Requested where
  | address (address : Word)
  | function (functionName : List Byte)
  | line (file : List Byte) (line : Word)

/-- `breakpoint::resolve` of a breakpoint of the target's list. -/
def resolveBreakpoint (env : ResolveEnv) (index : Nat) : Requested → Debugger PUnit
  | .address address => do
      let point ← breakpointAt index
      if point.sites.isEmpty then addSite index address else pure ⟨⟩
  | .function functionName => do
      let places ← ofExcept (env.functionPlaces functionName)
      forEach (resolvePlace index) places
  | .line file line => do
      let places ← ofExcept (env.linePlaces file line)
      forEach (resolvePlace index) places

/-- The end of `reload_dynamic_libraries`: every breakpoint of the target is
resolved again.  What each was set on stands in the order of the list. -/
def resolveBreakpoints (env : ResolveEnv) (requested : List Requested) : Debugger PUnit := do
  let m ← get
  forEach (fun (index, request) => resolveBreakpoint env index request)
    ((List.range m.process.breakpoints.length).zip requested)

/-- A site of a breakpoint, which knows it by its address. -/
def siteOf (address : Word) : Debugger Nat :=
  asks fun m => match m.process.breakpointSites.findByAddress address with
    | some index => .ok index
    | none => .error (.undefined "dangling breakpoint site")

/-- `breakpoint::enable` and `breakpoint::disable`. -/
def switchBreakpoint (index : Nat) (enabled : Bool) : Debugger PUnit := do
  let point ← breakpointAt index
  modifyProcess fun p => { p with
    breakpoints := p.breakpoints.modify index fun b => { b with isEnabled := enabled } }
  forEach (fun address => do
    let site ← siteOf address
    if enabled then enableSite site else disableSite site) point.sites

/-- Where a reference to a breakpoint leads once the one at a position is
erased from a list; that to the erased one leads nowhere. -/
def shiftParent (index size parent : Nat) : Nat :=
  if parent < index then parent else if parent = index then size else parent - 1

/-- Erase a breakpoint from the target's list. -/
def eraseBreakpoint (index : Nat) : Debugger PUnit :=
  modifyProcess fun p => { p with
    breakpoints := p.breakpoints.eraseIdx index
    breakpointSites := p.breakpointSites.map fun site =>
      { site with parent := site.parent.map (shiftParent index p.breakpoints.length) } }

/-- `breakpoint delete`: the breakpoint is removed, then its sites. -/
def deleteBreakpoint (id : Int) : Debugger PUnit := do
  let m ← get
  let index ← ofExcept (m.process.breakpoints.getById id)
  let point ← breakpointAt index
  switchBreakpoint index false
  eraseBreakpoint index
  forEach removeByAddress point.sites

end Debugger

end Gsdb
