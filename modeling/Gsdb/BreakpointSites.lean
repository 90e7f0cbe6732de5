/-
Software breakpoint sites and the memory behind them.  Enabling a site
overwrites one byte of the inferior through an eight-byte read and write, so
neighbouring sites are read and written back.
-/
import Gsdb.HardwareStoppoints

namespace Gsdb

open ByteMemory Effects Eff Debugger

/-- One range of remote memory. -/
structure Iovec where
  base : Word
  len : Nat
deriving DecidableEq, Repr

/-- The descriptors of `process::read_memory`: the range is cut at 4 KiB page
boundaries.  Every round takes at least one byte, so `amount` rounds suffice. -/
def remoteDescsLoop : Nat → Word → Nat → List Iovec
  | 0, _, _ => []
  | rounds + 1, address, amount =>
      if amount = 0 then []
      else
        let upToNextPage := 0x1000 - (address &&& 0xfff).toNat
        let chunkSize := min amount upToNextPage
        ⟨address, chunkSize⟩ ::
          remoteDescsLoop rounds (address + BitVec.ofNat 64 chunkSize) (amount - chunkSize)

def remoteDescs (address : Word) (amount : Nat) : List Iovec :=
  remoteDescsLoop amount address amount

def Iovec.readable (kernel : Kernel) (iov : Iovec) : Bool :=
  (List.range iov.len).all fun i => kernel.mapped (iov.base + BitVec.ofNat 64 i)

/-- `process_vm_readv`: too many descriptors are refused; otherwise the
descriptors are transferred in order up to the first unreadable one, and a
transfer of nothing at all is an error. -/
def processVmReadv (kernel : Kernel) (descs : List Iovec) : Option (List Byte) :=
  if kernel.iovMax < descs.length then none
  else
    let readable := descs.takeWhile (·.readable kernel)
    if readable = [] ∧ descs ≠ [] then none
    else some (readable.flatMap fun iov => kernel.memory.read iov.base iov.len)

/-- `process::read_memory`.  A short transfer leaves the rest of the buffer
zero. -/
def readMemory (m : Machine) (address : Word) (amount : Nat) : Except Failure (List Byte) :=
  match processVmReadv m.kernel (remoteDescs address amount) with
  | some bytes => .ok (bytes ++ List.replicate (amount - bytes.length) 0)
  | none => .error (.errno "Could not read process memory")

/-- `process::read_memory_without_traps`. -/
def readMemoryWithoutTraps (m : Machine) (address : Word) (amount : Nat) :
    Except Failure (List Byte) := do
  let memory ← readMemory m address amount
  let sites := m.process.breakpointSites.getInRegion address
    (address + BitVec.ofNat 64 amount)
  pure (sites.foldl (fun memory site =>
    if !site.isEnabled || site.isHardware then memory
    else memory.set (site.address - address).toNat site.savedData) memory)

namespace Debugger

/-- The site a reference into `breakpoint_sites_` stands for. -/
def siteAt (index : Nat) : Debugger BreakpointSite :=
  asks fun m => match m.process.breakpointSites[index]? with
    | some site => .ok site
    | none => .error (.undefined "dangling breakpoint site")

def updateSite (index : Nat) (f : BreakpointSite → BreakpointSite) : Debugger PUnit :=
  modifyProcess fun p => { p with breakpointSites := p.breakpointSites.modify index f }

def int3 : Byte := 0xcc

/-- Replace the least significant byte of a word. -/
def withLowByte (data : Word) (byte : Byte) : Word :=
  (data &&& ~~~0xff) ||| byte.setWidth 64

/-- `breakpoint_site::enable`. -/
def enableSite (index : Nat) : Debugger PUnit := do
  let site ← siteAt index
  if site.isEnabled then pure ⟨⟩
  else do
    if site.isHardware then do
      let slot ← setHardwareBreakpoint site.address
      updateSite index fun s => { s with hardwareRegisterIndex := slot }
    else do
      let data ← peekData site.address "Enabling breakpoint site failed!"
      updateSite index fun s => { s with savedData := data.setWidth 8 }
      pokeData site.address (withLowByte data int3) "Enabling breakpoint site failed!"
    updateSite index fun s => { s with isEnabled := true }

/-- `breakpoint_site::disable`. -/
def disableSite (index : Nat) : Debugger PUnit := do
  let site ← siteAt index
  if !site.isEnabled then pure ⟨⟩
  else do
    if site.isHardware then do
      clearHardwareStoppoint site.hardwareRegisterIndex
      updateSite index fun s => { s with hardwareRegisterIndex := -1 }
    else do
      let data ← peekData site.address "Disabling breakpoint site failed!"
      pokeData site.address (withLowByte data site.savedData)
        "Disabling breakpoint site failed!"
    updateSite index fun s => { s with isEnabled := false }

/-- The common part of the two overloads of `process::create_breakpoint_site`;
the new site is disabled and its position is returned. -/
def pushSite (address : Word) (site : Process → BreakpointSite × Process) : Debugger Nat := do
  let m ← get
  if m.process.breakpointSites.containsAddress address then
    fail ("Breakpoint site already created at address " ++ toString address.toNat)
  else do
    modifyProcess fun p =>
      let (new, p) := site p
      { p with breakpointSites := p.breakpointSites.push new }
    pure m.process.breakpointSites.length

/-- The overload for a free-standing site: it takes the next identifier, or
`-1` when it is internal. -/
def createBreakpointSite (address : Word) (hardware internal : Bool) : Debugger Nat :=
  pushSite address fun p =>
    if internal then
      (⟨none, -1, address, false, 0, hardware, internal, -1⟩, p)
    else
      (⟨none, p.nextSiteId + 1, address, false, 0, hardware, internal, -1⟩,
        { p with nextSiteId := p.nextSiteId + 1 })

/-- The overload for a site that belongs to a breakpoint. -/
def createBreakpointSiteFor (parent : Nat) (id : Int) (address : Word)
    (hardware internal : Bool) : Debugger Nat :=
  pushSite address fun p => (⟨some parent, id, address, false, 0, hardware, internal, -1⟩, p)

/-- Disable the site at a position, then erase it. -/
def removeSite (index : Option Nat) : Debugger PUnit :=
  match index with
  | none => pure ⟨⟩
  | some index => do
      disableSite index
      modifyProcess fun p => { p with breakpointSites := p.breakpointSites.eraseIdx index }

/-- `stoppoint_collection::remove_by_id` on the breakpoint sites. -/
def removeById (id : Int) : Debugger PUnit := do
  let m ← get
  removeSite (m.process.breakpointSites.findById id)

/-- `stoppoint_collection::remove_by_address` on the breakpoint sites. -/
def removeByAddress (address : Word) : Debugger PUnit := do
  let m ← get
  removeSite (m.process.breakpointSites.findByAddress address)

end Debugger

/-- The operations on breakpoint sites; a reference is the position of the
site in the collection. -/
inductive SiteOperation where
  | create (address : Word) (hardware internal : Bool)
  | createFor (parent : Nat) (id : Int) (address : Word) (hardware internal : Bool)
  | enable (index : Nat)
  | disable (index : Nat)
  | removeById (id : Int)
  | removeByAddress (address : Word)
deriving DecidableEq, Repr

/-- The site an operation is about, if there is one. -/
def SiteOperation.site? (op : SiteOperation) (sites : StoppointCollection BreakpointSite) :
    Option BreakpointSite :=
  match op with
  | .create .. | .createFor .. => none
  | .enable index | .disable index => sites[index]?
  | .removeById id => (sites.findById id).bind fun index => sites[index]?
  | .removeByAddress address => (sites.findByAddress address).bind fun index => sites[index]?

/-- Note that a site is operated on. -/
def SiteOperation.touch (op : SiteOperation) : Debugger PUnit :=
  modify fun m => match op.site? m.process.breakpointSites with
    | some site => m.observe (.touched site.address)
    | none => m

def SiteOperation.perform : SiteOperation → Debugger PUnit
  | .create address hardware internal => do
      let _ ← createBreakpointSite address hardware internal
      pure ⟨⟩
  | .createFor parent id address hardware internal => do
      let _ ← createBreakpointSiteFor parent id address hardware internal
      pure ⟨⟩
  | .enable index => enableSite index
  | .disable index => disableSite index
  | .removeById id => Debugger.removeById id
  | .removeByAddress address => Debugger.removeByAddress address

def SiteOperation.run (op : SiteOperation) : Debugger PUnit := do
  op.touch
  op.perform

/-- Touching a site leaves at most a note. -/
theorem SiteOperation.touch_respects {R : Machine → Machine → Prop} [Std.Refl R]
    (op : SiteOperation) (hnote : ∀ m address, R m (Machine.observe (.touched address) m)) :
    Respects R op.touch := by
  refine Respects.modify fun m => ?_
  cases op.site? m.process.breakpointSites with
  | none => exact refl_of R m
  | some site => exact hnote m site.address

/-- A sequence of operations, each from the state the one before it left. -/
def performSiteOperations (ops : List SiteOperation) (m : Machine) : Machine :=
  performAll SiteOperation.run ops m

/-- Whether an operation makes a hardware site. -/
def SiteOperation.makesHardware : SiteOperation → Bool
  | .create _ hardware _ => hardware
  | .createFor _ _ _ hardware _ => hardware
  | _ => false

/-- A relation that every step of the operations on sites respects.  It may
rule hardware sites out; where they are around, debug registers are written. -/
structure SiteFrame (hardware : Bool) (R : Machine → Machine → Prop) : Prop where
  slots : ∀ m (index : Nat) (site : BreakpointSite), m.process.breakpointSites[index]? = some site →
    site.isHardware = true → DebugRegisterFrame R ∨ ∀ m', R m m'
  memory : ∀ m memory, R m (Machine.setMemory memory m)
  update : ∀ m index (f : BreakpointSite → BreakpointSite),
    (∀ site, (f site).isHardware = site.isHardware) →
    R m (m.setProcess fun p => { p with breakpointSites := p.breakpointSites.modify index f })
  push : ∀ m (site : BreakpointSite) next, (hardware = true ∨ site.isHardware = false) →
    R m (m.setProcess fun p =>
      { p with breakpointSites := p.breakpointSites.push site, nextSiteId := next })
  erase : ∀ m index,
    R m (m.setProcess fun p => { p with breakpointSites := p.breakpointSites.eraseIdx index })
  note : ∀ m observation, Observation.isSiteNote observation = true →
    R m (Machine.observe observation m)

namespace SiteFrame

variable {hardware : Bool} {R : Machine → Machine → Prop}

theorem updateSite (h : SiteFrame hardware R) (index : Nat)
    {f : BreakpointSite → BreakpointSite} (hf : ∀ site, (f site).isHardware = site.isHardware) :
    Respects R (updateSite index f) :=
  fun m => h.update m index f hf

variable [Std.Refl R]

/-- Looking a site up is the first step of toggling it. -/
theorem siteAt_bind {index : Nat} {f : BreakpointSite → Debugger PUnit} {m : Machine}
    (hf : ∀ site, m.process.breakpointSites[index]? = some site → R m (f site m).2) :
    R m ((siteAt index >>= f) m).2 := by
  cases hsite : m.process.breakpointSites[index]? with
  | none =>
      have herror : siteAt index m = (.error (.undefined "dangling breakpoint site"), m) := by
        simp [siteAt, hsite]
      rw [bind_of_error herror]
      exact refl_of R m
  | some site =>
      have hok : siteAt index m = (.ok site, m) := by simp [siteAt, hsite]
      rw [bind_of_ok hok]
      exact hf site hsite

variable [IsTrans Machine R]

theorem pokeData (h : SiteFrame hardware R) (address data : Word) (what : String) :
    Respects R (pokeData address data what) :=
  Respects.bind Respects.get fun _ =>
    Respects.ite (Respects.modify fun m => h.memory m _) (Respects.throw _)

theorem peekData (address : Word) (what : String) : Respects R (peekData address what) :=
  Respects.bind Respects.get fun _ => Respects.ite (Respects.pure _) (Respects.throw _)

theorem enableSite (h : SiteFrame hardware R) (index : Nat) :
    Respects R (enableSite index) := by
  intro m
  refine siteAt_bind fun site hsite => ?_
  split
  · exact refl_of R m
  split
  · rename_i hhardware
    rcases h.slots m index site hsite hhardware with hslots | hany
    · refine Respects.bind (hslots.setHardwareStoppoint h.note _ _ _) (fun slot => ?_) m
      refine Respects.bind (h.updateSite _ ?_) fun _ => h.updateSite _ ?_ <;> exact fun _ => rfl
    · exact hany _
  · refine Respects.bind (peekData _ _) (fun data => ?_) m
    refine Respects.bind (h.updateSite _ ?_) fun _ => ?_
    · exact fun _ => rfl
    refine Respects.bind (h.pokeData _ _ _) fun _ => h.updateSite _ ?_
    exact fun _ => rfl

theorem disableSite (h : SiteFrame hardware R) (index : Nat) :
    Respects R (disableSite index) := by
  intro m
  refine siteAt_bind fun site hsite => ?_
  split
  · exact refl_of R m
  split
  · rename_i hhardware
    rcases h.slots m index site hsite hhardware with hslots | hany
    · refine Respects.bind (hslots.clearHardwareStoppoint h.note _) (fun _ => ?_) m
      refine Respects.bind (h.updateSite _ ?_) fun _ => h.updateSite _ ?_ <;> exact fun _ => rfl
    · exact hany _
  · refine Respects.bind (peekData _ _) (fun data => ?_) m
    refine Respects.bind (h.pokeData _ _ _) fun _ => h.updateSite _ ?_
    exact fun _ => rfl

theorem pushSite (h : SiteFrame hardware R) (address : Word)
    {site : Process → BreakpointSite × Process}
    (hsite : ∀ p, (hardware = true ∨ (site p).1.isHardware = false) ∧
      ∃ next, (site p).2 = { p with nextSiteId := next }) :
    Respects R (pushSite address site) := by
  refine Respects.bind Respects.get fun m => Respects.ite (Respects.throw _) ?_
  refine Respects.bind (Respects.modify fun m => ?_) fun _ => Respects.pure _
  obtain ⟨hallowed, next, hnext⟩ := hsite m.process
  have hstep := h.push m (site m.process).1 next hallowed
  simpa [Machine.setProcess, hnext] using hstep

theorem removeSite (h : SiteFrame hardware R) (index : Option Nat) :
    Respects R (removeSite index) := by
  cases index with
  | none => exact Respects.pure _
  | some index =>
      exact Respects.bind (h.disableSite index) fun _ => Respects.modify fun m => h.erase m index

theorem perform (h : SiteFrame hardware R) {op : SiteOperation}
    (hop : hardware = true ∨ op.makesHardware = false) : Respects R op.perform := by
  cases op with
  | create address _ internal =>
      refine Respects.bind (h.pushSite _ fun p => ?_) fun _ => Respects.pure _
      split
      · exact ⟨hop, p.nextSiteId, rfl⟩
      · exact ⟨hop, p.nextSiteId + 1, rfl⟩
  | createFor =>
      exact Respects.bind (h.pushSite _ fun p => ⟨hop, p.nextSiteId, rfl⟩) fun _ =>
        Respects.pure _
  | enable index => exact h.enableSite index
  | disable index => exact h.disableSite index
  | removeById => exact Respects.bind Respects.get fun _ => h.removeSite _
  | removeByAddress => exact Respects.bind Respects.get fun _ => h.removeSite _

theorem run (h : SiteFrame hardware R) {op : SiteOperation}
    (hop : hardware = true ∨ op.makesHardware = false) : Respects R op.run :=
  Respects.bind (op.touch_respects fun m _ => h.note m _ rfl) fun _ => h.perform hop

end SiteFrame

end Gsdb
