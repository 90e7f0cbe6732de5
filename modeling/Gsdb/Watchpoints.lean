/-
Watchpoints: hardware stoppoints on data, with the value last seen at the
watched address.
-/
import Gsdb.BreakpointSites

namespace Gsdb

open ByteMemory Effects Eff Debugger

namespace Debugger

/-- The watchpoint a reference into `watchpoints_` stands for. -/
def watchpointAt (index : Nat) : Debugger Watchpoint :=
  asks fun m => match m.process.watchpoints[index]? with
    | some point => .ok point
    | none => .error (.undefined "dangling watchpoint")

def updateWatchpoint (index : Nat) (f : Watchpoint → Watchpoint) : Debugger PUnit :=
  modifyProcess fun p => { p with watchpoints := p.watchpoints.modify index f }

/-- The value at a watched address, as `watchpoint::update_data` reads it. -/
def watchedData (m : Machine) (address : Word) (size : Nat) : Except Failure Word := do
  let read ← readMemory m address size
  pure (BitVec.ofNat 64 (ofLe (read.take 8)))

/-- The checks of `watchpoint::watchpoint`. -/
def checkWatchpoint (address : Word) (mode : StoppointMode) (size : Nat) : Except Failure PUnit :=
  if size ≠ 1 ∧ size ≠ 2 ∧ size ≠ 4 ∧ size ≠ 8 then
    .error (.error "Watchponit size must be 1, 2, 4, or 8!")
  else if mode = .execute ∧ size ≠ 1 then
    .error (.error "Execute watchponits must have size 1!")
  else if address &&& BitVec.ofNat 64 (size - 1) ≠ 0 then
    .error (.error "Watchpoint must be aligned to size!")
  else .ok ⟨⟩

/-- `process::create_watchpoint`; the new watchpoint is disabled and its
position is returned. -/
def createWatchpoint (address : Word) (mode : StoppointMode) (size : Nat) : Debugger Nat := do
  let m ← get
  if m.process.watchpoints.containsAddress address then
    fail ("Watchpoint already created at address " ++ toString address.toNat)
  else do
    ofExcept (checkWatchpoint address mode size)
    let id := m.process.nextWatchpointId + 1
    modifyProcess fun p => { p with nextWatchpointId := id }
    let data ← ofExcept (watchedData m address size)
    modifyProcess fun p => { p with
      watchpoints := p.watchpoints.push ⟨id, address, false, mode, size, -1, data, 0⟩ }
    pure m.process.watchpoints.length

/-- `watchpoint::enable`. -/
def enableWatchpoint (index : Nat) : Debugger PUnit := do
  let point ← watchpointAt index
  if point.isEnabled then pure ⟨⟩
  else do
    let slot ← setWatchpoint point.address point.mode point.size
    updateWatchpoint index fun w => { w with hardwareRegisterIndex := slot }
    updateWatchpoint index fun w => { w with isEnabled := true }

/-- `watchpoint::disable`; the slot stays noted. -/
def disableWatchpoint (index : Nat) : Debugger PUnit := do
  let point ← watchpointAt index
  if !point.isEnabled then pure ⟨⟩
  else do
    clearHardwareStoppoint point.hardwareRegisterIndex
    updateWatchpoint index fun w => { w with isEnabled := false }

/-- Disable the watchpoint at a position, then erase it. -/
def removeWatchpoint (index : Option Nat) : Debugger PUnit :=
  match index with
  | none => pure ⟨⟩
  | some index => do
      disableWatchpoint index
      modifyProcess fun p => { p with watchpoints := p.watchpoints.eraseIdx index }

end Debugger

/-- The operations on watchpoints. -/
inductive WatchpointOperation where
  | create (address : Word) (mode : StoppointMode) (size : Nat)
  | enable (index : Nat)
  | disable (index : Nat)
  | removeById (id : Int)
  | removeByAddress (address : Word)
deriving DecidableEq, Repr

def WatchpointOperation.run : WatchpointOperation → Debugger PUnit
  | .create address mode size => do
      let _ ← createWatchpoint address mode size
      pure ⟨⟩
  | .enable index => enableWatchpoint index
  | .disable index => disableWatchpoint index
  | .removeById id => do
      let m ← get
      removeWatchpoint (m.process.watchpoints.findById id)
  | .removeByAddress address => do
      let m ← get
      removeWatchpoint (m.process.watchpoints.findByAddress address)

/-- A relation that every step of the operations on watchpoints respects. -/
structure WatchpointFrame (R : Machine → Machine → Prop) : Prop where
  slots : DebugRegisterFrame R
  watchpoints : ∀ m watchpoints next, R m (m.setProcess fun p =>
    { p with watchpoints := watchpoints, nextWatchpointId := next })
  note : ∀ m observation, Observation.isSiteNote observation = true →
    R m (Machine.observe observation m)

namespace WatchpointFrame

variable {R : Machine → Machine → Prop} [Std.Refl R] [IsTrans Machine R]

omit [Std.Refl R] [IsTrans Machine R] in
theorem modifyWatchpoints (h : WatchpointFrame R) (f : List Watchpoint → List Watchpoint) :
    Respects R (modifyProcess fun p => { p with watchpoints := f p.watchpoints }) :=
  fun m => h.watchpoints m (f m.process.watchpoints) m.process.nextWatchpointId

theorem createWatchpoint (h : WatchpointFrame R) (address : Word) (mode : StoppointMode)
    (size : Nat) : Respects R (createWatchpoint address mode size) := by
  refine Respects.bind Respects.get fun m => Respects.ite (Respects.throw _) ?_
  refine Respects.bind (Respects.ofExcept _) fun _ => ?_
  refine Respects.bind (Respects.modify fun m => h.watchpoints m m.process.watchpoints _)
    fun _ => ?_
  refine Respects.bind (Respects.ofExcept _) fun data => ?_
  exact Respects.bind (h.modifyWatchpoints (StoppointCollection.push · _)) fun _ => Respects.pure _

theorem enableWatchpoint (h : WatchpointFrame R) (index : Nat) :
    Respects R (enableWatchpoint index) := by
  refine Respects.bind (Respects.asks _) fun point => Respects.ite (Respects.pure _) ?_
  refine Respects.bind (h.slots.setHardwareStoppoint h.note _ _ _) fun slot => ?_
  exact Respects.bind (h.modifyWatchpoints _) fun _ => h.modifyWatchpoints _

theorem disableWatchpoint (h : WatchpointFrame R) (index : Nat) :
    Respects R (disableWatchpoint index) := by
  refine Respects.bind (Respects.asks _) fun point => Respects.ite (Respects.pure _) ?_
  exact Respects.bind (h.slots.clearHardwareStoppoint h.note _) fun _ => h.modifyWatchpoints _

theorem removeWatchpoint (h : WatchpointFrame R) (index : Option Nat) :
    Respects R (removeWatchpoint index) := by
  cases index with
  | none => exact Respects.pure _
  | some index =>
      exact Respects.bind (h.disableWatchpoint index) fun _ =>
        h.modifyWatchpoints (List.eraseIdx · index)

theorem run (h : WatchpointFrame R) (op : WatchpointOperation) : Respects R op.run := by
  cases op with
  | create address mode size =>
      exact Respects.bind (h.createWatchpoint address mode size) fun _ => Respects.pure _
  | enable index => exact h.enableWatchpoint index
  | disable index => exact h.disableWatchpoint index
  | removeById id => exact Respects.bind Respects.get fun _ => h.removeWatchpoint _
  | removeByAddress address => exact Respects.bind Respects.get fun _ => h.removeWatchpoint _

end WatchpointFrame

end Gsdb
