/-
The arguments that `setup_arguments` writes on the stack: where each of them starts, and
when that is where the convention puts it.
-/
import Gsdb.ArgumentAllocation
import Mathlib.Order.Bounds.Basic

namespace Gsdb

open ByteMemory Effects Eff Debugger PoolAllocation

/-- The eightbytes of a parameter, in bytes. -/
def slotBytes (param : Ty) : Nat := (param.byteSize + 7) / 8 * 8

/-- An argument on the stack. -/
structure Slot where
  param : Ty
  start : Word
  data : List Byte

/-- The parameters that are set apart, with the data passed for them. -/
def stackParameters :
    List Ty → List TypedData → List (Placement RegisterId) → List (Ty × List Byte)
  | param :: params, arg :: args, .apart :: placements =>
      (param, arg.data) :: stackParameters params args placements
  | _ :: params, _ :: args, .among _ :: placements => stackParameters params args placements
  | _, _, _ => []

/-- The arguments on the stack, one after the other from an address upwards. -/
def slotsFrom : Word → List (Ty × List Byte) → List Slot
  | _, [] => []
  | start, (param, data) :: rest =>
      ⟨param, start, data⟩ :: slotsFrom (start + slotSize param) rest

/-- The room of the arguments on the stack. -/
def slotsLength (arguments : List (Ty × List Byte)) : Nat :=
  (arguments.map fun argument => slotBytes argument.1).sum

/-- From an address upwards, every slot starts at the lowest address that suits the
alignment of its parameter and holds the argument; the last ends at `limit` at most. -/
def LaidOut (limit : Nat) : Nat → List Slot → Prop
  | start, [] => start ≤ limit
  | start, slot :: rest =>
      IsLeast { a | start ≤ a ∧ max 8 slot.param.alignment ∣ a } slot.start.toNat ∧
        slot.data.length ≤ slotBytes slot.param ∧
        LaidOut limit (slot.start.toNat + slotBytes slot.param) rest

/-- From an address upwards, one eightbyte after the other, every slot starts at a
multiple of the alignment of its parameter. -/
def AlignedFrom : Nat → List (Ty × List Byte) → Prop
  | _, [] => True
  | start, (param, _) :: rest =>
      max 8 param.alignment ∣ start ∧ AlignedFrom (start + slotBytes param) rest

/-- The data of every argument fit into the eightbytes of its parameter. -/
def DataFit (arguments : List (Ty × List Byte)) : Prop :=
  ∀ argument ∈ arguments, argument.2.length ≤ slotBytes argument.1

section Slots

theorem slotSize_eq (param : Ty) : slotSize param = BitVec.ofNat 64 (slotBytes param) := by
  apply BitVec.eq_of_toNat_eq
  have hclear := toNat_clearLow (BitVec.ofNat 64 param.byteSize + 7) 3
  change (slotSize param).toNat = _ at hclear
  rw [hclear, slotBytes, BitVec.toNat_add, BitVec.toNat_ofNat, BitVec.toNat_ofNat]
  change (param.byteSize % 2 ^ 64 + 7) % 2 ^ 64 / 2 ^ 3 * 2 ^ 3 = _
  omega

/-- The slots are where the arguments are written. -/
theorem slotWrites_eq (params : List Ty) (args : List TypedData)
    (placements : List (Placement RegisterId)) (start : Word) :
    slotWrites start (stackArguments params args placements) =
      (slotsFrom start (stackParameters params args placements)).map fun slot =>
        (slot.start, slot.data) := by
  induction params generalizing args placements start with
  | nil => rfl
  | cons param params ih =>
      cases args with
      | nil => rfl
      | cons arg args =>
          cases placements with
          | nil => rfl
          | cons placement placements =>
              cases placement with
              | apart => exact congrArg ((start, arg.data) :: ·) (ih args placements _)
              | among taken => exact ih args placements start

theorem foldl_slotSize (params : List Ty) (args : List TypedData)
    (placements : List (Placement RegisterId)) (rsp : Word) :
    (stackArguments params args placements).foldl (fun rsp arg => rsp - arg.2) rsp =
      rsp - BitVec.ofNat 64 (slotsLength (stackParameters params args placements)) := by
  induction params generalizing args placements rsp with
  | nil => exact (BitVec.sub_zero rsp).symm
  | cons param params ih =>
      cases args with
      | nil => exact (BitVec.sub_zero rsp).symm
      | cons arg args =>
          cases placements with
          | nil => exact (BitVec.sub_zero rsp).symm
          | cons placement placements =>
              cases placement with
              | apart =>
                  have hsum : slotsLength (stackParameters (param :: params) (arg :: args)
                      (.apart :: placements)) =
                      slotBytes param + slotsLength (stackParameters params args placements) := rfl
                  rw [hsum, BitVec.ofNat_add, stackArguments, List.foldl_cons, ih, slotSize_eq]
                  rw [BitVec.sub_sub]
              | among taken => exact ih args placements rsp

/-- The stack pointer of the call, where the slots have room below an address. -/
theorem argumentBase_toNat (params : List Ty) (args : List TypedData)
    (placements : List (Placement RegisterId)) {rsp : Word}
    (hroom : slotsLength (stackParameters params args placements) ≤ rsp.toNat) :
    (argumentBase (stackArguments params args placements) rsp).toNat =
      (rsp.toNat - slotsLength (stackParameters params args placements)) / 16 * 16 := by
  have hclear := toNat_clearLow
    (rsp - BitVec.ofNat 64 (slotsLength (stackParameters params args placements))) 4
  rw [argumentBase, foldl_slotSize]
  change BitVec.toNat (_ &&& ~~~(BitVec.ofNat 64 (2 ^ 4 - 1))) = _
  rw [hclear, BitVec.toNat_sub_of_le (by
    rw [BitVec.le_def, BitVec.toNat_ofNat]
    exact Nat.le_trans (Nat.mod_le _ _) hroom), BitVec.toNat_ofNat,
    Nat.mod_eq_of_lt (Nat.lt_of_le_of_lt hroom rsp.isLt)]
  rfl

theorem LaidOut.le_limit {limit start : Nat} {slots : List Slot} (h : LaidOut limit start slots) :
    start ≤ limit := by
  induction slots generalizing start with
  | nil => exact h
  | cons slot rest ih =>
      have hlater := ih h.2.2
      have hfirst := h.1.1.1
      omega

/-- Slots one eightbyte after the other are laid out exactly if they have room, are
aligned, and their data fit. -/
theorem laidOut_iff {limit : Nat} (hlimit : limit < 2 ^ 64) (start : Word)
    (arguments : List (Ty × List Byte)) :
    LaidOut limit start.toNat (slotsFrom start arguments) ↔
      start.toNat + slotsLength arguments ≤ limit ∧ AlignedFrom start.toNat arguments ∧
        DataFit arguments := by
  induction arguments generalizing start with
  | nil => simp [slotsFrom, LaidOut, slotsLength, AlignedFrom, DataFit]
  | cons argument rest ih =>
      obtain ⟨param, data⟩ := argument
      have hlength : slotsLength ((param, data) :: rest) = slotBytes param + slotsLength rest := rfl
      have hnext : start.toNat + slotBytes param ≤ limit →
          (start + slotSize param).toNat = start.toNat + slotBytes param := by
        intro hroom
        rw [slotSize_eq, BitVec.toNat_add, BitVec.toNat_ofNat]
        omega
      have hleast : IsLeast { a | start.toNat ≤ a ∧ max 8 param.alignment ∣ a } start.toNat ↔
          max 8 param.alignment ∣ start.toNat :=
        ⟨fun h => h.1.2, fun h => ⟨⟨Nat.le_refl _, h⟩, fun _ ha => ha.1⟩⟩
      have hfit : DataFit ((param, data) :: rest) ↔
          data.length ≤ slotBytes param ∧ DataFit rest := by
        simp [DataFit]
      rw [slotsFrom, LaidOut, hleast, hlength, AlignedFrom, hfit]
      by_cases hroom : start.toNat + slotBytes param ≤ limit
      · have hlater := ih (start + slotSize param)
        rw [hnext hroom] at hlater
        change _ ∧ _ ∧ LaidOut limit (start.toNat + slotBytes param) _ ↔ _
        rw [hlater]
        constructor
        · rintro ⟨haligned, hdata, hend, hrest, hfits⟩
          exact ⟨by omega, ⟨haligned, hrest⟩, hdata, hfits⟩
        · rintro ⟨hend, ⟨haligned, hrest⟩, hdata, hfits⟩
          exact ⟨haligned, hdata, by omega, hrest, hfits⟩
      · refine iff_of_false (fun h => hroom ?_) (fun h => hroom ?_)
        · exact h.2.2.le_limit
        · have := h.1
          omega

end Slots

section Contents

theorem writeEach_outside {writes : List (Word × List Byte)} {memory : Memory 64} {address : Word}
    (h : ∀ write ∈ writes, ∀ i < write.2.length, address ≠ write.1 + BitVec.ofNat 64 i) :
    writeEach memory writes address = memory address := by
  induction writes generalizing memory with
  | nil => rfl
  | cons write rest ih =>
      have hlater : writeEach (memory.write write.1 write.2) rest address =
          memory.write write.1 write.2 address :=
        ih fun w hw => h w (List.mem_cons_of_mem _ hw)
      exact hlater.trans (Memory.write_outside _ _ _ _ (h write List.mem_cons_self))

/-- The slots of a layout are above its start. -/
theorem LaidOut.above {limit start : Nat} {slots : List Slot} (h : LaidOut limit start slots)
    {slot : Slot} (hslot : slot ∈ slots) :
    start ≤ slot.start.toNat ∧ slot.start.toNat + slot.data.length ≤ limit := by
  induction slots generalizing start with
  | nil => cases hslot
  | cons first rest ih =>
      obtain ⟨hleast, hfits, hrest⟩ := h
      have hstart := hleast.1.1
      have hend := hrest.le_limit
      rcases List.mem_cons.mp hslot with rfl | hslot
      · exact ⟨hstart, by omega⟩
      · obtain ⟨hlow, hhigh⟩ := ih hrest hslot
        exact ⟨by omega, hhigh⟩

/-- In a layout every argument is in memory once all are written. -/
theorem LaidOut.read {limit start : Nat} (hlimit : limit < 2 ^ 64) {slots : List Slot}
    (h : LaidOut limit start slots) (memory : Memory 64) {slot : Slot} (hslot : slot ∈ slots) :
    (writeEach memory (slots.map fun slot => (slot.start, slot.data))).read slot.start
      slot.data.length = slot.data := by
  induction slots generalizing start memory with
  | nil => cases hslot
  | cons first rest ih =>
      rcases List.mem_cons.mp hslot with rfl | hslot'
      swap
      · exact ih h.2.2 _ hslot'
      obtain ⟨hleast, hfits, hrest⟩ := h
      have hend := hrest.le_limit
      have hwritten : (memory.write slot.start slot.data).read slot.start slot.data.length =
          slot.data :=
        Memory.read_write memory slot.start slot.data (by omega)
      rw [List.map_cons]
      refine Eq.trans (Memory.read_congr fun i hi => ?_) hwritten
      change writeEach (memory.write slot.start slot.data) _ _ = _
      refine writeEach_outside fun write hwrite j hj heq => ?_
      obtain ⟨other, hother, rfl⟩ := List.mem_map.mp hwrite
      obtain ⟨hlow, hhigh⟩ := hrest.above hother
      change j < other.data.length at hj
      change slot.start + BitVec.ofNat 64 i = other.start + BitVec.ofNat 64 j at heq
      have hnat := congrArg BitVec.toNat heq
      rw [BitVec.toNat_add, BitVec.toNat_add, BitVec.toNat_ofNat, BitVec.toNat_ofNat] at hnat
      omega

end Contents

section Layout

variable (func : Function) (args : List TypedData) (rsp : Word)
  (placements : List (Placement RegisterId))

/-- The parameters on the stack with what is passed for them. -/
def stackPassed : List (Ty × List Byte) :=
  stackParameters func.parameterTypes (passedArguments func.parameterTypes args rsp) placements

/-- The stack pointer that `setup_arguments` leaves. -/
def callStackPointer : Word :=
  argumentBase (stackArguments func.parameterTypes (passedArguments func.parameterTypes args rsp)
    placements) (belowCopies func.parameterTypes args rsp)

/-- The arguments on the stack. -/
def stackSlots : List Slot :=
  slotsFrom (callStackPointer func args rsp placements) (stackPassed func args rsp placements)

/-- From the stack pointer of the call upwards the arguments are where the convention
puts them, and they end below every copy of an argument that is passed by reference. -/
structure StackLayout : Prop where
  slots : LaidOut (belowCopies func.parameterTypes args rsp).toNat
    (callStackPointer func args rsp placements).toNat (stackSlots func args rsp placements)
  copies : ∀ copy ∈ argumentCopies func.parameterTypes args rsp,
    (belowCopies func.parameterTypes args rsp).toNat ≤ copy.1.toNat

/-- There is room below the stack pointer, and with the slots one eightbyte after the
other, from a multiple of sixteen upwards, each is aligned and has room for its data. -/
structure StackSuits : Prop where
  room : slotsLength (stackPassed func args rsp placements) ≤
    (belowCopies func.parameterTypes args rsp).toNat
  copies : ∀ copy ∈ argumentCopies func.parameterTypes args rsp,
    (belowCopies func.parameterTypes args rsp).toNat ≤ copy.1.toNat
  aligned : AlignedFrom (((belowCopies func.parameterTypes args rsp).toNat -
    slotsLength (stackPassed func args rsp placements)) / 16 * 16)
    (stackPassed func args rsp placements)
  fit : DataFit (stackPassed func args rsp placements)

theorem stackLayout_iff :
    StackLayout func args rsp placements ↔ StackSuits func args rsp placements := by
  have hlaid := laidOut_iff (belowCopies func.parameterTypes args rsp).isLt
    (callStackPointer func args rsp placements) (stackPassed func args rsp placements)
  have hbase : slotsLength (stackPassed func args rsp placements) ≤
      (belowCopies func.parameterTypes args rsp).toNat →
      (callStackPointer func args rsp placements).toNat =
        ((belowCopies func.parameterTypes args rsp).toNat -
          slotsLength (stackPassed func args rsp placements)) / 16 * 16 :=
    argumentBase_toNat _ _ _
  constructor
  · rintro ⟨hslots, hcopies⟩
    obtain ⟨hend, haligned, hfit⟩ := hlaid.mp hslots
    have hroom : slotsLength (stackPassed func args rsp placements) ≤
        (belowCopies func.parameterTypes args rsp).toNat := by
      omega
    rw [hbase hroom] at haligned
    exact ⟨hroom, hcopies, haligned, hfit⟩
  · rintro ⟨hroom, hcopies, haligned, hfit⟩
    refine ⟨hlaid.mpr ⟨?_, ?_, hfit⟩, hcopies⟩
    · rw [hbase hroom]
      omega
    · rw [hbase hroom]
      exact haligned

end Layout

/-- When `setup_arguments` returns, the arguments on the stack are where the convention
puts them exactly if the eightbytes before each of them add up to its alignment. -/
theorem setupArguments_layout_iff {tid : Tid} {func : Function} {args : List TypedData}
    {returnSlot : Option Word} {m m' : Machine} {u : PUnit}
    (h : setupArguments tid func args returnSlot m = (.ok u, m')) :
    ∃ rsp placements left, m.StackPointerAt tid rsp ∧
      ArgumentsPassed tid func args returnSlot rsp placements left m m' ∧
      (StackLayout func args rsp placements ↔ StackSuits func args rsp placements) ∧
      (StackLayout func args rsp placements → (∀ arg ∈ args, arg.data.length ≤ 2 ^ 64) →
        ∀ slot ∈ stackSlots func args rsp placements,
          m'.kernel.memory.read slot.start slot.data.length = slot.data) := by
  obtain ⟨rsp, placements, left, hrsp, hpassed⟩ := setupArguments_eq_ok h
  refine ⟨rsp, placements, left, hrsp, hpassed, stackLayout_iff func args rsp placements, ?_⟩
  intro hlayout hfits slot hslot
  rw [hpassed.stack hfits, slotWrites_eq]
  exact hlayout.slots.read (BitVec.isLt _) _ hslot

namespace StackWitness

def long : Ty := .base "long" .signed 8

/-- `struct S { long a, b, c; };` -/
def record : Ty :=
  .cls .structure_ "S" (some 24)
    (.member long ⟨"a", false, some 0, none, none, none, none, none⟩
    (.member long ⟨"b", false, some 8, none, none, none, none, none⟩
    (.member long ⟨"c", false, some 16, none, none, none, none, none⟩ .nil)))

def longDouble : Ty := .base "long double" .float 16

/-- `void f(S, long double);` -/
def takesBoth : Function := ⟨[record, longDouble], none, none, none, none⟩

def arguments : List TypedData :=
  [⟨List.replicate 24 1, .dwarf record, none⟩, ⟨List.replicate 16 2, .dwarf longDouble, none⟩]

/-- One stopped thread with a stack. -/
def machine : Machine :=
  let rest := Machine.atRest fun _ => 0
  { rest with process := { rest.process with
      threads := [(1, ⟨⟨Area.write (fun _ => 0) 152 (toLe 8 0x7000), [], 0⟩,
        ⟨1, .stopped, 0, none, none⟩, .stopped, false⟩)] } }

def setUp : Except Failure PUnit × Machine := setupArguments 1 takesBoth arguments none machine

theorem setUp_returns : setupArguments 1 takesBoth arguments none machine = (.ok ⟨⟩, setUp.2) := by
  have hreturns : setUp.1.toOption.isSome = true := by decide +kernel
  change setUp = _
  rcases hrun : setUp with ⟨e | u, m'⟩
  · rw [hrun] at hreturns
    cases hreturns
  · rfl

end StackWitness

open StackWitness in
theorem setupArguments_layout_iff_both :
    ∃ rsp placements left, machine.StackPointerAt 1 rsp ∧
      ArgumentsPassed 1 takesBoth arguments none rsp placements left machine setUp.2 ∧
      (StackLayout takesBoth arguments rsp placements ↔
        StackSuits takesBoth arguments rsp placements) ∧
      (StackLayout takesBoth arguments rsp placements →
        (∀ arg ∈ arguments, arg.data.length ≤ 2 ^ 64) →
        ∀ slot ∈ stackSlots takesBoth arguments rsp placements,
          setUp.2.kernel.memory.read slot.start slot.data.length = slot.data) :=
  setupArguments_layout_iff setUp_returns

open StackWitness in
/-- A long double behind a structure of three words starts at an odd eightbyte. -/
theorem longDouble_misaligned :
    ¬ ∀ (tid : Tid) (func : Function) (args : List TypedData) (returnSlot : Option Word)
      (m m' : Machine) (u : PUnit), setupArguments tid func args returnSlot m = (.ok u, m') →
      ∃ rsp placements left, m.StackPointerAt tid rsp ∧
        ArgumentsPassed tid func args returnSlot rsp placements left m m' ∧
        StackLayout func args rsp placements := by
  intro hall
  obtain ⟨rsp, placements, left, hrsp, hpassed, hlayout⟩ :=
    hall 1 takesBoth arguments none machine setUp.2 ⟨⟩ setUp_returns
  obtain ⟨thread, hthread, hread⟩ := hrsp
  have hvalue : (0x7000 : Word) = rsp := by
    cases hthread
    have hat : (machine.process.threads.head?.map fun entry => entry.2.regs.readU64 .rsp) =
        some (.ok 0x7000) := by
      decide +kernel
    exact Except.ok.inj ((Option.some.inj hat).symm.trans hread)
  subst hvalue
  have hrecord : record.demand.reserved = [] := by decide +kernel
  have hlong : longDouble.demand.reserved = [] := by decide +kernel
  have hplaced : Allocates (argumentPools none) [record.demand, longDouble.demand]
      [.apart, .apart] (argumentPools none) :=
    .apart (.inl hrecord) (.apart (.inl hlong) (.nil _))
  obtain ⟨rfl, -⟩ := hpassed.allocates.unique hplaced
  have haligned := ((stackLayout_iff takesBoth arguments 0x7000 _).mp hlayout).aligned
  have hsecond : ¬ max 8 longDouble.alignment ∣ (0x7000 - 40) / 16 * 16 + 24 := by decide +kernel
  exact hsecond haligned.2.1

end Gsdb
