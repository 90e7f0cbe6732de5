/-
Reading the value a called function returned.  The calling convention returns
the eightbytes of a small value in two sequences of registers, one for each
class; the question is when the bytes put together from them are the value.
-/
import Gsdb.ProcessMemory
import Gsdb.Types

namespace Gsdb

open ByteMemory Effects Eff Debugger

/-- `read_by_id_as<long double>`. -/
def Registers.readLongDouble (regs : Registers) (id : RegisterId) :
    Except Failure (BitVec 128) := do
  let info ← registerInfoById id
  match ← regs.read info with
  | .longDouble x => .ok x
  | _ => .error (.exception "bad_variant_access")

/-- The variables of the loop in `read_return_value`. -/
structure ReturnState where
  usedInt : Bool
  usedSse : Bool
  value : List Byte
deriving DecidableEq, Repr

namespace Debugger

/-- One round of the loop over the classes. -/
def readEightbyte (returnSlot : Word) (regs : Registers) (retClass : ParameterClass)
    (st : ReturnState) : Debugger ReturnState :=
  match retClass with
  | .integer => do
      let data ← ofExcept (regs.readU64 (if st.usedInt then .rdx else .rax))
      pure { st with usedInt := true, value := st.value ++ toLe 8 data.toNat }
  | .sse => do
      let data ← ofExcept (regs.readByte128 (if st.usedSse then .xmm1 else .xmm0))
      let value := toLe 16 data.toNat
      writeMemory returnSlot value
      pure { st with usedSse := true, value := value }
  | .noClass => pure st
  | _ => fail "Unsupported return type!"

/-- `read_return_value`. -/
def readReturnValue (retType : Ty) (returnSlot : Word) (regs : Registers) :
    Debugger TypedData := do
  let classes ← ofExcept retType.getParameterClasses
  if classes.first = .memory then do
    let m ← get
    let value ← ofExcept (readMemory m returnSlot retType.byteSize)
    pure ⟨value, .dwarf retType, some returnSlot⟩
  else if classes.first = .x87 then do
    let data ← ofExcept (regs.readLongDouble .st0)
    let value := toLe 16 data.toNat
    writeMemory returnSlot value
    pure ⟨value, .dwarf retType, some returnSlot⟩
  else do
    let st ← readEightbyte returnSlot regs classes.first ⟨false, false, []⟩
    let st ← readEightbyte returnSlot regs classes.second st
    writeMemory returnSlot st.value
    pure ⟨st.value, .dwarf retType, some returnSlot⟩

end Debugger

/-- The bytes of a register in the cached user area. -/
def Registers.bytes (regs : Registers) (id : RegisterId) : List Byte :=
  match registerInfoById id with
  | .ok info => regs.data.read info.offset info.size
  | .error _ => []

/-- Eightbytes stand in the low bytes of registers, in order. -/
def HoldsInOrder (regs : Registers) : List (List Byte) → List RegisterId → Prop
  | eightbyte :: rest, id :: ids =>
      (regs.bytes id).take eightbyte.length = eightbyte ∧ HoldsInOrder regs rest ids
  | _, _ => True

/-- The eightbytes of a value that have a class. -/
def eightbytesOf (classes : ParameterClasses) (cls : ParameterClass) (value : List Byte) :
    List (List Byte) :=
  (if classes.first = cls then [value.take 8] else []) ++
    (if classes.second = cls then [value.drop 8] else [])

/-- The value is placed in the return registers as the convention says: its
INTEGER eightbytes in `rax` and `rdx`, its SSE eightbytes in the low halves of
`xmm0` and `xmm1`. -/
def HoldsReturnValue (regs : Registers) (classes : ParameterClasses) (value : List Byte) :
    Prop :=
  HoldsInOrder regs (eightbytesOf classes .integer value) [.rax, .rdx] ∧
    HoldsInOrder regs (eightbytesOf classes .sse value) [.xmm0, .xmm1]

/-- Reading back gives the value and stays within the return slot, whatever
registers hold it and whatever memory was like. -/
def ReturnsValue (retType : Ty) (classes : ParameterClasses) (value : List Byte) : Prop :=
  ∀ (m : Machine) (regs : Registers) (returnSlot : Word), MemoryAccessible m →
    regs.undefinedOffsets = [] → HoldsReturnValue regs classes value →
    ∃ data last, readReturnValue retType returnSlot regs m = (.ok data, last) ∧
      data.data.take retType.byteSize = value ∧
      ∀ address, (∀ i < retType.byteSize, address ≠ returnSlot + BitVec.ofNat 64 i) →
        last.kernel.memory address = m.kernel.memory address

/-- The value fills whole eightbytes of class INTEGER and nothing else. -/
def FillsIntegerEightbytes (byteSize : Nat) (classes : ParameterClasses) : Prop :=
  (byteSize = 0 ∧ classes = ⟨.noClass, .noClass⟩) ∨
    (byteSize = 8 ∧ classes = ⟨.integer, .noClass⟩) ∨
    (byteSize = 16 ∧ classes = ⟨.integer, .integer⟩)

/-- The classes of values returned in registers. -/
def ParameterClass.inRegisters (cls : ParameterClass) : Prop :=
  cls = .integer ∨ cls = .sse ∨ cls = .noClass

/-- What a round of the loop does to its variables, as bytes of registers. -/
def ReturnState.advance (regs : Registers) (cls : ParameterClass) (st : ReturnState) :
    ReturnState :=
  match cls with
  | .integer =>
      { st with
        usedInt := true
        value := st.value ++ regs.bytes (if st.usedInt then .rdx else .rax) }
  | .sse =>
      { st with
        usedSse := true
        value := regs.bytes (if st.usedSse then .xmm1 else .xmm0) }
  | _ => st

/-- The bytes that are put together from the registers. -/
def collectedValue (regs : Registers) (classes : ParameterClasses) : List Byte :=
  (ReturnState.advance regs classes.second
    (ReturnState.advance regs classes.first ⟨false, false, []⟩)).value

section Reading

variable {regs : Registers}

private theorem Registers.not_isUndefined (h : regs.undefinedOffsets = [])
    (info : RegisterInfo) : regs.isUndefined info = false := by
  simp [Registers.isUndefined, h]

theorem toLe_word (data : User) (w offset : Nat) (hw : w = 8 * (w / 8)) :
    toLe (w / 8) (Registers.word data w offset).toNat = data.read offset (w / 8) := by
  have hlt := ofLe_lt (data.read offset (w / 8))
  rw [Area.read_length] at hlt
  have hpow : 256 ^ (w / 8) = 2 ^ w := by
    rw [show 256 = 2 ^ 8 from rfl, ← Nat.pow_mul, ← hw]
  have hbytes := toLe_ofLe (data.read offset (w / 8))
  rw [Area.read_length] at hbytes
  rw [Registers.word, BitVec.toNat_ofNat, Nat.mod_eq_of_lt (hpow ▸ hlt), hbytes]

/-- An integer return register reads as its bytes. -/
theorem readU64_bytes (hdefined : regs.undefinedOffsets = []) (second : Bool) :
    ∃ word, regs.readU64 (if second then .rdx else .rax) = .ok word ∧
      toLe 8 word.toNat = regs.bytes (if second then .rdx else .rax) := by
  have hread : ∀ info : RegisterInfo, info.format = .uint → info.size = 8 →
      regs.read info = .ok (.u64 (Registers.word regs.data 64 info.offset)) := by
    intro info hformat hsize
    rw [Registers.read, Registers.not_isUndefined hdefined, if_neg (by decide), hformat, hsize]
    rfl
  cases second with
  | false =>
      refine ⟨Registers.word regs.data 64 80, ?_, toLe_word regs.data 64 80 rfl⟩
      have hinfo : registerInfoById .rax = .ok (gpr64 .rax "rax" 0 80) := rfl
      rw [Registers.readU64, if_neg (by decide), hinfo, ok_bind, hread _ rfl rfl]
      rfl
  | true =>
      refine ⟨Registers.word regs.data 64 96, ?_, toLe_word regs.data 64 96 rfl⟩
      have hinfo : registerInfoById .rdx = .ok (gpr64 .rdx "rdx" 1 96) := rfl
      rw [Registers.readU64, if_pos rfl, hinfo, ok_bind, hread _ rfl rfl]
      rfl

/-- A vector return register reads as its bytes. -/
theorem readByte128_bytes (hdefined : regs.undefinedOffsets = []) (second : Bool) :
    ∃ vector, regs.readByte128 (if second then .xmm1 else .xmm0) = .ok vector ∧
      toLe 16 vector.toNat = regs.bytes (if second then .xmm1 else .xmm0) := by
  have hread : ∀ info : RegisterInfo, info.format = .vector → info.size = 16 →
      regs.read info = .ok (.byte128 (Registers.word regs.data 128 info.offset)) := by
    intro info hformat hsize
    rw [Registers.read, Registers.not_isUndefined hdefined, if_neg (by decide), hformat, hsize]
    rfl
  cases second with
  | false =>
      refine ⟨Registers.word regs.data 128 384, ?_, toLe_word regs.data 128 384 rfl⟩
      have hinfo : registerInfoById .xmm0 = .ok (fpXmm .xmm0 "xmm0" 0) := rfl
      rw [Registers.readByte128, if_neg (by decide), hinfo, ok_bind, hread _ rfl rfl]
      rfl
  | true =>
      refine ⟨Registers.word regs.data 128 400, ?_, toLe_word regs.data 128 400 rfl⟩
      have hinfo : registerInfoById .xmm1 = .ok (fpXmm .xmm1 "xmm1" 1) := rfl
      rw [Registers.readByte128, if_pos rfl, hinfo, ok_bind, hread _ rfl rfl]
      rfl

@[simp]
theorem Registers.bytes_rax_length (regs : Registers) : (regs.bytes .rax).length = 8 :=
  Area.read_length regs.data 80 8

@[simp]
theorem Registers.bytes_rdx_length (regs : Registers) : (regs.bytes .rdx).length = 8 :=
  Area.read_length regs.data 96 8

@[simp]
theorem Registers.bytes_xmm0_length (regs : Registers) : (regs.bytes .xmm0).length = 16 :=
  Area.read_length regs.data 384 16

@[simp]
theorem Registers.bytes_xmm1_length (regs : Registers) : (regs.bytes .xmm1).length = 16 :=
  Area.read_length regs.data 400 16

/-- A round advances the loop's variables; it writes memory only for an SSE
eightbyte. -/
theorem readEightbyte_eq {m : Machine} (h : MemoryAccessible m)
    (hdefined : regs.undefinedOffsets = []) (returnSlot : Word) {cls : ParameterClass}
    (hcls : cls.inRegisters) (st : ReturnState) :
    ∃ memory, readEightbyte returnSlot regs cls st m =
        (.ok (st.advance regs cls), m.setMemory memory) ∧
      (cls ≠ .sse → memory = m.kernel.memory) := by
  rcases hcls with rfl | rfl | rfl
  · obtain ⟨word, hread, hbytes⟩ := readU64_bytes hdefined st.usedInt
    refine ⟨m.kernel.memory, ?_, fun _ => rfl⟩
    have hword : (ofExcept (regs.readU64 (if st.usedInt then .rdx else .rax)) : Debugger Word) m =
        (.ok word, m) := by rw [ofExcept_apply, hread]
    simp only [readEightbyte]
    rw [bind_of_ok hword, hbytes]
    rfl
  · obtain ⟨vector, hread, hbytes⟩ := readByte128_bytes hdefined st.usedSse
    refine ⟨m.kernel.memory.write returnSlot (toLe 16 vector.toNat), ?_, fun hne => absurd rfl hne⟩
    have hvector : (ofExcept (regs.readByte128 (if st.usedSse then .xmm1 else .xmm0)) :
        Debugger (BitVec 128)) m = (.ok vector, m) := by rw [ofExcept_apply, hread]
    simp only [readEightbyte]
    rw [bind_of_ok hvector, bind_of_ok (h.writeMemory _ _ (by simp)), hbytes]
    rfl
  · exact ⟨m.kernel.memory, rfl, fun _ => rfl⟩

theorem collectedValue_length_le (regs : Registers) {classes : ParameterClasses}
    (hfirst : classes.first.inRegisters) (hsecond : classes.second.inRegisters) :
    (collectedValue regs classes).length ≤ 2 ^ 64 := by
  rcases classes with ⟨first, second⟩
  rcases hfirst with rfl | rfl | rfl <;> rcases hsecond with rfl | rfl | rfl <;>
    simp [collectedValue, ReturnState.advance]

/-- What `read_return_value` returns and leaves in memory. -/
theorem readReturnValue_eq {m : Machine} (h : MemoryAccessible m)
    (hdefined : regs.undefinedOffsets = []) (returnSlot : Word) {retType : Ty}
    {classes : ParameterClasses} (hclasses : retType.getParameterClasses = .ok classes)
    (hfirst : classes.first.inRegisters) (hsecond : classes.second.inRegisters) :
    ∃ memory, readReturnValue retType returnSlot regs m =
        (.ok ⟨collectedValue regs classes, .dwarf retType, some returnSlot⟩,
          m.setMemory (memory.write returnSlot (collectedValue regs classes))) ∧
      (classes.first ≠ .sse → classes.second ≠ .sse → memory = m.kernel.memory) := by
  obtain ⟨one, hone, hkeepOne⟩ := readEightbyte_eq h hdefined returnSlot hfirst ⟨false, false, []⟩
  obtain ⟨two, htwo, hkeepTwo⟩ :=
    readEightbyte_eq (h.setMemory one) hdefined returnSlot hsecond
      (ReturnState.advance regs classes.first ⟨false, false, []⟩)
  have hget : (ofExcept retType.getParameterClasses : Debugger ParameterClasses) m =
      (.ok classes, m) := by rw [ofExcept_apply, hclasses]
  have hlength := collectedValue_length_le regs hfirst hsecond
  refine ⟨two, ?_, fun hone' htwo' => ?_⟩
  · have hmemory : classes.first ≠ .memory := by
      rcases hfirst with hc | hc | hc <;> rw [hc] <;> decide
    have hx87 : classes.first ≠ .x87 := by
      rcases hfirst with hc | hc | hc <;> rw [hc] <;> decide
    have hwrite := ((h.setMemory one).setMemory two).writeMemory returnSlot
      (collectedValue regs classes) hlength
    rw [readReturnValue, bind_of_ok hget, if_neg hmemory, if_neg hx87, bind_of_ok hone,
      bind_of_ok htwo]
    exact bind_of_ok hwrite _
  · rw [hkeepTwo htwo', hkeepOne hone']
    rfl

end Reading

section Placing

variable {value : List Byte} {classes : ParameterClasses}

/-- Registers whose return registers begin with given bytes and are filled up
with one byte, as is everything else. -/
def returnRegisters (filler : Byte) (ints sses : List (List Byte)) : Registers where
  data :=
    (((Area.write (fun _ => filler) 80 (ints.getD 0 [])).write 96 (ints.getD 1 [])).write
      384 (sses.getD 0 [])).write 400 (sses.getD 1 [])
  undefinedOffsets := []
  cfa := 0

private theorem Area.read_take (area : Area) (offset n k : Nat) (h : k ≤ n) :
    (area.read offset n).take k = area.read offset k := by
  rw [Area.read, ← List.map_take, List.take_range, Nat.min_eq_left h]
  rfl

theorem eightbytesOf_length_le (classes : ParameterClasses) (cls : ParameterClass)
    (hvalue : value.length ≤ 16) (i : Nat) :
    ((eightbytesOf classes cls value).getD i []).length ≤ 8 := by
  rw [List.getD_eq_getElem?_getD]
  cases h : (eightbytesOf classes cls value)[i]? with
  | none => simp
  | some eightbyte =>
      have hmem := List.mem_of_getElem? h
      simp only [eightbytesOf, List.mem_append] at hmem
      simp only [Option.getD_some]
      rcases hmem with hmem | hmem
      · split at hmem <;> simp_all
      · split at hmem <;> simp_all

theorem holdsInOrder_pair {regs : Registers} {eightbytes : List (List Byte)} {one two : RegisterId}
    (hone : (regs.bytes one).take (eightbytes.getD 0 []).length = eightbytes.getD 0 [])
    (htwo : (regs.bytes two).take (eightbytes.getD 1 []).length = eightbytes.getD 1 []) :
    HoldsInOrder regs eightbytes [one, two] := by
  match eightbytes with
  | [] => trivial
  | [_] => exact ⟨hone, trivial⟩
  | _ :: _ :: [] => exact ⟨hone, htwo, trivial⟩
  | _ :: _ :: _ :: _ => exact ⟨hone, htwo, trivial⟩

/-- A value can be placed in the return registers above any filler. -/
theorem returnRegisters_holds (filler : Byte) (hvalue : value.length ≤ 16) :
    HoldsReturnValue (returnRegisters filler (eightbytesOf classes .integer value)
      (eightbytesOf classes .sse value)) classes value := by
  have hint := eightbytesOf_length_le classes .integer hvalue
  have hsse := eightbytesOf_length_le classes .sse hvalue
  refine ⟨holdsInOrder_pair ?_ ?_, holdsInOrder_pair ?_ ?_⟩
  · change (Area.read _ 80 8).take _ = _
    rw [Area.read_take _ _ _ _ (hint 0), returnRegisters, Area.read_write_disjoint,
      Area.read_write_disjoint, Area.read_write_disjoint, Area.read_write] <;>
      have := hint 0 <;> omega
  · change (Area.read _ 96 8).take _ = _
    rw [Area.read_take _ _ _ _ (hint 1), returnRegisters, Area.read_write_disjoint,
      Area.read_write_disjoint, Area.read_write] <;>
      have := hint 1 <;> omega
  · change (Area.read _ 384 16).take _ = _
    have hlength := hsse 0
    rw [Area.read_take _ _ _ _ (by omega), returnRegisters, Area.read_write_disjoint,
      Area.read_write]
    omega
  · change (Area.read _ 400 16).take _ = _
    have hlength := hsse 1
    rw [Area.read_take _ _ _ _ (by omega), returnRegisters, Area.read_write]

/-- The bytes above the placed ones are the filler. -/
theorem returnRegisters_filler (filler : Byte) {ints sses : List (List Byte)} {i : Nat}
    (hrax : i < 80 ∨ 80 + (ints.getD 0 []).length ≤ i)
    (hrdx : i < 96 ∨ 96 + (ints.getD 1 []).length ≤ i)
    (hxmm0 : i < 384 ∨ 384 + (sses.getD 0 []).length ≤ i)
    (hxmm1 : i < 400 ∨ 400 + (sses.getD 1 []).length ≤ i) :
    (returnRegisters filler ints sses).data i = filler := by
  simp only [returnRegisters]
  rw [Area.write_outside hxmm1, Area.write_outside hxmm0, Area.write_outside hrdx,
    Area.write_outside hrax]

private theorem Area.read_getLast (area : Area) (offset n : Nat) :
    (area.read offset (n + 1)).getLast? = some (area (offset + n)) := by
  simp [Area.read, List.range_succ]

end Placing

section Exactness

variable {retType : Ty} {classes : ParameterClasses} {value : List Byte}

theorem atRest_memoryAccessible (memory : Memory 64) :
    MemoryAccessible (Machine.atRest memory) :=
  ⟨rfl, fun _ => rfl, show 2 ≤ 1024 by decide⟩

/-- If reading back gives the value and stays in the slot, then exactly the
value is put together. -/
theorem ReturnsValue.collectedValue_eq (h : ReturnsValue retType classes value)
    (hclasses : retType.getParameterClasses = .ok classes)
    (hfirst : classes.first.inRegisters) (hsecond : classes.second.inRegisters)
    (hsize : retType.byteSize ≤ 16) {regs : Registers}
    (hdefined : regs.undefinedOffsets = []) (hholds : HoldsReturnValue regs classes value) :
    collectedValue regs classes = value := by
  let unlike : Byte := (collectedValue regs classes).getD retType.byteSize 0 + 1
  have haccess := atRest_memoryAccessible fun _ => unlike
  obtain ⟨data, last, hrun, hdata, hframe⟩ := h _ regs 0 haccess hdefined hholds
  obtain ⟨memory, hrun', -⟩ :=
    readReturnValue_eq haccess hdefined 0 hclasses hfirst hsecond
  rw [hrun'] at hrun
  cases hrun
  by_cases hlength : (collectedValue regs classes).length ≤ retType.byteSize
  · rw [← hdata, List.take_of_length_le hlength]
  · have hlt : retType.byteSize < (collectedValue regs classes).length := by omega
    have hkept := hframe (0 + BitVec.ofNat 64 retType.byteSize) fun i hi =>
      (ofNat_add_ne 0 (by omega) (by omega) (by omega))
    have hwritten := memory.write_inside 0 (collectedValue regs classes)
      (collectedValue_length_le regs hfirst hsecond) retType.byteSize hlt
    have hunlike : (collectedValue regs classes)[retType.byteSize] = unlike :=
      hwritten.symm.trans hkept
    have hget : unlike = (collectedValue regs classes)[retType.byteSize] + 1 := by
      simp [unlike, hlt]
    rw [hget] at hunlike
    simp at hunlike

/-- Nothing but whole INTEGER eightbytes determines all bytes that are read. -/
theorem fills_of_collectedValue_eq (hfirst : classes.first.inRegisters)
    (hsecond : classes.second.inRegisters) (hsize : value.length ≤ 16)
    (h : ∀ regs : Registers, regs.undefinedOffsets = [] → HoldsReturnValue regs classes value →
      collectedValue regs classes = value) :
    FillsIntegerEightbytes value.length classes := by
  obtain ⟨filler, hfiller⟩ : ∃ filler : Byte, filler = value.getLast?.getD 0 + 1 := ⟨_, rfl⟩
  let regs := returnRegisters filler (eightbytesOf classes .integer value)
    (eightbytesOf classes .sse value)
  have hvalue := h regs rfl (returnRegisters_holds filler hsize)
  have hlast : ∀ offset n, regs.data.read offset (n + 1) = value →
      regs.data (offset + n) ≠ filler := by
    intro offset n hread heq
    have hget := Area.read_getLast regs.data offset n
    rw [hread, heq] at hget
    rw [hget] at hfiller
    simp at hfiller
  have hint := eightbytesOf_length_le classes .integer hsize
  have hsse := eightbytesOf_length_le classes .sse hsize
  have hxmm0 : regs.bytes .xmm0 ≠ value := fun heq => hlast 384 15 heq <| by
    have := hint 0; have := hint 1; have := hsse 0
    exact returnRegisters_filler filler (by omega) (by omega) (by omega) (by omega)
  have hxmm1 : regs.bytes .xmm1 ≠ value := fun heq => hlast 400 15 heq <| by
    have := hint 0; have := hint 1; have := hsse 0; have := hsse 1
    exact returnRegisters_filler filler (by omega) (by omega) (by omega) (by omega)
  have hlength := congrArg List.length hvalue
  rcases classes with ⟨first, second⟩
  rcases hfirst with rfl | rfl | rfl <;> rcases hsecond with rfl | rfl | rfl
  case inl.inl =>
    exact .inr (.inr ⟨by simpa [collectedValue, ReturnState.advance] using hlength.symm, rfl⟩)
  case inl.inr.inl => exact absurd hvalue hxmm0
  case inl.inr.inr =>
    exact .inr (.inl ⟨by simpa [collectedValue, ReturnState.advance] using hlength.symm, rfl⟩)
  case inr.inl.inl =>
    simp [collectedValue, ReturnState.advance] at hlength
    omega
  case inr.inl.inr.inl => exact absurd hvalue hxmm1
  case inr.inl.inr.inr => exact absurd hvalue hxmm0
  case inr.inr.inl =>
    have height : value.length = 8 := by
      simpa [collectedValue, ReturnState.advance] using hlength.symm
    refine absurd (returnRegisters_filler filler ?_ ?_ ?_ ?_) (hlast 80 7 hvalue)
    · simp [eightbytesOf, height]
    all_goals exact .inl (by decide)
  case inr.inr.inr.inl => exact absurd hvalue hxmm0
  case inr.inr.inr.inr =>
    exact .inl ⟨by simpa [collectedValue, ReturnState.advance] using hlength.symm, rfl⟩

/-- Whole INTEGER eightbytes are put together as they were placed. -/
theorem collectedValue_of_fills (hfills : FillsIntegerEightbytes value.length classes)
    {regs : Registers} (hholds : HoldsReturnValue regs classes value) :
    collectedValue regs classes = value := by
  obtain ⟨hint, -⟩ := hholds
  rcases hfills with ⟨hlength, rfl⟩ | ⟨hlength, rfl⟩ | ⟨hlength, rfl⟩
  · exact (List.length_eq_zero_iff.mp hlength).symm
  · obtain ⟨hrax, -⟩ := hint
    have htake : value.take 8 = value := List.take_of_length_le (by omega)
    change regs.bytes .rax = value
    change (regs.bytes .rax).take (value.take 8).length = value.take 8 at hrax
    rwa [htake, List.take_of_length_le (by simp [hlength])] at hrax
  · obtain ⟨hrax, hrdx, -⟩ := hint
    change regs.bytes .rax ++ regs.bytes .rdx = value
    change (regs.bytes .rax).take (value.take 8).length = value.take 8 at hrax
    change (regs.bytes .rdx).take (value.drop 8).length = value.drop 8 at hrdx
    rw [List.take_of_length_le (by simp [hlength])] at hrax hrdx
    rw [hrax, hrdx, List.take_append_drop]

theorem fills_classes_ne_sse {size : Nat} (hfills : FillsIntegerEightbytes size classes) :
    classes.first ≠ .sse ∧ classes.second ≠ .sse := by
  rcases hfills with ⟨-, rfl⟩ | ⟨-, rfl⟩ | ⟨-, rfl⟩ <;> decide

/-- `read_return_value` gives every value of a type back, within the slot of
its size, exactly when the type fills whole eightbytes of class INTEGER. -/
theorem readReturnValue_returns_iff (retType : Ty) (classes : ParameterClasses)
    (hclasses : retType.getParameterClasses = .ok classes)
    (hfirst : classes.first.inRegisters) (hsecond : classes.second.inRegisters)
    (hsize : retType.byteSize ≤ 16) (value : List Byte) (hvalue : value.length = retType.byteSize) :
    ReturnsValue retType classes value ↔ FillsIntegerEightbytes retType.byteSize classes := by
  constructor
  · intro h
    rw [← hvalue] at hsize ⊢
    exact fills_of_collectedValue_eq hfirst hsecond hsize fun regs hdefined hholds =>
      h.collectedValue_eq hclasses hfirst hsecond (hvalue ▸ hsize) hdefined hholds
  · intro hfills m regs returnSlot haccess hdefined hholds
    obtain ⟨memory, hrun, hmemory⟩ :=
      readReturnValue_eq haccess hdefined returnSlot hclasses hfirst hsecond
    obtain ⟨hfirst', hsecond'⟩ := fills_classes_ne_sse hfills
    rw [hmemory hfirst' hsecond', collectedValue_of_fills (hvalue ▸ hfills) hholds] at hrun
    refine ⟨_, _, hrun, List.take_of_length_le hvalue.le, fun address houtside => ?_⟩
    exact Memory.write_outside _ _ _ _ (hvalue ▸ houtside)

theorem readReturnValue_returns_iff_long :
    ReturnsValue (.base "long int" .signed 8) ⟨.integer, .noClass⟩ (toLe 8 42) ↔
      FillsIntegerEightbytes 8 ⟨.integer, .noClass⟩ :=
  readReturnValue_returns_iff (.base "long int" .signed 8) ⟨.integer, .noClass⟩ rfl (.inl rfl)
    (.inr (.inr rfl)) (by decide) (toLe 8 42) rfl

/-- A `double` is read as the sixteen bytes of its vector register. -/
theorem readReturnValue_not_returns :
    ¬ ∀ (retType : Ty) (classes : ParameterClasses),
      retType.getParameterClasses = .ok classes → classes.first.inRegisters →
      classes.second.inRegisters → retType.byteSize ≤ 16 →
      ∀ value : List Byte, value.length = retType.byteSize →
        ReturnsValue retType classes value := by
  intro hall
  have hreturns := hall (.base "double" .float 8) ⟨.sse, .noClass⟩ rfl (.inr (.inl rfl))
    (.inr (.inr rfl)) (by decide) (toLe 8 0) rfl
  have hholds : HoldsReturnValue (returnRegisters 0 [] [toLe 8 0]) ⟨.sse, .noClass⟩ (toLe 8 0) :=
    ⟨trivial, by decide, trivial⟩
  have hcollected := hreturns.collectedValue_eq rfl (.inr (.inl rfl)) (.inr (.inr rfl))
    (by decide) rfl hholds
  simpa [collectedValue, ReturnState.advance] using congrArg List.length hcollected

end Exactness

end Gsdb
