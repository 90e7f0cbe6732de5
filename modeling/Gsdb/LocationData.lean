/-
What the location of a variable holds: `read_location_data`, and how many bytes it
returns.
-/
import Gsdb.Stack
import Gsdb.UnwindSurvival
import Gsdb.Values

namespace Gsdb

open ByteMemory

/-- The bytes of the alternative that a value holds. -/
def Value.bytes (value : Value) : List Byte := toLe value.sizeof value.bits.toNat

/-- `threads_.at(tid).frames.current_frame()`. -/
def currentFrame (threads : Tid → Option Stack) (tid : Tid) : Except Failure StackFrame :=
  match threads tid with
  | some stack => inBounds stack.frames[stack.currentFrame]?
  | none => .error (.exception "out_of_range")

/-- `std::vector<std::byte> bytes(size)`, of zeros.  An address has 57 bits at most, so
that there is no room for 2⁶⁰ bytes. -/
def zeroBytes (size : Nat) : Except Failure (List Byte) :=
  if size < 2 ^ 60 then .ok (List.replicate size 0) else .error (.exception "bad_alloc")

/-- `target::read_location_data` of a simple location. -/
def readSimpleLocation (m : Machine) (threads : Tid → Option Stack) (tid : Tid) :
    SimpleLocation → Nat → Except Failure (List Byte)
  | .register regNum, _ => do
      let info ← registerInfoByDwarf (regNum.setWidth 32).toInt
      let frame ← currentFrame threads tid
      let value ← frame.regs.read info
      pure value.bytes
  | .address address, size => readMemory m address size
  | .data bytes, _ => .ok bytes
  | .literal value, size => do
      let bytes ← zeroBytes size
      pure ((toLe 8 value.toNat).take size ++ bytes.drop 8)
  | .empty, _ => .error (.error "Invalid location type!")

/-- `std::copy_n` to a place in a buffer. -/
def copyBytes (data : List Byte) (position : Nat) (bytes : List Byte) :
    Except Failure (List Byte) :=
  if position + bytes.length ≤ data.length then
    .ok (data.take position ++ bytes ++ data.drop (position + bytes.length))
  else .error (.undefined "write outside the buffer")

namespace Piece

/-- `src_bytes`: how many bytes of its location a piece needs. -/
def srcBytes (piece : Piece) : Nat := ((piece.offset + piece.bitSize + 7) / 8).toNat

/-- A piece that consists of whole bytes and goes to whole bytes. -/
def ByteAligned (piece : Piece) (offset : Word) : Prop :=
  offset % 8 = 0 ∧ piece.offset = 0 ∧ piece.bitSize % 8 = 0

instance (piece : Piece) (offset : Word) : Decidable (piece.ByteAligned offset) :=
  inferInstanceAs (Decidable (_ ∧ _ ∧ _))

/-- Put the bits of a piece behind those before it.  `memcpy_bits` takes the numbers of
the bits, and how many there are, in 32 bits. -/
def copyInto (piece : Piece) (data : List Byte) (offset : Word) (pieceData : List Byte) :
    Except Failure (List Byte) :=
  if piece.ByteAligned offset then
    copyBytes data (offset / 8).toNat (pieceData.take (piece.bitSize / 8).toNat)
  else
    memcpyBits data (offset.toNat % 2 ^ 32) pieceData (piece.offset.toNat % 2 ^ 32)
      (piece.bitSize.toNat % 2 ^ 32)

end Piece

/-- The loop of `target::read_location_data` over the pieces of a composite location. -/
def readPieces (read : SimpleLocation → Nat → Except Failure (List Byte)) :
    List Piece → Word → List Byte → Except Failure (List Byte)
  | [], _, data => .ok data
  | piece :: pieces, offset, data => do
      let pieceData ← read piece.location piece.srcBytes
      require (((offset + piece.bitSize + 7) / 8).toNat ≤ data.length)
        "Location pieces exceed the variable's size!"
      let data ← piece.copyInto data offset pieceData
      readPieces read pieces (offset + piece.bitSize) data

/-- `target::read_location_data`. -/
def readLocationData (m : Machine) (threads : Tid → Option Stack) (size : Nat)
    (otid : Option Tid) : EvalResult → Except Failure (List Byte)
  | .simple location =>
      readSimpleLocation m threads (otid.getD m.process.currentThread) location size
  | .pieces pieces => do
      let data ← zeroBytes size
      readPieces (readSimpleLocation m threads (otid.getD m.process.currentThread)) pieces 0 data

/-- A location that has as many bytes as the variable, if it is not cut to its size: a
register of that size, a block of that length. -/
def EvalResult.HasSize (size : Nat) : EvalResult → Prop
  | .simple (.register regNum) => ∃ info,
      registerInfoByDwarf (regNum.setWidth 32).toInt = .ok info ∧ info.size = size
  | .simple (.data bytes) => bytes.length = size
  | _ => True

section Lengths

variable {m : Machine} {threads : Tid → Option Stack} {tid : Tid} {size : Nat}

theorem Value.bytes_length (value : Value) : value.bytes.length = value.sizeof :=
  toLe_length _ _

theorem remoteDescsLoop_read_length (kernel : Kernel) (rounds : Nat) (address : Word)
    (amount : Nat) :
    (((remoteDescsLoop rounds address amount).takeWhile (·.readable kernel)).flatMap
      fun iov => kernel.memory.read iov.base iov.len).length ≤ amount := by
  induction rounds generalizing address amount with
  | zero => exact Nat.zero_le amount
  | succ rounds ih =>
      by_cases hamount : amount = 0
      · rw [remoteDescsLoop, if_pos hamount]
        exact Nat.zero_le amount
      · rw [remoteDescsLoop, if_neg hamount, List.takeWhile_cons]
        split
        · generalize hchunk : min amount (0x1000 - (address &&& 0xfff).toNat) = chunk
          have hle : chunk ≤ amount := hchunk ▸ Nat.min_le_left _ _
          have hrest := ih (address + BitVec.ofNat 64 chunk) (amount - chunk)
          rw [List.flatMap_cons, List.length_append, Memory.read_length]
          exact Nat.le_trans (Nat.add_le_add_left hrest chunk) (Nat.add_sub_of_le hle).le
        · exact Nat.zero_le amount

/-- Memory is read in the amount that was asked for. -/
theorem readMemory_length {address : Word} {amount : Nat} {bytes : List Byte}
    (h : readMemory m address amount = .ok bytes) : bytes.length = amount := by
  unfold readMemory at h
  split at h
  · rename_i transferred htransfer
    cases h
    have hshort : transferred.length ≤ amount := by
      unfold processVmReadv at htransfer
      split at htransfer
      · cases htransfer
      · dsimp only at htransfer
        split at htransfer
        · cases htransfer
        · cases htransfer
          exact remoteDescsLoop_read_length m.kernel amount address amount
    rw [List.length_append, List.length_replicate]
    omega
  · cases h

theorem copyBytes_length {data bytes result : List Byte} {position : Nat}
    (h : copyBytes data position bytes = .ok result) : result.length = data.length := by
  unfold copyBytes at h
  split at h
  · cases h
    simp only [List.length_append, List.length_take, List.length_drop]
    omega
  · cases h

theorem memcpyBits_length {dest src result : List Byte} {destBit srcBit nBits : Nat}
    (h : memcpyBits dest destBit src srcBit nBits = .ok result) :
    result.length = dest.length := by
  induction nBits generalizing dest destBit srcBit with
  | zero =>
      cases h
      rfl
  | succ nBits ih =>
      rw [memcpyBits] at h
      obtain ⟨old, -, h₁⟩ := bind_eq_ok.mp h
      obtain ⟨byte, -, h₂⟩ := bind_eq_ok.mp h₁
      rw [ih h₂, List.length_set]

theorem Piece.copyInto_length {piece : Piece} {data pieceData result : List Byte}
    {offset : Word} (h : piece.copyInto data offset pieceData = .ok result) :
    result.length = data.length := by
  unfold Piece.copyInto at h
  split at h
  · exact copyBytes_length h
  · exact memcpyBits_length h

/-- The pieces of a composite location are put into a buffer of the size asked for. -/
theorem readPieces_length {read : SimpleLocation → Nat → Except Failure (List Byte)}
    {pieces : List Piece} {offset : Word} {data result : List Byte}
    (h : readPieces read pieces offset data = .ok result) : result.length = data.length := by
  induction pieces generalizing offset data with
  | nil =>
      cases h
      rfl
  | cons piece pieces ih =>
      rw [readPieces] at h
      obtain ⟨pieceData, -, h₁⟩ := bind_eq_ok.mp h
      obtain ⟨-, -, h₂⟩ := bind_eq_ok.mp h₁
      obtain ⟨copied, hcopied, h₃⟩ := bind_eq_ok.mp h₂
      rw [ih h₃, Piece.copyInto_length hcopied]

theorem readRegister_length {regNum : Word} {bytes : List Byte}
    (h : readSimpleLocation m threads tid (.register regNum) size = .ok bytes) :
    ∃ info, registerInfoByDwarf (regNum.setWidth 32).toInt = .ok info ∧
      bytes.length = info.size := by
  obtain ⟨info, hinfo, h₁⟩ := bind_eq_ok.mp h
  obtain ⟨frame, -, h₂⟩ := bind_eq_ok.mp h₁
  obtain ⟨value, hvalue, h₃⟩ := bind_eq_ok.mp h₂
  cases h₃
  refine ⟨info, hinfo, ?_⟩
  rw [Value.bytes_length]
  exact read_sizeof (registerInfos_isSized info (registerInfoBy_mem hinfo)) hvalue

theorem zeroBytes_eq_ok {bytes : List Byte} (h : zeroBytes size = .ok bytes) :
    size < 2 ^ 60 ∧ bytes = List.replicate size 0 := by
  unfold zeroBytes at h
  split at h
  · rename_i hsize
    exact ⟨hsize, (Except.ok.inj h).symm⟩
  · cases h

theorem readLiteral_length {value : Word} {bytes : List Byte}
    (h : readSimpleLocation m threads tid (.literal value) size = .ok bytes) :
    bytes.length = size := by
  obtain ⟨zeros, hzeros, h₁⟩ := bind_eq_ok.mp h
  cases h₁
  rw [(zeroBytes_eq_ok hzeros).2, List.length_append, List.length_take, toLe_length,
    List.length_drop, List.length_replicate]
  omega

/-- What is read has the size of the variable exactly if the location, where it is not
cut to that size, has it by itself. -/
theorem readLocationData_length_iff {otid : Option Tid} {location : EvalResult}
    {bytes : List Byte} (h : readLocationData m threads size otid location = .ok bytes) :
    bytes.length = size ↔ location.HasSize size := by
  cases location with
  | pieces pieces =>
      obtain ⟨zeros, hzeros, hpieces⟩ := bind_eq_ok.mp h
      refine iff_of_true ?_ trivial
      rw [readPieces_length hpieces, (zeroBytes_eq_ok hzeros).2, List.length_replicate]
  | simple location =>
      have hread : readSimpleLocation m threads (otid.getD m.process.currentThread) location
          size = .ok bytes := h
      cases location with
      | address address => exact iff_of_true (readMemory_length hread) trivial
      | register regNum =>
          obtain ⟨info, hinfo, hlength⟩ := readRegister_length hread
          rw [hlength]
          refine ⟨fun hsize => ⟨info, hinfo, hsize⟩, ?_⟩
          rintro ⟨info', hinfo', hsize⟩
          rwa [Except.ok.inj (hinfo.symm.trans hinfo')]
      | data block =>
          cases hread
          exact Iff.rfl
      | literal value => exact iff_of_true (readLiteral_length hread) trivial
      | empty => cases hread

end Lengths

namespace LocationDataWitness

def machine : Machine := .atRest fun _ => 0

/-- A thread with one frame, in which `rdi` holds 5. -/
def frame : StackFrame :=
  ⟨⟨Area.write (fun _ => 0) 112 (toLe 8 5), [], 0⟩, 0x1000, ⟨⟨0, [], []⟩, 0, none⟩, false,
    ⟨none, 1⟩⟩

def threads : Tid → Option Stack := fun _ => some ⟨0, [frame], 0⟩

theorem readRdi (size : Nat) :
    readLocationData machine threads size none (.simple (.register 5)) =
      .ok [5, 0, 0, 0, 0, 0, 0, 0] := by
  have hinfo : registerInfoByDwarf ((5 : Word).setWidth 32).toInt =
      .ok (gpr64 .rdi "rdi" 5 112) := by
    decide +kernel
  have hvalue : frame.regs.read (gpr64 .rdi "rdi" 5 112) = .ok (.u64 5) := by decide +kernel
  change (registerInfoByDwarf ((5 : Word).setWidth 32).toInt >>= _) = _
  rw [hinfo, ok_bind]
  change (frame.regs.read (gpr64 .rdi "rdi" 5 112) >>= fun value => .ok value.bytes) = _
  rw [hvalue]
  rfl

end LocationDataWitness

open LocationDataWitness in
/-- An `int` that is held in `rdi` is read as eight bytes, in memory as four. -/
theorem register_longer_than_variable :
    readLocationData machine threads 4 none (.simple (.register 5)) =
        .ok [5, 0, 0, 0, 0, 0, 0, 0] ∧
      ¬ ∀ (m : Machine) (frames : Tid → Option Stack) (size : Nat) (otid : Option Tid)
        (location : EvalResult) (bytes : List Byte),
        readLocationData m frames size otid location = .ok bytes → bytes.length = size := by
  refine ⟨readRdi 4, fun h => ?_⟩
  have hlength := h machine threads 4 none (.simple (.register 5)) _ (readRdi 4)
  exact absurd hlength (by decide)

open LocationDataWitness in
theorem readLocationData_length_iff_rdi :
    ([5, 0, 0, 0, 0, 0, 0, 0] : List Byte).length = 4 ↔
      (EvalResult.simple (.register 5)).HasSize 4 :=
  readLocationData_length_iff (readRdi 4)

end Gsdb
