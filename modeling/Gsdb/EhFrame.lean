/-
The unwind tables of an ELF file: the search table in `.eh_frame_hdr`, and the
CIEs and FDEs in `.eh_frame`.  Positions are file offsets, as pointers into the
mapped file are.  The cache of parsed CIEs is left out.
-/
import Gsdb.CallFrame
import Gsdb.Elf

namespace Gsdb

open ByteMemory ByteCursor

/-- `common_information_entry`, with what the parser of FDEs asks for and where
the instructions start in the file. -/
structure ParsedCie extends CommonInformationEntry where
  length : BitVec 32
  fdeHasAugmentation : Bool
  instructionsStart : Nat

/-- `frame_description_entry`, and where its instructions and those of its CIE
start in the file. -/
structure ParsedFde extends FrameDescriptionEntry where
  cieInstructionsStart : Nat
  instructionsStart : Nat

namespace Elf

/-- A cursor over a part of the mapped file. -/
def span (elf : Elf) (start stop : Nat) : Cursor := ⟨elf.map.take stop, start⟩

/-- The end of `get_section_contents(".eh_frame")`. -/
def ehFrameEnd (elf : Elf) : Nat :=
  match elf.getSection ".eh_frame" with
  | some header => header.shOffset.toNat + header.shSize.toNat
  | none => 0

/-- `*elf->get_section_start_address(".text")`. -/
def textSectionStart (elf : Elf) : Except Failure Word :=
  match elf.getSectionStartAddress ".text" with
  | some start => .ok start
  | none => .error (.undefined "no .text section")

end Elf

/-- The bytes from a cursor to the end of an entry that starts at a position. -/
def entryInstructions (cur : Cursor) (start : Nat) (len : BitVec 32) : List Byte :=
  cur.rest.take (start + len.toNat - cur.pos)

/-- The sizes that a CIE of version 4 has in addition. -/
def cieSizes (version : Byte) (cur : Cursor) : Except Failure Cursor :=
  if version = 4 then do
    let (addressSize, cur) ← inBounds cur.u8
    let (segmentSize, cur) ← inBounds cur.u8
    require (addressSize = 8) "Invalid address size!"
    require (segmentSize = 0) "Invalid segment size!"
    pure cur
  else .ok cur

def returnAddressRegister (version : Byte) (cur : Cursor) : Except Failure (Word × Cursor) :=
  if version = 1 then do
    let (reg, cur) ← inBounds cur.u8
    pure (reg.setWidth 64, cur)
  else inBounds cur.uleb128

/-- The loop of `parse_cie` over the augmentation: `z`, `R`, `L` and `P`. -/
def cieAugmentation : List Byte → Byte → Cursor → Except Failure (Byte × Cursor)
  | [], encoding, cur => .ok (encoding, cur)
  | c :: rest, encoding, cur =>
      match c.toNat with
      | 0x7a => do
          let (_, cur) ← inBounds cur.uleb128
          cieAugmentation rest encoding cur
      | 0x52 => do
          let (encoding, cur) ← inBounds cur.u8
          cieAugmentation rest encoding cur
      | 0x4c => do
          let (_, cur) ← inBounds cur.u8
          cieAugmentation rest encoding cur
      | 0x50 => do
          let (personality, cur) ← inBounds cur.u8
          let (_, cur) ← parseEhFramePointerWithBase cur personality 0
          cieAugmentation rest encoding cur
      | _ => .error (.error "Invalid CIE augmentation!")

/-- `parse_cie`.  Pointers of FDEs are eight bytes and absolute by default. -/
def parseCie (cur : Cursor) : Except Failure ParsedCie := do
  let start := cur.pos
  let (field, cur) ← inBounds cur.u32
  let (_, cur) ← inBounds cur.u32
  let (version, cur) ← inBounds cur.u8
  require (version = 1 ∨ version = 3 ∨ version = 4) "Invalid CIE version!"
  let (augmentation, cur) := cur.string
  require (augmentation = [] ∨ augmentation.head? = some 0x7a) "Invalid CIE augmentation!"
  let cur ← cieSizes version cur
  let (codeAlignmentFactor, cur) ← inBounds cur.uleb128
  let (dataAlignmentFactor, cur) ← inBounds cur.sleb128
  let (_, cur) ← returnAddressRegister version cur
  let (encoding, cur) ← cieAugmentation augmentation 0x04 cur
  pure
    { codeAlignmentFactor := codeAlignmentFactor
      dataAlignmentFactor := dataAlignmentFactor
      fdePointerEncoding := encoding
      instructions := entryInstructions cur start (field + 4)
      length := field + 4
      fdeHasAugmentation := augmentation ≠ []
      instructionsStart := cur.pos }

/-- `call_frame_information::get_cie`, by file offset. -/
def getCie (elf : Elf) (offset : Word) : Except Failure ParsedCie :=
  parseCie (elf.span offset.toNat elf.ehFrameEnd)

/-- Skip the augmentation data of an FDE. -/
def fdeAugmentation (cie : ParsedCie) (cur : Cursor) : Except Failure Cursor :=
  if cie.fdeHasAugmentation then do
    let (augmentationLen, cur) ← inBounds cur.uleb128
    pure (cur.advance augmentationLen.toNat)
  else .ok cur

/-- `parse_fde`: the place of a pointer is its file offset. -/
def parseFde (elf : Elf) (cur : Cursor) : Except Failure ParsedFde := do
  let start := cur.pos
  let (field, cur) ← inBounds cur.u32
  let currentOffset := BitVec.ofNat 64 cur.pos
  let (distance, cur) ← inBounds cur.u32
  let cie ← getCie elf (currentOffset - distance.signExtend 64)
  let textSectionStart := (elf.getSectionStartAddress ".text").getD 0
  let (initialLocation, cur) ← parseEhFramePointer cur cie.fdePointerEncoding
    (BitVec.ofNat 64 cur.pos) textSectionStart 0 0
  let (addressRange, cur) ← parseEhFramePointerWithBase cur cie.fdePointerEncoding 0
  let cur ← fdeAugmentation cie cur
  pure
    { cie := cie.toCommonInformationEntry
      initialLocation := initialLocation
      addressRange := addressRange
      instructions := entryInstructions cur start (field + 4)
      cieInstructionsStart := cie.instructionsStart
      instructionsStart := cur.pos }

/-- `call_frame_information::eh_hdr`: where the section and the search table
start in the file, the number of rows and their encoding. -/
structure EhHdr where
  start : Nat
  searchTable : Nat
  count : Nat
  encoding : Byte
deriving DecidableEq, Repr

def parseEhHdr (elf : Elf) : Except Failure EhHdr :=
  match elf.getSection ".eh_frame_hdr" with
  | none => .error (.undefined "no .eh_frame_hdr section")
  | some header => do
      let _ ← elf.textSectionStart
      let start := header.shOffset.toNat
      let cur := elf.span start (start + header.shSize.toNat)
      let (_, cur) ← inBounds cur.u8
      let (ehFramePtrEnc, cur) ← inBounds cur.u8
      let (fdeCountEnc, cur) ← inBounds cur.u8
      let (tableEnc, cur) ← inBounds cur.u8
      let (_, cur) ← parseEhFramePointerWithBase cur ehFramePtrEnc 0
      let (fdeCount, cur) ← parseEhFramePointerWithBase cur fdeCountEnc 0
      pure ⟨start, cur.pos, fdeCount.toNat, tableEnc⟩

/-- The low three bits of the encoding select the size. -/
def ehFramePointerEncodingSize (encoding : Byte) : Except Failure Nat :=
  match (encoding &&& 0x07).toNat with
  | 0x00 => .ok 8
  | 0x02 => .ok 2
  | 0x03 => .ok 4
  | 0x04 => .ok 8
  | _ => .error (.error "Invalid pointer encoding!")

/-- The loop of `eh_hdr::operator[]`, given the address in a row. -/
def searchLoop (entryAddress : Nat → Except Failure Word) (address : Word) :
    Nat → Nat → Nat → Except Failure Nat
  | 0, _, _ => .error .schedule
  | rounds + 1, low, high =>
      if low ≤ high then do
        let mid := (low + high) % 2 ^ 64 / 2
        let entry ← entryAddress mid
        if entry < address then
          searchLoop entryAddress address rounds ((mid + 1) % 2 ^ 64) high
        else if entry > address then
          if mid = 0 then .error (.error "Address not found in eh_hdr!")
          else searchLoop entryAddress address rounds low (mid - 1)
        else .ok mid
      else .ok high

namespace EhHdr

/-- A pointer of the search table: its row and its place in the row. -/
def pointerAt (hdr : EhHdr) (elf : Elf) (text : Word) (size row place : Nat) :
    Except Failure Word := do
  let cur := elf.span (hdr.searchTable + row * (2 * size) + place)
    (hdr.searchTable + hdr.count * (2 * size))
  let (pointer, _) ← parseEhFramePointer cur hdr.encoding (BitVec.ofNat 64 cur.pos) text
    (BitVec.ofNat 64 hdr.start) 0
  pure pointer

/-- The address that is compared with the program counter. -/
def entryAddress (hdr : EhHdr) (elf : Elf) (text : Word) (size row : Nat) :
    Except Failure Word :=
  hdr.pointerAt elf text size row 0

/-- `eh_hdr::operator[]`: the file offset of an FDE.  The loop halves the rows
that are left. -/
def lookup (hdr : EhHdr) (elf : Elf) (address : Word) : Except Failure Word := do
  let text ← elf.textSectionStart
  let size ← ehFramePointerEncodingSize hdr.encoding
  let row ← searchLoop (hdr.entryAddress elf text size) address (hdr.count + 1) 0
    ((hdr.count + (2 ^ 64 - 1)) % 2 ^ 64)
  hdr.pointerAt elf text size row size

end EhHdr

/-- The first half of `call_frame_information::unwind`: the FDE for a program
counter. -/
def findFde (elf : Elf) (hdr : EhHdr) (pc : Word) : Except Failure ParsedFde := do
  let fdeStart ← hdr.lookup elf pc
  let fde ← parseFde elf (elf.span fdeStart.toNat elf.ehFrameEnd)
  require (¬ (pc < fde.initialLocation ∨ pc ≥ fde.initialLocation + fde.addressRange))
    "No unwind information at PC!"
  pure fde

end Gsdb
