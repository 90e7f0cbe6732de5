/-
The records of `.eh_frame` as an assembler writes them, and what the parsers of
CIEs and FDEs make of them: the instructions of a record are the bytes behind
its augmentation data.
-/
import Gsdb.Leb128
import Gsdb.UnwindTables

namespace Gsdb

open ByteMemory ByteCursor

/-- A letter of an augmentation behind `z`, with its data: `R`, `L` and `P`. -/
inductive AugmentationField where
  | pointerEncoding (encoding : Byte)
  | lsdaEncoding (encoding : Byte)
  | personality (encoding : Byte) (pointer : List Byte)

namespace AugmentationField

def letter : AugmentationField → Byte
  | .pointerEncoding _ => 0x52
  | .lsdaEncoding _ => 0x4c
  | .personality _ _ => 0x50

def data : AugmentationField → List Byte
  | .pointerEncoding encoding => [encoding]
  | .lsdaEncoding encoding => [encoding]
  | .personality encoding pointer => encoding :: pointer

/-- The pointer to a personality routine is in the format of its encoding. -/
def WellFormed : AugmentationField → Prop
  | .personality encoding pointer => ∃ value, EncodesPointer encoding value pointer
  | _ => True

/-- The encoding of pointers in FDEs that holds behind a field. -/
def apply (field : AugmentationField) (encoding : Byte) : Byte :=
  match field with
  | .pointerEncoding selected => selected
  | _ => encoding

end AugmentationField

/-- What a CIE says.  The augmentation is empty or `z` with fields; the sizes of
addresses and segment selectors are written in version 4 only. -/
structure CieRecord where
  version : Byte
  addressSize : Byte
  segmentSize : Byte
  codeAlignmentFactor : Word
  dataAlignmentFactor : Word
  returnAddressRegister : Word
  augmentation : Option (List AugmentationField)
  instructions : List Byte

/-- The numbers of an encoded CIE. -/
structure CieNumbers where
  length : List Byte
  codeFactor : List Byte
  dataFactor : List Byte
  returnRegister : List Byte
  dataLength : List Byte

namespace CieRecord

def fields (cie : CieRecord) : List AugmentationField := cie.augmentation.getD []

def letters (cie : CieRecord) : List Byte :=
  match cie.augmentation with
  | none => []
  | some fields => 0x7a :: fields.map AugmentationField.letter

def data (cie : CieRecord) : List Byte := cie.fields.flatMap AugmentationField.data

/-- The last `R` counts; without one, pointers are absolute and of eight bytes. -/
def fdePointerEncoding (cie : CieRecord) : Byte :=
  cie.fields.foldl (fun encoding field => field.apply encoding) 0x04

def sizes (cie : CieRecord) : List Byte :=
  if cie.version = 4 then [cie.addressSize, cie.segmentSize] else []

/-- The encoded CIE up to its instructions. -/
def header (cie : CieRecord) (numbers : CieNumbers) : List Byte :=
  numbers.length ++ ([0, 0, 0, 0] ++ (cie.version :: (cie.letters ++ (0 :: (cie.sizes ++
    (numbers.codeFactor ++ (numbers.dataFactor ++ (numbers.returnRegister ++
      (numbers.dataLength ++ cie.data)))))))))

def bytes (cie : CieRecord) (numbers : CieNumbers) : List Byte :=
  cie.header numbers ++ cie.instructions

/-- The entry that a parser should make of a CIE whose instructions start at a
file offset. -/
def entry (cie : CieRecord) (numbers : CieNumbers) (start : Nat) : ParsedCie where
  codeAlignmentFactor := cie.codeAlignmentFactor
  dataAlignmentFactor := cie.dataAlignmentFactor
  fdePointerEncoding := cie.fdePointerEncoding
  instructions := cie.instructions
  length := BitVec.ofNat 32 (cie.bytes numbers).length
  fdeHasAugmentation := cie.augmentation.isSome
  instructionsStart := start

end CieRecord

/-- The numbers of a CIE are encoded: its length without the length field, the
factors, the register in a byte or as an LEB128 number, and the length of the
augmentation data where there is an augmentation. -/
structure EncodesCie (cie : CieRecord) (numbers : CieNumbers) : Prop where
  version : cie.version = 1 ∨ cie.version = 3 ∨ cie.version = 4
  length_size : numbers.length.length = 4
  length_eq : ofLe numbers.length + 4 = (cie.bytes numbers).length
  fits : (cie.bytes numbers).length < 2 ^ 32
  codeFactor : EncodesUleb numbers.codeFactor cie.codeAlignmentFactor
  dataFactor : EncodesSleb numbers.dataFactor cie.dataAlignmentFactor
  returnRegister : if cie.version = 1
    then ∃ byte : Byte, numbers.returnRegister = [byte] ∧
      cie.returnAddressRegister = byte.setWidth 64
    else EncodesUleb numbers.returnRegister cie.returnAddressRegister
  dataLength : if cie.augmentation.isSome
    then EncodesUleb numbers.dataLength (BitVec.ofNat 64 cie.data.length)
    else numbers.dataLength = []
  fields : ∀ field ∈ cie.fields, field.WellFormed

/-- What an FDE says, with its addresses as the numbers that are encoded. -/
structure FdeRecord where
  location : Word
  range : Word
  augmentationData : List Byte
  instructions : List Byte

/-- The numbers of an encoded FDE. -/
structure FdeNumbers where
  length : List Byte
  distance : List Byte
  location : List Byte
  range : List Byte
  dataLength : List Byte

namespace FdeRecord

/-- The augmentation data with its length, where the CIE has an augmentation. -/
def augmentation (fde : FdeRecord) (cie : CieRecord) (numbers : FdeNumbers) : List Byte :=
  if cie.augmentation.isSome then numbers.dataLength ++ fde.augmentationData else []

/-- The encoded FDE up to its instructions. -/
def header (fde : FdeRecord) (cie : CieRecord) (numbers : FdeNumbers) : List Byte :=
  numbers.length ++ (numbers.distance ++ (numbers.location ++ (numbers.range ++
    fde.augmentation cie numbers)))

def bytes (fde : FdeRecord) (cie : CieRecord) (numbers : FdeNumbers) : List Byte :=
  fde.header cie numbers ++ fde.instructions

end FdeRecord

/-- The numbers of an FDE are encoded, its addresses in the pointer encoding of
its CIE. -/
structure EncodesFdeRecord (cie : CieRecord) (fde : FdeRecord) (numbers : FdeNumbers) :
    Prop where
  length_size : numbers.length.length = 4
  length_eq : ofLe numbers.length + 4 = (fde.bytes cie numbers).length
  fits : (fde.bytes cie numbers).length < 2 ^ 32
  distance_size : numbers.distance.length = 4
  location : EncodesPointer cie.fdePointerEncoding fde.location numbers.location
  range : EncodesPointer cie.fdePointerEncoding fde.range numbers.range
  dataLength : EncodesUleb numbers.dataLength (BitVec.ofNat 64 fde.augmentationData.length)

/-- Bytes at a place of `.eh_frame`. -/
def Elf.HoldsAt (elf : Elf) (offset : Word) (bytes : List Byte) : Prop :=
  ∃ after, (elf.span offset.toNat elf.ehFrameEnd).rest = bytes ++ after

/-- A CIE and an FDE in a file.  The FDE refers to the CIE by the distance from
its second field back to the CIE. -/
structure RefersTo (elf : Elf) (cie : CieRecord) (cieNumbers : CieNumbers) (fde : FdeRecord)
    (fdeNumbers : FdeNumbers) (cieOffset fdeOffset : Word) : Prop where
  cie_at : elf.HoldsAt cieOffset (cie.bytes cieNumbers)
  fde_at : elf.HoldsAt fdeOffset (fde.bytes cie fdeNumbers)
  distance : cieOffset.toNat + ofLe fdeNumbers.distance = fdeOffset.toNat + 4

/-- What the pointers of FDEs are added to: their own place, the text section or
nothing. -/
def fdePointerOrigin (encoding : Byte) (place text : Word) : Word :=
  match (encoding &&& 0x70).toNat with
  | 0x10 => place
  | 0x20 => text
  | _ => 0

section Fields

variable {cie : CieRecord} {numbers : CieNumbers} {cur : Cursor} {after : List Byte}

theorem CieRecord.letters_nonzero : 0 ∉ cie.letters := by
  unfold CieRecord.letters
  split
  · exact List.not_mem_nil
  · intro hmem
    rcases List.mem_cons.mp hmem with heq | hmem
    · exact absurd heq (by decide)
    · obtain ⟨field, -, heq⟩ := List.mem_map.mp hmem
      cases field <;> simp [AugmentationField.letter] at heq

theorem CieRecord.letters_head :
    cie.letters = [] ∨ cie.letters.head? = some 0x7a := by
  unfold CieRecord.letters
  split
  · exact .inl rfl
  · exact .inr rfl

theorem CieRecord.letters_flag : decide (cie.letters ≠ []) = cie.augmentation.isSome := by
  unfold CieRecord.letters
  cases cie.augmentation <;> rfl

theorem string_encoded {text : List Byte} (htext : 0 ∉ text)
    (hcur : cur.rest = text ++ 0 :: after) :
    cur.string = (text, cur.advance (text.length + 1)) := by
  rw [Cursor.string, hcur, takeWhile_text htext]

theorem cieSizes_encoded (hsizes : cie.version = 4 → cie.addressSize = 8 ∧ cie.segmentSize = 0)
    (hcur : cur.rest = cie.sizes ++ after) :
    cieSizes cie.version cur = .ok (cur.advance cie.sizes.length) := by
  unfold CieRecord.sizes at hcur ⊢
  unfold cieSizes
  split at hcur
  · rename_i hversion
    obtain ⟨haddress, hsegment⟩ := hsizes hversion
    have hfirst := Cursor.u8_of_cons hcur
    have hrest : (cur.advance 1).rest = cie.segmentSize :: after := by
      rw [Cursor.rest_advance, hcur]
      rfl
    have hsecond := Cursor.u8_of_cons hrest
    simp only [hversion, if_true, hfirst, hsecond, inBounds_some, ok_bind, haddress, hsegment,
      require, Cursor.advance_advance]
    rfl
  · rename_i hversion
    simp only [hversion, if_false]
    rfl

theorem returnAddressRegister_encoded (h : EncodesCie cie numbers)
    (hcur : cur.rest = numbers.returnRegister ++ after) :
    returnAddressRegister cie.version cur =
      .ok (cie.returnAddressRegister, cur.advance numbers.returnRegister.length) := by
  have hregister := h.returnRegister
  unfold returnAddressRegister
  split at hregister
  · rename_i hversion
    obtain ⟨byte, hbytes, hvalue⟩ := hregister
    rw [hbytes] at hcur
    simp only [hversion, if_true, Cursor.u8_of_cons hcur, inBounds_some, ok_bind, hbytes, hvalue]
    rfl
  · rename_i hversion
    simp only [hversion, if_false, hregister.read hcur, inBounds_some]

/-- A turn of the loop over the letters reads the data of a field. -/
theorem cieAugmentation_field {field : AugmentationField} (hfield : field.WellFormed)
    (hcur : cur.rest = field.data ++ after) (letters : List Byte) (encoding : Byte) :
    cieAugmentation (field.letter :: letters) encoding cur =
      cieAugmentation letters (field.apply encoding) (cur.advance field.data.length) := by
  cases field with
  | pointerEncoding byte =>
      change (inBounds cur.u8 >>= fun out => cieAugmentation letters out.1 out.2) = _
      rw [Cursor.u8_of_cons hcur]
      rfl
  | lsdaEncoding byte =>
      change (inBounds cur.u8 >>= fun out => cieAugmentation letters encoding out.2) = _
      rw [Cursor.u8_of_cons hcur]
      rfl
  | personality byte pointer =>
      obtain ⟨value, hpointer⟩ := hfield
      have hread : (cur.advance 1).rest = pointer ++ after := by
        rw [Cursor.rest_advance, hcur]
        rfl
      change (inBounds cur.u8 >>= fun out => parseEhFramePointerWithBase out.2 out.1 0 >>=
        fun out => cieAugmentation letters encoding out.2) = _
      rw [Cursor.u8_of_cons hcur, inBounds_some, ok_bind, hpointer.parse hread 0, ok_bind,
        Cursor.advance_advance, Nat.add_comm]
      rfl

/-- The loop over the letters reads the data of all fields. -/
theorem cieAugmentation_fields (fields : List AugmentationField) :
    ∀ (encoding : Byte) (cur : Cursor), (∀ field ∈ fields, field.WellFormed) →
      cur.rest = fields.flatMap AugmentationField.data ++ after →
      cieAugmentation (fields.map AugmentationField.letter) encoding cur =
        .ok (fields.foldl (fun encoding field => field.apply encoding) encoding,
          cur.advance (fields.flatMap AugmentationField.data).length) := by
  induction fields with
  | nil => intro encoding cur _ _; rfl
  | cons field rest ih =>
      intro encoding cur hfields hcur
      rw [List.flatMap_cons, List.append_assoc] at hcur
      rw [List.map_cons, cieAugmentation_field (hfields field List.mem_cons_self) hcur,
        ih _ _ (fun field hmem => hfields field (List.mem_cons_of_mem _ hmem))
          (rest_advance_append hcur),
        Cursor.advance_advance, List.flatMap_cons, List.length_append]
      rfl

theorem cieAugmentation_letters (h : EncodesCie cie numbers)
    (hcur : cur.rest = numbers.dataLength ++ cie.data ++ after) :
    cieAugmentation cie.letters 0x04 cur =
      .ok (cie.fdePointerEncoding, cur.advance (numbers.dataLength ++ cie.data).length) := by
  have hlength := h.dataLength
  have hfields := h.fields
  unfold CieRecord.letters CieRecord.fdePointerEncoding
  unfold CieRecord.data CieRecord.fields at *
  cases haugmentation : cie.augmentation with
  | none =>
      rw [haugmentation] at hlength
      have hempty : numbers.dataLength = [] := hlength
      rw [hempty]
      rfl
  | some fields =>
      rw [haugmentation] at hlength hcur hfields
      have hleb : EncodesUleb numbers.dataLength
        (BitVec.ofNat 64 (fields.flatMap AugmentationField.data).length) := hlength
      rw [List.append_assoc] at hcur
      change (inBounds cur.uleb128 >>= fun out =>
        cieAugmentation (fields.map AugmentationField.letter) 0x04 out.2) = _
      rw [hleb.read hcur, inBounds_some, ok_bind,
        cieAugmentation_fields fields 0x04 _ hfields (rest_advance_append hcur),
        Cursor.advance_advance, List.length_append]
      rfl

/-- The instructions are the bytes from the end of the header to the end of the
record. -/
theorem entryInstructions_encoded {header instructions : List Byte} {len : BitVec 32}
    (hcur : cur.rest = header ++ instructions ++ after)
    (hlen : len.toNat = (header ++ instructions).length) :
    entryInstructions (cur.advance header.length) cur.pos len = instructions := by
  have hcount : cur.pos + len.toNat - (cur.advance header.length).pos = instructions.length := by
    rw [hlen, List.length_append, Cursor.advance_pos]
    omega
  rw [List.append_assoc] at hcur
  rw [entryInstructions, hcount, rest_advance_append hcur, List.take_left]

/-- The length field gives the length of the record. -/
theorem recordLength_eq {field bytes : List Byte} (hlength : ofLe field + 4 = bytes.length) :
    BitVec.ofNat 32 (ofLe field) + 4 = BitVec.ofNat 32 bytes.length := by
  rw [← hlength, BitVec.ofNat_add]
  rfl

theorem parseCie_encoded (h : EncodesCie cie numbers)
    (hsizes : cie.version = 4 → cie.addressSize = 8 ∧ cie.segmentSize = 0)
    (hcur : cur.rest = cie.bytes numbers ++ after) :
    parseCie cur = .ok (cie.entry numbers (cur.pos + (cie.header numbers).length)) := by
  have hlengthRest : cur.rest = numbers.length ++ ([0, 0, 0, 0] ++ ([cie.version] ++
      (cie.letters ++ (0 :: (cie.sizes ++ (numbers.codeFactor ++ (numbers.dataFactor ++
        (numbers.returnRegister ++ (numbers.dataLength ++ cie.data ++
          (cie.instructions ++ after)))))))))) := by
    rw [hcur, CieRecord.bytes, CieRecord.header]
    simp only [List.append_assoc, List.cons_append, List.nil_append]
  have hidRest := rest_advance_append hlengthRest
  have hversionRest := rest_advance_append hidRest
  have hlettersRest := rest_advance_append hversionRest
  have hzero : ∀ rest : List Byte, cie.letters ++ 0 :: rest =
    (cie.letters ++ [0]) ++ rest := by simp
  have hlettersRest' := hlettersRest
  rw [hzero] at hlettersRest'
  have hsizesRest := rest_advance_append hlettersRest'
  have hcodeRest := rest_advance_append hsizesRest
  have hdataRest := rest_advance_append hcodeRest
  have hregisterRest := rest_advance_append hdataRest
  have haugmentationRest := rest_advance_append hregisterRest
  have hlengthRead := fixedInt_bytes (w := 32) hlengthRest h.length_size.symm
  have hidRead := fixedInt_bytes (w := 32) hidRest rfl
  have hversionRead := Cursor.u8_of_cons hversionRest
  have hlettersRead := string_encoded cie.letters_nonzero hlettersRest
  have hsizesRead := cieSizes_encoded hsizes hsizesRest
  have hcodeRead := h.codeFactor.read hcodeRest
  have hdataRead := h.dataFactor.read hdataRest
  have hregisterRead := returnAddressRegister_encoded h hregisterRest
  have haugmentationRead := cieAugmentation_letters h haugmentationRest
  have htotal : (BitVec.ofNat 32 (cie.bytes numbers).length).toNat =
      (cie.bytes numbers).length := by
    rw [BitVec.toNat_ofNat, Nat.mod_eq_of_lt h.fits]
  have hinstructions := entryInstructions_encoded hcur htotal
  simp only [List.length_cons, List.length_nil, List.length_append, Nat.zero_add, Nat.reduceAdd]
    at hidRead hversionRead hlettersRead hsizesRead hcodeRead hdataRead hregisterRead
      haugmentationRead
  simp only [parseCie, Cursor.u32, hlengthRead, inBounds_some, ok_bind, hidRead, hversionRead,
    require, h.version, if_true, hlettersRead, cie.letters_head, hsizesRead, hcodeRead, hdataRead,
    hregisterRead, haugmentationRead, recordLength_eq h.length_eq]
  have hheader : numbers.length.length + (4 + (1 + (cie.letters.length + 1 + (cie.sizes.length +
      (numbers.codeFactor.length + (numbers.dataFactor.length + (numbers.returnRegister.length +
        (numbers.dataLength.length + cie.data.length)))))))) = (cie.header numbers).length := by
    simp only [CieRecord.header, List.length_append, List.length_cons, List.length_nil]
    omega
  simp only [Cursor.advance_advance, Nat.add_assoc] at hheader ⊢
  rw [hheader, hinstructions, cie.letters_flag]
  rfl

end Fields

section Records

variable {elf : Elf} {cie : CieRecord} {cieNumbers : CieNumbers} {fde : FdeRecord}
  {numbers : FdeNumbers} {cieOffset fdeOffset : Word}

theorem getCie_encoded (h : EncodesCie cie cieNumbers)
    (hsizes : cie.version = 4 → cie.addressSize = 8 ∧ cie.segmentSize = 0)
    (hat : elf.HoldsAt cieOffset (cie.bytes cieNumbers)) :
    getCie elf cieOffset =
      .ok (cie.entry cieNumbers (cieOffset.toNat + (cie.header cieNumbers).length)) := by
  obtain ⟨after, hrest⟩ := hat
  exact parseCie_encoded h hsizes hrest

/-- A distance below 2³¹ is read as it is. -/
theorem signExtend_near {distance : Nat} (hnear : distance < 2 ^ 31) :
    (BitVec.ofNat 32 distance).signExtend 64 = BitVec.ofNat 64 distance := by
  have hmsb : (BitVec.ofNat 32 distance).msb = false := by
    rw [BitVec.msb_eq_false_iff_two_mul_lt, BitVec.toNat_ofNat]
    omega
  rw [BitVec.signExtend_eq_setWidth_of_msb_false hmsb]
  apply BitVec.eq_of_toNat_eq
  simp only [BitVec.toNat_setWidth, BitVec.toNat_ofNat]
  omega

/-- A distance from 2³¹ on is read as a negative one. -/
theorem signExtend_far {distance : Nat} (hfar : 2 ^ 31 ≤ distance) (hfits : distance < 2 ^ 32) :
    (BitVec.ofNat 32 distance).signExtend 64 =
      BitVec.ofNat 64 distance - BitVec.ofNat 64 (2 ^ 32) := by
  have hmsb : (BitVec.ofNat 32 distance).msb = true := by
    rw [BitVec.msb_eq_true_iff_two_mul_ge, BitVec.toNat_ofNat]
    omega
  apply BitVec.eq_of_toNat_eq
  rw [BitVec.toNat_signExtend, hmsb]
  simp only [BitVec.toNat_setWidth, BitVec.toNat_ofNat, BitVec.toNat_sub, if_true]
  omega

theorem RefersTo.place_sub (h : RefersTo elf cie cieNumbers fde numbers cieOffset fdeOffset) :
    BitVec.ofNat 64 (fdeOffset.toNat + 4) - BitVec.ofNat 64 (ofLe numbers.distance) =
      cieOffset := by
  rw [← h.distance, BitVec.ofNat_add, BitVec.ofNat_toNat, BitVec.setWidth_eq]
  exact BitVec.add_sub_cancel _ _

theorem fdeAugmentation_encoded {cur : Cursor} {after : List Byte}
    (h : EncodesFdeRecord cie fde numbers)
    (hcur : cur.rest = fde.augmentation cie numbers ++ after) (cieNumbers : CieNumbers)
    (start : Nat) :
    fdeAugmentation (cie.entry cieNumbers start) cur =
      .ok (cur.advance (fde.augmentation cie numbers).length) := by
  unfold FdeRecord.augmentation at hcur ⊢
  cases haugmentation : cie.augmentation.isSome with
  | false => simp [fdeAugmentation, CieRecord.entry, haugmentation, Cursor.advance]
  | true =>
      rw [haugmentation, if_pos rfl, List.append_assoc] at hcur
      have hfits : fde.augmentationData.length < 2 ^ 64 := by
        have htotal := h.fits
        simp only [FdeRecord.bytes, FdeRecord.header, FdeRecord.augmentation, haugmentation,
          if_true, List.length_append] at htotal
        omega
      simp only [fdeAugmentation, CieRecord.entry, haugmentation, if_true,
        h.dataLength.read hcur, inBounds_some, ok_bind, BitVec.toNat_ofNat,
        Nat.mod_eq_of_lt hfits, Cursor.advance_advance, List.length_append]
      rfl

theorem parseEhFramePointer_origin {encoding : Byte} (h : (encoding &&& 0x70).toNat ≤ 0x40)
    (cur : Cursor) (place text : Word) :
    parseEhFramePointer cur encoding place text 0 0 =
      parseEhFramePointerWithBase cur encoding (fdePointerOrigin encoding place text) := by
  have hkinds : ∀ encoding : Byte, (encoding &&& 0x70).toNat ≤ 0x40 →
      (encoding &&& 0x70).toNat ∈ [0x00, 0x10, 0x20, 0x30, 0x40] := by decide
  unfold parseEhFramePointer fdePointerOrigin
  have hkind := hkinds encoding h
  simp only [List.mem_cons, List.not_mem_nil, or_false] at hkind
  rcases hkind with hkind | hkind | hkind | hkind | hkind <;>
    simp only [hkind]

/-- What the parser should make of an FDE. -/
def FdeRecord.entry (fde : FdeRecord) (cie : CieRecord) (cieNumbers : CieNumbers)
    (numbers : FdeNumbers) (text cieOffset fdeOffset : Word) : ParsedFde where
  cie := (cie.entry cieNumbers 0).toCommonInformationEntry
  initialLocation := fdePointerOrigin cie.fdePointerEncoding
    (BitVec.ofNat 64 (fdeOffset.toNat + 8)) text + fde.location
  addressRange := fde.range
  instructions := fde.instructions
  cieInstructionsStart := cieOffset.toNat + (cie.header cieNumbers).length
  instructionsStart := fdeOffset.toNat + (fde.header cie numbers).length

theorem parseFde_encoded (hcie : EncodesCie cie cieNumbers)
    (hsizes : cie.version = 4 → cie.addressSize = 8 ∧ cie.segmentSize = 0)
    (hfde : EncodesFdeRecord cie fde numbers)
    (hrefers : RefersTo elf cie cieNumbers fde numbers cieOffset fdeOffset)
    (hnear : ofLe numbers.distance < 2 ^ 31)
    (hkind : (cie.fdePointerEncoding &&& 0x70).toNat ≤ 0x40) :
    parseFde elf (elf.span fdeOffset.toNat elf.ehFrameEnd) =
      .ok (fde.entry cie cieNumbers numbers ((elf.getSectionStartAddress ".text").getD 0)
        cieOffset fdeOffset) := by
  obtain ⟨after, hrest⟩ := hrefers.fde_at
  have hlengthRest : (elf.span fdeOffset.toNat elf.ehFrameEnd).rest =
      numbers.length ++ (numbers.distance ++ (numbers.location ++ (numbers.range ++
        (fde.augmentation cie numbers ++ (fde.instructions ++ after))))) := by
    rw [hrest, FdeRecord.bytes, FdeRecord.header]
    simp only [List.append_assoc]
  have hdistanceRest := rest_advance_append hlengthRest
  have hlocationRest := rest_advance_append hdistanceRest
  have hrangeRest := rest_advance_append hlocationRest
  have haugmentationRest := rest_advance_append hrangeRest
  have hlengthRead := fixedInt_bytes (w := 32) hlengthRest hfde.length_size.symm
  have hdistanceRead := fixedInt_bytes (w := 32) hdistanceRest hfde.distance_size.symm
  have hcieRead : getCie elf
      (BitVec.ofNat 64 ((elf.span fdeOffset.toNat elf.ehFrameEnd).advance 4).pos -
        (BitVec.ofNat 32 (ofLe numbers.distance)).signExtend 64) =
      .ok (cie.entry cieNumbers (cieOffset.toNat + (cie.header cieNumbers).length)) := by
    have hoffset := hrefers.place_sub
    rw [← signExtend_near hnear] at hoffset
    change getCie elf (BitVec.ofNat 64 (fdeOffset.toNat + 4) - _) = _
    rw [hoffset]
    exact getCie_encoded hcie hsizes hrefers.cie_at
  have hlocationRead := hfde.location.parse hlocationRest (fdePointerOrigin cie.fdePointerEncoding
    (BitVec.ofNat 64 (fdeOffset.toNat + 8)) ((elf.getSectionStartAddress ".text").getD 0))
  rw [← parseEhFramePointer_origin hkind] at hlocationRead
  have hrangeRead := hfde.range.parse hrangeRest 0
  rw [zero_add] at hrangeRead
  have haugmentationRead := fdeAugmentation_encoded hfde haugmentationRest cieNumbers
    (cieOffset.toNat + (cie.header cieNumbers).length)
  have htotal : (BitVec.ofNat 32 (fde.bytes cie numbers).length).toNat =
      (fde.bytes cie numbers).length := by
    rw [BitVec.toNat_ofNat, Nat.mod_eq_of_lt hfde.fits]
  have hinstructions := entryInstructions_encoded hrest htotal
  rw [hfde.length_size] at hlengthRead hdistanceRead hlocationRead hrangeRead haugmentationRead
  rw [hfde.distance_size] at hdistanceRead hlocationRead hrangeRead haugmentationRead
  have hheader : 4 + (4 + (numbers.location.length + (numbers.range.length +
      (fde.augmentation cie numbers).length))) = (fde.header cie numbers).length := by
    simp only [FdeRecord.header, List.length_append, hfde.length_size, hfde.distance_size]
  have hencoding : (cie.entry cieNumbers
      (cieOffset.toNat + (cie.header cieNumbers).length)).fdePointerEncoding =
        cie.fdePointerEncoding := rfl
  have hplace : (((elf.span fdeOffset.toNat elf.ehFrameEnd).advance 4).advance 4).pos =
      fdeOffset.toNat + 8 := rfl
  simp only [parseFde, Cursor.u32, hlengthRead, inBounds_some, ok_bind, hdistanceRead, hcieRead,
    hencoding, hplace, hlocationRead, hrangeRead, haugmentationRead,
    recordLength_eq hfde.length_eq]
  simp only [Cursor.advance_advance, Nat.add_assoc] at hheader ⊢
  rw [hheader, hinstructions]
  rfl

/-- A distance from 2³¹ on leads behind the CIE by 2³², and so out of a file that
is not so long. -/
theorem parseFde_far (hfde : EncodesFdeRecord cie fde numbers)
    (hrefers : RefersTo elf cie cieNumbers fde numbers cieOffset fdeOffset)
    (hfar : 2 ^ 31 ≤ ofLe numbers.distance)
    (hfile : elf.map.length ≤ cieOffset.toNat + 2 ^ 32)
    (hword : cieOffset.toNat + 2 ^ 32 < 2 ^ 64) (parsed : ParsedFde) :
    parseFde elf (elf.span fdeOffset.toNat elf.ehFrameEnd) ≠ .ok parsed := by
  obtain ⟨after, hrest⟩ := hrefers.fde_at
  rw [FdeRecord.bytes, FdeRecord.header, List.append_assoc, List.append_assoc,
    List.append_assoc] at hrest
  have hdistanceRest := rest_advance_append hrest
  have hlengthRead := fixedInt_bytes (w := 32) hrest hfde.length_size.symm
  have hdistanceRead := fixedInt_bytes (w := 32) hdistanceRest hfde.distance_size.symm
  rw [hfde.length_size] at hlengthRead hdistanceRead
  have hfits : ofLe numbers.distance < 2 ^ 32 := by
    have hlt := ofLe_lt numbers.distance
    rw [hfde.distance_size] at hlt
    exact hlt
  have hcieRead : getCie elf
      (BitVec.ofNat 64 ((elf.span fdeOffset.toNat elf.ehFrameEnd).advance 4).pos -
        (BitVec.ofNat 32 (ofLe numbers.distance)).signExtend 64) =
      .error (.undefined "read outside the buffer") := by
    have hoffset : BitVec.ofNat 64 (fdeOffset.toNat + 4) -
        (BitVec.ofNat 32 (ofLe numbers.distance)).signExtend 64 =
          cieOffset + BitVec.ofNat 64 (2 ^ 32) := by
      rw [signExtend_far hfar hfits, ← hrefers.place_sub]
      ring
    have houtside : (elf.span (cieOffset.toNat + 2 ^ 32) elf.ehFrameEnd).rest = [] := by
      apply List.drop_eq_nil_of_le
      change (elf.map.take _).length ≤ cieOffset.toNat + 2 ^ 32
      rw [List.length_take]
      exact Nat.le_trans (Nat.min_le_right _ _) hfile
    have hnone : (elf.span (cieOffset.toNat + 2 ^ 32) elf.ehFrameEnd).fixedInt 32 = none := by
      rw [Cursor.fixedInt, Cursor.block, houtside]
      rfl
    change getCie elf (BitVec.ofNat 64 (fdeOffset.toNat + 4) - _) = _
    have hplace : (cieOffset + BitVec.ofNat 64 (2 ^ 32)).toNat = cieOffset.toNat + 2 ^ 32 := by
      rw [BitVec.toNat_add, BitVec.toNat_ofNat]
      omega
    rw [hoffset, getCie, hplace, parseCie, Cursor.u32, hnone]
    rfl
  simp only [parseFde, Cursor.u32, hlengthRead, inBounds_some, ok_bind, hdistanceRead, hcieRead]
  exact fun h => by cases h

end Records

/-- Parsing inverts encoding.  A CIE gives its factors, pointer encoding,
augmentation flag and instructions, and so does every FDE whose distance to it is
below 2³¹ and whose pointers are relative to something that is known. -/
theorem parse_inverts_encoding (cie : CieRecord) (cieNumbers : CieNumbers)
    (hcie : EncodesCie cie cieNumbers)
    (hsizes : cie.version = 4 → cie.addressSize = 8 ∧ cie.segmentSize = 0) :
    (∀ (cur : Cursor) (after : List Byte), cur.rest = cie.bytes cieNumbers ++ after →
      parseCie cur = .ok (cie.entry cieNumbers (cur.pos + (cie.header cieNumbers).length))) ∧
    ∀ (elf : Elf) (fde : FdeRecord) (numbers : FdeNumbers) (cieOffset fdeOffset : Word),
      EncodesFdeRecord cie fde numbers →
      RefersTo elf cie cieNumbers fde numbers cieOffset fdeOffset →
      ofLe numbers.distance < 2 ^ 31 → (cie.fdePointerEncoding &&& 0x70).toNat ≤ 0x40 →
      parseFde elf (elf.span fdeOffset.toNat elf.ehFrameEnd) =
        .ok (fde.entry cie cieNumbers numbers ((elf.getSectionStartAddress ".text").getD 0)
          cieOffset fdeOffset) := by
  constructor
  · intro cur after hcur
    exact parseCie_encoded hcie hsizes hcur
  · intro elf fde numbers cieOffset fdeOffset hfde hrefers hnear hkind
    exact parseFde_encoded hcie hsizes hfde hrefers hnear hkind

namespace UnwindRecordsWitness

/-- A file that is one `.eh_frame` section. -/
def fileOf (bytes : List Byte) : Elf :=
  ⟨bytes, [⟨".eh_frame", 2, 0, 0, BitVec.ofNat 64 bytes.length⟩], 0⟩

theorem holdsAt_fileOf {all before bytes after : List Byte}
    (hall : all = before ++ (bytes ++ after)) (hfits : all.length < 2 ^ 64) :
    (fileOf all).HoldsAt (BitVec.ofNat 64 before.length) bytes := by
  have hbefore : before.length < 2 ^ 64 := by
    rw [hall, List.length_append] at hfits
    omega
  refine ⟨after, ?_⟩
  have hend : (fileOf all).ehFrameEnd = all.length := by
    change 0 + (BitVec.ofNat 64 _).toNat = _
    rw [BitVec.toNat_ofNat, Nat.mod_eq_of_lt hfits, Nat.zero_add]
  rw [BitVec.toNat_ofNat, Nat.mod_eq_of_lt hbefore, hend, Elf.span, Cursor.rest]
  change (all.take _).drop _ = _
  rw [List.take_length, hall, List.drop_left]

/-- A CIE and an FDE behind it. -/
def pair (cie : CieRecord) (cieNumbers : CieNumbers) (fde : FdeRecord) (numbers : FdeNumbers) :
    Elf :=
  fileOf (cie.bytes cieNumbers ++ fde.bytes cie numbers)

theorem pair_refers {cie : CieRecord} {cieNumbers : CieNumbers} {fde : FdeRecord}
    {numbers : FdeNumbers} {fdeOffset : Word} (hcie : EncodesCie cie cieNumbers)
    (hfde : EncodesFdeRecord cie fde numbers)
    (hoffset : fdeOffset.toNat = (cie.bytes cieNumbers).length)
    (hdistance : ofLe numbers.distance = fdeOffset.toNat + 4) :
    RefersTo (pair cie cieNumbers fde numbers) cie cieNumbers fde numbers 0 fdeOffset := by
  have hfits : (cie.bytes cieNumbers ++ fde.bytes cie numbers).length < 2 ^ 64 := by
    have hcieFits := hcie.fits
    have hfdeFits := hfde.fits
    rw [List.length_append]
    omega
  constructor
  · exact holdsAt_fileOf (List.nil_append _).symm hfits
  · have hplace : fdeOffset = BitVec.ofNat 64 (cie.bytes cieNumbers).length := by
      rw [← hoffset, BitVec.ofNat_toNat, BitVec.setWidth_eq]
    rw [hplace]
    exact holdsAt_fileOf (congrArg _ (List.append_nil _).symm) hfits
  · rw [hdistance]
    exact Nat.zero_add _

def factors (length dataLength : List Byte) : CieNumbers :=
  ⟨length, [1], [0x78], [0x10], dataLength⟩

/-- A CIE of version 4 for addresses of four bytes. -/
def narrow : CieRecord := ⟨4, 4, 0, 1, -8, 16, none, []⟩

theorem narrow_encoded : EncodesCie narrow (factors [11, 0, 0, 0] []) where
  version := by decide
  length_size := rfl
  length_eq := by decide
  fits := by decide
  codeFactor := ⟨by decide, by decide, by decide⟩
  dataFactor := ⟨by decide, by decide, by decide⟩
  returnRegister := ⟨by decide, by decide, by decide⟩
  dataLength := rfl
  fields := by simp [CieRecord.fields, narrow]

/-- A CIE that selects a pointer encoding, with seven bytes of instructions. -/
def selecting (encoding : Byte) : CieRecord :=
  ⟨1, 0, 0, 1, -8, 16, some [.pointerEncoding encoding], [0, 0, 0, 0, 0, 0, 0]⟩

theorem selecting_encoded (encoding : Byte) :
    EncodesCie (selecting encoding) (factors [20, 0, 0, 0] [1]) where
  version := .inl rfl
  length_size := rfl
  length_eq := rfl
  fits := (by decide : 24 < 2 ^ 32)
  codeFactor := ⟨by decide, by decide, rfl⟩
  dataFactor := ⟨by decide, by decide, rfl⟩
  returnRegister := ⟨0x10, rfl, rfl⟩
  dataLength := ⟨by decide, by decide, rfl⟩
  fields := by simp [CieRecord.fields, selecting, AugmentationField.WellFormed]

/-- A function of sixteen bytes, with addresses of eight bytes. -/
def fde (instructions : List Byte) : FdeRecord := ⟨0x1000, 0x10, [], instructions⟩

def fdeNumbers (length distance : List Byte) : FdeNumbers :=
  ⟨length, distance, [0, 0x10, 0, 0, 0, 0, 0, 0], [0x10, 0, 0, 0, 0, 0, 0, 0], [0]⟩

theorem encodes_wide {encoding : Byte} {value : Word} {field : List Byte}
    (hformat : encoding &&& 0x0f = 0x00 ∨ encoding &&& 0x0f = 0x04 ∨ encoding &&& 0x0f = 0x0c)
    (hlength : field.length = 8) (hvalue : value = BitVec.ofNat 64 (ofLe field)) :
    EncodesPointer encoding value field := by
  rw [hvalue]
  exact .wide hformat hlength

theorem fde_encoded {encoding : Byte}
    (hformat : encoding &&& 0x0f = 0x00 ∨ encoding &&& 0x0f = 0x04 ∨ encoding &&& 0x0f = 0x0c) :
    EncodesFdeRecord (selecting encoding) (fde [0, 0, 0, 0, 0, 0, 0])
      (fdeNumbers [28, 0, 0, 0] [28, 0, 0, 0]) where
  length_size := rfl
  length_eq := rfl
  fits := (by decide : 32 < 2 ^ 32)
  distance_size := rfl
  location := encodes_wide hformat rfl (by decide)
  range := encodes_wide hformat rfl (by decide)
  dataLength := ⟨by decide, by decide, by decide⟩

def file (encoding : Byte) : Elf :=
  pair (selecting encoding) (factors [20, 0, 0, 0] [1]) (fde [0, 0, 0, 0, 0, 0, 0])
    (fdeNumbers [28, 0, 0, 0] [28, 0, 0, 0])

/-- A CIE with many instructions, and an FDE behind it. -/
def long (instructions : List Byte) : CieRecord := ⟨1, 0, 0, 1, -8, 16, none, instructions⟩

def longFile (instructions : List Byte) : Elf :=
  pair (long instructions) (factors [9, 0, 0, 0x80] []) (fde [])
    (fdeNumbers [20, 0, 0, 0] [17, 0, 0, 0x80])

section Long

variable {instructions : List Byte}

theorem long_length (hlength : instructions.length = 2 ^ 31) :
    ((long instructions).bytes (factors [9, 0, 0, 0x80] [])).length = 2 ^ 31 + 13 := by
  have hheader : ((long instructions).header (factors [9, 0, 0, 0x80] [])).length = 13 := rfl
  have hinstructions : (long instructions).instructions.length = 2 ^ 31 := hlength
  rw [CieRecord.bytes, List.length_append, hheader, hinstructions, Nat.add_comm]

theorem long_encoded (hlength : instructions.length = 2 ^ 31) :
    EncodesCie (long instructions) (factors [9, 0, 0, 0x80] []) where
  version := .inl rfl
  length_size := rfl
  length_eq := by
    rw [long_length hlength]
    decide
  fits := by
    rw [long_length hlength]
    decide
  codeFactor := ⟨by decide, by decide, rfl⟩
  dataFactor := ⟨by decide, by decide, rfl⟩
  returnRegister := ⟨0x10, rfl, rfl⟩
  dataLength := rfl
  fields := by simp [CieRecord.fields, long]

theorem longFde_encoded :
    EncodesFdeRecord (long instructions) (fde []) (fdeNumbers [20, 0, 0, 0] [17, 0, 0, 0x80]) where
  length_size := rfl
  length_eq := rfl
  fits := (by decide : 24 < 2 ^ 32)
  distance_size := rfl
  location := encodes_wide (.inr (.inl (by change (0x04 : Byte) &&& 0x0f = 0x04; decide))) rfl
    (by decide)
  range := encodes_wide (.inr (.inl (by change (0x04 : Byte) &&& 0x0f = 0x04; decide))) rfl
    (by decide)
  dataLength := ⟨by decide, by decide, by decide⟩

theorem longFile_length (hlength : instructions.length = 2 ^ 31) :
    (longFile instructions).map.length = 2 ^ 31 + 37 := by
  have hmap : (longFile instructions).map =
      (long instructions).bytes (factors [9, 0, 0, 0x80] []) ++
        (fde []).bytes (long instructions) (fdeNumbers [20, 0, 0, 0] [17, 0, 0, 0x80]) := rfl
  have hfde : ((fde []).bytes (long instructions)
      (fdeNumbers [20, 0, 0, 0] [17, 0, 0, 0x80])).length = 24 := rfl
  rw [hmap, List.length_append, long_length hlength, hfde]

theorem longFile_refers (hlength : instructions.length = 2 ^ 31) :
    RefersTo (longFile instructions) (long instructions) (factors [9, 0, 0, 0x80] []) (fde [])
      (fdeNumbers [20, 0, 0, 0] [17, 0, 0, 0x80]) 0 0x8000000d := by
  apply pair_refers (long_encoded hlength) longFde_encoded
  · rw [long_length hlength]
    decide
  · decide

end Long

/-- Three encoded records that are not parsed: a CIE of version 4 for addresses
of four bytes, an FDE with an aligned pointer, and an FDE that is 2³¹ bytes
behind its CIE. -/
theorem records_not_parsed :
    (EncodesCie narrow (factors [11, 0, 0, 0] []) ∧
      ∀ parsed, parseCie ⟨narrow.bytes (factors [11, 0, 0, 0] []), 0⟩ ≠ .ok parsed) ∧
    (EncodesCie (selecting 0x50) (factors [20, 0, 0, 0] [1]) ∧
      EncodesFdeRecord (selecting 0x50) (fde [0, 0, 0, 0, 0, 0, 0])
        (fdeNumbers [28, 0, 0, 0] [28, 0, 0, 0]) ∧
      RefersTo (file 0x50) (selecting 0x50) (factors [20, 0, 0, 0] [1])
        (fde [0, 0, 0, 0, 0, 0, 0]) (fdeNumbers [28, 0, 0, 0] [28, 0, 0, 0]) 0 24 ∧
      ∀ parsed, parseFde (file 0x50) ((file 0x50).span 24 (file 0x50).ehFrameEnd) ≠ .ok parsed) ∧
    (EncodesCie (long (List.replicate (2 ^ 31) 0)) (factors [9, 0, 0, 0x80] []) ∧
      EncodesFdeRecord (long (List.replicate (2 ^ 31) 0)) (fde [])
        (fdeNumbers [20, 0, 0, 0] [17, 0, 0, 0x80]) ∧
      RefersTo (longFile (List.replicate (2 ^ 31) 0)) (long (List.replicate (2 ^ 31) 0))
        (factors [9, 0, 0, 0x80] []) (fde []) (fdeNumbers [20, 0, 0, 0] [17, 0, 0, 0x80]) 0
        0x8000000d ∧
      ∀ parsed, parseFde (longFile (List.replicate (2 ^ 31) 0))
        ((longFile (List.replicate (2 ^ 31) 0)).span (0x8000000d : Word).toNat
          (longFile (List.replicate (2 ^ 31) 0)).ehFrameEnd) ≠ .ok parsed) := by
  have hlength : (List.replicate (2 ^ 31) (0 : Byte)).length = 2 ^ 31 := List.length_replicate
  refine ⟨⟨narrow_encoded, ?_⟩, ⟨selecting_encoded _, fde_encoded (.inl rfl),
    pair_refers (selecting_encoded _) (fde_encoded (.inl rfl)) rfl rfl, ?_⟩,
    long_encoded hlength, longFde_encoded, longFile_refers hlength, ?_⟩
  · intro parsed h
    have herror : parseCie ⟨narrow.bytes (factors [11, 0, 0, 0] []), 0⟩ =
        .error (.error "Invalid address size!") := rfl
    rw [herror] at h
    cases h
  · intro parsed h
    have herror : parseFde (file 0x50) ((file 0x50).span 24 (file 0x50).ehFrameEnd) =
        .error (.error "Unknown eh_frame pointer encoding!") := rfl
    rw [herror] at h
    cases h
  · intro parsed
    apply parseFde_far longFde_encoded (longFile_refers hlength)
    · decide
    · rw [longFile_length hlength]
      decide
    · decide

/-- Pointers relative to their own place, in an FDE at file offset 24. -/
theorem parse_inverts_encoding_pcrel :
    parseCie ⟨(selecting 0x1c).bytes (factors [20, 0, 0, 0] [1]), 0⟩ =
      .ok ((selecting 0x1c).entry (factors [20, 0, 0, 0] [1]) 17) ∧
    parseFde (file 0x1c) ((file 0x1c).span 24 (file 0x1c).ehFrameEnd) =
      .ok ((fde [0, 0, 0, 0, 0, 0, 0]).entry (selecting 0x1c) (factors [20, 0, 0, 0] [1])
        (fdeNumbers [28, 0, 0, 0] [28, 0, 0, 0]) 0 0 24) := by
  have hparse := parse_inverts_encoding (selecting 0x1c) (factors [20, 0, 0, 0] [1])
    (selecting_encoded _) (fun hversion => absurd hversion (by decide))
  exact ⟨hparse.1 ⟨_, 0⟩ [] (List.append_nil _).symm,
    hparse.2 (file 0x1c) _ _ 0 24 (fde_encoded (.inr (.inr rfl)))
      (pair_refers (selecting_encoded _) (fde_encoded (.inr (.inr rfl))) rfl rfl) (by decide)
      (by decide)⟩

end UnwindRecordsWitness

end Gsdb
