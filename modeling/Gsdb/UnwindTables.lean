/-
Decoding the unwind tables.  The linker encodes addresses relative to the
addresses of sections; the decoder takes the file offset of a pointer for its
address.  The two agree where sections have their file offset as address.
-/
import Gsdb.AttributeForms
import Gsdb.EhFrame

namespace Gsdb

open ByteMemory ByteCursor

/-- Bytes that are a signed LEB128 number. -/
def IsSleb (bytes : List Byte) (value : Word) : Prop :=
  (Cursor.mk bytes 0).sleb128 = some (value, ⟨bytes, bytes.length⟩)

/-- The encodings of a number in the format that an encoding byte selects. -/
inductive EncodesPointer (encoding : Byte) : Word → List Byte → Prop where
  | wide {bytes : List Byte} (hformat : encoding &&& 0x0f = 0x00 ∨ encoding &&& 0x0f = 0x04 ∨
      encoding &&& 0x0f = 0x0c) (hlength : bytes.length = 8) :
      EncodesPointer encoding (BitVec.ofNat 64 (ofLe bytes)) bytes
  | udata2 {bytes : List Byte} (hformat : encoding &&& 0x0f = 0x02) (hlength : bytes.length = 2) :
      EncodesPointer encoding (BitVec.ofNat 64 (ofLe bytes)) bytes
  | udata4 {bytes : List Byte} (hformat : encoding &&& 0x0f = 0x03) (hlength : bytes.length = 4) :
      EncodesPointer encoding (BitVec.ofNat 64 (ofLe bytes)) bytes
  | sdata2 {bytes : List Byte} (hformat : encoding &&& 0x0f = 0x0a) (hlength : bytes.length = 2) :
      EncodesPointer encoding ((BitVec.ofNat 16 (ofLe bytes)).signExtend 64) bytes
  | sdata4 {bytes : List Byte} (hformat : encoding &&& 0x0f = 0x0b) (hlength : bytes.length = 4) :
      EncodesPointer encoding ((BitVec.ofNat 32 (ofLe bytes)).signExtend 64) bytes
  | uleb128 {bytes : List Byte} {value : Word} (hformat : encoding &&& 0x0f = 0x01)
      (hleb : IsUleb bytes value) : EncodesPointer encoding value bytes
  | sleb128 {bytes : List Byte} {value : Word} (hformat : encoding &&& 0x0f = 0x09)
      (hleb : IsSleb bytes value) : EncodesPointer encoding value bytes

/-- What a pointer is relative to: nothing, its own place or a data section. -/
def pointerBase (encoding : Byte) (place dataStart : Word) : Option Word :=
  match (encoding &&& 0x70).toNat with
  | 0x00 => some 0
  | 0x10 => some place
  | 0x30 => some dataStart
  | _ => none

/-- An address as the linker encodes it, for a pointer at a place. -/
def EncodesAddress (encoding : Byte) (place dataStart target : Word) (bytes : List Byte) : Prop :=
  ∃ base, pointerBase encoding place dataStart = some base ∧
    EncodesPointer encoding (target - base) bytes

/-- The address of a file offset of a section. -/
def SectionHeader.addressAt (header : SectionHeader) (offset : Nat) : Word :=
  header.shAddr + (BitVec.ofNat 64 offset - header.shOffset)

/-- A function in the tables: its addresses, where its FDE is in the file, and
the pointer encoding of the FDE. -/
structure TableRow where
  location : Word
  range : Word
  fde : Nat
  encoding : Byte

/-- The sections of the tables, and what pointers of FDEs to data are relative
to. -/
structure TableLayout where
  ehFrame : SectionHeader
  ehFrameHdr : SectionHeader
  dataStart : Word

/-- A row of the search table, with pointers of one size. -/
def EncodesRow (elf : Elf) (layout : TableLayout) (hdr : EhHdr) (size index : Nat)
    (row : TableRow) : Prop :=
  ∃ locationBytes fdeBytes after,
    (elf.span (hdr.searchTable + index * (2 * size))
      (hdr.searchTable + hdr.count * (2 * size))).rest = locationBytes ++ fdeBytes ++ after ∧
    locationBytes.length = size ∧
    EncodesAddress hdr.encoding
      (layout.ehFrameHdr.addressAt (hdr.searchTable + index * (2 * size)))
      layout.ehFrameHdr.shAddr row.location locationBytes ∧
    EncodesAddress hdr.encoding
      (layout.ehFrameHdr.addressAt (hdr.searchTable + index * (2 * size) + size))
      layout.ehFrameHdr.shAddr (layout.ehFrame.addressAt row.fde) fdeBytes

/-- The FDE of a function: length, distance to its CIE, addresses, and
augmentation data where the CIE says so. -/
def EncodesFde (elf : Elf) (layout : TableLayout) (row : TableRow) : Prop :=
  ∃ lengthBytes distanceBytes locationBytes rangeBytes after cie,
    (elf.span row.fde elf.ehFrameEnd).rest =
      lengthBytes ++ (distanceBytes ++ (locationBytes ++ (rangeBytes ++ after))) ∧
    lengthBytes.length = 4 ∧ distanceBytes.length = 4 ∧
    getCie elf (BitVec.ofNat 64 (row.fde + 4) -
      (BitVec.ofNat 32 (ofLe distanceBytes)).signExtend 64) = .ok cie ∧
    cie.fdePointerEncoding = row.encoding ∧
    EncodesAddress row.encoding (layout.ehFrame.addressAt (row.fde + 8)) layout.dataStart
      row.location locationBytes ∧
    EncodesPointer row.encoding row.range rangeBytes ∧
    (cie.fdeHasAugmentation = true → ∃ lebBytes length rest,
      after = lebBytes ++ rest ∧ IsUleb lebBytes length)

/-- The tables as the linker lays them out: functions in order, each with a row
and an FDE. -/
structure EncodesTables (elf : Elf) (layout : TableLayout) (hdr : EhHdr) (size : Nat)
    (rows : List TableRow) : Prop where
  text : (elf.getSectionStartAddress ".text").isSome = true
  fits : elf.map.length < 2 ^ 64
  start : BitVec.ofNat 64 hdr.start = layout.ehFrameHdr.shOffset
  count : hdr.count = rows.length
  encoded : ehFramePointerEncodingSize hdr.encoding = .ok size
  row : ∀ {index row}, rows[index]? = some row → EncodesRow elf layout hdr size index row
  fde : ∀ {row}, row ∈ rows → EncodesFde elf layout row
  inside : ∀ {row}, row ∈ rows → row.location.toNat + row.range.toNat < 2 ^ 64
  ordered : rows.Pairwise fun row next =>
    row.location < next.location ∧ row.location.toNat + row.range.toNat ≤ next.location.toNat

/-- What is in front of the search table: a version, three encodings, a pointer to the frames and
the number of rows. -/
structure EncodesHeader (elf : Elf) (layout : TableLayout) (hdr : EhHdr) : Prop where
  header : elf.getSection ".eh_frame_hdr" = some layout.ehFrameHdr
  start : hdr.start = layout.ehFrameHdr.shOffset.toNat
  fields : ∃ version pointerEncoding countEncoding pointer pointerBytes countBytes after,
    (elf.span hdr.start (hdr.start + layout.ehFrameHdr.shSize.toNat)).rest =
      version :: pointerEncoding :: countEncoding :: hdr.encoding ::
        (pointerBytes ++ (countBytes ++ after)) ∧
    EncodesPointer pointerEncoding pointer pointerBytes ∧
    EncodesPointer countEncoding (BitVec.ofNat 64 hdr.count) countBytes ∧
    hdr.searchTable = hdr.start + 4 + pointerBytes.length + countBytes.length
  count : hdr.count < 2 ^ 64

/-- The addresses in the tables are decoded as file addresses: those of the rows,
those of the FDEs that the rows point to, and so every program counter of a
function is accepted. -/
structure DecodesFileAddresses (elf : Elf) (hdr : EhHdr) (size : Nat)
    (rows : List TableRow) : Prop where
  entry : ∀ {index row text}, rows[index]? = some row → elf.textSectionStart = .ok text →
    hdr.entryAddress elf text size index = .ok row.location
  pointer : ∀ {index row text}, rows[index]? = some row → elf.textSectionStart = .ok text →
    hdr.pointerAt elf text size index size = .ok (BitVec.ofNat 64 row.fde)
  initial : ∀ {row}, row ∈ rows → ∃ fde, parseFde elf (elf.span row.fde elf.ehFrameEnd) = .ok fde ∧
    fde.initialLocation = row.location
  accepts : ∀ {row}, row ∈ rows → ∀ pc, row.location ≤ pc →
    pc.toNat < row.location.toNat + row.range.toNat →
    ∃ fde, findFde elf hdr pc = .ok fde ∧ fde.initialLocation = row.location

/-- The sections that pointers are relative to have their file offsets as
addresses, and data pointers of FDEs are relative to nothing. -/
structure AddressesAreOffsets (layout : TableLayout) (hdr : EhHdr)
    (rows : List TableRow) : Prop where
  ehFrame : layout.ehFrame.shAddr = layout.ehFrame.shOffset
  ehFrameHdr : hdr.encoding &&& 0x70 ≠ 0 → layout.ehFrameHdr.shAddr = layout.ehFrameHdr.shOffset
  dataStart : ∀ row ∈ rows, row.encoding &&& 0x70 = 0x30 → layout.dataStart = 0

section Pointers

variable {encoding : Byte} {value : Word} {bytes after : List Byte} {cur : Cursor}

theorem IsSleb.sleb128 (h : IsSleb bytes value) (hcur : cur.rest = bytes ++ after) :
    cur.sleb128 = some (value, cur.advance bytes.length) := by
  obtain ⟨⟨res, shift, last, count⟩, hloop, hout⟩ := Option.map_eq_some_iff.mp h
  have hcount : count = bytes.length := by
    have hpos := congrArg (fun out => out.2.pos) hout
    simpa using hpos
  have hvalue := congrArg Prod.fst hout
  have hbytes : lebLoop 0 0 bytes = some (res, shift, last, count) := hloop
  rw [Cursor.sleb128, hcur, lebLoop_append after hbytes, Option.map_some, hcount]
  exact congrArg some (Prod.ext hvalue rfl)

theorem fixedInt_bytes {w : Nat} (hcur : cur.rest = bytes ++ after)
    (hlength : w / 8 = bytes.length) :
    cur.fixedInt w = some (BitVec.ofNat w (ofLe bytes), cur.advance bytes.length) := by
  rw [Cursor.fixedInt_of_le (by rw [hcur, List.length_append]; omega), hcur, hlength,
    List.take_left]

theorem setWidth_ofLe {w : Nat} (hwidth : 256 ^ bytes.length = 2 ^ w) :
    (BitVec.ofNat w (ofLe bytes)).setWidth 64 = BitVec.ofNat 64 (ofLe bytes) := by
  have hlt : ofLe bytes < 2 ^ w := hwidth ▸ ofLe_lt bytes
  apply BitVec.eq_of_toNat_eq
  rw [BitVec.toNat_setWidth, BitVec.toNat_ofNat, BitVec.toNat_ofNat, Nat.mod_eq_of_lt hlt]

/-- A number is read in the format in which it was encoded. -/
theorem EncodesPointer.parse (h : EncodesPointer encoding value bytes)
    (hcur : cur.rest = bytes ++ after) (base : Word) :
    parseEhFramePointerWithBase cur encoding base =
      .ok (base + value, cur.advance bytes.length) := by
  cases h with
  | wide hformat hlength =>
      have hread := fixedInt_bytes (w := 64) hcur hlength.symm
      rcases hformat with hformat | hformat | hformat <;>
        simp only [parseEhFramePointerWithBase, hformat, Cursor.u64, hread,
          inBounds_some, ok_bind] <;>
        rfl
  | udata2 hformat hlength =>
      have hread := fixedInt_bytes (w := 16) hcur hlength.symm
      simp only [parseEhFramePointerWithBase, hformat, Cursor.u16, hread,
        inBounds_some, ok_bind]
      rw [← setWidth_ofLe (w := 16) (by rw [hlength]; rfl)]
      rfl
  | udata4 hformat hlength =>
      have hread := fixedInt_bytes (w := 32) hcur hlength.symm
      simp only [parseEhFramePointerWithBase, hformat, Cursor.u32, hread,
        inBounds_some, ok_bind]
      rw [← setWidth_ofLe (w := 32) (by rw [hlength]; rfl)]
      rfl
  | sdata2 hformat hlength =>
      have hread := fixedInt_bytes (w := 16) hcur hlength.symm
      simp only [parseEhFramePointerWithBase, hformat, Cursor.u16, hread,
        inBounds_some, ok_bind]
      rfl
  | sdata4 hformat hlength =>
      have hread := fixedInt_bytes (w := 32) hcur hlength.symm
      simp only [parseEhFramePointerWithBase, hformat, Cursor.u32, hread,
        inBounds_some, ok_bind]
      rfl
  | uleb128 hformat hleb =>
      simp only [parseEhFramePointerWithBase, hformat, hleb.uleb128 hcur, inBounds_some, ok_bind]
      rfl
  | sleb128 hformat hleb =>
      simp only [parseEhFramePointerWithBase, hformat, hleb.sleb128 hcur, inBounds_some, ok_bind]
      rfl

/-- The decoder selects the base as the linker does. -/
theorem parseEhFramePointer_of_base {place dataStart base : Word}
    (hbase : pointerBase encoding place dataStart = some base) (cur : Cursor) (text func : Word) :
    parseEhFramePointer cur encoding place text dataStart func =
      parseEhFramePointerWithBase cur encoding base := by
  unfold pointerBase at hbase
  unfold parseEhFramePointer
  split at hbase <;> simp_all

theorem pointerBase_isSome {place dataStart base : Word}
    (hbase : pointerBase encoding place dataStart = some base) (place' dataStart' : Word) :
    ∃ base', pointerBase encoding place' dataStart' = some base' := by
  unfold pointerBase at hbase ⊢
  split at hbase <;> simp_all

/-- An address is decoded up to the difference of the bases. -/
theorem parseEhFramePointer_encoded {base base' place' dataStart' target : Word}
    (h : EncodesPointer encoding (target - base) bytes) (hcur : cur.rest = bytes ++ after)
    (hbase' : pointerBase encoding place' dataStart' = some base') (text func : Word) :
    parseEhFramePointer cur encoding place' text dataStart' func =
      .ok (base' + (target - base), cur.advance bytes.length) := by
  rw [parseEhFramePointer_of_base hbase', h.parse hcur]

theorem base_add_target_iff {base base' target : Word} :
    base' + (target - base) = target ↔ base' = base := by
  constructor
  · intro heq
    calc base' = base' + (target - base) - target + base := by ring
      _ = base := by rw [heq]; ring
  · rintro rfl
    ring

end Pointers

section Places

variable {header : SectionHeader} {offset : Nat}

theorem addressAt_eq_offset_iff :
    header.addressAt offset = BitVec.ofNat 64 offset ↔ header.shAddr = header.shOffset := by
  rw [SectionHeader.addressAt]
  constructor
  · intro heq
    calc header.shAddr
        = header.shAddr + (BitVec.ofNat 64 offset - header.shOffset) - BitVec.ofNat 64 offset +
            header.shOffset := by ring
      _ = header.shOffset := by rw [heq]; ring
  · intro heq
    rw [heq]
    ring

/-- The bases of the linker and of the decoder are equal for absolute pointers,
and for others where the place and the section agree. -/
theorem pointerBase_eq_iff {encoding : Byte} {place dataStart place' dataStart' base base' : Word}
    (hbase : pointerBase encoding place dataStart = some base)
    (hbase' : pointerBase encoding place' dataStart' = some base') :
    base' = base ↔ (encoding &&& 0x70 = 0x10 → place' = place) ∧
      (encoding &&& 0x70 = 0x30 → dataStart' = dataStart) := by
  unfold pointerBase at hbase hbase'
  split at hbase
  · rename_i hkind
    have hzero : encoding &&& 0x70 = 0 := BitVec.eq_of_toNat_eq hkind
    rw [hzero] at hbase' ⊢
    simp_all
  · rename_i hkind
    have hpcrel : encoding &&& 0x70 = 0x10 := BitVec.eq_of_toNat_eq hkind
    rw [hpcrel] at hbase' ⊢
    simp_all
  · rename_i hkind
    have hdatarel : encoding &&& 0x70 = 0x30 := BitVec.eq_of_toNat_eq hkind
    rw [hdatarel] at hbase' ⊢
    simp_all
  · cases hbase

theorem pointerBase_relative {encoding : Byte} {place dataStart base : Word}
    (hbase : pointerBase encoding place dataStart = some base) (h : encoding &&& 0x70 ≠ 0) :
    encoding &&& 0x70 = 0x10 ∨ encoding &&& 0x70 = 0x30 := by
  unfold pointerBase at hbase
  split at hbase
  · rename_i hkind
    exact absurd (BitVec.eq_of_toNat_eq hkind) h
  · rename_i hkind
    exact .inl (BitVec.eq_of_toNat_eq hkind)
  · rename_i hkind
    exact .inr (BitVec.eq_of_toNat_eq hkind)
  · cases hbase

/-- In the search table the bases are equal where the section has its file offset
as address. -/
theorem tableBase_eq_iff {encoding : Byte} {start base base' : Word}
    (hbase : pointerBase encoding (header.addressAt offset) header.shAddr = some base)
    (hbase' : pointerBase encoding (BitVec.ofNat 64 offset) start = some base')
    (hstart : start = header.shOffset) :
    base' = base ↔ (encoding &&& 0x70 ≠ 0 → header.shAddr = header.shOffset) := by
  rw [pointerBase_eq_iff hbase hbase', hstart]
  constructor
  · intro h hrelative
    rcases pointerBase_relative hbase hrelative with hpcrel | hdatarel
    · exact addressAt_eq_offset_iff.mp (h.1 hpcrel).symm
    · exact (h.2 hdatarel).symm
  · intro h
    refine ⟨fun hpcrel => (addressAt_eq_offset_iff.mpr (h ?_)).symm, fun hdatarel => (h ?_).symm⟩
    · rw [hpcrel]
      decide
    · rw [hdatarel]
      decide

end Places

section Rows

variable {elf : Elf} {layout : TableLayout} {hdr : EhHdr} {size index : Nat} {row : TableRow}

/-- A pointer of the search table is decoded up to the difference of the bases. -/
theorem pointerAt_encoded {place : Nat} {target : Word} {bytes after : List Byte}
    (hstart : BitVec.ofNat 64 hdr.start = layout.ehFrameHdr.shOffset)
    (hrest : (elf.span (hdr.searchTable + index * (2 * size) + place)
      (hdr.searchTable + hdr.count * (2 * size))).rest = bytes ++ after)
    (h : EncodesAddress hdr.encoding
      (layout.ehFrameHdr.addressAt (hdr.searchTable + index * (2 * size) + place))
      layout.ehFrameHdr.shAddr target bytes) (text : Word) :
    ∃ base base', hdr.pointerAt elf text size index place = .ok (base' + (target - base)) ∧
      (base' = base ↔ (hdr.encoding &&& 0x70 ≠ 0 →
        layout.ehFrameHdr.shAddr = layout.ehFrameHdr.shOffset)) := by
  obtain ⟨base, hbase, hpointer⟩ := h
  obtain ⟨base', hbase'⟩ := pointerBase_isSome hbase
    (BitVec.ofNat 64 (hdr.searchTable + index * (2 * size) + place)) (BitVec.ofNat 64 hdr.start)
  refine ⟨base, base', ?_, tableBase_eq_iff hbase hbase' hstart⟩
  have hparse := parseEhFramePointer_encoded hpointer hrest hbase' text 0
  rw [EhHdr.pointerAt]
  simp only [Elf.span] at hparse ⊢
  rw [hparse]
  rfl

/-- The address in a row. -/
theorem EncodesRow.entryAddress (h : EncodesRow elf layout hdr size index row)
    (hstart : BitVec.ofNat 64 hdr.start = layout.ehFrameHdr.shOffset) (text : Word) :
    ∃ decoded, hdr.entryAddress elf text size index = .ok decoded ∧
      (decoded = row.location ↔ (hdr.encoding &&& 0x70 ≠ 0 →
        layout.ehFrameHdr.shAddr = layout.ehFrameHdr.shOffset)) := by
  obtain ⟨locationBytes, fdeBytes, after, hrest, -, hlocation, -⟩ := h
  rw [List.append_assoc] at hrest
  obtain ⟨base, base', hpointer, hbases⟩ :=
    @pointerAt_encoded elf layout hdr size index 0 _ _ _ hstart hrest hlocation text
  refine ⟨base' + (row.location - base), hpointer, ?_⟩
  rw [base_add_target_iff, hbases]

/-- The pointer of a row to its FDE. -/
theorem EncodesRow.fdePointer (h : EncodesRow elf layout hdr size index row)
    (hstart : BitVec.ofNat 64 hdr.start = layout.ehFrameHdr.shOffset)
    (haddr : hdr.encoding &&& 0x70 ≠ 0 →
      layout.ehFrameHdr.shAddr = layout.ehFrameHdr.shOffset) (text : Word) :
    hdr.pointerAt elf text size index size = .ok (layout.ehFrame.addressAt row.fde) := by
  obtain ⟨locationBytes, fdeBytes, after, hrest, hlength, -, hfde⟩ := h
  have hnext : (elf.span (hdr.searchTable + index * (2 * size) + size)
      (hdr.searchTable + hdr.count * (2 * size))).rest = fdeBytes ++ after := by
    rw [List.append_assoc] at hrest
    have hadvance := rest_advance_append hrest
    rw [hlength] at hadvance
    exact hadvance
  obtain ⟨base, base', hpointer, hbases⟩ := pointerAt_encoded hstart hnext hfde text
  rw [hpointer, base_add_target_iff.mpr (hbases.mpr haddr)]

theorem fdeAugmentation_ok {cie : ParsedCie} {cur : Cursor} {after : List Byte}
    (hcur : cur.rest = after) (h : cie.fdeHasAugmentation = true → ∃ lebBytes length rest,
      after = lebBytes ++ rest ∧ IsUleb lebBytes length) :
    ∃ next, fdeAugmentation cie cur = .ok next := by
  cases haugmentation : cie.fdeHasAugmentation with
  | false => exact ⟨cur, by simp [fdeAugmentation, haugmentation]⟩
  | true =>
      obtain ⟨lebBytes, length, rest, hafter, hleb⟩ := h haugmentation
      rw [hafter] at hcur
      refine ⟨(cur.advance lebBytes.length).advance length.toNat, ?_⟩
      simp only [fdeAugmentation, haugmentation, if_pos, hleb.uleb128 hcur, inBounds_some, ok_bind]
      rfl

/-- The FDE of a function, read where it is. -/
theorem EncodesFde.parseFde (h : EncodesFde elf layout row) :
    ∃ fde, Gsdb.parseFde elf (elf.span row.fde elf.ehFrameEnd) = .ok fde ∧
      fde.addressRange = row.range ∧
      (fde.initialLocation = row.location ↔
        (row.encoding &&& 0x70 = 0x10 → layout.ehFrame.shAddr = layout.ehFrame.shOffset) ∧
        (row.encoding &&& 0x70 = 0x30 → layout.dataStart = 0)) := by
  obtain ⟨lengthBytes, distanceBytes, locationBytes, rangeBytes, after, cie, hrest, hlength,
    hdistance, hcie, hencoding, ⟨base, hbase, hlocation⟩, hrange, haugmentation⟩ := h
  obtain ⟨base', hbase'⟩ := pointerBase_isSome hbase (BitVec.ofNat 64 (row.fde + 8)) 0
  have hdistanceRest := rest_advance_append hrest
  have hlocationRest := rest_advance_append hdistanceRest
  have hrangeRest := rest_advance_append hlocationRest
  have hafter := rest_advance_append hrangeRest
  have hlengthRead := fixedInt_bytes (w := 32) hrest hlength.symm
  have hdistanceRead := fixedInt_bytes (w := 32) hdistanceRest hdistance.symm
  rw [hlength] at hlengthRead hdistanceRest hdistanceRead hlocationRest hrangeRest hafter
  rw [hdistance] at hdistanceRead hlocationRest hrangeRest hafter
  have hcieRead : getCie elf (BitVec.ofNat 64 ((elf.span row.fde elf.ehFrameEnd).advance 4).pos -
      (BitVec.ofNat 32 (ofLe distanceBytes)).signExtend 64) = .ok cie := hcie
  have hbaseRead : pointerBase row.encoding (BitVec.ofNat 64
      (((elf.span row.fde elf.ehFrameEnd).advance 4).advance 4).pos) 0 = some base' := hbase'
  have hlocationRead := parseEhFramePointer_encoded hlocation hlocationRest hbaseRead
    ((elf.getSectionStartAddress ".text").getD 0) 0
  have hrangeRead := hrange.parse hrangeRest 0
  obtain ⟨next, hnext⟩ := fdeAugmentation_ok hafter haugmentation
  refine ⟨⟨⟨cie.toCommonInformationEntry, base' + (row.location - base), 0 + row.range,
    entryInstructions next row.fde (BitVec.ofNat 32 (ofLe lengthBytes) + 4)⟩,
    cie.instructionsStart, next.pos⟩, ?_, BitVec.zero_add _, ?_⟩
  · simp only [Gsdb.parseFde, Cursor.u32, hlengthRead, inBounds_some, ok_bind, hdistanceRead,
      hcieRead, hencoding, hlocationRead, hrangeRead, hnext]
    rfl
  · change base' + (row.location - base) = row.location ↔ _
    rw [base_add_target_iff, pointerBase_eq_iff hbase hbase']
    exact and_congr (imp_congr_right fun _ => eq_comm.trans addressAt_eq_offset_iff)
      (imp_congr_right fun _ => eq_comm)

end Rows

section Search

variable {entryAddress : Nat → Except Failure Word} {location : Nat → Word} {address : Word}
  {count : Nat}

/-- The search ends at the last row whose address is not above the one that is
looked for. -/
theorem searchLoop_ok (hentry : ∀ i < count, entryAddress i = .ok (location i))
    (hordered : ∀ i j, i < j → j < count → location i < location j)
    (hfirst : location 0 ≤ address) (hcount : count < 2 ^ 63) :
    ∀ (rounds low high : Nat), low ≤ high + 1 → high < count → high + 1 - low < rounds →
      (∀ i < low, location i < address) → (∀ i, high < i → i < count → address < location i) →
      ∃ row, searchLoop entryAddress address rounds low high = .ok row ∧ row < count ∧
        location row ≤ address ∧ ∀ i, row < i → i < count → address < location i := by
  intro rounds
  induction rounds with
  | zero => intro low high _ _ hrounds; omega
  | succ rounds ih =>
      intro low high hle hhigh hrounds hbelow habove
      rw [searchLoop]
      by_cases hopen : low ≤ high
      · have hmid : (low + high) % 2 ^ 64 / 2 = (low + high) / 2 := by omega
        rw [if_pos hopen]
        simp only [hmid]
        rw [hentry _ (by omega), ok_bind]
        by_cases hless : location ((low + high) / 2) < address
        · rw [if_pos hless]
          have hnext : ((low + high) / 2 + 1) % 2 ^ 64 = (low + high) / 2 + 1 := by omega
          rw [hnext]
          refine ih _ _ (by omega) hhigh (by omega) (fun i hi => ?_) habove
          by_cases hlast : i = (low + high) / 2
          · rw [hlast]
            exact hless
          · exact BitVec.lt_trans (hordered i _ (by omega) (by omega)) hless
        · rw [if_neg hless]
          by_cases hmore : location ((low + high) / 2) > address
          · have hpos : (low + high) / 2 ≠ 0 := by
              intro hzero
              rw [hzero] at hmore
              exact absurd hmore (BitVec.not_lt.mpr hfirst)
            rw [if_pos hmore, if_neg hpos]
            refine ih _ _ (by omega) (by omega) (by omega) hbelow (fun i hi hlt => ?_)
            by_cases hlast : i = (low + high) / 2
            · rw [hlast]
              exact hmore
            · exact BitVec.lt_trans hmore (hordered _ i (by omega) hlt)
          · rw [if_neg hmore]
            refine ⟨(low + high) / 2, rfl, by omega, BitVec.not_lt.mp hmore, fun i hi hlt => ?_⟩
            have hlast := BitVec.le_def.mp (BitVec.not_lt.mp hless)
            exact BitVec.lt_def.mpr
              (Nat.lt_of_le_of_lt hlast (BitVec.lt_def.mp (hordered _ i hi hlt)))
      · rw [if_neg hopen]
        exact ⟨high, rfl, hhigh, BitVec.le_of_lt (hbelow high (by omega)), habove⟩

end Search

section Tables

variable {elf : Elf} {layout : TableLayout} {hdr : EhHdr} {size : Nat} {rows : List TableRow}

theorem span_inside {start stop : Nat} {bytes : List Byte}
    (hrest : (elf.span start stop).rest = bytes) (hsome : bytes ≠ []) :
    start < elf.map.length := by
  have hlength := congrArg List.length hrest
  have hpos := List.length_pos_iff.mpr hsome
  simp only [Elf.span, Cursor.rest, List.length_drop, List.length_take] at hlength
  omega

theorem encodingSize_ge {encoding : Byte} (h : ehFramePointerEncodingSize encoding = .ok size) :
    2 ≤ size := by
  unfold ehFramePointerEncodingSize at h
  split at h <;> simp_all <;> omega

theorem EncodesTables.count_lt (h : EncodesTables elf layout hdr size rows) :
    rows.length < 2 ^ 63 := by
  by_cases hsome : rows = []
  · rw [hsome]
    decide
  have hpos := List.length_pos_iff.mpr hsome
  obtain ⟨locationBytes, fdeBytes, after, hrest, hlength, -⟩ :=
    h.row (List.getElem?_eq_getElem (show rows.length - 1 < rows.length by omega))
  have hsize := encodingSize_ge h.encoded
  have hinside := span_inside hrest (by
    intro hempty
    have hzero := congrArg List.length hempty
    simp only [List.length_append, List.length_nil] at hzero
    omega)
  have hfits := h.fits
  have hmul : (rows.length - 1) * 4 ≤ (rows.length - 1) * (2 * size) :=
    Nat.mul_le_mul_left _ (by omega)
  omega

theorem EncodesTables.fde_lt (h : EncodesTables elf layout hdr size rows) {row : TableRow}
    (hrow : row ∈ rows) : row.fde < 2 ^ 64 := by
  obtain ⟨lengthBytes, distanceBytes, locationBytes, rangeBytes, after, cie, hrest, hlength, -⟩ :=
    h.fde hrow
  have hinside := span_inside hrest (by
    intro hempty
    have hzero := congrArg List.length hempty
    simp only [List.length_append, List.length_nil] at hzero
    omega)
  have hfits := h.fits
  omega

theorem EncodesTables.textStart (h : EncodesTables elf layout hdr size rows) :
    ∃ text, elf.textSectionStart = .ok text := by
  obtain ⟨text, htext⟩ := Option.isSome_iff_exists.mp h.text
  exact ⟨text, by rw [Elf.textSectionStart, htext]⟩

theorem AddressesAreOffsets.entry (hoffsets : AddressesAreOffsets layout hdr rows)
    (h : EncodesTables elf layout hdr size rows) {index : Nat} {row : TableRow}
    (hrow : rows[index]? = some row) (text : Word) :
    hdr.entryAddress elf text size index = .ok row.location := by
  obtain ⟨decoded, hdecoded, hiff⟩ := (h.row hrow).entryAddress h.start text
  rw [hdecoded, hiff.mpr hoffsets.ehFrameHdr]

theorem AddressesAreOffsets.pointer (hoffsets : AddressesAreOffsets layout hdr rows)
    (h : EncodesTables elf layout hdr size rows) {index : Nat} {row : TableRow}
    (hrow : rows[index]? = some row) (text : Word) :
    hdr.pointerAt elf text size index size = .ok (BitVec.ofNat 64 row.fde) := by
  rw [(h.row hrow).fdePointer h.start hoffsets.ehFrameHdr text,
    addressAt_eq_offset_iff.mpr hoffsets.ehFrame]

theorem AddressesAreOffsets.initial (hoffsets : AddressesAreOffsets layout hdr rows)
    (h : EncodesTables elf layout hdr size rows) {row : TableRow} (hrow : row ∈ rows) :
    ∃ fde, parseFde elf (elf.span row.fde elf.ehFrameEnd) = .ok fde ∧
      fde.addressRange = row.range ∧ fde.initialLocation = row.location := by
  obtain ⟨fde, hparse, hrange, hiff⟩ := (h.fde hrow).parseFde
  exact ⟨fde, hparse, hrange,
    hiff.mpr ⟨fun _ => hoffsets.ehFrame, hoffsets.dataStart row hrow⟩⟩

/-- The search for a program counter of a function ends at its row. -/
theorem AddressesAreOffsets.search (hoffsets : AddressesAreOffsets layout hdr rows)
    (h : EncodesTables elf layout hdr size rows) {index : Nat} {row : TableRow}
    (hrow : rows[index]? = some row) {pc : Word} (hlow : row.location ≤ pc)
    (hhigh : pc.toNat < row.location.toNat + row.range.toNat) (text : Word) :
    searchLoop (hdr.entryAddress elf text size) pc (hdr.count + 1) 0
      ((hdr.count + (2 ^ 64 - 1)) % 2 ^ 64) = .ok index := by
  obtain ⟨hindex, hget⟩ := List.getElem?_eq_some_iff.mp hrow
  have hcount := h.count_lt
  have hordered := List.pairwise_iff_getElem.mp h.ordered
  have hlast : (hdr.count + (2 ^ 64 - 1)) % 2 ^ 64 = rows.length - 1 := by
    rw [h.count]
    omega
  have hpositive : 0 < rows.length := by omega
  have hlocation : ∀ i (hi : i < rows.length),
      rows[i]?.elim 0 TableRow.location = rows[i].location := by
    intro i hi
    rw [List.getElem?_eq_getElem hi]
    rfl
  have hfirst : rows[0]?.elim 0 TableRow.location ≤ pc := by
    rw [hlocation 0 hpositive]
    by_cases hzero : index = 0
    · subst hzero
      rw [hget]
      exact hlow
    · have hbefore := (hordered 0 index hpositive hindex (by omega)).1
      rw [hget] at hbefore
      exact BitVec.le_trans (BitVec.le_of_lt hbefore) hlow
  obtain ⟨found, hfound, hfoundLt, hle, habove⟩ :=
    @searchLoop_ok (hdr.entryAddress elf text size) (fun i => rows[i]?.elim 0 TableRow.location)
      pc rows.length
      (fun i hi => by
        rw [hlocation i hi]
        exact hoffsets.entry h (List.getElem?_eq_getElem hi) text)
      (fun i j hij hj => by
        rw [hlocation i (by omega), hlocation j hj]
        exact (hordered i j (by omega) hj hij).1)
      hfirst hcount (hdr.count + 1) 0 (rows.length - 1) (by omega) (by omega)
      (by rw [h.count]; omega) (fun i hi => by omega) (fun i hi hlt => by omega)
  rw [hlast, hfound]
  rcases Nat.lt_trichotomy found index with hlt | heq | hgt
  · have hpast := habove index hlt hindex
    rw [hlocation index hindex, hget] at hpast
    exact absurd hpast (BitVec.not_lt.mpr hlow)
  · rw [heq]
  · have hpast := (hordered index found hindex hfoundLt hgt).2
    rw [hlocation found hfoundLt] at hle
    rw [hget] at hpast
    have hnat := BitVec.le_def.mp hle
    omega

theorem AddressesAreOffsets.accepts (hoffsets : AddressesAreOffsets layout hdr rows)
    (h : EncodesTables elf layout hdr size rows) {row : TableRow} (hrow : row ∈ rows) {pc : Word}
    (hlow : row.location ≤ pc) (hhigh : pc.toNat < row.location.toNat + row.range.toNat) :
    ∃ fde, findFde elf hdr pc = .ok fde ∧ fde.initialLocation = row.location := by
  obtain ⟨index, hindex⟩ := List.mem_iff_getElem?.mp hrow
  obtain ⟨text, htext⟩ := h.textStart
  obtain ⟨fde, hparse, hrange, hinitial⟩ := hoffsets.initial h hrow
  have hlookup : hdr.lookup elf pc = .ok (BitVec.ofNat 64 row.fde) := by
    rw [EhHdr.lookup, htext, ok_bind, h.encoded, ok_bind,
      hoffsets.search h hindex hlow hhigh text, ok_bind, hoffsets.pointer h hindex text]
  have hoffset : (BitVec.ofNat 64 row.fde).toNat = row.fde := by
    rw [BitVec.toNat_ofNat, Nat.mod_eq_of_lt (h.fde_lt hrow)]
  have hinside : ¬ (pc < fde.initialLocation ∨ pc ≥ fde.initialLocation + fde.addressRange) := by
    rw [hinitial, hrange]
    rintro (hless | hmore)
    · exact absurd hless (BitVec.not_lt.mpr hlow)
    · have hnat := BitVec.le_def.mp hmore
      rw [BitVec.toNat_add, Nat.mod_eq_of_lt (h.inside hrow)] at hnat
      omega
  refine ⟨fde, ?_, hinitial⟩
  rw [findFde, hlookup, ok_bind, hoffset, hparse, ok_bind, require, if_pos hinside]
  rfl

/-- The header is read as it was encoded. -/
theorem EncodesHeader.parseEhHdr (h : EncodesHeader elf layout hdr)
    (htext : (elf.getSectionStartAddress ".text").isSome = true) :
    parseEhHdr elf = .ok hdr := by
  obtain ⟨version, pointerEncoding, countEncoding, pointer, pointerBytes, countBytes, after,
    hrest, hpointer, hcount, htable⟩ := h.fields
  obtain ⟨text, htext⟩ := Option.isSome_iff_exists.mp htext
  have hnumber : (BitVec.ofNat 64 hdr.count).toNat = hdr.count := by
    rw [BitVec.toNat_ofNat, Nat.mod_eq_of_lt h.count]
  generalize hcur : elf.span hdr.start (hdr.start + layout.ehFrameHdr.shSize.toNat) = cur at hrest
  have hpos : cur.pos = hdr.start := by rw [← hcur]; rfl
  have hnext : ∀ {cur : Cursor} {byte : Byte} {tail : List Byte}, cur.rest = byte :: tail →
      (cur.advance 1).rest = tail := fun h => by
    rw [Cursor.rest_advance, h]
    rfl
  have hrest₁ := hnext hrest
  have hrest₂ := hnext hrest₁
  have hrest₃ := hnext hrest₂
  have hrest₄ := hnext hrest₃
  have hrest₅ := rest_advance_append hrest₄
  rw [Gsdb.parseEhHdr, h.header, Elf.textSectionStart, htext]
  simp only [ok_bind, ← h.start, hcur, Cursor.u8_of_cons hrest, Cursor.u8_of_cons hrest₁,
    Cursor.u8_of_cons hrest₂, Cursor.u8_of_cons hrest₃, inBounds_some, hpointer.parse hrest₄ 0,
    hcount.parse hrest₅ 0]
  have hposition : ((((((cur.advance 1).advance 1).advance 1).advance 1).advance
      pointerBytes.length).advance countBytes.length).pos = hdr.searchTable := by
    simp only [Cursor.advance, hpos, htable]
  rw [hposition, zero_add, hnumber]
  rfl

/-- The row search finds the FDE of a function with the header that was read. -/
theorem AddressesAreOffsets.accepts_parsed (hoffsets : AddressesAreOffsets layout hdr rows)
    (hheader : EncodesHeader elf layout hdr) (h : EncodesTables elf layout hdr size rows)
    {row : TableRow} (hrow : row ∈ rows) {pc : Word} (hlow : row.location ≤ pc)
    (hhigh : pc.toNat < row.location.toNat + row.range.toNat) :
    ∃ fde, (parseEhHdr elf >>= fun hdr => findFde elf hdr pc) = .ok fde ∧
      fde.initialLocation = row.location := by
  obtain ⟨fde, hfind, hinitial⟩ := hoffsets.accepts h hrow hlow hhigh
  refine ⟨fde, ?_, hinitial⟩
  rw [hheader.parseEhHdr h.text, ok_bind, hfind]

theorem DecodesFileAddresses.offsets (hdecodes : DecodesFileAddresses elf hdr size rows)
    (h : EncodesTables elf layout hdr size rows) (hsome : rows ≠ []) :
    AddressesAreOffsets layout hdr rows := by
  obtain ⟨text, htext⟩ := h.textStart
  obtain ⟨first, rest, rfl⟩ := List.exists_cons_of_ne_nil hsome
  have hrow : (first :: rest)[0]? = some first := rfl
  have hhdr : hdr.encoding &&& 0x70 ≠ 0 →
      layout.ehFrameHdr.shAddr = layout.ehFrameHdr.shOffset := by
    obtain ⟨decoded, hdecoded, hiff⟩ := (h.row hrow).entryAddress h.start text
    rw [hdecodes.entry hrow htext] at hdecoded
    exact hiff.mp (Except.ok.inj hdecoded).symm
  constructor
  · have hpointer := (h.row hrow).fdePointer h.start hhdr text
    rw [hdecodes.pointer hrow htext] at hpointer
    exact addressAt_eq_offset_iff.mp (Except.ok.inj hpointer).symm
  · exact hhdr
  · intro row hmem
    obtain ⟨fde, hparse, -, hiff⟩ := (h.fde hmem).parseFde
    obtain ⟨fde', hparse', hinitial⟩ := hdecodes.initial hmem
    rw [hparse] at hparse'
    obtain rfl := Except.ok.inj hparse'
    exact (hiff.mp hinitial).2

end Tables

/-- The tables of a file are decoded as file addresses if its sections have
their file offsets as addresses, and only then unless the tables are empty. -/
theorem decodesFileAddresses_iff (elf : Elf) (layout : TableLayout) (hdr : EhHdr) (size : Nat)
    (rows : List TableRow) (h : EncodesTables elf layout hdr size rows) :
    DecodesFileAddresses elf hdr size rows ↔
      (rows ≠ [] → AddressesAreOffsets layout hdr rows) := by
  constructor
  · intro hdecodes hsome
    exact hdecodes.offsets h hsome
  · intro hoffsets
    have hrows : ∀ {index : Nat} {row : TableRow}, rows[index]? = some row → rows ≠ [] := by
      intro index row hrow hempty
      rw [hempty] at hrow
      cases hrow
    constructor
    · intro index row text hrow _
      exact (hoffsets (hrows hrow)).entry h hrow text
    · intro index row text hrow _
      exact (hoffsets (hrows hrow)).pointer h hrow text
    · intro row hmem
      obtain ⟨fde, hparse, -, hinitial⟩ := (hoffsets (List.ne_nil_of_mem hmem)).initial h hmem
      exact ⟨fde, hparse, hinitial⟩
    · intro row hmem pc hlow hhigh
      exact (hoffsets (List.ne_nil_of_mem hmem)).accepts h hmem hlow hhigh

namespace UnwindTablesWitness

/-- A search table with one row, a CIE with augmentation `zR`, and an FDE of
sixteen bytes of code. -/
def bytes : List Byte :=
  [0x01, 0x1b, 0x03, 0x3b, 0x10, 0, 0, 0, 1, 0, 0, 0, 0, 0x10, 0, 0, 0x28, 0, 0, 0] ++
  [0x10, 0, 0, 0, 0, 0, 0, 0, 1, 0x7a, 0x52, 0, 1, 0x78, 0x10, 1, 0x1b, 0, 0, 0] ++
  [0x10, 0, 0, 0, 0x18, 0, 0, 0, 0xd0, 0x0f, 0, 0, 0x10, 0, 0, 0, 0, 0, 0, 0]

def ehFrameHdr (base : Word) : SectionHeader := ⟨".eh_frame_hdr", 2, base, 0, 20⟩

def ehFrame (base : Word) : SectionHeader := ⟨".eh_frame", 2, base + 20, 20, 40⟩

/-- The file, linked at an address. -/
def linkedAt (base : Word) : Elf :=
  ⟨bytes, [⟨".text", 6, base + 0x1000, 0x1000, 0x10⟩, ehFrameHdr base, ehFrame base], 0⟩

def layoutAt (base : Word) : TableLayout := ⟨ehFrame base, ehFrameHdr base, 0⟩

def hdr : EhHdr := ⟨0, 12, 1, 0x3b⟩

def function (base : Word) : TableRow := ⟨base + 0x1000, 0x10, 40, 0x1b⟩

theorem encodes_sdata4 {encoding : Byte} {value : Word} {field : List Byte}
    (hformat : encoding &&& 0x0f = 0x0b) (hlength : field.length = 4)
    (hvalue : value = (BitVec.ofNat 32 (ofLe field)).signExtend 64) :
    EncodesPointer encoding value field := by
  rw [hvalue]
  exact .sdata4 hformat hlength

theorem row_encoded {base : Word} (hbase : base = 0 ∨ base = 0x400000) :
    EncodesRow (linkedAt base) (layoutAt base) hdr 4 0 (function base) := by
  rcases hbase with rfl | rfl
  · exact ⟨[0, 0x10, 0, 0], [0x28, 0, 0, 0], [], by decide, rfl,
      ⟨_, rfl, encodes_sdata4 (by decide) rfl (by decide)⟩,
      ⟨_, rfl, encodes_sdata4 (by decide) rfl (by decide)⟩⟩
  · exact ⟨[0, 0x10, 0, 0], [0x28, 0, 0, 0], [], by decide, rfl,
      ⟨_, rfl, encodes_sdata4 (by decide) rfl (by decide)⟩,
      ⟨_, rfl, encodes_sdata4 (by decide) rfl (by decide)⟩⟩

def cie : ParsedCie := ⟨⟨1, -8, 0x1b, [0, 0, 0]⟩, 20, true, 37⟩

theorem fde_encoded {base : Word} (hbase : base = 0 ∨ base = 0x400000) :
    EncodesFde (linkedAt base) (layoutAt base) (function base) := by
  have haugmentation : cie.fdeHasAugmentation = true → ∃ lebBytes length rest,
      ([0, 0, 0, 0] : List Byte) = lebBytes ++ rest ∧ IsUleb lebBytes length :=
    fun _ => ⟨[0], 0, [0, 0, 0], rfl, rfl⟩
  rcases hbase with rfl | rfl
  · exact ⟨[0x10, 0, 0, 0], [0x18, 0, 0, 0], [0xd0, 0x0f, 0, 0], [0x10, 0, 0, 0], [0, 0, 0, 0], cie,
      by decide, rfl, rfl, rfl, rfl, ⟨_, rfl, encodes_sdata4 (by decide) rfl (by decide)⟩,
      encodes_sdata4 (by decide) rfl (by decide), haugmentation⟩
  · exact ⟨[0x10, 0, 0, 0], [0x18, 0, 0, 0], [0xd0, 0x0f, 0, 0], [0x10, 0, 0, 0], [0, 0, 0, 0], cie,
      by decide, rfl, rfl, rfl, rfl, ⟨_, rfl, encodes_sdata4 (by decide) rfl (by decide)⟩,
      encodes_sdata4 (by decide) rfl (by decide), haugmentation⟩

theorem tables_encoded {base : Word} (hbase : base = 0 ∨ base = 0x400000) :
    EncodesTables (linkedAt base) (layoutAt base) hdr 4 [function base] := by
  constructor
  · rcases hbase with rfl | rfl <;> rfl
  · exact (by decide : bytes.length < 2 ^ 64)
  · rfl
  · rfl
  · rfl
  · intro index row hrow
    cases index with
    | zero =>
        obtain rfl := Option.some.inj hrow
        exact row_encoded hbase
    | succ index => cases hrow
  · intro row hrow
    obtain rfl := List.mem_singleton.mp hrow
    exact fde_encoded hbase
  · intro row hrow
    obtain rfl := List.mem_singleton.mp hrow
    rcases hbase with rfl | rfl <;> decide
  · exact List.pairwise_singleton _ _

theorem header_encoded (base : Word) : EncodesHeader (linkedAt base) (layoutAt base) hdr where
  header := rfl
  start := rfl
  fields := by
    have hcount : EncodesPointer 0x03 (BitVec.ofNat 64 (ofLe [1, 0, 0, 0])) [1, 0, 0, 0] :=
      .udata4 (by decide : (0x03 : Byte) &&& 0x0f = 0x03) rfl
    exact ⟨0x01, 0x1b, 0x03, 0x10, [0x10, 0, 0, 0], [1, 0, 0, 0], [0, 0x10, 0, 0, 0x28, 0, 0, 0],
      rfl, encodes_sdata4 (by decide) rfl (by decide), hcount, rfl⟩
  count := by decide

/-- Linked at a fixed address, the row is decoded below it. -/
theorem tables_not_decoded :
    EncodesTables (linkedAt 0x400000) (layoutAt 0x400000) hdr 4 [function 0x400000] ∧
      ¬ DecodesFileAddresses (linkedAt 0x400000) hdr 4 [function 0x400000] := by
  refine ⟨tables_encoded (.inr rfl), fun hdecodes => ?_⟩
  have hentry : hdr.entryAddress (linkedAt 0x400000) 0x401000 4 0 =
      .ok (function 0x400000).location := hdecodes.entry rfl rfl
  have hdecoded : hdr.entryAddress (linkedAt 0x400000) 0x401000 4 0 = .ok 0x1000 := rfl
  rw [hdecoded] at hentry
  exact absurd (Except.ok.inj hentry) (by decide)

theorem decodesFileAddresses_iff_relocatable :
    DecodesFileAddresses (linkedAt 0) hdr 4 [function 0] ∧
      AddressesAreOffsets (layoutAt 0) hdr [function 0] := by
  have hoffsets : AddressesAreOffsets (layoutAt 0) hdr [function 0] :=
    ⟨rfl, fun _ => rfl, fun _ _ _ => rfl⟩
  have hiff := decodesFileAddresses_iff (linkedAt 0) (layoutAt 0) hdr 4 [function 0]
    (tables_encoded (.inl rfl))
  exact ⟨hiff.mpr fun _ => hoffsets, hoffsets⟩

/-- The header is read, and the FDE is found with it. -/
theorem function_found : ∃ fde,
    (parseEhHdr (linkedAt 0) >>= fun hdr => findFde (linkedAt 0) hdr 0x1008) = .ok fde ∧
      fde.initialLocation = 0x1000 :=
  AddressesAreOffsets.accepts_parsed ⟨rfl, fun _ => rfl, fun _ _ _ => rfl⟩ (header_encoded 0)
    (tables_encoded (.inl rfl)) List.mem_cons_self (by decide) (by decide)

end UnwindTablesWitness

end Gsdb
