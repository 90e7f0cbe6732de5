/-
The table of section headers.  Its length is a field of the file header, and where that is 0
the size in the first section header, which is wider than the field.
-/
import Gsdb.ByteMemory

namespace Gsdb

open ByteMemory

/-- A field of `w` bits at an offset. -/
def fieldAt (w : Nat) (bytes : List Byte) (offset : Nat) : BitVec w :=
  BitVec.ofNat w (ofLe ((bytes.drop offset).take (w / 8)))

/-- `Elf64_Ehdr`, with the fields that lead to the section headers. -/
structure Elf64Ehdr where
  eShoff : BitVec 64
  eShentsize : BitVec 16
  eShnum : BitVec 16
  eShstrndx : BitVec 16
deriving DecidableEq, Repr

/-- `Elf64_Shdr`. -/
structure Elf64Shdr where
  shName : BitVec 32
  shType : BitVec 32
  shFlags : BitVec 64
  shAddr : BitVec 64
  shOffset : BitVec 64
  shSize : BitVec 64
  shLink : BitVec 32
  shInfo : BitVec 32
  shAddralign : BitVec 64
  shEntsize : BitVec 64
deriving DecidableEq, Repr

def ehdrSize : Nat := 64
def shdrSize : Nat := 64

/-- `SHN_XINDEX`: the index is in the first section header. -/
def shnXindex : BitVec 16 := 0xffff

def Elf64Ehdr.ofBytes (bytes : List Byte) : Elf64Ehdr where
  eShoff := fieldAt 64 bytes 40
  eShentsize := fieldAt 16 bytes 58
  eShnum := fieldAt 16 bytes 60
  eShstrndx := fieldAt 16 bytes 62

def Elf64Shdr.ofBytes (bytes : List Byte) : Elf64Shdr where
  shName := fieldAt 32 bytes 0
  shType := fieldAt 32 bytes 4
  shFlags := fieldAt 64 bytes 8
  shAddr := fieldAt 64 bytes 16
  shOffset := fieldAt 64 bytes 24
  shSize := fieldAt 64 bytes 32
  shLink := fieldAt 32 bytes 40
  shInfo := fieldAt 32 bytes 44
  shAddralign := fieldAt 64 bytes 48
  shEntsize := fieldAt 64 bytes 56

/-- `from_bytes<Elf64_Ehdr>` of the mapped file, which must reach that far. -/
def elfHeader (map : List Byte) : Option Elf64Ehdr :=
  if ehdrSize ≤ map.length then some (.ofBytes map) else none

/-- `from_bytes<Elf64_Shdr>` at an offset into the mapped file. -/
def sectionHeaderAt (map : List Byte) (offset : Nat) : Option Elf64Shdr :=
  if offset + shdrSize ≤ map.length then some (.ofBytes (map.drop offset)) else none

/-- The bytes of so many section headers, copied from an offset on. -/
def copySectionHeaders (map : List Byte) (offset : Nat) : Nat → Option (List Elf64Shdr)
  | 0 => some []
  | n + 1 => do
      let header ← sectionHeaderAt map offset
      let headers ← copySectionHeaders map (offset + shdrSize) n
      pure (header :: headers)

/-- `elf::parse_section_headers`, after the file header was read.  `n_headers` has the type of
`e_shnum`. -/
def parseSectionHeaders (map : List Byte) : Option (List Elf64Shdr) := do
  let header ← elfHeader map
  let nHeaders ←
    if header.eShnum = 0 ∧ header.eShentsize ≠ 0 then do
      let first ← sectionHeaderAt map header.eShoff.toNat
      pure (first.shSize.setWidth 16)
    else pure header.eShnum
  copySectionHeaders map header.eShoff.toNat nHeaders.toNat

/-- The section whose contents are the section names for `elf::get_section_name`. -/
def nameSection (header : Elf64Ehdr) (sectionHeaders : List Elf64Shdr) : Option Elf64Shdr :=
  sectionHeaders[header.eShstrndx.toNat]?

/-- The bytes up to the null behind an index into the contents of a section. -/
def nameIn (map : List Byte) (nameTable : Elf64Shdr) (index : Nat) : Option (List Byte) :=
  let text := map.drop (nameTable.shOffset.toNat + index)
  if (0 : Byte) ∈ text then some (text.takeWhile (· ≠ 0)) else none

/-- `elf::get_section_name`. -/
def getSectionName (map : List Byte) (header : Elf64Ehdr) (sectionHeaders : List Elf64Shdr)
    (index : Nat) : Option (List Byte) := do
  let nameTable ← nameSection header sectionHeaders
  nameIn map nameTable index

/-- The number of sections of a file: none if it has no table of section headers, and with
extended numbering the size in the first section header. -/
def sectionCount (map : List Byte) : Nat :=
  let header := Elf64Ehdr.ofBytes map
  if header.eShnum ≠ 0 then header.eShnum.toNat
  else if header.eShoff = 0 then 0
  else (Elf64Shdr.ofBytes (map.drop header.eShoff.toNat)).shSize.toNat

/-- The index of the section with the names. -/
def nameTableIndex (map : List Byte) : Nat :=
  let header := Elf64Ehdr.ofBytes map
  if header.eShstrndx = shnXindex then
    (Elf64Shdr.ofBytes (map.drop header.eShoff.toNat)).shLink.toNat
  else header.eShstrndx.toNat

/-- The sections of a file: one header behind the other. -/
def sectionsOf (map : List Byte) : List Elf64Shdr :=
  (List.range (sectionCount map)).map fun i =>
    .ofBytes (map.drop ((Elf64Ehdr.ofBytes map).eShoff.toNat + shdrSize * i))

/-- A file that holds its header and the headers of all its sections.  One of these is that of
the section with the names, which holds a null. -/
structure ElfFile where
  map : List Byte
  header_fits : ehdrSize ≤ map.length
  first_fits : (Elf64Ehdr.ofBytes map).eShoff ≠ 0 →
    (Elf64Ehdr.ofBytes map).eShoff.toNat + shdrSize ≤ map.length
  table_fits : sectionCount map ≠ 0 →
    (Elf64Ehdr.ofBytes map).eShoff.toNat + shdrSize * sectionCount map ≤ map.length
  names_given : sectionCount map ≠ 0 → ∃ nameTable,
    (sectionsOf map)[nameTableIndex map]? = some nameTable ∧
      (nameIn map nameTable 0).isSome = true

/-- The headers of all sections are read, and names are looked up in the section that the
file gives for them. -/
def SectionsRead (file : ElfFile) : Prop :=
  parseSectionHeaders file.map = some (sectionsOf file.map) ∧
    ∀ index, getSectionName file.map (.ofBytes file.map) (sectionsOf file.map) index =
      (sectionsOf file.map)[nameTableIndex file.map]?.bind fun nameTable =>
        nameIn file.map nameTable index

/-- The number of sections is in the file header; or there is no table of them, and no size is
read or its low 16 bits are 0; or the size in the first section header is read and has no more
than 16 bits. -/
def CountFits (map : List Byte) : Prop :=
  let header := Elf64Ehdr.ofBytes map
  let size := fieldAt 64 (map.drop header.eShoff.toNat) 32
  header.eShnum ≠ 0 ∨
    header.eShoff = 0 ∧ (header.eShentsize = 0 ∨ size.toNat % 2 ^ 16 = 0) ∨
    header.eShoff ≠ 0 ∧ (size = 0 ∨ header.eShentsize ≠ 0 ∧ size.toNat < 2 ^ 16)

/-- The names are in a section whose index the file header can hold, if there are any. -/
def NamesIndexed (map : List Byte) : Prop :=
  sectionCount map = 0 ∨ (Elf64Ehdr.ofBytes map).eShstrndx ≠ shnXindex

section Copying

variable {map : List Byte} {offset n : Nat} {headers : List Elf64Shdr}

theorem copySectionHeaders_length (h : copySectionHeaders map offset n = some headers) :
    headers.length = n := by
  induction n generalizing offset headers with
  | zero =>
      obtain rfl := Option.some.inj h
      rfl
  | succ n ih =>
      obtain ⟨header, -, h⟩ := Option.bind_eq_some_iff.mp h
      obtain ⟨rest, hrest, h⟩ := Option.bind_eq_some_iff.mp h
      obtain rfl := Option.some.inj h
      rw [List.length_cons, ih hrest]

theorem copySectionHeaders_eq (h : n ≠ 0 → offset + shdrSize * n ≤ map.length) :
    copySectionHeaders map offset n =
      some ((List.range n).map fun i => .ofBytes (map.drop (offset + shdrSize * i))) := by
  induction n generalizing offset with
  | zero => rfl
  | succ n ih =>
      have hfits := h n.succ_ne_zero
      rw [Nat.mul_succ] at hfits
      have hhead : sectionHeaderAt map offset = some (.ofBytes (map.drop offset)) :=
        if_pos (by omega)
      have hshift : ∀ i, offset + shdrSize + shdrSize * i = offset + shdrSize * (i + 1) := by
        intro i
        rw [Nat.mul_succ]
        omega
      rw [copySectionHeaders, hhead, ih fun _ => by omega, List.range_succ_eq_map]
      simp [hshift, Function.comp_def]

end Copying

section Counting

variable {file : ElfFile}

/-- How many section headers are copied. -/
def copiedCount (map : List Byte) : Nat :=
  let header := Elf64Ehdr.ofBytes map
  if header.eShnum = 0 ∧ header.eShentsize ≠ 0 then
    (fieldAt 64 (map.drop header.eShoff.toNat) 32).toNat % 2 ^ 16
  else header.eShnum.toNat

theorem copiedCount_lt (map : List Byte) : copiedCount map < 2 ^ 16 := by
  simp only [copiedCount]
  split
  · exact Nat.mod_lt _ (by decide)
  · exact BitVec.isLt _

theorem first_header (file : ElfFile) :
    sectionHeaderAt file.map (Elf64Ehdr.ofBytes file.map).eShoff.toNat =
      some (.ofBytes (file.map.drop (Elf64Ehdr.ofBytes file.map).eShoff.toNat)) := by
  refine if_pos ?_
  by_cases hzero : (Elf64Ehdr.ofBytes file.map).eShoff = 0
  · rw [hzero]
    exact file.header_fits
  · exact file.first_fits hzero

theorem parseSectionHeaders_eq (file : ElfFile) :
    parseSectionHeaders file.map = copySectionHeaders file.map
      (Elf64Ehdr.ofBytes file.map).eShoff.toNat (copiedCount file.map) := by
  have hheader : elfHeader file.map = some (.ofBytes file.map) := if_pos file.header_fits
  rw [parseSectionHeaders, hheader, copiedCount]
  by_cases hextended : (Elf64Ehdr.ofBytes file.map).eShnum = 0 ∧
      (Elf64Ehdr.ofBytes file.map).eShentsize ≠ 0
  · simp only [Option.bind_eq_bind, Option.bind_some, if_pos hextended, first_header,
      Option.pure_def, BitVec.toNat_setWidth, Elf64Shdr.ofBytes]
  · simp only [Option.bind_eq_bind, Option.bind_some, if_neg hextended, Option.pure_def]

theorem length_sectionsOf (map : List Byte) : (sectionsOf map).length = sectionCount map := by
  rw [sectionsOf, List.length_map, List.length_range]

/-- All headers are read exactly if as many are copied as there are sections. -/
theorem parsesSections_iff :
    parseSectionHeaders file.map = some (sectionsOf file.map) ↔
      copiedCount file.map = sectionCount file.map := by
  rw [parseSectionHeaders_eq]
  constructor
  · intro h
    rw [← copySectionHeaders_length h, length_sectionsOf]
  · intro h
    rw [h]
    exact copySectionHeaders_eq file.table_fits

theorem copiedCount_eq_iff (map : List Byte) :
    copiedCount map = sectionCount map ↔ CountFits map := by
  unfold copiedCount sectionCount CountFits
  simp only [Elf64Shdr.ofBytes]
  generalize fieldAt 64 (map.drop (Elf64Ehdr.ofBytes map).eShoff.toNat) 32 = size
  have hsize := size.isLt
  have hzero : size = 0 ↔ size.toNat = 0 := by
    rw [← BitVec.toNat_inj]
    rfl
  rw [hzero]
  have hshnum : (Elf64Ehdr.ofBytes map).eShnum = 0 →
      (Elf64Ehdr.ofBytes map).eShnum.toNat = 0 := by
    intro h
    rw [h]
    rfl
  generalize (Elf64Ehdr.ofBytes map).eShnum.toNat = number at hshnum ⊢
  by_cases hextended : (Elf64Ehdr.ofBytes map).eShnum = 0
  · by_cases hentsize : (Elf64Ehdr.ofBytes map).eShentsize = 0 <;>
      by_cases hoff : (Elf64Ehdr.ofBytes map).eShoff = 0 <;>
      simp only [hextended, hentsize, hoff, true_and, and_true, false_and, and_false, false_or,
        or_false, true_or, ne_eq, not_true, not_false_eq_true, if_true, if_false,
        forall_const, iff_true] at hshnum ⊢ <;>
      omega
  · simp only [hextended, false_and, if_false, ne_eq, not_false_eq_true, if_true, true_or]

/-- An index of the whole width of the field is that of no header that is read. -/
theorem names_iff (hcount : copiedCount file.map = sectionCount file.map) :
    (∀ index, getSectionName file.map (.ofBytes file.map) (sectionsOf file.map) index =
      (sectionsOf file.map)[nameTableIndex file.map]?.bind fun nameTable =>
        nameIn file.map nameTable index) ↔ NamesIndexed file.map := by
  have hlength := length_sectionsOf file.map
  unfold NamesIndexed
  by_cases hindex : (Elf64Ehdr.ofBytes file.map).eShstrndx = shnXindex
  · have hnone : nameSection (.ofBytes file.map) (sectionsOf file.map) = none := by
      have hlt := copiedCount_lt file.map
      have hxindex : (Elf64Ehdr.ofBytes file.map).eShstrndx.toNat = 2 ^ 16 - 1 := by
        rw [hindex]
        rfl
      refine List.getElem?_eq_none ?_
      omega
    constructor
    · intro h
      left
      by_contra hcount
      obtain ⟨nameTable, htable, hname⟩ := file.names_given hcount
      have hfound := h 0
      rw [getSectionName, hnone, htable] at hfound
      rw [Option.bind_some] at hfound
      rw [← hfound] at hname
      cases hname
    · rintro (hcount | hne) index
      · have hnil : sectionsOf file.map = [] := List.eq_nil_of_length_eq_zero (hlength.trans hcount)
        rw [getSectionName, hnone, hnil]
        rfl
      · exact absurd hindex hne
  · refine iff_of_true (fun index => ?_) (.inr hindex)
    have hsame : nameTableIndex file.map = (Elf64Ehdr.ofBytes file.map).eShstrndx.toNat :=
      if_neg hindex
    rw [getSectionName, nameSection, hsame]
    rfl

end Counting

/-- The headers of all sections are read, and their names looked up where the file says,
exactly if the fields of the file header hold both numbers or the size that is read does. -/
theorem sectionsRead_iff (file : ElfFile) :
    SectionsRead file ↔ CountFits file.map ∧ NamesIndexed file.map := by
  constructor
  · rintro ⟨hparse, hnames⟩
    have hcount := parsesSections_iff.mp hparse
    exact ⟨(copiedCount_eq_iff _).mp hcount, (names_iff hcount).mp hnames⟩
  · rintro ⟨hfits, hindexed⟩
    have hcount := (copiedCount_eq_iff _).mpr hfits
    exact ⟨parsesSections_iff.mpr hcount, (names_iff hcount).mpr hindexed⟩

/-- The header of a file with 65536 sections, and their first header, with that number. -/
def wideFront : List Byte :=
  [0x7f, 0x45, 0x4c, 0x46, 2, 1, 1, 0, 0, 0, 0, 0, 0, 0, 0, 0] ++
    [2, 0, 0x3e, 0, 1, 0, 0, 0] ++ toLe 8 0 ++ toLe 8 0 ++ toLe 8 64 ++ toLe 4 0 ++
    toLe 2 64 ++ toLe 2 56 ++ toLe 2 0 ++ toLe 2 64 ++ toLe 2 0 ++ toLe 2 1 ++
    List.replicate 32 0 ++ toLe 8 0x10000 ++ List.replicate 24 0

theorem fieldAt_append {w offset : Nat} {front back : List Byte}
    (h : offset + w / 8 ≤ front.length) :
    fieldAt w (front ++ back) offset = fieldAt w front offset := by
  rw [fieldAt, fieldAt, List.drop_append_of_le_length (by omega),
    List.take_append_of_le_length (by rw [List.length_drop]; omega)]

theorem ofLe_replicate_zero (n : Nat) : ofLe (List.replicate n 0) = 0 := by
  induction n with
  | zero => rfl
  | succ n ih =>
      rw [List.replicate_succ, ofLe, ih]
      rfl

theorem fieldAt_replicate_zero (w n offset : Nat) : fieldAt w (List.replicate n 0) offset = 0 := by
  rw [fieldAt, List.drop_replicate, List.take_replicate, ofLe_replicate_zero]
  rfl

/-- The other headers are empty. -/
def wideMap : List Byte := wideFront ++ List.replicate (shdrSize * 0xffff) 0

theorem wideFront_length : wideFront.length = 128 := by decide +kernel

theorem wideMap_header : Elf64Ehdr.ofBytes wideMap = ⟨64, 64, 0, 1⟩ := by
  have hfield : ∀ {w offset : Nat}, offset + w / 8 ≤ 128 →
      fieldAt w wideMap offset = fieldAt w wideFront offset :=
    fun h => fieldAt_append (wideFront_length ▸ h)
  have hfront : Elf64Ehdr.ofBytes wideFront = ⟨64, 64, 0, 1⟩ := by decide +kernel
  rw [← hfront, Elf64Ehdr.ofBytes, hfield (by decide), hfield (by decide), hfield (by decide),
    hfield (by decide), Elf64Ehdr.ofBytes]

theorem wideMap_size : fieldAt 64 (wideMap.drop 64) 32 = 0x10000 := by
  rw [wideMap, List.drop_append_of_le_length (by rw [wideFront_length]; decide),
    fieldAt_append (by rw [List.length_drop, wideFront_length]; decide)]
  rfl

theorem wideMap_count : sectionCount wideMap = 0x10000 := by
  simp only [sectionCount, wideMap_header, Elf64Shdr.ofBytes]
  exact congrArg BitVec.toNat wideMap_size

theorem wideMap_length : wideMap.length = 64 + shdrSize * 0x10000 := by
  rw [wideMap, List.length_append, List.length_replicate, wideFront_length]
  decide

theorem wideMap_table : (sectionsOf wideMap)[nameTableIndex wideMap]? =
    some (.ofBytes (List.replicate (shdrSize * 0xffff) 0)) := by
  have hindex : nameTableIndex wideMap = 1 := by
    simp only [nameTableIndex, wideMap_header]
    rfl
  rw [hindex, sectionsOf, wideMap_count, wideMap_header, List.getElem?_map,
    List.getElem?_range (by decide), Option.map_some]
  have hrest : wideMap.drop ((64 : BitVec 64).toNat + shdrSize * 1) =
      List.replicate (shdrSize * 0xffff) 0 :=
    List.drop_left' wideFront_length
  rw [hrest]

/-- A file whose sections are numbered in the first section header. -/
def wideFile : ElfFile where
  map := wideMap
  header_fits := by
    rw [wideMap_length]
    decide
  first_fits := by
    intro _
    rw [wideMap_length, wideMap_header]
    decide
  table_fits := by
    intro _
    rw [wideMap_length, wideMap_header, wideMap_count]
    decide
  names_given := by
    intro _
    refine ⟨_, wideMap_table, ?_⟩
    have hnull : (0 : Byte) ∈ wideMap :=
      List.mem_append_right _ (List.mem_replicate.mpr ⟨by decide, rfl⟩)
    simp only [nameIn, Elf64Shdr.ofBytes, fieldAt_replicate_zero]
    rw [if_pos (by simpa using hnull)]
    rfl

/-- Of 65536 sections none is read. -/
theorem wideFile_sections_lost : ¬ SectionsRead wideFile := by
  rintro ⟨hparse, -⟩
  have hcount := parsesSections_iff.mp hparse
  have hnone : copiedCount wideMap = 0 := by
    simp only [copiedCount, wideMap_header]
    decide
  rw [show wideFile.map = wideMap from rfl, hnone, wideMap_count] at hcount
  cases hcount

end Gsdb
