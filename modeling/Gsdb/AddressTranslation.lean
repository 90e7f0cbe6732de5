/-
Translation between file addresses and virtual addresses.  The lookup takes the
first section that covers an address at its file's bias, whether the section is
loaded or not; so a section that is not loaded must hide behind loaded ones.
-/
import Gsdb.Elf

namespace Gsdb

/-- `SHF_ALLOC`. -/
def shfAlloc : Word := 2

namespace SectionHeader

/-- The section occupies memory while the program runs. -/
def isAlloc (header : SectionHeader) : Bool := header.shFlags &&& shfAlloc ≠ 0

/-- The file addresses of a section. -/
def InFile (header : SectionHeader) (addr : Word) : Prop :=
  header.shAddr.toNat ≤ addr.toNat ∧ addr.toNat < header.shAddr.toNat + header.shSize.toNat

/-- The addresses of a section at a load bias. -/
def InMemory (header : SectionHeader) (loadBias addr : Word) : Prop :=
  (loadBias + header.shAddr).toNat ≤ addr.toNat ∧
    addr.toNat < (loadBias + header.shAddr).toNat + header.shSize.toNat

end SectionHeader

/-- An allocated section of a file of the collection. -/
structure AllocatedIn (elves : ElfCollection) (position : Nat) (elf : Elf)
    (header : SectionHeader) : Prop where
  file : elves[position]? = some elf
  listed : header ∈ elf.sectionHeaders
  alloc : header.isAlloc = true

/-- The allocated sections do not wrap around, and those of different files are
disjoint in memory. -/
structure LoadedApart (elves : ElfCollection) : Prop where
  file : ∀ {position elf header}, AllocatedIn elves position elf header →
    header.shAddr.toNat + header.shSize.toNat < 2 ^ 64
  memory : ∀ {position elf header}, AllocatedIn elves position elf header →
    (elf.loadBias + header.shAddr).toNat + header.shSize.toNat < 2 ^ 64
  disjoint : ∀ {position elf header position' elf' header'},
    AllocatedIn elves position elf header → AllocatedIn elves position' elf' header' →
    position ≠ position' → ∀ addr, header.InMemory elf.loadBias addr →
    ¬ header'.InMemory elf'.loadBias addr

/-- Addresses of allocated sections are translated there and back, and no others
are translated. -/
structure TranslationRoundTrips (elves : ElfCollection) : Prop where
  back : ∀ {position elf header}, AllocatedIn elves position elf header →
    ∀ addr, header.InFile addr → ∃ virt, FileAddr.toVirtAddr elves ⟨some position, addr⟩ =
      .ok virt ∧
      toFileAddr elves virt = ⟨some position, addr⟩
  outside : ∀ addr, (∀ {position elf header}, AllocatedIn elves position elf header →
    ¬ header.InMemory elf.loadBias addr) → toFileAddr elves addr = ⟨none, 0⟩

/-- Every address that a section which is not allocated covers at its file's bias
is one of an allocated section of the same file or of an earlier one. -/
def UnallocatedHidden (elves : ElfCollection) : Prop :=
  ∀ position elf header, elves[position]? = some elf → header ∈ elf.sectionHeaders →
    header.isAlloc = false → ∀ addr, header.containsVirtAddress elf.loadBias addr = true →
    ∃ position' elf' header', position' ≤ position ∧ AllocatedIn elves position' elf' header' ∧
      header'.InMemory elf'.loadBias addr

section Sections

variable {header : SectionHeader} {addr loadBias : Word}

theorem containsFileAddress_iff (h : header.shAddr.toNat + header.shSize.toNat < 2 ^ 64) :
    header.containsFileAddress addr = true ↔ header.InFile addr := by
  simp only [SectionHeader.containsFileAddress, SectionHeader.InFile, decide_eq_true_eq,
    BitVec.le_def, gt_iff_lt, BitVec.lt_def, BitVec.toNat_add]
  rw [Nat.mod_eq_of_lt h]

theorem containsVirtAddress_iff
    (h : (loadBias + header.shAddr).toNat + header.shSize.toNat < 2 ^ 64) :
    header.containsVirtAddress loadBias addr = true ↔ header.InMemory loadBias addr := by
  simp only [SectionHeader.containsVirtAddress, SectionHeader.InMemory, decide_eq_true_eq,
    ge_iff_le, BitVec.le_def, gt_iff_lt, BitVec.lt_def]
  rw [BitVec.toNat_add (loadBias + header.shAddr), Nat.mod_eq_of_lt h]

/-- A file address of a section is one of its addresses in memory, moved by the
bias. -/
theorem InFile.inMemory (h : header.InFile addr)
    (hmemory : (loadBias + header.shAddr).toNat + header.shSize.toNat < 2 ^ 64) :
    header.InMemory loadBias (addr + loadBias) := by
  obtain ⟨hlow, hhigh⟩ := h
  have hsplit : addr + loadBias = loadBias + header.shAddr + (addr - header.shAddr) := by
    ring
  have hdiff : (addr - header.shAddr).toNat = addr.toNat - header.shAddr.toNat := by
    exact BitVec.toNat_sub_of_le (BitVec.le_def.mpr hlow)
  have hsum : (addr + loadBias).toNat =
      (loadBias + header.shAddr).toNat + (addr.toNat - header.shAddr.toNat) := by
    rw [hsplit, BitVec.toNat_add (loadBias + header.shAddr), hdiff, Nat.mod_eq_of_lt]
    omega
  constructor
  · omega
  · omega

theorem InMemory.inFile (h : header.InMemory loadBias addr)
    (hfile : header.shAddr.toNat + header.shSize.toNat < 2 ^ 64) :
    header.InFile (addr - loadBias) := by
  obtain ⟨hlow, hhigh⟩ := h
  have hsplit : addr - loadBias = header.shAddr + (addr - (loadBias + header.shAddr)) := by
    ring
  have hdiff : (addr - (loadBias + header.shAddr)).toNat =
      addr.toNat - (loadBias + header.shAddr).toNat := by
    exact BitVec.toNat_sub_of_le (BitVec.le_def.mpr hlow)
  have hsum : (addr - loadBias).toNat =
      header.shAddr.toNat + (addr.toNat - (loadBias + header.shAddr).toNat) := by
    rw [hsplit, BitVec.toNat_add, hdiff, Nat.mod_eq_of_lt]
    omega
  constructor
  · omega
  · omega

end Sections

section Lookup

variable {elves : ElfCollection} {position : Nat} {elf : Elf} {header : SectionHeader}
  {addr : Word}

/-- A file covers an address at its bias, with any of its sections. -/
def Elf.Covers (elf : Elf) (addr : Word) : Prop :=
  ∃ header ∈ elf.sectionHeaders, header.containsVirtAddress elf.loadBias addr = true

theorem covers_iff :
    elf.Covers addr ↔ (elf.sectionContainingVirtAddress addr).isSome = true := by
  rw [Elf.sectionContainingVirtAddress, List.find?_isSome]
  rfl

theorem AllocatedIn.covers (hin : AllocatedIn elves position elf header)
    (h : LoadedApart elves) (haddr : header.InMemory elf.loadBias addr) : elf.Covers addr :=
  ⟨header, hin.listed, (containsVirtAddress_iff (h.memory hin)).mpr haddr⟩

/-- The first file that covers an address is the one that is found. -/
theorem toFileAddr_of_first (helf : elves[position]? = some elf) (hcovers : elf.Covers addr)
    (hfirst : ∀ earlier < position, ∀ other, elves[earlier]? = some other → ¬ other.Covers addr) :
    toFileAddr elves addr = ⟨some position, addr - elf.loadBias⟩ := by
  obtain ⟨hlt, hget⟩ := List.getElem?_eq_some_iff.mp helf
  have hfound : elves.getElfContainingAddress addr = some position := by
    refine List.findIdx?_eq_some_iff_getElem.mpr ⟨hlt, ?_, fun earlier hearlier => ?_⟩
    · rw [hget]
      exact covers_iff.mp hcovers
    · have hnot := hfirst earlier hearlier _ (List.getElem?_eq_getElem (Nat.lt_trans hearlier hlt))
      rw [covers_iff] at hnot
      simpa using hnot
  obtain ⟨found, hsection⟩ := Option.isSome_iff_exists.mp (covers_iff.mp hcovers)
  simp only [toFileAddr, hfound, toFileAddrIn, helf, hsection]

/-- A file that covers an address is found, or one before it. -/
theorem toFileAddr_of_covers (helf : elves[position]? = some elf) (hcovers : elf.Covers addr) :
    ∃ first ≤ position, ∃ other, elves[first]? = some other ∧ other.Covers addr ∧
      toFileAddr elves addr = ⟨some first, addr - other.loadBias⟩ := by
  have hexists : ∃ first, ∃ other : Elf, elves[first]? = some other ∧ other.Covers addr :=
    ⟨position, elf, helf, hcovers⟩
  classical
  obtain ⟨other, hother, hotherCovers⟩ := Nat.find_spec hexists
  refine ⟨Nat.find hexists, Nat.find_min' hexists ⟨elf, helf, hcovers⟩, other, hother,
    hotherCovers, ?_⟩
  refine toFileAddr_of_first hother hotherCovers ?_
  intro earlier hearlier before hbefore hbeforeCovers
  exact Nat.find_min hexists hearlier ⟨before, hbefore, hbeforeCovers⟩

theorem toFileAddr_of_uncovered
    (h : ∀ (position : Nat) (elf : Elf), elves[position]? = some elf → ¬ elf.Covers addr) :
    toFileAddr elves addr = ⟨none, 0⟩ := by
  have hnone : elves.getElfContainingAddress addr = none := by
    refine List.findIdx?_eq_none_iff.mpr fun elf hmem => ?_
    obtain ⟨position, hposition⟩ := List.mem_iff_getElem?.mp hmem
    have hnot := h position elf hposition
    rw [covers_iff] at hnot
    simpa using hnot
  simp only [toFileAddr, hnone]

theorem toVirtAddr_of_inFile (hin : AllocatedIn elves position elf header)
    (h : LoadedApart elves) (haddr : header.InFile addr) :
    FileAddr.toVirtAddr elves ⟨some position, addr⟩ = .ok (addr + elf.loadBias) := by
  have hsome : (elf.sectionContainingFileAddress addr).isSome = true := by
    rw [Elf.sectionContainingFileAddress, List.find?_isSome]
    exact ⟨header, hin.listed, (containsFileAddress_iff (h.file hin)).mpr haddr⟩
  obtain ⟨found, hfound⟩ := Option.isSome_iff_exists.mp hsome
  simp only [FileAddr.toVirtAddr, Option.bind_some, hin.file, Elf.toVirtAddr, hfound]

end Lookup

section RoundTrip

variable {elves : ElfCollection}

/-- An address of an allocated section is covered by no file before its own. -/
theorem UnallocatedHidden.first (hhidden : UnallocatedHidden elves) (h : LoadedApart elves)
    {position : Nat} {elf : Elf} {header : SectionHeader} {addr : Word}
    (hin : AllocatedIn elves position elf header) (haddr : header.InMemory elf.loadBias addr) :
    ∀ earlier < position, ∀ other, elves[earlier]? = some other → ¬ other.Covers addr := by
  intro earlier hearlier other hother hcovers
  obtain ⟨cover, hlisted, hcontains⟩ := hcovers
  cases halloc : cover.isAlloc with
  | true =>
      have hcover : AllocatedIn elves earlier other cover := ⟨hother, hlisted, halloc⟩
      have hmemory := (containsVirtAddress_iff (h.memory hcover)).mp hcontains
      exact h.disjoint hin hcover (by omega) addr haddr hmemory
  | false =>
      obtain ⟨position', elf', header', hle, hin', haddr'⟩ :=
        hhidden earlier other cover hother hlisted halloc addr hcontains
      exact h.disjoint hin hin' (by omega) addr haddr haddr'

theorem UnallocatedHidden.roundTrips (hhidden : UnallocatedHidden elves)
    (h : LoadedApart elves) : TranslationRoundTrips elves := by
  constructor
  · intro position elf header hin addr haddr
    have hmemory := InFile.inMemory haddr (h.memory hin)
    refine ⟨addr + elf.loadBias, toVirtAddr_of_inFile hin h haddr, ?_⟩
    rw [toFileAddr_of_first hin.file (hin.covers h hmemory) (hhidden.first h hin hmemory),
      BitVec.add_sub_cancel]
  · intro addr houtside
    refine toFileAddr_of_uncovered fun position elf helf hcovers => ?_
    obtain ⟨cover, hlisted, hcontains⟩ := hcovers
    cases halloc : cover.isAlloc with
    | true =>
        have hcover : AllocatedIn elves position elf cover := ⟨helf, hlisted, halloc⟩
        exact houtside hcover ((containsVirtAddress_iff (h.memory hcover)).mp hcontains)
    | false =>
        obtain ⟨position', elf', header', -, hin', haddr'⟩ :=
          hhidden position elf cover helf hlisted halloc addr hcontains
        exact houtside hin' haddr'

theorem TranslationRoundTrips.hidden (hround : TranslationRoundTrips elves)
    (h : LoadedApart elves) : UnallocatedHidden elves := by
  intro position elf header helf hlisted _ addr hcontains
  obtain ⟨first, hfirst, other, hother, -, hfound⟩ :=
    toFileAddr_of_covers helf ⟨header, hlisted, hcontains⟩
  by_contra hnone
  push Not at hnone
  have houtside : ∀ {position' elf' header'}, AllocatedIn elves position' elf' header' →
      ¬ header'.InMemory elf'.loadBias addr := by
    intro position' elf' header' hin' haddr'
    by_cases hle : position' ≤ position
    · exact hnone position' elf' header' hle hin' haddr'
    · obtain ⟨virt, hvirt, hback⟩ := hround.back hin' _ (InMemory.inFile haddr' (h.file hin'))
      rw [toVirtAddr_of_inFile hin' h (InMemory.inFile haddr' (h.file hin')),
        BitVec.sub_add_cancel] at hvirt
      obtain rfl : addr = virt := Except.ok.inj hvirt
      have hposition := congrArg FileAddr.elf (hback.symm.trans hfound)
      have hsame : position' = first := Option.some.inj hposition
      omega
  have hempty := hround.outside addr houtside
  rw [hfound] at hempty
  exact absurd (congrArg FileAddr.elf hempty) (Option.some_ne_none _)

end RoundTrip

/-- Translation round-trips for every collection whose sections that are not
allocated hide behind allocated ones, and for no other. -/
theorem translation_roundTrips_iff (elves : ElfCollection) (h : LoadedApart elves) :
    TranslationRoundTrips elves ↔ UnallocatedHidden elves :=
  ⟨fun hround => hround.hidden h, fun hhidden => hhidden.roundTrips h⟩

namespace AddressTranslationWitness

def text : SectionHeader := ⟨".text", 6, 0x1000, 0x1000, 0x100⟩

def comment : SectionHeader := ⟨".comment", 0x30, 0, 0x2000, 0x20⟩

/-- A program with its code and a section that is not loaded. -/
def program : Elf := ⟨[], [text, comment], 0x555555554000⟩

def stripped : Elf := ⟨[], [text], 0x555555554000⟩

theorem allocatedIn_text {elf elf' : Elf} (hheaders : ∀ header ∈ elf.sectionHeaders,
      header.isAlloc = true → header = text) {position : Nat} {header : SectionHeader}
    (hin : AllocatedIn [elf] position elf' header) :
    position = 0 ∧ elf' = elf ∧ header = text := by
  obtain ⟨hfile, hlisted, halloc⟩ := hin
  cases position with
  | zero =>
      obtain rfl : elf = elf' := Option.some.inj hfile
      exact ⟨rfl, rfl, hheaders header hlisted halloc⟩
  | succ position => cases hfile

theorem loadedApart_singleton {elf : Elf} (hbias : elf.loadBias = 0x555555554000)
    (hheaders : ∀ header ∈ elf.sectionHeaders, header.isAlloc = true → header = text) :
    LoadedApart [elf] := by
  constructor
  · intro position elf' header hin
    obtain ⟨-, -, rfl⟩ := allocatedIn_text hheaders hin
    decide
  · intro position elf' header hin
    obtain ⟨-, rfl, rfl⟩ := allocatedIn_text hheaders hin
    rw [hbias]
    decide
  · intro position elf' header position' elf'' header' hin hin' hne
    obtain ⟨rfl, -, -⟩ := allocatedIn_text hheaders hin
    obtain ⟨rfl, -, -⟩ := allocatedIn_text hheaders hin'
    exact absurd rfl hne

theorem loadedApart_program : LoadedApart [program] :=
  loadedApart_singleton rfl (by decide)

/-- The translation of an address below the code finds the section that is not
loaded. -/
theorem translation_not_roundTrips :
    LoadedApart [program] ∧ ¬ TranslationRoundTrips [program] := by
  refine ⟨loadedApart_program, fun hround => ?_⟩
  have hempty := hround.outside 0x555555554010 fun hin haddr => by
    obtain ⟨-, rfl, rfl⟩ := allocatedIn_text (by decide) hin
    exact absurd haddr.1 (by decide)
  exact absurd hempty (by decide)

theorem translation_roundTrips_iff_stripped :
    TranslationRoundTrips [stripped] ∧ UnallocatedHidden [stripped] := by
  have hhidden : UnallocatedHidden [stripped] := by
    intro position elf header helf hlisted halloc
    cases position with
    | zero =>
        obtain rfl : stripped = elf := Option.some.inj helf
        obtain rfl := List.mem_singleton.mp hlisted
        exact absurd halloc (by decide)
    | succ position => cases helf
  have hiff := translation_roundTrips_iff [stripped] (loadedApart_singleton rfl (by decide))
  exact ⟨hiff.mpr hhidden, hhidden⟩

end AddressTranslationWitness

end Gsdb
