/-
Which bytes `process::write_memory` changes, and up to where in a mapping it and the
breakpoint sites reach.  Both access memory in words of eight bytes, so in the last bytes
in front of unmapped memory they fail.
-/
import Gsdb.MemoryWrites

namespace Gsdb

open ByteMemory Effects Eff Debugger

/-- `read_memory` returns the bytes of a range and its parts, whatever they are. -/
def ReadsCurrent (m : Machine) (address : Word) (size : Nat) : Prop :=
  ∀ (memory : Memory 64) (offset amount : Nat), offset + amount ≤ size →
    readMemory (m.setMemory memory) (address + BitVec.ofNat 64 offset) amount =
      .ok (memory.read (address + BitVec.ofNat 64 offset) amount)

/-- The bytes are in memory, nothing else has changed, and reading returns them. -/
structure WritesExactly (address : Word) (data : List Byte) (m m' : Machine) : Prop where
  written : ∀ i (hi : i < data.length),
    m'.kernel.memory (address + BitVec.ofNat 64 i) = data[i]
  kept : ∀ query, (∀ i < data.length, query ≠ address + BitVec.ofNat 64 i) →
    m'.kernel.memory query = m.kernel.memory query
  others : m' = m.setMemory m'.kernel.memory
  readBack : readMemory m' address data.length = .ok data

section Extent

variable {m : Machine} {address : Word} {size : Nat} {data : List Byte}

/-- The kernel takes one descriptor for each page. -/
theorem readsCurrent_of_mapped (hmapped : RangeMapped m.kernel address size)
    (hiov : (size + 0x1ffe) / 0x1000 ≤ m.kernel.iovMax) : ReadsCurrent m address size := by
  intro memory offset amount hwithin
  refine readMemory_eq (hmapped.part hwithin) ?_
  have hle := remoteDescs_length_le (address + BitVec.ofNat 64 offset) amount
  change _ ≤ m.kernel.iovMax
  omega

theorem ReadsCurrent.words (h : ReadsCurrent m address size)
    (hstopped : m.isStopped m.process.pid = true) (hmapped : RangeMapped m.kernel address size) :
    WordsAccessible m address size :=
  ⟨hstopped, hmapped, fun memory offset hwithin => h memory offset 8 hwithin⟩

theorem ReadsCurrent.readBack (h : ReadsCurrent m address size) (memory : Memory 64)
    {amount : Nat} (hle : amount ≤ size) :
    readMemory (m.setMemory memory) address amount = .ok (memory.read address amount) := by
  have hread := h memory 0 amount (by omega)
  rwa [BitVec.add_zero] at hread

theorem le_wordsSize (n : Nat) : n ≤ wordsSize n := by
  rw [wordsSize]
  omega

/-- Writing succeeds exactly where its last word is mapped, too. -/
theorem writeMemory_succeeds_iff (hstopped : m.isStopped m.process.pid = true)
    (hiov : 2 ≤ m.kernel.iovMax) (hfits : data.length ≤ 2 ^ 64) :
    (∃ m', writeMemory address data m = (.ok ⟨⟩, m')) ↔
      RangeMapped m.kernel address (wordsSize data.length) := by
  constructor
  · rintro ⟨m', hwrite⟩
    exact writeMemory_words_mapped hfits hwrite
  · intro hmapped
    have hwords : WordsAccessible m address (wordsSize data.length) := by
      refine ⟨hstopped, hmapped, fun memory offset hwithin => ?_⟩
      exact readMemory_eq (hmapped.part hwithin)
        (Nat.le_trans (remoteDescs_length_le_two _ (by decide)) hiov)
    exact ⟨_, hwords.writeMemory hfits⟩

theorem wordMapped_iff : m.wordMapped address = true ↔ RangeMapped m.kernel address 8 := by
  rw [Machine.wordMapped, List.all_eq_true]
  simp only [List.mem_range]
  rfl

/-- A software site is enabled exactly where the whole word at its address is mapped. -/
theorem enableSite_succeeds_iff {index : Nat} {site : BreakpointSite}
    (hstopped : m.isStopped m.process.pid = true)
    (hsite : m.process.breakpointSites[index]? = some site) (hdisabled : site.isEnabled = false)
    (hsoftware : site.isHardware = false) :
    (∃ m', enableSite index m = (.ok ⟨⟩, m')) ↔ RangeMapped m.kernel site.address 8 := by
  rw [← wordMapped_iff]
  constructor
  · rintro ⟨m', henable⟩
    by_contra hunmapped
    rw [enableSite, bind_of_ok (siteAt_eq hsite), if_neg (by simp [hdisabled]),
      if_neg (by simp [hsoftware])] at henable
    obtain ⟨word, m₁, hpeek, -⟩ := Eff.bind_eq_ok.mp henable
    rw [peekData_refused fun hallowed => hunmapped hallowed.2] at hpeek
    cases hpeek
  · intro hmapped
    exact ⟨_, enableSite_software hsite hdisabled hsoftware hstopped hmapped⟩

end Extent

/-- A write changes its bytes and no others. -/
theorem writeMemory_exact (m : Machine) (address : Word) (data : List Byte)
    (hsize : data.length < 2 ^ 64) (hstopped : m.isStopped m.process.pid = true)
    (hmapped : RangeMapped m.kernel address (wordsSize data.length))
    (hreads : ReadsCurrent m address (wordsSize data.length)) :
    ∃ m', writeMemory address data m = (.ok ⟨⟩, m') ∧ WritesExactly address data m m' := by
  have hfits := Nat.le_of_lt hsize
  refine ⟨_, (hreads.words hstopped hmapped).writeMemory hfits, ?_, ?_, rfl, ?_⟩
  · exact Memory.write_inside m.kernel.memory address data hfits
  · exact fun query houtside => Memory.write_outside _ address query data houtside
  · rw [hreads.readBack _ (le_wordsSize data.length), Memory.read_write _ _ _ hfits]

/-- Eleven bytes at an odd address. -/
theorem writeMemory_exact_odd :
    ∃ m', writeMemory 0x1003 (List.replicate 11 7) (Machine.atRest fun _ => 1) = (.ok ⟨⟩, m') ∧
      WritesExactly 0x1003 (List.replicate 11 7) (Machine.atRest fun _ => 1) m' :=
  writeMemory_exact _ 0x1003 (List.replicate 11 7) (by decide) (by decide) (fun _ _ => rfl)
    (readsCurrent_of_mapped (fun _ _ => rfl) (by decide))

/-- Writes of memory and software sites reach as far as whole words do. -/
theorem reachesMappingEnd_iff (m : Machine) (hstopped : m.isStopped m.process.pid = true)
    (hiov : 2 ≤ m.kernel.iovMax) :
    (∀ (address : Word) (data : List Byte), data.length < 2 ^ 64 →
      ((∃ m', writeMemory address data m = (.ok ⟨⟩, m')) ↔
        RangeMapped m.kernel address (wordsSize data.length))) ∧
    ∀ (index : Nat) (site : BreakpointSite), m.process.breakpointSites[index]? = some site →
      site.isEnabled = false → site.isHardware = false →
      ((∃ m', enableSite index m = (.ok ⟨⟩, m')) ↔ RangeMapped m.kernel site.address 8) :=
  ⟨fun _ _ hsize => writeMemory_succeeds_iff hstopped hiov (Nat.le_of_lt hsize),
    fun _ _ hsite hdisabled hsoftware =>
      enableSite_succeeds_iff hstopped hsite hdisabled hsoftware⟩

namespace WriteExtentWitness

def lastSite : BreakpointSite := ⟨none, 1, 0x1fff, false, 0, false, false, -1⟩

/-- One page is mapped, and a site stands on its last byte. -/
def onePage : Machine :=
  let rest := Machine.atRest fun _ => 0x90
  { rest with
    kernel := { rest.kernel with mapped := fun address => address >>> 12 == 1 }
    process := { rest.process with breakpointSites := [lastSite] } }

theorem onePage_ends : ¬ RangeMapped onePage.kernel 0x1fff 8 := by
  intro hmapped
  have hnext := hmapped 1 (by decide)
  revert hnext
  decide

/-- The last word of the page is written, and the site on its last byte is not enabled. -/
theorem reachesMappingEnd_iff_onePage :
    (∃ m', writeMemory 0x1ff8 [1, 2, 3] onePage = (.ok ⟨⟩, m')) ∧
      ¬ ∃ m', enableSite 0 onePage = (.ok ⟨⟩, m') := by
  have hword : RangeMapped onePage.kernel 0x1ff8 8 := by
    have hbytes : ∀ i < 8, onePage.kernel.mapped (0x1ff8 + BitVec.ofNat 64 i) = true := by decide
    exact hbytes
  obtain ⟨hwrites, henables⟩ := reachesMappingEnd_iff onePage (by decide) (by decide)
  exact ⟨(hwrites 0x1ff8 [1, 2, 3] (by decide)).mpr hword,
    mt (henables 0 lastSite rfl rfl rfl).mp onePage_ends⟩

/-- The last byte of the page is mapped, but it is neither written nor given a breakpoint. -/
theorem lastByte_not_reached :
    (¬ ∀ (m : Machine) (address : Word) (data : List Byte),
        m.isStopped m.process.pid = true → 2 ≤ m.kernel.iovMax → data.length < 2 ^ 64 →
        data ≠ [] → RangeMapped m.kernel address data.length →
        ∃ m', writeMemory address data m = (.ok ⟨⟩, m')) ∧
      ¬ ∀ (m : Machine) (index : Nat) (site : BreakpointSite),
        m.isStopped m.process.pid = true → m.process.breakpointSites[index]? = some site →
        site.isEnabled = false → site.isHardware = false → m.kernel.mapped site.address = true →
        ∃ m', enableSite index m = (.ok ⟨⟩, m') := by
  constructor
  · intro hall
    have hlast : RangeMapped onePage.kernel 0x1fff 1 := by
      intro i hi
      obtain rfl : i = 0 := by omega
      decide
    have hwrite := hall onePage 0x1fff [0] (by decide) (by decide) (by decide) (by decide) hlast
    exact onePage_ends
      ((writeMemory_succeeds_iff (by decide) (by decide) (by decide)).mp hwrite)
  · intro hall
    have hsite : onePage.process.breakpointSites[0]? = some lastSite := rfl
    have henable := hall onePage 0 lastSite (by decide) hsite rfl rfl (by decide)
    exact onePage_ends ((enableSite_succeeds_iff (by decide) hsite rfl rfl).mp henable)

end WriteExtentWitness

end Gsdb
