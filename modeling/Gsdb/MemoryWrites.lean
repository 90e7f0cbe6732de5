/-
What a write of memory does to the breakpoint sites inside it.
`process::write_memory` puts its bytes over the trap bytes, and no site learns
that the byte it covers has changed.
-/
import Gsdb.ProcessMemory

namespace Gsdb

open ByteMemory Effects Eff Debugger

section Writes

variable {m m' : Machine} {address : Word} {data : List Byte}

theorem pokeData_eq_ok {word : Word} {what : String} {u : PUnit}
    (h : pokeData address word what m = (.ok u, m')) :
    m.wordMapped address = true ∧
      m' = m.setMemory (m.kernel.memory.write address (toLe 8 word.toNat)) := by
  rw [pokeData, bind_of_ok (get_apply m)] at h
  split at h
  · rename_i hallowed
    exact ⟨hallowed.2, (congrArg Prod.snd h).symm⟩
  · cases h

/-- A read that returns was one transfer. -/
theorem remoteDescs_of_readMemory {amount : Nat} {bytes : List Byte}
    (h : readMemory m address amount = .ok bytes) :
    (remoteDescs address amount).length ≤ m.kernel.iovMax := by
  by_contra hmany
  have hrefused : processVmReadv m.kernel (remoteDescs address amount) = none := by
    rw [processVmReadv, if_pos (by omega)]
  rw [readMemory, hrefused] at h
  cases h

theorem rangeMapped_of_wordMapped (h : m.wordMapped address = true) :
    RangeMapped m.kernel address 8 := by
  intro i hi
  rw [Machine.wordMapped, List.all_eq_true] at h
  exact h i (List.mem_range.mpr hi)

theorem nextWord_unchanged (address : Word) (data : List Byte) (m : Machine) :
    (nextWord address data m).2 = m := by
  have hreads : Respects (Fixes fun m => m) (nextWord address data) :=
    Respects.ite (Respects.pure _) (Respects.bind Respects.get fun _ =>
      Respects.bind (Respects.ofExcept _) fun _ => Respects.pure _)
  exact hreads m

theorem nextWord_state {word : List Byte} (h : nextWord address data m = (.ok word, m')) :
    m' = m :=
  (congrArg Prod.snd h).symm.trans (nextWord_unchanged address data m)

/-- A word that could be written holds the next bytes of the data. -/
theorem nextWord_eq_ok {word : List Byte} (h : nextWord address data m = (.ok word, m'))
    (hmapped : m.wordMapped address = true) : word.length = 8 ∧
      m.kernel.memory.write address word = m.kernel.memory.write address (data.take 8) := by
  by_cases hfull : 8 ≤ data.length
  · rw [nextWord, if_pos hfull] at h
    cases h
    exact ⟨by simpa using hfull, rfl⟩
  · rw [nextWord, if_neg hfull, bind_of_ok (get_apply m)] at h
    obtain ⟨read, m₁, hread, hend⟩ := Eff.bind_eq_ok.mp h
    have hbytes : readMemory m address 8 = .ok read := congrArg Prod.fst hread
    have hexact := readMemory_eq (rangeMapped_of_wordMapped hmapped)
      (remoteDescs_of_readMemory hbytes)
    rw [hbytes] at hexact
    cases hexact
    cases hend
    exact ⟨by simp; omega, write_completed _ _ hfull⟩

/-- One word after the other: a write that returns has written its bytes, and all of its words
are mapped. -/
theorem writeMemoryLoop_eq_ok (rounds : Nat) {u : PUnit} (hrounds : data.length ≤ rounds)
    (hfits : data.length ≤ 2 ^ 64) (h : writeMemoryLoop rounds address data m = (.ok u, m')) :
    m' = m.setMemory (m.kernel.memory.write address data) ∧
      RangeMapped m.kernel address (wordsSize data.length) := by
  induction rounds generalizing m address data with
  | zero =>
      obtain rfl : data = [] := List.length_eq_zero_iff.mp (by omega)
      cases h
      exact ⟨rfl, fun i hi => absurd hi (Nat.not_lt_zero i)⟩
  | succ rounds ih =>
      by_cases hempty : data = []
      · subst hempty
        cases h
        exact ⟨rfl, fun i hi => absurd hi (Nat.not_lt_zero i)⟩
      have hpos := List.length_pos_of_ne_nil hempty
      have hsize := wordsSize_drop hempty
      rw [writeMemoryLoop, if_neg hempty] at h
      obtain ⟨word, m₁, hword, hrest⟩ := Eff.bind_eq_ok.mp h
      obtain ⟨v, m₂, hpoke, hloop⟩ := Eff.bind_eq_ok.mp hrest
      obtain rfl := nextWord_state hword
      obtain ⟨hmapped, rfl⟩ := pokeData_eq_ok hpoke
      obtain ⟨hlength, hwrite⟩ := nextWord_eq_ok hword hmapped
      obtain ⟨hlast, htail⟩ := ih (by simp; omega) (by simp; omega) hloop
      have hhead := rangeMapped_of_wordMapped hmapped
      rw [hlast, toNat_ofNat_ofLe hlength, hwrite, setMemory_setMemory]
      constructor
      · exact congrArg m₁.setMemory (write_word_rest m₁.kernel.memory address hfits)
      · intro i hi
        by_cases hi8 : i < 8
        · exact hhead i hi8
        · have hnext := htail (i - 8) (by omega)
          rwa [show address + 8 = address + BitVec.ofNat 64 8 from rfl, BitVec.add_assoc,
            ← BitVec.ofNat_add, Nat.add_sub_cancel' (by omega)] at hnext

theorem writeMemory_words_mapped {u : PUnit} (hfits : data.length ≤ 2 ^ 64)
    (h : writeMemory address data m = (.ok u, m')) :
    RangeMapped m.kernel address (wordsSize data.length) :=
  (writeMemoryLoop_eq_ok data.length (Nat.le_refl _) hfits h).2

theorem writeMemory_eq_ok {u : PUnit} (hfits : data.length ≤ 2 ^ 64)
    (h : writeMemory address data m = (.ok u, m')) :
    m' = m.setMemory (m.kernel.memory.write address data) ∧
      RangeMapped m.kernel address data.length := by
  refine ⟨(writeMemoryLoop_eq_ok data.length (Nat.le_refl _) hfits h).1, fun i hi => ?_⟩
  exact writeMemory_words_mapped hfits h i (by rw [wordsSize]; omega)

end Writes

/-- Disabling or removing a site. -/
def SiteOperation.retracts : SiteOperation → Bool
  | .disable _ | .removeById _ | .removeByAddress _ => true
  | _ => false

/-- A write survives the breakpoints: reading without traps returns it, every
enabled software site still has its trap byte, and once the sites in the range
are disabled or removed the bytes written are in memory. -/
structure WriteSurvives (address : Word) (data : List Byte) (m m' : Machine) : Prop where
  read : readMemoryWithoutTraps m' address data.length = .ok data
  traps : ∀ site ∈ m.process.breakpointSites, site.armed = true →
    m'.kernel.memory site.address = int3
  restored : ∀ ops : List SiteOperation, (∀ op ∈ ops, op.retracts = true) →
    ∀ i (hi : i < data.length),
      (∀ site ∈ (performSiteOperations ops m').process.breakpointSites, site.armed = true →
        site.address ≠ address + BitVec.ofNat 64 i) →
      (performSiteOperations ops m').kernel.memory (address + BitVec.ofNat 64 i) = data[i]

/-- The range can be read in one transfer, and the write meets an enabled
software site only where it writes a trap byte over a trap byte. -/
structure WritesAround (address : Word) (data : List Byte) (m : Machine) : Prop where
  transfer : (remoteDescs address data.length).length ≤ m.kernel.iovMax
  sites : ∀ site ∈ m.process.breakpointSites, site.armed = true →
    ∀ i (hi : i < data.length), site.address = address + BitVec.ofNat 64 i →
      data[i] = int3 ∧ site.savedData = int3

section Survival

variable {original : Memory 64} {m : Machine} {address : Word} {data : List Byte}

/-- A range that is mapped does not reach the end of the address space. -/
theorem RangeMapped.no_wrap {kernel : Kernel} {amount : Nat}
    (h : RangeMapped kernel address amount)
    (hlast : kernel.mapped (BitVec.allOnes 64) = false) : address.toNat + amount < 2 ^ 64 := by
  by_contra hwrap
  have haddress := address.isLt
  have hend : address + BitVec.ofNat 64 (2 ^ 64 - 1 - address.toNat) = BitVec.allOnes 64 := by
    apply BitVec.eq_of_toNat_eq
    rw [BitVec.toNat_add, BitVec.toNat_ofNat, BitVec.toNat_allOnes]
    omega
  have hmapped := h (2 ^ 64 - 1 - address.toNat) (by omega)
  rw [hend, hlast] at hmapped
  cases hmapped

/-- A write around the sites writes to the memory that they cover. -/
theorem Shadow.write (h : Shadow original m) (hfits : data.length ≤ 2 ^ 64)
    (hsites : ∀ site ∈ m.process.breakpointSites, site.armed = true →
      ∀ i (hi : i < data.length), site.address = address + BitVec.ofNat 64 i →
        data[i] = int3 ∧ site.savedData = int3) :
    Shadow (original.write address data)
      (m.setMemory (m.kernel.memory.write address data)) where
  distinct := h.distinct
  armed := by
    intro site hsite harmed
    change m.kernel.memory.write address data site.address = int3 ∧ _
    by_cases hinside : ∃ i < data.length, site.address = address + BitVec.ofNat 64 i
    · obtain ⟨i, hi, haddress⟩ := hinside
      obtain ⟨htrap, hsaved⟩ := hsites site hsite harmed i hi haddress
      rw [haddress, Memory.write_inside _ _ _ hfits i hi, Memory.write_inside _ _ _ hfits i hi,
        htrap, hsaved]
      exact ⟨rfl, rfl⟩
    · have houtside : ∀ i < data.length, site.address ≠ address + BitVec.ofNat 64 i :=
        fun i hi heq => hinside ⟨i, hi, heq⟩
      rw [Memory.write_outside _ _ _ _ houtside, Memory.write_outside _ _ _ _ houtside]
      exact h.armed site hsite harmed
  plain := by
    intro query hplain
    change m.kernel.memory.write address data query = original.write address data query
    by_cases hinside : ∃ i < data.length, query = address + BitVec.ofNat 64 i
    · obtain ⟨i, hi, rfl⟩ := hinside
      rw [Memory.write_inside _ _ _ hfits i hi, Memory.write_inside _ _ _ hfits i hi]
    · have houtside : ∀ i < data.length, query ≠ address + BitVec.ofNat 64 i :=
        fun i hi heq => hinside ⟨i, hi, heq⟩
      rw [Memory.write_outside _ _ _ _ houtside, Memory.write_outside _ _ _ _ houtside]
      exact h.plain query hplain

theorem Shadow.writeSurvives (h : Shadow original m) (hfits : data.length ≤ 2 ^ 64)
    (hwrap : address.toNat + data.length < 2 ^ 64)
    (hmapped : RangeMapped m.kernel address data.length) (haround : WritesAround address data m) :
    WriteSurvives address data m (m.setMemory (m.kernel.memory.write address data)) := by
  have hshadow := h.write hfits haround.sites
  constructor
  · rw [hshadow.readMemoryWithoutTraps_eq hwrap hmapped haround.transfer,
      Memory.read_write _ _ _ hfits]
  · exact fun site hsite harmed => (hshadow.armed site hsite harmed).1
  · intro ops _ i hi hnone
    have hlater : Shadow (original.write address data) (performSiteOperations ops _) :=
      Respects.performAll (SiteOperation.run_shadow (original.write address data)) ops _ hshadow
    rw [hlater.plain _ hnone, Memory.write_inside _ _ _ hfits i hi]

theorem Shadow.writesAround (h : Shadow original m) (hfits : data.length ≤ 2 ^ 64)
    (hwrap : address.toNat + data.length < 2 ^ 64)
    (hmapped : RangeMapped m.kernel address data.length)
    (hsurvives : WriteSurvives address data m
      (m.setMemory (m.kernel.memory.write address data))) : WritesAround address data m := by
  classical
  have htransfer : (remoteDescs address data.length).length ≤ m.kernel.iovMax := by
    have hread := hsurvives.read
    rw [readMemoryWithoutTraps] at hread
    cases hbytes : readMemory (m.setMemory (m.kernel.memory.write address data)) address
        data.length with
    | error e =>
        rw [hbytes] at hread
        cases hread
    | ok bytes =>
        have htransfer := remoteDescs_of_readMemory hbytes
        exact htransfer
  -- The sites cover what they saved, which need not be what was written.
  have hshadow : Shadow (fun query =>
      if ∃ site ∈ m.process.breakpointSites, site.armed = true ∧ site.address = query then
        original query
      else m.kernel.memory.write address data query)
      (m.setMemory (m.kernel.memory.write address data)) := by
    refine ⟨h.distinct, fun site hsite harmed => ⟨hsurvives.traps site hsite harmed, ?_⟩,
      fun query hplain => ?_⟩
    · rw [if_pos ⟨site, hsite, harmed, rfl⟩]
      exact (h.armed site hsite harmed).2
    · have hnone :
          ¬ ∃ site ∈ m.process.breakpointSites, site.armed = true ∧ site.address = query := by
        rintro ⟨site, hsite, harmed, heq⟩
        exact hplain site hsite harmed heq
      rw [if_neg hnone]
      rfl
  refine ⟨htransfer, fun site hsite harmed i hi haddress => ?_⟩
  have htrap := hsurvives.traps site hsite harmed
  change m.kernel.memory.write address data site.address = int3 at htrap
  rw [haddress, Memory.write_inside _ _ _ hfits i hi] at htrap
  have hread := hshadow.readMemoryWithoutTraps_eq hwrap hmapped htransfer
  rw [hsurvives.read] at hread
  have hbyte := congrArg (fun bytes => bytes[i]?) (Except.ok.inj hread)
  rw [List.getElem?_eq_getElem hi, List.getElem?_eq_getElem (by simpa using hi),
    Memory.read_getElem, ← haddress] at hbyte
  have hsaved := (hshadow.armed site hsite harmed).2
  rw [← Option.some.inj hbyte, htrap] at hsaved
  exact ⟨htrap, hsaved⟩

end Survival

/-- Whatever sites are set, a write of memory that returns survives the
breakpoints exactly if it goes around them. -/
theorem writeMemory_survives_iff (start m' : Machine) (ops : List SiteOperation) (address : Word)
    (data : List Byte) (hstart : start.process.breakpointSites = [])
    (hlast : start.kernel.mapped (BitVec.allOnes 64) = false) (hsize : data.length < 2 ^ 64)
    (hwrite : writeMemory address data (performSiteOperations ops start) = (.ok ⟨⟩, m')) :
    WriteSurvives address data (performSiteOperations ops start) m' ↔
      WritesAround address data (performSiteOperations ops start) := by
  have hshadow : Shadow start.kernel.memory (performSiteOperations ops start) :=
    Respects.performAll (SiteOperation.run_shadow start.kernel.memory) ops start
      (Shadow.start hstart)
  have hlayout : Layout (performSiteOperations ops start) = Layout start :=
    Respects.performAll (fun _ => siteFrame_layout.run (.inl rfl)) ops start
  have hmap : (performSiteOperations ops start).kernel.mapped = start.kernel.mapped :=
    congrArg Prod.fst hlayout
  obtain ⟨rfl, hmapped⟩ := writeMemory_eq_ok (Nat.le_of_lt hsize) hwrite
  have hwrap := hmapped.no_wrap (hmap ▸ hlast)
  exact ⟨hshadow.writesAround (Nat.le_of_lt hsize) hwrap hmapped,
    hshadow.writeSurvives (Nat.le_of_lt hsize) hwrap hmapped⟩

namespace MemoryWritesWitness

/-- A stopped process; all of memory is zero, and mapped but for the last byte. -/
def machine : Machine :=
  let rest := Machine.atRest fun _ => 0
  { rest with kernel := { rest.kernel with mapped := fun address => address != BitVec.allOnes 64 } }

/-- One enabled site. -/
def operations : List SiteOperation := [.create 0x1000 false false, .enable 0]

def site : BreakpointSite := ⟨none, 1, 0x1000, true, 0, false, false, -1⟩

theorem sites : (performSiteOperations operations machine).process.breakpointSites = [site] := by
  decide +kernel

/-- Where the write ends. -/
def written (address : Word) (data : List Byte) : Machine :=
  (writeMemory address data (performSiteOperations operations machine)).2

theorem writeMemory_written {address : Word} {data : List Byte}
    (h : (writeMemory address data (performSiteOperations operations machine)).1.isOk = true) :
    writeMemory address data (performSiteOperations operations machine) =
      (.ok ⟨⟩, written address data) := by
  rw [written]
  rcases hrun : writeMemory address data (performSiteOperations operations machine) with
    ⟨e | u, m'⟩
  · rw [hrun] at h
    cases h
  · rfl

/-- Two bytes next to the site. -/
theorem writeMemory_survives_iff_beside :
    WriteSurvives 0x1001 [1, 2] (performSiteOperations operations machine)
      (written 0x1001 [1, 2]) := by
  refine (writeMemory_survives_iff machine _ operations 0x1001 [1, 2] rfl (by decide) (by decide)
    (writeMemory_written (by decide +kernel))).mpr ⟨by decide +kernel, ?_⟩
  intro other hother _ i hi haddress
  rw [sites, List.mem_singleton] at hother
  subst hother
  have hbeside : ∀ i < 2, site.address ≠ 0x1001 + BitVec.ofNat 64 i := by decide
  exact absurd haddress (hbeside i hi)

/-- Two bytes over the site: its trap byte is gone. -/
theorem writeMemory_not_survives :
    ¬ ∀ (start m' : Machine) (ops : List SiteOperation) (address : Word) (data : List Byte),
      start.process.breakpointSites = [] → start.kernel.mapped (BitVec.allOnes 64) = false →
      data.length < 2 ^ 64 →
      writeMemory address data (performSiteOperations ops start) = (.ok ⟨⟩, m') →
      WriteSurvives address data (performSiteOperations ops start) m' := by
  intro hall
  have hsurvives := hall machine (written 0x1000 [1, 2]) operations 0x1000 [1, 2] rfl (by decide)
    (by decide) (writeMemory_written (by decide +kernel))
  have htrap := hsurvives.traps site (by rw [sites]; exact List.mem_singleton_self site) rfl
  have hbyte : (written 0x1000 [1, 2]).kernel.memory site.address = 1 := by decide +kernel
  rw [hbyte] at htrap
  cases htrap

end MemoryWritesWitness

end Gsdb
