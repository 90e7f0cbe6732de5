/-
The shared libraries of the inferior.  The dynamic linker keeps a list of what is
loaded; `reload_dynamic_libraries` walks through it and adds the files that the
debugger does not know yet.
-/
import Gsdb.Failure

namespace Gsdb

open ByteMemory Effects

def slash : Byte := 0x2f

/-- The parts of a path between its slashes. -/
def pathParts : List Byte → List (List Byte)
  | [] => [[]]
  | byte :: rest =>
      if byte = slash then [] :: pathParts rest
      else
        match pathParts rest with
        | [] => [[byte]]
        | part :: parts => (byte :: part) :: parts

/-- `std::filesystem::path::filename`. -/
def pathFilename (path : List Byte) : List Byte := (pathParts path).getLastD []

/-- What the equality of paths compares: whether the path is absolute, its parts
without the empty ones between repeated slashes, and its filename. -/
def pathKey (path : List Byte) : Bool × List (List Byte) × List Byte :=
  (path.head? = some slash, (pathParts path).filter fun part => part ≠ [], pathFilename path)

/-- `linux-vdso.so.1`. -/
def vdsoName : List Byte :=
  [0x6c, 0x69, 0x6e, 0x75, 0x78, 0x2d, 0x76, 0x64, 0x73, 0x6f, 0x2e, 0x73, 0x6f, 0x2e, 0x31]

/-- What the list of files knows of a `gsdb::elf`. -/
structure LoadedElf where
  path : List Byte
  loadBias : Word
deriving DecidableEq, Repr

/-- The members of `link_map` that are read. -/
structure LinkMap where
  lAddr : Word
  lName : Word
  lNext : Word
deriving DecidableEq, Repr

/-- What reloading takes from the inferior and the file system: the bytes of memory,
the directory that `mkdtemp` creates, whether a file can be parsed as an ELF file,
and whether the breakpoints can be resolved. -/
structure LibraryEnv where
  readMemory : Word → Nat → Except Failure (List Byte)
  tempDir : List Byte
  parseElf : List Byte → Except Failure PUnit
  resolveBreakpoints : List LoadedElf → Except Failure PUnit

/-- `elf_collection::get_elf_by_path`. -/
def getElfByPath (elves : List LoadedElf) (path : List Byte) : Option LoadedElf :=
  elves.find? fun elf => pathKey elf.path = pathKey path

/-- `elf_collection::get_elf_by_filename`. -/
def getElfByFilename (elves : List LoadedElf) (name : List Byte) : Option LoadedElf :=
  elves.find? fun elf => pathKey (pathFilename elf.path) = pathKey name

namespace LibraryEnv

variable (env : LibraryEnv)

/-- A member of a structure that was read. -/
def member (bytes : List Byte) (offset size : Nat) : Nat := ofLe ((bytes.drop offset).take size)

/-- `read_memory_as<link_map>`. -/
def readLinkMap (address : Word) : Except Failure LinkMap := do
  let bytes ← env.readMemory address 40
  pure ⟨BitVec.ofNat 64 (member bytes 0 8), BitVec.ofNat 64 (member bytes 8 8),
    BitVec.ofNat 64 (member bytes 24 8)⟩

/-- The text up to the first zero of the bytes that are read for a name. -/
def readName (address : Word) : Except Failure (List Byte) := do
  let bytes ← env.readMemory address 4096
  if 0 ∈ bytes then pure (bytes.takeWhile fun byte => byte ≠ 0)
  else .error (.undefined "read outside the buffer")

/-- `r_map` of the rendezvous structure. -/
def readRMap (rendezvous : Word) : Except Failure Word := do
  let bytes ← env.readMemory rendezvous 40
  pure (BitVec.ofNat 64 (member bytes 8 8))

/-- `dump_vdso`: the path that the object is written to. -/
def dumpVdso (address : Word) : Except Failure (List Byte) := do
  let header ← env.readMemory address 64
  let size := member header 40 8 + member header 58 2 * member header 60 2
  let _ ← env.readMemory address (size % 2 ^ 64)
  pure (env.tempDir ++ slash :: vdsoName)

def elfPath (name : List Byte) (address : Word) : Except Failure (List Byte) :=
  if pathKey name = pathKey vdsoName then env.dumpVdso address else .ok name

/-- The file for an entry that has none yet. -/
def newElf (name : List Byte) (address : Word) : Except Failure LoadedElf := do
  let path ← env.elfPath name address
  env.parseElf path
  pure ⟨path, address⟩

/-- The file for an entry of the list. -/
def findElf (elves : List LoadedElf) (name : List Byte) : Option LoadedElf :=
  if pathKey name = pathKey vdsoName then getElfByFilename elves name else getElfByPath elves name

/-- A file is added for an entry that has none yet. -/
def addElf (name : List Byte) (address : Word) : Eff Failure (List LoadedElf) PUnit := do
  let elves ← Eff.get
  match findElf elves name with
  | some _ => pure ⟨⟩
  | none => do
      let elf ← Eff.ofExcept (env.newElf name address)
      Eff.modify fun elves => elves ++ [elf]

/-- One round of the loop of `reload_dynamic_libraries`, for an entry with a name. -/
def reloadEntry (name : List Byte) (address : Word) : Eff Failure (List LoadedElf) PUnit := do
  env.addElf name address
  Eff.asks env.resolveBreakpoints

/-- The loop of `reload_dynamic_libraries`. -/
def reloadLoop : Nat → Word → Eff Failure (List LoadedElf) PUnit
  | 0, _ => Eff.throw .schedule
  | rounds + 1, entryPtr =>
      if entryPtr = 0 then pure ⟨⟩
      else do
        let entry ← Eff.ofExcept (env.readLinkMap entryPtr)
        let name ← Eff.ofExcept (env.readName entry.lName)
        if name = [] then reloadLoop rounds entry.lNext
        else do
          env.reloadEntry name entry.lAddr
          reloadLoop rounds entry.lNext

/-- `target::reload_dynamic_libraries`. -/
def reloadDynamicLibraries (rounds : Nat) (rendezvous : Word) :
    Eff Failure (List LoadedElf) PUnit :=
  if rendezvous = 0 then pure ⟨⟩
  else do
    let rMap ← Eff.ofExcept (env.readRMap rendezvous)
    env.reloadLoop rounds rMap

end LibraryEnv

/-- An entry of the dynamic linker's list. -/
structure LinkEntry where
  lAddr : Word
  name : List Byte
deriving DecidableEq, Repr

/-- The list of the dynamic linker, from a pointer on. -/
inductive LinkMapAt (env : LibraryEnv) : Word → List LinkEntry → Prop where
  | nil : LinkMapAt env 0 []
  | cons {pointer : Word} {entry : LinkMap} {name : List Byte} {rest : List LinkEntry}
      (hpointer : pointer ≠ 0) (hentry : env.readLinkMap pointer = .ok entry)
      (hname : env.readName entry.lName = .ok name) (hrest : LinkMapAt env entry.lNext rest) :
      LinkMapAt env pointer (⟨entry.lAddr, name⟩ :: rest)

/-- The inferior while the dynamic linker has a list. -/
structure LinkState where
  env : LibraryEnv
  entries : List LinkEntry

namespace LinkState

def named (state : LinkState) : List LinkEntry := state.entries.filter fun entry => entry.name ≠ []

/-- The list stands in memory behind the rendezvous structure. -/
def InMemory (rendezvous : Word) (state : LinkState) : Prop :=
  ∃ rMap, state.env.readRMap rendezvous = .ok rMap ∧ LinkMapAt state.env rMap state.entries

end LinkState

/-- A file is the one of an entry, at its base. -/
def LinkEntry.Mirrored (entry : LinkEntry) (elf : LoadedElf) : Prop :=
  elf.loadBias = entry.lAddr ∧
    if pathKey entry.name = pathKey vdsoName then
      pathKey (pathFilename elf.path) = pathKey vdsoName
    else pathKey elf.path = pathKey entry.name

/-- The files are the main executable and one for each entry, at its base. -/
def MirrorsEntries (main : LoadedElf) (elves : List LoadedElf) (entries : List LinkEntry) : Prop :=
  ∃ libraries order, elves = main :: libraries ∧ order.Perm entries ∧
    List.Forall₂ (fun elf entry => LinkEntry.Mirrored entry elf) libraries order

/-- What the dynamic linker and the kernel promise of the entries with a name: their
paths are different, also from that of the main executable, and no file but the vDSO
has its name. -/
structure DistinctEntries (main : LoadedElf) (entries : List LinkEntry) : Prop where
  keys : (entries.map fun entry => pathKey entry.name).Nodup
  apart : ∀ entry ∈ entries, pathKey main.path ≠ pathKey entry.name
  mainFilename : pathKey (pathFilename main.path) ≠ pathKey vdsoName
  filename : ∀ entry ∈ entries, pathKey (pathFilename entry.name) = pathKey vdsoName →
    pathKey entry.name = pathKey vdsoName

/-- The files after the dynamic linker changed its list, and reloading ran each time. -/
def elvesAfter (rounds : Nat) (rendezvous : Word) : List LinkState → List LoadedElf → List LoadedElf
  | [], elves => elves
  | state :: rest, elves => elvesAfter rounds rendezvous rest
      (state.env.reloadDynamicLibraries rounds rendezvous elves).2

/-- Reloading returned each time. -/
def ReloadsReturn (rounds : Nat) (rendezvous : Word) : List LinkState → List LoadedElf → Prop
  | [], _ => True
  | state :: rest, elves =>
      (state.env.reloadDynamicLibraries rounds rendezvous elves).1 = .ok ⟨⟩ ∧
        ReloadsReturn rounds rendezvous rest
          (state.env.reloadDynamicLibraries rounds rendezvous elves).2

/-- A change that unloads nothing: every entry with a name stays, at its base. -/
def OnlyLoads (before after : LinkState) : Prop := ∀ entry ∈ before.named, entry ∈ after.named

section Paths

theorem pathParts_ne_nil (path : List Byte) : pathParts path ≠ [] := by
  cases path with
  | nil => simp [pathParts]
  | cons byte rest =>
      rw [pathParts]
      split
      · exact List.cons_ne_nil _ _
      · split <;> exact List.cons_ne_nil _ _

theorem pathParts_slash (directory name : List Byte) :
    pathParts (directory ++ slash :: name) = pathParts directory ++ pathParts name := by
  induction directory with
  | nil => simp [pathParts]
  | cons byte rest ih =>
      simp only [List.cons_append, pathParts, ih]
      split
      · rfl
      · cases hparts : pathParts rest with
        | nil => exact absurd hparts (pathParts_ne_nil rest)
        | cons part parts => rfl

/-- The dumped vDSO has its name. -/
theorem pathFilename_vdso (directory : List Byte) :
    pathFilename (directory ++ slash :: vdsoName) = vdsoName := by
  have hname : pathParts vdsoName = [vdsoName] := by decide
  rw [pathFilename, pathParts_slash, hname, List.getLastD_concat]

theorem filename_of_key {path other : List Byte} (h : pathKey path = pathKey other) :
    pathFilename path = pathFilename other := congrArg (fun key => key.2.2) h

end Paths

section Reloading

variable {env : LibraryEnv} {main : LoadedElf} {elves elves' : List LoadedElf}
  {known entries : List LinkEntry} {entry other : LinkEntry} {elf : LoadedElf}

/-- A file is taken for that of an entry. -/
def LinkEntry.Finds (entry : LinkEntry) (elf : LoadedElf) : Prop :=
  if pathKey entry.name = pathKey vdsoName then
    pathKey (pathFilename elf.path) = pathKey vdsoName
  else pathKey elf.path = pathKey entry.name

theorem findElf_eq_none (elves : List LoadedElf) (entry : LinkEntry) :
    LibraryEnv.findElf elves entry.name = none ↔ ∀ elf ∈ elves, ¬ entry.Finds elf := by
  unfold LibraryEnv.findElf LinkEntry.Finds
  split
  · rename_i hvdso
    simp only [getElfByFilename, List.find?_eq_none, hvdso, decide_eq_true_eq]
  · simp only [getElfByPath, List.find?_eq_none, decide_eq_true_eq]

/-- The file that is created for an entry is the one that is found for it. -/
theorem newElf_mirrored (h : env.newElf entry.name entry.lAddr = .ok elf) : entry.Mirrored elf := by
  obtain ⟨path, hpath, hrest⟩ := bind_eq_ok.mp h
  obtain ⟨u, -, hdone⟩ := bind_eq_ok.mp hrest
  cases hdone
  refine ⟨rfl, ?_⟩
  unfold LibraryEnv.elfPath at hpath
  split at hpath
  · rename_i hvdso
    obtain ⟨header, -, hdump⟩ := bind_eq_ok.mp hpath
    obtain ⟨bytes, -, hdone⟩ := bind_eq_ok.mp hdump
    cases hdone
    rw [if_pos hvdso]
    exact congrArg pathKey (pathFilename_vdso env.tempDir)
  · rename_i hvdso
    cases hpath
    rw [if_neg hvdso]

/-- Among distinct entries a file is found for its own entry only. -/
theorem finds_mirrored (hdistinct : DistinctEntries main entries) (hentry : entry ∈ entries)
    (hother : other ∈ entries) (hmirrored : other.Mirrored elf) :
    entry.Finds elf ↔ entry = other := by
  have hsame : pathKey entry.name = pathKey other.name → entry = other := by
    intro hkeys
    exact List.inj_on_of_nodup_map hdistinct.keys hentry hother hkeys
  have hpath := hmirrored.2
  unfold LinkEntry.Finds
  constructor
  · intro hfinds
    by_cases hvdso : pathKey entry.name = pathKey vdsoName
    · rw [if_pos hvdso] at hfinds
      by_cases hotherVdso : pathKey other.name = pathKey vdsoName
      · exact hsame (hvdso.trans hotherVdso.symm)
      · rw [if_neg hotherVdso] at hpath
        rw [filename_of_key hpath] at hfinds
        exact absurd (hdistinct.filename other hother hfinds) hotherVdso
    · rw [if_neg hvdso] at hfinds
      by_cases hotherVdso : pathKey other.name = pathKey vdsoName
      · rw [if_pos hotherVdso, filename_of_key hfinds] at hpath
        exact absurd (hdistinct.filename entry hentry hpath) hvdso
      · rw [if_neg hotherVdso] at hpath
        exact hsame (hfinds.symm.trans hpath)
  · rintro rfl
    exact hpath

theorem not_finds_main (hdistinct : DistinctEntries main entries) (hentry : entry ∈ entries) :
    ¬ entry.Finds main := by
  unfold LinkEntry.Finds
  split
  · exact hdistinct.mainFilename
  · exact hdistinct.apart entry hentry

/-- The files are the main executable and one for each entry that is known. -/
def Tracks (main : LoadedElf) (elves : List LoadedElf) (known : List LinkEntry) : Prop :=
  ∃ libraries, elves = main :: libraries ∧
    List.Forall₂ (fun elf entry => LinkEntry.Mirrored entry elf) libraries known

theorem exists_mirror {libraries : List LoadedElf}
    (h : List.Forall₂ (fun elf entry => LinkEntry.Mirrored entry elf) libraries known) :
    (∀ elf ∈ libraries, ∃ entry ∈ known, entry.Mirrored elf) ∧
      ∀ entry ∈ known, ∃ elf ∈ libraries, entry.Mirrored elf := by
  induction h with
  | nil => simp
  | cons hfirst _ ih =>
      obtain ⟨hleft, hright⟩ := ih
      constructor
      · intro elf helf
        rcases List.mem_cons.mp helf with rfl | hin
        · exact ⟨_, List.mem_cons_self, hfirst⟩
        · obtain ⟨entry, hentry, hmirrored⟩ := hleft elf hin
          exact ⟨entry, List.mem_cons_of_mem _ hentry, hmirrored⟩
      · intro entry hentry
        rcases List.mem_cons.mp hentry with rfl | hin
        · exact ⟨_, List.mem_cons_self, hfirst⟩
        · obtain ⟨elf, helf, hmirrored⟩ := hright entry hin
          exact ⟨elf, List.mem_cons_of_mem _ helf, hmirrored⟩

/-- A known entry is found, and a new one is not. -/
theorem findElf_tracked (hdistinct : DistinctEntries main entries) (hentry : entry ∈ entries)
    (hknown : ∀ e ∈ known, e ∈ entries) (h : Tracks main elves known) :
    LibraryEnv.findElf elves entry.name = none ↔ entry ∉ known := by
  obtain ⟨libraries, rfl, hlibraries⟩ := h
  obtain ⟨hleft, hright⟩ := exists_mirror hlibraries
  rw [findElf_eq_none]
  constructor
  · intro hnone hin
    obtain ⟨elf, helf, hmirrored⟩ := hright entry hin
    exact hnone elf (List.mem_cons_of_mem main helf)
      ((finds_mirrored hdistinct hentry hentry hmirrored).mpr rfl)
  · intro hnew elf helf hfinds
    rcases List.mem_cons.mp helf with rfl | hin
    · exact not_finds_main hdistinct hentry hfinds
    · obtain ⟨other, hother, hmirrored⟩ := hleft elf hin
      have hsame := (finds_mirrored hdistinct hentry (hknown other hother) hmirrored).mp hfinds
      exact hnew (hsame ▸ hother)

/-- The known entries with one more. -/
def withEntry (known : List LinkEntry) (entry : LinkEntry) : List LinkEntry :=
  if entry ∈ known then known else known ++ [entry]

theorem mem_withEntry : other ∈ withEntry known entry ↔ other ∈ known ∨ other = entry := by
  unfold withEntry
  split
  · rename_i hin
    constructor
    · exact .inl
    · rintro (hold | rfl)
      · exact hold
      · exact hin
  · rw [List.mem_append, List.mem_singleton]

theorem nodup_withEntry (h : known.Nodup) : (withEntry known entry).Nodup := by
  unfold withEntry
  split
  · exact h
  · rename_i hnew
    simpa using h.concat hnew

/-- One round makes its entry known. -/
theorem reloadEntry_tracks (entry : LinkEntry) (hdistinct : DistinctEntries main entries)
    (hentry : entry ∈ entries) (hknown : ∀ e ∈ known, e ∈ entries) (h : Tracks main elves known)
    {u : PUnit} (hrun : env.reloadEntry entry.name entry.lAddr elves = (.ok u, elves')) :
    Tracks main elves' (withEntry known entry) := by
  obtain ⟨u', middle, hadd, hresolve⟩ := Eff.bind_eq_ok.mp hrun
  have hsame : middle = elves' := congrArg Prod.snd hresolve
  rw [LibraryEnv.addElf, Eff.bind_apply, Eff.get_apply] at hadd
  simp only at hadd
  by_cases hin : entry ∈ known
  · rw [withEntry, if_pos hin]
    have hfound : LibraryEnv.findElf elves entry.name ≠ none := fun hnone =>
      (findElf_tracked hdistinct hentry hknown h).mp hnone hin
    obtain ⟨elf, helf⟩ := Option.ne_none_iff_exists'.mp hfound
    rw [helf] at hadd
    cases hadd
    rw [← hsame]
    exact h
  · rw [withEntry, if_neg hin]
    rw [(findElf_tracked hdistinct hentry hknown h).mpr hin] at hadd
    obtain ⟨elf, middle', hnew, hpush⟩ := Eff.bind_eq_ok.mp hadd
    have helf : env.newElf entry.name entry.lAddr = .ok elf := congrArg Prod.fst hnew
    have helves : elves = middle' := congrArg Prod.snd hnew
    have hpushed : middle' ++ [elf] = middle := congrArg Prod.snd hpush
    obtain ⟨libraries, rfl, hlibraries⟩ := h
    refine ⟨libraries ++ [elf], ?_, ?_⟩
    · rw [← hsame, ← hpushed, ← helves]
      rfl
    · exact List.rel_append hlibraries (.cons (newElf_mirrored helf) .nil)

theorem reloadLoop_cons {pointer : Word} {entry : LinkMap} {name : List Byte} (rounds : Nat)
    (hpointer : pointer ≠ 0) (hentry : env.readLinkMap pointer = .ok entry)
    (hname : env.readName entry.lName = .ok name) (elves : List LoadedElf) :
    env.reloadLoop (rounds + 1) pointer elves =
      (if name = [] then env.reloadLoop rounds entry.lNext
      else do
        env.reloadEntry name entry.lAddr
        env.reloadLoop rounds entry.lNext) elves := by
  have hfirst : (Eff.ofExcept (env.readLinkMap pointer) :
      Eff Failure (List LoadedElf) LinkMap) elves = (.ok entry, elves) := by
    rw [Eff.ofExcept_apply, hentry]
  have hsecond : (Eff.ofExcept (env.readName entry.lName) :
      Eff Failure (List LoadedElf) (List Byte)) elves = (.ok name, elves) := by
    rw [Eff.ofExcept_apply, hname]
  rw [LibraryEnv.reloadLoop, if_neg hpointer, Eff.bind_of_ok hfirst, Eff.bind_of_ok hsecond]

/-- The walk through the list makes its entries with a name known. -/
theorem reloadLoop_tracks (hdistinct : DistinctEntries main entries) {pointer : Word}
    {todo : List LinkEntry} (hlist : LinkMapAt env pointer todo)
    (htodo : ∀ e ∈ todo, e.name ≠ [] → e ∈ entries) {rounds : Nat} {u : PUnit}
    (hknown : ∀ e ∈ known, e ∈ entries) (hnodup : known.Nodup) (h : Tracks main elves known)
    (hrun : env.reloadLoop rounds pointer elves = (.ok u, elves')) :
    ∃ known', Tracks main elves' known' ∧ known'.Nodup ∧
      ∀ e, e ∈ known' ↔ e ∈ known ∨ (e ∈ todo ∧ e.name ≠ []) := by
  induction hlist generalizing rounds elves known with
  | nil =>
      cases rounds with
      | zero => cases hrun
      | succ rounds =>
          cases hrun
          exact ⟨known, h, hnodup, by simp⟩
  | @cons pointer entry name rest hpointer hentry hname _ ih =>
      cases rounds with
      | zero => cases hrun
      | succ rounds =>
          have hrest : ∀ e ∈ rest, e.name ≠ [] → e ∈ entries :=
            fun e he => htodo e (List.mem_cons_of_mem _ he)
          rw [reloadLoop_cons rounds hpointer hentry hname] at hrun
          by_cases hempty : name = []
          · rw [if_pos hempty] at hrun
            obtain ⟨known', htracks, hnodup', hmem⟩ := ih hrest hknown hnodup h hrun
            refine ⟨known', htracks, hnodup', fun e => ?_⟩
            rw [hmem e, List.mem_cons]
            constructor
            · rintro (hold | ⟨hin, hnamed⟩)
              · exact .inl hold
              · exact .inr ⟨.inr hin, hnamed⟩
            · rintro (hold | ⟨rfl | hin, hnamed⟩)
              · exact .inl hold
              · exact absurd hempty hnamed
              · exact .inr ⟨hin, hnamed⟩
          · rw [if_neg hempty] at hrun
            obtain ⟨u', middle, hfirst, hlater⟩ := Eff.bind_eq_ok.mp hrun
            have hown : (⟨entry.lAddr, name⟩ : LinkEntry) ∈ entries :=
              htodo _ List.mem_cons_self hempty
            have hmiddle := reloadEntry_tracks ⟨entry.lAddr, name⟩ hdistinct hown hknown h hfirst
            have hknown' : ∀ e ∈ withEntry known ⟨entry.lAddr, name⟩, e ∈ entries := by
              intro e he
              rcases mem_withEntry.mp he with hold | rfl
              · exact hknown e hold
              · exact hown
            obtain ⟨known', htracks, hnodup', hmem⟩ :=
              ih hrest hknown' (nodup_withEntry hnodup) hmiddle hlater
            refine ⟨known', htracks, hnodup', fun e => ?_⟩
            rw [hmem e, mem_withEntry, List.mem_cons]
            constructor
            · rintro ((hold | rfl) | ⟨hlate, hnamed⟩)
              · exact .inl hold
              · exact .inr ⟨.inl rfl, hempty⟩
              · exact .inr ⟨.inr hlate, hnamed⟩
            · rintro (hold | ⟨rfl | hlate, hnamed⟩)
              · exact .inl (.inl hold)
              · exact .inl (.inr rfl)
              · exact .inr ⟨hlate, hnamed⟩

/-- Reloading makes the entries with a name known. -/
theorem reload_tracks {rounds : Nat} {rendezvous : Word} (hrendezvous : rendezvous ≠ 0)
    {state : LinkState} (hmemory : state.InMemory rendezvous)
    (hdistinct : DistinctEntries main state.named) (hknown : ∀ e ∈ known, e ∈ state.named)
    (hnodup : known.Nodup) (h : Tracks main elves known)
    (hreturn : (state.env.reloadDynamicLibraries rounds rendezvous elves).1 = .ok ⟨⟩) :
    ∃ known', Tracks main (state.env.reloadDynamicLibraries rounds rendezvous elves).2 known' ∧
      known'.Nodup ∧ ∀ e, e ∈ known' ↔ e ∈ state.named := by
  obtain ⟨rMap, hrMap, hlist⟩ := hmemory
  have hread : (Eff.ofExcept (state.env.readRMap rendezvous) :
      Eff Failure (List LoadedElf) Word) elves = (.ok rMap, elves) := by
    rw [Eff.ofExcept_apply, hrMap]
  have hloop : state.env.reloadDynamicLibraries rounds rendezvous elves =
      state.env.reloadLoop rounds rMap elves := by
    rw [LibraryEnv.reloadDynamicLibraries, if_neg hrendezvous, Eff.bind_of_ok hread]
  rw [hloop] at hreturn ⊢
  have hnamed : ∀ e, e ∈ state.named ↔ e ∈ state.entries ∧ e.name ≠ [] := by
    intro e
    simp [LinkState.named]
  obtain ⟨known', htracks, hnodup', hmem⟩ := reloadLoop_tracks hdistinct hlist
    (fun e he hname => (hnamed e).mpr ⟨he, hname⟩) hknown hnodup h (Prod.ext hreturn rfl)
  refine ⟨known', htracks, hnodup', fun e => ?_⟩
  rw [hmem e, ← hnamed e]
  constructor
  · rintro (hold | hnew)
    · exact hknown e hold
    · exact hnew
  · exact .inr

/-- Over any history in which nothing is unloaded, what is known is what the last list
has. -/
theorem elvesAfter_tracks {rounds : Nat} {rendezvous : Word} (hrendezvous : rendezvous ≠ 0)
    {history : List LinkState} {first : LinkState}
    (hmemory : ∀ state ∈ first :: history, state.InMemory rendezvous)
    (hdistinct : ∀ state ∈ first :: history, DistinctEntries main state.named)
    (hloads : (first :: history).IsChain OnlyLoads) (hknown : ∀ e ∈ known, e ∈ first.named)
    (hnodup : known.Nodup) (h : Tracks main elves known)
    (hreturn : ReloadsReturn rounds rendezvous (first :: history) elves) :
    ∃ known', Tracks main (elvesAfter rounds rendezvous (first :: history) elves) known' ∧
      known'.Nodup ∧
      ∀ e, e ∈ known' ↔ e ∈ ((first :: history).getLast (List.cons_ne_nil _ _)).named := by
  induction history generalizing first elves known with
  | nil =>
      exact reload_tracks hrendezvous (hmemory first List.mem_cons_self)
        (hdistinct first List.mem_cons_self) hknown hnodup h hreturn.1
  | cons next rest ih =>
      obtain ⟨hfirst, hrest⟩ := List.isChain_cons_cons.mp hloads
      obtain ⟨middle, htracks, hmiddle, hmem⟩ := reload_tracks hrendezvous
        (hmemory first List.mem_cons_self) (hdistinct first List.mem_cons_self) hknown hnodup h
        hreturn.1
      rw [List.getLast_cons (List.cons_ne_nil next rest)]
      exact ih (fun s hs => hmemory s (List.mem_cons_of_mem first hs))
        (fun s hs => hdistinct s (List.mem_cons_of_mem first hs)) hrest
        (fun e he => hfirst e ((hmem e).mp he)) hmiddle htracks hreturn.2

/-- In every history in which the dynamic linker only loads, the files are the main
executable and one for each entry with a name, at its base. -/
theorem elves_mirror_linkMap {rounds : Nat} {rendezvous : Word} (hrendezvous : rendezvous ≠ 0)
    {history : List LinkState} {last : LinkState}
    (hmemory : ∀ state ∈ history ++ [last], state.InMemory rendezvous)
    (hdistinct : ∀ state ∈ history ++ [last], DistinctEntries main state.named)
    (hreturn : ReloadsReturn rounds rendezvous (history ++ [last]) [main])
    (hloads : (history ++ [last]).IsChain OnlyLoads) :
    MirrorsEntries main (elvesAfter rounds rendezvous (history ++ [last]) [main]) last.named := by
  obtain ⟨first, states, hstates⟩ : ∃ first states, history ++ [last] = first :: states :=
    List.exists_cons_of_ne_nil (by simp)
  have hlast : (first :: states).getLast (List.cons_ne_nil _ _) = last := by
    simp [← hstates]
  have hstart : Tracks main [main] [] := ⟨[], rfl, .nil⟩
  have hlastDistinct := hdistinct last (by simp)
  rw [hstates] at hmemory hdistinct hreturn hloads ⊢
  obtain ⟨known, ⟨libraries, helves, hlibraries⟩, hnodup, hmem⟩ := elvesAfter_tracks hrendezvous
    hmemory hdistinct hloads (by simp) List.nodup_nil hstart hreturn
  rw [hlast] at hmem
  refine ⟨libraries, known, helves, ?_, hlibraries⟩
  exact (List.perm_ext_iff_of_nodup hnodup (List.Nodup.of_map _ hlastDistinct.keys)).mpr hmem

end Reloading

namespace DynamicLibrariesWitness

def main : LoadedElf := ⟨[slash, 0x6d], 0⟩

/-- One library, `/a`, behind the rendezvous structure at 0x1000. -/
def libraryByte (base : Byte) (address : Word) : Byte :=
  if address = 0x1009 then 0x20
  else if address = 0x2001 then base
  else if address = 0x2009 then 0x30
  else if address = 0x3000 then slash
  else if address = 0x3001 then 0x61
  else 0

def envOf (byteAt : Word → Byte) : LibraryEnv where
  readMemory address size :=
    .ok ((List.range size).map fun i => byteAt (address + BitVec.ofNat 64 i))
  tempDir := [slash, 0x74]
  parseElf _ := .ok ⟨⟩
  resolveBreakpoints _ := .ok ⟨⟩

/-- The library is loaded at a base. -/
def loadedAt (base : Byte) : LinkState :=
  ⟨envOf (libraryByte base), [⟨BitVec.ofNat 64 (256 * base.toNat), [slash, 0x61]⟩]⟩

/-- Nothing is loaded. -/
def nothingLoaded : LinkState := ⟨envOf fun _ => 0, []⟩

theorem loadedAt_inMemory (base : Byte) (hbase : base = 0x50 ∨ base = 0x60) :
    (loadedAt base).InMemory 0x1000 := by
  refine ⟨0x2000, ?_, ?_⟩
  · rcases hbase with rfl | rfl <;> decide +kernel
  · have hentry : (loadedAt base).env.readLinkMap 0x2000 =
        .ok ⟨BitVec.ofNat 64 (256 * base.toNat), 0x3000, 0⟩ := by
      rcases hbase with rfl | rfl <;> decide +kernel
    have hname : (loadedAt base).env.readName 0x3000 = .ok [slash, 0x61] := by
      rcases hbase with rfl | rfl <;> decide +kernel
    exact LinkMapAt.cons (by decide) hentry hname LinkMapAt.nil

theorem nothingLoaded_inMemory : nothingLoaded.InMemory 0x1000 :=
  ⟨0, by decide +kernel, LinkMapAt.nil⟩

theorem loadedAt_distinct (base : Byte) : DistinctEntries main (loadedAt base).named := by
  constructor
  · change ([pathKey [slash, 0x61]]).Nodup
    decide
  · intro entry hentry
    obtain rfl := List.mem_singleton.mp hentry
    change pathKey [slash, 0x6d] ≠ pathKey [slash, 0x61]
    decide
  · decide
  · intro entry hentry hname
    obtain rfl := List.mem_singleton.mp hentry
    change pathKey (pathFilename [slash, 0x61]) = pathKey vdsoName at hname
    exact absurd hname (by decide)

theorem nothingLoaded_distinct : DistinctEntries main nothingLoaded.named :=
  ⟨List.nodup_nil, nofun, by decide, nofun⟩

/-- A library that was unloaded stays, and one that was loaded again elsewhere keeps its
old base. -/
theorem unloaded_library_stays :
    ((∀ state ∈ [loadedAt 0x50, nothingLoaded], state.InMemory 0x1000) ∧
      (∀ state ∈ [loadedAt 0x50, nothingLoaded], DistinctEntries main state.named) ∧
      ReloadsReturn 2 0x1000 [loadedAt 0x50, nothingLoaded] [main] ∧
      ¬ MirrorsEntries main (elvesAfter 2 0x1000 [loadedAt 0x50, nothingLoaded] [main])
        nothingLoaded.named) ∧
    ((∀ state ∈ [loadedAt 0x50, loadedAt 0x60], state.InMemory 0x1000) ∧
      (∀ state ∈ [loadedAt 0x50, loadedAt 0x60], DistinctEntries main state.named) ∧
      ReloadsReturn 2 0x1000 [loadedAt 0x50, loadedAt 0x60] [main] ∧
      ¬ MirrorsEntries main (elvesAfter 2 0x1000 [loadedAt 0x50, loadedAt 0x60] [main])
        (loadedAt 0x60).named) := by
  have hlibrary : ∀ state, state = nothingLoaded ∨ state = loadedAt 0x60 →
      elvesAfter 2 0x1000 [loadedAt 0x50, state] [main] = [main, ⟨[slash, 0x61], 0x5000⟩] := by
    rintro state (rfl | rfl) <;> decide +kernel
  refine ⟨⟨?_, ?_, ?_, ?_⟩, ⟨?_, ?_, ?_, ?_⟩⟩
  · intro state hstate
    rcases List.mem_pair.mp hstate with rfl | rfl
    · exact loadedAt_inMemory 0x50 (.inl rfl)
    · exact nothingLoaded_inMemory
  · intro state hstate
    rcases List.mem_pair.mp hstate with rfl | rfl
    · exact loadedAt_distinct 0x50
    · exact nothingLoaded_distinct
  · exact ⟨by decide +kernel, by decide +kernel, trivial⟩
  · rintro ⟨libraries, order, helves, horder, hmirrored⟩
    rw [hlibrary nothingLoaded (.inl rfl)] at helves
    obtain rfl := (List.cons.inj helves).2
    have hlength := hmirrored.length_eq.trans horder.length_eq
    exact absurd hlength (by decide)
  · intro state hstate
    rcases List.mem_pair.mp hstate with rfl | rfl
    · exact loadedAt_inMemory 0x50 (.inl rfl)
    · exact loadedAt_inMemory 0x60 (.inr rfl)
  · intro state hstate
    rcases List.mem_pair.mp hstate with rfl | rfl
    · exact loadedAt_distinct 0x50
    · exact loadedAt_distinct 0x60
  · exact ⟨by decide +kernel, by decide +kernel, trivial⟩
  · rintro ⟨libraries, order, helves, horder, hmirrored⟩
    rw [hlibrary (loadedAt 0x60) (.inr rfl)] at helves
    obtain rfl := (List.cons.inj helves).2
    obtain rfl := List.perm_singleton.mp horder
    obtain ⟨hfirst, -⟩ := List.forall₂_cons.mp hmirrored
    exact absurd hfirst.1 (by decide)

/-- A library is loaded, and the linker runs once more with nothing changed. -/
theorem elves_mirror_linkMap_loaded :
    MirrorsEntries main (elvesAfter 2 0x1000 [nothingLoaded, loadedAt 0x50, loadedAt 0x50] [main])
      (loadedAt 0x50).named := by
  refine @elves_mirror_linkMap main 2 0x1000 (by decide) [nothingLoaded, loadedAt 0x50]
    (loadedAt 0x50) ?_ ?_ ?_ ?_
  · intro state hstate
    rcases (by simpa using hstate : state = nothingLoaded ∨ state = loadedAt 0x50) with rfl | rfl
    · exact nothingLoaded_inMemory
    · exact loadedAt_inMemory 0x50 (.inl rfl)
  · intro state hstate
    rcases (by simpa using hstate : state = nothingLoaded ∨ state = loadedAt 0x50) with rfl | rfl
    · exact nothingLoaded_distinct
    · exact loadedAt_distinct 0x50
  · exact ⟨by decide +kernel, by decide +kernel, by decide +kernel, trivial⟩
  · refine List.isChain_cons_cons.mpr ⟨nofun, ?_⟩
    exact List.isChain_cons_cons.mpr ⟨fun _ he => he, List.IsChain.singleton _⟩

end DynamicLibrariesWitness

end Gsdb
