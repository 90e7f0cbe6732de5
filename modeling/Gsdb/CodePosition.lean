/-
Where expressions are evaluated.  The unwinder looks up a caller in front of its
return address; expressions and location lists are evaluated at the return
address itself.  The two agree where the return address is still inside the
function and inside the entry of the location list.
-/
import Gsdb.CodeLookups
import Gsdb.StackFrames

namespace Gsdb

open ByteMemory ByteCursor

/-- A location list of a unit: the bytes from its offset to the end of
`.debug_loc`, and the low address of the unit. -/
structure LocationList where
  bytes : List Byte
  base : Word

namespace LocationList

/-- Every entry takes sixteen bytes at least. -/
def select (list : LocationList) (pc : Word) : Except Failure (Option LocationEntry) :=
  selectLocation pc (list.bytes.length + 1) ⟨list.bytes, 0⟩ list.base

/-- The entries from a cursor up to the end of the list. -/
def entriesFrom : Nat → Cursor → Word → Except Failure (List LocationEntry)
  | 0, _, _ => .error .schedule
  | rounds + 1, cur, base => do
      let (first, cur) ← inBounds cur.u64
      let (second, cur) ← inBounds cur.u64
      if first = 0 ∧ second = 0 then pure []
      else if first = -1 then entriesFrom rounds cur second
      else do
        let (length, cur) ← inBounds cur.u16
        let rest ← entriesFrom rounds (cur.advance length.toNat) base
        pure (⟨base + first, base + second, cur.pos, length.toNat⟩ :: rest)

def entries (list : LocationList) : Except Failure (List LocationEntry) :=
  entriesFrom (list.bytes.length + 1) ⟨list.bytes, 0⟩ list.base

end LocationList

/-- A file of the collection with its debug information, as an expression of the
file sees it. -/
structure LoadedFile where
  elves : ElfCollection
  position : Nat
  debug : DebugFile

namespace LoadedFile

/-- `func` in `dwarf_expression::eval` and `location_list::eval`: the function at
the program counter in the registers. -/
def evaluationFunction (file : LoadedFile) (regs : Registers) : Except Failure (Option Die) := do
  let rip ← regs.readU64 .rip
  file.debug.functionContainingAddress file.position (toFileAddrIn file.elves file.position rip)

/-- The function whose `DW_AT_frame_base` is taken by `DW_OP_fbreg`. -/
def frameBaseFunction (file : LoadedFile) (regs : Registers) : Except Failure Die := do
  match ← file.evaluationFunction regs with
  | none => .error (.exception "bad_optional_access")
  | some die => pure die

/-- The entry that `location_list::eval` evaluates. -/
def evaluationEntry (file : LoadedFile) (regs : Registers) (list : LocationList) :
    Except Failure (Option LocationEntry) := do
  let rip ← regs.readU64 .rip
  let _ ← file.evaluationFunction regs
  list.select (toFileAddrIn file.elves file.position rip).addr

end LoadedFile

/-- Expressions of a frame are evaluated where the unwinder looked it up: in the
function that it found there, and with the first entry of a location list that is
for the address. -/
structure EvaluatesAtLookup (file : LoadedFile) (physical : PhysicalFrame) (frame : StackFrame)
    (list : LocationList) (entries : List LocationEntry) : Prop where
  function : ∃ die inlined, physical.inlineStack = die :: inlined ∧
    file.frameBaseFunction frame.regs = .ok die
  entry : file.evaluationEntry frame.regs list =
    .ok (entries.find? fun entry => entry.contains physical.pc.addr)

/-- A function of the index is a regular one and contains an address of the file. -/
def DebugFile.Contains (file : DebugFile) (address : Word) (entry : List Byte × IndexEntry)
    (die : Die) : Prop :=
  parseDie entry.2.cu entry.2.pos = .ok die ∧ ∃ parsed, die.entry = some parsed ∧
    Die.containsAddress file.ranges die.cu parsed address = .ok true ∧
    parsed.abbrevEntry.tag = tagSubprogram

/-- A function of the index can be read, and is not a regular one that contains an
address. -/
def DebugFile.Misses (file : DebugFile) (address : Word) (entry : List Byte × IndexEntry) : Prop :=
  ∃ die parsed found, parseDie entry.2.cu entry.2.pos = .ok die ∧ die.entry = some parsed ∧
    Die.containsAddress file.ranges die.cu parsed address = .ok found ∧
    ¬ (found = true ∧ parsed.abbrevEntry.tag = tagSubprogram)

/-- A function contains an address, and none in front of it in the index does. -/
def DebugFile.FirstContaining (file : DebugFile) (address : Word) (die : Die) : Prop :=
  ∃ before entry after, file.functions = before ++ entry :: after ∧
    (∀ other ∈ before, file.Misses address other) ∧ file.Contains address entry die

/-- The return address is inside: it belongs to the file, the function of the
frame is the first that contains it, the entry for the address in front of it does
not end there, and the entry for it does not begin there. -/
structure ReturnsInside (file : LoadedFile) (physical : PhysicalFrame)
    (entries : List LocationEntry) (returnAddress : FileAddr) : Prop where
  inFile : returnAddress.elf = some file.position
  function : ∃ die inlined, physical.inlineStack = die :: inlined ∧
    file.debug.FirstContaining returnAddress.addr die
  before : ∀ entry, entries.find? (fun entry => entry.contains physical.pc.addr) = some entry →
    entry.high ≠ returnAddress.addr
  behind : ∀ entry, entries.find? (fun entry => entry.contains returnAddress.addr) = some entry →
    entry.low ≠ returnAddress.addr

section Lists

theorem selectLocation_eq {entries : List LocationEntry} (pc : Word) (rounds : Nat) :
    ∀ (cur : Cursor) (base : Word), LocationList.entriesFrom rounds cur base = .ok entries →
      selectLocation pc rounds cur base = .ok (entries.find? fun entry => entry.contains pc) := by
  induction rounds generalizing entries with
  | zero => intro cur base h; cases h
  | succ rounds ih =>
      intro cur base h
      obtain ⟨⟨first, cur'⟩, hfirst, h⟩ := bind_eq_ok.mp h
      obtain ⟨⟨second, cur''⟩, hsecond, h⟩ := bind_eq_ok.mp h
      simp only [selectLocation, hfirst, hsecond, ok_bind]
      simp only at h
      split at h
      · rename_i hend
        cases h
        rw [if_pos hend]
        rfl
      rename_i hend
      rw [if_neg hend]
      split at h
      · rename_i hbase
        rw [if_pos hbase]
        exact ih _ _ h
      rename_i hbase
      rw [if_neg hbase]
      obtain ⟨⟨length, cur'''⟩, hlength, h⟩ := bind_eq_ok.mp h
      obtain ⟨rest, hrest, h⟩ := bind_eq_ok.mp h
      cases h
      simp only [hlength, ok_bind, List.find?_cons]
      split
      · rename_i hcontains
        rw [hcontains]
        rfl
      · rename_i hcontains
        rw [Bool.not_eq_true] at hcontains
        rw [hcontains]
        exact ih _ _ hrest

/-- Two searches end at the same element where each accepts what the other finds. -/
theorem find_eq_find_iff {α : Type} {left right : α → Bool} {list : List α} :
    list.find? left = list.find? right ↔
      (∀ a, list.find? right = some a → left a = true) ∧
        ∀ a, list.find? left = some a → right a = true := by
  constructor
  · intro heq
    refine ⟨fun a ha => ?_, fun a ha => ?_⟩
    · rw [← heq] at ha
      exact List.find?_some ha
    · rw [heq] at ha
      exact List.find?_some ha
  · intro h
    induction list with
    | nil => rfl
    | cons head tail ih =>
        obtain ⟨hright, hleft⟩ := h
        rw [List.find?_cons, List.find?_cons] at *
        cases hheadLeft : left head <;> cases hheadRight : right head <;>
          simp only [hheadLeft, hheadRight] at hright hleft ⊢
        · exact ih ⟨hright, hleft⟩
        · exact absurd (hright head rfl) (by rw [hheadLeft]; decide)
        · exact absurd (hleft head rfl) (by rw [hheadRight]; decide)

/-- Two neighbouring addresses have the same entry unless an entry ends or begins
between them. -/
theorem find_next_iff {entries : List LocationEntry} {address next : Word}
    (hnext : next = address + 1) (hwrap : next ≠ 0) :
    entries.find? (fun entry => entry.contains next) =
        entries.find? (fun entry => entry.contains address) ↔
      (∀ entry, entries.find? (fun entry => entry.contains address) = some entry →
        entry.high ≠ next) ∧
      ∀ entry, entries.find? (fun entry => entry.contains next) = some entry →
        entry.low ≠ next := by
  have hnat : next.toNat = address.toNat + 1 := by
    have hpos : next.toNat ≠ 0 := fun hzero => hwrap (BitVec.eq_of_toNat_eq hzero)
    have hone : (1 : Word).toNat = 1 := rfl
    rw [hnext, BitVec.toNat_add, hone] at hpos ⊢
    omega
  rw [find_eq_find_iff]
  refine and_congr (forall_congr' fun entry => imp_congr_right fun hfound => ?_)
    (forall_congr' fun entry => imp_congr_right fun hfound => ?_)
  · have hcontains := List.find?_some hfound
    simp only [LocationEntry.contains, ge_iff_le, Bool.and_eq_true, decide_eq_true_eq,
      BitVec.le_def, BitVec.lt_def, ne_eq, ← BitVec.toNat_inj] at hcontains ⊢
    omega
  · have hcontains := List.find?_some hfound
    simp only [LocationEntry.contains, ge_iff_le, Bool.and_eq_true, decide_eq_true_eq,
      BitVec.le_def, BitVec.lt_def, ne_eq, ← BitVec.toNat_inj] at hcontains ⊢
    omega

end Lists

section Functions

variable {file : DebugFile} {address : Word} {die : Die}

theorem functionAt_cons {entry : List Byte × IndexEntry}
    {rest : List (List Byte × IndexEntry)} :
    Dwarf.functionAt file.ranges address (entry :: rest) = .ok (some die) ↔
      file.Contains address entry die ∨
        (file.Misses address entry ∧
          Dwarf.functionAt file.ranges address rest = .ok (some die)) := by
  constructor
  · intro h
    obtain ⟨found, hparse, h⟩ := bind_eq_ok.mp h
    split at h
    · cases h
    rename_i parsed hentry
    obtain ⟨contains, hcontains, h⟩ := bind_eq_ok.mp h
    split at h
    · rename_i hboth
      cases h
      rw [Bool.and_eq_true, decide_eq_true_eq] at hboth
      refine .inl ⟨hparse, parsed, hentry, ?_, hboth.2⟩
      rw [hcontains, hboth.1]
    · rename_i hboth
      rw [Bool.and_eq_true, decide_eq_true_eq] at hboth
      exact .inr ⟨⟨found, parsed, contains, hparse, hentry, hcontains, hboth⟩, h⟩
  · rintro (⟨hparse, parsed, hentry, hcontains, htag⟩ |
      ⟨⟨found, parsed, contains, hparse, hentry, hcontains, hmiss⟩, hrest⟩)
    · simp only [Dwarf.functionAt, hparse, ok_bind, hentry, hcontains, htag]
      rfl
    · simp only [Dwarf.functionAt, hparse, ok_bind, hentry, hcontains]
      rw [if_neg (by rw [Bool.and_eq_true, decide_eq_true_eq]; exact hmiss)]
      exact hrest

/-- The search through the index finds the first function that contains an
address. -/
theorem functionAt_eq_some_iff {entries : List (List Byte × IndexEntry)} :
    Dwarf.functionAt file.ranges address entries = .ok (some die) ↔
      ∃ before entry after, entries = before ++ entry :: after ∧
        (∀ other ∈ before, file.Misses address other) ∧ file.Contains address entry die := by
  induction entries with
  | nil =>
      constructor
      · intro h
        cases h
      · rintro ⟨before, entry, after, heq, -⟩
        cases before <;> cases heq
  | cons first rest ih =>
      rw [functionAt_cons, ih]
      constructor
      · rintro (hcontains | ⟨hmiss, before, entry, after, rfl, hbefore, hcontains⟩)
        · exact ⟨[], first, rest, rfl, fun other hmem => absurd hmem List.not_mem_nil, hcontains⟩
        · refine ⟨first :: before, entry, after, rfl, fun other hmem => ?_, hcontains⟩
          rcases List.mem_cons.mp hmem with rfl | hmem
          · exact hmiss
          · exact hbefore other hmem
      · rintro ⟨before, entry, after, heq, hbefore, hcontains⟩
        cases before with
        | nil =>
            cases heq
            exact .inl hcontains
        | cons head before =>
            cases heq
            exact .inr ⟨hbefore first List.mem_cons_self, before, entry, after, rfl,
              fun other hmem => hbefore other (List.mem_cons_of_mem _ hmem), hcontains⟩

theorem not_last_lt (high : Word) : ¬ (-1 : Word) < high := by
  intro hlt
  have hnat := BitVec.lt_def.mp hlt
  have hone : (-1 : Word).toNat = 2 ^ 64 - 1 := rfl
  have hhigh := high.isLt
  omega

/-- No range reaches behind the last address. -/
theorem rangeListContains_last (rounds : Nat) : ∀ (cur : Cursor) (base : Word),
    Die.rangeListContains (-1) rounds cur base ≠ .ok true := by
  induction rounds with
  | zero => intro cur base h; cases h
  | succ rounds ih =>
      intro cur base h
      obtain ⟨⟨low, cur'⟩, -, h⟩ := bind_eq_ok.mp h
      obtain ⟨⟨high, cur''⟩, -, h⟩ := bind_eq_ok.mp h
      simp only at h
      split at h
      · exact ih _ _ h
      split at h
      · cases h
      split at h
      · rename_i hinside
        exact not_last_lt _ hinside.2
      · exact ih _ _ h

theorem containsAddress_last {ranges : List Byte} {cu : CompileUnit} {entry : DieEntry} :
    Die.containsAddress ranges cu entry (-1) ≠ .ok true := by
  intro h
  unfold Die.containsAddress at h
  split at h
  · obtain ⟨list, -, h⟩ := bind_eq_ok.mp h
    obtain ⟨offset, -, h⟩ := bind_eq_ok.mp h
    obtain ⟨base, -, h⟩ := bind_eq_ok.mp h
    exact rangeListContains_last _ _ _ h
  split at h
  · obtain ⟨low, -, h⟩ := bind_eq_ok.mp h
    split at h
    · obtain ⟨high, -, h⟩ := bind_eq_ok.mp h
      exact not_last_lt high (of_decide_eq_true (Except.ok.inj h))
    · cases h
  · cases h

theorem DebugFile.FirstContaining.addr_ne_last (h : file.FirstContaining address die) :
    address ≠ -1 := by
  rintro rfl
  obtain ⟨before, entry, after, -, -, -, parsed, -, hcontains, -⟩ := h
  exact containsAddress_last hcontains

end Functions

section Positions

variable {env : StackEnv} {m : Machine} {regs : Registers} {virtPc : Word}
  {result : Except Failure Unit} {rounds : Nat}

/-- Where the unwinder looked up a physical frame, and what the program counter of
its frames is: that address in the innermost frame, the one behind it in callers. -/
structure LookedUpAt (env : StackEnv) (depth : Nat) (physical : PhysicalFrame) (lookup : Word) :
    Prop where
  pc : physical.pc = toFileAddr env.elves lookup
  stack : env.inlineStackAtAddress physical.pc = .ok physical.inlineStack
  nonempty : physical.inlineStack ≠ []
  rip : ∀ frame ∈ physical.frames,
    frame.regs.readU64 .rip = .ok (if depth = 0 then lookup else lookup + 1)

/-- Unwinding sets the CFA of the frame and leaves its program counter. -/
theorem unwind_rip {env : UnwindEnv} {pc : FileAddr} {callee : Registers}
    {outcome : Except Failure Registers} (h : env.unwind pc regs = (callee, outcome)) :
    callee.readU64 .rip = regs.readU64 .rip := by
  unfold UnwindEnv.unwind at h
  split at h
  · obtain rfl := congrArg Prod.fst h
    rfl
  split at h
  · obtain rfl := congrArg Prod.fst h
    rfl
  unfold UnwindEnv.executeUnwindRules at h
  split at h
  · obtain rfl := congrArg Prod.fst h
    rfl
  · obtain rfl := congrArg Prod.fst h
    rfl

theorem setLastRegs_rip {frames : List StackFrame} {callee : Registers} {rip : Word}
    (hframes : ∀ frame ∈ frames, frame.regs.readU64 .rip = .ok rip)
    (hcallee : callee.readU64 .rip = .ok rip) :
    ∀ frame ∈ setLastRegs frames callee, frame.regs.readU64 .rip = .ok rip := by
  rcases List.eq_nil_or_concat frames with rfl | ⟨before, last, rfl⟩
  · exact fun frame hmem => absurd hmem List.not_mem_nil
  · rw [List.concat_eq_append, setLastRegs_append] at *
    intro frame hmem
    rcases List.mem_append.mp hmem with hmem | hmem
    · exact hframes frame (List.mem_append_left _ hmem)
    · obtain rfl := List.mem_singleton.mp hmem
      exact hcallee

/-- The physical frame of a round. -/
def UnwindRound.created : UnwindRound → Option PhysicalFrame
  | .done created _ => created
  | .next created _ _ => some created

/-- The frames of a round are created for functions at its address, and the last
of them is given other registers with the same program counter. -/
theorem unwindCaller_created {physical created : PhysicalFrame}
    (h : (env.unwindCaller m physical).created = some created) :
    ∃ callee cfa, callee.readU64 .rip = physical.regs.readU64 .rip ∧
      created = ⟨physical.regs, physical.pc, physical.inlineStack,
        setLastRegs physical.frames callee, cfa⟩ := by
  cases hround : env.unwindCaller m physical with
  | done first outcome =>
      rw [hround] at h
      obtain ⟨callee, outcome, hunwind, hcreated⟩ := unwindCaller_done hround
      exact ⟨callee, _, unwind_rip hunwind, Option.some.inj (h.symm.trans hcreated)⟩
  | next first caller callerPc =>
      rw [hround] at h
      obtain ⟨callee, rip, hunwind, -, -, hcreated⟩ := unwindCaller_next hround
      exact ⟨callee, _, unwind_rip hunwind, (Option.some.inj h).symm.trans hcreated⟩

theorem unwindRound_lookedUp {depth : Nat} {physical : PhysicalFrame}
    (hrip : regs.readU64 .rip = .ok (if depth = 0 then virtPc else virtPc + 1))
    (h : (env.unwindRound m regs virtPc).created = some physical) :
    LookedUpAt env depth physical virtPc := by
  have hcase := unwindRound_case env m regs virtPc
  generalize env.unwindRound m regs virtPc = round at hcase h
  cases hcase with
  | nothing => cases h
  | @failed inlineStack outer inner frames failure hstack hreverse hframes =>
      obtain rfl := Option.some.inj h
      refine ⟨rfl, hstack, List.reverse_ne_nil_iff.mp (hreverse ▸ List.cons_ne_nil _ _),
        fun frame hmem => ?_⟩
      rw [createFrames_regs hframes frame hmem]
      exact hrip
  | @created inlineStack outer inner frames hstack hreverse hframes =>
      obtain ⟨callee, cfa, hcallee, rfl⟩ := unwindCaller_created h
      refine ⟨rfl, hstack, List.reverse_ne_nil_iff.mp (hreverse ▸ List.cons_ne_nil _ _),
        setLastRegs_rip (fun frame hmem => ?_) (hcallee.trans hrip)⟩
      rw [createFrames_regs hframes frame hmem]
      exact hrip

/-- The callers are looked up in front of the return addresses that their frames
have as program counters. -/
theorem unwindRound_callerRip {physical : PhysicalFrame} {caller : Registers} {callerPc : Word}
    (h : env.unwindRound m regs virtPc = .next physical caller callerPc) :
    caller.readU64 .rip = .ok (callerPc + 1) := by
  have hcase := unwindRound_case env m regs virtPc
  generalize env.unwindRound m regs virtPc = round at hcase h
  cases hcase with
  | nothing => cases h
  | failed => cases h
  | created hstack hreverse hframes =>
      obtain ⟨callee, rip, -, hread, rfl, -⟩ := unwindCaller_next h
      rw [hread, BitVec.sub_add_cancel]

theorem unwindLoop_lookedUp : ∀ {depth : Nat} {regs : Registers} {virtPc : Word}
    {created : List PhysicalFrame} {result : Except Failure Unit},
    env.unwindLoop m rounds regs virtPc = (created, result) →
    regs.readU64 .rip = .ok (if depth = 0 then virtPc else virtPc + 1) →
    ∀ {i : Nat} {physical : PhysicalFrame}, created[i]? = some physical →
      ∃ lookup, LookedUpAt env (depth + i) physical lookup := by
  induction rounds with
  | zero =>
      intro depth regs virtPc created result h _ i physical hphysical
      obtain rfl : [] = created := congrArg Prod.fst h
      cases hphysical
  | succ rounds ih =>
      intro depth regs virtPc created result h hrip i physical hphysical
      rw [StackEnv.unwindLoop] at h
      split at h
      · rename_i first outcome hround
        obtain rfl : first.toList = created := congrArg Prod.fst h
        cases first with
        | none => cases hphysical
        | some first =>
            cases i with
            | zero =>
                obtain rfl := Option.some.inj hphysical
                exact ⟨virtPc, unwindRound_lookedUp hrip (by rw [hround]; rfl)⟩
            | succ i => cases hphysical
      · rename_i first caller callerPc hround
        obtain rfl : first :: _ = created := congrArg Prod.fst h
        cases i with
        | zero =>
            obtain rfl := Option.some.inj hphysical
            exact ⟨virtPc, unwindRound_lookedUp hrip (by rw [hround]; rfl)⟩
        | succ i =>
            have hcaller : caller.readU64 .rip =
                .ok (if depth + 1 = 0 then callerPc else callerPc + 1) := by
              rw [if_neg (Nat.succ_ne_zero depth)]
              exact unwindRound_callerRip hround
            obtain ⟨lookup, hlookup⟩ := ih rfl hcaller hphysical
            rw [Nat.add_assoc, Nat.add_comm 1 i] at hlookup
            exact ⟨lookup, hlookup⟩

theorem physicalFrames_lookedUp {tid : Tid} {physical : List PhysicalFrame}
    (h : Stack.physicalFrames env m tid rounds = .ok (physical, result)) {depth : Nat}
    {frame : PhysicalFrame} (hframe : physical[depth]? = some frame) :
    ∃ lookup, LookedUpAt env depth frame lookup := by
  obtain ⟨virtPc, hpc, h⟩ := bind_eq_ok.mp h
  obtain ⟨regs, hregs, h⟩ := bind_eq_ok.mp h
  obtain ⟨regs', hregs', hrip⟩ := bind_eq_ok.mp hpc
  rw [hregs] at hregs'
  obtain rfl := Except.ok.inj hregs'
  split at h
  · obtain rfl : [] = physical := congrArg Prod.fst (Except.ok.inj h)
    cases hframe
  · have hstart : regs.readU64 .rip = .ok (if 0 = 0 then virtPc else virtPc + 1) := hrip
    obtain ⟨lookup, hlookup⟩ := unwindLoop_lookedUp (Except.ok.inj h) hstart hframe
    rw [Nat.zero_add] at hlookup
    exact ⟨lookup, hlookup⟩

end Positions

section Translation

variable {elves : ElfCollection} {position : Nat} {address offset : Word}

theorem toFileAddrIn_elf {found : Nat}
    (h : (toFileAddrIn elves found address).elf = some position) :
    found = position := by
  unfold toFileAddrIn at h
  split at h
  · cases h
  split at h
  · cases h
  · exact Option.some.inj h

theorem toFileAddr_elf (h : (toFileAddr elves address).elf = some position) :
    toFileAddrIn elves position address = toFileAddr elves address := by
  cases hfound : elves.getElfContainingAddress address with
  | none =>
      simp only [toFileAddr, hfound] at h
      cases h
  | some found =>
      simp only [toFileAddr, hfound] at h ⊢
      rw [toFileAddrIn_elf h]

/-- An address of a file is moved by its load bias. -/
theorem toFileAddrIn_addr (h : (toFileAddrIn elves position address).elf = some position) :
    ∃ elf, elves[position]? = some elf ∧
      (toFileAddrIn elves position address).addr = address - elf.loadBias := by
  unfold toFileAddrIn at h ⊢
  cases helf : elves[position]? with
  | none =>
      rw [helf] at h
      cases h
  | some elf =>
      simp only [helf] at h ⊢
      cases hsection : elf.sectionContainingVirtAddress address with
      | none =>
          rw [hsection] at h
          cases h
      | some header => exact ⟨elf, rfl, rfl⟩

/-- The distance of two addresses is that of their file addresses. -/
theorem toFileAddrIn_add (h : (toFileAddrIn elves position address).elf = some position)
    (hnext : (toFileAddrIn elves position (address + offset)).elf = some position) :
    (toFileAddrIn elves position (address + offset)).addr =
      (toFileAddrIn elves position address).addr + offset := by
  obtain ⟨elf, helf, haddr⟩ := toFileAddrIn_addr h
  obtain ⟨elf', helf', haddr'⟩ := toFileAddrIn_addr hnext
  obtain rfl := Option.some.inj (helf.symm.trans helf')
  rw [haddr, haddr']
  ring

end Translation

section Evaluation

variable {env : StackEnv} {files : Nat → DebugFile} {fileNames : CompileUnit → List (List Byte)}
  {file : LoadedFile} {depth : Nat} {physical : PhysicalFrame} {lookup : Word}

/-- The functions at an address start with the one that contains it. -/
theorem inlineStackAtAddress_head {debug : DebugFile} {position : Nat} {address : FileAddr}
    {dies : List Die} (h : debug.inlineStackAtAddress position address = .ok dies)
    (hsome : dies ≠ []) :
    ∃ die inlined, dies = die :: inlined ∧
      debug.functionContainingAddress position address = .ok (some die) := by
  obtain ⟨found, hfound, h⟩ := bind_eq_ok.mp h
  cases found with
  | none =>
      cases h
      exact absurd rfl hsome
  | some die =>
      simp only [DebugFile.inlineStackFrom] at h
      obtain ⟨child, -, h⟩ := bind_eq_ok.mp h
      cases child with
      | none =>
          cases h
          exact ⟨die, [], rfl, hfound⟩
      | some child =>
          obtain ⟨rest, -, h⟩ := bind_eq_ok.mp h
          cases h
          exact ⟨die, rest, rfl, hfound⟩

theorem functionContainingAddress_eq_some_iff {debug : DebugFile} {position : Nat}
    {address : FileAddr} {die : Die} :
    debug.functionContainingAddress position address = .ok (some die) ↔
      address.elf = some position ∧ debug.FirstContaining address.addr die := by
  unfold DebugFile.functionContainingAddress
  constructor
  · intro h
    split at h
    · rename_i helf
      exact ⟨helf, functionAt_eq_some_iff.mp h⟩
    · obtain ⟨dies, -, h⟩ := bind_eq_ok.mp h
      cases h
  · rintro ⟨helf, hfirst⟩
    rw [if_pos helf]
    exact functionAt_eq_some_iff.mpr hfirst

theorem frameBaseFunction_eq_ok_iff {regs : Registers} {rip : Word} {die : Die}
    (hrip : regs.readU64 .rip = .ok rip) :
    file.frameBaseFunction regs = .ok die ↔
      (toFileAddrIn file.elves file.position rip).elf = some file.position ∧
        file.debug.FirstContaining (toFileAddrIn file.elves file.position rip).addr die := by
  rw [← functionContainingAddress_eq_some_iff]
  unfold LoadedFile.frameBaseFunction LoadedFile.evaluationFunction
  rw [hrip, ok_bind]
  constructor
  · intro h
    obtain ⟨found, hfound, h⟩ := bind_eq_ok.mp h
    cases found with
    | none => cases h
    | some found =>
        cases h
        exact hfound
  · intro h
    rw [h]
    rfl

/-- The address that an expression of a frame is evaluated at, where its function is
found. -/
theorem evaluationEntry_eq {regs : Registers} {rip : Word} {die : Die} {list : LocationList}
    {entries : List LocationEntry} (hrip : regs.readU64 .rip = .ok rip)
    (hfunction : file.frameBaseFunction regs = .ok die) (hlist : list.entries = .ok entries) :
    file.evaluationEntry regs list = .ok (entries.find? fun entry =>
      entry.contains (toFileAddrIn file.elves file.position rip).addr) := by
  obtain ⟨found, hfound, -⟩ := bind_eq_ok.mp hfunction
  unfold LoadedFile.evaluationEntry
  rw [hrip, ok_bind, hfound, ok_bind]
  exact selectLocation_eq _ _ _ _ hlist

end Evaluation

/-- Expressions of a frame are evaluated where the unwinder looked it up if it is
the innermost physical frame, and in callers exactly if the return address is
inside the function and inside the entry of the location list. -/
theorem evaluatesAtLookup_iff (env : StackEnv) (files : Nat → DebugFile)
    (fileNames : CompileUnit → List (List Byte)) (m : Machine) (tid : Tid) (rounds : Nat)
    (stack : Stack) (frames : List PhysicalFrame) (result : Except Failure Unit)
    (hheight : (Stack.resetInlineHeight (env.withDebugInfo files fileNames) m tid stack).2 =
      .ok ⟨⟩)
    (h : Stack.physicalFrames (env.withDebugInfo files fileNames) m tid rounds =
      .ok (frames, result)) :
    (Stack.unwind (env.withDebugInfo files fileNames) m tid rounds stack).1.frames =
        frames.flatMap PhysicalFrame.frames ∧
      ∀ (depth : Nat) (physical : PhysicalFrame), frames[depth]? = some physical →
      ∀ frame ∈ physical.frames, ∀ (position : Nat) (rip : Word),
        physical.pc.elf = some position → frame.regs.readU64 .rip = .ok rip →
      ∀ (list : LocationList) (entries : List LocationEntry), list.entries = .ok entries →
        (EvaluatesAtLookup ⟨env.elves, position, files position⟩ physical frame list entries ↔
          depth = 0 ∨ ReturnsInside ⟨env.elves, position, files position⟩ physical entries
            (toFileAddrIn env.elves position rip)) := by
  refine ⟨unwind_frames hheight h, ?_⟩
  intro depth physical hphysical frame hframe position rip hposition hrip list entries hlist
  obtain ⟨lookup, hlookup⟩ := physicalFrames_lookedUp h hphysical
  have hpc : physical.pc = toFileAddr env.elves lookup := hlookup.pc
  have hstack : (files position).inlineStackAtAddress position physical.pc =
      .ok physical.inlineStack := by
    have hstack := hlookup.stack
    simp only [StackEnv.withDebugInfo, hposition] at hstack
    exact hstack
  obtain ⟨die, inlined, hdies, hfunction⟩ := inlineStackAtAddress_head hstack hlookup.nonempty
  have hread := hlookup.rip frame hframe
  rw [hrip] at hread
  have hrip' := Except.ok.inj hread
  have hin : toFileAddrIn env.elves position lookup = physical.pc := by
    rw [hpc] at hposition ⊢
    exact toFileAddr_elf hposition
  obtain ⟨hfile, hfirst⟩ := functionContainingAddress_eq_some_iff.mp hfunction
  cases depth with
  | zero =>
      obtain rfl : rip = lookup := hrip'
      refine ⟨fun _ => .inl rfl, fun _ => ?_⟩
      have hbase : LoadedFile.frameBaseFunction ⟨env.elves, position, files position⟩ frame.regs =
          .ok die := by
        rw [frameBaseFunction_eq_ok_iff hrip]
        simp only [hin]
        exact ⟨hposition, hfirst⟩
      refine ⟨⟨die, inlined, hdies, hbase⟩, ?_⟩
      rw [evaluationEntry_eq hrip hbase hlist]
      simp only [hin]
  | succ depth =>
      obtain rfl : rip = lookup + 1 := hrip'
      have hnext : (toFileAddrIn env.elves position (lookup + 1)).elf = some position →
          (toFileAddrIn env.elves position (lookup + 1)).addr = physical.pc.addr + 1 ∧
            (toFileAddrIn env.elves position (lookup + 1)).addr ≠ 0 := by
        intro helf
        have hadd := toFileAddrIn_add (by rw [hin]; exact hposition) helf
        rw [hin] at hadd
        refine ⟨hadd, fun hzero => hfirst.addr_ne_last ?_⟩
        rw [hadd] at hzero
        exact eq_neg_of_add_eq_zero_left hzero
      constructor
      · rintro ⟨⟨other, rest, hother, hbase⟩, hentry⟩
        obtain ⟨helf, hcontains⟩ := (frameBaseFunction_eq_ok_iff hrip).mp hbase
        obtain ⟨hadd, hwrap⟩ := hnext helf
        rw [evaluationEntry_eq hrip hbase hlist] at hentry
        obtain ⟨hbefore, hbehind⟩ := (find_next_iff hadd hwrap).mp (Except.ok.inj hentry)
        exact .inr ⟨helf, ⟨other, rest, hother, hcontains⟩, hbefore, hbehind⟩
      · rintro (hzero | ⟨helf, ⟨other, rest, hother, hcontains⟩, hbefore, hbehind⟩)
        · cases hzero
        obtain ⟨hadd, hwrap⟩ := hnext helf
        have hbase : LoadedFile.frameBaseFunction ⟨env.elves, position, files position⟩
            frame.regs = .ok other :=
          (frameBaseFunction_eq_ok_iff hrip).mpr ⟨helf, hcontains⟩
        refine ⟨⟨other, rest, hother, hbase⟩, ?_⟩
        rw [evaluationEntry_eq hrip hbase hlist]
        exact congrArg Except.ok ((find_next_iff hadd hwrap).mpr ⟨hbefore, hbehind⟩)

namespace CodePositionWitness

open StackWitness (tables stoppedAt)

/-- A program with two functions of sixteen bytes, one behind the other. -/
def program : Elf :=
  ⟨tables, [⟨".text", 6, 0x1000, 0x1000, 0x20⟩, ⟨".eh_frame_hdr", 2, 0, 0, 20⟩,
    ⟨".eh_frame", 2, 20, 20, 44⟩], 0⟩

def functionEntry : Abbrev :=
  ⟨2, tagSubprogram, false, [⟨atLowPc, .addr⟩, ⟨atHighPc, .data1⟩]⟩

def cu : CompileUnit :=
  ⟨0, [32, 0, 0, 0, 4, 0, 0, 0, 0, 0, 8, 1, 2, 0, 0x10, 0, 0, 0, 0, 0, 0, 0x10,
    2, 0x10, 0x10, 0, 0, 0, 0, 0, 0, 0x10, 0], [⟨1, 0x11, true, []⟩, functionEntry]⟩

def caller : Die := ⟨cu, 22, some ⟨12, functionEntry, [13, 21]⟩⟩

def neighbour : Die := ⟨cu, 32, some ⟨22, functionEntry, [23, 31]⟩⟩

def debug : DebugFile := ⟨⟨[], [], [cu]⟩, [], [([0x66], ⟨cu, 12⟩), ([0x67], ⟨cu, 22⟩)]⟩

def env : StackEnv where
  elves := [program]
  ehHdr := fun _ => ⟨0, 12, 1, 0x3b⟩
  inlineStackAtAddress := fun _ => .ok []
  lowPc := fun _ => .ok ⟨some 0, 0⟩
  location := fun _ => .ok ⟨none, 1⟩
  lineEntryAtAddress := fun _ => .ok none
  frameBase := fun _ => .ok none
  enumerate := fun rules => rules.entries.map fun rule => (rule.1, rule.2)
  rounds := 0
  depth := 0

/-- A thread in the first function, called from in front of an address. -/
def calledFrom (returnAddress : Word) : Machine :=
  stoppedAt (Memory.write (fun _ => 0) 0x7008 (toLe 8 returnAddress.toNat)) 0x1006 0x1006 1

def framesOf (m : Machine) : List PhysicalFrame :=
  match Stack.physicalFrames (env.withDebugInfo (fun _ => debug) fun _ => []) m 1 3 with
  | .ok (frames, _) => frames
  | .error _ => []

/-- Whether the frames of a thread are found without a failure. -/
def unwinds (m : Machine) : Bool :=
  match Stack.physicalFrames (env.withDebugInfo (fun _ => debug) fun _ => []) m 1 3 with
  | .ok (_, .ok _) => true
  | _ => false

theorem physicalFrames_framesOf {m : Machine} (h : unwinds m = true) :
    Stack.physicalFrames (env.withDebugInfo (fun _ => debug) fun _ => []) m 1 3 =
      .ok (framesOf m, .ok ⟨⟩) := by
  unfold unwinds at h
  unfold framesOf
  split at h
  · next frames _ hframes => rw [hframes]
  · cases h

def file : LoadedFile := ⟨[program], 0, debug⟩

/-- Where a physical frame was looked up and what was found there; and for its
frames, the program counter and the function that expressions are evaluated in. -/
def summary (physical : PhysicalFrame) :
    FileAddr × List Die × List (Option Word × Option Die) :=
  (physical.pc, physical.inlineStack, physical.frames.map fun frame =>
    ((frame.regs.readU64 .rip).toOption, (file.frameBaseFunction frame.regs).toOption))

theorem toOption_eq_some {α : Type} {x : Except Failure α} {a : α} (h : x.toOption = some a) :
    x = .ok a := by
  cases x with
  | error failure => cases h
  | ok value => rw [Option.some.inj h]

theorem frame_of_summary {m : Machine} {pc : FileAddr} {dies : List Die} {rip : Word} {die : Die}
    (h : ((framesOf m)[1]?).map summary = some (pc, dies, [(some rip, some die)])) :
    ∃ physical frame, (framesOf m)[1]? = some physical ∧ frame ∈ physical.frames ∧
      physical.pc = pc ∧ physical.inlineStack = dies ∧ frame.regs.readU64 .rip = .ok rip ∧
      file.frameBaseFunction frame.regs = .ok die := by
  obtain ⟨physical, hphysical, hsummary⟩ := Option.map_eq_some_iff.mp h
  obtain ⟨hpc, hrest⟩ := Prod.mk.inj hsummary
  obtain ⟨hdies, hframes⟩ := Prod.mk.inj hrest
  obtain ⟨frame, hframe, hread⟩ := List.map_eq_singleton_iff.mp hframes
  obtain ⟨hrip, hdie⟩ := Prod.mk.inj hread
  exact ⟨physical, frame, hphysical, by rw [hframe]; exact List.mem_singleton_self _, hpc, hdies,
    toOption_eq_some hrip, toOption_eq_some hdie⟩

/-- A location list with one entry, for the first function. -/
def locations : LocationList :=
  ⟨[0, 0x10, 0, 0, 0, 0, 0, 0, 0x10, 0x10, 0, 0, 0, 0, 0, 0, 0, 0] ++ List.replicate 16 0, 0⟩

def entry : LocationEntry := ⟨0x1000, 0x1010, 18, 0⟩

/-- The call was the last instruction of the first function: `DW_OP_fbreg` takes the
frame base of the second, and no entry of the location list is selected. -/
theorem last_call_not_evaluatesAtLookup :
    (Stack.resetInlineHeight (env.withDebugInfo (fun _ => debug) fun _ => []) (calledFrom 0x1010)
      1 ⟨0, [], 0⟩).2 = .ok ⟨⟩ ∧
    Stack.physicalFrames (env.withDebugInfo (fun _ => debug) fun _ => []) (calledFrom 0x1010) 1 3 =
      .ok (framesOf (calledFrom 0x1010), .ok ⟨⟩) ∧
    ∃ physical frame, (framesOf (calledFrom 0x1010))[1]? = some physical ∧
      frame ∈ physical.frames ∧ physical.pc = ⟨some 0, 0x100f⟩ ∧ locations.entries = .ok [entry] ∧
      (∀ inlined, physical.inlineStack = caller :: inlined →
        file.frameBaseFunction frame.regs ≠ .ok caller) ∧
      ¬ EvaluatesAtLookup file physical frame locations [entry] := by
  refine ⟨by decide +kernel, physicalFrames_framesOf (by decide +kernel), ?_⟩
  obtain ⟨physical, frame, hphysical, hframe, hpc, hdies, hrip, hbase⟩ :=
    @frame_of_summary (calledFrom 0x1010) ⟨some 0, 0x100f⟩ [caller] 0x1010 neighbour
      (by decide +kernel)
  have hother : file.frameBaseFunction frame.regs ≠ .ok caller := by
    rw [hbase]
    intro heq
    exact absurd (Except.ok.inj heq) (by decide)
  refine ⟨physical, frame, hphysical, hframe, hpc, rfl, fun _ _ => hother, ?_⟩
  rintro ⟨⟨die, inlined, hstack, hfunction⟩, -⟩
  rw [hdies] at hstack
  cases hstack
  exact hother hfunction

/-- The call is inside the function, and the return address is inside the entry. -/
theorem evaluatesAtLookup_iff_inside :
    ∃ physical frame, (framesOf (calledFrom 0x1008))[1]? = some physical ∧
      frame ∈ physical.frames ∧ physical.pc = ⟨some 0, 0x1007⟩ ∧
      EvaluatesAtLookup file physical frame locations [entry] := by
  obtain ⟨physical, frame, hphysical, hframe, hpc, hdies, hrip, hbase⟩ :=
    @frame_of_summary (calledFrom 0x1008) ⟨some 0, 0x1007⟩ [caller] 0x1008 caller
      (by decide +kernel)
  refine ⟨physical, frame, hphysical, hframe, hpc, ?_⟩
  have hframes := @physicalFrames_framesOf (calledFrom 0x1008) (by decide +kernel)
  have hentries : locations.entries = .ok [entry] := by decide +kernel
  have hiff := (evaluatesAtLookup_iff env (fun _ => debug) (fun _ => []) (calledFrom 0x1008) 1 3
    ⟨0, [], 0⟩ (framesOf (calledFrom 0x1008)) (.ok ⟨⟩) (by decide +kernel) hframes).2 1 physical
    hphysical frame hframe 0 0x1008 (by rw [hpc]) hrip locations [entry] hentries
  refine hiff.mpr (.inr ⟨rfl, ⟨caller, [], hdies, ?_⟩, ?_, ?_⟩)
  · exact ((frameBaseFunction_eq_ok_iff hrip).mp hbase).2
  · rw [hpc]
    intro found hfound
    obtain rfl := Option.some.inj hfound
    decide
  · intro found hfound
    obtain rfl := Option.some.inj hfound
    decide

end CodePositionWitness

end Gsdb
