/-
What the frames of a stack carry and which of them is selected.  The frames of
one physical frame hold copies of its registers, of which only the last has the
canonical frame address; the inline height is counted at the program counter of
the current thread.
-/
import Gsdb.Stack

namespace Gsdb

open ByteMemory

section Registers

variable {env : UnwindEnv} {file : Elf} {cfa : Word} {old regs unwound caller callee : Registers}

theorem writeData_cfa {info : RegisterInfo} {value : Value}
    (h : regs.writeData info value = .ok unwound) : unwound.cfa = regs.cfa := by
  unfold Registers.writeData at h
  split at h
  · obtain rfl := Except.ok.inj h
    rfl
  · cases h

theorem executeRule_cfa {reg : BitVec 32} {rule : RegisterRule}
    (h : env.executeRule file old cfa regs reg rule = .ok unwound) :
    unwound.cfa = regs.cfa := by
  obtain ⟨info, -, h⟩ := bind_eq_ok.mp h
  split at h
  · obtain rfl := Except.ok.inj h
    rfl
  · obtain ⟨value, -, h⟩ := bind_eq_ok.mp h
    cases value with
    | none =>
        obtain rfl := Except.ok.inj h
        rfl
    | some value => exact writeData_cfa h

theorem executeRules_cfa {rules : List (BitVec 32 × RegisterRule)}
    (h : env.executeRules file old cfa rules regs = .ok unwound) :
    unwound.cfa = regs.cfa := by
  induction rules generalizing regs with
  | nil =>
      obtain rfl := Except.ok.inj h
      rfl
  | cons rule rest ih =>
      obtain ⟨next, hnext, h⟩ := bind_eq_ok.mp h
      rw [ih h, executeRule_cfa hnext]

/-- The registers of the caller keep the CFA that was in the registers of the
frame before. -/
theorem unwind_cfa {pc : FileAddr} (h : env.unwind pc regs = (callee, .ok caller)) :
    caller.cfa = regs.cfa := by
  unfold UnwindEnv.unwind at h
  split at h
  · cases (congrArg Prod.snd h)
  · split at h
    · cases (congrArg Prod.snd h)
    · unfold UnwindEnv.executeUnwindRules at h
      split at h
      · cases (congrArg Prod.snd h)
      · obtain ⟨rsp, -, hwritten⟩ := bind_eq_ok.mp (congrArg Prod.snd h)
        obtain ⟨written, hwrite, hrules⟩ := bind_eq_ok.mp hwritten
        rw [executeRules_cfa hrules, writeData_cfa hwrite]

end Registers

section Creation

variable {env : StackEnv} {regs : Registers} {frames : List StackFrame}

theorem createInlineStackFrames_regs {dies : List Die} {result : Except Failure Unit}
    (h : env.createInlineStackFrames regs dies = (frames, result)) :
    ∀ frame ∈ frames, frame.regs = regs := by
  induction dies generalizing frames result with
  | nil =>
      obtain rfl : [] = frames := congrArg Prod.fst h
      simp
  | cons inner rest ih =>
      cases rest with
      | nil =>
          obtain rfl : [] = frames := congrArg Prod.fst h
          simp
      | cons die rest =>
          rw [StackEnv.createInlineStackFrames] at h
          split at h
          · obtain rfl : [] = frames := congrArg Prod.fst h
            simp
          · obtain rfl := congrArg Prod.fst h
            intro frame hframe
            rcases List.mem_cons.mp hframe with rfl | hmem
            · rfl
            · exact ih rfl frame hmem

theorem createInlineStackFrames_length {dies : List Die}
    (h : env.createInlineStackFrames regs dies = (frames, .ok ⟨⟩)) :
    frames.length = dies.length - 1 := by
  induction dies generalizing frames with
  | nil =>
      obtain rfl : [] = frames := congrArg Prod.fst h
      rfl
  | cons inner rest ih =>
      cases rest with
      | nil =>
          obtain rfl : [] = frames := congrArg Prod.fst h
          rfl
      | cons die rest =>
          rw [StackEnv.createInlineStackFrames] at h
          split at h
          · cases (congrArg Prod.snd h)
          · have hresult := congrArg Prod.snd h
            obtain rfl := congrArg Prod.fst h
            have hrest : (env.createInlineStackFrames regs (die :: rest)).1.length =
                (die :: rest).length - 1 := ih (Prod.ext rfl hresult)
            simp only [List.length_cons] at hrest ⊢
            omega

theorem createBaseFrame_regs {die : Die} {pc : FileAddr} {inlined : Bool} {frame : StackFrame}
    (h : env.createBaseFrame regs die pc inlined = .ok frame) : frame.regs = regs := by
  obtain ⟨virt, -, h⟩ := bind_eq_ok.mp h
  obtain ⟨row, -, h⟩ := bind_eq_ok.mp h
  cases row with
  | none =>
      obtain rfl := Except.ok.inj h
      rfl
  | some row =>
      obtain ⟨virt, -, h⟩ := bind_eq_ok.mp h
      obtain rfl := Except.ok.inj h
      rfl

theorem createFrames_regs {pc : FileAddr} {inner : Die} {outer : List Die}
    {result : Except Failure Unit} (h : env.createFrames regs pc inner outer = (frames, result)) :
    ∀ frame ∈ frames, frame.regs = regs := by
  unfold StackEnv.createFrames at h
  split at h
  · obtain rfl : [] = frames := congrArg Prod.fst h
    simp
  · rename_i base hbase
    obtain rfl := congrArg Prod.fst h
    intro frame hframe
    rcases List.mem_cons.mp hframe with rfl | hmem
    · exact createBaseFrame_regs hbase
    · exact createInlineStackFrames_regs rfl frame hmem

/-- A frame for every function at the program counter. -/
theorem createFrames_length {pc : FileAddr} {inner : Die} {outer : List Die}
    (h : env.createFrames regs pc inner outer = (frames, .ok ⟨⟩)) :
    frames.length = outer.length + 1 := by
  unfold StackEnv.createFrames at h
  split at h
  · cases (congrArg Prod.snd h)
  · have hresult := congrArg Prod.snd h
    obtain rfl := congrArg Prod.fst h
    have hrest : (env.createInlineStackFrames regs (inner :: outer)).1.length =
        (inner :: outer).length - 1 := createInlineStackFrames_length (Prod.ext rfl hresult)
    simp only [List.length_cons] at hrest ⊢
    omega

theorem setLastRegs_append (before : List StackFrame) (last : StackFrame) (regs : Registers) :
    setLastRegs (before ++ [last]) regs = before ++ [{ last with regs := regs }] := by
  simp [setLastRegs]

theorem length_setLastRegs (frames : List StackFrame) (regs : Registers) :
    (setLastRegs frames regs).length = frames.length := by
  rcases List.eq_nil_or_concat frames with rfl | ⟨before, last, rfl⟩
  · rfl
  · rw [List.concat_eq_append, setLastRegs_append]
    simp

end Creation

/-- A physical frame that was unwound: a frame for every function, with the
registers before unwinding in all but the last. -/
structure UnwoundFrame (physical : PhysicalFrame) (cfa : Word) : Prop where
  split : ∃ before last callee, physical.frames = before ++ [last] ∧
    (∀ frame ∈ before, frame.regs = physical.regs) ∧ last.regs = callee ∧ callee.cfa = cfa
  length : physical.frames.length = physical.inlineStack.length

section Rounds

variable {env : StackEnv} {m : Machine} {regs caller : Registers} {virtPc callerPc cfa : Word}
  {physical : PhysicalFrame}

theorem unwoundFrame_of_created {pc : FileAddr} {inlineStack : List Die} {inner : Die}
    {outer : List Die} {frames : List StackFrame} (hstack : inlineStack.reverse = inner :: outer)
    (hframes : env.createFrames regs pc inner outer = (frames, .ok ⟨⟩)) (callee : Registers)
    (recorded : Option Word) :
    UnwoundFrame ⟨regs, pc, inlineStack, setLastRegs frames callee, recorded⟩ callee.cfa := by
  have hlength := createFrames_length hframes
  have hregs := createFrames_regs hframes
  have hstackLength := congrArg List.length hstack
  simp only [List.length_reverse, List.length_cons] at hstackLength
  constructor
  · rcases List.eq_nil_or_concat frames with rfl | ⟨before, last, rfl⟩
    · simp at hlength
    · refine ⟨before, { last with regs := callee }, callee, ?_, fun frame hmem => ?_, rfl, rfl⟩
      · rw [List.concat_eq_append]
        exact setLastRegs_append before last callee
      · exact hregs frame (by simp [hmem])
  · change (setLastRegs frames callee).length = inlineStack.length
    rw [length_setLastRegs, hlength, hstackLength]

/-- A physical frame as a round of the loop creates it. -/
structure FrameCreated (env : StackEnv) (regs : Registers) (virtPc : Word)
    (physical : PhysicalFrame) : Prop where
  regs : physical.regs = regs
  pc : physical.pc = toFileAddr env.elves virtPc
  stack : env.inlineStackAtAddress physical.pc = .ok physical.inlineStack
  unwound : ∀ cfa, physical.cfa = some cfa → UnwoundFrame physical cfa

/-- The ways in which a round of the loop can go: nothing is created, the creation
of frames fails, or all frames are created and the last is unwound. -/
inductive RoundCase (env : StackEnv) (m : Machine) (regs : Registers) (virtPc : Word) :
    UnwindRound → Prop where
  | nothing {result : Except Failure Unit} : RoundCase env m regs virtPc (.done none result)
  | failed {inlineStack outer : List Die} {inner : Die} {frames : List StackFrame}
      {failure : Failure}
      (hstack : env.inlineStackAtAddress (toFileAddr env.elves virtPc) = .ok inlineStack)
      (hreverse : inlineStack.reverse = inner :: outer)
      (hframes : env.createFrames regs (toFileAddr env.elves virtPc) inner outer =
        (frames, .error failure)) :
      RoundCase env m regs virtPc
        (.done (some ⟨regs, toFileAddr env.elves virtPc, inlineStack, frames, none⟩)
          (.error failure))
  | created {inlineStack outer : List Die} {inner : Die} {frames : List StackFrame}
      (hstack : env.inlineStackAtAddress (toFileAddr env.elves virtPc) = .ok inlineStack)
      (hreverse : inlineStack.reverse = inner :: outer)
      (hframes : env.createFrames regs (toFileAddr env.elves virtPc) inner outer =
        (frames, .ok ⟨⟩)) :
      RoundCase env m regs virtPc
        (env.unwindCaller m ⟨regs, toFileAddr env.elves virtPc, inlineStack, frames, none⟩)

theorem unwindRound_case (env : StackEnv) (m : Machine) (regs : Registers) (virtPc : Word) :
    RoundCase env m regs virtPc (env.unwindRound m regs virtPc) := by
  unfold StackEnv.unwindRound
  simp only
  split
  · exact .nothing
  split
  · exact .nothing
  rename_i inlineStack hstack
  split
  · exact .nothing
  rename_i inner outer hreverse
  split
  · rename_i failure hfailed
    exact .failed hstack hreverse (Prod.ext rfl hfailed)
  · rename_i hcreated
    exact .created hstack hreverse (Prod.ext rfl hcreated)

/-- The caller was unwound, and the lookup goes on in front of its return
address. -/
theorem unwindCaller_next {created : PhysicalFrame}
    (h : env.unwindCaller m physical = .next created caller callerPc) :
    ∃ callee rip, (env.unwindEnv m).unwind physical.pc physical.regs = (callee, .ok caller) ∧
      caller.readU64 .rip = .ok rip ∧ callerPc = rip - 1 ∧
      created = ⟨physical.regs, physical.pc, physical.inlineStack,
        setLastRegs physical.frames callee, some callee.cfa⟩ := by
  simp only [StackEnv.unwindCaller] at h
  split at h
  · cases h
  rename_i next rip hcaller
  obtain ⟨caller', hunwind, hrip⟩ := bind_eq_ok.mp hcaller
  obtain ⟨rip', hread, hpair⟩ := bind_eq_ok.mp hrip
  obtain ⟨rfl, rfl⟩ := Prod.mk.inj (Except.ok.inj hpair)
  injection h with hphysical hnext hpc
  subst hphysical hnext hpc
  exact ⟨_, rip', Prod.ext rfl hunwind, hread, rfl, rfl⟩

theorem unwindCaller_done {created : Option PhysicalFrame} {result : Except Failure Unit}
    (h : env.unwindCaller m physical = .done created result) :
    ∃ callee outcome, (env.unwindEnv m).unwind physical.pc physical.regs = (callee, outcome) ∧
      created = some ⟨physical.regs, physical.pc, physical.inlineStack,
        setLastRegs physical.frames callee, outcome.toOption.map fun _ => callee.cfa⟩ := by
  simp only [StackEnv.unwindCaller] at h
  split at h
  · injection h with hphysical hresult
    exact ⟨_, _, rfl, hphysical.symm⟩
  · cases h

/-- A round that goes on has created all frames and unwound the last. -/
theorem unwindRound_next (h : env.unwindRound m regs virtPc = .next physical caller callerPc) :
    FrameCreated env regs virtPc physical ∧
      physical.frames.length = physical.inlineStack.length ∧
      ∃ callee, (env.unwindEnv m).unwind (toFileAddr env.elves virtPc) regs =
        (callee, .ok caller) ∧ physical.cfa = some callee.cfa := by
  have hcase := unwindRound_case env m regs virtPc
  generalize hround : env.unwindRound m regs virtPc = round at hcase h
  cases hcase with
  | nothing => cases h
  | failed => cases h
  | created hstack hreverse hframes =>
      obtain ⟨callee, rip, hunwind, -, -, rfl⟩ := unwindCaller_next h
      have hcreated := unwoundFrame_of_created hreverse hframes callee (some callee.cfa)
      refine ⟨⟨rfl, rfl, hstack, fun cfa hcfa => ?_⟩, hcreated.length, callee, hunwind, rfl⟩
      obtain rfl := Option.some.inj hcfa
      exact hcreated

/-- A round that ends the loop has created all frames unless it failed. -/
theorem unwindRound_done {result : Except Failure Unit}
    (h : env.unwindRound m regs virtPc = .done (some physical) result) :
    FrameCreated env regs virtPc physical ∧
      (result = .ok ⟨⟩ → physical.frames.length = physical.inlineStack.length) := by
  have hcase := unwindRound_case env m regs virtPc
  generalize hround : env.unwindRound m regs virtPc = round at hcase h
  cases hcase with
  | nothing => cases h
  | failed hstack hreverse hframes =>
      injection h with hphysical hresult
      obtain rfl := Option.some.inj hphysical
      refine ⟨⟨rfl, rfl, hstack, fun cfa hcfa => by cases hcfa⟩, fun hok => ?_⟩
      rw [hok] at hresult
      cases hresult
  | created hstack hreverse hframes =>
      obtain ⟨callee, outcome, -, hphysical⟩ := unwindCaller_done h
      obtain rfl := Option.some.inj hphysical
      have hcreated := unwoundFrame_of_created hreverse hframes callee
      refine ⟨⟨rfl, rfl, hstack, fun cfa hcfa => ?_⟩, fun _ => (hcreated _).length⟩
      obtain ⟨-, -, rfl⟩ := Option.map_eq_some_iff.mp hcfa
      exact hcreated _

end Rounds

section Loop

variable {env : StackEnv} {m : Machine} {regs : Registers} {virtPc : Word}
  {created : List PhysicalFrame} {result : Except Failure Unit} {rounds : Nat}

/-- Every physical frame of the loop, in order; the registers carry one CFA from
frame to frame. -/
theorem unwindLoop_created (h : env.unwindLoop m rounds regs virtPc = (created, result)) :
    ∀ physical ∈ created, ∃ virtPc, physical.regs.cfa = regs.cfa ∧
      FrameCreated env physical.regs virtPc physical := by
  induction rounds generalizing regs virtPc created result with
  | zero =>
      obtain rfl : [] = created := congrArg Prod.fst h
      simp
  | succ rounds ih =>
      rw [StackEnv.unwindLoop] at h
      intro physical hmem
      split at h
      · rename_i first _ hround
        obtain rfl : first.toList = created := congrArg Prod.fst h
        obtain rfl : first = some physical := Option.mem_toList.mp hmem
        obtain ⟨hcreated, -⟩ := unwindRound_done hround
        obtain rfl := hcreated.regs
        exact ⟨virtPc, rfl, hcreated⟩
      · rename_i first caller callerPc hround
        obtain ⟨hcreated, -, callee, hunwind, -⟩ := unwindRound_next hround
        obtain rfl : first :: _ = created := congrArg Prod.fst h
        rcases List.mem_cons.mp hmem with rfl | hrest
        · obtain rfl := hcreated.regs
          exact ⟨virtPc, rfl, hcreated⟩
        · obtain ⟨pc, hcfa, hphysical⟩ := ih rfl physical hrest
          exact ⟨pc, hcfa.trans (unwind_cfa hunwind), hphysical⟩

/-- A loop that does not fail has created all frames of its first physical
frame. -/
theorem unwindLoop_first {first : PhysicalFrame} {rest : List PhysicalFrame}
    (h : env.unwindLoop m rounds regs virtPc = (first :: rest, .ok ⟨⟩)) :
    FrameCreated env regs virtPc first ∧
      first.frames.length = first.inlineStack.length := by
  cases rounds with
  | zero => cases (congrArg Prod.snd h)
  | succ rounds =>
      rw [StackEnv.unwindLoop] at h
      split at h
      · rename_i physical _ hround
        have hlist : physical.toList = first :: rest := congrArg Prod.fst h
        have hsome : physical = some first := by
          apply Option.mem_toList.mp
          rw [hlist]
          exact List.mem_cons_self
        subst hsome
        obtain ⟨hcreated, hlength⟩ := unwindRound_done hround
        exact ⟨hcreated, hlength (congrArg Prod.snd h)⟩
      · rename_i physical caller callerPc hround
        obtain ⟨hcreated, hlength, -⟩ := unwindRound_next hround
        have hlist := congrArg Prod.fst h
        obtain ⟨rfl, -⟩ := List.cons.inj hlist
        exact ⟨hcreated, hlength⟩

end Loop

/-- Every frame of a physical frame that was unwound carries its CFA. -/
def PhysicalFrame.CarriesCfa (physical : PhysicalFrame) : Prop :=
  ∀ cfa, physical.cfa = some cfa → ∀ frame ∈ physical.frames, frame.regs.cfa = cfa

theorem carriesCfa_iff {physical : PhysicalFrame}
    (h : ∀ cfa, physical.cfa = some cfa → UnwoundFrame physical cfa) :
    physical.CarriesCfa ↔ ∀ cfa, physical.cfa = some cfa →
      physical.inlineStack.length = 1 ∨ cfa = physical.regs.cfa := by
  constructor
  · intro hcarries cfa hcfa
    obtain ⟨before, last, callee, hframes, hbefore, -, -⟩ := (h cfa hcfa).split
    have hlength := (h cfa hcfa).length
    cases before with
    | nil =>
        left
        rw [← hlength, hframes]
        rfl
    | cons first rest =>
        right
        have hfirst := hcarries cfa hcfa first (by rw [hframes]; exact List.mem_cons_self)
        rw [hbefore first List.mem_cons_self] at hfirst
        exact hfirst.symm
  · intro hcondition cfa hcfa frame hframe
    obtain ⟨before, last, callee, hframes, hbefore, hlast, hcallee⟩ := (h cfa hcfa).split
    have hlength := (h cfa hcfa).length
    rw [hframes] at hframe hlength
    rcases List.mem_append.mp hframe with hmem | hmem
    · rcases hcondition cfa hcfa with hone | hsame
      · have hempty : before = [] := by
          rw [List.length_append, hone] at hlength
          exact List.length_eq_zero_iff.mp (Nat.succ_injective hlength)
        rw [hempty] at hmem
        cases hmem
      · rw [hbefore frame hmem, hsame]
    · obtain rfl := List.mem_singleton.mp hmem
      rw [hlast, hcallee]

/-- The frames of a stack are those of the physical frames. -/
theorem unwind_frames {env : StackEnv} {m : Machine} {tid : Tid} {rounds : Nat} {stack : Stack}
    {physical : List PhysicalFrame} {result : Except Failure Unit}
    (hheight : (Stack.resetInlineHeight env m tid stack).2 = .ok ⟨⟩)
    (hphysical : Stack.physicalFrames env m tid rounds = .ok (physical, result)) :
    (Stack.unwind env m tid rounds stack).1.frames =
      physical.flatMap PhysicalFrame.frames := by
  rw [Stack.unwind]
  split
  · rename_i hfailed
    rw [hfailed] at hheight
    cases hheight
  · rw [hphysical]

/-- The frames of a thread are those of its physical frames, and all of them
carry the CFA of their physical frame where no physical frame that was unwound
has inlined functions.  A copy without the CFA carries what the registers of the
thread have in its place. -/
theorem frames_carry_cfa_iff (env : StackEnv) (m : Machine) (tid : Tid) (rounds : Nat)
    (stack : Stack) (physical : List PhysicalFrame) (result : Except Failure Unit)
    (regs : Registers) (hheight : (Stack.resetInlineHeight env m tid stack).2 = .ok ⟨⟩)
    (hphysical : Stack.physicalFrames env m tid rounds = .ok (physical, result))
    (hregs : m.getRegisters (some tid) = .ok regs) :
    (Stack.unwind env m tid rounds stack).1.frames = physical.flatMap PhysicalFrame.frames ∧
      ((∀ frame ∈ physical, frame.CarriesCfa) ↔
        ∀ frame ∈ physical, ∀ cfa, frame.cfa = some cfa →
          frame.inlineStack.length = 1 ∨ cfa = regs.cfa) := by
  constructor
  · exact unwind_frames hheight hphysical
  · have hcreated : ∀ frame ∈ physical, frame.regs.cfa = regs.cfa ∧
        ∀ cfa, frame.cfa = some cfa → UnwoundFrame frame cfa := by
      obtain ⟨virtPc, -, hloop⟩ := bind_eq_ok.mp hphysical
      rw [hregs, ok_bind] at hloop
      split at hloop
      · obtain rfl : [] = physical := congrArg Prod.fst (Except.ok.inj hloop)
        simp
      · intro frame hframe
        obtain ⟨pc, hcfa, hframeCreated⟩ :=
          unwindLoop_created (Except.ok.inj hloop) frame hframe
        exact ⟨hcfa, hframeCreated.unwound⟩
    refine forall₂_congr fun frame hframe => ?_
    obtain ⟨hcfa, hunwound⟩ := hcreated frame hframe
    rw [carriesCfa_iff hunwound, hcfa]

namespace StackWitness

/-- A search table with one row, a CIE whose rules find the frame pointer and the
return address below the CFA, and an FDE for sixteen bytes of code. -/
def tables : List Byte :=
  [0x01, 0x1b, 0x03, 0x3b, 0x10, 0, 0, 0, 1, 0, 0, 0, 0, 0x10, 0, 0, 0x2c, 0, 0, 0] ++
  [0x14, 0, 0, 0, 0, 0, 0, 0, 1, 0x7a, 0x52, 0, 1, 0x78, 0x10, 1, 0x1b] ++
  [0x0c, 6, 16, 0x90, 1, 0x86, 2] ++
  [0x10, 0, 0, 0, 0x1c, 0, 0, 0, 0xcc, 0x0f, 0, 0, 0x10, 0, 0, 0, 0, 0, 0, 0]

def program : Elf :=
  ⟨tables, [⟨".text", 6, 0x1000, 0x1000, 0x10⟩, ⟨".eh_frame_hdr", 2, 0, 0, 20⟩,
    ⟨".eh_frame", 2, 20, 20, 44⟩], 0⟩

/-- A function that is known by its first address. -/
def functionAt (lowPc : Nat) : Die := ⟨⟨0, [], []⟩, lowPc, none⟩

/-- The program with the same functions at all of its addresses. -/
def envWith (inlineStack : List Die) : StackEnv where
  elves := [program]
  ehHdr := fun _ => ⟨0, 12, 1, 0x3b⟩
  inlineStackAtAddress := fun _ => .ok inlineStack
  lowPc := fun die => .ok ⟨some 0, BitVec.ofNat 64 die.next⟩
  location := fun _ => .ok ⟨none, 1⟩
  lineEntryAtAddress := fun _ => .ok none
  frameBase := fun _ => .ok none
  enumerate := fun rules => rules.entries.map fun rule => (rule.1, rule.2)
  rounds := 0
  depth := 0

/-- Registers with a program counter and a frame pointer. -/
def regsAt (rip rbp : Word) : Registers :=
  ⟨Area.write (Area.write (fun _ => 0) 128 (toLe 8 rip.toNat)) 32 (toLe 8 rbp.toNat), [], 0⟩

def threadAt (rip : Word) : ThreadState :=
  ⟨regsAt rip 0x7000, ⟨1, .stopped, 5, none, none⟩, .stopped, false⟩

/-- Two stopped threads, one of them the current one, over a memory. -/
def stoppedAt (memory : Memory 64) (first second : Word) (current : Tid) : Machine :=
  (Machine.atRest memory).setProcess fun process =>
    { process with
      threads := [(1, threadAt first), (2, threadAt second)]
      currentThread := current }

/-- A thread in a function that is inlined into another, called by nothing. -/
def inlined : Machine := stoppedAt (fun _ => 0) 0x1006 0x1008 1

def inlinedEnv : StackEnv := envWith [functionAt 0x1000, functionAt 0x1004]

def framesOf (env : StackEnv) (m : Machine) : List PhysicalFrame :=
  match Stack.physicalFrames env m 1 2 with
  | .ok (physical, _) => physical
  | .error _ => []

/-- The frame of the inlined function has no CFA, that of the function has. -/
theorem inlined_cfas : (framesOf inlinedEnv inlined).map (fun physical =>
    (physical.cfa, physical.frames.map fun frame => frame.regs.cfa)) =
      [(some 0x7010, [0, 0x7010])] := by
  decide +kernel

theorem frames_not_carry_cfa :
    (Stack.resetInlineHeight inlinedEnv inlined 1 ⟨0, [], 0⟩).2 = .ok ⟨⟩ ∧
      Stack.physicalFrames inlinedEnv inlined 1 2 = .ok (framesOf inlinedEnv inlined, .ok ⟨⟩) ∧
      ¬ ∀ physical ∈ framesOf inlinedEnv inlined, physical.CarriesCfa := by
  refine ⟨by decide +kernel, rfl, fun hcarries => ?_⟩
  have hcfas := inlined_cfas
  cases hframes : framesOf inlinedEnv inlined with
  | nil =>
      rw [hframes] at hcfas
      cases hcfas
  | cons physical rest =>
      rw [hframes] at hcfas hcarries
      obtain ⟨hphysical, -⟩ := List.cons.inj hcfas
      obtain ⟨hcfa, hregs⟩ := Prod.mk.inj hphysical
      have hall : ∀ cfa ∈ physical.frames.map (fun frame => frame.regs.cfa), cfa = 0x7010 := by
        intro cfa hmem
        obtain ⟨frame, hframe, rfl⟩ := List.mem_map.mp hmem
        exact hcarries physical List.mem_cons_self _ hcfa frame hframe
      rw [hregs] at hall
      exact absurd (hall 0 List.mem_cons_self) (by decide)

def plainEnv : StackEnv := envWith [functionAt 0x1000]

theorem frames_carry_cfa_iff_plain : framesOf plainEnv inlined ≠ [] ∧
    ∀ physical ∈ framesOf plainEnv inlined, physical.CarriesCfa := by
  have hone : ∀ physical ∈ framesOf plainEnv inlined, physical.inlineStack.length = 1 := by
    decide +kernel
  have hiff := (frames_carry_cfa_iff plainEnv inlined 1 2 ⟨0, [], 0⟩ (framesOf plainEnv inlined)
    (.ok ⟨⟩) (regsAt 0x1006 0x7000) (by decide +kernel) rfl rfl).2
  exact ⟨by decide +kernel, hiff.mpr fun physical hmem _ _ => .inl (hone physical hmem)⟩

end StackWitness

end Gsdb
