/-
The frames of a stack are the functions of its physical frames, from the innermost
one outwards.  All but the outermost function of a physical frame are inlined, and
each function that has another one inlined is at the call site of that.
-/
import Gsdb.CodeLookups
import Gsdb.SelectedFrame
import Gsdb.StepOut

namespace Gsdb

open ByteMemory ByteCursor

/-- An inlined function and the place it is called from: its `DW_AT_call_file`,
counted from one in the files of the unit, and its `DW_AT_call_line`. -/
def Die.CalledFrom (fileNames : CompileUnit → List (List Byte)) (die : Die)
    (location : SourceLocation) : Prop :=
  ∃ entry fileAttr index path lineAttr line, die.entry = some entry ∧
    entry.abbrevEntry.tag = tagInlinedSubroutine ∧
    attr die.cu entry atCallFile = .ok fileAttr ∧ fileAttr.asInt = .ok index ∧
    (fileNames die.cu)[(index - 1).toNat]? = some path ∧
    attr die.cu entry atCallLine = .ok lineAttr ∧ lineAttr.asInt = .ok line ∧
    location = ⟨some path, line⟩

/-- The frames of a physical frame are its functions, the innermost one first: all
but the outermost are inlined, and all but the innermost are at the call site of
the function in front. -/
structure Flattened (fileNames : CompileUnit → List (List Byte)) (inlineStack : List Die)
    (frames : List StackFrame) : Prop where
  dies : frames.map StackFrame.funcDie = inlineStack.reverse
  inlined : ∀ index frame, frames[index]? = some frame →
    (frame.inlined = true ↔ index + 1 < inlineStack.length)
  location : ∀ index inner frame, inlineStack.reverse[index]? = some inner →
    frames[index + 1]? = some frame → inner.CalledFrom fileNames frame.location

/-- The registers of the caller of a physical frame, and the return address. -/
def StackEnv.unwoundCaller (env : StackEnv) (m : Machine) (pc : FileAddr) (regs : Registers) :
    Except Failure (Registers × Word) := do
  let caller ← ((env.unwindEnv m).unwind pc regs).2
  let rip ← caller.readU64 .rip
  pure (caller, rip)

/-- A physical frame with functions at its program counter, whose line entry can be
read, and of whose inlined functions the first address and the call site. -/
structure DescribedFrame (env : StackEnv) (virtPc : Word) (inlineStack : List Die) : Prop where
  pc : virtPc ≠ 0
  inFile : (toFileAddr env.elves virtPc).elf ≠ none
  stack : env.inlineStackAtAddress (toFileAddr env.elves virtPc) = .ok inlineStack
  nonempty : inlineStack ≠ []
  row : ∃ row, env.lineEntryAtAddress (toFileAddr env.elves virtPc) = .ok row ∧
    ∀ entry, row = some entry → entry.address.elf = (toFileAddr env.elves virtPc).elf
  lowPc : ∀ die ∈ inlineStack.tail, ∃ lowPc, env.lowPc die = .ok lowPc ∧
    lowPc.elf = (toFileAddr env.elves virtPc).elf
  location : ∀ die ∈ inlineStack.tail, ∃ location, env.location die = .ok location

/-- The functions of the physical frames from a program counter outwards, up to
where unwinding stops: outside of all files, where no function is known, or where
the caller cannot be found. -/
inductive CallStack (env : StackEnv) (m : Machine) : Registers → Word → List (List Die) → Prop where
  | outside {regs : Registers} {virtPc : Word}
      (hend : virtPc = 0 ∨ (toFileAddr env.elves virtPc).elf = none) :
      CallStack env m regs virtPc []
  | unknown {regs : Registers} {virtPc : Word}
      (hstack : env.inlineStackAtAddress (toFileAddr env.elves virtPc) = .ok []) :
      CallStack env m regs virtPc []
  | outermost {regs : Registers} {virtPc : Word} {inlineStack : List Die} {failure : Failure}
      (hframe : DescribedFrame env virtPc inlineStack)
      (hcaller : env.unwoundCaller m (toFileAddr env.elves virtPc) regs = .error failure)
      (hexception : failure.isException = true) :
      CallStack env m regs virtPc [inlineStack]
  | called {regs caller : Registers} {virtPc rip : Word} {inlineStack : List Die}
      {inlineStacks : List (List Die)} (hframe : DescribedFrame env virtPc inlineStack)
      (hcaller : env.unwoundCaller m (toFileAddr env.elves virtPc) regs = .ok (caller, rip))
      (hrest : CallStack env m caller (rip - 1) inlineStacks) :
      CallStack env m regs virtPc (inlineStack :: inlineStacks)

section Entries

variable {file : DebugFile} {address : Word} {outer inner : Die} {dies : List Die}

def Die.IsInlined (die : Die) : Prop :=
  ∃ entry, die.entry = some entry ∧ entry.abbrevEntry.tag = tagInlinedSubroutine

theorem findInlined_isInlined {rounds : Nat} {child : Die}
    (h : file.findInlined address rounds child = .ok (some inner)) : inner.IsInlined := by
  induction rounds generalizing child with
  | zero => cases h
  | succ rounds ih =>
      rw [DebugFile.findInlined] at h
      split at h
      · cases h
      rename_i entry hentry
      simp only at h
      split at h
      · rename_i htag
        obtain ⟨found, -, h⟩ := bind_eq_ok.mp h
        cases found with
        | false =>
            obtain ⟨next, -, h⟩ := bind_eq_ok.mp h
            exact ih h
        | true =>
            cases h
            exact ⟨entry, hentry, htag⟩
      · obtain ⟨found, hfound, h⟩ := bind_eq_ok.mp h
        cases hfound
        obtain ⟨next, -, h⟩ := bind_eq_ok.mp h
        exact ih h

theorem inlinedChild_isInlined (h : file.inlinedChild address outer = .ok (some inner)) :
    inner.IsInlined := by
  unfold DebugFile.inlinedChild at h
  split at h
  · cases h
  split at h
  · obtain ⟨first, -, h⟩ := bind_eq_ok.mp h
    exact findInlined_isInlined h
  · cases h

/-- All functions behind the first are inlined ones. -/
theorem inlineStackFrom_isInlined {rounds : Nat}
    (h : file.inlineStackFrom address rounds outer = .ok dies) :
    ∀ die ∈ dies.tail, die.IsInlined := by
  induction rounds generalizing outer dies with
  | zero => cases h
  | succ rounds ih =>
      obtain ⟨child, hchild, h⟩ := bind_eq_ok.mp h
      cases child with
      | none =>
          cases h
          intro die hmem
          cases hmem
      | some child =>
          obtain ⟨rest, hrest, h⟩ := bind_eq_ok.mp h
          cases h
          have hhead : ∃ tail, rest = child :: tail := by
            cases rounds with
            | zero => cases hrest
            | succ rounds =>
                obtain ⟨next, -, hnext⟩ := bind_eq_ok.mp hrest
                cases next with
                | none => exact ⟨[], (Except.ok.inj hnext).symm⟩
                | some next =>
                    obtain ⟨tail, -, htail⟩ := bind_eq_ok.mp hnext
                    exact ⟨tail, (Except.ok.inj htail).symm⟩
          obtain ⟨tail, rfl⟩ := hhead
          intro die hmem
          rcases List.mem_cons.mp hmem with rfl | hmem
          · exact inlinedChild_isInlined hchild
          · exact ih hrest die hmem

theorem inlineStackAtAddress_isInlined {position : Nat} {pc : FileAddr}
    (h : file.inlineStackAtAddress position pc = .ok dies) :
    ∀ die ∈ dies.tail, die.IsInlined := by
  obtain ⟨found, -, h⟩ := bind_eq_ok.mp h
  cases found with
  | none =>
      cases h
      intro die hmem
      cases hmem
  | some die => exact inlineStackFrom_isInlined h

theorem location_calledFrom {fileNames : CompileUnit → List (List Byte)} {die : Die}
    {location : SourceLocation} (hinlined : die.IsInlined)
    (h : die.location fileNames = .ok location) : die.CalledFrom fileNames location := by
  obtain ⟨entry, hentry, htag⟩ := hinlined
  simp only [Die.location, hentry, Die.locationAttributes, if_pos htag] at h
  obtain ⟨fileAttr, hfile, h⟩ := bind_eq_ok.mp h
  obtain ⟨index, hindex, h⟩ := bind_eq_ok.mp h
  split at h
  · cases h
  rename_i path hpath
  obtain ⟨lineAttr, hline, h⟩ := bind_eq_ok.mp h
  obtain ⟨line, hint, h⟩ := bind_eq_ok.mp h
  exact ⟨entry, fileAttr, index, path, lineAttr, line, hentry, htag, hfile, hindex, hpath, hline,
    hint, (Except.ok.inj h).symm⟩

end Entries

section Creation

variable {env : StackEnv} {regs : Registers} {virtPc : Word} {pc : FileAddr}

theorem toVirtAddr_of_elf {addr : FileAddr} {position : Nat} {elf : Elf}
    (haddr : addr.elf = some position) (helf : env.elves[position]? = some elf) :
    ∃ virt, addr.toVirtAddr env.elves = .ok virt := by
  simp only [FileAddr.toVirtAddr, haddr, Option.bind_some, helf]
  exact ⟨_, rfl⟩

/-- The file of a program counter is one of the collection. -/
theorem toFileAddr_listed (h : (toFileAddr env.elves virtPc).elf ≠ none) :
    ∃ position elf, (toFileAddr env.elves virtPc).elf = some position ∧
      env.elves[position]? = some elf := by
  obtain ⟨position, hposition⟩ := Option.ne_none_iff_exists'.mp h
  refine ⟨position, ?_⟩
  unfold toFileAddr at hposition ⊢
  split at hposition
  · cases hposition
  unfold toFileAddrIn at hposition ⊢
  split at hposition
  · cases hposition
  rename_i elf helf
  split at hposition
  · cases hposition
  obtain rfl := Option.some.inj hposition
  exact ⟨elf, rfl, helf⟩

/-- The frames of all functions but the innermost one, from there outwards. -/
structure OuterFrames (env : StackEnv) (dies : List Die) (frames : List StackFrame) : Prop where
  functions : frames.map StackFrame.funcDie = dies.tail
  inlined : ∀ index frame, frames[index]? = some frame →
    (frame.inlined = true ↔ index + 2 < dies.length)
  location : ∀ (index : Nat) (inner : Die) (frame : StackFrame), dies[index]? = some inner →
    frames[index]? = some frame → env.location inner = .ok frame.location

theorem createInlineStackFrames_outer {dies : List Die}
    (hlow : ∀ die ∈ dies.dropLast, ∃ lowPc virt, env.lowPc die = .ok lowPc ∧
      lowPc.toVirtAddr env.elves = .ok virt)
    (hlocation : ∀ die ∈ dies.dropLast, ∃ location, env.location die = .ok location) :
    ∃ frames, env.createInlineStackFrames regs dies = (frames, .ok ⟨⟩) ∧
      OuterFrames env dies frames := by
  induction dies with
  | nil => exact ⟨[], rfl, rfl, by simp, by simp⟩
  | cons inner rest ih =>
      cases rest with
      | nil => exact ⟨[], rfl, rfl, by simp, by simp⟩
      | cons die rest =>
          rw [List.dropLast_cons_cons] at hlow hlocation
          obtain ⟨frames, hframes, houter⟩ :=
            ih (fun die hmem => hlow die (List.mem_cons_of_mem _ hmem))
              fun die hmem => hlocation die (List.mem_cons_of_mem _ hmem)
          obtain ⟨lowPc, virt, hlow, hvirt⟩ := hlow inner List.mem_cons_self
          obtain ⟨location, hlocation⟩ := hlocation inner List.mem_cons_self
          refine ⟨⟨regs, virt, die, decide (rest ≠ []), location⟩ :: frames, ?_, ?_, ?_, ?_⟩
          · simp only [StackEnv.createInlineStackFrames, hlow, hvirt, hlocation, ok_bind, hframes]
            rfl
          · rw [List.map_cons, houter.functions]
            rfl
          · intro index frame hframe
            cases index with
            | zero =>
                obtain rfl := Option.some.inj hframe
                rw [decide_eq_true_iff, ← List.length_pos_iff, List.length_cons, List.length_cons]
                omega
            | succ index =>
                rw [houter.inlined index frame hframe]
                simp only [List.length_cons]
                omega
          · intro index other frame hother hframe
            cases index with
            | zero =>
                obtain rfl := Option.some.inj hother
                obtain rfl := Option.some.inj hframe
                exact hlocation
            | succ index => exact houter.location index other frame hother hframe

theorem createBaseFrame_eq {die : Die} {inlined : Bool} {position : Nat} {elf : Elf}
    {row : Option LineRow} (hpc : pc.elf = some position) (helf : env.elves[position]? = some elf)
    (hrow : env.lineEntryAtAddress pc = .ok row)
    (haddress : ∀ entry, row = some entry → entry.address.elf = pc.elf) :
    ∃ frame, env.createBaseFrame regs die pc inlined = .ok frame ∧ frame.funcDie = die ∧
      frame.inlined = inlined := by
  obtain ⟨virt, hvirt⟩ := toVirtAddr_of_elf hpc helf
  simp only [StackEnv.createBaseFrame, hvirt, hrow, ok_bind]
  cases row with
  | none => exact ⟨_, rfl, rfl, rfl⟩
  | some entry =>
      obtain ⟨start, hstart⟩ := toVirtAddr_of_elf ((haddress entry rfl).trans hpc) helf
      simp only [hstart, ok_bind]
      exact ⟨_, rfl, rfl, rfl⟩

/-- What a frame shows besides its registers stays when the registers of the last
frame are set. -/
theorem setLastRegs_getElem? {frames : List StackFrame} {callee : Registers} {index : Nat}
    {frame : StackFrame} (h : (setLastRegs frames callee)[index]? = some frame) :
    ∃ before, frames[index]? = some before ∧ frame.funcDie = before.funcDie ∧
      frame.inlined = before.inlined ∧ frame.location = before.location := by
  rcases List.eq_nil_or_concat frames with rfl | ⟨front, last, rfl⟩
  · cases h
  rw [List.concat_eq_append, setLastRegs_append] at h
  rw [List.concat_eq_append]
  rcases Nat.lt_or_ge index front.length with hlt | hge
  · rw [List.getElem?_append_left hlt] at h ⊢
    exact ⟨frame, h, rfl, rfl, rfl⟩
  · rw [List.getElem?_append_right hge] at h ⊢
    cases hindex : index - front.length with
    | zero =>
        rw [hindex] at h
        obtain rfl := Option.some.inj h
        exact ⟨last, rfl, rfl, rfl, rfl⟩
    | succ offset =>
        rw [hindex] at h
        cases h

theorem setLastRegs_funcDie (frames : List StackFrame) (callee : Registers) :
    (setLastRegs frames callee).map StackFrame.funcDie = frames.map StackFrame.funcDie := by
  rcases List.eq_nil_or_concat frames with rfl | ⟨front, last, rfl⟩
  · rfl
  · rw [List.concat_eq_append, setLastRegs_append, List.map_append, List.map_append]
    rfl

end Creation

section Rounds

variable {env : StackEnv} {fileNames : CompileUnit → List (List Byte)} {m : Machine}
  {regs : Registers} {virtPc : Word} {inlineStack : List Die}

theorem Flattened.setLastRegs {frames : List StackFrame}
    (h : Flattened fileNames inlineStack frames) (callee : Registers) :
    Flattened fileNames inlineStack (setLastRegs frames callee) := by
  refine ⟨(setLastRegs_funcDie frames callee).trans h.dies, ?_, ?_⟩
  · intro index frame hframe
    obtain ⟨before, hbefore, -, hinlined, -⟩ := setLastRegs_getElem? hframe
    rw [hinlined]
    exact h.inlined index before hbefore
  · intro index inner frame hinner hframe
    obtain ⟨before, hbefore, -, -, hlocation⟩ := setLastRegs_getElem? hframe
    rw [hlocation]
    exact h.location index inner before hinner hbefore

/-- The location of an inlined function is its call site. -/
def CallSites (env : StackEnv) (fileNames : CompileUnit → List (List Byte))
    (inlineStack : List Die) : Prop :=
  ∀ die ∈ inlineStack.tail, ∀ location, env.location die = .ok location →
    die.CalledFrom fileNames location

theorem DescribedFrame.callSites {files : Nat → DebugFile}
    (h : DescribedFrame (env.withDebugInfo files fileNames) virtPc inlineStack) :
    CallSites (env.withDebugInfo files fileNames) fileNames inlineStack := by
  obtain ⟨position, hposition⟩ := Option.ne_none_iff_exists'.mp h.inFile
  have hstack := h.stack
  simp only [StackEnv.withDebugInfo] at hstack hposition
  rw [hposition] at hstack
  intro die hmem location hlocation
  exact location_calledFrom (inlineStackAtAddress_isInlined hstack die hmem) hlocation

/-- The frames that are created for a physical frame are its functions. -/
theorem createFrames_flattened (h : DescribedFrame env virtPc inlineStack)
    (hsites : CallSites env fileNames inlineStack) {inner : Die} {outer : List Die}
    (hreverse : inlineStack.reverse = inner :: outer) :
    ∃ frames, env.createFrames regs (toFileAddr env.elves virtPc) inner outer =
      (frames, .ok ⟨⟩) ∧ Flattened fileNames inlineStack frames := by
  obtain ⟨position, elf, hposition, helf⟩ := toFileAddr_listed h.inFile
  obtain ⟨row, hrow, haddress⟩ := h.row
  have hinner : ∀ die ∈ (inner :: outer).dropLast, die ∈ inlineStack.tail := by
    intro die hmem
    rw [← hreverse, List.dropLast_reverse] at hmem
    exact List.mem_reverse.mp hmem
  obtain ⟨base, hbase, hdie, hinlined⟩ := @createBaseFrame_eq env regs _ inner
    (decide (outer ≠ [])) position elf row hposition helf hrow haddress
  have hlow : ∀ die ∈ (inner :: outer).dropLast, ∃ lowPc virt, env.lowPc die = .ok lowPc ∧
      lowPc.toVirtAddr env.elves = .ok virt := by
    intro die hmem
    obtain ⟨lowPc, hlow, hfile⟩ := h.lowPc die (hinner die hmem)
    obtain ⟨virt, hvirt⟩ := toVirtAddr_of_elf (hfile.trans hposition) helf
    exact ⟨lowPc, virt, hlow, hvirt⟩
  obtain ⟨frames, hframes, houter⟩ := @createInlineStackFrames_outer env regs (inner :: outer) hlow
    fun die hmem => h.location die (hinner die hmem)
  have hlength : inlineStack.length = outer.length + 1 := by
    rw [← List.length_reverse, hreverse, List.length_cons]
  refine ⟨base :: frames, ?_, ?_, ?_, ?_⟩
  · simp only [StackEnv.createFrames, hbase, hframes]
  · rw [List.map_cons, hdie, houter.functions, hreverse]
    rfl
  · intro index frame hframe
    cases index with
    | zero =>
        obtain rfl := Option.some.inj hframe
        rw [hinlined, decide_eq_true_iff, ← List.length_pos_iff, hlength]
        omega
    | succ index =>
        rw [houter.inlined index frame hframe, hlength, List.length_cons]
  · intro index die frame hdie hframe
    rw [hreverse] at hdie
    have hmem : die ∈ (inner :: outer).dropLast := by
      have hindex := (List.getElem?_eq_some_iff.mp hframe).1
      have hcount := congrArg List.length houter.functions
      simp only [List.length_map, List.tail_cons, List.length_cons] at hcount hindex
      rw [List.mem_iff_getElem?]
      refine ⟨index, ?_⟩
      rw [List.getElem?_dropLast, if_pos (by rw [List.length_cons]; omega)]
      exact hdie
    exact hsites die (hinner die hmem) _ (houter.location index die frame hdie hframe)

theorem unwindRound_outside (h : virtPc = 0 ∨ (toFileAddr env.elves virtPc).elf = none) :
    env.unwindRound m regs virtPc = .done none (.ok ⟨⟩) := by
  simp only [StackEnv.unwindRound, if_pos h]

theorem unwindRound_unknown
    (h : env.inlineStackAtAddress (toFileAddr env.elves virtPc) = .ok []) :
    env.unwindRound m regs virtPc = .done none (.ok ⟨⟩) := by
  by_cases hend : virtPc = 0 ∨ (toFileAddr env.elves virtPc).elf = none
  · exact unwindRound_outside hend
  · simp only [StackEnv.unwindRound, if_neg hend, h, List.reverse_nil]

theorem unwindRound_described (h : DescribedFrame env virtPc inlineStack)
    (hsites : CallSites env fileNames inlineStack) :
    ∃ frames, env.unwindRound m regs virtPc =
      env.unwindCaller m ⟨regs, toFileAddr env.elves virtPc, inlineStack, frames, none⟩ ∧
      Flattened fileNames inlineStack frames := by
  have hfile : ¬ (virtPc = 0 ∨ (toFileAddr env.elves virtPc).elf = none) := by
    rintro (hzero | hnone)
    · exact h.pc hzero
    · exact h.inFile hnone
  cases hreverse : inlineStack.reverse with
  | nil => exact absurd (List.reverse_eq_nil_iff.mp hreverse) h.nonempty
  | cons inner outer =>
      obtain ⟨frames, hframes, hflattened⟩ :=
        @createFrames_flattened _ _ regs _ _ h hsites _ _ hreverse
      refine ⟨frames, ?_, hflattened⟩
      simp only [StackEnv.unwindRound, if_neg hfile, h.stack, hreverse, hframes]

/-- The round of a frame whose caller cannot be found is the last one. -/
theorem unwindRound_outermost {failure : Failure} (h : DescribedFrame env virtPc inlineStack)
    (hsites : CallSites env fileNames inlineStack)
    (hcaller : env.unwoundCaller m (toFileAddr env.elves virtPc) regs = .error failure)
    (hexception : failure.isException = true) :
    ∃ physical, env.unwindRound m regs virtPc = .done (some physical) (.ok ⟨⟩) ∧
      Flattened fileNames inlineStack physical.frames := by
  obtain ⟨frames, hround, hflattened⟩ := @unwindRound_described _ _ m regs _ _ h hsites
  unfold StackEnv.unwoundCaller at hcaller
  rw [hround]
  simp only [StackEnv.unwindCaller, hcaller, hexception, if_true]
  exact ⟨_, rfl, hflattened.setLastRegs _⟩

theorem unwindRound_called {caller : Registers} {rip : Word}
    (h : DescribedFrame env virtPc inlineStack) (hsites : CallSites env fileNames inlineStack)
    (hcaller : env.unwoundCaller m (toFileAddr env.elves virtPc) regs = .ok (caller, rip)) :
    ∃ physical, env.unwindRound m regs virtPc = .next physical caller (rip - 1) ∧
      Flattened fileNames inlineStack physical.frames := by
  obtain ⟨frames, hround, hflattened⟩ := @unwindRound_described _ _ m regs _ _ h hsites
  unfold StackEnv.unwoundCaller at hcaller
  rw [hround]
  simp only [StackEnv.unwindCaller, hcaller]
  exact ⟨_, rfl, hflattened.setLastRegs _⟩

end Rounds

section Runs

variable {env : StackEnv} {files : Nat → DebugFile} {fileNames : CompileUnit → List (List Byte)}
  {m : Machine} {regs : Registers} {virtPc : Word} {inlineStacks : List (List Die)}

theorem unwindLoop_flattened {rounds : Nat}
    (h : CallStack (env.withDebugInfo files fileNames) m regs virtPc inlineStacks)
    (hrounds : inlineStacks.length < rounds) :
    ∃ physical, (env.withDebugInfo files fileNames).unwindLoop m rounds regs virtPc =
        (physical, .ok ⟨⟩) ∧
      List.Forall₂ (Flattened fileNames) inlineStacks (physical.map PhysicalFrame.frames) := by
  induction h generalizing rounds with
  | outside hend =>
      obtain ⟨rounds, rfl⟩ := Nat.exists_eq_add_of_lt hrounds
      refine ⟨[], ?_, .nil⟩
      rw [StackEnv.unwindLoop, unwindRound_outside hend]
      rfl
  | unknown hstack =>
      obtain ⟨rounds, rfl⟩ := Nat.exists_eq_add_of_lt hrounds
      refine ⟨[], ?_, .nil⟩
      rw [StackEnv.unwindLoop, unwindRound_unknown hstack]
      rfl
  | outermost hframe hcaller hexception =>
      obtain ⟨rounds, rfl⟩ := Nat.exists_eq_add_of_lt hrounds
      obtain ⟨physical, hround, hflattened⟩ :=
        unwindRound_outermost hframe hframe.callSites hcaller hexception
      refine ⟨[physical], ?_, .cons hflattened .nil⟩
      simp only [StackEnv.unwindLoop, hround]
      rfl
  | called hframe hcaller hrest ih =>
      obtain ⟨rounds, rfl⟩ := Nat.exists_eq_add_of_lt hrounds
      obtain ⟨physical, hround, hflattened⟩ := unwindRound_called hframe hframe.callSites hcaller
      rw [List.length_cons] at hrounds ⊢
      obtain ⟨others, hloop, hothers⟩ := ih (Nat.lt_of_succ_le (Nat.le_add_right _ rounds))
      refine ⟨physical :: others, ?_, .cons hflattened hothers⟩
      simp only [StackEnv.unwindLoop, hround]
      rw [hloop]

/-- A physical frame with functions at its program counter is part of the call
stack. -/
theorem CallStack.head {inlineStack : List Die} {env : StackEnv}
    (h : CallStack env m regs virtPc inlineStacks) (hpc : virtPc ≠ 0)
    (hfile : (toFileAddr env.elves virtPc).elf ≠ none)
    (hstack : env.inlineStackAtAddress (toFileAddr env.elves virtPc) = .ok inlineStack)
    (hsome : inlineStack ≠ []) : ∃ rest, inlineStacks = inlineStack :: rest := by
  cases h with
  | outside hend =>
      rcases hend with hzero | hnone
      · exact absurd hzero hpc
      · exact absurd hnone hfile
  | unknown hempty =>
      rw [hstack] at hempty
      exact absurd (Except.ok.inj hempty) hsome
  | outermost hframe =>
      have hsame := hframe.stack
      rw [hstack] at hsame
      exact ⟨[], by rw [Except.ok.inj hsame]⟩
  | called hframe hcaller hrest =>
      have hsame := hframe.stack
      rw [hstack] at hsame
      exact ⟨_, by rw [Except.ok.inj hsame]⟩

theorem resetInlineHeight_ok {env : StackEnv} {tid : Tid} {stack : Stack}
    (h : (Stack.resetInlineHeight env m tid stack).2 = .ok ⟨⟩) :
    ∃ inlineStack pc, env.inlineStackAtPc m tid = .ok inlineStack ∧
      env.getPcFileAddress m none = .ok pc := by
  unfold Stack.resetInlineHeight at h
  split at h
  · cases h
  rename_i inlineStack hstack
  split at h
  · cases h
  rename_i pc hpc
  exact ⟨inlineStack, pc, hstack, hpc⟩

theorem Flattened.length {inlineStack : List Die} {frames : List StackFrame}
    (h : Flattened fileNames inlineStack frames) : frames.length = inlineStack.length := by
  have hlength := congrArg List.length h.dies
  simpa using hlength

theorem funcDie_flatten {segments : List (List StackFrame)}
    (h : List.Forall₂ (Flattened fileNames) inlineStacks segments) :
    segments.flatten.map StackFrame.funcDie = (inlineStacks.map List.reverse).flatten := by
  induction h with
  | nil => rfl
  | cons hflattened _ ih =>
      rw [List.flatten_cons, List.map_append, hflattened.dies, ih]
      rfl

/-- Where there are functions at the program counter of the thread, there are
frames. -/
theorem CallStack.frames_ne_nil {tid : Tid} {inlineStack : List Die} {env : StackEnv}
    {segments : List (List StackFrame)} (h : CallStack env m regs virtPc inlineStacks)
    (hpc : virtPc ≠ 0) (hthread : m.getPc (some tid) = .ok virtPc)
    (hstack : env.inlineStackAtPc m tid = .ok inlineStack) (hsome : inlineStack ≠ [])
    (hsegments : List.Forall₂ (Flattened fileNames) inlineStacks segments) :
    segments.flatten ≠ [] := by
  simp only [StackEnv.inlineStackAtPc, StackEnv.getPcFileAddress, hthread, ok_bind] at hstack
  change (if (toFileAddr env.elves virtPc).elf = none then _ else _) = _ at hstack
  split at hstack
  · exact absurd (Except.ok.inj hstack).symm hsome
  · rename_i hfile
    obtain ⟨rest, rfl⟩ := h.head hpc hfile hstack hsome
    cases hsegments with
    | cons hflattened _ =>
        intro hempty
        rw [List.flatten_cons, List.append_eq_nil_iff] at hempty
        have hlength := hflattened.length
        rw [hempty.1] at hlength
        exact hsome (List.length_eq_zero_iff.mp hlength.symm)

end Runs

/-- The frames of a stack are the concatenation of the functions of its physical
frames, each from the innermost one outwards, with their flags and call sites; the
frames that are shown leave out as many as the inline height, which are there. -/
theorem unwind_flattens (env : StackEnv) (files : Nat → DebugFile)
    (fileNames : CompileUnit → List (List Byte)) (m : Machine) (tid : Tid) (stack : Stack)
    (regs : Registers) (virtPc : Word) (inlineStacks : List (List Die)) (rounds : Nat)
    (hheight : (Stack.resetInlineHeight (env.withDebugInfo files fileNames) m tid stack).2 =
      .ok ⟨⟩)
    (hregs : m.getRegisters (some tid) = .ok regs) (hpc : regs.readU64 .rip = .ok virtPc)
    (hstack : CallStack (env.withDebugInfo files fileNames) m regs virtPc inlineStacks)
    (hrounds : inlineStacks.length < rounds) :
    ∃ after segments,
      Stack.unwind (env.withDebugInfo files fileNames) m tid rounds stack = (after, .ok ⟨⟩) ∧
      after.frames = segments.flatten ∧
      List.Forall₂ (Flattened fileNames) inlineStacks segments ∧
      after.frames.map StackFrame.funcDie = (inlineStacks.map List.reverse).flatten ∧
      after.visible = after.frames.drop after.inlineHeight ∧
      (virtPc ≠ 0 → after.inlineHeight ≤ after.frames.length) := by
  have hthread : m.getPc (some tid) = .ok virtPc := by
    rw [Machine.getPc, hregs, ok_bind, hpc]
  obtain ⟨physical, hphysical, hflattened⟩ : ∃ physical,
      Stack.physicalFrames (env.withDebugInfo files fileNames) m tid rounds =
        .ok (physical, .ok ⟨⟩) ∧
      List.Forall₂ (Flattened fileNames) inlineStacks (physical.map PhysicalFrame.frames) := by
    obtain ⟨physical, hloop, hflattened⟩ := unwindLoop_flattened hstack hrounds
    refine ⟨physical, ?_, hflattened⟩
    simp only [Stack.physicalFrames, hthread, hregs, ok_bind]
    split
    · rename_i hnone
      obtain ⟨rounds, rfl⟩ := Nat.exists_eq_add_of_lt hrounds
      rw [StackEnv.unwindLoop, unwindRound_outside (.inr hnone)] at hloop
      obtain ⟨rfl, -⟩ := Prod.mk.inj hloop
      rfl
    · rw [hloop]
      rfl
  obtain ⟨after, hunwind⟩ : ∃ after,
      Stack.unwind (env.withDebugInfo files fileNames) m tid rounds stack = (after, .ok ⟨⟩) := by
    rw [Stack.unwind]
    split
    · rename_i hfailed
      rw [hfailed] at hheight
      cases hheight
    · rw [hphysical]
      exact ⟨_, rfl⟩
  have hframes : after.frames = (physical.map PhysicalFrame.frames).flatten := by
    rw [← List.flatMap_def, ← unwind_frames hheight hphysical, hunwind]
  refine ⟨after, physical.map PhysicalFrame.frames, hunwind, hframes, hflattened, ?_, rfl, ?_⟩
  · rw [hframes]
    exact funcDie_flatten hflattened
  · intro hnonzero
    obtain ⟨inlineStack, pc, hinline, hcurrent⟩ := resetInlineHeight_ok hheight
    obtain ⟨hcount, -, hlength⟩ := unwind_ok hunwind hinline hcurrent
    have hheight : after.inlineHeight ≤ inlineStack.length := by
      have hle := countStarts_le (env.withDebugInfo files fileNames) pc inlineStack.reverse
      rw [hcount, List.length_reverse] at hle
      exact hle
    by_cases hempty : inlineStack = []
    · rw [hempty] at hheight
      exact hheight.trans (Nat.zero_le _)
    · refine hheight.trans (hlength ?_)
      rw [hframes]
      exact hstack.frames_ne_nil hnonzero hthread hinline hempty hflattened

namespace FrameListWitness

open StackWitness (program stoppedAt regsAt)

def functionEntry : Abbrev :=
  ⟨2, tagSubprogram, true, [⟨atLowPc, .addr⟩, ⟨atHighPc, .data1⟩]⟩

def inlinedEntry : Abbrev :=
  ⟨3, tagInlinedSubroutine, false,
    [⟨atLowPc, .addr⟩, ⟨atHighPc, .data1⟩, ⟨atCallFile, .data1⟩, ⟨atCallLine, .data1⟩]⟩

/-- A function of sixteen bytes with another one inlined at its fourth byte. -/
def cu : CompileUnit :=
  ⟨0, [32, 0, 0, 0, 4, 0, 0, 0, 0, 0, 8, 1, 2, 0, 0x10, 0, 0, 0, 0, 0, 0, 0x10,
    3, 4, 0x10, 0, 0, 0, 0, 0, 0, 6, 1, 7, 0, 0],
    [⟨1, 0x11, true, []⟩, functionEntry, inlinedEntry]⟩

def function : Die := ⟨cu, 22, some ⟨12, functionEntry, [13, 21]⟩⟩

def inlined : Die := ⟨cu, 34, some ⟨22, inlinedEntry, [23, 31, 32, 33]⟩⟩

def debug : DebugFile := ⟨⟨[], [], [cu]⟩, [], [([0x66], ⟨cu, 12⟩)]⟩

def fileNames : CompileUnit → List (List Byte) := fun _ => [[0x61]]

def env : StackEnv where
  elves := [program]
  ehHdr := fun _ => ⟨0, 12, 1, 0x3b⟩
  inlineStackAtAddress := fun _ => .ok []
  lowPc := fun die => .ok ⟨some 0, if die = inlined then 0x1004 else 0x1000⟩
  location := fun _ => .ok ⟨none, 1⟩
  lineEntryAtAddress := fun _ => .ok none
  frameBase := fun _ => .ok none
  enumerate := fun rules => rules.entries.map fun rule => (rule.1, rule.2)
  rounds := 0
  depth := 0

/-- A thread in the inlined function, called from the start of the function. -/
def m : Machine :=
  stoppedAt (Memory.write (fun _ => 0) 0x7008 (toLe 8 0x1003)) 0x1006 0x1006 1

/-- The return addresses of the thread and of its caller. -/
def returns : List Word :=
  match (env.withDebugInfo (fun _ => debug) fileNames).unwoundCaller m ⟨some 0, 0x1006⟩
    (regsAt 0x1006 0x7000) with
  | .error _ => []
  | .ok (caller, rip) =>
      match (env.withDebugInfo (fun _ => debug) fileNames).unwoundCaller m ⟨some 0, 0x1002⟩
        caller with
      | .error _ => [rip]
      | .ok (_, outer) => [rip, outer]

theorem describedFrame {virtPc : Word} {dies : List Die} (hpc : virtPc ≠ 0)
    (hfile : toFileAddr [program] virtPc = ⟨some 0, virtPc⟩)
    (hstack : debug.inlineStackAtAddress 0 ⟨some 0, virtPc⟩ = .ok (function :: dies))
    (hdies : ∀ die ∈ dies, die.location fileNames = .ok ⟨some [0x61], 7⟩) :
    DescribedFrame (env.withDebugInfo (fun _ => debug) fileNames) virtPc (function :: dies) := by
  have hfile : toFileAddr (env.withDebugInfo (fun _ => debug) fileNames).elves virtPc =
      ⟨some 0, virtPc⟩ := hfile
  refine ⟨hpc, ?_, ?_, List.cons_ne_nil _ _, ⟨none, rfl, fun _ h => by cases h⟩, ?_, ?_⟩
  · rw [hfile]
    exact Option.some_ne_none 0
  · rw [hfile]
    exact hstack
  · intro die _
    rw [hfile]
    exact ⟨_, rfl, rfl⟩
  · intro die hmem
    exact ⟨_, hdies die hmem⟩

theorem callStack : CallStack (env.withDebugInfo (fun _ => debug) fileNames) m
    (regsAt 0x1006 0x7000) 0x1006 [[function, inlined], [function]] := by
  have hreturns : returns = [0x1003, 0] := by decide +kernel
  have hinner : debug.inlineStackAtAddress 0 ⟨some 0, 0x1006⟩ = .ok [function, inlined] := by
    decide +kernel
  have houter : debug.inlineStackAtAddress 0 ⟨some 0, 0x1002⟩ = .ok [function] := by
    decide +kernel
  have hsite : ∀ die ∈ [inlined], die.location fileNames = .ok ⟨some [0x61], 7⟩ := by
    decide +kernel
  unfold returns at hreturns
  split at hreturns
  · cases hreturns
  rename_i caller rip hcaller
  split at hreturns
  · cases hreturns
  rename_i outermost outer houtermost
  cases hreturns
  refine .called (describedFrame (by decide) (by decide) hinner hsite) hcaller ?_
  refine .called (describedFrame (by decide) (by decide) houter (by simp)) houtermost ?_
  exact .outside (by decide)

theorem unwind_flattens_inlined : ∃ after,
    Stack.unwind (env.withDebugInfo (fun _ => debug) fileNames) m 1 3 ⟨0, [], 0⟩ =
      (after, .ok ⟨⟩) ∧
    after.frames.map StackFrame.funcDie = [inlined, function, function] ∧
    after.inlineHeight ≤ after.frames.length := by
  obtain ⟨after, segments, hunwind, -, -, hdies, -, hheight⟩ := unwind_flattens env (fun _ => debug)
    fileNames m 1 ⟨0, [], 0⟩ (regsAt 0x1006 0x7000) 0x1006 [[function, inlined], [function]] 3
    (by decide +kernel) rfl (by decide +kernel) callStack (by decide)
  exact ⟨after, hunwind, hdies, hheight (by decide)⟩

end FrameListWitness

end Gsdb
