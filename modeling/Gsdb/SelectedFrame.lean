/-
The inline height and the selected frame.  The height counts the functions at
the thread's program counter that start at the program counter of the current
thread, the function that is not inlined among them.
-/
import Gsdb.StackFrames

namespace Gsdb

/-- The frame that is selected exists, and only frames of inlined functions are
hidden. -/
def Stack.SelectedFrameExists (inlineStack : List Die) (stack : Stack) : Prop :=
  stack.inlineHeight ≤ inlineStack.length - 1 ∧
    (stack.hasFrames = true →
      stack.inlineHeight ≤ stack.currentFrame ∧ stack.currentFrame < stack.frames.length)

/-- Two machines in which a thread has the same registers and the inferior the
same memory. -/
structure AgreeOnThread (m m' : Machine) (tid : Tid) : Prop where
  regs : (m.thread? tid).map ThreadState.regs = (m'.thread? tid).map ThreadState.regs
  memory : m.kernel.memory = m'.kernel.memory
  mapped : m.kernel.mapped = m'.kernel.mapped
  iovMax : m.kernel.iovMax = m'.kernel.iovMax

section Height

variable {env : StackEnv} {m : Machine} {tid : Tid} {stack : Stack} {pc : FileAddr}
  {dies : List Die} {height : Nat}

theorem countStarts_le (env : StackEnv) (pc : FileAddr) (dies : List Die) :
    (env.countStarts pc dies).1 ≤ dies.length := by
  induction dies with
  | nil => exact Nat.le_refl _
  | cons die rest ih =>
      rw [StackEnv.countStarts]
      split
      · exact Nat.zero_le _
      · split
        · exact Nat.succ_le_succ ih
        · exact Nat.zero_le _

/-- The count ends before the last function exactly if one of them does not
start at the program counter. -/
theorem countStarts_lt_iff (h : env.countStarts pc dies = (height, .ok ⟨⟩)) :
    height < dies.length ↔ ∃ die ∈ dies, env.lowPc die ≠ .ok pc := by
  induction dies generalizing height with
  | nil => simp
  | cons die rest ih =>
      rw [StackEnv.countStarts] at h
      split at h
      · cases (congrArg Prod.snd h)
      · rename_i lowPc hlow
        split at h
        · rename_i hsame
          have hresult : (env.countStarts pc rest).2 = .ok ⟨⟩ := congrArg Prod.snd h
          have hrest := ih (Prod.ext rfl hresult)
          obtain rfl : (env.countStarts pc rest).1 + 1 = height := congrArg Prod.fst h
          simp only [List.length_cons, Nat.add_lt_add_iff_right, hrest, List.exists_mem_cons_iff,
            hlow, hsame, ne_eq, not_true_eq_false, false_or]
        · rename_i hother
          obtain rfl : 0 = height := congrArg Prod.fst h
          constructor
          · intro _
            refine ⟨die, List.mem_cons_self, ?_⟩
            rw [hlow]
            exact fun heq => hother (Except.ok.inj heq)
          · intro _
            exact Nat.succ_pos _

theorem resetInlineHeight_eq {inlineStack : List Die}
    (hstack : env.inlineStackAtPc m tid = .ok inlineStack)
    (hpc : env.getPcFileAddress m none = .ok pc) :
    Stack.resetInlineHeight env m tid stack =
      ({ stack with inlineHeight := (env.countStarts pc inlineStack.reverse).1 },
        (env.countStarts pc inlineStack.reverse).2) := by
  rw [Stack.resetInlineHeight, hstack]
  simp only [hpc]

theorem simulateInlinedStepIn_iterate (stack : Stack) {steps : Nat}
    (hcurrent : stack.currentFrame = stack.inlineHeight) :
    Stack.simulateInlinedStepIn^[steps] stack =
      { stack with
        inlineHeight := stack.inlineHeight - steps
        currentFrame := stack.inlineHeight - steps } := by
  induction steps with
  | zero =>
      obtain ⟨inlineHeight, frames, currentFrame⟩ := stack
      obtain rfl : currentFrame = inlineHeight := hcurrent
      rfl
  | succ steps ih =>
      rw [Function.iterate_succ_apply', ih]
      simp only [Stack.simulateInlinedStepIn, Nat.sub_sub]

end Height

section Unwound

variable {env : StackEnv} {m : Machine} {tid : Tid} {stack after : Stack} {rounds : Nat}
  {pc : FileAddr} {inlineStack : List Die}

/-- What `stack::unwind` leaves when it returns: the height was counted, and if
there are frames, there is one for every function at the program counter. -/
theorem unwind_ok (h : Stack.unwind env m tid rounds stack = (after, .ok ⟨⟩))
    (hstack : env.inlineStackAtPc m tid = .ok inlineStack)
    (hpc : env.getPcFileAddress m none = .ok pc) :
    env.countStarts pc inlineStack.reverse = (after.inlineHeight, .ok ⟨⟩) ∧
      after.currentFrame = after.inlineHeight ∧
      (after.frames ≠ [] → inlineStack.length ≤ after.frames.length) := by
  rw [Stack.unwind, resetInlineHeight_eq hstack hpc] at h
  split at h
  · cases (congrArg Prod.snd h)
  rename_i reset hreset
  obtain ⟨rfl, hcount⟩ := Prod.mk.inj hreset
  split at h
  · cases (congrArg Prod.snd h)
  rename_i physical result hphysical
  obtain ⟨rfl, rfl⟩ := Prod.mk.inj h
  refine ⟨Prod.ext rfl hcount, rfl, fun hframes => ?_⟩
  obtain ⟨virtPc, hvirtPc, hphysical⟩ := bind_eq_ok.mp hphysical
  obtain ⟨regs, hregs, hloop⟩ := bind_eq_ok.mp hphysical
  obtain ⟨filePc, hfilePc, hinline⟩ := bind_eq_ok.mp hstack
  rw [StackEnv.getPcFileAddress, hvirtPc, ok_bind] at hfilePc
  obtain rfl := Except.ok.inj hfilePc
  split at hloop
  · obtain rfl : [] = physical := congrArg Prod.fst (Except.ok.inj hloop)
    exact absurd rfl hframes
  · rename_i hfile
    rw [if_neg hfile] at hinline
    cases physical with
    | nil => exact absurd rfl hframes
    | cons first rest =>
        obtain ⟨hcreated, hlength⟩ := unwindLoop_first (Except.ok.inj hloop)
        have hsame := hcreated.stack
        rw [hcreated.pc, hinline] at hsame
        have heq := Except.ok.inj hsame
        change inlineStack.length ≤ ((first :: rest).flatMap PhysicalFrame.frames).length
        rw [List.flatMap_cons, List.length_append, hlength, heq]
        omega

end Unwound

/-- After `stack::unwind`, and after every simulated step into an inlined
function, the selected frame exists exactly if some function at the thread's
program counter does not start at the program counter of the current thread. -/
theorem selectedFrame_exists_iff (env : StackEnv) (m : Machine) (tid : Tid) (rounds : Nat)
    (stack after : Stack) (inlineStack : List Die) (pc : FileAddr)
    (hunwind : Stack.unwind env m tid rounds stack = (after, .ok ⟨⟩))
    (hstack : env.inlineStackAtPc m tid = .ok inlineStack) (hsome : inlineStack ≠ [])
    (hpc : env.getPcFileAddress m none = .ok pc) :
    (∀ steps ≤ after.inlineHeight,
        (Stack.simulateInlinedStepIn^[steps] after).SelectedFrameExists inlineStack) ↔
      ∃ die ∈ inlineStack, env.lowPc die ≠ .ok pc := by
  obtain ⟨hcount, hcurrent, hframes⟩ := unwind_ok hunwind hstack hpc
  have hpositive := List.length_pos_iff.mpr hsome
  have hlt : after.inlineHeight < inlineStack.length ↔
      ∃ die ∈ inlineStack, env.lowPc die ≠ .ok pc := by
    have hreverse := countStarts_lt_iff hcount
    simpa using hreverse
  rw [← hlt]
  constructor
  · intro hselected
    have hheight := (hselected 0 (Nat.zero_le _)).1
    rw [Function.iterate_zero, id] at hheight
    omega
  · intro hheight steps hsteps
    rw [simulateInlinedStepIn_iterate after hcurrent]
    refine ⟨?_, fun hhas => ⟨Nat.le_refl _, ?_⟩⟩
    · change after.inlineHeight - steps ≤ inlineStack.length - 1
      omega
    · have hlength := hframes (by simpa [Stack.hasFrames] using hhas)
      change after.inlineHeight - steps < after.frames.length
      omega

section Threads

variable {env : StackEnv} {m m' : Machine} {tid : Tid}

theorem AgreeOnThread.getRegisters (h : AgreeOnThread m m' tid) :
    m.getRegisters (some tid) = m'.getRegisters (some tid) := by
  have hregs := h.regs
  simp only [Machine.getRegisters, Option.getD_some]
  cases hthread : m.thread? tid with
  | none =>
      rw [hthread] at hregs
      rw [Option.map_eq_none_iff.mp hregs.symm]
  | some thread =>
      rw [hthread] at hregs
      obtain ⟨thread', hthread', hsame⟩ := Option.map_eq_some_iff.mp hregs.symm
      rw [hthread']
      exact congrArg Except.ok hsame.symm

theorem AgreeOnThread.getPc (h : AgreeOnThread m m' tid) :
    m.getPc (some tid) = m'.getPc (some tid) := by
  rw [Machine.getPc, Machine.getPc, h.getRegisters]

theorem AgreeOnThread.inlineStackAtPc (h : AgreeOnThread m m' tid) :
    env.inlineStackAtPc m tid = env.inlineStackAtPc m' tid := by
  rw [StackEnv.inlineStackAtPc, StackEnv.inlineStackAtPc, StackEnv.getPcFileAddress,
    StackEnv.getPcFileAddress, h.getPc]

theorem AgreeOnThread.unwindEnv (h : AgreeOnThread m m' tid) :
    env.unwindEnv m = env.unwindEnv m' := by
  obtain ⟨⟨memory, mapped, iovMax, threads, script⟩, process, trace⟩ := m
  obtain ⟨⟨memory', mapped', iovMax', threads', script'⟩, process', trace'⟩ := m'
  obtain rfl : memory = memory' := h.memory
  obtain rfl : mapped = mapped' := h.mapped
  obtain rfl : iovMax = iovMax' := h.iovMax
  rfl

theorem AgreeOnThread.unwindLoop (h : AgreeOnThread m m' tid) (rounds : Nat) (regs : Registers)
    (virtPc : Word) : env.unwindLoop m rounds regs virtPc =
        env.unwindLoop m' rounds regs virtPc := by
  have hround : ∀ regs virtPc, env.unwindRound m regs virtPc = env.unwindRound m' regs virtPc := by
    intro regs virtPc
    simp only [StackEnv.unwindRound, StackEnv.unwindCaller, h.unwindEnv]
  induction rounds generalizing regs virtPc with
  | zero => rfl
  | succ rounds ih =>
      simp only [StackEnv.unwindLoop, hround, ih]

theorem AgreeOnThread.physicalFrames (h : AgreeOnThread m m' tid) (rounds : Nat) :
    Stack.physicalFrames env m tid rounds = Stack.physicalFrames env m' tid rounds := by
  simp only [Stack.physicalFrames, h.getPc, h.getRegisters, h.unwindLoop]

theorem unwind_inlineHeight (env : StackEnv) (m : Machine) (tid : Tid) (rounds : Nat)
    (stack : Stack) : (Stack.unwind env m tid rounds stack).1.inlineHeight =
      (Stack.resetInlineHeight env m tid stack).1.inlineHeight := by
  rw [Stack.unwind]
  split
  · rename_i hreset
    rw [hreset]
  · rename_i hreset
    rw [hreset]
    simp only
    split <;> rfl

theorem countStarts_cons {pc : FileAddr} {inner : Die} {outer : List Die}
    (h : env.lowPc inner = .ok pc) : 0 < (env.countStarts pc (inner :: outer)).1 := by
  rw [StackEnv.countStarts, h]
  simp

theorem countStarts_other {pc : FileAddr} {inner : Die} {outer : List Die}
    (h : env.lowPc inner ≠ .ok pc) : env.countStarts pc (inner :: outer) =
      (0, (env.lowPc inner).map fun _ => ⟨⟩) := by
  rw [StackEnv.countStarts]
  cases hlow : env.lowPc inner with
  | error failure => rfl
  | ok lowPc =>
      have hother : lowPc ≠ pc := fun heq => h (by rw [hlow, heq])
      simp [hother, Except.map]

end Threads

/-- What `stack::unwind` leaves for a thread does not depend on the other threads
exactly if the current threads are at one program counter, or neither of them is
at the start of the innermost function at the program counter of the thread. -/
theorem unwind_independent_iff (env : StackEnv) (m m' : Machine) (tid : Tid) (rounds : Nat)
    (stack : Stack) (pc pc' : FileAddr) (hagree : AgreeOnThread m m' tid)
    (hpc : env.getPcFileAddress m none = .ok pc) (hpc' : env.getPcFileAddress m' none = .ok pc') :
    (Stack.unwind env m tid rounds stack).1 = (Stack.unwind env m' tid rounds stack).1 ↔
      pc = pc' ∨ ∀ inlineStack inner, env.inlineStackAtPc m tid = .ok inlineStack →
        inlineStack.getLast? = some inner →
        env.lowPc inner ≠ .ok pc ∧ env.lowPc inner ≠ .ok pc' := by
  cases hstack : env.inlineStackAtPc m tid with
  | error failure =>
      have hstack' := hagree.inlineStackAtPc.symm.trans hstack
      refine ⟨fun _ => .inr fun _ _ h => (by cases h), fun _ => ?_⟩
      simp only [Stack.unwind, Stack.resetInlineHeight, hstack, hstack']
  | ok inlineStack =>
      have hstack' := hagree.inlineStackAtPc.symm.trans hstack
      have hreset := @resetInlineHeight_eq env m tid stack pc inlineStack hstack hpc
      have hreset' := @resetInlineHeight_eq env m' tid stack pc' inlineStack hstack' hpc'
      have hsame : env.countStarts pc inlineStack.reverse =
          env.countStarts pc' inlineStack.reverse →
          (Stack.unwind env m tid rounds stack).1 = (Stack.unwind env m' tid rounds stack).1 := by
        intro hcount
        simp only [Stack.unwind, hreset, hreset', hcount, hagree.physicalFrames]
      have hheight : (Stack.unwind env m tid rounds stack).1 =
            (Stack.unwind env m' tid rounds stack).1 →
          (env.countStarts pc inlineStack.reverse).1 =
            (env.countStarts pc' inlineStack.reverse).1 := by
        intro heq
        have hheights := congrArg Stack.inlineHeight heq
        rw [unwind_inlineHeight, unwind_inlineHeight, hreset, hreset'] at hheights
        exact hheights
      cases hreverse : inlineStack.reverse with
      | nil =>
          rw [hreverse] at hsame
          obtain rfl := List.reverse_eq_nil_iff.mp hreverse
          refine ⟨fun _ => .inr fun other inner hother hlast => ?_, fun _ => hsame rfl⟩
          obtain rfl := Except.ok.inj hother
          cases hlast
      | cons inner outer =>
          rw [hreverse] at hsame hheight
          have hlast : inlineStack.getLast? = some inner := by
            rw [← List.head?_reverse, hreverse]
            rfl
          constructor
          · intro heq
            by_contra hcontra
            push Not at hcontra
            obtain ⟨hne, other, last, hother, hlast', hstarts⟩ := hcontra
            obtain rfl := Except.ok.inj hother
            obtain rfl := Option.some.inj (hlast.symm.trans hlast')
            have hheights := hheight heq
            by_cases hat : env.lowPc inner = .ok pc
            · have hpositive := @countStarts_cons env pc inner outer hat
              have hat' : env.lowPc inner ≠ .ok pc' := by
                rw [hat]
                exact fun heq => hne (Except.ok.inj heq)
              rw [hheights, countStarts_other hat'] at hpositive
              exact absurd hpositive (Nat.lt_irrefl _)
            · have hpositive := @countStarts_cons env pc' inner outer (hstarts hat)
              rw [← hheights, countStarts_other hat] at hpositive
              exact absurd hpositive (Nat.lt_irrefl _)
          · rintro (rfl | hneither)
            · exact hsame rfl
            · obtain ⟨hat, hat'⟩ := hneither inlineStack inner rfl hlast
              rw [countStarts_other hat, countStarts_other hat'] at hsame
              exact hsame rfl

namespace SelectedFrameWitness

open StackWitness

/-- A thread at the first instruction of a function that is called by nothing. -/
def entered : Machine := stoppedAt (fun _ => 0) 0x1000 0x1008 1

/-- The height hides the only frame. -/
theorem selectedFrame_not_exists :
    ((Stack.unwind plainEnv entered 1 2 ⟨0, [], 0⟩).2.isOk = true ∧
      (Stack.unwind plainEnv entered 1 2 ⟨0, [], 0⟩).1.inlineHeight = 1 ∧
      (Stack.unwind plainEnv entered 1 2 ⟨0, [], 0⟩).1.frames.length = 1) ∧
    plainEnv.inlineStackAtPc entered 1 = .ok [functionAt 0x1000] ∧
    ¬ (Stack.unwind plainEnv entered 1 2 ⟨0, [], 0⟩).1.SelectedFrameExists [functionAt 0x1000] := by
  refine ⟨by decide +kernel, rfl, fun hselected => ?_⟩
  exact absurd hselected.1 (by decide +kernel)

theorem selectedFrame_exists_iff_inlined :
    (Stack.unwind inlinedEnv (stoppedAt (fun _ => 0) 0x1004 0x1008 1) 1 2
        ⟨0, [], 0⟩).1.inlineHeight = 1 ∧
    ∀ steps ≤ (Stack.unwind inlinedEnv (stoppedAt (fun _ => 0) 0x1004 0x1008 1) 1 2
        ⟨0, [], 0⟩).1.inlineHeight,
      (Stack.simulateInlinedStepIn^[steps] (Stack.unwind inlinedEnv
        (stoppedAt (fun _ => 0) 0x1004 0x1008 1) 1 2 ⟨0, [], 0⟩).1).SelectedFrameExists
        [functionAt 0x1000, functionAt 0x1004] := by
  have hiff := selectedFrame_exists_iff inlinedEnv (stoppedAt (fun _ => 0) 0x1004 0x1008 1) 1 2
    ⟨0, [], 0⟩ _ [functionAt 0x1000, functionAt 0x1004] ⟨some 0, 0x1004⟩ rfl rfl (by simp) rfl
  refine ⟨by decide +kernel, hiff.mpr ⟨functionAt 0x1000, List.mem_cons_self, fun heq => ?_⟩⟩
  exact absurd (Except.ok.inj heq) (by decide)

/-- The thread at the start of an inlined function; the other thread, elsewhere,
is the current one or not. -/
def current (tid : Tid) : Machine := stoppedAt (fun _ => 0) 0x1004 0x1008 tid

theorem current_agree : AgreeOnThread (current 1) (current 2) 1 := ⟨rfl, rfl, rfl, rfl⟩

theorem unwind_not_independent : AgreeOnThread (current 1) (current 2) 1 ∧
    (Stack.unwind inlinedEnv (current 1) 1 2 ⟨0, [], 0⟩).1 ≠
      (Stack.unwind inlinedEnv (current 2) 1 2 ⟨0, [], 0⟩).1 := by
  refine ⟨current_agree, fun heq => ?_⟩
  have hheights : (Stack.unwind inlinedEnv (current 1) 1 2 ⟨0, [], 0⟩).1.inlineHeight =
      (Stack.unwind inlinedEnv (current 2) 1 2 ⟨0, [], 0⟩).1.inlineHeight :=
    congrArg Stack.inlineHeight heq
  exact absurd hheights (by decide +kernel)

theorem unwind_independent_iff_inside :
    (Stack.unwind plainEnv (current 1) 1 2 ⟨0, [], 0⟩).1 =
      (Stack.unwind plainEnv (current 2) 1 2 ⟨0, [], 0⟩).1 := by
  refine (unwind_independent_iff plainEnv (current 1) (current 2) 1 2 ⟨0, [], 0⟩
    ⟨some 0, 0x1004⟩ ⟨some 0, 0x1008⟩ current_agree rfl rfl).mpr (.inr ?_)
  intro inlineStack inner hstack hlast
  obtain rfl : [functionAt 0x1000] = inlineStack := Except.ok.inj hstack
  obtain rfl : functionAt 0x1000 = inner := Option.some.inj hlast
  constructor
  · exact fun heq => absurd (Except.ok.inj heq) (by decide)
  · exact fun heq => absurd (Except.ok.inj heq) (by decide)

end SelectedFrameWitness

end Gsdb
