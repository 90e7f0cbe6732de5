/-
Stepping out of a function.  The thread is run until the return address of the
selected frame, again and again until there are fewer frames; a run that ends there
is reported as a step, and the loop takes it for another stop.
-/
import Gsdb.Calls
import Gsdb.RunUntil
import Gsdb.StackFrames

namespace Gsdb

open ByteMemory Effects Eff Debugger

namespace Stack

/-- `stack::frames`: the frames of inlined functions that are not entered yet are
left out. -/
def visible (stack : Stack) : List StackFrame := stack.frames.drop stack.inlineHeight

/-- The size of `stack::frames`, as `std::size_t`. -/
def visibleSize (stack : Stack) : Word :=
  BitVec.ofNat 64 stack.frames.length - BitVec.ofNat 64 stack.inlineHeight

end Stack

/-- What stepping takes from the debug information besides the call stack: where the
code of a function ends.  The loop of `stack::unwind` is given up after a number of
rounds. -/
structure StepEnv extends StackEnv where
  highPc : Die → Except Failure FileAddr
  handlers : HitHandlers
  unwindRounds : Nat

namespace Debugger

/-- `target::notify_stop`: the stack of the thread that stopped is unwound.  What an
exception leaves of it stays. -/
def notifyStop (env : StepEnv) (tid : Tid) (reason : StopReason) (stack : Stack) :
    Debugger Stack := do
  let m ← get
  if reason.reason = .stopped ∧ reason.tid = tid then
    match stack.unwind env.toStackEnv m tid env.unwindRounds with
    | (stack, .error failure) => if failure.isException then pure stack else throw failure
    | (stack, .ok _) => pure stack
  else pure stack

/-- `target::run_until_address`, with what it does to the stack of the thread. -/
def runAndUnwind (env : StepEnv) (address : Word) (tid : Tid) (stack : Stack) :
    Debugger (StopReason × Stack) := do
  let toRemove ← setTrap address
  resume (some tid)
  let reason ← waitOnSignal env.handlers (some tid)
  let stack ← notifyStop env tid reason stack
  let reason ← finishRun address tid toRemove reason
  pure (reason, stack)

/-- The loop of `target::step_out`, given up after a number of rounds. -/
def stepOutLoop (env : StepEnv) (returnAddress : Word) (tid : Tid) (frames : Word) :
    Nat → StopReason → Stack → Debugger (StopReason × Stack)
  | 0, _, _ => throw .schedule
  | rounds + 1, reason, stack =>
      if frames ≤ stack.visibleSize then do
        let (reason, stack) ← runAndUnwind env returnAddress tid stack
        if !reason.isBreakpoint then pure (reason, stack)
        else do
          let m ← get
          let pc ← getPc m.process.currentThread
          if pc ≠ returnAddress then pure (reason, stack)
          else stepOutLoop env returnAddress tid frames rounds reason stack
      else pure (reason, stack)

/-- `target::step_out`, for a thread with a stack. -/
def stepOut (env : StepEnv) (rounds : Nat) (otid : Option Tid) (stack : Stack) :
    Debugger (StopReason × Stack) := do
  let m ← get
  let tid := otid.getD m.process.currentThread
  let inlineStack ← ofExcept (env.inlineStackAtPc m tid)
  if 1 < inlineStack.length ∧ stack.inlineHeight < inlineStack.length - 1 then do
    let currentFrame ← ofExcept
      (inBounds inlineStack[inlineStack.length - stack.inlineHeight - 1]?)
    let highPc ← ofExcept (env.highPc currentFrame)
    let returnAddress ← ofExcept (highPc.toVirtAddr env.elves)
    runAndUnwind env returnAddress tid stack
  else do
    -- `frames()[current_frame_index() + 1]`; the height cancels out
    let caller ← ofExcept (inBounds stack.frames[stack.currentFrame + 1]?)
    let returnAddress ← ofExcept (caller.regs.readU64 .rip)
    stepOutLoop env returnAddress tid stack.visibleSize rounds
      ⟨0, .stopped, 0, none, none⟩ stack

end Debugger

/-- The visible frames are the calls that a thread is in, one for each. -/
structure Stack.Depicts (stack : Stack) (c : CallState Word) : Prop where
  frames : stack.visible.length = c.returns.length + 1
  callers : ∀ (index : Nat) (address : Word), c.returns[index]? = some address →
    ∃ frame, stack.visible[index + 1]? = some frame ∧ frame.regs.readU64 .rip = .ok address

/-- Whenever the thread is run until the address it is stopped there at its next
arrival, by nothing else, and the debugger sees the calls that it is in. -/
inductive Accompanies (env : StepEnv) (tid : Tid) (address : Word) :
    List (CallState Word) → Stack → Machine → Prop where
  | done {stack : Stack} {m : Machine} : Accompanies env tid address [] stack m
  | arrives {c : CallState Word} {later : List (CallState Word)} {stack stack' : Stack}
      {m m' : Machine} {reason : StopReason}
      (hround : runAndUnwind env address tid stack m = (.ok (reason, stack'), m'))
      (hstops : StopsAt tid address (.ok reason, m')) (hdepicts : stack'.Depicts c)
      (hlater : Accompanies env tid address later stack' m') :
      Accompanies env tid address (c :: later) stack m

section Rounds

variable {env : StepEnv} {tid : Tid} {address : Word} {stack stack' : Stack} {m m' : Machine}
  {reason : StopReason}

theorem notifyStop_machine (h : notifyStop env tid reason stack m = (.ok stack', m')) : m' = m := by
  rw [notifyStop, bind_of_ok (get_apply m)] at h
  split at h
  · rcases hunwind : stack.unwind env.toStackEnv m tid env.unwindRounds with ⟨unwound, result⟩
    rw [hunwind] at h
    cases result with
    | error failure =>
        change (if failure.isException then pure unwound else throw failure : Debugger Stack) m = _
          at h
        split at h
        · cases h
          rfl
        · cases h
    | ok u =>
        cases h
        rfl
  · cases h
    rfl

/-- A round of the loop is a run until the address. -/
theorem runUntilAddress_of_runAndUnwind
    (h : runAndUnwind env address tid stack m = (.ok (reason, stack'), m')) :
    runUntilAddress env.handlers address (some tid) m = (.ok reason, m') := by
  obtain ⟨toRemove, m₁, htrap, h₁⟩ := Eff.bind_eq_ok.mp h
  obtain ⟨u, m₂, hresume, h₂⟩ := Eff.bind_eq_ok.mp h₁
  obtain ⟨first, m₃, hwait, h₃⟩ := Eff.bind_eq_ok.mp h₂
  obtain ⟨unwound, m₄, hnotify, h₄⟩ := Eff.bind_eq_ok.mp h₃
  obtain rfl := notifyStop_machine hnotify
  obtain ⟨last, m₅, hfinish, h₅⟩ := Eff.bind_eq_ok.mp h₄
  cases h₅
  rw [runUntilAddress, bind_of_ok (get_apply m), Option.getD_some, bind_of_ok htrap,
    bind_of_ok hresume, bind_of_ok hwait, hfinish]

theorem not_isBreakpoint_of_isStep (h : reason.isStep = true) : reason.isBreakpoint = false := by
  have htrap : reason.trapReason = some .singleStep := by
    simpa [StopReason.isStep] using (of_decide_eq_true h).2.2
  simp [StopReason.isBreakpoint, htrap]

/-- The loop is left after the first run that ends at the address. -/
theorem stepOutLoop_once (rounds : Nat) (before : StopReason)
    (hround : runAndUnwind env address tid stack m = (.ok (reason, stack'), m'))
    (hstep : reason.isStep = true) :
    stepOutLoop env address tid stack.visibleSize (rounds + 1) before stack m =
      (.ok (reason, stack'), m') := by
  have hleft : (!reason.isBreakpoint) = true := by
    rw [not_isBreakpoint_of_isStep hstep]
    rfl
  rw [stepOutLoop, if_pos (BitVec.le_refl _), bind_of_ok hround]
  exact congrFun (if_pos hleft) m'

/-- The return address that is read is that of the selected call. -/
theorem Stack.Depicts.caller {c : CallState Word} {index : Nat} (h : stack.Depicts c)
    (hselected : stack.currentFrame = stack.inlineHeight + index)
    (hreturn : c.returns[index]? = some address) :
    ∃ frame, stack.frames[stack.currentFrame + 1]? = some frame ∧
      frame.regs.readU64 .rip = .ok address := by
  obtain ⟨frame, hframe, hrip⟩ := h.callers index address hreturn
  rw [Stack.visible, List.getElem?_drop] at hframe
  refine ⟨frame, ?_, hrip⟩
  rw [hselected]
  exact hframe

end Rounds

section Leaving

variable {env : StepEnv} {tid : Tid} {address : Word} {stack : Stack} {m : Machine}

/-- Outside of inlined functions, stepping out is one run until the return address. -/
theorem stepOut_once {otid : Option Tid} {inlineStack : List Die} {start : CallState Word}
    {index : Nat} {reason : StopReason} {stack' : Stack} {m' : Machine} (rounds : Nat)
    (htid : otid.getD m.process.currentThread = tid)
    (hinline : env.inlineStackAtPc m tid = .ok inlineStack)
    (hframe : inlineStack.length - 1 ≤ stack.inlineHeight) (hstart : stack.Depicts start)
    (hselected : stack.currentFrame = stack.inlineHeight + index)
    (hreturn : start.returns[index]? = some address)
    (hround : runAndUnwind env address tid stack m = (.ok (reason, stack'), m'))
    (hstep : reason.isStep = true) :
    stepOut env (rounds + 1) otid stack m = (.ok (reason, stack'), m') := by
  obtain ⟨caller, hcaller, hrip⟩ := hstart.caller hselected hreturn
  have houtside : ¬ (1 < inlineStack.length ∧ stack.inlineHeight < inlineStack.length - 1) := by
    rintro ⟨-, hinside⟩
    exact absurd hinside (Nat.not_lt.mpr hframe)
  have hinline' : ofExcept (env.inlineStackAtPc m tid) m = (.ok inlineStack, m) := by
    rw [hinline]
    rfl
  have hcaller' : ofExcept (inBounds stack.frames[stack.currentFrame + 1]?) m =
      (.ok caller, m) := by
    rw [hcaller]
    rfl
  have hrip' : ofExcept (caller.regs.readU64 .rip) m = (.ok address, m) := by
    rw [hrip]
    rfl
  rw [stepOut, bind_of_ok (get_apply m), htid, bind_of_ok hinline', if_neg houtside,
    bind_of_ok hcaller', bind_of_ok hrip']
  exact stepOutLoop_once rounds _ hround hstep

/-- Stepping out of a frame that is not inlined, with a thread that gets to the return
address: it ends there, with fewer frames if and only if the thread returned more
often than it called until then.  For the innermost frame this is so exactly when its
first arrival is the return of the call itself, and not that of a deeper one from the
same place. -/
theorem stepOut_leaves_iff (env : StepEnv) (rounds : Nat) (otid : Option Tid) {stack : Stack}
    {m : Machine} {inlineStack : List Die} {start : CallState Word}
    {future : List (CallStep Word)} {index : Nat} {address : Word}
    (hinline : env.inlineStackAtPc m (otid.getD m.process.currentThread) = .ok inlineStack)
    (hframe : inlineStack.length - 1 ≤ stack.inlineHeight) (hstart : stack.Depicts start)
    (hselected : stack.currentFrame = stack.inlineHeight + index)
    (hreturn : start.returns[index]? = some address)
    (hgets : start.arrivals address future ≠ [])
    (hfollows : Accompanies env (otid.getD m.process.currentThread) address
      (start.arrivals address future) stack m) :
    ∃ reason stack' m', stepOut env (rounds + 1) otid stack m = (.ok (reason, stack'), m') ∧
      StopsAt (otid.getD m.process.currentThread) address (.ok reason, m') ∧
      (stack'.visible.length < stack.visible.length ↔ start.LeavesFirst address future) ∧
      (index = 0 → (start.LeavesFirst address future ↔
        (start.arrivals address future).head? = some ⟨address, start.returns.tail⟩)) := by
  obtain ⟨first, later, harrivals⟩ := List.exists_cons_of_ne_nil hgets
  rw [harrivals] at hfollows
  cases hfollows with
  | @arrives _ _ _ stack' _ m' reason hround hstops hdepicts _ =>
      have hstep : reason.isStep = true := by
        obtain ⟨_, _, heq, hstep, -⟩ := hstops
        cases heq
        exact hstep
      obtain ⟨steps, hbegins, hfirst⟩ := CallState.exists_getsTo harrivals
      have hdepth := CallState.run_depth hfirst.run
      have hleaves : start.LeavesFirst address future ↔
          steps.countP CallStep.isCall < steps.countP CallStep.isRet := by
        constructor
        · exact fun h => h steps first hbegins hfirst
        · intro hmore other c' hother hgetsTo
          obtain ⟨later', harrivals'⟩ := hgetsTo.head_arrivals hother
          obtain rfl : first = c' :=
            (List.cons.inj (harrivals.symm.trans harrivals')).1
          have hdepth' := CallState.run_depth hgetsTo.run
          omega
      refine ⟨reason, stack', m', stepOut_once rounds rfl hinline hframe hstart hselected hreturn
        hround hstep, hstops, ?_, ?_⟩
      · rw [hdepicts.frames, hstart.frames, hleaves]
        omega
      · rintro rfl
        obtain ⟨outer, houter⟩ : ∃ outer, start.returns = address :: outer := by
          cases hreturns : start.returns with
          | nil =>
              rw [hreturns] at hreturn
              cases hreturn
          | cons other outer =>
              rw [hreturns] at hreturn
              cases hreturn
              exact ⟨outer, rfl⟩
        rw [hleaves, hfirst.leaves_iff houter, harrivals, houter]
        exact ⟨fun h => congrArg some h, fun h => Option.some.inj h⟩

end Leaving

/-- Frames with these program counters above the first one depict these calls. -/
theorem Stack.depicts_of_rips {stack : Stack} {c : CallState Word}
    (hframes : stack.visible.length = c.returns.length + 1)
    (hrips : stack.visible.tail.map (fun frame => (frame.regs.readU64 .rip).toOption) =
      c.returns.map some) : stack.Depicts c := by
  refine ⟨hframes, fun index address hreturn => ?_⟩
  have hsome : (stack.visible.tail.map fun frame => (frame.regs.readU64 .rip).toOption)[index]? =
      some (some address) := by
    rw [hrips, List.getElem?_map, hreturn]
    rfl
  rw [List.getElem?_map, List.getElem?_tail] at hsome
  obtain ⟨frame, hframe, hrip⟩ := Option.map_eq_some_iff.mp hsome
  refine ⟨frame, hframe, ?_⟩
  cases hread : frame.regs.readU64 .rip with
  | error failure =>
      rw [hread] at hrip
      cases hrip
  | ok value =>
      rw [hread] at hrip
      cases hrip
      rfl

namespace StepOutWitness

open StackWitness

/-- A stack on which the frame at 0x7000 was called from 0x1008 by the frame at 0x7100. -/
def stackMemory (address : Word) : Byte :=
  if address = 0x7001 then 0x71
  else if address = 0x7008 then 0x08
  else if address = 0x7009 then 0x10
  else 0

def env : StepEnv where
  toStackEnv := plainEnv
  highPc := fun _ => .ok ⟨some 0, 0x1010⟩
  handlers := ⟨fun _ _ => ([], .ok true)⟩
  unwindRounds := 4

/-- The thread is stopped by the trap at 0x1008, in a frame. -/
def trapIn (rbp : Word) : WaitAnswer :=
  .report ⟨1, .stopped sigtrap 0, .siKernel, (regsAt 0x1009 rbp).data,
    Function.update stackMemory 0x1008 int3⟩

/-- A thread in a function that called itself before the address 0x1008. -/
def recursive (script : List WaitAnswer) : Machine :=
  (stoppedAt stackMemory 0x1004 0x1008 1).setScript script

def stackOf (m : Machine) : Stack := (Stack.unwind plainEnv m 1 4 ⟨0, [], 0⟩).1

def start : CallState Word := ⟨0x1004, [0x1008]⟩

def rips (stack : Stack) : List (Option Word) :=
  stack.visible.map fun frame => (frame.regs.readU64 .rip).toOption

/-- What a round leaves: whether it was a step of the thread, where the thread is, and
the frames that are seen. -/
def seen (m : Machine) : Option ((Bool × Tid × Word × Option Word) × List (Option Word)) :=
  match runAndUnwind env 0x1008 1 (stackOf m) m with
  | (.ok (reason, unwound), m) =>
      some ((reason.isStep && m.isStopped 1, reason.tid, User.pc (m.kernel.threads 1).user,
        (getPc 1 m).1.toOption), rips unwound)
  | _ => none

theorem depicts_of_rips {stack : Stack} {c : CallState Word}
    (h : rips stack = some c.pc :: c.returns.map some) : stack.Depicts c := by
  refine Stack.depicts_of_rips ?_ ?_
  · simpa [rips] using congrArg List.length h
  · rw [List.map_tail]
    exact congrArg List.tail h

/-- A round that is seen to end at the address, with these calls. -/
theorem round_of_seen {m : Machine} {c : CallState Word}
    (h : seen m = some ((true, 1, 0x1008, some 0x1008), some c.pc :: c.returns.map some)) :
    ∃ reason stack' m', runAndUnwind env 0x1008 1 (stackOf m) m = (.ok (reason, stack'), m') ∧
      StopsAt 1 0x1008 (.ok reason, m') ∧ reason.isStep = true ∧ stack'.Depicts c := by
  rw [seen] at h
  rcases hround : runAndUnwind env 0x1008 1 (stackOf m) m with ⟨result, m'⟩
  rw [hround] at h
  cases result with
  | error failure => cases h
  | ok both =>
      obtain ⟨reason, stack'⟩ := both
      obtain ⟨hstop, hrips⟩ := Prod.mk.inj (Option.some.inj h)
      obtain ⟨hstep, hrest⟩ := Prod.mk.inj hstop
      obtain ⟨htid, hrest⟩ := Prod.mk.inj hrest
      obtain ⟨hpc, hread⟩ := Prod.mk.inj hrest
      rw [Bool.and_eq_true] at hstep
      have hgetPc : getPc 1 m' = (.ok 0x1008, m') := by
        rcases hget : getPc 1 m' with ⟨value, m''⟩
        rw [hget] at hread
        cases value with
        | error failure => cases hread
        | ok value =>
            cases hread
            rw [(getPc_eq_ok hget).1]
      exact ⟨reason, stack', m', rfl, ⟨reason, m', rfl, hstep.1, htid, hstep.2, hpc, hgetPc⟩,
        hstep.1, depicts_of_rips hrips⟩

/-- The call returns: one frame is left. -/
def returning : Machine := recursive [trapIn 0x7100]

/-- It calls itself from the same place once more, and that call returns. -/
def recurring : Machine := recursive [trapIn 0x7000]

theorem stepOut_leaves_iff_returning :
    (start.arrivals 0x1008 [.jump 0x1005, .ret]).head? = some ⟨0x1008, []⟩ ∧
      ∃ reason stack' m',
        stepOut env 1 (some 1) (stackOf returning) returning = (.ok (reason, stack'), m') ∧
        stack'.visible.length < (stackOf returning).visible.length := by
  obtain ⟨reason, stack', m', hround, hstops, -, hdepicts⟩ :=
    round_of_seen (m := returning) (c := ⟨0x1008, []⟩) (by decide +kernel)
  have hstart : (stackOf returning).Depicts start := depicts_of_rips (by decide +kernel)
  have hreturn : start.returns[0]? = some 0x1008 := rfl
  have hgets : start.arrivals 0x1008 [.jump 0x1005, .ret] ≠ [] := by decide
  have hfollows : Accompanies env 1 0x1008 (start.arrivals 0x1008 [.jump 0x1005, .ret])
      (stackOf returning) returning := .arrives hround hstops hdepicts .done
  obtain ⟨reason, stack', m', hrun, -, hleaves, hfirst⟩ := stepOut_leaves_iff env 0 (some 1)
    rfl (by decide +kernel) hstart (by decide +kernel) hreturn hgets hfollows
  exact ⟨by decide, reason, stack', m', hrun, hleaves.mpr ((hfirst rfl).mpr (by decide))⟩

/-- A deeper call from the same place returns first: the thread is stopped at the
return address, with as many frames as before. -/
theorem stepOut_not_leaves :
    (stackOf recurring).Depicts start ∧
      Accompanies env 1 0x1008 (start.arrivals 0x1008 [.call 0x1000 0x1008, .ret])
        (stackOf recurring) recurring ∧
      ∃ reason stack' m',
        stepOut env 1 (some 1) (stackOf recurring) recurring = (.ok (reason, stack'), m') ∧
        StopsAt 1 0x1008 (.ok reason, m') ∧
        ¬ stack'.visible.length < (stackOf recurring).visible.length := by
  obtain ⟨reason, stack', m', hround, hstops, hstep, hdepicts⟩ :=
    round_of_seen (m := recurring) (c := ⟨0x1008, [0x1008]⟩) (by decide +kernel)
  have hstart : (stackOf recurring).Depicts start := depicts_of_rips (by decide +kernel)
  refine ⟨hstart, .arrives hround hstops hdepicts .done, reason, stack', m', ?_, hstops, ?_⟩
  · have hreturn : start.returns[0]? = some 0x1008 := rfl
    have hinline : env.inlineStackAtPc recurring 1 = .ok [functionAt 0x1000] := rfl
    exact stepOut_once 0 rfl hinline (by decide) hstart (by decide +kernel) hreturn hround hstep
  · rw [hdepicts.frames, hstart.frames]
    decide

end StepOutWitness

end Gsdb
