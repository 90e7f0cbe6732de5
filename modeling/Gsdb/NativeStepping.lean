/-
Stepping over and into, in terms of the program alone.  Both loops go on while the program stays
on the line, a round at a time; a round is an instruction of the program, or what its instructions
lead to from a call or from where a function begins.
-/
import Gsdb.NativeRounds

namespace Gsdb

open ByteMemory Effects Eff Debugger PatchedExecution

theorem ofExcept_eq_ok {ε σ α : Type} {x : Except ε α} {s s' : σ} {a : α} :
    (ofExcept x : Eff ε σ α) s = (.ok a, s') ↔ s' = s ∧ x = .ok a := by
  rw [ofExcept_apply, Prod.mk.injEq, and_comm, eq_comm]

/-- Steps up to the first state that is left, through states that are stayed in. -/
inductive Until {σ : Type} (step : σ → σ → Prop) (stays left : σ → Prop) : σ → σ → Prop where
  | last {s t : σ} (next : step s t) (gone : left t) : Until step stays left s t
  | more {s x t : σ} (next : step s x) (here : stays x) (later : Until step stays left x t) :
      Until step stays left s t

/-- Whether stepping on a line goes on at a state, which it asks the line table. -/
def StepInEnv.OnLine (env : StepInEnv) (line : Option LineAt) (on : Bool) (s : User × Memory 64) :
    Prop :=
  ∃ entry, env.lineEntryAt (User.pc s.1) = .ok entry ∧
    ((LineAt.same entry line || LineAt.endSequence entry) && entry.isSome) = on

/-- What `target::step_in` runs to from another line, for a program counter. -/
def StepInEnv.bodyAt (env : StepInEnv) (address : Word) : Except Failure (Option Word) := do
  let pc := toFileAddr env.elves address
  if pc.elf = none then pure none
  else do
    match ← env.functionContainingAddress pc with
    | none => pure none
    | some func => do
        let lowPc ← env.lowPc func
        if lowPc = pc then do
          match ← env.lineEntryAt address with
          | none => pure none
          | some line => do
              let next ← line.table.advance line.it
              let address ← FileAddr.toVirtAddr env.elves ⟨some line.elf, next.current.address⟩
              pure (some address)
        else pure none

theorem bodyAddress_eq (env : StepInEnv) {m : Machine} {tid : Tid} {pc : Word}
    (hpc : m.getPc (some tid) = .ok pc) : env.bodyAddress m tid = env.bodyAt pc := by
  rw [StepInEnv.bodyAddress, lineEntryAtPc_eq env hpc, StackEnv.getPcFileAddress, hpc]
  rfl

/-- Where the call ends at which a program is, if it is at one, by what the disassembler says of
the program's own memory. -/
def StepOverEnv.behind (env : StepOverEnv) (s : User × Memory 64) : Except Failure (Option Word) :=
  behindCall (env.instructionsFrom 2 (User.pc s.1) (s.2.read (User.pc s.1) 30))

theorem stopFrame_layout (handlers : HitHandlers) :
    StopFrame handlers (fun _ => True) (Fixes Layout) where
  enableSite := siteFrame_layout.enableSite
  disableSite := siteFrame_layout.disableSite
  action := fun _ _ action _ => by
    cases action with
    | site op => exact siteFrame_layout.run (.inl rfl)
    | breakpoints points => exact Respects.modify fun _ => rfl
  updateThread := fun _ _ _ _ => rfl
  user := fun _ _ _ _ => rfl
  script := fun _ _ => rfl
  deliver := fun _ _ _ _ _ _ _ => rfl
  running := fun _ _ _ _ _ => rfl
  track := fun _ _ _ _ => rfl
  cleanup := fun _ _ => rfl
  process := fun _ _ _ _ _ => rfl
  lifecycle := fun _ _ => rfl
  note := fun _ _ _ => rfl
  augment := fun reason _ _ m => by
    rcases augmentStopReason_cases reason m with ⟨e, h⟩ | ⟨info, -, -, h⟩ | ⟨-, h⟩ <;> rw [h] <;>
      rfl

section Frames

variable {env : StepEnv} {tid : Tid} {stack : Stack}

theorem report_frame {R : Machine → Machine → Prop} [Std.Refl R] [IsTrans Machine R]
    (hupdate : ∀ tid f, Respects R (updateThread tid f)) (tid : Tid) (reason : StopReason) :
    Respects R (report tid reason) :=
  Respects.bind (Respects.asks _) fun _ => Respects.bind (hupdate tid _) fun _ => Respects.pure _

theorem report_current (tid : Tid) (reason : StopReason) :
    Respects (Carries Current) (report tid reason) :=
  Respects.bind (Respects.asks _) fun _ => Respects.bind (Respects.modify fun _ hm =>
    Current.update (f := fun t => { t with reason := reason }) hm tid fun _ => rfl) fun _ =>
      Respects.pure _

theorem stepAndUnwind_current : Triple Current (stepAndUnwind env tid stack) (fun _ => Current)
    (fun _ => Current) := by
  refine Triple.bind ((cacheRules env.handlers).beginStep tid) fun begun => ?_
  refine Triple.bind ((cacheRules env.handlers).waitOnSignal_stepped tid) fun reason => ?_
  refine Triple.bind (keeps_current (notifyStop_respects tid reason stack)) fun stack => ?_
  exact Triple.bind ((cacheRules env.handlers).reenable reason _ _) fun _ =>
    Triple.pure fun _ hm => hm

theorem runAndUnwind_current (address : Word) : Triple Current (runAndUnwind env address tid stack)
    (fun _ => Current) (fun _ => Current) := by
  refine Triple.bind (keeps_current (setTrap_frame siteFrame_current address)) fun toRemove => ?_
  refine Triple.bind ((cacheRules env.handlers).resume _) fun _ => ?_
  refine Triple.bind ((cacheRules env.handlers).waitOnSignal _) fun reason => ?_
  refine Triple.bind (keeps_current (notifyStop_respects tid reason stack)) fun stack => ?_
  refine Triple.bind (keeps_current ?_) fun reason => Triple.pure fun _ hm => hm
  refine Respects.bind (Respects.ite (Respects.bind (readRegister_respects _ _) fun _ =>
    Respects.pure _) (Respects.pure _)) fun relabelled => ?_
  exact Respects.bind (removeTrap_frame siteFrame_current _ _) fun _ =>
    report_current tid relabelled

end Frames

section Frames

variable {env : StepInEnv} {R : Machine → Machine → Prop} [Std.Refl R] [IsTrans Machine R]

theorem StopFrame.stepInLoop (h : StopFrame env.handlers (fun _ => True) R) (tid : Tid)
    (line : Option LineAt) (rounds : Nat) (stack : Stack) :
    Respects R (stepInLoop env tid line rounds stack) := by
  induction rounds generalizing stack with
  | zero => exact Respects.throw _
  | succ rounds ih =>
      refine Respects.bind (h.stepAndUnwind tid stack) fun outcome => Respects.ite ?_ ?_
      · exact Respects.bind (report_frame (fun tid f => h.updateThread tid trivial f) tid _)
          fun _ => Respects.pure _
      · refine Respects.bind Respects.get fun m => Respects.bind (Respects.ofExcept _) fun _ => ?_
        exact Respects.ite (ih _) (Respects.pure _)

theorem StopFrame.finishStepIn (h : StopFrame env.handlers (fun _ => True) R)
    (hsite : SiteFrame true R) (tid : Tid) (stack : Stack) :
    Respects R (finishStepIn env tid stack) := by
  refine Respects.bind Respects.get fun m => Respects.bind (Respects.ofExcept _) fun body => ?_
  cases body with
  | none =>
      exact Respects.bind (report_frame (fun tid f => h.updateThread tid trivial f) tid _)
        fun _ => Respects.pure _
  | some address => exact h.runAndUnwind hsite address tid stack

theorem StopFrame.stepIn (h : StopFrame env.handlers (fun _ => True) R)
    (hsite : SiteFrame true R) (rounds : Nat) (otid : Option Tid) (stack : Stack) :
    Respects R (stepIn env rounds otid stack) := by
  refine Respects.bind Respects.get fun m => Respects.ite ?_ ?_
  · exact Respects.bind (report_frame (fun tid f => h.updateThread tid trivial f) _ _)
      fun _ => Respects.pure _
  · refine Respects.bind (Respects.ofExcept _) fun line => ?_
    refine Respects.bind (h.stepInLoop _ line rounds stack) fun outcome => ?_
    rcases outcome with ⟨_ | reason, stack⟩
    · exact h.finishStepIn hsite _ _
    · exact Respects.pure _

theorem stepInLoop_current (tid : Tid) (line : Option LineAt) (rounds : Nat) (stack : Stack) :
    Triple Current (stepInLoop env tid line rounds stack) (fun _ => Current)
      (fun _ => Current) := by
  induction rounds generalizing stack with
  | zero => exact Triple.throw fun _ hm => hm
  | succ rounds ih =>
      refine Triple.bind stepAndUnwind_current fun outcome => ?_
      refine Triple.ite (fun _ => keeps_current (Respects.bind (report_current tid _) fun _ =>
        Respects.pure _)) fun _ => ?_
      refine Triple.get_bind fun m hm => Triple.bind (Q := fun _ => Current)
        ((keeps_current (Respects.ofExcept _)).pre fun s hs => hs ▸ hm) fun line => ?_
      exact Triple.ite (fun _ => ih _) fun _ => Triple.pure fun _ hm => hm

theorem finishStepIn_current (tid : Tid) (stack : Stack) :
    Triple Current (finishStepIn env tid stack) (fun _ => Current) (fun _ => Current) := by
  refine Triple.get_bind fun m hm => Triple.bind (Q := fun _ => Current)
    ((keeps_current (Respects.ofExcept _)).pre fun s hs => hs ▸ hm) fun body => ?_
  cases body with
  | none => exact keeps_current (Respects.bind (report_current tid _) fun _ => Respects.pure _)
  | some address => exact runAndUnwind_current address

theorem stepIn_current (rounds : Nat) (otid : Option Tid) (stack : Stack) :
    Triple Current (stepIn env rounds otid stack) (fun _ => Current) (fun _ => Current) := by
  refine Triple.get_bind fun m hm => Triple.ite (fun _ => ?_) fun _ => ?_
  · exact (keeps_current (Respects.bind (report_current _ _) fun _ => Respects.pure _)).pre
      fun s hs => hs ▸ hm
  · refine Triple.bind (Q := fun _ => Current) ((keeps_current (Respects.ofExcept _)).pre
      fun s hs => hs ▸ hm) fun line => ?_
    refine Triple.bind (stepInLoop_current _ line rounds stack) fun outcome => ?_
    rcases outcome with ⟨_ | reason, stack⟩
    · exact finishStepIn_current _ _
    · exact Triple.pure fun _ hm => hm

end Frames

section Frames

variable {env : StepOverEnv} {R : Machine → Machine → Prop} [Std.Refl R] [IsTrans Machine R]

theorem overAddress_respects (tid : Tid) (stack : Stack) :
    Respects R (overAddress env tid stack) := by
  refine Respects.bind Respects.get fun m => Respects.bind (Respects.ofExcept _) fun _ => ?_
  refine Respects.ite ?_ ?_
  · exact Respects.bind (Respects.ofExcept _) fun _ => Respects.bind (Respects.ofExcept _) fun _ =>
      Respects.bind (Respects.ofExcept _) fun _ => Respects.pure _
  · exact Respects.bind (readRegister_respects _ _) fun _ =>
      Respects.bind (Respects.ofExcept _) fun _ => Respects.ofExcept _

theorem StopFrame.stepOverRound (h : StopFrame env.handlers (fun _ => True) R)
    (hsite : SiteFrame true R) (tid : Tid) (stack : Stack) :
    Respects R (stepOverRound env tid stack) := by
  refine Respects.bind (overAddress_respects tid stack) fun target => ?_
  cases target with
  | none => exact Respects.bind (h.stepAndUnwind tid stack) fun _ => Respects.pure _
  | some address =>
      refine Respects.bind (h.runAndUnwind hsite address tid stack) fun outcome => ?_
      exact Respects.ite (Respects.pure _)
        (Respects.bind (readRegister_respects _ _) fun _ => Respects.pure _)

theorem StopFrame.stepOverLoop (h : StopFrame env.handlers (fun _ => True) R)
    (hsite : SiteFrame true R) (tid : Tid) (line : Option LineAt) (rounds : Nat) (stack : Stack) :
    Respects R (stepOverLoop env tid line rounds stack) := by
  have hreport : ∀ reason, Respects R (report tid reason) :=
    report_frame (fun tid f => h.updateThread tid trivial f) tid
  induction rounds generalizing stack with
  | zero => exact Respects.throw _
  | succ rounds ih =>
      refine Respects.bind (h.stepOverRound hsite tid stack) fun outcome => Respects.ite ?_ ?_
      · exact Respects.bind (hreport _) fun _ => Respects.pure _
      · refine Respects.bind Respects.get fun m => Respects.bind (Respects.ofExcept _) fun _ => ?_
        exact Respects.ite (ih _) (Respects.bind (hreport _) fun _ => Respects.pure _)

theorem stepOverRound_current (tid : Tid) (stack : Stack) :
    Triple Current (stepOverRound env tid stack) (fun _ => Current) (fun _ => Current) := by
  refine Triple.bind (keeps_current (overAddress_respects tid stack)) fun target => ?_
  cases target with
  | none => exact Triple.bind stepAndUnwind_current fun _ => Triple.pure fun _ hm => hm
  | some address =>
      refine Triple.bind (runAndUnwind_current address) fun outcome => keeps_current ?_
      exact Respects.ite (Respects.pure _)
        (Respects.bind (readRegister_respects _ _) fun _ => Respects.pure _)

theorem stepOverLoop_current (tid : Tid) (line : Option LineAt) (rounds : Nat) (stack : Stack) :
    Triple Current (stepOverLoop env tid line rounds stack) (fun _ => Current)
      (fun _ => Current) := by
  have hreport : ∀ (reason : StopReason) (stack : Stack), Respects (Carries Current)
      (report tid reason >>= fun reason => pure (reason, stack)) := fun reason stack =>
    Respects.bind (report_current tid reason) fun _ => Respects.pure _
  induction rounds generalizing stack with
  | zero => exact Triple.throw fun _ hm => hm
  | succ rounds ih =>
      refine Triple.bind (stepOverRound_current tid stack) fun outcome => ?_
      refine Triple.ite (fun _ => keeps_current (hreport _ _)) fun _ => ?_
      refine Triple.get_bind fun m hm => Triple.bind (Q := fun _ => Current)
        ((keeps_current (Respects.ofExcept _)).pre fun s hs => hs ▸ hm) fun line => ?_
      exact Triple.ite (fun _ => ih _) fun _ => keeps_current (hreport _ _)

end Frames

section Inversion

/-- How the loop of `target::step_over` goes on after a round. -/
inductive OverEnds (env : StepOverEnv) (tid : Tid) (line : Option LineAt) (rounds : Nat)
    (reason₁ : StopReason) (stack₁ : Stack) (m₁ : Machine) (reason : StopReason) (stack' : Stack)
    (m' : Machine) : Bool → Prop where
  | last (hend : report tid reason₁ m₁ = (.ok reason, m')) :
      OverEnds env tid line rounds reason₁ stack₁ m₁ reason stack' m' true
  | onLine {entry : Option LineAt} (hline : env.lineEntryAtPc m₁ (some tid) = .ok entry)
      (hon : ((LineAt.same entry line || LineAt.endSequence entry) && entry.isSome) = true)
      (hlater : stepOverLoop env tid line rounds stack₁ m₁ = (.ok (reason, stack'), m')) :
      OverEnds env tid line rounds reason₁ stack₁ m₁ reason stack' m' false
  | otherLine {entry : Option LineAt} (hline : env.lineEntryAtPc m₁ (some tid) = .ok entry)
      (hoff : ((LineAt.same entry line || LineAt.endSequence entry) && entry.isSome) = false)
      (hend : report tid reason₁ m₁ = (.ok reason, m')) :
      OverEnds env tid line rounds reason₁ stack₁ m₁ reason stack' m' false

/-- How the loop of `target::step_in` goes on after a step. -/
inductive InEnds (env : StepInEnv) (tid : Tid) (line : Option LineAt) (rounds : Nat)
    (reason₁ : StopReason) (stack₁ : Stack) (m₁ : Machine) (stack' : Stack) (m' : Machine) :
    Option StopReason → Prop where
  | stopped (hstop : reason₁.isStep = false) (hend : report tid reason₁ m₁ = (.ok reason₁, m')) :
      InEnds env tid line rounds reason₁ stack₁ m₁ stack' m' (some reason₁)
  | onLine {ended : Option StopReason} {entry : Option LineAt} (hstep : reason₁.isStep = true)
      (hline : env.lineEntryAtPc m₁ (some tid) = .ok entry)
      (hon : ((LineAt.same entry line || LineAt.endSequence entry) && entry.isSome) = true)
      (hlater : stepInLoop env tid line rounds stack₁ m₁ = (.ok (ended, stack'), m')) :
      InEnds env tid line rounds reason₁ stack₁ m₁ stack' m' ended
  | otherLine {entry : Option LineAt} (hstep : reason₁.isStep = true)
      (hline : env.lineEntryAtPc m₁ (some tid) = .ok entry)
      (hoff : ((LineAt.same entry line || LineAt.endSequence entry) && entry.isSome) = false)
      (hstack : stack' = stack₁) (hmachine : m' = m₁) :
      InEnds env tid line rounds reason₁ stack₁ m₁ stack' m' none

variable {tid : Tid} {line : Option LineAt} {rounds : Nat} {stack stack' : Stack} {m m' : Machine}
  {reason reason' : StopReason}

/-- Reporting a stop changes nothing but the thread's reason. -/
theorem report_eq_ok (h : report tid reason m = (.ok reason', m')) :
    reason' = reason ∧ m' = (updateThread tid (fun t => { t with reason := reason }) m).2 := by
  obtain ⟨thread, m₁, hthread, h₁⟩ := Eff.bind_eq_ok.mp h
  obtain ⟨-, rfl⟩ := threadAt_eq_ok hthread
  cases h₁
  exact ⟨rfl, rfl⟩

theorem stepInstruction_of_stepAndUnwind {env : StepEnv}
    (h : stepAndUnwind env tid stack m = (.ok (reason, stack'), m')) :
    stepInstruction env.handlers (some tid) m = (.ok reason, m') := by
  obtain ⟨⟨toReenable, pc⟩, m₁, hbegin, h₁⟩ := Eff.bind_eq_ok.mp h
  obtain ⟨first, m₂, hwait, h₂⟩ := Eff.bind_eq_ok.mp h₁
  obtain ⟨unwound, m₃, hnotify, h₃⟩ := Eff.bind_eq_ok.mp h₂
  obtain rfl := notifyStop_machine hnotify
  obtain ⟨u, m₄, hreenable, h₄⟩ := Eff.bind_eq_ok.mp h₃
  cases h₄
  rw [stepInstruction, bind_of_ok (get_apply m), Option.getD_some, bind_of_ok hbegin]
  dsimp only
  rw [bind_of_ok hwait, bind_of_ok hreenable]
  rfl

/-- Where to run to is only looked at. -/
theorem overAddress_machine {env : StepOverEnv} {result : Except Failure (Option Word)}
    (h : overAddress env tid stack m = (result, m')) : m' = m :=
  (@overAddress_respects env (fun m m' => m' = m) ⟨fun _ => rfl⟩
    ⟨fun _ _ _ h h' => h'.trans h⟩ tid stack).apply_eq h

/-- A round of stepping over is a run until an address or a single step. -/
theorem stepOverRound_command {env : StepOverEnv} {last : Bool} {target : Option Word}
    (htarget : (overAddress env tid stack m).1 = .ok target)
    (h : stepOverRound env tid stack m = (.ok (reason, stack', last), m')) :
    (match target with
      | some address => runUntilAddress env.handlers address (some tid)
      | none => stepInstruction env.handlers (some tid)) m = (.ok reason, m') := by
  obtain ⟨target', m₁, htarget', h₁⟩ := Eff.bind_eq_ok.mp h
  obtain rfl := overAddress_machine htarget'
  rw [htarget'] at htarget
  obtain rfl := Except.ok.inj htarget
  cases target' with
  | none =>
      obtain ⟨⟨reason₁, stack₁⟩, m₂, hround, h₂⟩ := Eff.bind_eq_ok.mp h₁
      cases h₂
      exact stepInstruction_of_stepAndUnwind hround
  | some address =>
      obtain ⟨⟨reason₁, stack₁⟩, m₂, hround, h₂⟩ := Eff.bind_eq_ok.mp h₁
      have hrun := runUntilAddress_of_runAndUnwind hround
      dsimp only at h₂
      cases hstep : reason₁.isStep with
      | false =>
          rw [hstep] at h₂
          cases h₂
          exact hrun
      | true =>
          rw [hstep] at h₂
          obtain ⟨pc, m₃, hpc, h₃⟩ := Eff.bind_eq_ok.mp h₂
          obtain ⟨rfl, -⟩ := getPc_eq_ok hpc
          cases h₃
          exact hrun

theorem stepOverLoop_round {env : StepOverEnv}
    (h : stepOverLoop env tid line (rounds + 1) stack m = (.ok (reason, stack'), m')) :
    ∃ reason₁ stack₁ last m₁,
      stepOverRound env tid stack m = (.ok (reason₁, stack₁, last), m₁) ∧
      OverEnds env tid line rounds reason₁ stack₁ m₁ reason stack' m' last := by
  obtain ⟨⟨reason₁, stack₁, last⟩, m₁, hround, h₁⟩ := Eff.bind_eq_ok.mp h
  refine ⟨reason₁, stack₁, last, m₁, hround, ?_⟩
  cases last with
  | true =>
      obtain ⟨reason₂, m₂, hend, h₂⟩ := Eff.bind_eq_ok.mp h₁
      cases h₂
      exact .last hend
  | false =>
      change (get >>= fun m => _) m₁ = _ at h₁
      rw [bind_of_ok (get_apply m₁)] at h₁
      obtain ⟨entry, m₂, hline, h₂⟩ := Eff.bind_eq_ok.mp h₁
      obtain ⟨rfl, hentry⟩ := ofExcept_eq_ok.mp hline
      by_cases hon : (LineAt.same entry line || LineAt.endSequence entry) && entry.isSome
      · rw [if_pos hon] at h₂
        exact .onLine hentry hon h₂
      · rw [if_neg hon] at h₂
        obtain ⟨reason₂, m₃, hend, h₃⟩ := Eff.bind_eq_ok.mp h₂
        cases h₃
        exact .otherLine hentry (Bool.eq_false_iff.mpr hon) hend

theorem stepInLoop_round {env : StepInEnv} {ended : Option StopReason}
    (h : stepInLoop env tid line (rounds + 1) stack m = (.ok (ended, stack'), m')) :
    ∃ reason₁ stack₁ m₁, stepAndUnwind env.toStepEnv tid stack m = (.ok (reason₁, stack₁), m₁) ∧
      InEnds env tid line rounds reason₁ stack₁ m₁ stack' m' ended := by
  obtain ⟨⟨reason₁, stack₁⟩, m₁, hround, h₁⟩ := Eff.bind_eq_ok.mp h
  refine ⟨reason₁, stack₁, m₁, hround, ?_⟩
  dsimp only at h₁
  cases hstep : reason₁.isStep with
  | false =>
      rw [hstep] at h₁
      obtain ⟨reason₂, m₂, hend, h₂⟩ := Eff.bind_eq_ok.mp h₁
      cases h₂
      obtain ⟨rfl, -⟩ := report_eq_ok hend
      exact .stopped hstep hend
  | true =>
      rw [hstep] at h₁
      change (get >>= fun m => _) m₁ = _ at h₁
      rw [bind_of_ok (get_apply m₁)] at h₁
      obtain ⟨entry, m₂, hline, h₂⟩ := Eff.bind_eq_ok.mp h₁
      obtain ⟨rfl, hentry⟩ := ofExcept_eq_ok.mp hline
      by_cases hon : (LineAt.same entry line || LineAt.endSequence entry) && entry.isSome
      · rw [if_pos hon] at h₂
        exact .onLine hstep hentry hon h₂
      · rw [if_neg hon] at h₂
        cases h₂
        exact .otherLine hstep hentry (Bool.eq_false_iff.mpr hon) rfl rfl

end Inversion

namespace Inferior

/-- What a round of stepping over is for the program: an instruction that is no call, a call with
what follows until the address behind it, or what follows until the end of a function where the
function begins. -/
inductive Leg (env : StepOverEnv) (inferior : Inferior) (s t : User × Memory 64) : Prop where
  | instruction (plain : env.behind s = .ok none) (next : inferior.step s t)
  | call {n : Nat} (call : env.behind s = .ok (some (User.pc t.1)))
      (path : Path inferior.instructions (fun _ => True) s n t)
  | skipped {n : Nat} {inlineStack : List Die} {die : Die} {high : FileAddr}
      (present : env.inlineStackAt (User.pc s.1) = .ok inlineStack) (found : die ∈ inlineStack)
      (begins : env.lowPc die = .ok (toFileAddr env.elves (User.pc s.1)))
      (highPc : env.highPc die = .ok high) (ends : high.toVirtAddr env.elves = .ok (User.pc t.1))
      (path : Path inferior.instructions (fun _ => True) s n t)

/-- What `target::step_in` does for the program at another line: nothing, or, at the start of a
function, it gets to the function's body. -/
inductive Enters (env : StepInEnv) (inferior : Inferior) (s t : User × Memory 64) : Prop where
  | stays (body : env.bodyAt (User.pc s.1) = .ok none) (same : t = s)
  | body {n : Nat} (body : env.bodyAt (User.pc s.1) = .ok (some (User.pc t.1)))
      (path : Path inferior.instructions (fun _ => True) s n t)

/-- The code can be read wherever the program gets, as far as the disassembler looks. -/
def CodeReadable (inferior : Inferior) (kernel : Kernel) : Prop :=
  ∀ s, inferior.Reaches s → (User.pc s.1).toNat + 30 < 2 ^ 64 ∧
    RangeMapped kernel (User.pc s.1) 30 ∧ (remoteDescs (User.pc s.1) 30).length ≤ kernel.iovMax

section Rounds

variable {inferior : Inferior} {env : StepOverEnv} {stack stack' : Stack} {m m' : Machine}
  {reason : StopReason}

theorem frameToSkip_mem {inlineStack : List Die} {height : Nat} {die : Die} (hpos : 0 < height)
    (h : frameToSkip inlineStack height = .ok die) :
    die ∈ inlineStack ∧ die ∈ inlineStack.reverse.take height := by
  unfold frameToSkip at h
  split at h
  · rename_i hle
    have hget := inBounds_eq_ok.mp h
    refine ⟨List.mem_of_getElem? hget, ?_⟩
    refine List.mem_iff_getElem?.mpr ⟨height - 1, ?_⟩
    rw [List.getElem?_take_of_lt (by omega), List.getElem?_reverse (by omega), ← hget]
    congr 1
    omega
  · cases h

/-- The disassembler is shown the program's own memory. -/
theorem Ready.disassemble (h : inferior.Ready m) (hcode : inferior.CodeReadable m.kernel) :
    env.disassemble m 2 (User.pc (inferior.shown m).1) =
      .ok (env.instructionsFrom 2 (User.pc (inferior.shown m).1)
        ((inferior.shown m).2.read (User.pc (inferior.shown m).1) 30)) := by
  obtain ⟨hat, hreaches⟩ := h.at
  obtain ⟨hwrap, hmapped, hfits⟩ := hcode _ hreaches
  rw [StepOverEnv.disassemble, hat.below.readMemoryWithoutTraps_eq hwrap hmapped hfits]
  rfl

/-- What a round of stepping over decides by is the program's. -/
theorem overAddress_leg (h : inferior.Ready m) (hcode : inferior.CodeReadable m.kernel)
    (hstack : env.StartsAt (User.pc (inferior.shown m).1) stack.inlineHeight) {target : Option Word}
    (hrun : overAddress env inferior.tid stack m = (.ok target, m')) :
    m' = m ∧ (target = none → env.behind (inferior.shown m) = .ok none) ∧
      ∀ t n, target = some (User.pc t.1) →
        Path inferior.instructions (fun _ => True) (inferior.shown m) n t →
        Leg env inferior (inferior.shown m) t := by
  have hpc := Machine.getPc_of_run h.getPc
  rw [overAddress, bind_of_ok (get_apply m)] at hrun
  obtain ⟨inlineStack, m₁, hinline, h₁⟩ := Eff.bind_eq_ok.mp hrun
  rw [inlineStackAtPc_eq env.toStackEnv hpc] at hinline
  obtain ⟨rfl, hpresent⟩ := ofExcept_eq_ok.mp hinline
  by_cases hheight : 0 < stack.inlineHeight
  · rw [if_pos hheight] at h₁
    obtain ⟨die, m₂, hskip, h₂⟩ := Eff.bind_eq_ok.mp h₁
    obtain ⟨high, m₃, hhighPc, h₃⟩ := Eff.bind_eq_ok.mp h₂
    obtain ⟨returnAddress, m₄, hvirt, h₄⟩ := Eff.bind_eq_ok.mp h₃
    obtain ⟨rfl, hdie⟩ := ofExcept_eq_ok.mp hskip
    obtain ⟨rfl, hhigh⟩ := ofExcept_eq_ok.mp hhighPc
    obtain ⟨rfl, hends⟩ := ofExcept_eq_ok.mp hvirt
    cases h₄
    obtain ⟨hfound, htaken⟩ := frameToSkip_mem hheight hdie
    refine ⟨rfl, nofun, fun t n htarget path => ?_⟩
    obtain rfl := Option.some.inj htarget
    exact .skipped hpresent hfound (hstack inlineStack hpresent die htaken) hhigh hends path
  · rw [if_neg hheight, bind_of_ok h.getPc, h.disassemble hcode] at h₁
    obtain ⟨rfl, hbehind⟩ := ofExcept_eq_ok.mp h₁
    refine ⟨rfl, fun htarget => htarget ▸ hbehind, fun t n htarget path => .call ?_ path⟩
    exact htarget ▸ hbehind

/-- A round of stepping over that ends as a step is one for the program too. -/
theorem stepOverRound_leg (h : inferior.Ready m) (hcode : inferior.CodeReadable m.kernel)
    (hstack : env.StartsAt (User.pc (inferior.shown m).1) stack.inlineHeight) {last : Bool}
    (hrun : stepOverRound env inferior.tid stack m = (.ok (reason, stack', last), m'))
    (hassumed : inferior.Assumed m') (hread : ReadInTime m'.trace) (hstep : reason.isStep = true) :
    last = false ∧ inferior.Ready m' ∧ Leg env inferior (inferior.shown m) (inferior.shown m') ∧
      env.StartsAt (User.pc (inferior.shown m').1) stack'.inlineHeight := by
  obtain ⟨target, m₁, htarget, h₁⟩ := Eff.bind_eq_ok.mp hrun
  obtain ⟨rfl, hplain, hleg⟩ := overAddress_leg h hcode hstack htarget
  cases target with
  | none =>
      obtain ⟨⟨reason₁, stack₁⟩, m₂, hround, h₂⟩ := Eff.bind_eq_ok.mp h₁
      cases h₂
      obtain ⟨hready, hnext, hstarts⟩ := stepAndUnwind_steps h hround hassumed hread hstep
      exact ⟨by rw [hstep]; rfl, hready, .instruction (hplain rfl) hnext, hstarts⟩
  | some address =>
      obtain ⟨⟨reason₁, stack₁⟩, m₂, hround, h₂⟩ := Eff.bind_eq_ok.mp h₁
      by_cases hended : reason₁.isStep = true
      · dsimp only at h₂
        rw [hended] at h₂
        obtain ⟨pc, m₃, hpc, h₃⟩ := Eff.bind_eq_ok.mp h₂
        obtain ⟨rfl, -⟩ := getPc_eq_ok hpc
        cases h₃
        obtain ⟨hready, harrived, ⟨n, hpath⟩, hstarts⟩ :=
          runAndUnwind_runs h hround hassumed hread hstep
        obtain rfl := Except.ok.inj (congrArg Prod.fst (hready.getPc.symm.trans hpc))
        refine ⟨decide_eq_false (not_not_intro harrived), hready, ?_, hstarts⟩
        exact hleg _ n (congrArg some harrived.symm) hpath
      · dsimp only at h₂
        rw [Bool.eq_false_iff.mpr hended] at h₂
        cases h₂
        exact absurd hstep hended

/-- A round that is not the last ends as a step. -/
theorem stepOverRound_isStep {tid : Tid}
    (hrun : stepOverRound env tid stack m = (.ok (reason, stack', false), m')) :
    reason.isStep = true := by
  obtain ⟨target, m₁, -, h₁⟩ := Eff.bind_eq_ok.mp hrun
  cases target with
  | none =>
      obtain ⟨⟨reason₁, stack₁⟩, m₂, -, h₂⟩ := Eff.bind_eq_ok.mp h₁
      dsimp only at h₂
      cases hended : reason₁.isStep <;> rw [hended] at h₂ <;> cases h₂
      exact hended
  | some address =>
      obtain ⟨⟨reason₁, stack₁⟩, m₂, -, h₂⟩ := Eff.bind_eq_ok.mp h₁
      dsimp only at h₂
      cases hended : reason₁.isStep with
      | false =>
          rw [hended] at h₂
          cases h₂
      | true =>
          rw [hended] at h₂
          obtain ⟨pc, m₃, -, h₃⟩ := Eff.bind_eq_ok.mp h₂
          cases hfar : decide (pc ≠ address) <;> rw [hfar] at h₃ <;> cases h₃
          exact hended

theorem report_ready {reason' : StopReason} (h : inferior.Ready m)
    (hrun : report inferior.tid reason m = (.ok reason', m')) (hread : ReadInTime m'.trace) :
    reason' = reason ∧ inferior.Ready m' ∧ inferior.shown m' = inferior.shown m := by
  obtain ⟨rfl, rfl⟩ := report_eq_ok hrun
  have hnoted : Inert inferior.tid m (updateThread inferior.tid
    (fun t => { t with reason := reason' }) m).2 := updateThread_inert fun _ _ => ⟨rfl, rfl⟩
  have hcurrent := Current.update (f := fun t => { t with reason := reason' }) h.current
    inferior.tid fun _ => rfl
  exact ⟨rfl, h.of_inert hnoted rfl rfl hcurrent hread⟩

theorem CodeReadable.of_layout (h : inferior.CodeReadable m.kernel) (hsame : Layout m' = Layout m) :
    inferior.CodeReadable m'.kernel := by
  have hmapped : m'.kernel.mapped = m.kernel.mapped := congrArg Prod.fst hsame
  have hmax : m'.kernel.iovMax = m.kernel.iovMax := congrArg Prod.snd hsame
  intro s hs
  obtain ⟨hwrap, hrange, hfits⟩ := h s hs
  refine ⟨hwrap, fun i hi => ?_, hmax ▸ hfits⟩
  rw [hmapped]
  exact hrange i hi

/-- Rounds of stepping over that end as a step. -/
theorem stepOverLoop_until {line : Option LineAt} (rounds : Nat) (h : inferior.Ready m)
    (hcode : inferior.CodeReadable m.kernel)
    (hstack : env.StartsAt (User.pc (inferior.shown m).1) stack.inlineHeight)
    (hrun : stepOverLoop env inferior.tid line rounds stack m = (.ok (reason, stack'), m'))
    (hassumed : inferior.Assumed m') (hread : ReadInTime m'.trace) (hstep : reason.isStep = true) :
    Until (Leg env inferior) (env.OnLine line true) (env.OnLine line false) (inferior.shown m)
      (inferior.shown m') := by
  induction rounds generalizing m stack with
  | zero => cases hrun
  | succ rounds ih =>
      have hremembers := stopFrame_remembers env.handlers
      have hreport := fun reason => @report_frame Remembers _ _
        (fun tid f => hremembers.updateThread tid trivial f) inferior.tid reason
      obtain ⟨reason₁, stack₁, last, m₁, hround, hends⟩ := stepOverLoop_round hrun
      have hleg := stepOverRound_leg h hcode hstack hround
      cases hends with
      | last hend =>
          have hlater := (hreport reason₁).apply_eq hend
          obtain ⟨rfl, -⟩ := report_eq_ok hend
          obtain ⟨hlast, -⟩ := hleg (hassumed.of_remembers hlater) (hread.of_suffix hlater) hstep
          cases hlast
      | onLine hline hon hlaterRounds =>
          have hlater := (hremembers.stepOverLoop siteFrame_remembers inferior.tid line rounds
            stack₁).apply_eq hlaterRounds
          obtain ⟨-, hready, hleg, hstarts⟩ := hleg (hassumed.of_remembers hlater)
            (hread.of_suffix hlater) (stepOverRound_isStep hround)
          rw [lineEntryAtPc_eq env.toStepInEnv (Machine.getPc_of_run hready.getPc)] at hline
          have hlayout : Layout m₁ = Layout m := ((stopFrame_layout env.handlers).stepOverRound
            siteFrame_layout inferior.tid stack).apply_eq hround
          exact .more hleg ⟨_, hline, hon⟩
            (ih hready (hcode.of_layout hlayout) hstarts hlaterRounds)
      | otherLine hline hoff hend =>
          have hlater := (hreport reason₁).apply_eq hend
          obtain ⟨-, hready, hleg, -⟩ := hleg (hassumed.of_remembers hlater)
            (hread.of_suffix hlater) (stepOverRound_isStep hround)
          rw [lineEntryAtPc_eq env.toStepInEnv (Machine.getPc_of_run hready.getPc)] at hline
          obtain ⟨-, -, hshown⟩ := report_ready hready hend hread
          rw [hshown]
          exact .last hleg ⟨_, hline, hoff⟩

end Rounds

section Lines

variable {inferior : Inferior} {env : StepInEnv} {stack stack' : Stack} {m m' : Machine}

/-- The loop of stepping in is left at another line, an instruction of the program at a time. -/
theorem stepInLoop_until {line : Option LineAt} (rounds : Nat) (h : inferior.Ready m)
    (hrun : stepInLoop env inferior.tid line rounds stack m = (.ok (none, stack'), m'))
    (hassumed : inferior.Assumed m') (hread : ReadInTime m'.trace) :
    inferior.Ready m' ∧ Until inferior.step (env.OnLine line true) (env.OnLine line false)
      (inferior.shown m) (inferior.shown m') := by
  induction rounds generalizing m stack with
  | zero => cases hrun
  | succ rounds ih =>
      obtain ⟨reason, stack₁, m₁, hround, hends⟩ := stepInLoop_round hrun
      cases hends with
      | onLine hstep hline hon hlaterRounds =>
          have hlater := ((stopFrame_remembers env.handlers).stepInLoop inferior.tid line rounds
            stack₁).apply_eq hlaterRounds
          obtain ⟨hready, hnext, -⟩ := stepAndUnwind_steps h hround
            (hassumed.of_remembers hlater) (hread.of_suffix hlater) hstep
          rw [lineEntryAtPc_eq env (Machine.getPc_of_run hready.getPc)] at hline
          obtain ⟨hready', hlines⟩ := ih hready hlaterRounds
          exact ⟨hready', .more hnext ⟨_, hline, hon⟩ hlines⟩
      | otherLine hstep hline hoff hstack hmachine =>
          subst hmachine
          obtain ⟨hready, hnext, -⟩ := stepAndUnwind_steps h hround hassumed hread hstep
          rw [lineEntryAtPc_eq env (Machine.getPc_of_run hready.getPc)] at hline
          exact ⟨hready, .last hnext ⟨_, hline, hoff⟩⟩

/-- A stop that ends the loop is no step. -/
theorem stepInLoop_stopped {tid : Tid} {line : Option LineAt} {reason : StopReason} (rounds : Nat)
    (hrun : stepInLoop env tid line rounds stack m = (.ok (some reason, stack'), m')) :
    reason.isStep = false := by
  induction rounds generalizing m stack with
  | zero => cases hrun
  | succ rounds ih =>
      obtain ⟨reason₁, stack₁, m₁, -, hends⟩ := stepInLoop_round hrun
      cases hends with
      | stopped hstop hend => exact hstop
      | onLine hstep hline hon hlater => exact ih hlater

/-- After the loop the program is left where it is, or run to the body of the function at the
start of which it is. -/
theorem finishStepIn_enters {reason : StopReason} (h : inferior.Ready m)
    (hrun : finishStepIn env inferior.tid stack m = (.ok (reason, stack'), m'))
    (hassumed : inferior.Assumed m') (hread : ReadInTime m'.trace) (hstep : reason.isStep = true) :
    inferior.Enters env (inferior.shown m) (inferior.shown m') := by
  rw [finishStepIn, bind_of_ok (get_apply m)] at hrun
  obtain ⟨body, m₁, hbody, h₁⟩ := Eff.bind_eq_ok.mp hrun
  obtain ⟨rfl, hbody'⟩ := ofExcept_eq_ok.mp hbody
  rw [bodyAddress_eq env (Machine.getPc_of_run h.getPc)] at hbody'
  cases body with
  | none =>
      obtain ⟨reason₂, m₂, hreport, h₂⟩ := Eff.bind_eq_ok.mp h₁
      cases h₂
      exact .stays hbody' (report_ready h hreport hread).2.2
  | some address =>
      obtain ⟨-, harrived, ⟨n, hpath⟩, -⟩ := runAndUnwind_runs h h₁ hassumed hread hstep
      rw [← harrived] at hbody'
      exact .body hbody' hpath

end Lines

/-- Stepping over a line.  Where `target::step_over` reports a step, the program went from where
it stood to another line, and until then it stayed on the line that it was on: each round was one
of its instructions and no call, or what its own instructions led to from a call to the address
behind it, or from where a function begins to the end of it. -/
theorem stepOver_native (inferior : Inferior) {env : StepOverEnv} {start m m' : Machine}
    {otid : Option Tid} {rounds : Nat} {stack stack' : Stack} {reason : StopReason}
    (hbegins : inferior.Begins start) (hrun : Run env.handlers start m)
    (hstopped : m.isStopped inferior.tid = true) (hwaited : collected inferior.tid m.trace = true)
    (htid : otid.getD m.process.currentThread = inferior.tid)
    (hstack : env.StartsAt (User.pc (inferior.shown m).1) stack.inlineHeight)
    (hcode : inferior.CodeReadable m.kernel)
    (hover : stepOver env rounds otid stack m = (.ok (reason, stack'), m'))
    (hstep : reason.isStep = true) (hread : ReadInTime m'.trace)
    (hhosted : inferior.Hosted m'.roster.events) :
    ∃ line, env.lineEntryAt (User.pc (inferior.shown m).1) = .ok line ∧
      Until (Leg env inferior) (env.OnLine line true) (env.OnLine line false) (inferior.shown m)
        (inferior.shown m') := by
  have hcurrent : Current m := hrun.current hbegins.synchronized
  rw [stepOver, bind_of_ok (get_apply m), htid] at hover
  obtain ⟨line, m₁, hline, hloop⟩ := Eff.bind_eq_ok.mp hover
  obtain ⟨rfl, hentry⟩ := ofExcept_eq_ok.mp hline
  have hlast : Current m' := (stepOverLoop_current _ line rounds stack m₁ hcurrent).1 _ m' hloop
  have hassumed : inferior.Assumed m' := ⟨hhosted, (hlast hread).current⟩
  have hlater := ((stopFrame_remembers env.handlers).stepOverLoop siteFrame_remembers inferior.tid
    line rounds stack).apply_eq hloop
  have hready : inferior.Ready m₁ := hbegins.ready hrun hstopped hwaited
    (hassumed.of_remembers hlater) (hread.of_suffix hlater)
  rw [lineEntryAtPc_eq env.toStepInEnv (Machine.getPc_of_run hready.getPc)] at hentry
  exact ⟨line, hentry, stepOverLoop_until rounds hready hcode hstack hloop hassumed hread hstep⟩

/-- Stepping in.  Where `target::step_in` reports a step, the program executed its own
instructions, one at a time and calls included, until it first was at another line; from there it
got to the function's body if it was at the start of one, and if no code was entered that counts
as inlined, it did not move at all. -/
theorem stepIn_native (inferior : Inferior) {env : StepInEnv} {start m m' : Machine}
    {otid : Option Tid} {rounds : Nat} {stack stack' : Stack} {reason : StopReason}
    (hbegins : inferior.Begins start) (hrun : Run env.handlers start m)
    (hstopped : m.isStopped inferior.tid = true) (hwaited : collected inferior.tid m.trace = true)
    (htid : otid.getD m.process.currentThread = inferior.tid)
    (hin : stepIn env rounds otid stack m = (.ok (reason, stack'), m'))
    (hstep : reason.isStep = true) (hread : ReadInTime m'.trace)
    (hhosted : inferior.Hosted m'.roster.events) :
    (0 < stack.inlineHeight → stack' = stack.simulateInlinedStepIn ∧
      inferior.shown m' = inferior.shown m) ∧
    (stack.inlineHeight = 0 → ∃ line s,
      env.lineEntryAt (User.pc (inferior.shown m).1) = .ok line ∧
      Until inferior.step (env.OnLine line true) (env.OnLine line false) (inferior.shown m) s ∧
      inferior.Enters env s (inferior.shown m')) := by
  have hcurrent : Current m := hrun.current hbegins.synchronized
  have hlast : Current m' := (stepIn_current rounds otid stack m hcurrent).1 _ m' hin
  have hassumed : inferior.Assumed m' := ⟨hhosted, (hlast hread).current⟩
  have hremembers := stopFrame_remembers env.handlers
  have hlater := (hremembers.stepIn siteFrame_remembers rounds otid stack).apply_eq hin
  have hready : inferior.Ready m := hbegins.ready hrun hstopped hwaited
    (hassumed.of_remembers hlater) (hread.of_suffix hlater)
  rw [stepIn, bind_of_ok (get_apply m), htid] at hin
  by_cases hheight : 0 < stack.inlineHeight
  · rw [if_pos hheight] at hin
    obtain ⟨reason₂, m₂, hreport, h₂⟩ := Eff.bind_eq_ok.mp hin
    cases h₂
    exact ⟨fun _ => ⟨rfl, (report_ready hready hreport hread).2.2⟩, fun hzero => by omega⟩
  · rw [if_neg hheight] at hin
    obtain ⟨line, m₁, hline, h₁⟩ := Eff.bind_eq_ok.mp hin
    obtain ⟨rfl, hentry⟩ := ofExcept_eq_ok.mp hline
    rw [lineEntryAtPc_eq env (Machine.getPc_of_run hready.getPc)] at hentry
    refine ⟨fun hpos => absurd hpos hheight, fun _ => ?_⟩
    obtain ⟨⟨ended, stack₁⟩, m₂, hloop, h₂⟩ := Eff.bind_eq_ok.mp h₁
    cases ended with
    | some reason₁ =>
        cases h₂
        exact absurd hstep (by rw [stepInLoop_stopped rounds hloop]; decide)
    | none =>
        have hfinish := (hremembers.finishStepIn siteFrame_remembers inferior.tid
          stack₁).apply_eq h₂
        obtain ⟨hready', hlines⟩ := stepInLoop_until rounds hready hloop
          (hassumed.of_remembers hfinish) (hread.of_suffix hfinish)
        exact ⟨line, _, hentry, hlines,
          finishStepIn_enters hready' h₂ hassumed hread hstep⟩

end Inferior

namespace SteppingWitness

open Scenario CachedRegistersWitness NativeWitness
open StackWitness (functionAt)

/-- Where the instructions of a program are executed: a call, the two of the function, and the two
behind the call. -/
def route (n : Nat) : Word := [0, 5, 6, 2, 3].getD n 0

/-- The registers on that way. -/
def visited : Nat → User
  | 0 => fun _ => 0
  | n + 1 => (visited n).write 128 (toLe 8 (route (n + 1)).toNat)

def calling : Inferior where
  step := fun s s' => ∃ n < 4, User.pc s.1 = route n ∧
    s' = (s.1.write 128 (toLe 8 (route (n + 1)).toNat), s.2)
  tid := 1
  start := (visited 0, fun _ => 0)
  earlier := []

/-- The file is loaded at address zero, below where it was linked for. -/
def program : Elf := { StackWitness.program with loadBias := -0x1000 }

/-- A row up to behind the call, one for the next line, and two for the function. -/
def table : LineTable :=
  { LineLookupWitness.table with
    data := [0x00, 0x09, 0x02, 0x00, 0x10, 0, 0, 0, 0, 0, 0, 0x01, 0x02, 0x03, 0x03, 0x01, 0x01,
      0x02, 0x02, 0x03, 0x08, 0x01, 0x02, 0x01, 0x03, 0x01, 0x01, 0x02, 0x0a, 0x00, 0x01, 0x01] }

def functionOf (address : FileAddr) : Die :=
  functionAt (if 0x1005 ≤ address.addr then 0x1005 else 0x1000)

/-- The call has two bytes, every other instruction one. -/
def env : StepOverEnv where
  toStackEnv := { StackWitness.plainEnv with
    elves := [program]
    inlineStackAtAddress := fun address => .ok [functionOf address] }
  highPc := fun _ => .error .schedule
  handlers := passing
  unwindRounds := 2
  functionContainingAddress := fun address => .ok (some (functionOf address))
  compileUnitContainingAddress := fun _ => .ok (some CodePositionWitness.cu)
  lines := fun _ => .ok table
  decode := fun address _ => some (if address = 0 then (2, ascii "call") else (1, ascii "nop"))

def stack : Stack := ⟨0, [], 0⟩

def lineAt (pc : Word) : Except Failure (Option Word) :=
  (env.lineEntryAt pc).map fun line => line.map fun line => line.it.current.line

theorem run_of_isStep {x : Debugger (StopReason × Stack)} {m : Machine}
    (h : (x m).1.toOption.map (fun outcome => outcome.1.isStep) = some true) :
    ∃ reason stack', x m = (.ok (reason, stack'), (x m).2) ∧ reason.isStep = true := by
  rcases hrun : x m with ⟨e | ⟨reason, stack'⟩, m'⟩
  · rw [hrun] at h
    cases h
  · rw [hrun] at h
    exact ⟨reason, stack', rfl, Option.some.inj h⟩

theorem plain_visited (n : Nat) : (visited n).plain = visited n := by
  induction n with
  | zero => exact plain_counted 0
  | succ n ih => rw [visited, User.plain_write, ih]

theorem plain_behindTrap (n : Nat) :
    (visited n).behindTrap.plain = (visited n).behindTrap := by
  rw [User.behindTrap, User.plain_write, plain_visited]

theorem pc_visited (n : Nat) : User.pc (visited n) = route n := by
  cases n with
  | zero => rfl
  | succ n => exact User.pc_write (visited n) (route (n + 1))

theorem moves_visited {memory : Memory 64} {n : Nat} (k : Nat) (hle : n + k ≤ 4)
    (h : ∀ i < k, memory (route (n + i)) ≠ int3) :
    calling.Moves k ((visited n).plain, memory) (visited (n + k), memory) := by
  rw [plain_visited]
  induction k with
  | zero => exact .start
  | succ k ih =>
      have hplain : memory (User.pc (visited (n + k))) ≠ int3 := by
        rw [pc_visited]
        exact h k (by omega)
      exact .step (ih (by omega) fun i hi => h i (by omega)) hplain
        ⟨n + k, by omega, pc_visited _, rfl⟩

/-- No address is on the way twice, so the program does not leave it. -/
theorem reaches_visited {s : User × Memory 64} (h : calling.Reaches s) :
    ∃ n ≤ 4, s = (visited n, fun _ => 0) := by
  have hinjective : ∀ k < 4, ∀ n < 5, route n = route k → n = k := by decide
  obtain ⟨_, hpath⟩ := h
  induction hpath with
  | start => exact ⟨0, by omega, rfl⟩
  | step before here next ih =>
      obtain ⟨n, hn, rfl⟩ := ih
      obtain ⟨k, hk, hpc, rfl⟩ := next
      obtain rfl := hinjective k hk n (by omega) ((pc_visited n).symm.trans hpc)
      exact ⟨n + 1, by omega, rfl⟩

theorem trapless_calling (s : User × Memory 64) (hs : calling.Reaches s) :
    s.2 (User.pc s.1) ≠ int3 := by
  obtain ⟨n, -, rfl⟩ := reaches_visited hs
  exact (by decide : (0 : Byte) ≠ int3)

theorem undisturbed_calling {s : User × Memory 64} (sites : List BreakpointSite) :
    Undisturbed (Covers sites) calling.instructions int3 s := by
  intro huncovered t ht
  obtain ⟨n, hn, hpc, rfl⟩ := ht
  have hbelow := unpatch_patch (Covers sites) int3 s.2
  exact ⟨by rw [hbelow], n, hn, hpc, Prod.ext rfl hbelow⟩

theorem begins_machine (script : List WaitAnswer) : calling.Begins (machine [1] script) :=
  ⟨machine_synchronized _, rfl, ⟨newThread, rfl, rfl, rfl⟩,
    fun _ htid => List.mem_singleton.mp htid, Prod.ext (plain_visited 0) rfl, rfl⟩

/-- The memory with a trap that was put there, and after it was removed. -/
def trapAt (address : Word) : Memory 64 :=
  let memory : Memory 64 := fun _ => 0
  memory.write address
    (toLe 8 (withLowByte (BitVec.ofNat 64 (ofLe (memory.read address 8))) int3).toNat)

def untrappedAt (address : Word) : Memory 64 :=
  (trapAt address).write address
    (toLe 8 (withLowByte (BitVec.ofNat 64 (ofLe ((trapAt address).read address 8))) 0).toNat)

/-- The traps stand where the program is not before it gets to them, and one that
was removed is gone. -/
theorem traps_placed :
    (∀ i < 3, trapAt 2 (route (0 + i)) ≠ int3) ∧ trapAt 2 (User.pc (visited 3)) = int3 ∧
      (∀ i < 1, untrappedAt 2 (route (3 + i)) ≠ int3) ∧
      (∀ i < 1, trapAt 6 (route (1 + i)) ≠ int3) ∧ trapAt 6 (User.pc (visited 2)) = int3 := by
  decide +kernel

/-- The thread runs to the trap behind the call, and is stepped from there. -/
def begun : Machine :=
  machine [1] [.report ⟨1, .stopped sigtrap 0, .siKernel, (visited 3).behindTrap, trapAt 2⟩,
    .report ⟨1, .stopped sigtrap 0, .trapTrace, visited 4, untrappedAt 2⟩]

theorem codeReadable_begun : calling.CodeReadable begun.kernel := by
  intro s hs
  obtain ⟨n, hn, rfl⟩ := reaches_visited hs
  rw [pc_visited]
  have hroute : ∀ n < 5, (route n).toNat + 30 < 2 ^ 64 ∧
      (remoteDescs (route n) 30).length ≤ begun.kernel.iovMax := by
    decide
  obtain ⟨hwrap, hfits⟩ := hroute n (by omega)
  exact ⟨hwrap, fun _ _ => rfl, hfits⟩

/-- The first round. -/
@[irreducible]
def called : Machine := (runUntilAddress passing 2 (some 1) begun).2

/-- The second. -/
@[irreducible]
def behind : Machine := (stepInstruction passing (some 1) called).2

@[irreducible]
def stepped : Machine := (stepOver env 2 (some 1) stack begun).2

/-- What the command reports and where it ends. -/
theorem stepped_evaluated :
    (stepOver env 2 (some 1) stack begun).1.toOption.map (fun outcome => outcome.1.isStep) =
        some true ∧
      lineAt (User.pc (calling.shown begun).1) = .ok (some 1) ∧
      lineAt (User.pc (calling.shown stepped).1) = .ok (some 2) ∧
      allRead stepped.trace = true := by
  unfold stepped
  decide +kernel

/-- What the rounds do: the first runs to behind the call, and the thread is
still on the line of the call there; the second does not begin with a call. -/
theorem rounds_evaluated :
    (overAddress env 1 stack begun).1 = .ok (some 2) ∧
      (stepOverRound env 1 stack begun).1.toOption.map (fun round =>
        (round.2.2, round.2.1.inlineHeight)) = some (false, 0) ∧
      ((env.lineEntryAtPc begun (some 1)).bind fun line =>
        (env.lineEntryAtPc called (some 1)).map fun entry =>
          ((LineAt.same entry line || LineAt.endSequence entry) && entry.isSome)) = .ok true ∧
      (overAddress env 1 ⟨0, [], 0⟩ called).1 = .ok none := by
  unfold called
  decide +kernel

theorem stepOver_stepped : ∃ reason stack',
    stepOver env 2 (some 1) stack begun = (.ok (reason, stack'), stepped) ∧
      reason.isStep = true := by
  unfold stepped
  exact run_of_isStep stepped_evaluated.1

theorem round_called {reason : StopReason} {stack' : Stack} {last : Bool} {m : Machine}
    (h : stepOverRound env 1 stack begun = (.ok (reason, stack', last), m)) :
    m = called ∧ last = false ∧ stack'.inlineHeight = 0 := by
  obtain ⟨haddress, hround, -⟩ := rounds_evaluated
  have hrun : runUntilAddress passing 2 (some 1) begun = (.ok reason, m) :=
    stepOverRound_command haddress h
  rw [h] at hround
  obtain ⟨hlast, hheight⟩ := Prod.mk.inj (Option.some.inj hround)
  unfold called
  rw [hrun]
  exact ⟨rfl, hlast, hheight⟩

theorem round_behind {reason : StopReason} {stack stack' : Stack} {last : Bool} {m : Machine}
    (hheight : stack.inlineHeight = 0)
    (h : stepOverRound env 1 stack called = (.ok (reason, stack', last), m)) : m = behind := by
  have haddress : (overAddress env 1 stack called).1 = .ok none := by
    obtain ⟨-, -, -, hnone⟩ := rounds_evaluated
    rw [← hnone, overAddress, overAddress, hheight]
  have hrun : stepInstruction passing (some 1) called = (.ok reason, m) :=
    stepOverRound_command haddress h
  unfold behind
  rw [hrun]

/-- Behind the call the thread is on the line of the call. -/
theorem onLine_called {line entry : Option LineAt}
    (hline : env.lineEntryAtPc begun (some 1) = .ok line)
    (hentry : env.lineEntryAtPc called (some 1) = .ok entry) :
    ((LineAt.same entry line || LineAt.endSequence entry) && entry.isSome) = true := by
  obtain ⟨-, -, hsame, -⟩ := rounds_evaluated
  rw [hline, hentry] at hsame
  exact Except.ok.inj hsame

/-- What the thread reported was in the two rounds. -/
theorem events_stepped : stepped.roster.events = behind.roster.events := by
  have hreported : ∀ {reason reason' : StopReason} {m m' : Machine},
      report 1 reason m = (.ok reason', m') → m'.roster.events = m.roster.events := fun h => by
    obtain ⟨-, rfl⟩ := report_eq_ok h
    rfl
  obtain ⟨reason, stack', hover, -⟩ := stepOver_stepped
  rw [stepOver, bind_of_ok (get_apply begun)] at hover
  obtain ⟨line, m₁, hline, hloop⟩ := Eff.bind_eq_ok.mp hover
  obtain ⟨rfl, hfrom⟩ := ofExcept_eq_ok.mp hline
  obtain ⟨reason₁, stack₁, last₁, m₂, hfirst, hends₁⟩ := stepOverLoop_round hloop
  obtain ⟨rfl, rfl, hheight⟩ := round_called hfirst
  cases hends₁ with
  | otherLine hentry hoff hend =>
    exact absurd (onLine_called hfrom hentry) (hoff ▸ Bool.false_ne_true)
  | onLine hentry hon hlater =>
      obtain ⟨reason₂, stack₂, last₂, m₃, hsecond, hends₂⟩ := stepOverLoop_round hlater
      obtain rfl := round_behind hheight hsecond
      cases hends₂ with
      | last hend => exact hreported hend
      | onLine hentry₂ hon₂ hlater₂ => cases hlater₂
      | otherLine hentry₂ hoff hend => exact hreported hend

theorem hosted_stepped : calling.Hosted stepped.roster.events where
  driven := by
    obtain ⟨hclear, htrap, hgone, -⟩ := traps_placed
    rw [events_stepped]
    unfold behind called
    intro p hp _
    rcases List.mem_cons.mp hp with rfl | hp
    · refine ⟨rfl, _, [], .singleStep, rfl, rfl, ?_⟩
      refine .stopped rfl (fun htrap => by cases htrap.2) ?_ (fun _ => le_refl 1)
        fun _ => ⟨rfl, rfl⟩
      have hrestored := User.behindTrap_restored (visited 3)
      rw [pc_visited] at hrestored
      change calling.Moves 1
        (User.plain ((visited 3).behindTrap.write 128 (toLe 8 (route 3).toNat)),
        untrappedAt 2) _
      rw [hrestored, plain_visited 4]
      exact @moves_visited (untrappedAt 2) 3 1 (by omega) hgone
    · obtain rfl := List.mem_singleton.mp hp
      refine ⟨rfl, _, _, .cont, rfl, rfl, ?_⟩
      exact .trapped rfl rfl (@moves_visited (trapAt 2) 0 3 (by omega) hclear)
        htrap (plain_behindTrap 3) fun h => by cases h
  trapless := trapless_calling
  undisturbed := fun _ _ _ _ _ => undisturbed_calling _

/-- The call is stepped over to the next line, by way of the address behind it. -/
theorem stepOver_native_call :
    lineAt (User.pc (calling.shown begun).1) = .ok (some 1) ∧
      lineAt (User.pc (calling.shown stepped).1) = .ok (some 2) ∧ ∃ line,
      env.lineEntryAt (User.pc (calling.shown begun).1) = .ok line ∧
      Until (Inferior.Leg env calling) (env.OnLine line true) (env.OnLine line false)
        (calling.shown begun) (calling.shown stepped) := by
  obtain ⟨-, hfrom, hto, hread⟩ := stepped_evaluated
  obtain ⟨reason, stack', hover, hstep⟩ := stepOver_stepped
  exact ⟨hfrom, hto, Inferior.stepOver_native calling (begins_machine _) .start
    (by decide) rfl rfl (fun _ _ _ hdie => by cases hdie) codeReadable_begun hover hstep
    (readInTime_of_allRead hread) hosted_stepped⟩

/-- The thread is stepped to the function, and runs to the trap in its body. -/
def tracing : Machine :=
  machine [1] [.report ⟨1, .stopped sigtrap 0, .trapTrace, visited 1, fun _ => 0⟩,
    .report ⟨1, .stopped sigtrap 0, .siKernel, (visited 2).behindTrap, trapAt 6⟩]

/-- Where the loop is left. -/
@[irreducible]
def entered : Machine := (stepInstruction passing (some 1) tracing).2

@[irreducible]
def body : Machine := (runUntilAddress passing 6 (some 1) entered).2

@[irreducible]
def steppedIn : Machine := (stepIn env.toStepInEnv 1 (some 1) stack tracing).2

/-- What the command reports and where it ends, and the address that it runs to. -/
theorem steppedIn_evaluated :
    (stepIn env.toStepInEnv 1 (some 1) stack tracing).1.toOption.map
        (fun outcome => outcome.1.isStep) = some true ∧
      lineAt (User.pc (calling.shown steppedIn).1) = .ok (some 11) ∧
      allRead steppedIn.trace = true ∧ env.bodyAddress entered 1 = .ok (some 6) := by
  unfold steppedIn entered
  decide +kernel

theorem stepIn_steppedIn : ∃ reason stack',
    stepIn env.toStepInEnv 1 (some 1) stack tracing = (.ok (reason, stack'), steppedIn) ∧
      reason.isStep = true := by
  unfold steppedIn
  exact run_of_isStep steppedIn_evaluated.1

theorem steppedIn_eq : steppedIn = body := by
  obtain ⟨reason, stack', hin, hstep⟩ := stepIn_steppedIn
  rw [stepIn, bind_of_ok (get_apply tracing)] at hin
  change (ofExcept (env.lineEntryAtPc tracing (some 1)) >>= fun _ => _) tracing = _ at hin
  obtain ⟨line, m₁, hline, h₁⟩ := Eff.bind_eq_ok.mp hin
  obtain ⟨rfl, -⟩ := ofExcept_eq_ok.mp hline
  obtain ⟨⟨ended, stack₂⟩, m₂, hloop, h₂⟩ := Eff.bind_eq_ok.mp h₁
  obtain ⟨reason₁, stack₁, m₃, hround, hends⟩ := stepInLoop_round hloop
  have hrun : stepInstruction passing (some 1) tracing = (.ok reason₁, m₃) :=
    @stepInstruction_of_stepAndUnwind 1 stack stack₁ tracing m₃ reason₁ env.toStepEnv hround
  have hentered : m₃ = entered := by
    unfold entered
    rw [hrun]
  cases hends with
  | stopped hstop hend =>
      cases h₂
      exact absurd hstep (hstop ▸ Bool.false_ne_true)
  | onLine hstep₁ hentry hon hlater => cases hlater
  | otherLine hstep₁ hentry hoff hstack hmachine =>
      rw [hstack, hmachine, hentered] at h₂
      obtain ⟨-, -, -, hbody⟩ := steppedIn_evaluated
      change finishStepIn env.toStepInEnv 1 _ entered = _ at h₂
      rw [finishStepIn, bind_of_ok (get_apply entered), hbody] at h₂
      have hlast : runUntilAddress passing 6 (some 1) entered = (.ok reason, steppedIn) :=
        @runUntilAddress_of_runAndUnwind env.toStepEnv 1 6 stack₁ stack' entered steppedIn reason h₂
      unfold body
      rw [hlast]

theorem hosted_steppedIn : calling.Hosted steppedIn.roster.events where
  driven := by
    obtain ⟨-, -, -, hclear, htrap⟩ := traps_placed
    rw [steppedIn_eq]
    unfold body entered
    intro p hp _
    rcases List.mem_cons.mp hp with rfl | hp
    · refine ⟨rfl, _, [], .cont, rfl, rfl, ?_⟩
      exact .trapped rfl rfl (@moves_visited (trapAt 6) 1 1 (by omega) hclear)
        htrap (plain_behindTrap 2) fun h => by cases h
    · obtain rfl := List.mem_singleton.mp hp
      refine ⟨rfl, _, _, .singleStep, rfl, rfl, ?_⟩
      refine .stopped rfl (fun htrap => by cases htrap.2) ?_ (fun _ => le_refl 1)
        fun _ => ⟨rfl, rfl⟩
      rw [plain_visited 1]
      exact @moves_visited (fun _ => 0) 0 1 (by omega) fun _ _ => by decide
  trapless := trapless_calling
  undisturbed := fun _ _ _ _ _ => undisturbed_calling _

/-- The same call is stepped into, to the body of the function. -/
theorem stepIn_native_call :
    lineAt (User.pc (calling.shown steppedIn).1) = .ok (some 11) ∧ ∃ line s,
      env.lineEntryAt (User.pc (calling.shown tracing).1) = .ok line ∧
      Until calling.step (env.OnLine line true) (env.OnLine line false) (calling.shown tracing) s ∧
      Inferior.Enters env.toStepInEnv calling s (calling.shown steppedIn) := by
  obtain ⟨-, hbody, hread, -⟩ := steppedIn_evaluated
  obtain ⟨reason, stack', hin, hstep⟩ := stepIn_steppedIn
  exact ⟨hbody, (Inferior.stepIn_native calling (begins_machine _) .start (by decide) rfl rfl hin
    hstep (readInTime_of_allRead hread) hosted_steppedIn).2 rfl⟩

end SteppingWitness

end Gsdb
