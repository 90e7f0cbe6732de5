/-
Telling syscall entries from syscall exits.  The debugger keeps one flag for
the whole process, which every decoded stop sets or clears; here it is compared
with what each thread did.
-/
import Gsdb.StopFrame

namespace Gsdb

open ByteMemory Effects Eff Debugger

/-- The stops that were decoded, newest first. -/
def augmentedStops (trace : List Observation) : List StopReason :=
  trace.filterMap fun
    | .augmented reason => some reason
    | _ => none

def StopReason.isSyscall (reason : StopReason) : Bool := reason.syscallInfo.isSome

/-- The number of syscall stops of a thread among earlier stops. -/
def ownSyscallStops (tid : Tid) (earlier : List StopReason) : Nat :=
  earlier.countP fun reason => reason.tid = tid ∧ reason.isSyscall

/-- Every syscall stop is reported as its thread's own stops alternate: the
first, third and so on as an entry, the others as exits. -/
def ClassifiedByThread : List StopReason → Prop
  | [] => True
  | reason :: earlier =>
      (∀ info, reason.syscallInfo = some info →
        (info.entry = true ↔ ownSyscallStops reason.tid earlier % 2 = 0)) ∧
      ClassifiedByThread earlier

/-- The latest stop is one at which its thread enters a syscall. -/
def followsEntry : List StopReason → Prop
  | [] => False
  | reason :: earlier =>
      reason.isSyscall = true ∧ ownSyscallStops reason.tid earlier % 2 = 0

/-- A syscall stop of a thread inside a syscall comes right after a stop at
which a thread entered one, and no other syscall stop does. -/
def PairedStops : List StopReason → Prop
  | [] => True
  | reason :: earlier =>
      (reason.isSyscall = true →
        (followsEntry earlier ↔ ownSyscallStops reason.tid earlier % 2 = 1)) ∧
      PairedStops earlier

/-- The latest stop was reported as an entry. -/
def reportedEntry : List StopReason → Bool
  | [] => false
  | reason :: _ =>
      match reason.syscallInfo with
      | some info => info.entry
      | none => false

/-- A syscall stop is reported as an exit exactly after a reported entry. -/
def ReportsAlternate : List StopReason → Prop
  | [] => True
  | reason :: earlier =>
      (∀ info, reason.syscallInfo = some info → info.entry = !reportedEntry earlier) ∧
      ReportsAlternate earlier

theorem reportedEntry_iff_followsEntry {stops : List StopReason}
    (h : ClassifiedByThread stops) : reportedEntry stops = true ↔ followsEntry stops := by
  cases stops with
  | nil => simp [reportedEntry, followsEntry]
  | cons reason earlier =>
      simp only [reportedEntry, followsEntry, StopReason.isSyscall]
      cases hinfo : reason.syscallInfo with
      | none => simp
      | some info => simpa using h.1 info hinfo

/-- Alternating reports agree with the threads exactly on paired stops. -/
theorem ReportsAlternate.classified_iff {stops : List StopReason} (h : ReportsAlternate stops) :
    ClassifiedByThread stops ↔ PairedStops stops := by
  induction stops with
  | nil => exact Iff.rfl
  | cons reason earlier ih =>
      obtain ⟨hreason, hearlier⟩ := h
      rw [ClassifiedByThread, PairedStops, ← ih hearlier]
      refine and_congr_left fun hclassified => ?_
      have hfollows := reportedEntry_iff_followsEntry hclassified
      cases hinfo : reason.syscallInfo with
      | none => simp [StopReason.isSyscall, hinfo]
      | some info =>
          have hentry := hreason info hinfo
          have hodd : (info.entry = true ↔ ownSyscallStops reason.tid earlier % 2 = 0) ↔
              (followsEntry earlier ↔ ownSyscallStops reason.tid earlier % 2 = 1) := by
            rw [← hfollows, hentry]
            cases reportedEntry earlier <;> simp
          simpa [StopReason.isSyscall, hinfo] using hodd

/-- The flag remembers whether the latest stop was reported as an entry. -/
structure FlagFollows (m : Machine) : Prop where
  flag : m.process.expectingSyscallExit = reportedEntry (augmentedStops m.trace)
  reports : ReportsAlternate (augmentedStops m.trace)

theorem FlagFollows.of_eq {m m' : Machine} (h : FlagFollows m)
    (hflag : m'.process.expectingSyscallExit = m.process.expectingSyscallExit)
    (htrace : augmentedStops m'.trace = augmentedStops m.trace) : FlagFollows m' :=
  ⟨by rw [hflag, htrace, h.flag], by rw [htrace]; exact h.reports⟩

theorem augmentStopReason_flagFollows (reason : StopReason) (hfresh : reason.syscallInfo = none) :
    Respects (Carries FlagFollows) (augmentStopReason reason) := by
  intro m h
  rcases augmentStopReason_cases reason m with
    ⟨e, h'⟩ | ⟨info, -, hentry, h'⟩ | ⟨-, h'⟩ <;> rw [h']
  · exact h
  · refine ⟨rfl, fun info' heq => ?_, h.reports⟩
    cases heq
    rw [hentry, h.flag]
    rfl
  · refine ⟨?_, fun info heq => ?_, h.reports⟩
    · change false = match reason.syscallInfo with
        | some info => info.entry
        | none => false
      rw [hfresh]
    · change reason.syscallInfo = some info at heq
      rw [hfresh] at heq
      cases heq

theorem siteFrame_flagFollows : SiteFrame true (Carries FlagFollows) where
  slots := fun _ _ _ _ _ => .inl fun _ _ id val _ =>
    writeRegister_respects (R := Carries FlagFollows)
      (fun _ _ h => FlagFollows.of_eq h rfl rfl) (fun _ _ h => h.of_eq rfl rfl) id val true
  memory := fun _ _ h => h.of_eq rfl rfl
  update := fun _ _ _ _ h => h.of_eq rfl rfl
  push := fun _ _ _ _ h => h.of_eq rfl rfl
  erase := fun _ _ h => h.of_eq rfl rfl
  note := fun _ observation hnote h => by
    cases observation <;> first | exact h.of_eq rfl rfl | cases hnote

theorem stopFrame_flagFollows (handlers : HitHandlers) :
    StopFrame handlers (fun _ => True) (Carries FlagFollows) where
  enableSite := siteFrame_flagFollows.enableSite
  disableSite := siteFrame_flagFollows.disableSite
  action := fun _ _ action _ => by
    cases action with
    | site op => exact siteFrame_flagFollows.run (.inl rfl)
    | breakpoints points => exact Respects.modify fun _ h => h.of_eq rfl rfl
  updateThread := fun _ _ _ _ h => h.of_eq rfl rfl
  user := fun _ _ _ _ h => h.of_eq rfl rfl
  script := fun _ _ h => h.of_eq rfl rfl
  deliver := fun _ _ _ _ _ _ _ h => h.of_eq rfl rfl
  running := fun _ _ _ _ _ h => h.of_eq rfl rfl
  track := fun _ _ _ _ h => h.of_eq rfl rfl
  cleanup := fun _ _ h => h.of_eq rfl rfl
  process := fun _ _ _ _ _ h => h.of_eq rfl rfl
  lifecycle := fun _ _ h => h.of_eq rfl rfl
  note := fun _ observation hnote h => by
    cases observation <;> first | exact h.of_eq rfl rfl | cases hnote
  augment := fun reason _ => augmentStopReason_flagFollows reason

/-- What a user of the process does between two waits, and the waits. -/
inductive StopCommand where
  | resume (otid : Option Tid)
  | resumeAllThreads
  | waitOnSignal (toAwait : Option Tid)
  | site (op : SiteOperation)

def StopCommand.run (handlers : HitHandlers) : StopCommand → Debugger PUnit
  | .resume otid => Debugger.resume otid
  | .resumeAllThreads => Debugger.resumeAllThreads
  | .waitOnSignal toAwait => do
      let _ ← Debugger.waitOnSignal handlers toAwait
      pure ⟨⟩
  | .site op => op.run

/-- A sequence of commands, each from the state the one before it left. -/
def performStopCommands (handlers : HitHandlers) (commands : List StopCommand) (m : Machine) :
    Machine :=
  performAll (StopCommand.run handlers) commands m

theorem StopCommand.run_flagFollows (handlers : HitHandlers) (command : StopCommand) :
    Respects (Carries FlagFollows) (command.run handlers) := by
  have h := stopFrame_flagFollows handlers
  cases command with
  | resume otid =>
      exact Respects.bind Respects.get fun _ =>
        Respects.bind (h.resumeFrame trivial).stepOverBreakpoint
          fun _ => (h.resumeFrame trivial).sendContinue
  | resumeAllThreads => exact h.resumeAllThreads fun _ => trivial
  | waitOnSignal toAwait =>
      exact Respects.bind (h.waitOnSignal (fun _ => trivial) toAwait) fun _ => Respects.pure _
  | site op => exact siteFrame_flagFollows.run (.inl rfl)

/-- A process under a catch-all policy that has not reported a stop yet. -/
structure CatchAll (m : Machine) : Prop where
  policy : m.process.policy.mode = .all
  expecting : m.process.expectingSyscallExit = false
  trace : m.trace = []

theorem CatchAll.flagFollows {m : Machine} (h : CatchAll m) : FlagFollows m :=
  ⟨by rw [h.expecting, h.trace]; rfl, by rw [h.trace]; trivial⟩

/-- In every run, whatever threads there are and however their stops
interleave, syscall stops are told apart as the threads' own stops alternate
exactly when the stops are paired. -/
theorem performStopCommands_classified_iff (handlers : HitHandlers) (m : Machine)
    (h : CatchAll m) (commands : List StopCommand) :
    ClassifiedByThread (augmentedStops (performStopCommands handlers commands m).trace) ↔
      PairedStops (augmentedStops (performStopCommands handlers commands m).trace) := by
  have hflag : FlagFollows (performStopCommands handlers commands m) :=
    Respects.performAll (StopCommand.run_flagFollows handlers) commands m h.flagFollows
  exact hflag.reports.classified_iff

namespace SyscallWitness

def handlers : HitHandlers := ⟨fun _ _ => ([], .ok false)⟩

def thread (state : ProcessState) : ThreadState :=
  ⟨⟨fun _ => 0, [], 0⟩, ⟨0, .stopped, 0, none, none⟩, state, false⟩

/-- A thread stops at the boundary of a syscall. -/
def syscallStop (tid : Tid) : WaitAnswer :=
  .report ⟨tid, .stopped sigtrapSyscall 0, .other, fun _ => 0, fun _ => 0⟩

/-- A process with running threads under a catch-all policy. -/
def machine (tids : List Tid) (script : List WaitAnswer) : Machine :=
  let rest := Machine.atRest fun _ => 0
  { rest with
    kernel := { rest.kernel with
      threads := fun _ => ⟨.running, fun _ => 0, .other⟩
      script := script }
    process := { rest.process with
      policy := ⟨.all, []⟩
      threads := tids.map fun tid => (tid, thread .running) } }

theorem machine_catchAll (tids : List Tid) (script : List WaitAnswer) :
    CatchAll (machine tids script) :=
  ⟨rfl, rfl, rfl⟩

/-- A syscall stop with all registers zero, as it is reported. -/
def reported (tid : Tid) (entry : Bool) : StopReason :=
  ⟨tid, .stopped, sigtrap, some .syscall,
    some ⟨0, entry, if entry then .args [0, 0, 0, 0, 0, 0] else .ret 0⟩⟩

/-- One thread enters and leaves a syscall. -/
def oneThread : Machine :=
  performStopCommands handlers [.waitOnSignal none, .resume (some 1), .waitOnSignal none]
    (machine [1] [syscallStop 1, syscallStop 1])

/-- Two threads enter a syscall at the same time. -/
def twoThreads : Machine :=
  performStopCommands handlers [.waitOnSignal none]
    (machine [1, 2] [syscallStop 1, syscallStop 2])

theorem oneThread_stops :
    augmentedStops oneThread.trace = [reported 1 false, reported 1 true] := rfl

theorem twoThreads_stops :
    augmentedStops twoThreads.trace = [reported 2 false, reported 1 true] := rfl

end SyscallWitness

open SyscallWitness in
theorem performStopCommands_classified_iff_oneThread :
    PairedStops (augmentedStops oneThread.trace) ∧
      ClassifiedByThread (augmentedStops oneThread.trace) := by
  have hpaired : PairedStops (augmentedStops oneThread.trace) := by
    rw [oneThread_stops]
    simp [PairedStops, followsEntry, ownSyscallStops, StopReason.isSyscall, reported]
  exact ⟨hpaired, (performStopCommands_classified_iff handlers _
    (machine_catchAll [1] [syscallStop 1, syscallStop 1]) _).mpr hpaired⟩

open SyscallWitness in
/-- The second thread's entry is reported as an exit. -/
theorem performStopCommands_not_classified :
    ¬ ∀ (handlers : HitHandlers) (m : Machine), CatchAll m → ∀ commands : List StopCommand,
      ClassifiedByThread (augmentedStops (performStopCommands handlers commands m).trace) := by
  intro hall
  have hclassified : ClassifiedByThread (augmentedStops twoThreads.trace) :=
    hall handlers _ (machine_catchAll [1, 2] [syscallStop 1, syscallStop 2]) [.waitOnSignal none]
  rw [twoThreads_stops] at hclassified
  have hentry := (hclassified.1 _ rfl).mpr (by decide)
  cases hentry

end Gsdb
