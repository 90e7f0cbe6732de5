/-
`process::launch` after its `fork`: the parent and the child run side by side, and the child
reports a failed call through a pipe that a successful `exec` closes.  In whatever order the
two take their steps, the launch ends like the child's calls made one after the other.
-/
import Gsdb.Evaluation
import Gsdb.Interleavings
import Gsdb.SharedPipe
import Mathlib.Data.Fintype.Basic

namespace Gsdb

open ByteMemory Interleaving SharedPipe

inductive LaunchParty where
  | parent | child
deriving DecidableEq, Repr

instance : Fintype LaunchParty where
  elems := {.parent, .child}
  complete := by
    intro party
    cases party <;> decide

/-- The calls of the child whose failure is reported. -/
inductive ChildCall where
  | setpgid | dup2 | traceMe | exec
deriving DecidableEq, Repr

/-- The prefixes of the messages. -/
def ChildCall.failure : ChildCall → String
  | .setpgid => "Could not set pgid!"
  | .dup2 => "stdout replacement failed"
  | .traceMe => "Tracing failed"
  | .exec => "exec FAILED"

/-- What is launched, and how the system answers: the error number of each call that fails, and
the text of each error number. -/
structure LaunchEnv where
  debug : Bool
  stdoutReplacement : Option Int
  errno : ChildCall → Option Int
  strerror : Int → List Byte

/-- The message of `exit_with_perror`. -/
def LaunchEnv.perror (env : LaunchEnv) (call : ChildCall) (errno : Int) : List Byte :=
  ascii call.failure ++ ascii ": " ++ env.strerror errno

inductive ChildStep where
  | attempt (call : ChildCall)
  | setPersonality
  | closeRead
deriving DecidableEq, Repr

/-- What the child does before its program is replaced. -/
def childProgram (env : LaunchEnv) : List ChildStep :=
  [.attempt .setpgid, .setPersonality, .closeRead] ++
    (if env.stdoutReplacement.isSome then [.attempt .dup2] else []) ++
    (if env.debug then [.attempt .traceMe] else []) ++ [.attempt .exec]

/-- Where the child is.  `killed` is the end of a process that writes to a pipe nobody reads. -/
inductive ChildPoint where
  | working (steps : List ChildStep)
  | reporting (message : List Byte)
  | exiting (message : List Byte)
  | exited (message : List Byte)
  | executing
  | killed
deriving DecidableEq, Repr

/-- What `process::launch` ends with: an error, or a process that is traced or not. -/
inductive LaunchResult where
  | failed (message : List Byte)
  | launched (isAttached : Bool)
deriving DecidableEq, Repr

inductive ParentPoint where
  | closeWrite
  | read
  | closeRead (data : List Byte)
  | waitChild (data : List Byte)
  | construct
  | waitStop
  | setOptions
  | finished (result : LaunchResult)
deriving DecidableEq, Repr

structure LaunchState where
  parent : ParentPoint
  child : ChildPoint
  channel : Pipe LaunchParty Byte

/-- Behind the `fork` both processes hold both ends. -/
def LaunchState.start (env : LaunchEnv) : LaunchState :=
  ⟨.closeWrite, .working (childProgram env), ⟨[], fun _ => true, fun _ => true⟩⟩

/-- A step of the child.  The pipe closes when the program is replaced or the process ends. -/
def childStep (env : LaunchEnv) (st : LaunchState) : Option LaunchState :=
  match st.child with
  | .working (.attempt call :: rest) =>
      match env.errno call with
      | some errno => some { st with child := .reporting (env.perror call errno) }
      | none =>
          if call = .exec then
            some { st with child := .executing, channel := st.channel.closeBoth .child }
          else some { st with child := .working rest }
  | .working (.setPersonality :: rest) => some { st with child := .working rest }
  | .working (.closeRead :: rest) =>
      some { st with child := .working rest, channel := st.channel.closeRead .child }
  | .working [] => none
  | .reporting message =>
      match st.channel.write message with
      | some channel => some { st with child := .exiting message, channel := channel }
      | none => some { st with child := .killed, channel := st.channel.closeBoth .child }
  | .exiting message =>
      some { st with child := .exited message, channel := st.channel.closeBoth .child }
  | .exited _ | .executing | .killed => none

/-- `waitpid` for a child that is gone. -/
def ChildPoint.isGone : ChildPoint → Bool
  | .exited _ | .killed => true
  | _ => false

/-- `wait_on_signal` for the stop of a traced child that has replaced its program, or for its
end. -/
def ChildPoint.reportsStatus : ChildPoint → Bool
  | .exited _ | .killed | .executing => true
  | _ => false

/-- A step of the parent. -/
def parentStep (env : LaunchEnv) (st : LaunchState) : Option LaunchState :=
  match st.parent with
  | .closeWrite => some { st with parent := .read, channel := st.channel.closeWrite .parent }
  | .read =>
      match st.channel.read 1024 with
      | some (data, channel) => some { st with parent := .closeRead data, channel := channel }
      | none => none
  | .closeRead data =>
      some { st with
        parent := if data = [] then .construct else .waitChild data
        channel := st.channel.closeRead .parent }
  | .waitChild data =>
      if st.child.isGone then some { st with parent := .finished (.failed data) } else none
  | .construct =>
      some { st with
        parent := if env.debug then .waitStop else .finished (.launched env.debug) }
  | .waitStop =>
      if st.child.reportsStatus then some { st with parent := .setOptions } else none
  | .setOptions => some { st with parent := .finished (.launched env.debug) }
  | .finished _ => none

def launchStep (env : LaunchEnv) : System LaunchParty LaunchState
  | .parent => parentStep env
  | .child => childStep env

/-- The first call of a program that fails. -/
def firstFailure (env : LaunchEnv) : List ChildStep → Option (List Byte)
  | [] => none
  | .attempt call :: rest =>
      match env.errno call with
      | some errno => some (env.perror call errno)
      | none => firstFailure env rest
  | _ :: rest => firstFailure env rest

/-- The calls made one after the other: the first failure is thrown, as far as one read of the
pipe gets. -/
def launchResult (env : LaunchEnv) : LaunchResult :=
  match firstFailure env (childProgram env) with
  | some message => .failed (message.take 1024)
  | none => .launched env.debug

/-- What the child has written. -/
def ChildPoint.sent : ChildPoint → List Byte
  | .exiting message | .exited message => message
  | _ => []

/-- The child will write nothing more. -/
def ChildPoint.hasSent : ChildPoint → Bool
  | .working _ | .reporting _ => false
  | _ => true

def ChildPoint.holdsWrite : ChildPoint → Bool
  | .working _ | .reporting _ | .exiting _ => true
  | _ => false

/-- Its program is replaced, or it is gone. -/
def ChildPoint.isOver : ChildPoint → Bool
  | .exited _ | .executing | .killed => true
  | _ => false

/-- The child is on the way to the end that its calls lead to. -/
def ChildPoint.OnTheWay (env : LaunchEnv) : ChildPoint → Prop
  | .working steps =>
      (∃ checks, steps = checks ++ [.attempt .exec] ∧ .attempt .exec ∉ checks) ∧
        firstFailure env steps = firstFailure env (childProgram env)
  | .reporting message | .exiting message | .exited message =>
      firstFailure env (childProgram env) = some message
  | .executing => firstFailure env (childProgram env) = none
  | .killed => False

def ParentPoint.holdsRead : ParentPoint → Bool
  | .closeWrite | .read | .closeRead _ => true
  | _ => false

/-- What the parent has read fits what the child has sent. -/
def ParentPoint.Received (env : LaunchEnv) (child : ChildPoint) (buffer : List Byte) :
    ParentPoint → Prop
  | .closeWrite | .read => buffer = child.sent
  | .closeRead data => child.hasSent = true ∧ data = child.sent.take 1024
  | .waitChild data => child.hasSent = true ∧ data = child.sent.take 1024 ∧ data ≠ []
  | .construct | .waitStop | .setOptions => child = .executing
  | .finished result => child.isOver = true ∧ result = launchResult env

/-- The invariant of the two processes and their pipe. -/
structure LaunchAgrees (env : LaunchEnv) (st : LaunchState) : Prop where
  onTheWay : st.child.OnTheWay env
  childWrite : st.channel.writeEnd .child = st.child.holdsWrite
  childRead : st.child.isOver = true → st.channel.readEnd .child = false
  parentWrite : st.channel.writeEnd .parent = decide (st.parent = .closeWrite)
  parentRead : st.channel.readEnd .parent = st.parent.holdsRead
  received : st.parent.Received env st.child st.channel.buffer

section Handshake

variable {env : LaunchEnv} {st next : LaunchState}

theorem perror_ne_nil (call : ChildCall) (errno : Int) : env.perror call errno ≠ [] := by
  cases call <;> exact List.cons_ne_nil _ _

theorem firstFailure_ne_nil {steps : List ChildStep} {message : List Byte}
    (h : firstFailure env steps = some message) : message ≠ [] := by
  induction steps with
  | nil => cases h
  | cons step rest ih =>
      cases step with
      | attempt call =>
          rw [firstFailure] at h
          cases herrno : env.errno call with
          | some errno =>
              rw [herrno] at h
              cases h
              exact perror_ne_nil call errno
          | none =>
              rw [herrno] at h
              exact ih h
      | setPersonality => exact ih h
      | closeRead => exact ih h

/-- A child that has sent something sends it on the way to its end. -/
theorem ChildPoint.OnTheWay.sent_ne_nil {child : ChildPoint} (h : child.OnTheWay env)
    (hsent : child.hasSent = true) (hrunning : child ≠ .executing) : child.sent ≠ [] := by
  cases child with
  | working steps => cases hsent
  | reporting message => cases hsent
  | exiting message => exact firstFailure_ne_nil h
  | exited message => exact firstFailure_ne_nil h
  | executing => exact absurd rfl hrunning
  | killed => exact h.elim

/-- A parent that has not read yet. -/
def ParentPoint.isReading : ParentPoint → Bool
  | .closeWrite | .read => true
  | _ => false

theorem ParentPoint.received_of_reading {parent : ParentPoint} {child : ChildPoint}
    {buffer : List Byte} (hreading : parent.isReading = true) (hbuffer : buffer = child.sent) :
    parent.Received env child buffer := by
  cases parent <;> first | exact hbuffer | cases hreading

/-- Nothing is read before the child has written or closed its end. -/
theorem ParentPoint.Received.reading {parent : ParentPoint} {child : ChildPoint}
    {buffer : List Byte} (h : parent.Received env child buffer) (hsent : child.hasSent = false) :
    parent.isReading = true ∧ buffer = child.sent := by
  have hnot : child.hasSent ≠ true := by simp [hsent]
  have hrunning : child ≠ .executing := by
    rintro rfl
    cases hsent
  have hover : child.isOver ≠ true := by
    intro hover
    cases child <;> cases hover <;> cases hsent
  cases parent with
  | closeWrite => exact ⟨rfl, h⟩
  | read => exact ⟨rfl, h⟩
  | closeRead data => exact absurd h.1 hnot
  | waitChild data => exact absurd h.1 hnot
  | construct => exact absurd h hrunning
  | waitStop => exact absurd h hrunning
  | setOptions => exact absurd h hrunning
  | finished result => exact absurd h.1 hover

theorem ParentPoint.holdsRead_of_reading {parent : ParentPoint} (h : parent.isReading = true) :
    parent.holdsRead = true := by
  cases parent <;> first | rfl | cases h

theorem start_agrees (env : LaunchEnv) : LaunchAgrees env (.start env) where
  onTheWay := by
    refine ⟨⟨_, rfl, ?_⟩, rfl⟩
    cases env.debug <;> cases hout : env.stdoutReplacement.isSome <;> simp
  childWrite := rfl
  childRead := by
    intro h
    cases h
  parentWrite := rfl
  parentRead := rfl
  received := rfl

/-- A working child makes its next call. -/
theorem working_agrees {steps : List ChildStep} (hchild : st.child = .working steps)
    (h : LaunchAgrees env st) (hstep : childStep env st = some next) :
    LaunchAgrees env next := by
  have hway := h.onTheWay
  rw [hchild] at hway
  obtain ⟨⟨checks, hsteps, hchecks⟩, hsame⟩ := hway
  have hparty : LaunchParty.parent ≠ LaunchParty.child := by decide
  obtain ⟨hreading, hbuffer⟩ := h.received.reading (by rw [hchild]; rfl)
  have hwrite : st.channel.writeEnd .child = true := by rw [h.childWrite, hchild]; rfl
  rw [hchild] at hbuffer
  simp only [childStep, hchild] at hstep
  cases checks with
  | nil =>
      subst hsteps
      simp only [List.nil_append] at hstep hsame
      cases herrno : env.errno .exec with
      | some errno =>
          rw [herrno] at hstep
          cases hstep
          refine ⟨?_, hwrite, fun hover => (Bool.false_ne_true hover).elim, h.parentWrite,
            h.parentRead, ParentPoint.received_of_reading hreading hbuffer⟩
          rw [firstFailure, herrno] at hsame
          exact hsame.symm
      | none =>
          simp only [herrno, if_true] at hstep
          cases hstep
          refine ⟨?_, Pipe.closeBoth_writeEnd_self, fun _ => Pipe.closeBoth_readEnd_self, ?_, ?_,
            ParentPoint.received_of_reading hreading hbuffer⟩
          · rw [firstFailure, herrno] at hsame
            exact hsame.symm
          · exact (Pipe.closeBoth_writeEnd_of_ne hparty).trans h.parentWrite
          · exact (Pipe.closeBoth_readEnd_of_ne hparty).trans h.parentRead
  | cons step rest =>
      subst hsteps
      obtain ⟨hstepNot, hrest⟩ := List.ne_and_not_mem_of_not_mem_cons hchecks
      have hworking : firstFailure env (rest ++ [.attempt .exec]) =
            firstFailure env (childProgram env) →
          ChildPoint.OnTheWay env (.working (rest ++ [.attempt .exec])) :=
        fun hfailure => ⟨⟨rest, rfl, hrest⟩, hfailure⟩
      cases step with
      | setPersonality =>
          cases hstep
          exact ⟨hworking hsame, hwrite, fun hover => (Bool.false_ne_true hover).elim,
            h.parentWrite, h.parentRead, ParentPoint.received_of_reading hreading hbuffer⟩
      | closeRead =>
          cases hstep
          exact ⟨hworking hsame, hwrite, fun hover => (Bool.false_ne_true hover).elim,
            h.parentWrite, (Pipe.closeRead_readEnd_of_ne hparty).trans h.parentRead,
            ParentPoint.received_of_reading hreading hbuffer⟩
      | attempt call =>
          have hcall : call ≠ .exec := fun heq => hstepNot (congrArg ChildStep.attempt heq).symm
          rw [List.cons_append, firstFailure] at hsame
          cases herrno : env.errno call with
          | some errno =>
              rw [herrno] at hsame
              simp only [List.cons_append, herrno] at hstep
              cases hstep
              exact ⟨hsame.symm, hwrite, fun hover => (Bool.false_ne_true hover).elim,
                h.parentWrite, h.parentRead, ParentPoint.received_of_reading hreading hbuffer⟩
          | none =>
              rw [herrno] at hsame
              simp only [List.cons_append, herrno, if_neg hcall] at hstep
              cases hstep
              exact ⟨hworking hsame, hwrite, fun hover => (Bool.false_ne_true hover).elim,
                h.parentWrite, h.parentRead, ParentPoint.received_of_reading hreading hbuffer⟩

/-- Each step of the child keeps the invariant. -/
theorem childStep_agrees (h : LaunchAgrees env st) (hstep : childStep env st = some next) :
    LaunchAgrees env next := by
  have hparty : LaunchParty.parent ≠ LaunchParty.child := by decide
  cases hchild : st.child with
  | working steps => exact working_agrees hchild h hstep
  | reporting message =>
      obtain ⟨hreading, hbuffer⟩ := h.received.reading (by rw [hchild]; rfl)
      have hread : st.channel.readEnd .parent = true :=
        h.parentRead.trans (ParentPoint.holdsRead_of_reading hreading)
      have hway := h.onTheWay
      have hwrite := h.childWrite
      rw [hchild] at hbuffer hway hwrite
      simp only [childStep, hchild] at hstep
      simp only [Pipe.write_of_reader message hread] at hstep
      cases hstep
      refine ⟨hway, hwrite, fun hover => (Bool.false_ne_true hover).elim, h.parentWrite,
        h.parentRead, ParentPoint.received_of_reading hreading ?_⟩
      change st.channel.buffer ++ message = message
      rw [hbuffer]
      rfl
  | exiting message =>
      have hway := h.onTheWay
      have hreceived := h.received
      rw [hchild] at hway hreceived
      simp only [childStep, hchild] at hstep
      cases hstep
      refine ⟨hway, Pipe.closeBoth_writeEnd_self, fun _ => Pipe.closeBoth_readEnd_self,
        (Pipe.closeBoth_writeEnd_of_ne hparty).trans h.parentWrite,
        (Pipe.closeBoth_readEnd_of_ne hparty).trans h.parentRead, ?_⟩
      cases hparent : st.parent with
      | closeWrite | read | closeRead data | waitChild data =>
          rw [hparent] at hreceived
          exact hreceived
      | construct | waitStop | setOptions =>
          rw [hparent] at hreceived
          cases hreceived
      | finished result =>
          rw [hparent] at hreceived
          cases hreceived.1
  | exited message | executing | killed =>
      simp only [childStep, hchild] at hstep
      cases hstep

/-- Each step of the parent keeps the invariant. -/
theorem parentStep_agrees (h : LaunchAgrees env st) (hstep : parentStep env st = some next) :
    LaunchAgrees env next := by
  have hparty : LaunchParty.child ≠ LaunchParty.parent := by decide
  have hway := h.onTheWay
  have hwrite := h.childWrite
  have hread := h.childRead
  have hparentWrite := h.parentWrite
  have hparentRead := h.parentRead
  have hreceived := h.received
  cases hparent : st.parent with
  | closeWrite =>
      rw [hparent] at hreceived hparentRead
      simp only [parentStep, hparent] at hstep
      cases hstep
      exact ⟨hway, (Pipe.closeWrite_writeEnd_of_ne hparty).trans hwrite, hread,
        Pipe.closeWrite_writeEnd_self, hparentRead, hreceived⟩
  | read =>
      rw [hparent] at hreceived hparentWrite hparentRead
      simp only [parentStep, hparent] at hstep
      by_cases hempty : st.channel.buffer = []
      · by_cases hheld : st.child.holdsWrite = true
        · rw [Pipe.read_waits 1024 hempty (hwrite.trans hheld)] at hstep
          cases hstep
        · rw [Pipe.read_end 1024 hempty] at hstep
          · cases hstep
            refine ⟨hway, hwrite, hread, hparentWrite, hparentRead, ?_, ?_⟩
            · cases hchild : st.child <;> rw [hchild] at hheld <;>
                first | rfl | exact absurd rfl hheld
            · rw [← show st.channel.buffer = st.child.sent from hreceived, hempty]
              rfl
          · intro holder
            cases holder with
            | parent => exact hparentWrite
            | child => exact hwrite.trans (Bool.eq_false_iff.mpr hheld)
      · rw [Pipe.read_data 1024 hempty] at hstep
        cases hstep
        have hsent : st.channel.buffer = st.child.sent := hreceived
        refine ⟨hway, hwrite, hread, hparentWrite, hparentRead, ?_, ?_⟩
        · rw [hsent] at hempty
          cases hchild : st.child <;> rw [hchild] at hempty <;>
            first | rfl | exact absurd rfl hempty
        · rw [← hsent]
  | closeRead data =>
      rw [hparent] at hreceived hparentWrite
      simp only [parentStep, hparent] at hstep
      obtain ⟨hsent, hdata⟩ := hreceived
      cases hstep
      refine ⟨hway, hwrite, ?_, ?_, ?_, ?_⟩
      · intro hover
        exact (Pipe.closeRead_readEnd_of_ne hparty).trans (hread hover)
      · change st.channel.writeEnd .parent = _
        rw [hparentWrite]
        split <;> rfl
      · rw [Pipe.closeRead_readEnd_self]
        split <;> rfl
      · by_cases hnothing : data = []
        · rw [if_pos hnothing]
          by_contra hrunning
          have hmessage := hway.sent_ne_nil hsent hrunning
          rw [hnothing] at hdata
          rcases List.take_eq_nil_iff.mp hdata.symm with h | h
          · cases h
          · exact hmessage h
        · rw [if_neg hnothing]
          exact ⟨hsent, hdata, hnothing⟩
  | waitChild data =>
      rw [hparent] at hreceived hparentWrite hparentRead
      simp only [parentStep, hparent] at hstep
      obtain ⟨hsent, hdata, hmore⟩ := hreceived
      by_cases hgone : st.child.isGone = true
      · rw [if_pos hgone] at hstep
        cases hstep
        refine ⟨hway, hwrite, hread, hparentWrite, hparentRead, ?_⟩
        cases hchild : st.child with
        | exited message =>
            rw [hchild] at hway hdata
            refine ⟨rfl, ?_⟩
            rw [launchResult, show firstFailure env (childProgram env) = some message from hway,
              hdata]
            rfl
        | killed =>
            rw [hchild] at hway
            exact hway.elim
        | working steps | reporting message | exiting message | executing =>
            rw [hchild] at hgone
            cases hgone
      · rw [if_neg hgone] at hstep
        cases hstep
  | construct =>
      rw [hparent] at hreceived hparentWrite hparentRead
      simp only [parentStep, hparent] at hstep
      have hexecuting : st.child = .executing := hreceived
      rw [hexecuting] at hway
      cases hstep
      cases hdebug : env.debug with
      | true =>
          exact ⟨h.onTheWay, hwrite, hread, hparentWrite, hparentRead, hexecuting⟩
      | false =>
          refine ⟨h.onTheWay, hwrite, hread, hparentWrite, hparentRead, ?_, ?_⟩
          · rw [hexecuting]
            rfl
          · rw [launchResult, show firstFailure env (childProgram env) = none from hway, hdebug]
  | waitStop =>
      rw [hparent] at hreceived hparentWrite hparentRead
      simp only [parentStep, hparent] at hstep
      have hexecuting : st.child = .executing := hreceived
      have hstatus : st.child.reportsStatus = true := by
        rw [hexecuting]
        rfl
      simp only [hstatus, if_true] at hstep
      cases hstep
      exact ⟨h.onTheWay, hwrite, hread, hparentWrite, hparentRead, hexecuting⟩
  | setOptions =>
      rw [hparent] at hreceived hparentWrite hparentRead
      simp only [parentStep, hparent] at hstep
      have hexecuting : st.child = .executing := hreceived
      rw [hexecuting] at hway
      cases hstep
      refine ⟨h.onTheWay, hwrite, hread, hparentWrite, hparentRead, ?_, ?_⟩
      · rw [hexecuting]
        rfl
      · rw [launchResult, show firstFailure env (childProgram env) = none from hway]
  | finished result =>
      simp only [parentStep, hparent] at hstep
      cases hstep

theorem launchStep_agrees (party : LaunchParty) (st next : LaunchState)
    (h : LaunchAgrees env st) (hstep : launchStep env party st = some next) :
    LaunchAgrees env next := by
  cases party with
  | parent => exact parentStep_agrees h hstep
  | child => exact childStep_agrees h hstep

theorem run_agrees {schedule : List LaunchParty}
    (hrun : run (launchStep env) schedule (.start env) = some st) : LaunchAgrees env st :=
  run_keeps (LaunchAgrees env) launchStep_agrees (start_agrees env) hrun

/-- A child that can take no step has replaced its program or reported its failure. -/
theorem LaunchAgrees.child_over (h : LaunchAgrees env st) (hstep : childStep env st = none) :
    st.child.isOver = true := by
  have hway := h.onTheWay
  cases hchild : st.child with
  | exited message | executing | killed => rfl
  | exiting message =>
      simp only [childStep, hchild] at hstep
      cases hstep
  | reporting message =>
      simp only [childStep, hchild] at hstep
      cases hwrite : st.channel.write message <;> simp only [hwrite] at hstep <;> cases hstep
  | working steps =>
      rw [hchild] at hway
      obtain ⟨⟨checks, hsteps, -⟩, -⟩ := hway
      simp only [childStep, hchild] at hstep
      cases steps with
      | nil => exact absurd hsteps.symm (List.append_ne_nil_of_right_ne_nil _ (by simp))
      | cons step rest =>
          cases step with
          | attempt call =>
              cases herrno : env.errno call with
              | some errno => simp only [herrno] at hstep; cases hstep
              | none =>
                  simp only [herrno] at hstep
                  split at hstep <;> cases hstep
          | setPersonality => cases hstep
          | closeRead => cases hstep

/-- With the child over, the parent never waits. -/
theorem LaunchAgrees.parent_finished (h : LaunchAgrees env st) (hover : st.child.isOver = true)
    (hstep : parentStep env st = none) : st.parent = .finished (launchResult env) := by
  have hreceived := h.received
  have hway := h.onTheWay
  cases hparent : st.parent with
  | closeWrite | closeRead data | construct | setOptions =>
      simp only [parentStep, hparent] at hstep
      cases hstep
  | read =>
      simp only [parentStep, hparent] at hstep
      rw [hparent] at hreceived
      by_cases hempty : st.channel.buffer = []
      · rw [Pipe.read_end 1024 hempty] at hstep
        · cases hstep
        · intro holder
          cases holder with
          | parent => rw [h.parentWrite, hparent]; rfl
          | child =>
              rw [h.childWrite]
              cases hchild : st.child <;> rw [hchild] at hover <;> first | rfl | cases hover
      · rw [Pipe.read_data 1024 hempty] at hstep
        cases hstep
  | waitChild data =>
      simp only [parentStep, hparent] at hstep
      rw [hparent] at hreceived
      obtain ⟨-, hdata, hmore⟩ := hreceived
      cases hchild : st.child with
      | exited message | killed =>
          rw [hchild] at hstep
          cases hstep
      | executing =>
          rw [hchild] at hdata
          exact absurd hdata hmore
      | working steps | reporting message | exiting message =>
          rw [hchild] at hover
          cases hover
  | waitStop =>
      simp only [parentStep, hparent] at hstep
      rw [hparent] at hreceived
      have hexecuting : st.child = .executing := hreceived
      rw [hexecuting] at hstep
      cases hstep
  | finished result =>
      rw [hparent] at hreceived
      rw [hreceived.2]

/-- A bound on the steps that a point of the parent has in front of it. -/
def ParentPoint.left : ParentPoint → Nat
  | .closeWrite => 6
  | .read => 5
  | .closeRead _ => 4
  | .construct => 3
  | .waitStop => 2
  | .waitChild _ | .setOptions => 1
  | .finished _ => 0

def ChildPoint.left : ChildPoint → Nat
  | .working steps => steps.length + 2
  | .reporting _ => 2
  | .exiting _ => 1
  | .exited _ | .executing | .killed => 0

def LaunchState.left (st : LaunchState) : Nat := st.parent.left + st.child.left

theorem childStep_left (hstep : childStep env st = some next) :
    next.parent = st.parent ∧ next.child.left < st.child.left := by
  cases hchild : st.child with
  | exited message | executing | killed =>
      simp only [childStep, hchild] at hstep
      cases hstep
  | exiting message =>
      simp only [childStep, hchild] at hstep
      cases hstep
      exact ⟨rfl, by simp [ChildPoint.left]⟩
  | reporting message =>
      simp only [childStep, hchild] at hstep
      cases hwrite : st.channel.write message <;> simp only [hwrite] at hstep <;> cases hstep <;>
        exact ⟨rfl, by simp [ChildPoint.left]⟩
  | working steps =>
      simp only [childStep, hchild] at hstep
      cases steps with
      | nil => cases hstep
      | cons step rest =>
          cases step with
          | setPersonality | closeRead =>
              cases hstep
              exact ⟨rfl, by simp [ChildPoint.left]⟩
          | attempt call =>
              cases herrno : env.errno call with
              | some errno =>
                  simp only [herrno] at hstep
                  cases hstep
                  exact ⟨rfl, by simp [ChildPoint.left]⟩
              | none =>
                  simp only [herrno] at hstep
                  split at hstep <;> cases hstep <;> exact ⟨rfl, by simp [ChildPoint.left]⟩

theorem parentStep_left (hstep : parentStep env st = some next) :
    next.child = st.child ∧ next.parent.left < st.parent.left := by
  cases hparent : st.parent with
  | closeWrite | setOptions =>
      simp only [parentStep, hparent] at hstep
      cases hstep
      exact ⟨rfl, by simp [ParentPoint.left]⟩
  | read =>
      simp only [parentStep, hparent] at hstep
      cases hread : st.channel.read 1024 <;> simp only [hread] at hstep <;> cases hstep
      exact ⟨rfl, by simp [ParentPoint.left]⟩
  | closeRead data =>
      simp only [parentStep, hparent] at hstep
      cases hstep
      refine ⟨rfl, ?_⟩
      dsimp only
      split <;> simp [ParentPoint.left]
  | construct =>
      simp only [parentStep, hparent] at hstep
      cases hstep
      refine ⟨rfl, ?_⟩
      dsimp only
      split <;> simp [ParentPoint.left]
  | waitChild data | waitStop =>
      simp only [parentStep, hparent] at hstep
      split at hstep <;> cases hstep
      exact ⟨rfl, by simp [ParentPoint.left]⟩
  | finished result =>
      simp only [parentStep, hparent] at hstep
      cases hstep

theorem launchStep_left (party : LaunchParty) (st next : LaunchState)
    (hstep : launchStep env party st = some next) : next.left < st.left := by
  cases party with
  | parent =>
      obtain ⟨hsame, hless⟩ := parentStep_left hstep
      rw [LaunchState.left, LaunchState.left, hsame]
      omega
  | child =>
      obtain ⟨hsame, hless⟩ := childStep_left hstep
      rw [LaunchState.left, LaunchState.left, hsame]
      omega

theorem start_left_le (env : LaunchEnv) : (LaunchState.start env).left ≤ 14 := by
  have hlength : (childProgram env).length ≤ 6 := by
    unfold childProgram
    cases env.debug <;> cases env.stdoutReplacement.isSome <;> decide
  change 6 + ((childProgram env).length + 2) ≤ 14
  omega

end Handshake

/-- However the steps of the two processes are interleaved, the child is never killed by its
report, and a launch that has returned or thrown has done so like the child's calls made one after
the other, with the child in its final state and every end of the pipe closed. -/
theorem launch_result (env : LaunchEnv) (schedule : List LaunchParty) (st : LaunchState)
    (hrun : run (launchStep env) schedule (.start env) = some st) :
    st.child ≠ .killed ∧ ∀ result, st.parent = .finished result →
      result = launchResult env ∧
      (∀ message, firstFailure env (childProgram env) = some message →
        st.child = .exited message) ∧
      (firstFailure env (childProgram env) = none → st.child = .executing) ∧
      ∀ party, st.channel.readEnd party = false ∧ st.channel.writeEnd party = false := by
  have h := run_agrees hrun
  have hway := h.onTheWay
  constructor
  · intro hkilled
    rw [hkilled] at hway
    exact hway
  · intro result hfinished
    have hreceived := h.received
    rw [hfinished] at hreceived
    obtain ⟨hover, hresult⟩ := hreceived
    refine ⟨hresult, ?_, ?_, ?_⟩
    · intro message hfailure
      cases hchild : st.child with
      | exited other =>
          rw [hchild] at hway
          rw [Option.some.inj (hfailure.symm.trans hway)]
      | executing =>
          rw [hchild] at hway
          cases hfailure.symm.trans hway
      | working steps | reporting other | exiting other | killed =>
          rw [hchild] at hover hway
          first | exact hway.elim | cases hover
    · intro hnone
      cases hchild : st.child with
      | exited other =>
          rw [hchild] at hway
          cases hnone.symm.trans hway
      | executing => rfl
      | working steps | reporting other | exiting other | killed =>
          rw [hchild] at hover hway
          first | exact hway.elim | cases hover
    · intro party
      cases party with
      | parent =>
          rw [h.parentRead, h.parentWrite, hfinished]
          exact ⟨rfl, rfl⟩
      | child =>
          refine ⟨h.childRead hover, h.childWrite.trans ?_⟩
          cases hchild : st.child <;> rw [hchild] at hover <;> first | rfl | cases hover

/-- No interleaving deadlocks or goes on for ever: after at most 14 steps both processes have come
to their ends, and where neither can take a step the launch has its result. -/
theorem launch_completes (env : LaunchEnv) (schedule : List LaunchParty) (st : LaunchState)
    (hrun : run (launchStep env) schedule (.start env) = some st) :
    schedule.length ≤ 14 ∧
      (Ended (launchStep env) st → st.parent = .finished (launchResult env)) ∧
      ∃ more last, run (launchStep env) (schedule ++ more) (.start env) = some last ∧
        last.parent = .finished (launchResult env) := by
  have hends : ∀ {schedule st}, run (launchStep env) schedule (.start env) = some st →
      Ended (launchStep env) st → st.parent = .finished (launchResult env) := by
    intro schedule st hrun hended
    have h := run_agrees hrun
    exact h.parent_finished (h.child_over (hended .child)) (hended .parent)
  have hlength := length_le_measure LaunchState.left launchStep_left hrun
  have hstart := start_left_le env
  refine ⟨by omega, hends hrun, ?_⟩
  obtain ⟨more, last, hmore, hended⟩ :=
    leads_to_end LaunchState.left (@launchStep_left env) st
  have hall : run (launchStep env) (schedule ++ more) (.start env) = some last := by
    rw [run_append, hrun]
    exact hmore
  exact ⟨more, last, hall, hends hall hended⟩

namespace LaunchWitness

/-- A program that does not exist. -/
def env : LaunchEnv where
  debug := true
  stdoutReplacement := none
  errno := fun call => if call = .exec then some 2 else none
  strerror := fun _ => ascii "No such file or directory"

/-- The parent reads while the child has not exited yet. -/
def schedule : List LaunchParty :=
  [.parent, .child, .child, .child, .child, .child, .child, .parent, .parent, .child, .parent]

def message : List Byte := ascii "exec FAILED: No such file or directory"

def channel : Pipe LaunchParty Byte :=
  (((Pipe.mk [] (fun _ => true) fun _ => true).closeWrite .parent).closeRead .child)

def last : LaunchState :=
  ⟨.finished (.failed message), .exited message, (channel.closeRead .parent).closeBoth .child⟩

theorem schedule_run : run (launchStep env) schedule (.start env) = some last := rfl

/-- The error is thrown with the child's message. -/
theorem launch_result_missing : launchResult env = .failed message ∧
    ∀ party, last.channel.readEnd party = false ∧ last.channel.writeEnd party = false := by
  obtain ⟨-, hfinished⟩ := launch_result env schedule last schedule_run
  obtain ⟨hresult, -, -, hclosed⟩ := hfinished (.failed message) rfl
  exact ⟨hresult.symm, hclosed⟩

/-- A launch of which the parent has only closed its write end still comes to its end. -/
theorem launch_completes_begun :
    ∃ more final, run (launchStep env) ([.parent] ++ more) (.start env) = some final ∧
      final.parent = .finished (launchResult env) :=
  (launch_completes env [.parent] _ rfl).2.2

end LaunchWitness

end Gsdb
