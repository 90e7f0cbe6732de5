/-
When a called function is entered: the first time a thread runs after its registers were
set for a call.  Read off the history, with the registers the thread has then.
-/
import Gsdb.ArgumentAllocation
import Gsdb.StepInstruction
import Gsdb.Transparency

namespace Gsdb

open ByteMemory Effects Eff Debugger

/-- The stack pointer in a user area. -/
def User.sp (user : User) : Word := Registers.word user 64 152

/-- A thread at the first instruction of a function that it was sent to. -/
structure CallEntry where
  tid : Tid
  moment : Moment

namespace CallEntry

def user (entry : CallEntry) : User := (entry.moment.kernel.threads entry.tid).user

/-- The stack is aligned as functions may expect, with the return address on it. -/
def Aligned (entry : CallEntry) : Prop := (User.sp entry.user + 8).toNat % 16 = 0

end CallEntry

/-- Registers of a thread were set for a call, and it has not run since. -/
def awaitsEntry (t : Tid) : List Observation → Bool
  | [] => false
  | .committed tid :: earlier => decide (tid = t) || awaitsEntry t earlier
  | .letRun tid _ _ :: earlier => decide (tid ≠ t) && awaitsEntry t earlier
  | _ :: earlier => awaitsEntry t earlier

/-- The functions that were entered, newest first. -/
def callEntries : List Observation → List CallEntry
  | [] => []
  | .letRun tid _ moment :: earlier =>
      if awaitsEntry tid earlier then ⟨tid, moment⟩ :: callEntries earlier
      else callEntries earlier
  | _ :: earlier => callEntries earlier

/-- The moment at which a thread was let run first. -/
def firstRun (t : Tid) : List Observation → Option Moment
  | [] => none
  | .letRun tid _ moment :: earlier =>
      (firstRun t earlier).or (if tid = t then some moment else none)
  | _ :: earlier => firstRun t earlier

def Observation.isCommitted : Observation → Bool
  | .committed _ => true
  | _ => false

/-- Everything observed from one machine to another is of a kind. -/
def Logs (p : Observation → Prop) (m m' : Machine) : Prop :=
  ∃ recent, m'.trace = recent ++ m.trace ∧ ∀ observation ∈ recent, p observation

/-- What was observed from one machine to another. -/
def observedSince (m m' : Machine) : List Observation :=
  m'.trace.take (m'.trace.length - m.trace.length)

/-- From one machine to another only such functions were entered. -/
def Entered (p : CallEntry → Prop) (m m' : Machine) : Prop :=
  ∃ recent, m'.trace = recent ++ m.trace ∧ ∀ entry ∈ callEntries recent, p entry

/-- From one machine to another only such functions were called, and no call is under way. -/
def Returned (p : CallEntry → Prop) (m m' : Machine) : Prop :=
  ∃ recent, m'.trace = recent ++ m.trace ∧ (∀ tid, awaitsEntry tid recent = false) ∧
    ∀ entry ∈ callEntries recent, p entry

/-- Such functions were called and have returned, one at least. -/
def Called (p : CallEntry → Prop) (m m' : Machine) : Prop :=
  Returned p m m' ∧ callEntries (observedSince m m') ≠ []

section Histories

variable {t tid : Tid} {later earlier : List Observation}

theorem firstRun_append (t : Tid) (later earlier : List Observation) :
    firstRun t (later ++ earlier) = (firstRun t earlier).or (firstRun t later) := by
  induction later with
  | nil => exact (Option.or_none).symm
  | cons observation rest ih =>
      cases observation with
      | letRun tid request moment =>
          change (firstRun t (rest ++ earlier)).or _ = _
          rw [ih, Option.or_assoc]
          rfl
      | _ => exact ih

/-- While no registers are set, a thread awaits its entry until it first runs. -/
theorem awaitsEntry_append (hlater : ∀ observation ∈ later, observation.isCommitted = false) :
    awaitsEntry t (later ++ earlier) =
      ((firstRun t later).isNone && awaitsEntry t earlier) := by
  induction later with
  | nil => rfl
  | cons observation rest ih =>
      have ih := ih fun other hother => hlater other (List.mem_cons_of_mem _ hother)
      cases observation with
      | committed tid => cases hlater _ List.mem_cons_self
      | letRun tid request moment =>
          change (decide (tid ≠ t) && awaitsEntry t (rest ++ earlier)) =
            (((firstRun t rest).or _).isNone && _)
          rw [ih]
          by_cases htid : tid = t
          · simp [htid]
          · simp [htid]
      | _ => exact ih

/-- While no registers are set, the first run of a thread that awaits it is an entry. -/
theorem mem_callEntries_append (hlater : ∀ observation ∈ later, observation.isCommitted = false)
    {entry : CallEntry} (hentry : entry ∈ callEntries (later ++ earlier)) :
    entry ∈ callEntries earlier ∨
      (awaitsEntry entry.tid earlier = true ∧ firstRun entry.tid later = some entry.moment) := by
  induction later with
  | nil => exact .inl hentry
  | cons observation rest ih =>
      have hrest : ∀ other ∈ rest, other.isCommitted = false :=
        fun other hother => hlater other (List.mem_cons_of_mem _ hother)
      have hold : entry ∈ callEntries (rest ++ earlier) → ∀ other : Option Moment,
          entry ∈ callEntries earlier ∨ (awaitsEntry entry.tid earlier = true ∧
            (firstRun entry.tid rest).or other = some entry.moment) := by
        intro hmem other
        rcases ih hrest hmem with hearlier | ⟨hawaits, hfirst⟩
        · exact .inl hearlier
        · exact .inr ⟨hawaits, by rw [hfirst, Option.some_or]⟩
      cases observation with
      | letRun tid request moment =>
          change entry ∈ (if awaitsEntry tid (rest ++ earlier) = true then _ else _) at hentry
          split at hentry
          · rename_i hawaits
            rcases List.mem_cons.mp hentry with rfl | hmem
            · rw [awaitsEntry_append hrest, Bool.and_eq_true, Option.isNone_iff_eq_none] at hawaits
              refine .inr ⟨hawaits.2, ?_⟩
              change (firstRun tid rest).or (if tid = tid then some moment else none) = some moment
              rw [hawaits.1, if_pos rfl, Option.none_or]
            · exact hold hmem _
          · exact hold hentry _
      | _ => exact ih hrest hentry

/-- While no registers are set, a thread that awaits its entry enters when it first runs. -/
theorem mem_callEntries_of_firstRun
    (hlater : ∀ observation ∈ later, observation.isCommitted = false)
    (hawaits : awaitsEntry t earlier = true) {moment : Moment}
    (hfirst : firstRun t later = some moment) : ⟨t, moment⟩ ∈ callEntries (later ++ earlier) := by
  induction later with
  | nil => cases hfirst
  | cons observation rest ih =>
      have hrest : ∀ other ∈ rest, other.isCommitted = false :=
        fun other hother => hlater other (List.mem_cons_of_mem _ hother)
      cases observation with
      | letRun tid request other =>
          change ⟨t, moment⟩ ∈ (if awaitsEntry tid (rest ++ earlier) = true then
            ⟨tid, other⟩ :: callEntries (rest ++ earlier) else callEntries (rest ++ earlier))
          change (firstRun t rest).or (if tid = t then some other else none) = some moment at hfirst
          cases hold : firstRun t rest with
          | some first =>
              rw [hold, Option.some_or] at hfirst
              have hmem := ih hrest (hold.trans hfirst)
              split
              · exact List.mem_cons_of_mem _ hmem
              · exact hmem
          | none =>
              rw [hold, Option.none_or] at hfirst
              split at hfirst
              · rename_i htid
                subst htid
                cases hfirst
                have hentered : awaitsEntry tid (rest ++ earlier) = true := by
                  rw [awaitsEntry_append hrest, hold, hawaits]
                  rfl
                rw [if_pos hentered]
                exact List.mem_cons_self
              · cases hfirst
      | _ => exact ih hrest hfirst

/-- Setting registers enters nothing. -/
theorem callEntries_of_committed (h : ∀ observation ∈ earlier, observation = .committed t) :
    callEntries earlier = [] ∧ ∀ tid, awaitsEntry tid earlier = true → tid = t := by
  induction earlier with
  | nil => exact ⟨rfl, fun tid hawaits => by cases hawaits⟩
  | cons observation rest ih =>
      obtain ⟨hnone, hawaits⟩ := ih fun other hother => h other (List.mem_cons_of_mem _ hother)
      obtain rfl := h observation List.mem_cons_self
      refine ⟨hnone, fun tid htid => ?_⟩
      rcases Bool.or_eq_true _ _ |>.mp htid with heq | hrest
      · exact (of_decide_eq_true heq).symm
      · exact hawaits tid hrest

/-- Histories one after the other, when no thread awaits its entry in between. -/
theorem callEntries_append (hsettled : ∀ tid, awaitsEntry tid earlier = false) :
    callEntries (later ++ earlier) = callEntries later ++ callEntries earlier ∧
      ∀ tid, awaitsEntry tid (later ++ earlier) = awaitsEntry tid later := by
  induction later with
  | nil => exact ⟨rfl, hsettled⟩
  | cons observation rest ih =>
      obtain ⟨hentries, hawaits⟩ := ih
      cases observation with
      | letRun tid request moment =>
          refine ⟨?_, fun other => ?_⟩
          · change (if awaitsEntry tid (rest ++ earlier) = true then
                ⟨tid, moment⟩ :: callEntries (rest ++ earlier) else callEntries (rest ++ earlier)) =
              (if awaitsEntry tid rest = true then ⟨tid, moment⟩ :: callEntries rest
                else callEntries rest) ++ callEntries earlier
            rw [hawaits, hentries]
            split
            · rfl
            · rfl
          · change (_ && awaitsEntry other (rest ++ earlier)) = (_ && awaitsEntry other rest)
            rw [hawaits]
      | committed tid =>
          refine ⟨hentries, fun other => ?_⟩
          change (_ || awaitsEntry other (rest ++ earlier)) = (_ || awaitsEntry other rest)
          rw [hawaits]
      | _ => exact ⟨hentries, hawaits⟩

variable {p q : CallEntry → Prop} {m m' m'' : Machine}

theorem observedSince_eq {recent : List Observation} (h : m'.trace = recent ++ m.trace) :
    observedSince m m' = recent := by
  rw [observedSince, h, List.length_append, Nat.add_sub_cancel, List.take_left]

theorem Entered.mem (h : Entered p m m') {entry : CallEntry}
    (hentry : entry ∈ callEntries (observedSince m m')) : p entry := by
  obtain ⟨recent, htrace, hall⟩ := h
  rw [observedSince_eq htrace] at hentry
  exact hall entry hentry

/-- What was entered before calls returned and after. -/
theorem Returned.callEntries_observedSince (h : Returned p m m') (h' : Entered q m' m'') :
    callEntries (observedSince m m'') =
      callEntries (observedSince m' m'') ++ callEntries (observedSince m m') := by
  obtain ⟨early, htrace, hsettled, -⟩ := h
  obtain ⟨late, htrace', -⟩ := h'
  have hwhole : m''.trace = (late ++ early) ++ m.trace := by
    rw [htrace', htrace, List.append_assoc]
  rw [observedSince_eq hwhole, observedSince_eq htrace, observedSince_eq htrace',
    (callEntries_append hsettled).1]

theorem Returned.entered (h : Returned p m m') : Entered p m m' := by
  obtain ⟨recent, htrace, -, hall⟩ := h
  exact ⟨recent, htrace, hall⟩

theorem Entered.mono (h : Entered p m m') (hpq : ∀ entry, p entry → q entry) :
    Entered q m m' := by
  obtain ⟨recent, htrace, hall⟩ := h
  exact ⟨recent, htrace, fun entry hentry => hpq entry (hall entry hentry)⟩

theorem Returned.mono (h : Returned p m m') (hpq : ∀ entry, p entry → q entry) :
    Returned q m m' := by
  obtain ⟨recent, htrace, hsettled, hall⟩ := h
  exact ⟨recent, htrace, hsettled, fun entry hentry => hpq entry (hall entry hentry)⟩

theorem Called.mono (h : Called p m m') (hpq : ∀ entry, p entry → q entry) : Called q m m' :=
  ⟨h.1.mono hpq, h.2⟩

theorem Returned.entered_trans (h : Returned p m m') (h' : Entered p m' m'') :
    Entered p m m'' := by
  obtain ⟨early, htrace, hsettled, hall⟩ := h
  obtain ⟨late, htrace', hall'⟩ := h'
  refine ⟨late ++ early, by rw [htrace', htrace, List.append_assoc], fun entry hentry => ?_⟩
  rw [(callEntries_append hsettled).1] at hentry
  exact (List.mem_append.mp hentry).elim (hall' entry) (hall entry)

instance : Std.Refl (Returned p) :=
  ⟨fun _ => ⟨[], rfl, fun _ => rfl, fun _ hentry => by cases hentry⟩⟩

instance : IsTrans Machine (Returned p) := ⟨fun _ _ _ h h' => by
  obtain ⟨recent, htrace, hall⟩ := h.entered_trans h'.entered
  obtain ⟨early, hearly, hsettled, -⟩ := h
  obtain ⟨late, hlate, hsettled', -⟩ := h'
  have hrecent : recent = late ++ early := by
    rw [hlate, hearly, ← List.append_assoc] at htrace
    exact (List.append_cancel_right htrace).symm
  refine ⟨recent, htrace, fun tid => ?_, hall⟩
  rw [hrecent, (callEntries_append hsettled).2]
  exact hsettled' tid⟩

theorem Returned.of_eq (h : m'.trace = m.trace) : Returned p m m' :=
  ⟨[], h, fun _ => rfl, fun _ hentry => by cases hentry⟩

end Histories

section Logging

variable {p : Observation → Prop} {m m' : Machine}

instance : Std.Refl (Logs p) := ⟨fun _ => ⟨[], rfl, fun _ hmem => absurd hmem List.not_mem_nil⟩⟩

instance : IsTrans Machine (Logs p) := ⟨fun _ _ _ h h' => by
  obtain ⟨recent, htrace, hall⟩ := h
  obtain ⟨recent', htrace', hall'⟩ := h'
  refine ⟨recent' ++ recent, by rw [htrace', htrace, List.append_assoc], fun o ho => ?_⟩
  exact (List.mem_append.mp ho).elim (hall' o) (hall o)⟩

theorem Logs.of_eq (h : m'.trace = m.trace) : Logs p m m' :=
  ⟨[], h, fun _ hmem => absurd hmem List.not_mem_nil⟩

theorem Logs.observe {observation : Observation} (h : m'.trace = observation :: m.trace)
    (hobservation : p observation) : Logs p m m' :=
  ⟨[observation], h, fun _ ho => by rwa [List.mem_singleton.mp ho]⟩

theorem siteFrame_logs (hnote : ∀ o, Observation.isSiteNote o = true → p o) :
    SiteFrame true (Logs p) where
  slots := fun _ _ _ _ _ => .inl fun _ _ id val _ =>
    writeRegister_respects (fun _ _ => .of_eq rfl) (fun _ _ => .of_eq rfl) id val true
  memory := fun _ _ => .of_eq rfl
  update := fun _ _ _ _ => .of_eq rfl
  push := fun _ _ _ _ => .of_eq rfl
  erase := fun _ _ => .of_eq rfl
  note := fun _ o ho => .observe rfl (hnote o ho)

/-- Resuming, waiting and decoding set no registers for a call. -/
theorem stopFrame_uncommitted (handlers : HitHandlers) :
    StopFrame handlers (fun _ => True) (Logs fun o => o.isCommitted = false) := by
  have hsites : SiteFrame true (Logs fun o => o.isCommitted = false) :=
    siteFrame_logs fun o ho => by cases o <;> first | rfl | cases ho
  exact {
    enableSite := hsites.enableSite
    disableSite := hsites.disableSite
    action := fun _ _ action _ => by
      cases action with
      | site op => exact hsites.run (.inl rfl)
      | breakpoints points => exact Respects.modify fun _ => .of_eq rfl
    updateThread := fun _ _ _ _ => .of_eq rfl
    user := fun _ _ _ _ => .of_eq rfl
    script := fun _ _ => .of_eq rfl
    deliver := fun _ _ _ _ _ _ _ => .observe rfl rfl
    running := fun _ _ _ _ _ => .observe rfl rfl
    track := fun _ _ _ _ => .of_eq rfl
    cleanup := fun _ _ => .of_eq rfl
    process := fun _ _ _ _ _ => .of_eq rfl
    lifecycle := fun _ _ => .observe rfl rfl
    note := fun _ o ho => .observe rfl (by cases o <;> first | rfl | cases ho)
    augment := fun reason _ _ m => by
      rcases augmentStopReason_cases reason m with ⟨e, h⟩ | ⟨info, -, -, h⟩ | ⟨-, h⟩ <;> rw [h]
      · exact refl_of _ m
      · exact .observe rfl rfl
      · exact .observe rfl rfl }

end Logging

/-- Two user areas agree on where the thread is and on its stack pointer. -/
def SamePlace (user user' : User) : Prop :=
  User.pc user' = User.pc user ∧ User.sp user' = User.sp user

/-- From one machine to another no registers are set, and a thread that does not run at
first is first let run, if at all, at the place where it was. -/
def Departs (t : Tid) (m m' : Machine) : Prop :=
  ∃ recent, m'.trace = recent ++ m.trace ∧ (∀ o ∈ recent, Observation.isCommitted o = false) ∧
    ((m.kernel.threads t).status ≠ .running →
      (firstRun t recent = none → (m'.kernel.threads t).status ≠ .running ∧
        ((m'.kernel.threads t).status = .stopped → (m.kernel.threads t).status = .stopped ∧
          SamePlace (m.kernel.threads t).user (m'.kernel.threads t).user)) ∧
      ∀ moment, firstRun t recent = some moment → (m.kernel.threads t).status = .stopped ∧
        SamePlace (m.kernel.threads t).user (moment.kernel.threads t).user)

section Departing

variable {t : Tid} {m m' m'' : Machine}

theorem SamePlace.trans {first second third : User} (h : SamePlace first second)
    (h' : SamePlace second third) : SamePlace first third :=
  ⟨h'.1.trans h.1, h'.2.trans h.2⟩

theorem User.sp_congr {first second : User} (h : ∀ i, 152 ≤ i → i < 160 → first i = second i) :
    User.sp first = User.sp second := by
  have hread : first.read 152 8 = second.read 152 8 := Area.read_congr h
  simp only [User.sp, Registers.word, hread]

/-- A thread whose registers stay as they are, up to the debug registers, stays in place. -/
theorem SameThread.samePlace (h : SameThread true t m m') :
    SamePlace (m.kernel.threads t).user (m'.kernel.threads t).user := by
  have hbyte : ∀ i, i < 160 → (m'.kernel.threads t).user i = (m.kernel.threads t).user i := by
    refine fun i hi => h.user i fun _ hdebug => ?_
    have hlow := hdebug.1
    simp only [debugregOffset] at hlow
    omega
  refine ⟨User.pc_congr fun i hi => hbyte i ?_, User.sp_congr fun i _ hi => hbyte i hi⟩
  have := hi.2
  omega

theorem Departs.of_same (recent : List Observation) (htrace : m'.trace = recent ++ m.trace)
    (hset : ∀ o ∈ recent, Observation.isCommitted o = false) (hrun : firstRun t recent = none)
    (hstatus : (m'.kernel.threads t).status = (m.kernel.threads t).status)
    (hplace : SamePlace (m.kernel.threads t).user (m'.kernel.threads t).user) :
    Departs t m m' := by
  refine ⟨recent, htrace, hset, fun hrunning => ⟨fun _ => ⟨?_, fun hstopped => ?_⟩, ?_⟩⟩
  · rwa [hstatus]
  · exact ⟨hstatus.symm.trans hstopped, hplace⟩
  · intro moment hmoment
    rw [hrun] at hmoment
    cases hmoment

theorem Departs.of_eq (htrace : m'.trace = m.trace)
    (hthreads : m'.kernel.threads = m.kernel.threads) :
    Departs t m m' :=
  .of_same [] htrace (fun _ hmem => absurd hmem List.not_mem_nil) rfl
    (by rw [hthreads]) (by rw [hthreads]; exact ⟨rfl, rfl⟩)

instance : Std.Refl (Departs t) := ⟨fun _ => .of_eq rfl rfl⟩

instance : IsTrans Machine (Departs t) := ⟨fun m m₁ m' h h' => by
  obtain ⟨recent, htrace, hset, hdeparts⟩ := h
  obtain ⟨recent', htrace', hset', hdeparts'⟩ := h'
  refine ⟨recent' ++ recent, by rw [htrace', htrace, List.append_assoc], fun o ho => ?_,
    fun hrunning => ?_⟩
  · exact (List.mem_append.mp ho).elim (hset' o) (hset o)
  obtain ⟨hstays, hruns⟩ := hdeparts hrunning
  rw [firstRun_append]
  cases hfirst : firstRun t recent with
  | some moment =>
      refine ⟨fun hnone => (by cases hnone), fun other hother => ?_⟩
      cases hother
      exact hruns moment hfirst
  | none =>
      obtain ⟨hrunning', hplace⟩ := hstays hfirst
      obtain ⟨hstays', hruns'⟩ := hdeparts' hrunning'
      rw [Option.none_or]
      refine ⟨fun hnone => ⟨(hstays' hnone).1, fun hstopped => ?_⟩, fun moment hmoment => ?_⟩
      · obtain ⟨hstopped', hplace'⟩ := (hstays' hnone).2 hstopped
        exact ⟨(hplace hstopped').1, (hplace hstopped').2.trans hplace'⟩
      · obtain ⟨hstopped', hplace'⟩ := hruns' moment hmoment
        exact ⟨(hplace hstopped').1, (hplace hstopped').2.trans hplace'⟩⟩

theorem departs_of_sites {x : Debugger PUnit} (hleaves : Respects (LeavesThread true t) x)
    (hlogs : Respects (Logs fun o => Observation.isSiteNote o = true) x) :
    Respects (Departs t) x := by
  intro m
  obtain ⟨-, hsame⟩ := hleaves m (tame_true m)
  obtain ⟨recent, htrace, hnotes⟩ := hlogs m
  refine .of_same recent htrace (fun o ho => ?_) ?_ hsame.status hsame.samePlace
  · have hnote := hnotes o ho
    cases o <;> first | rfl | cases hnote
  · clear htrace
    induction recent with
    | nil => rfl
    | cons o rest ih =>
        have hnote := hnotes o List.mem_cons_self
        have ih := ih fun other hother => hnotes other (List.mem_cons_of_mem _ hother)
        cases o <;> first | exact ih | cases hnote

theorem Departs.note {observation : Observation} (hnote : observation.isNote = true) (m : Machine) :
    Departs t m (m.observe observation) := by
  refine .of_same [observation] rfl (fun o ho => ?_) ?_ rfl ⟨rfl, rfl⟩
  · rw [List.mem_singleton.mp ho]
    cases observation <;> first | rfl | cases hnote
  · cases observation <;> first | rfl | cases hnote

theorem resumeFrame_departs : ResumeFrame t (Departs t) where
  enableSite := fun index =>
    departs_of_sites (siteFrame_leaves.enableSite index)
      ((siteFrame_logs fun _ h => h).enableSite index)
  disableSite := fun index =>
    departs_of_sites (siteFrame_leaves.disableSite index)
      ((siteFrame_logs fun _ h => h).disableSite index)
  swallowed := fun _ => .of_eq rfl rfl
  continued := fun _ => .of_eq rfl rfl
  script := fun _ _ _ _ => .of_eq rfl rfl
  deliver := fun m waiter event rest _ hmay => by
    have htid := Machine.mayReport_some hmay
    refine ⟨[_], rfl, fun o ho => by rw [List.mem_singleton.mp ho]; rfl, fun hrunning => ?_⟩
    have hgone : Gone t ((m.deliver waiter event).setScript rest) := by
      subst htid
      refine gone_of_deliver rest ?_ hmay
      cases hstatus : (m.kernel.threads event.tid).status with
      | running => exact absurd hstatus hrunning
      | stopped => rfl
      | absent =>
          rw [Machine.mayReport, hstatus, Bool.and_false] at hmay
          cases hmay
    refine ⟨fun _ => ?_, fun moment hmoment => by cases hmoment⟩
    rw [Gone] at hgone
    rw [hgone]
    exact ⟨by decide, fun hstopped => by cases hstopped⟩
  running := fun m request hstopped => by
    refine ⟨[.letRun t request m.moment], rfl, fun o ho => by rw [List.mem_singleton.mp ho]; rfl,
      fun _ => ⟨fun hnone => ?_, fun moment hmoment => ?_⟩⟩
    · simp [firstRun] at hnone
    · have hmoment : m.moment = moment := by simpa [firstRun] using hmoment
      rw [← hmoment]
      exact ⟨of_decide_eq_true hstopped, rfl, rfl⟩
  process := fun _ => .of_eq rfl rfl
  note := fun m _ hnote => .note hnote m

end Departing

/-- The stack pointer of a thread that the debugger knows. -/
def StackIs (t : Tid) (sp : Word) (m : Machine) : Prop :=
  ∀ thread, m.thread? t = some thread → User.sp thread.regs.data = sp

namespace Debugger

/-- The first part of a call: the thread is sent to the function, with the return address
on its stack. -/
def sendTo (funcAddr returnAddr : Word) (tid : Tid) : Debugger PUnit := do
  commitRegister tid .rip (.u64 funcAddr)
  let rsp ← readRegister tid .rsp
  writeMemory (rsp - 8) (toLe 8 returnAddr.toNat)
  commitRegister tid .rsp (.u64 (rsp - 8))

/-- The second part: the thread runs until it returns. -/
def awaitReturn (handlers : HitHandlers) (regsToRestore : Registers) (tid : Tid) :
    Debugger Registers := do
  resume (some tid)
  let reason ← waitOnSignal handlers (some tid)
  if reason.reason ≠ .stopped then fail "Function call failed!"
  else do
    let newRegs ← regsAt tid
    updateThread tid fun t => { t with regs := regsToRestore }
    flush tid
    pure newRegs

end Debugger

section Calls

variable {handlers : HitHandlers} {t : Tid} {m m' m₀ : Machine} {sp : Word}

theorem callThread_eq (handlers : HitHandlers) (funcAddr returnAddr : Word) (saved : Registers)
    (t : Tid) : callThread handlers funcAddr returnAddr saved t =
      sendTo funcAddr returnAddr t >>= fun _ => awaitReturn handlers saved t := by
  simp only [sendTo, bind_assoc]
  rfl

theorem User.sp_write (data : User) (x : Word) :
    User.sp (data.write 152 (toLe 8 x.toNat)) = x :=
  Registers.word_write data 152 x

theorem User.sp_write_outside (data : User) {offset : Nat} {bytes : List Byte}
    (h : offset + bytes.length ≤ 152 ∨ 160 ≤ offset) :
    User.sp (data.write offset bytes) = User.sp data := by
  simp only [User.sp, Registers.word]
  rw [Area.read_write_disjoint data (by omega)]

theorem User.pc_write_outside (data : User) {offset : Nat} {bytes : List Byte}
    (h : offset + bytes.length ≤ 128 ∨ 136 ≤ offset) :
    User.pc (data.write offset bytes) = User.pc data := by
  simp only [User.pc, Registers.word]
  rw [Area.read_write_disjoint data (by omega)]

/-- A general purpose register that was set for a call. -/
theorem commitRegister_gpr64_eq_ok {id : RegisterId} {name : String} {dwarfId : Int}
    {offset : Nat} (hinfo : registerInfoById id = .ok (gpr64 id name dwarfId offset))
    (haligned : offset / 8 * 8 = offset) {x : Word} {u : PUnit}
    (h : commitRegister t id (.u64 x) m = (.ok u, m')) :
    ∃ thread, m.thread? t = some thread ∧ m.isStopped t = true ∧
      m'.thread? t = some { thread with regs := { thread.regs with
        data := thread.regs.data.write offset (toLe 8 x.toNat) } } ∧
      (m'.kernel.threads t).user = (m.kernel.threads t).user.write offset (toLe 8 x.toNat) ∧
      (m'.kernel.threads t).status = (m.kernel.threads t).status ∧
      m'.kernel.memory = m.kernel.memory ∧ m'.trace = .committed t :: m.trace := by
  obtain ⟨_, m₁, hwrite, hobserve⟩ := Eff.bind_eq_ok.mp h
  obtain rfl := (congrArg Prod.snd hobserve).symm
  obtain ⟨thread, hthread, hstopped, rfl⟩ := writeRegister_gpr64_eq_ok hinfo haligned hwrite
  refine ⟨thread, hthread, hstopped, thread?_committed hthread, ?_, ?_, rfl, rfl⟩
  · exact setUser_user _ _ _
  · exact setUser_status _ _ _ _

/-- Setting another register leaves the stack pointer as it is. -/
theorem commitRegister_stackIs {id : RegisterId} {name : String} {dwarfId : Int} {offset : Nat}
    (hinfo : registerInfoById id = .ok (gpr64 id name dwarfId offset))
    (haligned : offset / 8 * 8 = offset) (hother : offset + 8 ≤ 152 ∨ 160 ≤ offset) {x : Word}
    {u : PUnit} (hsp : StackIs t sp m) (h : commitRegister t id (.u64 x) m = (.ok u, m')) :
    StackIs t sp m' := by
  obtain ⟨thread, hthread, -, hthread', -⟩ := commitRegister_gpr64_eq_ok hinfo haligned h
  intro last hlast
  rw [hthread'] at hlast
  cases hlast
  rw [User.sp_write_outside _ (by rw [toLe_length]; exact hother)]
  exact hsp thread hthread

theorem readRegister_rsp {rsp : Word} (h : readRegister t .rsp m = (.ok rsp, m')) :
    m' = m ∧ ∃ thread, m.thread? t = some thread ∧ User.sp thread.regs.data = rsp := by
  obtain ⟨rfl, thread, hthread, hvalue⟩ := readRegister_eq_ok h
  refine ⟨rfl, thread, hthread, ?_⟩
  have hoffset : (gpr64 .rsp "rsp" 7 152).offset = 152 := rfl
  rw [readU64_eq_ok rsp_info rfl rfl hvalue, hoffset, User.sp]

theorem commitRegister_logs (id : RegisterId) (val : Value) :
    Respects (Logs (· = .committed t)) (commitRegister t id val) :=
  commitRegister_respects (writeRegister_respects (fun _ _ => .of_eq rfl) (fun _ _ => .of_eq rfl)
    id val true) fun _ => .observe rfl rfl

theorem writeMemory_logs {p : Observation → Prop} (address : Word) (data : List Byte) :
    Respects (Logs p) (writeMemory address data) :=
  writeMemory_respects (fun _ _ => .of_eq rfl) address data

theorem sendTo_logs (funcAddr returnAddr : Word) :
    Respects (Logs (· = .committed t)) (sendTo funcAddr returnAddr t) := by
  refine Respects.bind (commitRegister_logs _ _) fun _ => ?_
  refine Respects.bind (readRegister_respects _ _) fun rsp => ?_
  exact Respects.bind (writeMemory_logs _ _) fun _ => commitRegister_logs _ _

/-- A thread that was sent to a function stands at its start, below the return address. -/
theorem sendTo_eq_ok {funcAddr returnAddr : Word} {u : PUnit} (hsp : StackIs t sp m)
    (h : sendTo funcAddr returnAddr t m = (.ok u, m')) :
    (m'.kernel.threads t).status = .stopped ∧
      User.pc (m'.kernel.threads t).user = funcAddr ∧
      User.sp (m'.kernel.threads t).user = sp - 8 ∧
      m'.kernel.memory = m.kernel.memory.write (sp - 8) (toLe 8 returnAddr.toNat) ∧
      m'.trace = .committed t :: .committed t :: m.trace := by
  obtain ⟨_, m₁, hrip, h₁⟩ := Eff.bind_eq_ok.mp h
  obtain ⟨rsp, m₂, hread, h₂⟩ := Eff.bind_eq_ok.mp h₁
  obtain ⟨_, m₃, hwrite, hrsp⟩ := Eff.bind_eq_ok.mp h₂
  obtain ⟨thread, hthread, hstopped, hthread₁, huser₁, hstatus₁, hmemory₁, htrace₁⟩ :=
    commitRegister_gpr64_eq_ok rip_info rfl hrip
  obtain ⟨rfl, thread', hthread', hvalue⟩ := readRegister_rsp hread
  rw [hthread₁] at hthread'
  cases hthread'
  rw [User.sp_write_outside _ (by rw [toLe_length]; omega), hsp thread hthread] at hvalue
  subst hvalue
  obtain ⟨rfl, -⟩ := writeMemory_eq_ok (by rw [toLe_length]; omega) hwrite
  obtain ⟨last, hlast, -, -, huser, hstatus, hmemory, htrace⟩ :=
    commitRegister_gpr64_eq_ok rsp_info rfl hrsp
  rw [huser, hstatus, hmemory]
  refine ⟨hstatus₁.trans (of_decide_eq_true hstopped), ?_, User.sp_write _ _, ?_,
    htrace.trans (congrArg _ htrace₁)⟩
  · rw [User.pc_write_outside _ (.inr (by omega))]
    change User.pc (m₂.kernel.threads t).user = funcAddr
    rw [huser₁, User.pc_write]
  · rw [← hmemory₁]
    rfl

theorem firstRun_ne_none {request : RunRequest} {moment : Moment} {recent : List Observation}
    (h : Observation.letRun t request moment ∈ recent) : firstRun t recent ≠ none := by
  obtain ⟨later, earlier, rfl⟩ := List.append_of_mem h
  rw [firstRun_append]
  cases hfirst : firstRun t earlier <;> simp [firstRun, hfirst]

theorem resume_ranOn {u : PUnit} (h : resume (some t) m = (.ok u, m')) : RanOn t m m' := by
  rw [resume, bind_of_ok (get_apply m)] at h
  obtain ⟨_, m₁, hover, hcontinue⟩ := Eff.bind_eq_ok.mp h
  have hframe : ResumeFrame t Remembers :=
    (stopFrame_remembers ⟨fun _ _ => ([], .ok false)⟩).resumeFrame trivial
  exact (sendContinue_ranOn hcontinue).after_remembers
    (remembers_of_eq hframe.stepOverBreakpoint hover)

/-- The thread first runs at the place where it was, and it runs if it returns. -/
theorem awaitReturn_departs {saved : Registers} {r : Except Failure Registers}
    (hstopped : (m.kernel.threads t).status = .stopped)
    (h : awaitReturn handlers saved t m = (r, m')) :
    ∃ later, m'.trace = later ++ m.trace ∧
      (∀ o ∈ later, Observation.isCommitted o = false) ∧
      (∀ moment, firstRun t later = some moment →
        SamePlace (m.kernel.threads t).user (moment.kernel.threads t).user) ∧
      ∀ regs, r = .ok regs → firstRun t later ≠ none := by
  have hframe := stopFrame_uncommitted handlers
  have hrunning : (m.kernel.threads t).status ≠ .running := by
    rw [hstopped]
    decide
  rcases hresume : resume (some t) m with ⟨e | u, m₁⟩
  · obtain ⟨later, htrace, hset, hdeparts⟩ := (resumeFrame_departs (t := t)).resume.apply_eq hresume
    rw [awaitReturn, bind_of_error hresume] at h
    cases h
    exact ⟨later, htrace, hset, fun moment hmoment => ((hdeparts hrunning).2 moment hmoment).2,
      fun regs heq => by cases heq⟩
  obtain ⟨early, htrace, hset, hdeparts⟩ := (resumeFrame_departs (t := t)).resume.apply_eq hresume
  obtain ⟨recent, request, moment, htrace', hmem, -⟩ := resume_ranOn hresume
  obtain rfl := List.append_cancel_right (htrace.symm.trans htrace')
  obtain ⟨first, hfirst⟩ := Option.ne_none_iff_exists'.mp (firstRun_ne_none hmem)
  rw [awaitReturn, bind_of_ok hresume] at h
  have hrest : Respects (Logs fun o => o.isCommitted = false) (do
      let reason ← waitOnSignal handlers (some t)
      if reason.reason ≠ .stopped then fail "Function call failed!"
      else do
        let newRegs ← regsAt t
        updateThread t fun t => { t with regs := saved }
        flush t
        pure newRegs : Debugger Registers) := by
    refine Respects.bind (hframe.waitOnSignal (fun _ => trivial) _) fun reason =>
      Respects.ite (Respects.throw _) ?_
    refine Respects.bind (Respects.asks _) fun newRegs => ?_
    refine Respects.bind (hframe.updateThread t trivial _) fun _ => ?_
    exact Respects.bind (flush_respects fun m user => hframe.user m t user trivial) fun _ =>
      Respects.pure _
  obtain ⟨later, htrace₂, hset₂⟩ := hrest.apply_eq h
  have hall : firstRun t (later ++ early) = some first := by
    rw [firstRun_append, hfirst, Option.some_or]
  refine ⟨later ++ early, by rw [htrace₂, htrace, List.append_assoc], fun o ho => ?_, ?_, ?_⟩
  · exact (List.mem_append.mp ho).elim (hset₂ o) (hset o)
  · intro other hother
    rw [hall] at hother
    cases hother
    exact ((hdeparts hrunning).2 first hfirst).2
  · intro regs _
    rw [hall]
    exact Option.some_ne_none first

/-- A thread at the start of a function, with a stack pointer. -/
def CallEntry.At (tid : Tid) (function sp : Word) (entry : CallEntry) : Prop :=
  entry.tid = tid ∧ User.pc entry.user = function ∧ User.sp entry.user = sp

/-- A call on a thread enters its function, at the place it was sent to, and no other. -/
theorem callThread_entries {funcAddr returnAddr : Word} {saved : Registers}
    {r : Except Failure Registers} (hbefore : Logs (· = .committed t) m₀ m) (hsp : StackIs t sp m)
    (h : callThread handlers funcAddr returnAddr saved t m = (r, m')) :
    Entered (CallEntry.At t funcAddr (sp - 8)) m₀ m' ∧
      ∀ regs, r = .ok regs → Called (CallEntry.At t funcAddr (sp - 8)) m₀ m' := by
  rw [callThread_eq] at h
  rcases hsend : sendTo funcAddr returnAddr t m with ⟨e | u, m₁⟩
  · rw [bind_of_error hsend] at h
    cases h
    obtain ⟨recent, htrace, hset⟩ := trans_of _ hbefore ((sendTo_logs _ _).apply_eq hsend)
    refine ⟨⟨recent, htrace, fun entry hentry => ?_⟩, fun regs heq => by cases heq⟩
    rw [(callEntries_of_committed hset).1] at hentry
    cases hentry
  rw [bind_of_ok hsend] at h
  obtain ⟨start, hstart, hset⟩ := hbefore
  obtain ⟨hstopped, hpc, hstack, -, htrace⟩ := sendTo_eq_ok hsp hsend
  obtain ⟨later, htrace', hset', hplace, hruns⟩ := awaitReturn_departs hstopped h
  have hset₂ : ∀ o ∈ (.committed t :: .committed t :: start : List Observation),
      o = .committed t := by
    intro o ho
    rcases List.mem_cons.mp ho with rfl | ho
    · rfl
    · exact (List.mem_cons.mp ho).elim id (hset o)
  obtain ⟨hnone, hawaits⟩ := callEntries_of_committed hset₂
  have hawaited : awaitsEntry t (.committed t :: .committed t :: start) = true := by
    simp [awaitsEntry]
  have hwhole : m'.trace = (later ++ .committed t :: .committed t :: start) ++ m₀.trace := by
    rw [htrace', htrace, hstart, List.append_assoc]
    rfl
  have hentries : ∀ entry ∈ callEntries (later ++ .committed t :: .committed t :: start),
      CallEntry.At t funcAddr (sp - 8) entry := by
    intro entry hentry
    rcases mem_callEntries_append hset' hentry with hearly | ⟨hawaits', hfirst⟩
    · rw [hnone] at hearly
      cases hearly
    · obtain rfl := hawaits _ hawaits'
      obtain ⟨hpc', hsp'⟩ := hplace _ hfirst
      exact ⟨rfl, hpc'.trans hpc, hsp'.trans hstack⟩
  refine ⟨⟨_, hwhole, hentries⟩, fun regs heq => ⟨⟨_, hwhole, fun tid => ?_, hentries⟩, ?_⟩⟩
  · rw [awaitsEntry_append hset']
    cases hawaits' : awaitsEntry tid (.committed t :: .committed t :: start) with
    | false => exact Bool.and_false _
    | true =>
        obtain rfl := hawaits _ hawaits'
        rw [Bool.and_true, Option.isNone_eq_false_iff]
        exact Option.isSome_iff_ne_none.mpr (hruns regs heq)
  · obtain ⟨moment, hfirst⟩ := Option.ne_none_iff_exists'.mp (hruns regs heq)
    rw [observedSince_eq hwhole]
    exact List.ne_nil_of_mem (mem_callEntries_of_firstRun hset' hawaited hfirst)

theorem inferiorCall_entries {funcAddr returnAddr : Word} {saved : Registers} {otid : Option Tid}
    {r : Except Failure Registers} (ht : otid.getD m.process.currentThread = t)
    (hbefore : Logs (· = .committed t) m₀ m) (hsp : StackIs t sp m)
    (h : inferiorCall handlers funcAddr returnAddr saved otid m = (r, m')) :
    Entered (CallEntry.At t funcAddr (sp - 8)) m₀ m' ∧
      ∀ regs, r = .ok regs → Called (CallEntry.At t funcAddr (sp - 8)) m₀ m' := by
  rw [inferiorCall, bind_of_ok (get_apply m), ht] at h
  rcases hcall : callThread handlers funcAddr returnAddr saved t m with ⟨e | newRegs, m₁⟩
  · rw [bind_of_error hcall] at h
    cases h
    exact callThread_entries hbefore hsp hcall
  · rw [bind_of_ok hcall] at h
    cases h
    obtain ⟨⟨recent, htrace, hsettled, hall⟩, hsome⟩ :=
      (callThread_entries hbefore hsp hcall).2 _ rfl
    have htrace' : (m₁.observe (.restored t)).trace = (.restored t :: recent) ++ m₀.trace :=
      congrArg _ htrace
    rw [observedSince_eq htrace] at hsome
    have hreturned : Returned (CallEntry.At t funcAddr (sp - 8)) m₀
        (m₁.observe (.restored t)) := ⟨_, htrace', hsettled, hall⟩
    refine ⟨hreturned.entered, fun _ _ => ⟨hreturned, ?_⟩⟩
    rw [observedSince_eq htrace']
    exact hsome

end Calls

end Gsdb
