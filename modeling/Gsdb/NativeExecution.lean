/-
The inferior under the debugger and the inferior alone.  The trap bytes of the sites lie over
the program; a thread that meets one is set back, and for the step behind it the byte is lifted.
What is below, the registers and the program's own memory, goes where the instructions take it.
-/
import Gsdb.CachedRegisters
import Gsdb.Detach
import Gsdb.PatchedExecution

namespace Gsdb

open ByteMemory Effects Eff Debugger PatchedExecution

/-- The registers as instructions see them; the debug registers are the debugger's. -/
def User.plain (user : User) : User := fun i =>
  if debugregOffset ≤ i ∧ i < debugregOffset + 64 then 0 else user i

/-- What one instruction does to the registers and the memory.  A relation, since an instruction
may depend on what is neither. -/
abbrev Semantics := User × Memory 64 → User × Memory 64 → Prop

/-- An armed site stands at an address. -/
def Covers (sites : List BreakpointSite) (address : Word) : Prop :=
  ∃ site ∈ sites, site.armed = true ∧ site.address = address

instance (sites : List BreakpointSite) : DecidablePred (Covers sites) := fun address =>
  inferInstanceAs (Decidable (∃ site ∈ sites, site.armed = true ∧ site.address = address))

/-- The registers after the trap instruction. -/
def User.behindTrap (user : User) : User := user.write 128 (toLe 8 (User.pc user + 1).toNat)

/-- The registers and the memory that a thread runs on. -/
def Kernel.cpu (kernel : Kernel) (t : Tid) : User × Memory 64 :=
  ((kernel.threads t).user.plain, kernel.memory)

/-- A stop by the trap instruction. -/
def WaitEvent.IsTrapReport (event : WaitEvent) : Prop :=
  (∃ code, event.status = .stopped sigtrap code) ∧ event.siCode = .siKernel

/-- A stop after a single step. -/
def WaitStatus.IsTrace (status : WaitStatus) (siCode : SiCode) : Prop :=
  (∃ code, status = .stopped sigtrap code) ∧ siCode = .trapTrace

/-- A program with one thread: its instructions and where it begins, with what had been reported
until then. -/
structure Inferior where
  step : Semantics
  tid : Tid
  start : User × Memory 64
  earlier : List (Delivery × List Observation)

namespace Inferior

variable (inferior : Inferior)

def instructions : Instructions User 64 := ⟨User.pc, inferior.step⟩

/-- The program alone comes to a state. -/
def Reaches (s : User × Memory 64) : Prop :=
  PatchedExecution.Reaches inferior.instructions inferior.start s

/-- A number of instructions, none of which is a trap. -/
def Moves (n : Nat) (s s' : User × Memory 64) : Prop :=
  Path inferior.instructions (fun s => s.2 (User.pc s.1) ≠ int3) s n s'

/-- How the thread reports after it was let run: it is gone, or it stopped after instructions none
of which was a trap, or behind the trap at which they led.  A single step is one instruction, and
only it is reported as such. -/
inductive Answered (request : RunRequest) (s : User × Memory 64) (event : WaitEvent) : Prop where
  | gone (status : event.status.isStop = false)
  | stopped {n : Nat} (status : event.status.isStop = true) (other : ¬ event.IsTrapReport)
      (moves : inferior.Moves n s (event.user.plain, event.memory))
      (limit : request = .singleStep → n ≤ 1)
      (trace : event.status.IsTrace event.siCode → request = .singleStep ∧ n = 1)
  | trapped {n : Nat} {user : User} (status : event.status = .stopped sigtrap 0)
      (siCode : event.siCode = .siKernel) (moves : inferior.Moves n s (user, event.memory))
      (trap : event.memory (User.pc user) = int3) (behind : event.user.plain = user.behindTrap)
      (limit : request = .singleStep → n = 0)

/-- The thread executes its instructions whenever it was let run, and nothing else reports. -/
def Driven (events : List Observation) : Prop :=
  ∀ p ∈ deliveries events, p ∉ inferior.earlier → p.1.tid = inferior.tid ∧ ∃ event rest request,
    p.1.before.kernel.script = .report event :: rest ∧
    (requests inferior.tid p.2).head? = some request ∧
    inferior.Answered request (p.1.before.kernel.cpu inferior.tid) event

/-- What the debugger relies on: the instructions drive the thread, the program has no trap
instruction of its own, and none of its instructions looks at a byte that an armed site covers. -/
structure Hosted (events : List Observation) : Prop where
  driven : inferior.Driven events
  trapless : ∀ s, inferior.Reaches s → s.2 (User.pc s.1) ≠ int3
  undisturbed : ∀ p ∈ deliveries events, p ∉ inferior.earlier → ∀ s, inferior.Reaches s →
    Undisturbed (Covers p.1.before.process.breakpointSites) inferior.instructions int3 s

/-- A stop of the thread in terms of the program alone: from the state in which it was let run, its
own instructions led to the one in which it is, and none of them was executed at an armed site. -/
def IsNative (d : Delivery) : Prop :=
  ∃ before after : Memory 64, ∃ n user,
    ShadowOf before d.before.kernel.memory d.before.process.breakpointSites ∧
    inferior.Reaches ((d.before.kernel.threads inferior.tid).user.plain, before) ∧
    Path inferior.instructions
      (fun s => ¬ Covers d.before.process.breakpointSites (User.pc s.1))
      ((d.before.kernel.threads inferior.tid).user.plain, before) n (user, after) ∧
    (d.user.plain = user ∨
      Covers d.before.process.breakpointSites (User.pc user) ∧ d.user.plain = user.behindTrap)

/-- Where the program is after these reports: each time its own instructions led from where the
thread was let run to where it stopped, and none of them was executed at an armed site. -/
inductive Led : List (Delivery × List Observation) → User × Memory 64 → Prop where
  | start : Led inferior.earlier inferior.start
  | report {reports : List (Delivery × List Observation)} {d : Delivery}
      {events : List Observation} {request : RunRequest} {s t : User × Memory 64} {n : Nat}
      (before : Led reports s) (user : s.1 = (d.before.kernel.threads inferior.tid).user.plain)
      (below : ShadowOf s.2 d.before.kernel.memory d.before.process.breakpointSites)
      (requested : (requests inferior.tid events).head? = some request)
      (path : Path inferior.instructions
        (fun s => ¬ Covers d.before.process.breakpointSites (User.pc s.1)) s n t)
      (trace : d.status.IsTrace d.siCode → request = .singleStep ∧ n = 1) :
      Led ((d, events) :: reports) t

theorem Led.reaches {inferior : Inferior} {reports : List (Delivery × List Observation)}
    {s : User × Memory 64} (h : inferior.Led reports s) : inferior.Reaches s := by
  induction h with
  | start => exact PatchedExecution.Reaches.refl _
  | report before user below requested path trace ih => exact ih.path path

end Inferior

section Registers

variable {user : User} {sites : List BreakpointSite} {below memory memory' : Memory 64}

theorem User.plain_apply {i : Nat} (h : ¬ isDebugByte i) : user.plain i = user i := if_neg h

theorem User.plain_congr {first second : User} (h : ∀ i, ¬ isDebugByte i → first i = second i) :
    first.plain = second.plain := by
  funext i
  by_cases hi : debugregOffset ≤ i ∧ i < debugregOffset + 64
  · rw [User.plain, User.plain, if_pos hi, if_pos hi]
  · rw [User.plain, User.plain, if_neg hi, if_neg hi]
    exact h i hi

theorem isPcByte.not_debug {i : Nat} (h : isPcByte i) : ¬ isDebugByte i := by
  obtain ⟨hlow, hhigh⟩ := h
  intro hdebug
  have hbound : debugregOffset ≤ i := hdebug.1
  rw [debugregOffset] at hbound
  omega

@[simp]
theorem User.pc_plain (user : User) : User.pc user.plain = User.pc user :=
  User.pc_congr fun _ hi => User.plain_apply hi.not_debug

/-- The program counter is set below the debug registers. -/
theorem User.plain_write (user : User) (address : Word) :
    User.plain (user.write 128 (toLe 8 address.toNat)) =
      user.plain.write 128 (toLe 8 address.toNat) := by
  funext i
  by_cases hi : debugregOffset ≤ i ∧ i < debugregOffset + 64
  · have hbound : 848 ≤ i := hi.1
    rw [Area.write_outside (by rw [toLe_length]; omega), User.plain, User.plain, if_pos hi,
      if_pos hi]
  · rw [User.plain, if_neg hi]
    exact Area.write_congr (User.plain_apply hi).symm _ _

@[simp]
theorem User.pc_behindTrap (user : User) : User.pc user.behindTrap = User.pc user + 1 :=
  User.pc_write user _

/-- Setting the program counter back undoes the trap instruction. -/
theorem User.behindTrap_restored (user : User) :
    user.behindTrap.write 128 (toLe 8 (User.pc user).toNat) = user := by
  have hbytes : toLe 8 (User.pc user).toNat = user.read 128 8 := by
    have hlt := ofLe_lt (user.read 128 8)
    rw [Area.read_length, show 256 ^ 8 = 2 ^ 64 by norm_num] at hlt
    change toLe 8 (BitVec.ofNat 64 (ofLe (user.read 128 8))).toNat = _
    rw [BitVec.toNat_ofNat, Nat.mod_eq_of_lt hlt]
    have hread := toLe_ofLe (user.read 128 8)
    rwa [Area.read_length] at hread
  rw [hbytes, Area.write_read]
  funext i
  by_cases hi : 128 ≤ i ∧ i < 128 + 8
  · exact Area.copy_inside hi
  · rw [Area.copy_outside hi, User.behindTrap, Area.write_outside (by rw [toLe_length]; omega)]

/-- The trap bytes in memory are those of the armed sites. -/
theorem ShadowOf.eq_patch (h : ShadowOf below memory sites) :
    memory = patch (Covers sites) int3 below := by
  funext a
  by_cases ha : Covers sites a
  · obtain ⟨site, hsite, harmed, rfl⟩ := ha
    rw [patch, if_pos ⟨site, hsite, harmed, rfl⟩]
    exact (h.armed site hsite harmed).1
  · rw [patch, if_neg ha]
    exact h.plain a fun site hsite harmed heq => ha ⟨site, hsite, harmed, heq⟩

/-- Sites whose bytes were not looked at still cover what they did. -/
theorem ShadowOf.unpatched (h : ShadowOf below memory sites)
    (hmemory : memory' = patch (Covers sites) int3 (unpatch (Covers sites) below memory')) :
    ShadowOf (unpatch (Covers sites) below memory') memory' sites where
  distinct := h.distinct
  armed := fun site hsite harmed => by
    have hcovers : Covers sites site.address := ⟨site, hsite, harmed, rfl⟩
    rw [unpatch, if_pos hcovers]
    refine ⟨?_, (h.armed site hsite harmed).2⟩
    rw [hmemory, patch, if_pos hcovers]
  plain := fun a ha => by
    have hcovers : ¬ Covers sites a := by
      rintro ⟨site, hsite, harmed, heq⟩
      exact ha site hsite harmed heq
    rw [unpatch, if_neg hcovers]

theorem ShadowOf.eq_of {other : Memory 64} (h : ShadowOf below memory sites)
    (h' : ShadowOf other memory sites) : below = other := by
  funext a
  by_cases ha : Covers sites a
  · obtain ⟨site, hsite, harmed, rfl⟩ := ha
    rw [← (h.armed site hsite harmed).2, (h'.armed site hsite harmed).2]
  · have hnone : ∀ site ∈ sites, site.armed = true → site.address ≠ a :=
      fun site hsite harmed heq => ha ⟨site, hsite, harmed, heq⟩
    rw [← h.plain a hnone, h'.plain a hnone]

end Registers

end Gsdb
