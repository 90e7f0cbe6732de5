/-
Debug-register allocation over sequences of operations.  Every operation on
breakpoint sites or watchpoints leaves the debug registers alone, claims one
slot or gives one back; from that the registers of every thread are at any time
those of the enabled hardware stoppoints.
-/
import Gsdb.DebugRegisters

namespace Gsdb

open ByteMemory Effects Eff Debugger

/-- An enabled hardware stoppoint and the slot it remembers. -/
structure HardwareStoppoint where
  slot : Int
  address : Word
  mode : StoppointMode
  size : Nat
deriving DecidableEq, Repr

def BreakpointSite.hardware? (site : BreakpointSite) : Option HardwareStoppoint :=
  if site.isEnabled ∧ site.isHardware then
    some ⟨site.hardwareRegisterIndex, site.address, .execute, 1⟩
  else none

def Watchpoint.hardware? (point : Watchpoint) : Option HardwareStoppoint :=
  if point.isEnabled then
    some ⟨point.hardwareRegisterIndex, point.address, point.mode, point.size⟩
  else none

/-- The enabled hardware stoppoints: hardware breakpoint sites and
watchpoints. -/
def Process.hardwareStoppoints (p : Process) : List HardwareStoppoint :=
  p.breakpointSites.filterMap BreakpointSite.hardware? ++
    p.watchpoints.filterMap Watchpoint.hardware?

/-- Debug registers that arm the given stoppoints and no others: every one of
them owns a slot that holds its address, with the local enable bit set and its
mode and size encoded, and the enable bits of the other slots are clear. -/
structure Arms (points : List HardwareStoppoint) (drs : Fin 8 → Word) : Prop where
  owned : ∀ point ∈ points, ∃ slot : Fin 4, point.slot = (slot : Nat) ∧
    drs (slot.castLE (by decide)) = point.address ∧
    slotFields (drs 7) slot = ⟨1, point.mode.condition, lengthField point.size⟩
  unowned : ∀ slot : Fin 4, (∀ point ∈ points, point.slot ≠ (slot : Nat)) →
    (slotFields (drs 7) slot).enable = 0

section Arms

variable {points points' : List HardwareStoppoint} {drs current : Fin 8 → Word} {slot : Fin 4}

theorem Arms.perm (h : Arms points drs) (hperm : points.Perm points') : Arms points' drs where
  owned := fun point hpoint => h.owned point (hperm.mem_iff.mpr hpoint)
  unowned := fun slot hslot => h.unowned slot fun point hpoint =>
    hslot point (hperm.mem_iff.mp hpoint)

theorem castLE_ne_seven (slot : Fin 4) : (slot.castLE (by decide) : Fin 8) ≠ 7 := by
  intro h
  have hval := congrArg Fin.val h
  have hlt := slot.isLt
  simp only [Fin.val_castLE] at hval
  change (slot : Nat) = 7 at hval
  omega

/-- The registers after a slot was programmed. -/
theorem program_slot (drs : Fin 8 → Word) (slot other : Fin 4) (address control : Word) :
    Function.update (Function.update drs (slot.castLE (by decide)) address) 7 control
      (other.castLE (by decide)) =
      if other = slot then address else drs (other.castLE (by decide)) := by
  rw [Function.update_of_ne (castLE_ne_seven other)]
  by_cases hother : other = slot
  · subst hother
    simp
  · have hne : (other.castLE (by decide) : Fin 8) ≠ slot.castLE (by decide) :=
      fun h => hother (Fin.castLE_injective _ h)
    rw [Function.update_of_ne hne, if_neg hother]

/-- Where the enable bits of a slot are clear, no stoppoint owns it. -/
theorem Arms.slot_ne (h : Arms points drs) (hfree : (slotFields (drs 7) slot).enable = 0) :
    ∀ point ∈ points, point.slot ≠ (slot : Nat) := by
  intro point hpoint hslot
  obtain ⟨other, hother, -, hfields⟩ := h.owned point hpoint
  have hsame : other = slot := Fin.ext (by exact_mod_cast hother.symm.trans hslot)
  rw [hsame] at hfields
  rw [hfields] at hfree
  cases hfree

/-- Claiming a free slot, with the control word of the current thread. -/
theorem Arms.claim (h : Arms points drs) (hcurrent : Arms points current)
    (hfree : (slotFields (current 7) slot).enable = 0) {point : HardwareStoppoint}
    (hslot : point.slot = (slot : Nat)) :
    Arms (point :: points) (Function.update (Function.update drs (slot.castLE (by decide))
      point.address) 7 (programControl (current 7) slot point.mode.condition
        (lengthField point.size))) where
  owned := by
    intro other hother
    rcases List.mem_cons.mp hother with rfl | hother
    · refine ⟨slot, hslot, ?_, ?_⟩
      · rw [program_slot, if_pos rfl]
      · rw [Function.update_self]
        exact slotFields_program _ slot.isLt _ _
    · obtain ⟨owner, howner, haddress, -⟩ := h.owned other hother
      obtain ⟨owner', howner', -, hfields⟩ := hcurrent.owned other hother
      obtain rfl : owner' = owner := Fin.ext (by exact_mod_cast howner'.symm.trans howner)
      have hne : owner' ≠ slot := by
        rintro rfl
        exact hcurrent.slot_ne hfree other hother howner
      refine ⟨owner', howner, ?_, ?_⟩
      · rw [program_slot, if_neg hne, haddress]
      · rw [Function.update_self, slotFields_program_of_ne _ slot.isLt owner'.isLt
          (fun heq => hne (Fin.ext heq)), hfields]
  unowned := by
    intro other hother
    have hne : other ≠ slot := by
      rintro rfl
      exact hother point List.mem_cons_self hslot
    rw [Function.update_self, slotFields_program_of_ne _ slot.isLt other.isLt
      (fun heq => hne (Fin.ext heq))]
    exact hcurrent.unowned other fun point hpoint => hother point (List.mem_cons_of_mem _ hpoint)

/-- Giving a slot back that no other stoppoint owns. -/
theorem Arms.release {point : HardwareStoppoint} (h : Arms (point :: points) drs)
    (hcurrent : Arms (point :: points) current) (hslot : point.slot = (slot : Nat))
    (hothers : ∀ other ∈ points, other.slot ≠ (slot : Nat)) :
    Arms points (Function.update (Function.update drs (slot.castLE (by decide)) 0) 7
      (current 7 &&& ~~~slotMask slot)) where
  owned := by
    intro other hother
    obtain ⟨owner, howner, haddress, -⟩ := h.owned other (List.mem_cons_of_mem _ hother)
    obtain ⟨owner', howner', -, hfields⟩ := hcurrent.owned other (List.mem_cons_of_mem _ hother)
    obtain rfl : owner' = owner := Fin.ext (by exact_mod_cast howner'.symm.trans howner)
    have hne : owner' ≠ slot := by
      rintro rfl
      exact hothers other hother howner
    refine ⟨owner', howner, ?_, ?_⟩
    · rw [program_slot, if_neg hne, haddress]
    · rw [Function.update_self, slotFields_clear_of_ne _ slot.isLt owner'.isLt
        (fun heq => hne (Fin.ext heq)), hfields]
  unowned := by
    intro other hother
    rw [Function.update_self]
    by_cases hne : other = slot
    · subst hne
      rw [slotFields_clear _ other.isLt]
    · rw [slotFields_clear_of_ne _ slot.isLt other.isLt fun heq => hne (Fin.ext heq)]
      refine hcurrent.unowned other fun owner howner => ?_
      rcases List.mem_cons.mp howner with rfl | howner
      · intro heq
        exact hne (Fin.ext (by exact_mod_cast heq.symm.trans hslot))
      · exact hother owner howner

end Arms

/-- The part of a machine that operations on stoppoints leave alone. -/
def Standing (m : Machine) : Tid × List Tid × (Tid → ThreadStatus) × (Tid → Option (List Nat)) :=
  (m.process.currentThread, m.process.threads.map (·.1),
    fun t => (m.kernel.threads t).status, fun t => (m.thread? t).map (·.regs.undefinedOffsets))

/-- The debug registers of every thread arm the enabled hardware stoppoints,
which own different slots. -/
structure Allocated (m : Machine) : Prop where
  tame : AllTame m
  legal : ∀ point ∈ m.process.watchpoints, LegalSize point.size
  slots : ∀ point ∈ m.process.hardwareStoppoints, ∃ slot : Fin 4, point.slot = (slot : Nat)
  distinct : (m.process.hardwareStoppoints.map (·.slot)).Nodup
  actual : ∀ t, (m.thread? t).isSome = true →
    Arms m.process.hardwareStoppoints (m.debugView t).actual
  cached : ∀ t drs, (m.debugView t).cached = some drs → Arms m.process.hardwareStoppoints drs

/-- The same while threads run: the debug registers of every tracked thread that
is still there arm the enabled hardware stoppoints. -/
structure SlotsArmed (m : Machine) : Prop where
  defined : ∀ t thread, m.thread? t = some thread → thread.regs.undefinedOffsets = []
  legal : ∀ point ∈ m.process.watchpoints, LegalSize point.size
  slots : ∀ point ∈ m.process.hardwareStoppoints, ∃ slot : Fin 4, point.slot = (slot : Nat)
  distinct : (m.process.hardwareStoppoints.map (·.slot)).Nodup
  actual : ∀ t, (m.thread? t).isSome = true → (m.kernel.threads t).status ≠ .absent →
    Arms m.process.hardwareStoppoints (m.debugView t).actual
  cached : ∀ t drs, (m.debugView t).cached = some drs → Arms m.process.hardwareStoppoints drs

theorem Allocated.armed {m : Machine} (h : Allocated m) : SlotsArmed m :=
  ⟨h.tame.defined, h.legal, h.slots, h.distinct, fun t ht _ => h.actual t ht, h.cached⟩

theorem SlotsArmed.allocated {m : Machine} (h : SlotsArmed m)
    (hstopped : ∀ t, (m.thread? t).isSome = true → m.isStopped t = true) : Allocated m := by
  refine ⟨⟨hstopped, h.defined⟩, h.legal, h.slots, h.distinct,
    fun t ht => h.actual t ht ?_, h.cached⟩
  have hstatus := hstopped t ht
  intro habsent
  simp [Machine.isStopped, habsent] at hstatus

/-- What an operation does to the debug registers: nothing, claim a free slot
for a stoppoint, or give the slot of one back. -/
inductive SlotEffect (m m' : Machine) : Prop where
  | unchanged (hview : m'.debugView = m.debugView)
      (hpoints : m'.process.hardwareStoppoints.Perm m.process.hardwareStoppoints)
  | claimed (point : HardwareStoppoint) (slot : Fin 4) (drs : Fin 8 → Word)
      (hslot : point.slot = (slot : Nat))
      (hcurrent : (m.debugView m.process.currentThread).cached = some drs)
      (hfree : (slotFields (drs 7) slot).enable = 0)
      (hpoints : m'.process.hardwareStoppoints.Perm (point :: m.process.hardwareStoppoints))
      (hview : ∀ t, m'.debugView t = if (m.thread? t).isSome = true then
        (m.debugView t).program (slot.castLE (by decide)) point.address
          (programControl (drs 7) slot point.mode.condition (lengthField point.size))
        else m.debugView t)
  | released (point : HardwareStoppoint) (slot : Fin 4) (drs : Fin 8 → Word)
      (hslot : point.slot = (slot : Nat))
      (hcurrent : (m.debugView m.process.currentThread).cached = some drs)
      (hpoints : m.process.hardwareStoppoints.Perm (point :: m'.process.hardwareStoppoints))
      (hview : ∀ t, m'.debugView t = if (m.thread? t).isSome = true then
        (m.debugView t).program (slot.castLE (by decide)) 0 (drs 7 &&& ~~~slotMask slot)
        else m.debugView t)

section Effects

variable {m m' m'' : Machine}

theorem Machine.debugView_cached_isSome (m : Machine) (t : Tid) :
    ((m.debugView t).cached).isSome = (m.thread? t).isSome := by
  simp [Machine.debugView]

theorem Standing.isSome (h : Fixes Standing m m') (t : Tid) :
    (m'.thread? t).isSome = (m.thread? t).isSome := by
  have hoffsets := congrArg Option.isSome (congrFun (congrArg (·.2.2.2) h) t)
  simpa only [Standing, Option.isSome_map] using hoffsets

theorem Standing.status (h : Fixes Standing m m') (t : Tid) :
    (m'.kernel.threads t).status = (m.kernel.threads t).status :=
  congrFun (congrArg (·.2.2.1) h) t

theorem Standing.defined (h : Fixes Standing m m')
    (hdefined : ∀ t thread, m.thread? t = some thread → thread.regs.undefinedOffsets = []) :
    ∀ t thread, m'.thread? t = some thread → thread.regs.undefinedOffsets = [] := by
  intro t thread' hthread'
  have hoffsets : (m'.thread? t).map (·.regs.undefinedOffsets) =
      (m.thread? t).map (·.regs.undefinedOffsets) := congrFun (congrArg (·.2.2.2) h) t
  rw [hthread'] at hoffsets
  obtain ⟨thread, hthread, heq⟩ := Option.map_eq_some_iff.mp hoffsets.symm
  exact heq.symm.trans (hdefined t thread hthread)

theorem AllTame.of_standing (h : AllTame m) (hsame : Fixes Standing m m') : AllTame m' where
  stopped := fun t ht => by
    have hstopped := h.stopped t (Standing.isSome hsame t ▸ ht)
    rwa [Machine.isStopped, Standing.status hsame]
  defined := Standing.defined hsame h.defined

/-- The debug registers of the tracked threads after a slot was programmed. -/
theorem armed_of_programmed {points : List HardwareStoppoint} {slot : Fin 8}
    {address control : Word} (hsame : Fixes Standing m m')
    (hview : ∀ t, m'.debugView t = if (m.thread? t).isSome = true then
      (m.debugView t).program slot address control else m.debugView t)
    (hactual : ∀ t, (m.thread? t).isSome = true → (m.kernel.threads t).status ≠ .absent →
      Arms points
        (Function.update (Function.update (m.debugView t).actual slot address) 7 control))
    (hcached : ∀ t drs, (m.debugView t).cached = some drs → Arms points
      (Function.update (Function.update drs slot address) 7 control)) :
    (∀ t, (m'.thread? t).isSome = true → (m'.kernel.threads t).status ≠ .absent →
        Arms points (m'.debugView t).actual) ∧
      ∀ t drs, (m'.debugView t).cached = some drs → Arms points drs := by
  refine ⟨fun t ht hpresent => ?_, fun t drs hdrs => ?_⟩
  · rw [Standing.isSome hsame] at ht
    rw [Standing.status hsame] at hpresent
    rw [hview, if_pos ht]
    exact hactual t ht hpresent
  · have ht : (m.thread? t).isSome = true := by
      rw [← Standing.isSome hsame, ← Machine.debugView_cached_isSome, hdrs]
      rfl
    rw [hview, if_pos ht] at hdrs
    simp only [DebugView.program, DebugView.set, Option.map_map, Option.map_eq_some_iff,
      Function.comp_apply] at hdrs
    obtain ⟨old, hold, rfl⟩ := hdrs
    exact hcached t old hold

/-- An effect on the slots keeps registers and stoppoints together. -/
theorem SlotEffect.armed (heffect : SlotEffect m m') (h : SlotsArmed m)
    (hsame : Fixes Standing m m')
    (hlegal : ∀ point ∈ m'.process.watchpoints, LegalSize point.size) :
    SlotsArmed m' := by
  have hdefined := Standing.defined hsame h.defined
  cases heffect with
  | unchanged hview hpoints =>
      refine ⟨hdefined, hlegal, fun point hpoint => h.slots point (hpoints.mem_iff.mp hpoint),
        ((hpoints.map _).nodup_iff).mpr h.distinct, fun t ht hpresent => ?_, fun t drs hdrs => ?_⟩
      · rw [Standing.status hsame] at hpresent
        rw [hview]
        exact (h.actual t (Standing.isSome hsame t ▸ ht) hpresent).perm hpoints.symm
      · rw [hview] at hdrs
        exact (h.cached t drs hdrs).perm hpoints.symm
  | claimed point slot drs hslot hcurrent hfree hpoints hview =>
      have harms := h.cached _ drs hcurrent
      have hfresh := harms.slot_ne hfree
      obtain ⟨hactual, hcached⟩ := armed_of_programmed hsame hview
        (fun t ht hpresent => (h.actual t ht hpresent).claim harms hfree hslot)
        (fun t old hold => (h.cached t old hold).claim harms hfree hslot)
      refine ⟨hdefined, hlegal, fun other hother => ?_, ?_,
        fun t ht hpresent => (hactual t ht hpresent).perm hpoints.symm,
        fun t drs hdrs => (hcached t drs hdrs).perm hpoints.symm⟩
      · rcases List.mem_cons.mp (hpoints.mem_iff.mp hother) with rfl | hother
        · exact ⟨slot, hslot⟩
        · exact h.slots other hother
      · rw [(hpoints.map _).nodup_iff, List.map_cons, List.nodup_cons]
        refine ⟨fun hmem => ?_, h.distinct⟩
        obtain ⟨other, hother, heq⟩ := List.mem_map.mp hmem
        exact hfresh other hother (heq.trans hslot)
  | released point slot drs hslot hcurrent hpoints hview =>
      have hdistinct := h.distinct
      rw [(hpoints.map _).nodup_iff, List.map_cons, List.nodup_cons] at hdistinct
      have hothers : ∀ other ∈ m'.process.hardwareStoppoints, other.slot ≠ (slot : Nat) := by
        intro other hother heq
        exact hdistinct.1 (List.mem_map.mpr ⟨other, hother, heq.trans hslot.symm⟩)
      have harms := (h.cached _ drs hcurrent).perm hpoints
      obtain ⟨hactual, hcached⟩ := armed_of_programmed hsame hview
        (fun t ht hpresent => ((h.actual t ht hpresent).perm hpoints).release harms hslot hothers)
        (fun t old hold => ((h.cached t old hold).perm hpoints).release harms hslot hothers)
      exact ⟨hdefined, hlegal, fun other hother =>
        h.slots other (hpoints.mem_iff.mpr (List.mem_cons_of_mem _ hother)),
        hdistinct.2, hactual, hcached⟩

theorem filterMap_cons_perm {S : Type} (f : S → Option HardwareStoppoint) (point : S)
    (rest : List S) :
    ((point :: rest).filterMap f).Perm ((f point).toList ++ rest.filterMap f) := by
  cases h : f point <;> simp [h]

/-- The share of one breakpoint site in the enabled hardware stoppoints. -/
theorem hardwareStoppoints_site {p : Process} {index : Nat} {site : BreakpointSite}
    (h : p.breakpointSites[index]? = some site) :
    ∃ others, p.hardwareStoppoints.Perm (site.hardware?.toList ++ others) ∧
      (∀ f, ({ p with breakpointSites := p.breakpointSites.modify index f } :
        Process).hardwareStoppoints.Perm ((f site).hardware?.toList ++ others)) ∧
      ({ p with breakpointSites := p.breakpointSites.eraseIdx index } :
        Process).hardwareStoppoints.Perm others := by
  obtain ⟨rest, hperm, herase, hmodify⟩ := exists_rest_of_getElem? h
  have hcons : ∀ (site : BreakpointSite) (sites : List BreakpointSite), sites.Perm (site :: rest) →
      (sites.filterMap BreakpointSite.hardware? ++
        p.watchpoints.filterMap Watchpoint.hardware?).Perm
        (site.hardware?.toList ++ (rest.filterMap BreakpointSite.hardware? ++
          p.watchpoints.filterMap Watchpoint.hardware?)) := by
    intro site sites hsites
    rw [← List.append_assoc]
    exact ((hsites.filterMap _).trans (filterMap_cons_perm _ _ _)).append_right _
  exact ⟨_, hcons site _ hperm, fun f => hcons (f site) _ (hmodify f),
    (herase.filterMap _).append_right _⟩

/-- The share of one watchpoint in the enabled hardware stoppoints. -/
theorem hardwareStoppoints_watchpoint {p : Process} {index : Nat} {point : Watchpoint}
    (h : p.watchpoints[index]? = some point) :
    ∃ others, p.hardwareStoppoints.Perm (point.hardware?.toList ++ others) ∧
      (∀ f, ({ p with watchpoints := p.watchpoints.modify index f } :
        Process).hardwareStoppoints.Perm ((f point).hardware?.toList ++ others)) ∧
      ({ p with watchpoints := p.watchpoints.eraseIdx index } :
        Process).hardwareStoppoints.Perm others := by
  obtain ⟨rest, hperm, herase, hmodify⟩ := exists_rest_of_getElem? h
  have hcons : ∀ (point : Watchpoint) (points : List Watchpoint), points.Perm (point :: rest) →
      (p.breakpointSites.filterMap BreakpointSite.hardware? ++
        points.filterMap Watchpoint.hardware?).Perm
        (point.hardware?.toList ++ (p.breakpointSites.filterMap BreakpointSite.hardware? ++
          rest.filterMap Watchpoint.hardware?)) := by
    intro point points hpoints
    refine (((hpoints.filterMap _).trans (filterMap_cons_perm _ _ _)).append_left _).trans ?_
    rw [← List.append_assoc, ← List.append_assoc]
    exact List.perm_append_comm.append_right _
  exact ⟨_, hcons point _ hperm, fun f => hcons (f point) _ (hmodify f),
    (herase.filterMap _).append_left _⟩

/-- An effect followed by a step that leaves the registers and the enabled
stoppoints alone. -/
theorem SlotEffect.congr (heffect : SlotEffect m m') (hview : m''.debugView = m'.debugView)
    (hpoints : m''.process.hardwareStoppoints.Perm m'.process.hardwareStoppoints) :
    SlotEffect m m'' := by
  cases heffect with
  | unchanged hview' hpoints' => exact .unchanged (hview.trans hview') (hpoints.trans hpoints')
  | claimed point slot drs hslot hcurrent hfree hpoints' hview' =>
      exact .claimed point slot drs hslot hcurrent hfree (hpoints.trans hpoints')
        fun t => by rw [hview, hview']
  | released point slot drs hslot hcurrent hpoints' hview' =>
      exact .released point slot drs hslot hcurrent (hpoints'.trans (hpoints.symm.cons point))
        fun t => by rw [hview, hview']

/-- One operation: its effect on the slots, and what it leaves alone. -/
structure StoppointStep (m m' : Machine) : Prop where
  effect : SlotEffect m m'
  standing : Fixes Standing m m'
  legal : (∀ point ∈ m.process.watchpoints, LegalSize point.size) →
    ∀ point ∈ m'.process.watchpoints, LegalSize point.size

theorem StoppointStep.armed (hstep : StoppointStep m m') (h : SlotsArmed m) : SlotsArmed m' :=
  hstep.effect.armed h hstep.standing (hstep.legal h.legal)

theorem StoppointStep.allocated (hstep : StoppointStep m m') (h : Allocated m) : Allocated m' :=
  (hstep.armed h.armed).allocated (h.tame.of_standing hstep.standing).stopped

theorem StoppointStep.refl (m : Machine) : StoppointStep m m :=
  ⟨.unchanged rfl (.refl _), rfl, fun h => h⟩

/-- A change that reaches neither registers nor threads nor enabled hardware
stoppoints. -/
structure SameSlots (m m' : Machine) : Prop where
  view : m'.debugView = m.debugView
  standing : Fixes Standing m m'
  points : m'.process.hardwareStoppoints.Perm m.process.hardwareStoppoints
  watchpoints : m'.process.watchpoints = m.process.watchpoints

theorem SameSlots.refl (m : Machine) : SameSlots m m := ⟨rfl, rfl, .refl _, rfl⟩

theorem SameSlots.trans (h : SameSlots m m') (h' : SameSlots m' m'') : SameSlots m m'' :=
  ⟨h'.view.trans h.view, h'.standing.trans h.standing, h'.points.trans h.points,
    h'.watchpoints.trans h.watchpoints⟩

instance : Std.Refl SameSlots := ⟨.refl⟩

instance : IsTrans Machine SameSlots := ⟨fun _ _ _ => .trans⟩

theorem SameSlots.step (h : SameSlots m m') : StoppointStep m m' :=
  ⟨.unchanged h.view h.points, h.standing, fun hlegal => by rwa [h.watchpoints]⟩

theorem StoppointStep.then_same (h : StoppointStep m m') (h' : SameSlots m' m'') :
    StoppointStep m m'' :=
  ⟨h.effect.congr h'.view h'.points, h'.standing.trans h.standing,
    fun hlegal => by rw [h'.watchpoints]; exact h.legal hlegal⟩

theorem standing_of_surroundings (h : Fixes Surroundings m m') : Fixes Standing m m' := by
  have hcurrent := congrArg (·.2.2.1) h
  have hthreads := congrArg (·.2.2.2.1) h
  have hstatus := congrArg (·.2.2.2.2.1) h
  have hoffsets := congrArg (·.2.2.2.2.2) h
  simp only [Surroundings] at hcurrent hthreads hstatus hoffsets
  simp only [Fixes, Standing, hcurrent, hthreads, hstatus, hoffsets]

theorem Surroundings.stoppoints (h : Fixes Surroundings m m') :
    m'.process.breakpointSites = m.process.breakpointSites ∧
      m'.process.watchpoints = m.process.watchpoints :=
  ⟨congrArg (·.1) h, congrArg (·.2.1) h⟩

/-- The site at a position, if there is one, is a software site. -/
def SoftwareAt (index : Nat) (m : Machine) : Prop :=
  ∀ site, m.process.breakpointSites[index]? = some site → site.isHardware = false

/-- What toggling a software site keeps. -/
def KeepsSlots (index : Nat) (m m' : Machine) : Prop :=
  SoftwareAt index m → SoftwareAt index m' ∧ SameSlots m m'

instance (index : Nat) : Std.Refl (KeepsSlots index) := ⟨fun m h => ⟨h, .refl m⟩⟩

instance (index : Nat) : IsTrans Machine (KeepsSlots index) := ⟨fun _ _ _ h h' hsoftware =>
  have ⟨hsoftware', hsame⟩ := h hsoftware
  have ⟨hsoftware'', hsame'⟩ := h' hsoftware'
  ⟨hsoftware'', hsame.trans hsame'⟩⟩

theorem BreakpointSite.hardware?_of_software {site : BreakpointSite} (h : site.isHardware = false) :
    site.hardware? = none := by
  simp [BreakpointSite.hardware?, h]

theorem updateSite_keepsSlots {index : Nat} {f : BreakpointSite → BreakpointSite}
    (hf : ∀ site, (f site).isHardware = site.isHardware) :
    Respects (KeepsSlots index) (updateSite index f) := by
  intro m hsoftware
  have hmodify : ∀ site', (m.process.breakpointSites.modify index f)[index]? = some site' →
      site'.isHardware = false := by
    intro site' hsite'
    rw [List.getElem?_modify_eq] at hsite'
    obtain ⟨site, hsite, rfl⟩ := Option.map_eq_some_iff.mp hsite'
    rw [hf]
    exact hsoftware site hsite
  refine ⟨hmodify, rfl, rfl, ?_, rfl⟩
  cases hsite : m.process.breakpointSites[index]? with
  | none =>
      have hsame : m.process.breakpointSites.modify index f = m.process.breakpointSites :=
        List.modify_eq_self (List.getElem?_eq_none_iff.mp hsite)
      simp only [updateSite, modifyProcess, modify_apply, Machine.setProcess,
        Process.hardwareStoppoints, hsame]
      exact .refl _
  | some site =>
      obtain ⟨others, hpoints, hmodified, -⟩ := hardwareStoppoints_site hsite
      refine (hmodified f).trans (.trans ?_ hpoints.symm)
      have hsoft := hsoftware site hsite
      rw [BreakpointSite.hardware?_of_software hsoft,
        BreakpointSite.hardware?_of_software ((hf site).trans hsoft)]

theorem pokeData_keepsSlots (index : Nat) (address data : Word) (what : String) :
    Respects (KeepsSlots index) (pokeData address data what) :=
  Respects.bind Respects.get fun _ => Respects.ite
    (Respects.modify fun _ hsoftware => ⟨hsoftware, rfl, rfl, .refl _, rfl⟩) (Respects.throw _)

/-- The slot of an enabled hardware stoppoint can be given back, unless the
current thread is not tracked. -/
theorem clear_owned (h : Allocated m) {point : HardwareStoppoint}
    (hpoint : point ∈ m.process.hardwareStoppoints) :
    (∃ e, clearHardwareStoppoint point.slot m = (.error e, m.observe (.programmed m.moment))) ∨
      ∃ (slot : Fin 4) (drs : Fin 8 → Word), point.slot = (slot : Nat) ∧
        (m.debugView m.process.currentThread).cached = some drs ∧
        ∃ m', clearHardwareStoppoint point.slot m = (.ok ⟨⟩, m') ∧ Fixes Surroundings m m' ∧
          ∀ t, m'.debugView t = if (m.thread? t).isSome = true then
            (m.debugView t).program (slot.castLE (by decide)) 0 (drs 7 &&& ~~~slotMask slot)
            else m.debugView t := by
  obtain ⟨slot, hslot⟩ := h.slots point hpoint
  rw [hslot]
  rcases clearHardwareStoppoint_cases h.tame slot.isLt with
    ⟨-, herror⟩ | ⟨drs, hcached, m', hclear, hsame, hview⟩
  · exact .inl herror
  · exact .inr ⟨slot, drs, rfl, hcached, m', hclear, hsame, hview⟩

/-- Noting something is no step. -/
theorem sameSlots_observe (m : Machine) (observation : Observation) :
    SameSlots m (m.observe observation) :=
  ⟨rfl, rfl, .refl _, rfl⟩

theorem updateSite_updateSite (index : Nat) (f g : BreakpointSite → BreakpointSite)
    (m : Machine) :
    (do updateSite index f; updateSite index g : Debugger PUnit) m =
      (.ok ⟨⟩, m.setProcess fun p =>
        { p with breakpointSites := p.breakpointSites.modify index (g ∘ f) }) := by
  rw [bind_of_ok (updateSite_apply index f m)]
  simp only [updateSite_apply, Machine.setProcess, List.modify_modify_eq]

/-- Toggling a software site leaves the slots alone. -/
theorem enableSite_same {index : Nat} (hsoftware : SoftwareAt index m) :
    SameSlots m (enableSite index m).2 := by
  suffices hkeeps : KeepsSlots index m (enableSite index m).2 from (hkeeps hsoftware).2
  refine SiteFrame.siteAt_bind fun site hsite => ?_
  split
  · exact refl_of (KeepsSlots index) m
  rw [if_neg (by simp [hsoftware site hsite])]
  refine Respects.bind (SiteFrame.peekData _ _) (fun data => ?_) m
  refine Respects.bind (updateSite_keepsSlots fun _ => rfl) fun _ => ?_
  exact Respects.bind (pokeData_keepsSlots _ _ _ _) fun _ => updateSite_keepsSlots fun _ => rfl

theorem disableSite_same {index : Nat} (hsoftware : SoftwareAt index m) :
    SameSlots m (disableSite index m).2 := by
  suffices hkeeps : KeepsSlots index m (disableSite index m).2 from (hkeeps hsoftware).2
  refine SiteFrame.siteAt_bind fun site hsite => ?_
  split
  · exact refl_of (KeepsSlots index) m
  rw [if_neg (by simp [hsoftware site hsite])]
  refine Respects.bind (SiteFrame.peekData _ _) (fun data => ?_) m
  exact Respects.bind (pokeData_keepsSlots _ _ _ _) fun _ => updateSite_keepsSlots fun _ => rfl

/-- The site at a position is a hardware site, or there is none. -/
theorem softwareAt_cases (m : Machine) (index : Nat) : SoftwareAt index m ∨
    ∃ site, m.process.breakpointSites[index]? = some site ∧ site.isHardware = true := by
  cases hsite : m.process.breakpointSites[index]? with
  | none => exact .inl fun site hsome => by rw [hsite] at hsome; cases hsome
  | some site =>
      cases hhardware : site.isHardware with
      | true => exact .inr ⟨site, rfl, hhardware⟩
      | false =>
          refine .inl fun other hother => ?_
          rw [hsite] at hother
          cases hother
          exact hhardware

theorem enableSite_step (h : Allocated m) (index : Nat) :
    StoppointStep m (enableSite index m).2 := by
  rcases softwareAt_cases m index with hsoftware | ⟨site, hsite, hhardware⟩
  · exact (enableSite_same hsoftware).step
  have hat : siteAt index m = (.ok site, m) := by simp [siteAt, hsite]
  rw [enableSite, bind_of_ok hat]
  by_cases henabled : site.isEnabled = true
  · rw [if_pos henabled]
    exact .refl m
  rw [if_neg henabled, if_pos hhardware]
  rcases setHardwareStoppoint_cases h.tame site.address .execute (.inl rfl) with
    ⟨-, e, -, hset⟩ | ⟨drs, hcached, slot, hslot', hslot, hfree, m', hset, hsame, hview⟩
  · rw [bind_of_error (x := setHardwareBreakpoint site.address) hset]
    exact (sameSlots_observe m _).step
  · rw [bind_of_ok (x := setHardwareBreakpoint site.address) hset,
      updateSite_updateSite]
    obtain ⟨hsites, hwatchpoints⟩ := Surroundings.stoppoints hsame
    have hpoints' : m'.process.hardwareStoppoints = m.process.hardwareStoppoints := by
      simp only [Process.hardwareStoppoints, hsites, hwatchpoints]
    have hsite' : m'.process.breakpointSites[index]? = some site := by rw [hsites, hsite]
    obtain ⟨others, hbefore, hafter, -⟩ := hardwareStoppoints_site hsite'
    have hnone : site.hardware? = none := by simp [BreakpointSite.hardware?, henabled]
    rw [hnone, hpoints'] at hbefore
    have hstanding := standing_of_surroundings hsame
    refine ⟨.claimed ⟨slot, site.address, .execute, 1⟩ ⟨slot, hslot⟩ drs rfl hcached hfree ?_
      hview, hstanding, fun hlegal => by
        simpa only [Machine.setProcess, hwatchpoints] using hlegal⟩
    refine (hafter _).trans ?_
    simp only [BreakpointSite.hardware?, Function.comp_apply, hhardware, and_self, if_true,
      Option.toList_some, List.singleton_append]
    exact hbefore.symm.cons _

theorem disableSite_step (h : Allocated m) (index : Nat) :
    StoppointStep m (disableSite index m).2 := by
  rcases softwareAt_cases m index with hsoftware | ⟨site, hsite, hhardware⟩
  · exact (disableSite_same hsoftware).step
  have hat : siteAt index m = (.ok site, m) := by simp [siteAt, hsite]
  rw [disableSite, bind_of_ok hat]
  by_cases henabled : site.isEnabled = true
  case neg =>
    rw [if_pos (by simpa using henabled)]
    exact .refl m
  rw [if_neg (by simpa using henabled), if_pos hhardware]
  have hsome : site.hardware? =
      some ⟨site.hardwareRegisterIndex, site.address, .execute, 1⟩ := by
    simp [BreakpointSite.hardware?, henabled, hhardware]
  obtain ⟨others, hpoints, -, -⟩ := hardwareStoppoints_site hsite
  rw [hsome] at hpoints
  rcases clear_owned h (hpoints.mem_iff.mpr List.mem_cons_self) with
    ⟨e, hclear⟩ | ⟨slot, drs, hslot, hcached, m', hclear, hsame, hview⟩
  · rw [bind_of_error hclear]
    exact (sameSlots_observe m _).step
  · rw [bind_of_ok hclear, updateSite_updateSite]
    obtain ⟨hsites, hwatchpoints⟩ := Surroundings.stoppoints hsame
    have hpoints' : m'.process.hardwareStoppoints = m.process.hardwareStoppoints := by
      simp only [Process.hardwareStoppoints, hsites, hwatchpoints]
    have hsite' : m'.process.breakpointSites[index]? = some site := by rw [hsites, hsite]
    obtain ⟨others', hbefore, hafter, -⟩ := hardwareStoppoints_site hsite'
    rw [hsome, hpoints'] at hbefore
    have hstanding := standing_of_surroundings hsame
    refine ⟨.released _ slot drs hslot hcached (hbefore.trans (.cons _ ?_)) hview,
      hstanding, fun hlegal => by
        simpa only [Machine.setProcess, hwatchpoints] using hlegal⟩
    exact (hafter ((fun s => { s with isEnabled := false }) ∘
      fun s => { s with hardwareRegisterIndex := -1 })).symm

theorem updateWatchpoint_updateWatchpoint (index : Nat) (f g : Watchpoint → Watchpoint)
    (m : Machine) :
    (do updateWatchpoint index f; updateWatchpoint index g : Debugger PUnit) m =
      (.ok ⟨⟩, m.setProcess fun p =>
        { p with watchpoints := p.watchpoints.modify index (g ∘ f) }) := by
  rw [bind_of_ok (x := updateWatchpoint index f) (modify_apply _ m)]
  simp only [updateWatchpoint, modifyProcess, modify_apply, Machine.setProcess,
    List.modify_modify_eq]

theorem legal_modify {points : List Watchpoint} (hlegal : ∀ point ∈ points, LegalSize point.size)
    (index : Nat) {f : Watchpoint → Watchpoint} (hf : ∀ point, (f point).size = point.size) :
    ∀ point ∈ points.modify index f, LegalSize point.size := by
  intro point hpoint
  obtain ⟨i, hi⟩ := List.mem_iff_getElem?.mp hpoint
  rw [List.getElem?_modify] at hi
  obtain ⟨old, hold, rfl⟩ := Option.map_eq_some_iff.mp hi
  have hsize := hlegal old (List.mem_of_getElem? hold)
  split
  · rw [hf]
    exact hsize
  · exact hsize

theorem enableWatchpoint_step (h : Allocated m) (index : Nat) :
    StoppointStep m (enableWatchpoint index m).2 := by
  cases hpoint : m.process.watchpoints[index]? with
  | none =>
      have hat : watchpointAt index m = (.error (.undefined "dangling watchpoint"), m) := by
        simp [watchpointAt, hpoint]
      rw [enableWatchpoint, bind_of_error hat]
      exact .refl m
  | some point =>
      have hat : watchpointAt index m = (.ok point, m) := by simp [watchpointAt, hpoint]
      rw [enableWatchpoint, bind_of_ok hat]
      by_cases henabled : point.isEnabled = true
      · rw [if_pos henabled]
        exact .refl m
      rw [if_neg henabled]
      have hsize := h.legal point (List.mem_of_getElem? hpoint)
      rcases setHardwareStoppoint_cases h.tame point.address point.mode hsize with
        ⟨-, e, -, hset⟩ | ⟨drs, hcached, slot, hslot', hslot, hfree, m', hset, hsame, hview⟩
      · rw [bind_of_error (x := setWatchpoint point.address point.mode point.size) hset]
        exact (sameSlots_observe m _).step
      · rw [bind_of_ok (x := setWatchpoint point.address point.mode point.size) hset,
          updateWatchpoint_updateWatchpoint]
        obtain ⟨hsites, hwatchpoints⟩ := Surroundings.stoppoints hsame
        have hpoints' : m'.process.hardwareStoppoints = m.process.hardwareStoppoints := by
          simp only [Process.hardwareStoppoints, hsites, hwatchpoints]
        have hpoint' : m'.process.watchpoints[index]? = some point := by
          rw [hwatchpoints, hpoint]
        obtain ⟨others, hbefore, hafter, -⟩ := hardwareStoppoints_watchpoint hpoint'
        have hnone : point.hardware? = none := by simp [Watchpoint.hardware?, henabled]
        rw [hnone, hpoints'] at hbefore
        have hstanding := standing_of_surroundings hsame
        refine ⟨.claimed ⟨slot, point.address, point.mode, point.size⟩ ⟨slot, hslot⟩ drs rfl
          hcached hfree ?_ hview, hstanding, fun hlegal => ?_⟩
        · refine (hafter _).trans ?_
          simp only [Watchpoint.hardware?, Function.comp_apply, if_true, Option.toList_some,
            List.singleton_append]
          exact hbefore.symm.cons _
        · rw [← hwatchpoints] at hlegal
          exact legal_modify hlegal index fun _ => rfl

theorem disableWatchpoint_step (h : Allocated m) (index : Nat) :
    StoppointStep m (disableWatchpoint index m).2 := by
  cases hpoint : m.process.watchpoints[index]? with
  | none =>
      have hat : watchpointAt index m = (.error (.undefined "dangling watchpoint"), m) := by
        simp [watchpointAt, hpoint]
      rw [disableWatchpoint, bind_of_error hat]
      exact .refl m
  | some point =>
      have hat : watchpointAt index m = (.ok point, m) := by simp [watchpointAt, hpoint]
      rw [disableWatchpoint, bind_of_ok hat]
      by_cases henabled : point.isEnabled = true
      case neg =>
        rw [if_pos (by simpa using henabled)]
        exact .refl m
      rw [if_neg (by simpa using henabled)]
      have hsome : point.hardware? =
          some ⟨point.hardwareRegisterIndex, point.address, point.mode, point.size⟩ := by
        simp [Watchpoint.hardware?, henabled]
      obtain ⟨others, hpoints, -, -⟩ := hardwareStoppoints_watchpoint hpoint
      rw [hsome] at hpoints
      rcases clear_owned h (hpoints.mem_iff.mpr List.mem_cons_self) with
        ⟨e, hclear⟩ | ⟨slot, drs, hslot, hcached, m', hclear, hsame, hview⟩
      · rw [bind_of_error hclear]
        exact (sameSlots_observe m _).step
      · rw [bind_of_ok hclear]
        obtain ⟨hsites, hwatchpoints⟩ := Surroundings.stoppoints hsame
        have hpoints' : m'.process.hardwareStoppoints = m.process.hardwareStoppoints := by
          simp only [Process.hardwareStoppoints, hsites, hwatchpoints]
        have hpoint' : m'.process.watchpoints[index]? = some point := by
          rw [hwatchpoints, hpoint]
        obtain ⟨others', hbefore, hafter, -⟩ := hardwareStoppoints_watchpoint hpoint'
        rw [hsome, hpoints'] at hbefore
        have hstanding := standing_of_surroundings hsame
        refine ⟨.released _ slot drs hslot hcached (hbefore.trans (.cons _ ?_)) hview,
          hstanding, fun hlegal => ?_⟩
        · exact (hafter fun s => { s with isEnabled := false }).symm
        · rw [← hwatchpoints] at hlegal
          exact legal_modify hlegal index fun _ => rfl

theorem pushSite_same (address : Word) {site : Process → BreakpointSite × Process}
    (hsite : ∀ p, (site p).1.isEnabled = false ∧
      ∃ next, (site p).2 = { p with nextSiteId := next }) :
    Respects SameSlots (pushSite address site) := by
  refine Respects.bind Respects.get fun _ => Respects.ite (Respects.throw _) ?_
  refine Respects.bind (Respects.modify fun m => ?_) fun _ => Respects.pure _
  obtain ⟨hdisabled, next, hnext⟩ := hsite m.process
  have hnone : (site m.process).1.hardware? = none := by
    simp [BreakpointSite.hardware?, hdisabled]
  refine ⟨?_, ?_, ?_, ?_⟩ <;> simp only [Machine.setProcess, hnext]
  · rfl
  · rfl
  · simp [Process.hardwareStoppoints, StoppointCollection.push, List.filterMap_append, hnone]

/-- Removing a site does to the slots what disabling it does. -/
theorem removeSite_of_disable {index : Nat} (hstep : StoppointStep m (disableSite index m).2) :
    StoppointStep m (removeSite (some index) m).2 := by
  rw [removeSite]
  rcases hdisable : disableSite index m with ⟨e | u, m'⟩
  · rw [bind_of_error hdisable]
    rwa [hdisable] at hstep
  · rw [bind_of_ok hdisable]
    rw [hdisable] at hstep
    refine hstep.then_same ⟨rfl, rfl, ?_, rfl⟩
    cases hsite : m'.process.breakpointSites[index]? with
    | none =>
        simp only [modifyProcess, modify_apply, Machine.setProcess,
          List.eraseIdx_of_length_le (List.getElem?_eq_none_iff.mp hsite)]
        exact .refl _
    | some site =>
        obtain ⟨others, hbefore, -, herase⟩ := hardwareStoppoints_site hsite
        have hnone : site.hardware? = none := by
          simp [BreakpointSite.hardware?, disableSite_disabled hdisable site hsite]
        rw [hnone] at hbefore
        exact herase.trans hbefore.symm

theorem removeSite_step (h : Allocated m) (index : Option Nat) :
    StoppointStep m (removeSite index m).2 := by
  cases index with
  | none => exact .refl m
  | some index => exact removeSite_of_disable (disableSite_step h index)

/-- An effect after a step that leaves the registers and the enabled
stoppoints alone. -/
theorem SameSlots.then_step (h : SameSlots m m') (hstep : StoppointStep m' m'') :
    StoppointStep m m'' := by
  have hcurrent : m'.process.currentThread = m.process.currentThread := congrArg (·.1) h.standing
  refine ⟨?_, hstep.standing.trans h.standing, fun hlegal => hstep.legal (by rwa [h.watchpoints])⟩
  have hsome := Standing.isSome h.standing
  cases hstep.effect with
  | unchanged hview hpoints => exact .unchanged (hview.trans h.view) (hpoints.trans h.points)
  | claimed point slot drs hslot hcached hfree hpoints hview =>
      rw [hcurrent, h.view] at hcached
      refine .claimed point slot drs hslot hcached hfree (hpoints.trans (h.points.cons _)) ?_
      intro t
      rw [hview, hsome, h.view]
  | released point slot drs hslot hcached hpoints hview =>
      rw [hcurrent, h.view] at hcached
      refine .released point slot drs hslot hcached (h.points.symm.trans hpoints) ?_
      intro t
      rw [hview, hsome, h.view]

theorem SiteOperation.run_step (h : Allocated m) (op : SiteOperation) :
    StoppointStep m (op.run m).2 := by
  have htouch : SameSlots m (op.touch m).2 :=
    op.touch_respects (fun m _ => sameSlots_observe m _) m
  have hallocated := htouch.step.allocated h
  refine htouch.then_step ?_
  change StoppointStep (op.touch m).2 (op.perform (op.touch m).2).2
  generalize (op.touch m).2 = m₀ at hallocated
  cases op with
  | create address hardware internal =>
      refine (Respects.bind (pushSite_same address fun p => ?_) (fun _ => Respects.pure _) m₀).step
      split
      · exact ⟨rfl, p.nextSiteId, rfl⟩
      · exact ⟨rfl, p.nextSiteId + 1, rfl⟩
  | createFor parent id address hardware internal =>
      exact (Respects.bind (pushSite_same address fun p => ⟨rfl, p.nextSiteId, rfl⟩)
        (fun _ => Respects.pure _) m₀).step
  | enable index => exact enableSite_step hallocated index
  | disable index => exact disableSite_step hallocated index
  | removeById id => exact removeSite_step hallocated _
  | removeByAddress address => exact removeSite_step hallocated _

/-- The checks of the constructor admit the sizes the hardware has. -/
theorem legal_of_checkWatchpoint {address : Word} {mode : StoppointMode} {size : Nat} {u : PUnit}
    (h : checkWatchpoint address mode size = .ok u) : LegalSize size := by
  unfold checkWatchpoint at h
  split at h
  · cases h
  · rename_i hsize
    unfold LegalSize
    omega

theorem createWatchpoint_step (address : Word) (mode : StoppointMode) (size : Nat) (m : Machine) :
    StoppointStep m (createWatchpoint address mode size m).2 := by
  rw [createWatchpoint, bind_of_ok (get_apply m)]
  split
  · exact .refl m
  cases hcheck : checkWatchpoint address mode size with
  | error e => exact .refl m
  | ok u =>
      have hsize := legal_of_checkWatchpoint hcheck
      have hstep : ∀ points : List Watchpoint, (∀ point ∈ points, LegalSize point.size) →
          points.filterMap Watchpoint.hardware? = [] →
          StoppointStep m (m.setProcess fun p => { p with
            nextWatchpointId := m.process.nextWatchpointId + 1
            watchpoints := p.watchpoints ++ points }) := by
        intro points hpoints hnone
        refine ⟨.unchanged rfl ?_, rfl, fun hlegal point hpoint => ?_⟩
        · simp [Process.hardwareStoppoints, Machine.setProcess, List.filterMap_append, hnone]
        · rcases List.mem_append.mp hpoint with hpoint | hpoint
          · exact hlegal point hpoint
          · exact hpoints point hpoint
      cases hdata : watchedData m address size with
      | error e =>
          have herror := hstep [] (by simp) rfl
          simp only [List.append_nil] at herror
          exact herror
      | ok data =>
          exact hstep [⟨m.process.nextWatchpointId + 1, address, false, mode, size, -1, data, 0⟩]
            (by simpa using hsize) rfl

/-- A watchpoint that `disable` returned from is disabled. -/
theorem disableWatchpoint_disabled {index : Nat} {u : PUnit}
    (h : disableWatchpoint index m = (.ok u, m')) :
    ∀ point, m'.process.watchpoints[index]? = some point → point.isEnabled = false := by
  obtain ⟨point, middle, hat, hrest⟩ := Eff.bind_eq_ok.mp h
  have hmiddle : m = middle := congrArg Prod.snd hat
  subst hmiddle
  by_cases henabled : point.isEnabled = true
  · rw [if_neg (by simp [henabled])] at hrest
    obtain ⟨_, m₁, -, hlast⟩ := Eff.bind_eq_ok.mp hrest
    cases hlast
    intro other hother
    change (m₁.process.watchpoints.modify index _)[index]? = some other at hother
    rw [List.getElem?_modify_eq] at hother
    obtain ⟨old, -, rfl⟩ := Option.map_eq_some_iff.mp hother
    rfl
  · rw [if_pos (by simpa using henabled)] at hrest
    cases hrest
    intro other hother
    have hfirst := congrArg Prod.fst hat
    simp only [watchpointAt, asks_apply, hother, Except.ok.injEq] at hfirst
    simpa [hfirst] using henabled

theorem removeWatchpoint_of_disable {index : Nat}
    (hstep : StoppointStep m (disableWatchpoint index m).2) :
    StoppointStep m (removeWatchpoint (some index) m).2 := by
  rw [removeWatchpoint]
  rcases hdisable : disableWatchpoint index m with ⟨e | u, m'⟩
  · rw [bind_of_error hdisable]
    rwa [hdisable] at hstep
  · rw [bind_of_ok hdisable]
    rw [hdisable] at hstep
    have hsublist := List.eraseIdx_sublist m'.process.watchpoints index
    refine ⟨hstep.effect.congr rfl ?_, hstep.standing, fun hlegal point hpoint =>
      hstep.legal hlegal point (hsublist.subset hpoint)⟩
    cases hpoint : m'.process.watchpoints[index]? with
    | none =>
        simp only [modifyProcess, modify_apply, Machine.setProcess,
          List.eraseIdx_of_length_le (List.getElem?_eq_none_iff.mp hpoint)]
        exact .refl _
    | some point =>
        obtain ⟨others, hbefore, -, herase⟩ := hardwareStoppoints_watchpoint hpoint
        have hnone : point.hardware? = none := by
          simp [Watchpoint.hardware?, disableWatchpoint_disabled hdisable point hpoint]
        rw [hnone] at hbefore
        exact herase.trans hbefore.symm

theorem removeWatchpoint_step (h : Allocated m) (index : Option Nat) :
    StoppointStep m (removeWatchpoint index m).2 := by
  cases index with
  | none => exact .refl m
  | some index => exact removeWatchpoint_of_disable (disableWatchpoint_step h index)

theorem WatchpointOperation.run_step (h : Allocated m) (op : WatchpointOperation) :
    StoppointStep m (op.run m).2 := by
  cases op with
  | create address mode size =>
      have hstep := createWatchpoint_step address mode size m
      rw [WatchpointOperation.run]
      rcases hcreate : createWatchpoint address mode size m with ⟨e | index, m'⟩
      · rw [bind_of_error hcreate]
        rwa [hcreate] at hstep
      · rw [bind_of_ok hcreate]
        rwa [hcreate] at hstep
  | enable index => exact enableWatchpoint_step h index
  | disable index => exact disableWatchpoint_step h index
  | removeById id => exact removeWatchpoint_step h _
  | removeByAddress address => exact removeWatchpoint_step h _

end Effects

/-- The control word is the same on every tracked thread, in the cache and in
the thread. -/
def Uniform (m : Machine) : Prop :=
  ∃ control, ∀ t, (m.thread? t).isSome = true → (m.debugView t).actual 7 = control ∧
    ∀ drs, (m.debugView t).cached = some drs → drs 7 = control

/-- An operation on hardware stoppoints, or the choice of another current
thread between two of them. -/
inductive HardwareOperation where
  | site (op : SiteOperation)
  | watchpoint (op : WatchpointOperation)
  | setCurrentThread (tid : Tid)
deriving DecidableEq, Repr

def HardwareOperation.run : HardwareOperation → Debugger PUnit
  | .site op => op.run
  | .watchpoint op => op.run
  | .setCurrentThread tid => modifyProcess fun p => { p with currentThread := tid }

/-- A sequence of operations, each from the state the one before it left. -/
def performHardwareOperations (ops : List HardwareOperation) (m : Machine) : Machine :=
  performAll HardwareOperation.run ops m

/-- The operation enables a disabled hardware stoppoint. -/
def HardwareOperation.Enables (m : Machine) : HardwareOperation → Prop
  | .site (.enable index) => ∃ site, m.process.breakpointSites[index]? = some site ∧
      site.isHardware = true ∧ site.isEnabled = false
  | .watchpoint (.enable index) => ∃ point, m.process.watchpoints[index]? = some point ∧
      point.isEnabled = false
  | _ => False

/-- Every one of the four slots is in use. -/
def SlotsFull (m : Machine) : Prop :=
  ∀ slot : Fin 4, ∃ point ∈ m.process.hardwareStoppoints, point.slot = (slot : Nat)

/-- The fields of a slot in the control register of a thread. -/
def Machine.fields (m : Machine) (t : Tid) (slot : Nat) : SlotFields :=
  slotFields ((m.debugView t).actual 7) slot

section Sequences

variable {m m' : Machine}

theorem DebugView.program_control (view : DebugView) (slot : Fin 8) (address control : Word) :
    (view.program slot address control).actual 7 = control := by
  simp [DebugView.program, DebugView.set]

theorem uniform_of_programmed {slot : Fin 8} {address control : Word}
    (hsome : ∀ t, (m'.thread? t).isSome = (m.thread? t).isSome)
    (hview : ∀ t, m'.debugView t = if (m.thread? t).isSome = true then
      (m.debugView t).program slot address control else m.debugView t) : Uniform m' := by
  refine ⟨control, fun t ht => ?_⟩
  rw [hsome] at ht
  rw [hview, if_pos ht]
  refine ⟨DebugView.program_control _ _ _ _, fun drs hdrs => ?_⟩
  simp only [DebugView.program, DebugView.set, Option.map_map, Option.map_eq_some_iff,
    Function.comp_apply] at hdrs
  obtain ⟨old, -, rfl⟩ := hdrs
  exact Function.update_self _ _ _

theorem StoppointStep.uniform (hstep : StoppointStep m m') (h : Uniform m) : Uniform m' := by
  have hsome := Standing.isSome hstep.standing
  cases hstep.effect with
  | unchanged hview =>
      obtain ⟨control, hcontrol⟩ := h
      refine ⟨control, fun t ht => ?_⟩
      rw [hview]
      exact hcontrol t (hsome t ▸ ht)
  | claimed point slot drs hslot hcurrent hfree hpoints hview =>
      exact uniform_of_programmed hsome hview
  | released point slot drs hslot hcurrent hpoints hview =>
      exact uniform_of_programmed hsome hview

/-- The control word of the current thread is that of every other. -/
theorem Uniform.control (h : Uniform m) {t current : Tid} {drs : Fin 8 → Word}
    (ht : (m.thread? t).isSome = true) (hcurrent : (m.debugView current).cached = some drs) :
    drs 7 = (m.debugView t).actual 7 := by
  obtain ⟨control, hcontrol⟩ := h
  have htracked : (m.thread? current).isSome = true := by
    rw [← Machine.debugView_cached_isSome, hcurrent]
    rfl
  rw [(hcontrol t ht).1, (hcontrol current htracked).2 drs hcurrent]

/-- An operation leaves the fields of every slot alone whose owner it does not
change. -/
theorem StoppointStep.fields_eq (hstep : StoppointStep m m') (h : Allocated m)
    (huniform : Uniform m) {t : Tid} (ht : (m.thread? t).isSome = true) {slot : Fin 4}
    (howner : ∀ point : HardwareStoppoint, point.slot = (slot : Nat) →
      (point ∈ m'.process.hardwareStoppoints ↔ point ∈ m.process.hardwareStoppoints)) :
    m'.fields t slot = m.fields t slot := by
  unfold Machine.fields
  cases hstep.effect with
  | unchanged hview => rw [hview]
  | claimed point own drs hslot hcurrent hfree hpoints hview =>
      have hfresh := (h.cached _ drs hcurrent).slot_ne hfree
      have hne : (slot : Nat) ≠ own := by
        intro heq
        have hslot' : point.slot = (slot : Nat) := by rw [hslot, heq]
        have hmem := (howner point hslot').mp (hpoints.mem_iff.mpr List.mem_cons_self)
        exact hfresh point hmem hslot
      rw [hview, if_pos ht, DebugView.program_control,
        slotFields_program_of_ne _ own.isLt slot.isLt hne,
        huniform.control ht hcurrent]
  | released point own drs hslot hcurrent hpoints hview =>
      have hdistinct := h.distinct
      rw [(hpoints.map _).nodup_iff, List.map_cons, List.nodup_cons] at hdistinct
      have hne : (slot : Nat) ≠ own := by
        intro heq
        have hslot' : point.slot = (slot : Nat) := by rw [hslot, heq]
        have hmem := (howner point hslot').mpr (hpoints.mem_iff.mpr List.mem_cons_self)
        exact hdistinct.1 (List.mem_map_of_mem hmem)
      rw [hview, if_pos ht, DebugView.program_control,
        slotFields_clear_of_ne _ own.isLt slot.isLt hne,
        huniform.control ht hcurrent]

theorem HardwareOperation.run_allocated (op : HardwareOperation) (h : Allocated m) :
    Allocated (op.run m).2 := by
  cases op with
  | site op => exact (op.run_step h).allocated h
  | watchpoint op => exact (op.run_step h).allocated h
  | setCurrentThread tid =>
      exact ⟨⟨h.tame.stopped, h.tame.defined⟩, h.legal, h.slots, h.distinct, h.actual, h.cached⟩

theorem HardwareOperation.run_uniform (op : HardwareOperation) (h : Allocated m)
    (huniform : Uniform m) : Uniform (op.run m).2 := by
  cases op with
  | site op => exact (op.run_step h).uniform huniform
  | watchpoint op => exact (op.run_step h).uniform huniform
  | setCurrentThread tid => exact huniform

theorem performHardwareOperations_allocated_uniform (ops : List HardwareOperation)
    (h : Allocated m) (huniform : Uniform m) :
    Allocated (performHardwareOperations ops m) ∧ Uniform (performHardwareOperations ops m) := by
  induction ops generalizing m with
  | nil => exact ⟨h, huniform⟩
  | cons op rest ih => exact ih (op.run_allocated h) (op.run_uniform h huniform)

/-- With every slot in use, claiming one more changes nothing. -/
theorem setHardwareStoppoint_full (h : Allocated m) (hfull : SlotsFull m) (address : Word)
    (mode : StoppointMode) {size : Nat} (hsize : LegalSize size) :
    ∃ e, e.isException = true ∧ setHardwareStoppoint address mode size m =
      (.error e, m.observe (.programmed m.moment)) := by
  rcases setHardwareStoppoint_cases h.tame address mode hsize with
    ⟨-, herror⟩ | ⟨drs, hcached, slot, -, hslot, hfree, -⟩
  · exact herror
  · obtain ⟨point, hpoint, howner⟩ := hfull ⟨slot, hslot⟩
    have hfree' : (slotFields (drs 7) (⟨slot, hslot⟩ : Fin 4)).enable = 0 := hfree
    exact absurd howner ((h.cached _ drs hcached).slot_ne hfree' point hpoint)

theorem enableSite_full {index : Nat} {site : BreakpointSite} (h : Allocated m)
    (hfull : SlotsFull m) (hsite : m.process.breakpointSites[index]? = some site)
    (hhardware : site.isHardware = true) (hdisabled : site.isEnabled = false) :
    ∃ e, e.isException = true ∧ enableSite index m =
      (.error e, m.observe (.programmed m.moment)) := by
  obtain ⟨e, hexception, hset⟩ := setHardwareStoppoint_full h hfull site.address .execute (.inl rfl)
  refine ⟨e, hexception, ?_⟩
  have hat : siteAt index m = (.ok site, m) := by simp [siteAt, hsite]
  rw [enableSite, bind_of_ok hat, if_neg (by simp [hdisabled]), if_pos hhardware]
  exact bind_of_error (x := setHardwareBreakpoint site.address) hset _

theorem enableWatchpoint_full {index : Nat} {point : Watchpoint} (h : Allocated m)
    (hfull : SlotsFull m) (hpoint : m.process.watchpoints[index]? = some point)
    (hdisabled : point.isEnabled = false) :
    ∃ e, e.isException = true ∧ enableWatchpoint index m =
      (.error e, m.observe (.programmed m.moment)) := by
  obtain ⟨e, hexception, hset⟩ := setHardwareStoppoint_full h hfull point.address point.mode
    (h.legal point (List.mem_of_getElem? hpoint))
  refine ⟨e, hexception, ?_⟩
  have hat : watchpointAt index m = (.ok point, m) := by simp [watchpointAt, hpoint]
  rw [enableWatchpoint, bind_of_ok hat, if_neg (by simp [hdisabled])]
  exact bind_of_error (x := setWatchpoint point.address point.mode point.size) hset _

theorem HardwareOperation.run_full {op : HardwareOperation} (h : Allocated m)
    (hop : op.Enables m) (hfull : SlotsFull m) :
    ∃ e m', op.run m = (.error e, m') ∧ e.isException = true ∧
      m'.kernel = m.kernel ∧ m'.process = m.process := by
  cases op with
  | setCurrentThread tid => exact hop.elim
  | site op =>
      cases op with
      | enable index =>
          obtain ⟨site, hsite, hhardware, hdisabled⟩ := hop
          have htouch : (SiteOperation.enable index).touch m =
              (.ok ⟨⟩, m.observe (.touched site.address)) := by
            simp [SiteOperation.touch, SiteOperation.site?, hsite]
          obtain ⟨e, hexception, henable⟩ := enableSite_full
            ((sameSlots_observe m (.touched site.address)).step.allocated h) hfull hsite hhardware
            hdisabled
          have hrun :=
            (bind_of_ok htouch fun _ => (SiteOperation.enable index).perform).trans henable
          exact ⟨e, _, hrun, hexception, rfl, rfl⟩
      | _ => exact hop.elim
  | watchpoint op =>
      cases op with
      | enable index =>
          obtain ⟨point, hpoint, hdisabled⟩ := hop
          obtain ⟨e, hexception, henable⟩ := enableWatchpoint_full h hfull hpoint hdisabled
          exact ⟨e, _, henable, hexception, rfl, rfl⟩
      | _ => exact hop.elim

theorem HardwareOperation.run_fields_eq (op : HardwareOperation) (h : Allocated m)
    (huniform : Uniform m) {t : Tid} (ht : (m.thread? t).isSome = true) {slot : Fin 4}
    (howner : ∀ point : HardwareStoppoint, point.slot = (slot : Nat) →
      (point ∈ (op.run m).2.process.hardwareStoppoints ↔ point ∈ m.process.hardwareStoppoints)) :
    (op.run m).2.fields t slot = m.fields t slot := by
  cases op with
  | site op => exact (op.run_step h).fields_eq h huniform ht howner
  | watchpoint op => exact (op.run_step h).fields_eq h huniform ht howner
  | setCurrentThread tid => rfl

/-- The threads before the first stoppoint is enabled: stopped, their register
files known, and their control registers equal with the enable bits clear. -/
structure Unarmed (m : Machine) : Prop where
  tame : AllTame m
  legal : ∀ point ∈ m.process.watchpoints, LegalSize point.size
  disabled : m.process.hardwareStoppoints = []
  control : ∃ control : Word, (∀ slot < 4, (slotFields control slot).enable = 0) ∧
    ∀ t, (m.thread? t).isSome = true → (m.debugView t).actual 7 = control ∧
      ∀ drs, (m.debugView t).cached = some drs → drs 7 = control

theorem Unarmed.allocated (h : Unarmed m) : Allocated m := by
  obtain ⟨control, hclear, hcontrol⟩ := h.control
  have harms : ∀ drs : Fin 8 → Word, drs 7 = control → Arms m.process.hardwareStoppoints drs := by
    intro drs hdrs
    rw [h.disabled]
    refine ⟨by simp, fun slot _ => ?_⟩
    rw [hdrs]
    exact hclear slot slot.isLt
  refine ⟨h.tame, h.legal, by simp [h.disabled], by simp [h.disabled],
    fun t ht => harms _ (hcontrol t ht).1, fun t drs hdrs => ?_⟩
  have ht : (m.thread? t).isSome = true := by
    rw [← Machine.debugView_cached_isSome, hdrs]
    rfl
  exact harms drs ((hcontrol t ht).2 drs hdrs)

theorem Unarmed.uniform (h : Unarmed m) : Uniform m := by
  obtain ⟨control, -, hcontrol⟩ := h.control
  exact ⟨control, hcontrol⟩

/-- After every sequence of operations on stoppoints: the enabled hardware
stoppoints own different slots, the debug registers of every thread arm exactly
them, the next operation leaves the fields of the slots it does not claim or
give back, and with no slot left an enable is an error that changes nothing. -/
theorem performHardwareOperations_arms (h : Unarmed m) (ops : List HardwareOperation) :
    let m' := performHardwareOperations ops m
    ((∀ point ∈ m'.process.hardwareStoppoints, ∃ slot : Fin 4, point.slot = (slot : Nat)) ∧
      (m'.process.hardwareStoppoints.map (·.slot)).Nodup) ∧
    (∀ t, (m'.thread? t).isSome = true →
      Arms m'.process.hardwareStoppoints (m'.debugView t).actual) ∧
    (∀ (op : HardwareOperation) t, (m'.thread? t).isSome = true → ∀ slot : Fin 4,
      (∀ point : HardwareStoppoint, point.slot = (slot : Nat) →
        (point ∈ (op.run m').2.process.hardwareStoppoints ↔
          point ∈ m'.process.hardwareStoppoints)) →
      (op.run m').2.fields t slot = m'.fields t slot) ∧
    ∀ op : HardwareOperation, op.Enables m' → SlotsFull m' →
      ∃ e m'', op.run m' = (.error e, m'') ∧ e.isException = true ∧
        m''.kernel = m'.kernel ∧ m''.process = m'.process := by
  intro m'
  obtain ⟨hallocated, huniform⟩ :=
    performHardwareOperations_allocated_uniform ops h.allocated h.uniform
  exact ⟨⟨hallocated.slots, hallocated.distinct⟩, hallocated.actual,
    fun op t ht slot => op.run_fields_eq hallocated huniform ht,
    fun op hop hfull => HardwareOperation.run_full hallocated hop hfull⟩

end Sequences

namespace SlotAllocationWitness

def machine : Machine :=
  (Machine.atRest fun _ => 0).setProcess fun p => { p with
    threads := [(1, newThread), (2, newThread)] }

def operations : List HardwareOperation :=
  [.site (.create 0x1000 true false), .site (.enable 0),
    .watchpoint (.create 0x2000 .write 4), .watchpoint (.enable 0),
    .setCurrentThread 2, .site (.disable 0), .watchpoint (.create 0x3000 .readWrite 8),
    .watchpoint (.enable 1)]

theorem machine_thread? {t : Tid} {thread : ThreadState} (h : machine.thread? t = some thread) :
    thread = newThread := by
  obtain ⟨entry, hfind, rfl⟩ := Option.map_eq_some_iff.mp h
  have hmem := List.mem_of_find?_eq_some hfind
  have hthreads : machine.process.threads = [(1, newThread), (2, newThread)] := rfl
  rw [hthreads] at hmem
  rcases List.mem_pair.mp hmem with rfl | rfl <;> rfl

theorem machine_unarmed : Unarmed machine where
  tame := ⟨fun _ _ => rfl, fun t thread hthread => by rw [machine_thread? hthread]; rfl⟩
  legal := by simp [machine, Machine.atRest, Machine.setProcess]
  disabled := rfl
  control := by
    have hzero : User.drs (fun _ => 0) 7 = 0 := by decide
    refine ⟨0, by decide, fun t _ => ⟨hzero, fun drs hdrs => ?_⟩⟩
    obtain ⟨thread, hthread, rfl⟩ := Option.map_eq_some_iff.mp hdrs
    rw [machine_thread? hthread]
    exact hzero

/-- Two stoppoints in use, one given back, and its slot taken by the next. -/
theorem performHardwareOperations_arms_reused :
    (performHardwareOperations operations machine).process.hardwareStoppoints =
        [⟨1, 0x2000, .write, 4⟩, ⟨0, 0x3000, .readWrite, 8⟩] ∧
      Arms (performHardwareOperations operations machine).process.hardwareStoppoints
        ((performHardwareOperations operations machine).debugView 1).actual :=
  ⟨by decide +kernel,
    (performHardwareOperations_arms machine_unarmed operations).2.1 1 (by decide +kernel)⟩

end SlotAllocationWitness

end Gsdb
