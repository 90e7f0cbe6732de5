/-
The registers that `setup_arguments` assigns: every argument takes the next ones of its
classes if enough are left for all of it, and is set apart for the stack otherwise.
-/
import Gsdb.ArgumentPassing
import Gsdb.Transparency

namespace Gsdb

open ByteMemory Effects Eff Debugger PoolAllocation

/-- The counters of `setup_arguments` stand where the pools begin. -/
structure CountersAt (st : ArgumentState) (pools : Pools ParameterClass RegisterId) : Prop where
  integer : pools .integer = intRegs.drop st.currentIntReg
  sse : pools .sse = sseRegs.drop st.currentSseReg
  other : ∀ cls, cls ≠ .integer → cls ≠ .sse → pools cls = []
  ints : st.currentIntReg ≤ intRegs.length
  sses : st.currentSseReg ≤ sseRegs.length

/-- Only these registers were set, and memory is as it was. -/
structure SetOnly (tid : Tid) (regs : List RegisterId) (m m' : Machine) : Prop where
  memory : m'.kernel.memory = m.kernel.memory
  keeps : ∀ other ∈ callRegisters, other ∉ regs → ∀ bytes,
    RegisterHolds m tid other bytes → RegisterHolds m' tid other bytes

/-- The arguments in registers: each register holds its eightbyte. -/
def ArgumentsHeld (m : Machine) (tid : Tid) :
    List Ty → List TypedData → List (Placement RegisterId) → Prop
  | param :: params, arg :: args, placement :: placements =>
      (∀ pair ∈ placement.taken.zip param.eightbytes,
        RegisterHolds m tid pair.1 (eightbyteOf arg.data pair.2.2)) ∧
        ArgumentsHeld m tid params args placements
  | _, _, _ => True

section Pools

variable {st : ArgumentState} {pools : Pools ParameterClass RegisterId}

theorem CountersAt.mem_integer (h : CountersAt st pools) {reg : RegisterId}
    (hreg : reg ∈ pools .integer) : reg ∈ intRegs :=
  List.mem_of_mem_drop (h.integer ▸ hreg)

theorem CountersAt.mem_sse (h : CountersAt st pools) {reg : RegisterId}
    (hreg : reg ∈ pools .sse) : reg ∈ sseRegs :=
  List.mem_of_mem_drop (h.sse ▸ hreg)

/-- A register of a pool is an integer or an SSE register. -/
theorem CountersAt.mem_cases (h : CountersAt st pools) {cls : ParameterClass} {reg : RegisterId}
    (hreg : reg ∈ pools cls) :
    (cls = .integer ∧ reg ∈ intRegs) ∨ (cls = .sse ∧ reg ∈ sseRegs) := by
  by_cases hint : cls = .integer
  · subst hint
    exact .inl ⟨rfl, h.mem_integer hreg⟩
  by_cases hsse : cls = .sse
  · subst hsse
    exact .inr ⟨rfl, h.mem_sse hreg⟩
  rw [h.other cls hint hsse] at hreg
  cases hreg

theorem intRegs_sseRegs : ∀ reg ∈ intRegs, reg ∉ sseRegs := by decide

theorem CountersAt.mem_callRegisters (h : CountersAt st pools) {cls : ParameterClass}
    {reg : RegisterId} (hreg : reg ∈ pools cls) :
    reg ∈ callRegisters ∧ reg ≠ .rax ∧ reg ≠ .rsp := by
  have hint : ∀ reg ∈ intRegs, reg ∈ callRegisters ∧ reg ≠ .rax ∧ reg ≠ .rsp := by decide
  have hsse : ∀ reg ∈ sseRegs, reg ∈ callRegisters ∧ reg ≠ .rax ∧ reg ≠ .rsp := by decide
  rcases h.mem_cases hreg with ⟨-, hreg⟩ | ⟨-, hreg⟩
  · exact hint reg hreg
  · exact hsse reg hreg

theorem CountersAt.disjoint (h : CountersAt st pools) : Disjoint pools where
  nodup := fun cls => by
    by_cases hint : cls = .integer
    · subst hint
      rw [h.integer]
      exact List.Nodup.sublist (List.drop_sublist _ _) (by decide)
    by_cases hsse : cls = .sse
    · subst hsse
      rw [h.sse]
      exact List.Nodup.sublist (List.drop_sublist _ _) (by decide)
    rw [h.other cls hint hsse]
    exact List.nodup_nil
  apart := fun hreg hreg' => by
    rcases h.mem_cases hreg with ⟨rfl, hmem⟩ | ⟨rfl, hmem⟩
    · rcases h.mem_cases hreg' with ⟨rfl, -⟩ | ⟨-, hmem'⟩
      · rfl
      · exact absurd hmem' (intRegs_sseRegs _ hmem)
    · rcases h.mem_cases hreg' with ⟨-, hmem'⟩ | ⟨rfl, -⟩
      · exact absurd hmem (intRegs_sseRegs _ hmem')
      · rfl

theorem count_reserved (param : Ty) (cls : ParameterClass)
    (hcls : cls = .integer ∨ cls = .sse) :
    param.demand.reserved.count cls = param.classes.count cls := by
  rw [Ty.demand, List.count_filter (by simpa using hcls)]
  simp only [ParameterClasses.count, List.count_cons, List.count_nil, beq_iff_eq]
  omega

theorem count_reserved_other (param : Ty) {cls : ParameterClass} (hint : cls ≠ .integer)
    (hsse : cls ≠ .sse) : param.demand.reserved.count cls = 0 := by
  rw [List.count_eq_zero]
  intro hmem
  have hkind := (List.mem_filter.mp hmem).2
  simp [hint, hsse] at hkind

theorem reserved_eq_nil (param : Ty) : param.demand.reserved = [] ↔
    param.classes.count .integer = 0 ∧ param.classes.count .sse = 0 := by
  rw [← count_reserved param .integer (.inl rfl), ← count_reserved param .sse (.inr rfl)]
  constructor
  · intro hnil
    rw [hnil]
    exact ⟨rfl, rfl⟩
  · rintro ⟨hint, hsse⟩
    rw [List.eq_nil_iff_forall_not_mem]
    intro cls hmem
    have hkind : cls = .integer ∨ cls = .sse := by simpa using (List.mem_filter.mp hmem).2
    rcases hkind with rfl | rfl
    · exact List.count_eq_zero.mp hint hmem
    · exact List.count_eq_zero.mp hsse hmem

/-- The test of `setup_arguments` is whether the parameter can reserve its registers. -/
theorem CountersAt.apart_iff (h : CountersAt st pools) (param : Ty) :
    (intRegs.length < st.currentIntReg + param.classes.count .integer ∨
      sseRegs.length < st.currentSseReg + param.classes.count .sse ∨
      (param.classes.count .integer = 0 ∧ param.classes.count .sse = 0)) ↔
      param.demand.reserved = [] ∨ ¬ Suffices pools param.demand.reserved := by
  have hints := h.ints
  have hsses := h.sses
  have hinteger : (pools .integer).length = intRegs.length - st.currentIntReg := by
    rw [h.integer, List.length_drop]
  have hsse : (pools .sse).length = sseRegs.length - st.currentSseReg := by
    rw [h.sse, List.length_drop]
  have hsuffices : Suffices pools param.demand.reserved ↔
      param.classes.count .integer ≤ intRegs.length - st.currentIntReg ∧
        param.classes.count .sse ≤ sseRegs.length - st.currentSseReg := by
    rw [← count_reserved param .integer (.inl rfl), ← count_reserved param .sse (.inr rfl),
      ← hinteger, ← hsse]
    constructor
    · exact fun hall => ⟨hall .integer, hall .sse⟩
    · rintro ⟨hfirst, hsecond⟩ cls
      by_cases hint : cls = .integer
      · rw [hint]
        exact hfirst
      by_cases hkind : cls = .sse
      · rw [hkind]
        exact hsecond
      rw [count_reserved_other param hint hkind]
      exact Nat.zero_le _
  rw [reserved_eq_nil, hsuffices]
  omega

end Pools

section Placing

variable {tid : Tid} {m m' : Machine} {st st' : ArgumentState}
  {pools : Pools ParameterClass RegisterId} {classes : ParameterClasses} {data : List Byte}

theorem SetOnly.refl (tid : Tid) (m : Machine) : SetOnly tid [] m m :=
  ⟨rfl, fun _ _ _ _ h => h⟩

theorem SetOnly.trans {first second : List RegisterId} {m m' m'' : Machine}
    (h : SetOnly tid first m m') (h' : SetOnly tid second m' m'') :
    SetOnly tid (first ++ second) m m'' where
  memory := h'.memory.trans h.memory
  keeps := fun other hother hnot bytes hholds => by
    rw [List.mem_append, not_or] at hnot
    exact h'.keeps other hother hnot.2 bytes (h.keeps other hother hnot.1 bytes hholds)

theorem eightbyteAt_isWord (data : List Byte) (index : Nat) :
    (eightbyteAt data index).IsWord (eightbyteOf data index) :=
  ⟨by simp [eightbyteOf], .inl rfl⟩

theorem commitRegister_setOnly {id : RegisterId} {val : Value} {u : PUnit}
    (hid : id ∈ callRegisters) (h : commitRegister tid id val m = (.ok u, m')) :
    SetOnly tid [id] m m' where
  memory := commitRegister_memory h
  keeps := fun other hother hnot bytes hholds =>
    commitRegister_keeps hid hother (by simpa using hnot) h hholds

theorem atIndex_eq_ok {index : Nat} {cls : ParameterClass}
    (h : classes.atIndex index = .ok cls) : classes.eightbyte index = cls := by
  match index with
  | 0 => exact Except.ok.inj h
  | 1 => exact Except.ok.inj h
  | _ + 2 => cases h

/-- One eightbyte has no class, or is put into the next register of its class. -/
theorem placeEightbyte_eq_ok {index : Nat} (hst : CountersAt st pools)
    (h : placeEightbyte tid classes data index st m = (.ok st', m')) :
    (classes.eightbyte index = .noClass ∧ st' = st ∧ m' = m) ∨
      ∃ reg left, classes.eightbyte index ≠ .noClass ∧
        pools (classes.eightbyte index) = reg :: left ∧
        commitRegister tid reg (eightbyteAt data index) m = (.ok ⟨⟩, m') ∧
        CountersAt st' (Function.update pools (classes.eightbyte index) left) ∧
        st'.stackArgs = st.stackArgs := by
  obtain ⟨cls, m₁, hcls, hrest⟩ := Eff.bind_eq_ok.mp h
  rw [ofExcept_apply] at hcls
  obtain ⟨hat, rfl⟩ := Prod.mk.inj hcls
  rw [atIndex_eq_ok hat]
  cases cls with
  | noClass =>
      cases hrest
      exact .inl ⟨rfl, rfl, rfl⟩
  | integer =>
      obtain ⟨reg, m₂, hreg, hcommitted⟩ := Eff.bind_eq_ok.mp hrest
      obtain ⟨hnext, rfl⟩ := Prod.mk.inj hreg
      obtain ⟨_, m₃, hcommit, hend⟩ := Eff.bind_eq_ok.mp hcommitted
      cases hend
      obtain ⟨hlt, hget⟩ := List.getElem?_eq_some_iff.mp (inBounds_eq_ok.mp hnext)
      have hpool : pools .integer = reg :: intRegs.drop (st.currentIntReg + 1) := by
        rw [hst.integer, List.drop_eq_getElem_cons hlt, hget]
      refine .inr ⟨reg, _, by simp, hpool, hcommit, ⟨?_, ?_, ?_, hlt, hst.sses⟩, rfl⟩
      · rw [Function.update_self]
      · rw [Function.update_of_ne (by simp), hst.sse]
      · intro cls hint hsse
        rw [Function.update_of_ne hint, hst.other cls hint hsse]
  | sse =>
      obtain ⟨reg, m₂, hreg, hcommitted⟩ := Eff.bind_eq_ok.mp hrest
      obtain ⟨hnext, rfl⟩ := Prod.mk.inj hreg
      obtain ⟨_, m₃, hcommit, hend⟩ := Eff.bind_eq_ok.mp hcommitted
      cases hend
      obtain ⟨hlt, hget⟩ := List.getElem?_eq_some_iff.mp (inBounds_eq_ok.mp hnext)
      have hpool : pools .sse = reg :: sseRegs.drop (st.currentSseReg + 1) := by
        rw [hst.sse, List.drop_eq_getElem_cons hlt, hget]
      refine .inr ⟨reg, _, by simp, hpool, hcommit, ⟨?_, ?_, ?_, hst.ints, hlt⟩, rfl⟩
      · rw [Function.update_of_ne (by simp), hst.integer]
      · rw [Function.update_self]
      · intro cls hint hsse
        rw [Function.update_of_ne hsse, hst.other cls hint hsse]
  | sseup => cases hrest
  | x87 => cases hrest
  | x87up => cases hrest
  | complexX87 => cases hrest
  | memory => cases hrest

theorem eightbytes_cons (classes : ParameterClasses) (index : Nat) (rest : List Nat) :
    classes.eightbytes (index :: rest) =
      if classes.eightbyte index = .noClass then classes.eightbytes rest
      else (classes.eightbyte index, index) :: classes.eightbytes rest := by
  rw [ParameterClasses.eightbytes, List.map_cons, List.filter_cons]
  by_cases hcls : classes.eightbyte index = .noClass
  · simp [hcls, ParameterClasses.eightbytes]
  · simp [hcls, ParameterClasses.eightbytes]

/-- The eightbytes of an argument are put into the next registers of their classes. -/
theorem placeEightbytes_eq_ok {indices : List Nat} (hst : CountersAt st pools)
    (h : placeEightbytes tid classes data indices st m = (.ok st', m')) :
    ∃ taken left, Takes pools ((classes.eightbytes indices).map (·.1)) taken left ∧
      CountersAt st' left ∧ st'.stackArgs = st.stackArgs ∧ SetOnly tid taken m m' ∧
      ∀ pair ∈ taken.zip (classes.eightbytes indices),
        RegisterHolds m' tid pair.1 (eightbyteOf data pair.2.2) := by
  induction indices generalizing st m pools with
  | nil =>
      cases h
      exact ⟨[], pools, .nil pools, hst, rfl, .refl tid _, by simp⟩
  | cons index rest ih =>
      obtain ⟨middle, m₁, hfirst, hrest⟩ := Eff.bind_eq_ok.mp h
      rw [eightbytes_cons]
      rcases placeEightbyte_eq_ok hst hfirst with
        ⟨hnone, rfl, rfl⟩ | ⟨reg, left, hsome, hpool, hcommit, hmiddle, hstack⟩
      · rw [if_pos hnone]
        exact ih hst hrest
      obtain ⟨taken, final, htakes, hfinal, hstack', hset, hholds⟩ := ih hmiddle hrest
      have hmem : reg ∈ pools (classes.eightbyte index) := by simp [hpool]
      have hcall := (hst.mem_callRegisters hmem).1
      have hwhole := Takes.cons hpool htakes
      have hnot := (List.nodup_cons.mp (hwhole.disjoint hst.disjoint).2.1).1
      have hfirstHolds := commitRegister_holds hcall (eightbyteAt_isWord data index) hcommit
      rw [if_neg hsome]
      refine ⟨reg :: taken, final, hwhole, hfinal, hstack'.trans hstack,
        (commitRegister_setOnly hcall hcommit).trans hset, fun pair hpair => ?_⟩
      rcases List.mem_cons.mp hpair with rfl | hpair
      · exact hset.keeps reg hcall hnot _ hfirstHolds
      · exact hholds pair hpair

theorem Ty.classes_eq {param : Ty} (h : param.getParameterClasses = .ok classes) :
    param.classes = classes := by
  rw [Ty.classes, h]
  rfl

/-- What is held in registers that are left as they are is still held. -/
theorem ArgumentsHeld.keep {params : List Ty} {args : List TypedData}
    {placements : List (Placement RegisterId)}
    (h : ArgumentsHeld m tid params args placements)
    (hkeep : ∀ reg ∈ placements.flatMap Placement.taken, ∀ bytes,
      RegisterHolds m tid reg bytes → RegisterHolds m' tid reg bytes) :
    ArgumentsHeld m' tid params args placements := by
  induction params generalizing args placements with
  | nil => trivial
  | cons param params ih =>
      cases args with
      | nil => trivial
      | cons arg args =>
          cases placements with
          | nil => trivial
          | cons placement placements =>
              rw [List.flatMap_cons] at hkeep
              refine ⟨fun pair hpair => ?_,
                ih h.2 fun reg hreg => hkeep reg (List.mem_append_right _ hreg)⟩
              have hreg : pair.1 ∈ placement.taken := (List.of_mem_zip hpair).1
              exact hkeep _ (List.mem_append_left _ hreg) _ (h.1 pair hpair)

/-- The second loop of `setup_arguments` allocates the registers. -/
theorem placeArguments_eq_ok {params : List Ty} {args : List TypedData}
    (hst : CountersAt st pools)
    (h : placeArguments tid params args st m = (.ok st', m')) :
    ∃ placements left, Allocates pools (params.map Ty.demand) placements left ∧
      CountersAt st' left ∧
      st'.stackArgs = st.stackArgs ++ stackArguments params args placements ∧
      SetOnly tid (placements.flatMap Placement.taken) m m' ∧
      ArgumentsHeld m' tid params args placements := by
  induction params generalizing args st m pools with
  | nil =>
      cases h
      exact ⟨[], pools, .nil pools, hst, by simp [stackArguments], .refl tid _, trivial⟩
  | cons param params ih =>
      cases args with
      | nil => cases h
      | cons arg args =>
          obtain ⟨middle, m₁, hfirst, hrest⟩ := Eff.bind_eq_ok.mp h
          obtain ⟨classes, m₂, hclasses, hplace⟩ := Eff.bind_eq_ok.mp hfirst
          obtain ⟨hcomputed, rfl⟩ := Prod.mk.inj hclasses
          obtain rfl := Ty.classes_eq hcomputed
          have htest := hst.apart_iff param
          split at hplace
          · rename_i hapart
            cases hplace
            have hst' : CountersAt
                { st with stackArgs := st.stackArgs ++ [(arg, slotSize param)] } pools :=
              ⟨hst.integer, hst.sse, hst.other, hst.ints, hst.sses⟩
            obtain ⟨placements, left, halloc, hleft, hstack, hset, hheld⟩ := ih hst' hrest
            refine ⟨.apart :: placements, left, .apart (htest.mp hapart) halloc, hleft, ?_, hset,
              ⟨by simp [Placement.taken], hheld⟩⟩
            rw [hstack, stackArguments, List.append_assoc]
            rfl
          · rename_i hamong
            have hreserve : ¬ (param.demand.reserved = [] ∨
                ¬ Suffices pools param.demand.reserved) := fun h => hamong (htest.mpr h)
            rw [not_or, not_not] at hreserve
            obtain ⟨taken, middle', htakes, hmiddle, hstack, hset, hheld⟩ :=
              placeEightbytes_eq_ok hst hplace
            obtain ⟨placements, left, halloc, hleft, hstack', hset', hheld'⟩ := ih hmiddle hrest
            have hwhole : Allocates pools (param.demand :: params.map Ty.demand)
                (.among taken :: placements) left :=
              .among hreserve.1 hreserve.2 htakes halloc
            obtain ⟨hnodup, hfrom⟩ := hwhole.disjoint hst.disjoint
            rw [List.flatMap_cons] at hnodup hfrom
            refine ⟨.among taken :: placements, left, hwhole, hleft, ?_, hset.trans hset',
              ⟨fun pair hpair => ?_, hheld'⟩⟩
            · rw [hstack', hstack]
              rfl
            · have hreg : pair.1 ∈ taken := (List.of_mem_zip hpair).1
              obtain ⟨cls, hcls⟩ := hfrom pair.1 (List.mem_append_left _ hreg)
              exact hset'.keeps _ (hst.mem_callRegisters hcls).1
                (fun hlater => (List.disjoint_of_nodup_append hnodup) hreg hlater) _
                  (hheld pair hpair)

end Placing

end Gsdb
