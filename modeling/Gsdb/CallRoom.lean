/-
The room that a call takes below the stack pointer of its thread: the copies of what is passed
by reference, the arguments on the stack and the return address, with the padding between them.
Setting up the arguments writes nowhere else.
-/
import Gsdb.ByteKeeping
import Gsdb.StackArguments

namespace Gsdb

open ByteMemory Effects Eff Debugger PoolAllocation

/-- An address among the bytes right below a stack pointer. -/
def Beneath (sp : Word) (room : Nat) (address : Word) : Prop :=
  ∃ depth, 0 < depth ∧ depth ≤ room ∧ address = sp - BitVec.ofNat 64 depth

section Beneath

variable {sp address : Word} {room room' : Nat}

theorem Beneath.mono (h : Beneath sp room address) (hroom : room ≤ room') :
    Beneath sp room' address := by
  obtain ⟨depth, hpos, hdepth, haddress⟩ := h
  exact ⟨depth, hpos, by omega, haddress⟩

/-- What is written below a stack pointer, from some depth upwards. -/
theorem beneath_of_depth {depth length : Nat} (hlength : length ≤ depth) (hdepth : depth ≤ room)
    {i : Nat} (hi : i < length) :
    Beneath sp room (sp - BitVec.ofNat 64 depth + BitVec.ofNat 64 i) := by
  refine ⟨depth - i, by omega, by omega, ?_⟩
  have hsplit : depth = depth - i + i := by omega
  have hsum : BitVec.ofNat 64 depth = BitVec.ofNat 64 (depth - i) + BitVec.ofNat 64 i := by
    rw [← BitVec.ofNat_add, ← hsplit]
  rw [hsum, ← BitVec.sub_sub, BitVec.sub_add_cancel]

theorem return_depth (sp : Word) (depth : Nat) :
    sp - BitVec.ofNat 64 depth - 8 = sp - BitVec.ofNat 64 (depth + 8) := by
  rw [BitVec.ofNat_add, ← BitVec.sub_sub]
  rfl

theorem not_beneath (h : ¬ Beneath sp room address) {depth length : Nat}
    (hlength : length ≤ depth) (hdepth : depth ≤ room) :
    ∀ i < length, address ≠ sp - BitVec.ofNat 64 depth + BitVec.ofNat 64 i :=
  fun _ hi heq => h (heq ▸ beneath_of_depth hlength hdepth hi)

end Beneath

/-- The data of an argument fit where they may be written. -/
structure ArgumentFits (param : Ty) (arg : TypedData) : Prop where
  copy : param.isReferenceType = true → arg.address = none → arg.data.length ≤ arg.type.byteSize
  pointer : param.isReferenceType = true → 8 ≤ slotBytes param
  slot : param.isReferenceType = false → arg.data.length ≤ slotBytes param

instance (param : Ty) (arg : TypedData) : Decidable (ArgumentFits param arg) :=
  decidable_of_iff
    ((param.isReferenceType = true → arg.address = none → arg.data.length ≤ arg.type.byteSize) ∧
      (param.isReferenceType = true → 8 ≤ slotBytes param) ∧
      (param.isReferenceType = false → arg.data.length ≤ slotBytes param))
    ⟨fun h => ⟨h.1, h.2.1, h.2.2⟩, fun h => ⟨h.copy, h.pointer, h.slot⟩⟩

def ArgumentsFit (params : List Ty) (args : List TypedData) : Prop :=
  ∀ pair ∈ params.zip args, ArgumentFits pair.1 pair.2

instance (params : List Ty) (args : List TypedData) : Decidable (ArgumentsFit params args) :=
  inferInstanceAs (Decidable (∀ pair ∈ params.zip args, ArgumentFits pair.1 pair.2))

/-- The room of the copy of an argument that is passed by reference, with its alignment. -/
def copyRoom (param : Ty) (arg : TypedData) : Nat :=
  if param.isReferenceType = true ∧ arg.address = none then
    arg.type.byteSize + (BitVec.ofNat 64 arg.type.alignment - 1).toNat
  else 0

def copiesRoom (params : List Ty) (args : List TypedData) : Nat :=
  ((params.zip args).map fun pair => copyRoom pair.1 pair.2).sum

/-- The room that all parameters would take on the stack. -/
def slotsRoom (params : List Ty) : Nat := (params.map slotBytes).sum

section Arguments

variable {env : Environment} {address : Word} {byte : Byte} {t : Tid} {sp : Word}
  {m m' : Machine} {room : Nat}

theorem and_add_and_not (x mask : Word) : (x &&& mask) + (x &&& ~~~mask) = x := by
  rw [BitVec.add_eq_or_of_and_eq_zero]
  · ext i hi
    simp only [BitVec.getElem_or, BitVec.getElem_and, BitVec.getElem_not]
    cases x[i] <;> cases mask[i] <;> rfl
  · ext i hi
    simp only [BitVec.getElem_and, BitVec.getElem_not, BitVec.getElem_zero]
    cases x[i] <;> cases mask[i] <;> rfl

/-- Clearing bits moves a stack pointer down by what they stand for at most. -/
theorem and_not_depth (sp mask : Word) (depth : Nat) :
    ∃ lower, depth ≤ lower ∧ lower ≤ depth + mask.toNat ∧
      (sp - BitVec.ofNat 64 depth) &&& ~~~mask = sp - BitVec.ofNat 64 lower := by
  refine ⟨depth + ((sp - BitVec.ofNat 64 depth) &&& mask).toNat, Nat.le_add_right _ _, ?_, ?_⟩
  · rw [BitVec.toNat_and]
    exact Nat.add_le_add_left Nat.and_le_right depth
  · rw [BitVec.ofNat_add, ← BitVec.sub_sub, BitVec.ofNat_toNat, BitVec.setWidth_eq]
    refine BitVec.eq_sub_iff_add_eq.mpr ?_
    rw [BitVec.add_comm]
    exact and_add_and_not _ mask

theorem passedArgument_depth (param : Ty) (arg : TypedData) (sp : Word) (depth : Nat) :
    ∃ lower, depth ≤ lower ∧ lower ≤ depth + copyRoom param arg ∧
      (passedArgument param arg (sp - BitVec.ofNat 64 depth)).2 = sp - BitVec.ofNat 64 lower := by
  unfold passedArgument copyRoom
  by_cases hcopied : param.isReferenceType = true ∧ arg.address = none
  · obtain ⟨lower, hlow, hhigh, hlower⟩ := and_not_depth sp
      (BitVec.ofNat 64 arg.type.alignment - 1) (depth + arg.type.byteSize)
    refine ⟨lower, by omega, ?_, ?_⟩
    · rw [if_pos hcopied]
      omega
    · rw [if_pos hcopied.1, if_pos hcopied.2, copyAddress, BitVec.sub_sub, ← BitVec.ofNat_add]
      exact hlower
  · refine ⟨depth, Nat.le_refl _, Nat.le_add_right _ _, ?_⟩
    split
    · rename_i href
      rw [if_neg fun hnone => hcopied ⟨href, hnone⟩]
    · rfl

theorem belowCopies_depth (params : List Ty) (args : List TypedData) (sp : Word) (depth : Nat) :
    ∃ lower, depth ≤ lower ∧ lower ≤ depth + copiesRoom params args ∧
      belowCopies params args (sp - BitVec.ofNat 64 depth) = sp - BitVec.ofNat 64 lower := by
  induction params generalizing args depth with
  | nil => exact ⟨depth, Nat.le_refl _, Nat.le_add_right _ _, rfl⟩
  | cons param params ih =>
      cases args with
      | nil => exact ⟨depth, Nat.le_refl _, Nat.le_add_right _ _, rfl⟩
      | cons arg args =>
          obtain ⟨middle, hlow, hhigh, hmiddle⟩ := passedArgument_depth param arg sp depth
          obtain ⟨lower, hlow', hhigh', hlower⟩ := ih args middle
          have hsum : copiesRoom (param :: params) (arg :: args) =
              copyRoom param arg + copiesRoom params args := by
            simp [copiesRoom]
          refine ⟨lower, by omega, by omega, ?_⟩
          rw [belowCopies, hmiddle, hlower]

/-- What is passed by reference is copied below the stack pointer. -/
theorem passReference_keeps {param : Ty} {arg : TypedData} (depth : Nat)
    (hfits : ArgumentFits param arg) (hroom : depth + copyRoom param arg ≤ room)
    (haddress : ¬ Beneath sp room address) :
    Keeps env address byte m (passReference param arg (sp - BitVec.ofNat 64 depth) m).2 := by
  refine related_bind (keeps_of_state (Respects.ofExcept _) m) fun _ m₁ hclasses => ?_
  obtain rfl : m = m₁ := congrArg Prod.snd hclasses
  split
  swap
  · exact refl_of _ m
  rename_i href
  cases hplace : arg.address with
  | some place => exact refl_of _ m
  | none =>
      have hcopy : copyRoom param arg = _ := if_pos ⟨href, hplace⟩
      obtain ⟨lower, hlow, hhigh, hlower⟩ := and_not_depth sp
        (BitVec.ofNat 64 arg.type.alignment - 1) (depth + arg.type.byteSize)
      have hlength := hfits.copy href hplace
      refine related_bind (writeMemory_keeps m fun _ => ?_) fun _ m₁ _ => refl_of _ m₁
      rw [BitVec.sub_sub, ← BitVec.ofNat_add, hlower]
      exact not_beneath haddress (by omega) (by omega)

theorem passReferences_keeps {params : List Ty} {args : List TypedData} (depth : Nat)
    (hfits : ArgumentsFit params args) (hroom : depth + copiesRoom params args ≤ room)
    (haddress : ¬ Beneath sp room address) :
    Keeps env address byte m (passReferences params args (sp - BitVec.ofNat 64 depth) m).2 := by
  induction params generalizing args depth m with
  | nil => exact refl_of _ m
  | cons param params ih =>
      cases args with
      | nil => exact refl_of _ m
      | cons arg args =>
          have hsum : copiesRoom (param :: params) (arg :: args) =
              copyRoom param arg + copiesRoom params args := by
            simp [copiesRoom]
          have hfirst : ArgumentFits param arg := hfits (param, arg) List.mem_cons_self
          have hrest : ArgumentsFit params args := fun pair hpair =>
            hfits pair (List.mem_cons_of_mem _ hpair)
          refine related_bind (passReference_keeps depth hfirst (by omega) haddress)
            fun passed m₁ hpassed => ?_
          obtain ⟨first, rsp⟩ := passed
          obtain ⟨middle, hlow, hhigh, hmiddle⟩ := passedArgument_depth param arg sp depth
          obtain rfl : rsp = sp - BitVec.ofNat 64 middle := by
            rw [← hmiddle, ← (passReference_eq_ok hpassed).1]
          exact related_bind (ih middle hrest (by omega)) fun _ m₂ _ => refl_of _ m₂

/-- The arguments that are set apart take no more room than all would. -/
theorem slotsLength_le (params : List Ty) (args : List TypedData)
    (placements : List (Placement RegisterId)) :
    slotsLength (stackParameters params args placements) ≤ slotsRoom params := by
  induction params generalizing args placements with
  | nil => exact Nat.le_refl _
  | cons param params ih =>
      have hsum : slotsRoom (param :: params) = slotBytes param + slotsRoom params := rfl
      cases args with
      | nil => exact Nat.zero_le _
      | cons arg args =>
          cases placements with
          | nil => exact Nat.zero_le _
          | cons placement placements =>
              have hrest := ih args placements
              rw [hsum]
              cases placement with
              | apart => exact Nat.add_le_add_left hrest _
              | among taken => exact Nat.le_trans hrest (Nat.le_add_left _ _)

/-- What is passed for the arguments fits into the slots. -/
theorem dataFit_passedArguments {params : List Ty} {args : List TypedData}
    (h : ArgumentsFit params args) (rsp : Word) (placements : List (Placement RegisterId)) :
    DataFit (stackParameters params (passedArguments params args rsp) placements) := by
  induction params generalizing args rsp placements with
  | nil => exact fun _ hmem => by cases hmem
  | cons param params ih =>
      cases args with
      | nil => exact fun _ hmem => by cases hmem
      | cons arg args =>
          have hfirst : ArgumentFits param arg := h (param, arg) List.mem_cons_self
          have hrest : ArgumentsFit params args := fun pair hpair =>
            h pair (List.mem_cons_of_mem _ hpair)
          cases placements with
          | nil => exact fun _ hmem => by cases hmem
          | cons placement placements =>
              cases placement with
              | among taken => exact ih hrest _ placements
              | apart =>
                  intro argument hargument
                  rcases List.mem_cons.mp hargument with rfl | hlater
                  · change (passedArgument param arg rsp).1.data.length ≤ slotBytes param
                    unfold passedArgument
                    split
                    · rename_i href
                      exact (Nat.le_of_eq (toLe_length _ _)).trans (hfirst.pointer href)
                    · rename_i href
                      exact hfirst.slot (Bool.eq_false_iff.mpr href)
                  · exact ih hrest _ placements argument hlater

/-- The arguments on the stack are written into their slots, from some depth upwards. -/
theorem writeStackArgs_keeps {params : List Ty} {args : List TypedData}
    {placements : List (Placement RegisterId)} (depth : Nat)
    (hfits : DataFit (stackParameters params args placements))
    (hslots : slotsLength (stackParameters params args placements) ≤ depth) (hroom : depth ≤ room)
    (haddress : ¬ Beneath sp room address) :
    Keeps env address byte m (writeStackArgs (sp - BitVec.ofNat 64 depth)
      (stackArguments params args placements) m).2 := by
  induction params generalizing args placements depth m with
  | nil => exact refl_of _ m
  | cons param params ih =>
      cases args with
      | nil => exact refl_of _ m
      | cons arg args =>
          cases placements with
          | nil => exact refl_of _ m
          | cons placement placements =>
              cases placement with
              | among taken => exact ih depth hfits hslots hroom
              | apart =>
                  have hlength : arg.data.length ≤ slotBytes param :=
                    hfits (param, arg.data) List.mem_cons_self
                  change slotBytes param + slotsLength (stackParameters params args placements) ≤
                    depth at hslots
                  refine related_bind (writeMemory_keeps m fun _ =>
                    not_beneath haddress (by omega) hroom) fun _ m₁ _ => ?_
                  have hnext : sp - BitVec.ofNat 64 depth + slotSize param =
                      sp - BitVec.ofNat 64 (depth - slotBytes param) := by
                    have hsplit : depth = depth - slotBytes param + slotBytes param := by omega
                    rw [slotSize_eq, hsplit, BitVec.ofNat_add, ← BitVec.sub_sub,
                      BitVec.sub_add_cancel, Nat.add_sub_cancel]
                  rw [hnext]
                  exact ih (depth - slotBytes param)
                    (fun argument hmem => hfits argument (List.mem_cons_of_mem _ hmem)) (by omega)
                    (by omega)

/-- The stack pointer of the call, below the slots. -/
theorem argumentBase_depth (params : List Ty) (args : List TypedData)
    (placements : List (Placement RegisterId)) (sp : Word) (depth : Nat) :
    ∃ lower, depth + slotsLength (stackParameters params args placements) ≤ lower ∧
      lower ≤ depth + slotsRoom params + 15 ∧
      argumentBase (stackArguments params args placements) (sp - BitVec.ofNat 64 depth) =
        sp - BitVec.ofNat 64 lower := by
  have hslots := slotsLength_le params args placements
  obtain ⟨lower, hlow, hhigh, hlower⟩ := and_not_depth sp 0xf
    (depth + slotsLength (stackParameters params args placements))
  refine ⟨lower, hlow, ?_, ?_⟩
  · change lower ≤ _ + 15 at hhigh
    omega
  · rw [argumentBase, foldl_slotSize, BitVec.sub_sub, ← BitVec.ofNat_add]
    exact hlower

/-- The room of the arguments of a call, from the copies to the alignment of the stack. -/
def argumentsRoom (func : Function) (args : List TypedData) : Nat :=
  copiesRoom func.parameterTypes args + slotsRoom func.parameterTypes + 15

theorem setupArguments_keeps {func : Function} {args : List TypedData}
    {returnSlot : Option Word} (depth : Nat) (hsp : StackIs t (sp - BitVec.ofNat 64 depth) m)
    (hfits : ArgumentsFit func.parameterTypes args)
    (hroom : depth + argumentsRoom func args ≤ room) (haddress : ¬ Beneath sp room address) :
    Keeps env address byte m (setupArguments t func args returnSlot m).2 := by
  rw [argumentsRoom] at hroom
  refine related_bind (refl_of _ m) fun regs m₁ hregs => ?_
  obtain ⟨rfl, thread, hthread, rfl⟩ := regsAt_eq_ok hregs
  refine related_bind (keeps_of_state (Respects.ofExcept _) m₁) fun rsp m₂ hrsp => ?_
  obtain ⟨hread, rfl⟩ := Prod.mk.inj hrsp
  have hoffset : (gpr64 .rsp "rsp" 7 152).offset = 152 := rfl
  obtain rfl : rsp = sp - BitVec.ofNat 64 depth := by
    rw [readU64_eq_ok rsp_info rfl rfl hread, hoffset]
    exact hsp thread hthread
  have hcommit : ∀ id val, Respects (Keeps env address byte) (commitRegister t id val) :=
    commitRegister_keepsByte t
  refine related_bind (passReturnSlot_respects hcommit _ _ m₁) fun k m₃ hslot => ?_
  obtain ⟨hk, -, -⟩ := passReturnSlot_eq_ok hslot
  refine related_bind (passReferences_keeps depth hfits (by omega) haddress)
    fun passed m₄ hpassed => ?_
  obtain ⟨passed, below⟩ := passed
  obtain ⟨rfl, rfl, -⟩ := passReferences_eq_ok hpassed
  refine related_bind (placeArguments_respects hcommit _ _ _ m₄) fun st m₅ hplaced => ?_
  obtain ⟨placements, left, -, -, hargs, -⟩ :=
    placeArguments_eq_ok (argumentPools_counters func.returnType hk) hplaced
  rw [List.nil_append] at hargs
  obtain ⟨middle, hlow, hhigh, hmiddle⟩ :=
    belowCopies_depth func.parameterTypes args sp depth
  obtain ⟨lower, hlow', hhigh', hlower⟩ := argumentBase_depth func.parameterTypes
    (passedArguments func.parameterTypes args (sp - BitVec.ofNat 64 depth)) placements sp middle
  rw [argumentBase] at hlower
  rw [hargs, hmiddle, hlower]
  refine related_bind (writeStackArgs_keeps lower (dataFit_passedArguments hfits _ _) (by omega)
    (by omega) haddress) fun _ m₆ _ => ?_
  exact related_bind (hcommit _ _ m₆) fun _ m₇ _ => hcommit _ _ m₇

/-- Once the arguments are set up, the stack pointer is above the return address. -/
theorem setupArguments_depth {func : Function} {args : List TypedData} {returnSlot : Option Word}
    {u : PUnit} (depth : Nat) (hsp : StackIs t (sp - BitVec.ofNat 64 depth) m)
    (h : setupArguments t func args returnSlot m = (.ok u, m')) :
    ∃ lower, lower ≤ depth + argumentsRoom func args ∧
      StackIs t (sp - BitVec.ofNat 64 lower) m' := by
  obtain ⟨rsp, placements, left, ⟨thread, hthread, hread⟩, hpassed⟩ := setupArguments_eq_ok h
  have hoffset : (gpr64 .rsp "rsp" 7 152).offset = 152 := rfl
  obtain rfl : rsp = sp - BitVec.ofNat 64 depth := by
    rw [readU64_eq_ok rsp_info rfl rfl hread, hoffset]
    exact hsp thread hthread
  obtain ⟨middle, hlow, hhigh, hmiddle⟩ :=
    belowCopies_depth func.parameterTypes args sp depth
  obtain ⟨lower, hlow', hhigh', hlower⟩ := argumentBase_depth func.parameterTypes
    (passedArguments func.parameterTypes args (sp - BitVec.ofNat 64 depth)) placements sp middle
  refine ⟨lower, ?_, ?_⟩
  · rw [argumentsRoom]
    omega
  · have hstack := hpassed.stackPointer.stackIs
    rwa [hmiddle, hlower] at hstack

end Arguments

end Gsdb
