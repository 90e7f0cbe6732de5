/-
The arguments of a call, as `setup_arguments` passes them: which registers each may
take, what is passed for a reference, and where on the stack the others are written.
The functions here are of the parameters, the arguments and the stack pointer alone.
-/
import Gsdb.CallRegisters
import Gsdb.MemoryWrites
import Gsdb.PoolAllocation

namespace Gsdb

open ByteMemory Effects Eff Debugger PoolAllocation

/-- The class of an eightbyte; there are only two of them. -/
def ParameterClasses.eightbyte (classes : ParameterClasses) : Nat → ParameterClass
  | 0 => classes.first
  | 1 => classes.second
  | _ => .noClass

/-- The eightbytes of a list that have a class, with their indices. -/
def ParameterClasses.eightbytes (classes : ParameterClasses) (indices : List Nat) :
    List (ParameterClass × Nat) :=
  (indices.map fun index => (classes.eightbyte index, index)).filter fun pair =>
    pair.1 ≠ .noClass

/-- The classes of a parameter, where they can be computed. -/
def Ty.classes (param : Ty) : ParameterClasses := param.getParameterClasses.toOption.getD .none

/-- The eightbytes of a parameter that have a class. -/
def Ty.eightbytes (param : Ty) : List (ParameterClass × Nat) :=
  param.classes.eightbytes (List.range ((param.byteSize + 7) / 8))

/-- A parameter reserves a register for each INTEGER and SSE class, and takes one for
each eightbyte that has a class. -/
def Ty.demand (param : Ty) : Demand ParameterClass where
  reserved := [param.classes.first, param.classes.second].filter fun cls =>
    cls = .integer ∨ cls = .sse
  taken := param.eightbytes.map (·.1)

/-- A result in memory takes the first register. -/
def returnsInMemory (returnType : Option Ty) : Bool :=
  returnType.any fun ty => ty.classes.first = .memory

/-- The registers for the arguments of a function, by class. -/
def argumentPools (returnType : Option Ty) : Pools ParameterClass RegisterId
  | .integer => if returnsInMemory returnType then intRegs.drop 1 else intRegs
  | .sse => sseRegs
  | _ => []

/-- An eightbyte of an argument. -/
def eightbyteOf (data : List Byte) (index : Nat) : List Byte := (data.drop (8 * index)).take 8

/-- Where the copy of an argument that is passed by reference is put. -/
def copyAddress (arg : TypedData) (rsp : Word) : Word :=
  (rsp - BitVec.ofNat 64 arg.type.byteSize) &&& ~~~(BitVec.ofNat 64 arg.type.alignment - 1)

/-- What is passed for an argument, and the stack pointer after it. -/
def passedArgument (param : Ty) (arg : TypedData) (rsp : Word) : TypedData × Word :=
  if param.isReferenceType then
    (⟨toLe 8 (arg.address.getD (copyAddress arg rsp)).toNat, .builtin .integer, none⟩,
      if arg.address = none then copyAddress arg rsp else rsp)
  else (arg, rsp)

/-- What is passed for the arguments. -/
def passedArguments : List Ty → List TypedData → Word → List TypedData
  | param :: params, arg :: args, rsp =>
      (passedArgument param arg rsp).1 ::
        passedArguments params args (passedArgument param arg rsp).2
  | _, args, _ => args

/-- The copies of the arguments that are passed by reference, in order: their addresses
and data. -/
def argumentCopies : List Ty → List TypedData → Word → List (Word × List Byte)
  | param :: params, arg :: args, rsp =>
      (if param.isReferenceType ∧ arg.address = none then [(copyAddress arg rsp, arg.data)]
        else []) ++ argumentCopies params args (passedArgument param arg rsp).2
  | _, _, _ => []

/-- The stack pointer below the copies. -/
def belowCopies : List Ty → List TypedData → Word → Word
  | param :: params, arg :: args, rsp => belowCopies params args (passedArgument param arg rsp).2
  | _, _, rsp => rsp

/-- The room of an argument on the stack. -/
def slotSize (param : Ty) : Word := (BitVec.ofNat 64 param.byteSize + 7) &&& ~~~7

/-- The arguments that are set apart, with their room on the stack. -/
def stackArguments :
    List Ty → List TypedData → List (Placement RegisterId) → List (TypedData × Word)
  | param :: params, arg :: args, .apart :: placements =>
      (arg, slotSize param) :: stackArguments params args placements
  | _ :: params, _ :: args, .among _ :: placements => stackArguments params args placements
  | _, _, _ => []

/-- The stack pointer that the function is called with, but for the return address. -/
def argumentBase (stackArgs : List (TypedData × Word)) (rsp : Word) : Word :=
  stackArgs.foldl (fun rsp arg => rsp - arg.2) rsp &&& ~~~0xf

/-- Where the arguments on the stack are written, from an address upwards. -/
def slotWrites : Word → List (TypedData × Word) → List (Word × List Byte)
  | _, [] => []
  | start, (arg, size) :: rest => (start, arg.data) :: slotWrites (start + size) rest

/-- Memory after writes, one after the other. -/
def writeEach (memory : Memory 64) (writes : List (Word × List Byte)) : Memory 64 :=
  writes.foldl (fun memory write => memory.write write.1 write.2) memory

section References

variable {t : Tid} {m m' : Machine} {u : PUnit}

theorem writeEach_append (memory : Memory 64) (first second : List (Word × List Byte)) :
    writeEach memory (first ++ second) = writeEach (writeEach memory first) second :=
  List.foldl_append

theorem passReference_eq_ok {param : Ty} {arg passed : TypedData} {rsp rsp' : Word}
    (h : passReference param arg rsp m = (.ok (passed, rsp'), m')) :
    (passed, rsp') = passedArgument param arg rsp ∧
      (arg.data.length ≤ 2 ^ 64 → m'.kernel.memory =
        writeEach m.kernel.memory (argumentCopies [param] [arg] rsp)) := by
  obtain ⟨classes, m₁, hclasses, hrest⟩ := Eff.bind_eq_ok.mp h
  obtain rfl : m = m₁ := congrArg Prod.snd hclasses
  unfold passedArgument argumentCopies
  by_cases href : param.isReferenceType = true
  swap
  · rw [if_neg href] at hrest
    cases hrest
    simp [href, argumentCopies, writeEach]
  rw [if_pos href] at hrest
  cases haddress : arg.address with
  | some address =>
      rw [haddress] at hrest
      cases hrest
      simp [href, argumentCopies, writeEach]
  | none =>
      rw [haddress] at hrest
      obtain ⟨_, m₂, hwrite, hend⟩ := Eff.bind_eq_ok.mp hrest
      cases hend
      refine ⟨by simp [href, copyAddress], fun hfits => ?_⟩
      obtain ⟨rfl, -⟩ := writeMemory_eq_ok hfits hwrite
      simp [href, argumentCopies, writeEach, copyAddress, Machine.setMemory]

/-- The first loop of `setup_arguments` passes the arguments and writes the copies. -/
theorem passReferences_eq_ok {params : List Ty} {args passed : List TypedData} {rsp rsp' : Word}
    (h : passReferences params args rsp m = (.ok (passed, rsp'), m')) :
    passed = passedArguments params args rsp ∧ rsp' = belowCopies params args rsp ∧
      ((∀ arg ∈ args, arg.data.length ≤ 2 ^ 64) → m'.kernel.memory =
        writeEach m.kernel.memory (argumentCopies params args rsp)) := by
  induction params generalizing args passed rsp rsp' m with
  | nil =>
      cases h
      cases args with
      | nil => exact ⟨rfl, rfl, fun _ => rfl⟩
      | cons arg args => exact ⟨rfl, rfl, fun _ => rfl⟩
  | cons param params ih =>
      cases args with
      | nil => cases h
      | cons arg args =>
          obtain ⟨⟨first, middle⟩, m₁, hfirst, hrest⟩ := Eff.bind_eq_ok.mp h
          obtain ⟨⟨later, last⟩, m₂, hlater, hend⟩ := Eff.bind_eq_ok.mp hrest
          cases hend
          obtain ⟨hpassed, hmemory⟩ := passReference_eq_ok hfirst
          obtain ⟨rfl, rfl, hlaterMemory⟩ := ih hlater
          have hone : (passedArgument param arg rsp).1 = first := by rw [← hpassed]
          have hrsp : (passedArgument param arg rsp).2 = middle := by rw [← hpassed]
          refine ⟨by rw [passedArguments, hone, hrsp], by rw [belowCopies, hrsp], fun hfits => ?_⟩
          rw [hlaterMemory fun a ha => hfits a (List.mem_cons_of_mem _ ha),
            hmemory (hfits arg List.mem_cons_self), ← writeEach_append]
          congr 1
          simp only [argumentCopies, List.append_nil]
          rw [hrsp]

theorem writeStackArgs_eq_ok {start : Word} {stackArgs : List (TypedData × Word)}
    (h : writeStackArgs start stackArgs m = (.ok u, m'))
    (hfits : ∀ arg ∈ stackArgs, arg.1.data.length ≤ 2 ^ 64) :
    m'.kernel.memory = writeEach m.kernel.memory (slotWrites start stackArgs) := by
  induction stackArgs generalizing start m with
  | nil =>
      cases h
      rfl
  | cons arg rest ih =>
      obtain ⟨_, m₁, hfirst, hrest⟩ := Eff.bind_eq_ok.mp h
      obtain ⟨rfl, -⟩ := writeMemory_eq_ok (hfits arg List.mem_cons_self) hfirst
      exact ih hrest fun a ha => hfits a (List.mem_cons_of_mem _ ha)

end References

end Gsdb
