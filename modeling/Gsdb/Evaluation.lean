/-
Evaluating an expression that calls a function of the inferior: the arguments
are parsed and collected, an overload is chosen, storage for the result is
allocated by a call of `malloc`, the arguments are placed in registers and on
the stack, and the function is called.
-/
import Gsdb.InferiorCall
import Gsdb.Integers
import Gsdb.ReturnValue

namespace Gsdb

open ByteMemory Effects Eff Debugger

/-- `std::string::npos`. -/
def npos : Nat := 2 ^ 64 - 1

/-- `find(c, pos)`. -/
def findFrom (text : Text) (c : Char) (pos : Nat) : Nat :=
  match (text.drop pos).findIdx? (· = charByte c) with
  | some i => pos + i
  | none => npos

def isDigit (byte : Byte) : Bool := charByte '0' ≤ byte ∧ byte ≤ charByte '9'

/-- `to_integral<std::int64_t>` in base ten. -/
def toInt64 (text : Text) : Option Word := (toIntegral ⟨true, 64⟩ text 10).map (BitVec.ofInt 64)

/-- What is asked of the DIE of a function: the types of its parameters and of
its result, the address it has itself or by its out-of-line definition, and
the type of its object pointer. -/
structure Function where
  parameterTypes : List Ty
  returnType : Option Ty
  ownAddress : Option Word
  definitionAddress : Option Word
  objectPointerType : Option Ty

/-- `resolve_indirect_name_result`. -/
structure Resolution where
  object : Option TypedData
  funcs : List Function

/-- What the evaluation takes from the symbols and debug information of the
inferior, none of which it changes: name lookup at a program counter, the
address of `malloc`, the entry point, comparison of types, and reading a
floating point literal. -/
structure Environment where
  handlers : HitHandlers
  resolveIndirectName : Machine → Text → Word → Except Failure Resolution
  mallocAddress : Machine → Option Word
  entryPoint : Word
  sameType : ValueType → ValueType → Except Failure Bool
  toDouble : Text → Option Word

/-- The class at an index of the two-element array. -/
def ParameterClasses.atIndex (classes : ParameterClasses) : Nat → Except Failure ParameterClass
  | 0 => .ok classes.first
  | 1 => .ok classes.second
  | _ => .error (.undefined "parameter class out of range")

def ParameterClasses.count (classes : ParameterClasses) (cls : ParameterClass) : Nat :=
  (if classes.first = cls then 1 else 0) + (if classes.second = cls then 1 else 0)

namespace Debugger

/-- `breakpoints_.get_by_address(address).install_hit_handler`, with a handler
that stops. -/
def installStopHandler (address : Word) : Debugger PUnit := do
  let m ← get
  let index ← ofExcept (m.process.breakpoints.getByAddress address)
  modifyProcess fun p => { p with
    breakpoints := p.breakpoints.modify index fun point => { point with onHit := some .stop } }

/-- The call of `malloc` on a thread, after the lookup of the function. -/
def mallocCall (env : Environment) (size : Nat) (callAddr : Word) (saved : Registers)
    (tid : Tid) : Debugger Word := do
  installStopHandler env.entryPoint
  commitRegister tid .rdi (.u64 (BitVec.ofNat 64 size))
  let newRegs ← inferiorCall env.handlers callAddr env.entryPoint saved none
  ofExcept (newRegs.readU64 .rax)

/-- `target::inferior_malloc`: a call on the current thread. -/
def inferiorMalloc (env : Environment) (size : Nat) : Debugger Word := do
  let m ← get
  let tid := m.process.currentThread
  let saved ← threadAt tid
  match env.mallocAddress m with
  | none => fail "malloc not found!"
  | some callAddr => mallocCall env size callAddr saved.regs tid

/-- `parse_argument`. -/
def parseArgument (env : Environment) (tid : Tid) (arg : Text) : Debugger TypedData :=
  if arg = [] then fail "Empty argument!"
  else if 2 < arg.length ∧ arg.head? = some (charByte '"') ∧
      arg.getLast? = some (charByte '"') then do
    let ptr ← inferiorMalloc env (arg.length - 1)
    writeMemory ptr ((arg.drop 1).take (arg.length - 2) ++ [0])
    pure ⟨toLe 8 ptr.toNat, .builtin .string, none⟩
  else if arg = ascii "true" ∨ arg = ascii "false" then
    pure ⟨[if arg = ascii "true" then 1 else 0], .builtin .boolean, none⟩
  else if arg.head? = some (charByte '\'') then
    match arg with
    | [_, c, quote] =>
        if quote = charByte '\'' then pure ⟨[c], .builtin .character, none⟩
        else fail "Invalid character literal!"
    | _ => fail "Invalid character literal!"
  else if arg.head? = some (charByte '-') ∨ (arg.head?.any isDigit) then
    if charByte '.' ∈ arg then
      match env.toDouble arg with
      | none => fail "Invalid floating point literal!"
      | some value => pure ⟨toLe 8 value.toNat, .builtin .floatingPoint, none⟩
    else
      match toInt64 arg with
      | none => fail "Invalid integer literal!"
      | some value => pure ⟨toLe 8 value.toNat, .builtin .integer, none⟩
  else do
    let pc ← getPc tid
    let m ← get
    let res ← ofExcept (env.resolveIndirectName m arg pc)
    if !res.funcs.isEmpty then fail "Nested function calls not supported!"
    else
      match res.object with
      | none => fail "Unable to resolve variable!"
      | some object => pure object

/-- The loop of `collect_arguments` over the text from `argsStart` on.  Without
a closing parenthesis the position wraps around to zero, where the name lookup
refuses the opening one; the loop runs once for every comma and twice more. -/
def collectFrom (env : Environment) (tid : Tid) (argString : Text) (argsEnd : Nat) :
    Nat → Nat → Debugger (List TypedData)
  | 0, _ => throw (.undefined "endless loop")
  | rounds + 1, argsStart =>
      if argsStart < argsEnd then do
        let found := findFrom argString ',' argsStart
        let commaPos := if found = npos then argsEnd else found
        if argString.length < argsStart then throw (.exception "out_of_range")
        else do
          let argExpr := (argString.drop argsStart).take (commaPos - argsStart)
          let arg ← parseArgument env tid argExpr
          let args ← collectFrom env tid argString argsEnd rounds ((commaPos + 1) % 2 ^ 64)
          pure (arg :: args)
      else pure []

/-- The data of the implicit object argument.  An object that has no address is
spilled to the stack. -/
def objectData (tid : Tid) (object : TypedData) : Debugger (List Byte) :=
  match object.address with
  | some address => pure (toLe 8 address.toNat)
  | none => do
      let rsp ← readRegister tid .rsp
      let size := BitVec.ofNat 64 object.type.byteSize
      writeMemory (rsp - size) object.data
      writeRegister tid .rsp (.u64 (rsp - size)) true
      modify (Machine.observe (.spilled tid size))
      pure (toLe 8 (rsp - size).toNat)

/-- The type of `funcs[0][DW_AT_object_pointer]`. -/
def thisType : List Function → Except Failure Ty
  | [] => .error (.undefined "no function")
  | func :: _ =>
      match func.objectPointerType with
      | some ty => .ok ty
      | none => .error (.error "Attribute not found!")

/-- The implicit object argument of `collect_arguments`. -/
def objectArgument (tid : Tid) (funcs : List Function) :
    Option TypedData → Debugger (List TypedData)
  | none => pure []
  | some object => do
      let data ← objectData tid object
      let ty ← ofExcept (thisType funcs)
      pure [⟨data, .dwarf ty, none⟩]

/-- The explicit arguments of `collect_arguments`. -/
def explicitArguments (env : Environment) (tid : Tid) (argString : Text) :
    Debugger (List TypedData) :=
  collectFrom env tid argString (findFrom argString ')' 0) (argString.length + 2) 1

/-- `collect_arguments`. -/
def collectArguments (env : Environment) (tid : Tid) (argString : Text)
    (funcs : List Function) (object : Option TypedData) : Debugger (List TypedData) := do
  let implicit ← objectArgument tid funcs object
  let explicit ← explicitArguments env tid argString
  pure (implicit ++ explicit)

/-- Whether the types of all arguments are those of the parameters, up to the
first that is not. -/
def typesMatch (env : Environment) : List Ty → List TypedData → Except Failure Bool
  | param :: params, arg :: args => do
      if ← env.sameType (.dwarf param) arg.type then typesMatch env params args
      else .ok false
  | _, _ => .ok true

/-- The loop of `resolve_overload`. -/
def matchOverload (env : Environment) (args : List TypedData) :
    List Function → Option Function → Except Failure (Option Function)
  | [], matching => .ok matching
  | func :: rest, matching => do
      let isMatch ←
        if args.length = func.parameterTypes.length then
          typesMatch env func.parameterTypes args
        else .ok false
      if isMatch then
        if matching.isSome then .error (.error "Ambiguous function call!")
        else matchOverload env args rest (some func)
      else matchOverload env args rest matching

/-- `resolve_overload`. -/
def resolveOverload (env : Environment) (funcs : List Function) (args : List TypedData) :
    Except Failure Function := do
  match ← matchOverload env args funcs none with
  | some func => .ok func
  | none => .error (.error "No matching function!")

def intRegs : List RegisterId := [.rdi, .rsi, .rdx, .rcx, .r8, .r9]

def sseRegs : List RegisterId := [.xmm0, .xmm1, .xmm2, .xmm3, .xmm4, .xmm5, .xmm6, .xmm7]

/-- The variables of `setup_arguments`: how many registers are taken, and the
arguments that go on the stack with the room they take there. -/
structure ArgumentState where
  currentIntReg : Nat
  currentSseReg : Nat
  stackArgs : List (TypedData × Word)

/-- The hidden argument of a function that returns its result in memory. -/
def passReturnSlot (tid : Tid) (returnType : Option Ty) (returnSlot : Option Word) :
    Debugger Nat :=
  match returnType with
  | none => pure 0
  | some ty => do
      let classes ← ofExcept ty.getParameterClasses
      if classes.first = .memory then
        match returnSlot with
        | none => fail "Empty return slot!"
        | some slot => do
            commitRegister tid .rdi (.u64 slot)
            pure 1
      else pure 0

/-- One argument of the first loop of `setup_arguments`: what is passed by
reference becomes a pointer, to a copy on the stack if need be. -/
def passReference (param : Ty) (arg : TypedData) (rsp : Word) :
    Debugger (TypedData × Word) := do
  let _ ← ofExcept param.getParameterClasses
  if param.isReferenceType then
    match arg.address with
    | some address => pure (⟨toLe 8 address.toNat, .builtin .integer, none⟩, rsp)
    | none => do
        let rsp := (rsp - BitVec.ofNat 64 arg.type.byteSize) &&&
          ~~~(BitVec.ofNat 64 arg.type.alignment - 1)
        writeMemory rsp arg.data
        pure (⟨toLe 8 rsp.toNat, .builtin .integer, none⟩, rsp)
  else pure (arg, rsp)

def passReferences : List Ty → List TypedData → Word → Debugger (List TypedData × Word)
  | [], args, rsp => pure (args, rsp)
  | _ :: _, [], _ => throw (.undefined "no argument for a parameter")
  | param :: params, arg :: args, rsp => do
      let (arg, rsp) ← passReference param arg rsp
      let (args, rsp) ← passReferences params args rsp
      pure (arg :: args, rsp)

/-- An eightbyte of an argument, filled up with zeros. -/
def eightbyteAt (data : List Byte) (index : Nat) : Value :=
  .byte64 (BitVec.ofNat 64 (ofLe ((data.drop (8 * index)).take 8)))

/-- One eightbyte of an argument that is passed in registers. -/
def placeEightbyte (tid : Tid) (classes : ParameterClasses) (data : List Byte) (index : Nat)
    (st : ArgumentState) : Debugger ArgumentState := do
  match ← ofExcept (classes.atIndex index) with
  | .integer => do
      let reg ← ofExcept (inBounds intRegs[st.currentIntReg]?)
      commitRegister tid reg (eightbyteAt data index)
      pure { st with currentIntReg := st.currentIntReg + 1 }
  | .sse => do
      let reg ← ofExcept (inBounds sseRegs[st.currentSseReg]?)
      commitRegister tid reg (eightbyteAt data index)
      pure { st with currentSseReg := st.currentSseReg + 1 }
  | .noClass => pure st
  | _ => fail "Unsupported parameter class!"

def placeEightbytes (tid : Tid) (classes : ParameterClasses) (data : List Byte) :
    List Nat → ArgumentState → Debugger ArgumentState
  | [], st => pure st
  | index :: rest, st => do
      let st ← placeEightbyte tid classes data index st
      placeEightbytes tid classes data rest st

/-- One argument of the second loop of `setup_arguments`: it goes on the stack
if it needs no registers or more than there are left. -/
def placeArgument (tid : Tid) (param : Ty) (arg : TypedData) (st : ArgumentState) :
    Debugger ArgumentState := do
  let classes ← ofExcept param.getParameterClasses
  let requiredIntRegs := classes.count .integer
  let requiredSseRegs := classes.count .sse
  if intRegs.length < st.currentIntReg + requiredIntRegs ∨
      sseRegs.length < st.currentSseReg + requiredSseRegs ∨
      (requiredIntRegs = 0 ∧ requiredSseRegs = 0) then
    let size := (BitVec.ofNat 64 param.byteSize + 7) &&& ~~~7
    pure { st with stackArgs := st.stackArgs ++ [(arg, size)] }
  else
    placeEightbytes tid classes arg.data (List.range ((param.byteSize + 7) / 8)) st

def placeArguments (tid : Tid) :
    List Ty → List TypedData → ArgumentState → Debugger ArgumentState
  | [], _, st => pure st
  | _ :: _, [], _ => throw (.undefined "no argument for a parameter")
  | param :: params, arg :: args, st => do
      let st ← placeArgument tid param arg st
      placeArguments tid params args st

/-- Write the arguments on the stack, one after the other. -/
def writeStackArgs : Word → List (TypedData × Word) → Debugger PUnit
  | _, [] => pure ⟨⟩
  | startPos, (arg, size) :: rest => do
      writeMemory startPos arg.data
      writeStackArgs (startPos + size) rest

/-- `setup_arguments`.  The registers are a reference that was taken before. -/
def setupArguments (tid : Tid) (func : Function) (args : List TypedData)
    (returnSlot : Option Word) : Debugger PUnit := do
  let regs ← regsAt tid
  let rsp ← ofExcept (regs.readU64 .rsp)
  let currentIntReg ← passReturnSlot tid func.returnType returnSlot
  let (args, rsp) ← passReferences func.parameterTypes args rsp
  let st ← placeArguments tid func.parameterTypes args ⟨currentIntReg, 0, []⟩
  let rsp := (st.stackArgs.foldl (fun rsp arg => rsp - arg.2) rsp) &&& ~~~0xf
  writeStackArgs rsp st.stackArgs
  commitRegister tid .rax (.u64 (BitVec.ofNat 64 st.currentSseReg))
  commitRegister tid .rsp (.u64 rsp)

/-- Where the function starts. -/
def callAddress (func : Function) : Except Failure Word :=
  match func.ownAddress, func.definitionAddress with
  | some address, _ => .ok address
  | none, some address => .ok address
  | none, none => .error (.error "No function definition found!")

/-- Storage for the result, where there is one. -/
def allocateResult (env : Environment) : Option Ty → Debugger (Option Word)
  | none => pure none
  | some ty => do
      let slot ← inferiorMalloc env ty.byteSize
      pure (some slot)

/-- The result, where there is one. -/
def readResult (newRegs : Registers) :
    Option Ty → Option Word → Debugger (Option TypedData)
  | some ty, some slot => do
      let value ← readReturnValue ty slot newRegs
      pure (some value)
  | _, _ => pure none

/-- Set up the arguments, call the function and read its result. -/
def performCall (env : Environment) (func : Function) (args : List TypedData)
    (callAddr returnAddr : Word) (saved : Registers) (tid : Tid) (returnSlot : Option Word) :
    Debugger (Option TypedData) := do
  setupArguments tid func args returnSlot
  let newRegs ← inferiorCall env.handlers callAddr returnAddr saved (some tid)
  readResult newRegs func.returnType returnSlot

/-- `inferior_call_from_dwarf`. -/
def inferiorCallFromDwarf (env : Environment) (func : Function) (args : List TypedData)
    (returnAddr : Word) (tid : Tid) : Debugger (Option TypedData) := do
  let saved ← threadAt tid
  let callAddr ← ofExcept (callAddress func)
  let returnSlot ← allocateResult env func.returnType
  performCall env func args callAddr returnAddr saved.regs tid returnSlot

/-- The name in front of the parenthesis and what it stands for, with the text
from the parenthesis on. -/
def resolveCall (env : Environment) (tid : Tid) (expr : Text) :
    Debugger (Resolution × Text) := do
  let pc ← getPc tid
  let parenPos := findFrom expr '(' 0
  if parenPos = npos then fail "Invalid expression!"
  else do
    let m ← get
    let res ← ofExcept (env.resolveIndirectName m (expr.take (parenPos + 1)) pc)
    if res.funcs.isEmpty then fail "Invalid expression!"
    else pure (res, expr.drop parenPos)

/-- Keep the result; its number is its position among the results. -/
def recordResult : Option TypedData → Debugger (Option (TypedData × Nat))
  | none => pure none
  | some value => do
      modifyProcess fun p => { p with expressionResults := p.expressionResults ++ [value] }
      let m ← get
      pure (some (value, m.process.expressionResults.length - 1))

/-- `target::evaluate_expression`. -/
def evaluateExpression (env : Environment) (expr : Text) (otid : Option Tid) :
    Debugger (Option (TypedData × Nat)) := do
  let m ← get
  let tid := otid.getD m.process.currentThread
  let (res, argString) ← resolveCall env tid expr
  installStopHandler env.entryPoint
  let args ← collectArguments env tid argString res.funcs res.object
  let func ← ofExcept (resolveOverload env res.funcs args)
  let ret ← inferiorCallFromDwarf env func args env.entryPoint tid
  recordResult ret

end Debugger

end Gsdb
