/-
Names of variables with paths into them: the loop of `resolve_indirect_name`, which cuts
its text anew behind each operation and looks for the next operator in what is left.
-/
import Gsdb.Evaluation
import Gsdb.Values

namespace Gsdb

open ByteMemory

/-- `find_first_of(chars, pos)`. -/
def findFirstOf (text chars : Text) (pos : Nat) : Option Nat :=
  ((text.drop pos).findIdx? (· ∈ chars)).map (pos + ·)

/-- `substr` up to a position, or to the end. -/
def substr (text : Text) (pos : Nat) : Option Nat → Text
  | some stop => (text.drop pos).take (stop - pos)
  | none => text.drop pos

/-- What ends the name of a variable. -/
def pathOperators : Text := ascii ".-[("

/-- What ends the name of a member. -/
def memberStops : Text := ascii ".-[(,"

/-- What resolving a name looks up, and what it does with the values of variables. -/
structure Access (D : Type) where
  findFunctions : Text → Except Failure (List Function)
  initial : Text → Except Failure D
  derefPointer : D → Except Failure D
  readMember : D → Text → Except Failure D
  index : D → Nat → Except Failure D
  memberFunctions : D → Text → Except Failure (List Function)

/-- `resolve_indirect_name_result`. -/
structure ResolvedName (D : Type) where
  object : Option D
  funcs : List Function

/-- A round of the loop finds functions or goes on with the rest of the text. -/
inductive PathStep (D : Type) where
  | functions (data : D) (funcs : List Function)
  | continues (name : Text) (data : D)

namespace Access

variable {D : Type} (access : Access D)

/-- The member behind an operator. -/
def memberStep (name : Text) (opPos : Nat) (data : D) : Except Failure (PathStep D) :=
  let start := opPos + 1
  let stop := findFirstOf name memberStops start
  let memberName := substr name start stop
  if stop.bind (fun pos => name[pos]?) = some (charByte '(') then do
    let funcs ← access.memberFunctions data memberName
    require (funcs.isEmpty = false) "No such member function!"
    pure (.functions data funcs)
  else do
    let data ← access.readMember data memberName
    pure (.continues (name.drop start) data)

def indexWith (indexStr rest : Text) (data : D) : Except Failure (PathStep D) :=
  match toIntegral ⟨false, 64⟩ indexStr 10 with
  | none => .error (.error "Invalid index!")
  | some index => do
      let data ← access.index data index.toNat
      pure (.continues rest data)

/-- The index in brackets. -/
def indexStep (name : Text) (opPos : Nat) (data : D) : Except Failure (PathStep D) :=
  match findFirstOf name [charByte ']'] opPos with
  | none => .error (.error "Invalid []!")
  | some intEnd =>
      access.indexWith (substr name (opPos + 1) (some intEnd)) (name.drop (intEnd + 1)) data

def selectStep (name : Text) (opPos : Nat) (data : D) : Except Failure (PathStep D) :=
  let op := (name[opPos]?).getD 0
  if op = charByte '.' ∨ op = charByte '>' then access.memberStep name opPos data
  else if op = charByte '[' then access.indexStep name opPos data
  else .error (.error
    ("Unexpected '" ++ String.singleton (Char.ofNat op.toNat) ++ "' in variable name!"))

/-- A round of the loop of `resolve_indirect_name`. -/
def pathStep (name : Text) (opPos : Nat) (data : D) : Except Failure (PathStep D) :=
  if name[opPos]? = some (charByte '-') then
    if name[opPos + 1]? ≠ some (charByte '>') then .error (.error "Invalid operator!")
    else do
      let data ← access.derefPointer data
      access.selectStep name (opPos + 1) data
  else access.selectStep name opPos data

/-- The loop of `resolve_indirect_name`.  The text gets shorter in each round. -/
def followPath : Nat → Text → Option Nat → D → Except Failure (ResolvedName D)
  | _, _, none, data => .ok ⟨some data, []⟩
  | 0, _, some _, _ => .error .schedule
  | rounds + 1, name, some opPos, data => do
      match ← access.pathStep name opPos data with
      | .functions data funcs => .ok ⟨some data, funcs⟩
      | .continues name data =>
          followPath rounds name (findFirstOf name pathOperators 0) data

/-- `target::resolve_indirect_name`. -/
def resolveIndirectName (name : Text) : Except Failure (ResolvedName D) :=
  let opPos := findFirstOf name pathOperators 0
  if opPos.bind (fun pos => name[pos]?) = some (charByte '(') then do
    let funcs ← access.findFunctions (substr name 0 opPos)
    pure ⟨none, funcs⟩
  else do
    let data ← access.initial (substr name 0 opPos)
    access.followPath (name.length + 1) name opPos data

end Access

/-- An operation on the value that a path has led to. -/
inductive PathOperation where
  | derefPointer
  | readMember (name : Text)
  | index (i : Nat)
deriving DecidableEq, Repr

namespace Access

variable {D : Type} (access : Access D)

def apply : PathOperation → D → Except Failure D
  | .derefPointer, data => access.derefPointer data
  | .readMember name, data => access.readMember data name
  | .index i, data => access.index data i

def applyAll : List PathOperation → D → Except Failure D
  | [], data => .ok data
  | op :: ops, data => access.apply op data >>= applyAll ops

/-- The same operations, with a record of the variable and of what was done to it. -/
def logged : Access (D × Text × List PathOperation) where
  findFunctions := access.findFunctions
  initial := fun name => do
    let data ← access.initial name
    pure (data, name, [])
  derefPointer := fun value => do
    let data ← access.derefPointer value.1
    pure (data, value.2.1, value.2.2 ++ [.derefPointer])
  readMember := fun value name => do
    let data ← access.readMember value.1 name
    pure (data, value.2.1, value.2.2 ++ [.readMember name])
  index := fun value i => do
    let data ← access.index value.1 i
    pure (data, value.2.1, value.2.2 ++ [.index i])
  memberFunctions := fun value name => access.memberFunctions value.1 name

end Access

/-- The variables and functions there are.  No variable has an empty name. -/
structure VariableLookup where
  findFunctions : Text → Except Failure (List Function)
  initial : Text → Except Failure TypedData
  memberFunctions : TypedData → Text → Except Failure (List Function)
  unnamed : ∃ failure, initial [] = .error failure

def nameString (name : Text) : String := String.ofList (name.map fun c => Char.ofNat c.toNat)

/-- The operations of `typed_data`. -/
def VariableLookup.access (lookup : VariableLookup) (env : ValueEnv) (m : Machine) :
    Access TypedData where
  findFunctions := lookup.findFunctions
  initial := lookup.initial
  derefPointer := fun value => value.derefPointer env m
  readMember := fun value name => value.readMember (nameString name)
  index := fun value i => value.index env m i
  memberFunctions := lookup.memberFunctions

end Gsdb
