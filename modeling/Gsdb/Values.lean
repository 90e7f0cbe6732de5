/-
Typed values: printing one, following a pointer, and taking a member or an element
out of one.  A pointer DIE names the DIE of its target, which is looked up when the
pointer is followed.
-/
import Gsdb.BreakpointSites
import Gsdb.Types

namespace Gsdb

open ByteMemory

/-- What printing and following values takes from outside: the type that a pointer
DIE refers to, the texts of floating point numbers, and how often a string is read on. -/
structure ValueEnv where
  pointee : Nat → Except Failure Ty
  floatText : List Byte → String
  doubleText : List Byte → String
  longDoubleText : List Byte → String
  rounds : Nat

abbrev Printed := List Char

/-- `from_bytes` of the first bytes of a value. -/
def fromBytes (size : Nat) (data : List Byte) : Except Failure (List Byte) :=
  if size ≤ data.length then .ok (data.take size)
  else .error (.undefined "read outside the buffer")

/-- The bytes of a value from an offset on. -/
def subdata (data : List Byte) (offset size : Nat) : Except Failure (List Byte) :=
  if offset + size ≤ data.length then .ok ((data.drop offset).take size)
  else .error (.undefined "read outside the buffer")

/-- `process::read_string`. -/
def readString (m : Machine) (address : Word) : Nat → Except Failure Printed
  | 0 => .error (.undefined "endless loop")
  | rounds + 1 => do
      let data ← readMemory m address 1024
      let chars := (data.takeWhile (· ≠ 0)).map fun byte => Char.ofNat byte.toNat
      if 0 ∈ data then pure chars
      else do
        let rest ← readString m address rounds
        pure (chars ++ rest)

/-- `memcpy_bits`.  The numbers of the bits are kept in 32 bits. -/
def memcpyBits : List Byte → Nat → List Byte → Nat → Nat → Except Failure (List Byte)
  | dest, _, _, _, 0 => .ok dest
  | dest, destBit, src, srcBit, nBits + 1 => do
      let old ← inBounds dest[destBit / 8]?
      let byte ← inBounds src[srcBit / 8]?
      let destMask : Byte := 1 <<< (destBit % 8)
      let cleared := old &&& ~~~destMask
      let new := if byte.getLsbD (srcBit % 8) then cleared ||| destMask else cleared
      memcpyBits (dest.set (destBit / 8) new) ((destBit + 1) % 2 ^ 32) src
        ((srcBit + 1) % 2 ^ 32) nBits

namespace MemberInfo

/-- Where a member is in its class, in bytes. -/
def byteOffset (info : MemberInfo) : Except Failure Nat :=
  match info.dataMemberLocation, info.dataBitOffset with
  | some location, _ => .ok location
  | none, some bitOffset => .ok (bitOffset / 8)
  | none, none => .error (.error "Attribute not found!")

/-- `typed_data::fixup_bitfield`: the bits of a bit-field in bytes of their own. -/
def fixupBitfield (info : MemberInfo) (typeByteSize : Nat) (data : List Byte) :
    Except Failure (Option (List Byte)) := do
  match ← info.bitfieldOffset typeByteSize with
  | none => pure none
  | some bitOffset => do
      let storage := List.replicate (info.byteSize.getD typeByteSize) 0
      let fixed ← memcpyBits storage 0 data bitOffset.toNat (info.bitSize.getD 0 % 2 ^ 32)
      pure (some fixed)

/-- The data of a member, out of that of its class. -/
def memberData (info : MemberInfo) (typeByteSize : Nat) (data : List Byte) :
    Except Failure (List Byte) := do
  let offset ← info.byteOffset
  let bytes ← subdata data offset typeByteSize
  let fixed ← info.fixupBitfield typeByteSize bytes
  pure (fixed.getD bytes)

end MemberInfo

namespace ValueEnv

def tabs (depth : Nat) : Printed := List.replicate depth '\t'

def hex (value : Nat) : Printed := "0x".toList ++ Nat.toDigits 16 value

def signedText (size : Nat) (data : List Byte) : Except Failure Printed := do
  let bytes ← fromBytes size data
  pure (toString (BitVec.ofNat (8 * size) (ofLe bytes)).toInt).toList

def unsignedText (size : Nat) (data : List Byte) : Except Failure Printed := do
  let bytes ← fromBytes size data
  pure (toString (ofLe bytes)).toList

/-- `visualize_base_type`. -/
def visualizeBaseType (env : ValueEnv) (name : Option String) (encoding : BaseEncoding)
    (byteSize : Nat) (data : List Byte) : Except Failure Printed :=
  match encoding with
  | .boolean => do
      let bytes ← fromBytes 1 data
      pure (if ofLe bytes = 0 then "false" else "true").toList
  | .float =>
      if name = some "float" then do
        let bytes ← fromBytes 4 data
        pure (env.floatText bytes).toList
      else if name = some "double" then do
        let bytes ← fromBytes 8 data
        pure (env.doubleText bytes).toList
      else if name = some "long double" then do
        let bytes ← fromBytes 16 data
        pure (env.longDoubleText bytes).toList
      else .error (.error "Unsupported floating point type!")
  | .signed =>
      if byteSize ∈ [1, 2, 4, 8] then signedText byteSize data
      else .error (.error "Unsupported signed integer size!")
  | .unsigned =>
      if byteSize ∈ [1, 2, 4, 8] then unsignedText byteSize data
      else .error (.error "Unsupported unsigned integer size!")
  | .signedChar => signedText 1 data
  | .unsignedChar => unsignedText 1 data
  | .other => .error (.error "Unsupported encoding!")

end ValueEnv

/-- `type::is_char_type`. -/
def Ty.isCharType (ty : Ty) : Bool :=
  match ty.stripCvTypedef with
  | .base _ .signedChar _ => true
  | .base _ .unsignedChar _ => true
  | _ => false

namespace ValueEnv

/-- `visualize_pointer_type`. -/
def visualizePointerType (env : ValueEnv) (m : Machine) (target : Nat) (data : List Byte) :
    Except Failure Printed := do
  let bytes ← fromBytes 8 data
  let ptr := ofLe bytes
  if ptr = 0 then pure "0x0".toList
  else do
    let ty ← env.pointee target
    if ty.isCharType then do
      let text ← readString m (BitVec.ofNat 64 ptr) env.rounds
      pure ('"' :: text ++ ['"'])
    else pure (hex ptr)

/-- `visualize_member_pointer_type`. -/
def visualizeMemberPointerType (data : List Byte) : Except Failure Printed := do
  let bytes ← fromBytes 8 data
  pure (hex (ofLe bytes))

/-- The loop of `visualize_subrange` over the elements of one dimension. -/
def visualizeElements (element : List Byte → Except Failure Printed) (subSize : Nat)
    (data : List Byte) : Nat → Nat → Except Failure Printed
  | _, 0 => pure []
  | i, left + 1 =>
      if i * subSize ≤ data.length then do
        let text ← element (data.drop (i * subSize))
        let rest ← visualizeElements element subSize data (i + 1) left
        pure (text ++ (if left = 0 then [] else ", ".toList) ++ rest)
      else .error (.undefined "read outside the buffer")

/-- `visualize_subrange`: every element is given all the data from its start on. -/
def visualizeSubrange (element : List Byte → Except Failure Printed) (elementSize : Nat) :
    List Nat → List Byte → Except Failure Printed
  | [], data => element data
  | size :: dimensions, data => do
      let text ← visualizeElements (visualizeSubrange element elementSize dimensions)
        (dimensions.foldl (· * ·) elementSize) data 0 size
      pure ('[' :: text ++ [']'])

mutual

/-- `typed_data::visualize`. -/
def visualize (env : ValueEnv) (m : Machine) : Ty → List Byte → Nat → Except Failure Printed
  | .base name encoding byteSize, data, _ => env.visualizeBaseType name encoding byteSize data
  | .pointer target, data, _ => env.visualizePointerType m target data
  | .memberPointer _, data, _ => visualizeMemberPointerType data
  | .array element upperBounds, data, _ =>
      visualizeSubrange (fun data => env.visualize m element data 0) element.byteSize
        (upperBounds.map (· + 1)) data
  | .cls _ _ _ children, data, depth => do
      let members ← env.visualizeMembers m children data depth
      pure (['{', '\n'] ++ members ++ tabs depth ++ ['}'])
  | .enumeration _ underlying, data, _ => env.visualize m underlying data 0
  | .alias _ _ target, data, _ => env.visualize m target data 0
  | .reference _ _, _, _ => .error (.error "Unsupported type!")
  | .other _, _, _ => .error (.error "Unsupported type!")

/-- The loop of `visualize_class_type`. -/
def visualizeMembers (env : ValueEnv) (m : Machine) :
    Children → List Byte → Nat → Except Failure Printed
  | .nil, _, _ => pure []
  | .member ty info rest, data, depth =>
      if info.isLocated then do
        let memberData ← info.memberData ty.byteSize data
        let text ← env.visualize m ty memberData (depth + 1)
        let later ← env.visualizeMembers m rest data depth
        pure (tabs (depth + 1) ++ (info.name.getD "<unnamed>").toList ++ ": ".toList ++ text ++
          ['\n'] ++ later)
      else env.visualizeMembers m rest data depth
  | .inheritance _ _ _ rest, data, depth => env.visualizeMembers m rest data depth
  | .subprogram _ rest, data, depth => env.visualizeMembers m rest data depth
  | .other _ rest, data, depth => env.visualizeMembers m rest data depth

end

end ValueEnv

/-- The first child of a class DIE with a name, as far as it is a member or base
that can be read: its type and attributes. -/
def Children.firstNamed (memberName : String) : Children → Except Failure (Ty × MemberInfo)
  | .nil => .error (.error "No such member!")
  | .member ty info rest =>
      if info.name.getD "" = memberName then .ok (ty, info) else rest.firstNamed memberName
  | .inheritance ty location virtuality rest =>
      if memberName = "" then
        .ok (ty, ⟨none, false, some location, none, none, none, none, virtuality⟩)
      else rest.firstNamed memberName
  | .subprogram info rest =>
      if info.name.getD "" = memberName then .error (.error "Attribute not found!")
      else rest.firstNamed memberName
  | .other name rest =>
      if name.getD "" = memberName then .error (.error "Attribute not found!")
      else rest.firstNamed memberName

namespace TypedData

/-- `type::get_die`. -/
def typeDie (value : TypedData) : Except Failure Ty :=
  match value.type with
  | .dwarf ty => .ok ty
  | .builtin _ => .error (.error "Type is not DWARF info!")

/-- `typed_data::visualize`. -/
def visualize (env : ValueEnv) (m : Machine) (value : TypedData) (depth : Nat) :
    Except Failure Printed := do
  let ty ← value.typeDie
  env.visualize m ty value.data depth

/-- `typed_data::deref_pointer`. -/
def derefPointer (env : ValueEnv) (m : Machine) (value : TypedData) :
    Except Failure TypedData := do
  let ty ← value.typeDie
  match ty.stripCvTypedef with
  | .pointer target => do
      let bytes ← fromBytes 8 value.data
      let address := BitVec.ofNat 64 (ofLe bytes)
      let pointee ← env.pointee target
      let data ← readMemory m address pointee.byteSize
      pure ⟨data, .dwarf pointee, some address⟩
  | _ => .error (.error "Not a pointer type!")

/-- The value of a member or base.  The data of a bit-field are a copy. -/
def memberOf (value : TypedData) (memberTy : Ty) (info : MemberInfo) :
    Except Failure TypedData := do
  let offset ← info.byteOffset
  let bytes ← subdata value.data offset memberTy.byteSize
  let fixed ← info.fixupBitfield memberTy.byteSize bytes
  match fixed with
  | none => pure ⟨bytes, .dwarf memberTy, value.address.map (· + BitVec.ofNat 64 offset)⟩
  | some fixed => pure ⟨fixed, .dwarf memberTy, none⟩

/-- `typed_data::read_member`.  What is not a class has no members to be read. -/
def readMember (value : TypedData) (memberName : String) : Except Failure TypedData := do
  let ty ← value.typeDie
  match ty with
  | .cls _ _ _ children => do
      let child ← children.firstNamed memberName
      value.memberOf child.1 child.2
  | _ => .error (.error "No such member!")

/-- `typed_data::index`. -/
def index (env : ValueEnv) (m : Machine) (value : TypedData) (index : Nat) :
    Except Failure TypedData := do
  let ty ← value.typeDie
  match ty.stripCvTypedef with
  | .pointer target => do
      let element ← env.pointee target
      let bytes ← fromBytes 8 value.data
      let address := BitVec.ofNat 64 (ofLe bytes) + BitVec.ofNat 64 (index * element.byteSize)
      let data ← readMemory m address element.byteSize
      pure ⟨data, .dwarf element, some address⟩
  | .array element _ =>
      if element.byteSize = 0 ∨ value.data.length / element.byteSize ≤ index then
        .error (.error "Index out of range!")
      else do
        let offset := index * element.byteSize
        let data ← subdata value.data offset element.byteSize
        pure ⟨data, .dwarf element, value.address.map (· + BitVec.ofNat 64 offset)⟩
  | _ => .error (.error "Not an array or pointer type!")

end TypedData

end Gsdb
