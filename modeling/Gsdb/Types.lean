/-
Types as DWARF describes them, and the questions the calling convention asks
of a type: its size and alignment, whether it is trivial for calls, and the
classes of its two eightbytes.  A pointer keeps a reference to its target, so
that a type is a finite tree.
-/
import Gsdb.Failure

namespace Gsdb

open ByteMemory

inductive BaseEncoding where
  | boolean | float | signed | signedChar | unsigned | unsignedChar | other
deriving DecidableEq, Repr

inductive ClassTag where
  | class_ | structure_ | union_
deriving DecidableEq, Repr

/-- The layers that `strip_cv_typedef` removes. -/
inductive AliasTag where
  | const_ | volatile_ | typedef_
deriving DecidableEq, Repr

/-- The attributes of a `DW_TAG_member`.  A static member has neither location
nor bit offset; neither have the members of some unions, which start at zero. -/
structure MemberInfo where
  name : Option String
  isStatic : Bool
  dataMemberLocation : Option Nat
  dataBitOffset : Option Nat
  byteSize : Option Nat
  bitSize : Option Nat
  bitOffset : Option Nat
  virtuality : Option Nat
deriving DecidableEq, Repr

/-- The layers that a type can be wrapped in. -/
inductive LayerTag where
  | const_ | volatile_ | typedef_ | reference | rvalueReference | pointer
deriving DecidableEq, Repr

/-- The type of a parameter of a member function, as far as it is compared with the
class: that class itself, another DIE, of which only the name is read, or a layer
around a type or, without `DW_AT_type`, around `void`. -/
inductive ParameterType where
  | self
  | core (name : Option String)
  | layer (tag : LayerTag) (target : ParameterType)
  | void (tag : LayerTag)
deriving DecidableEq, Repr

/-- A child of a `DW_TAG_subprogram`. -/
inductive SubprogramChild where
  | parameter (ty : Option ParameterType)
  | other
deriving DecidableEq, Repr

structure SubprogramInfo where
  name : Option String
  children : List SubprogramChild
  defaulted : Option Nat
  virtuality : Option Nat
deriving DecidableEq, Repr

mutual

/-- A type DIE. -/
inductive Ty where
  | base (name : Option String) (encoding : BaseEncoding) (byteSize : Nat)
  | enumeration (byteSize : Nat) (underlying : Ty)
  | pointer (target : Nat)
  | reference (rvalue : Bool) (byteSize : Nat)
  | memberPointer (toFunction : Bool)
  | array (element : Ty) (upperBounds : List Nat)
  | cls (tag : ClassTag) (name : Option String) (byteSize : Option Nat) (children : Children)
  | alias (tag : AliasTag) (name : Option String) (target : Ty)
  | other (byteSize : Nat)

/-- The children of a class DIE, in order. -/
inductive Children where
  | nil
  | member (ty : Ty) (info : MemberInfo) (rest : Children)
  | inheritance (ty : Ty) (location : Nat) (virtuality : Option Nat) (rest : Children)
  | subprogram (info : SubprogramInfo) (rest : Children)
  | other (name : Option String) (rest : Children)

end

inductive BuiltinType where
  | string | character | integer | boolean | floatingPoint
deriving DecidableEq, Repr

/-- `gsdb::type`: a type DIE or the type of a literal. -/
inductive ValueType where
  | dwarf (ty : Ty)
  | builtin (type : BuiltinType)

structure TypedData where
  data : List Byte
  type : ValueType
  address : Option Word

inductive ParameterClass where
  | integer | sse | sseup | x87 | x87up | complexX87 | memory | noClass
deriving DecidableEq, Repr

/-- The classes of the two eightbytes. -/
structure ParameterClasses where
  first : ParameterClass
  second : ParameterClass
deriving DecidableEq, Repr

namespace MemberInfo

/-- The members that the class functions look at. -/
def isLocated (info : MemberInfo) : Bool :=
  info.dataMemberLocation.isSome || info.dataBitOffset.isSome

/-- `die::get_bitfield_information`, as far as it is used here: the bit offset
into the storage, an 8-bit number. -/
def bitfieldOffset (info : MemberInfo) (classByteSize : Nat) :
    Except Failure (Option (BitVec 8)) :=
  if info.bitOffset = none ∧ info.dataBitOffset = none then .ok none
  else
    match info.bitSize with
    | none => .error (.error "Attribute not found!")
    | some bitSize =>
        let storageBitSize := info.byteSize.getD classByteSize * 8
        match info.dataBitOffset, info.bitOffset with
        | some dataBitOffset, _ => .ok (some (BitVec.ofNat 8 (dataBitOffset % 8)))
        | none, some offsetField =>
            .ok (some (BitVec.ofInt 8 ((storageBitSize : Int) - offsetField - bitSize)))
        | none, none => .ok (some 0)

/-- A virtual function or a virtual base. -/
def isVirtual (virtuality : Option Nat) : Bool :=
  match virtuality with
  | some v => v ≠ 0
  | none => false

end MemberInfo

/-- `if (first) return true;` in front of the rest of a function. -/
def returnIf (first rest : Except Failure Bool) : Except Failure Bool :=
  match first with
  | .ok true => .ok true
  | .ok false => rest
  | .error e => .error e

@[simp]
theorem returnIf_true (rest : Except Failure Bool) : returnIf (.ok true) rest = .ok true := rfl

@[simp]
theorem returnIf_false (rest : Except Failure Bool) : returnIf (.ok false) rest = rest := rfl

@[simp]
theorem returnIf_error (e : Failure) (rest : Except Failure Bool) :
    returnIf (.error e) rest = .error e := rfl

theorem returnIf_assoc (first second rest : Except Failure Bool) :
    returnIf (returnIf first second) rest = returnIf first (returnIf second rest) := by
  cases first with
  | error e => rfl
  | ok answer => cases answer <;> rfl

theorem returnIf_eq_false_iff {first rest : Except Failure Bool} :
    returnIf first rest = .ok false ↔ first = .ok false ∧ rest = .ok false := by
  cases first with
  | error e => simp
  | ok answer => cases answer <;> simp

namespace ParameterType

/-- `type::strip_cv_typedef`.  There is no type to go on with behind a qualifier of
`void`. -/
def stripCvTypedef : ParameterType → Except Failure ParameterType
  | .layer tag target =>
      if tag ∈ [.const_, .volatile_, .typedef_] then target.stripCvTypedef
      else .ok (.layer tag target)
  | .void tag =>
      if tag ∈ [.const_, .volatile_, .typedef_] then .error (.error "Attribute not found!")
      else .ok (.void tag)
  | ty => .ok ty

/-- The name behind `type::strip_all`, which takes off pointers as well. -/
def strippedName (className : Option String) : ParameterType → Except Failure (Option String)
  | .self => .ok className
  | .core name => .ok name
  | .layer _ target => target.strippedName className
  | .void _ => .error (.error "Attribute not found!")

/-- `type::operator==` with the class. -/
def equalsClass (className : Option String) (ty : ParameterType) : Except Failure Bool := do
  let name ← ty.strippedName className
  pure (name.isSome && name = className)

/-- A pointer or a reference, by its tag, to what equals the class. -/
def refersToClass (tags : List LayerTag) (className : Option String) :
    ParameterType → Except Failure Bool
  | .layer tag target =>
      if tag ∈ tags then do
        let target ← target.stripCvTypedef
        target.equalsClass className
      else .ok false
  | .void tag => if tag ∈ tags then .error (.error "Attribute not found!") else .ok false
  | _ => .ok false

end ParameterType

namespace SubprogramInfo

def isDestructor (info : SubprogramInfo) : Bool :=
  match info.name with
  | some name => 1 < name.length ∧ name.toList.head? = some '~'
  | none => false

/-- Whether parameter `i` is one that a copy or move constructor has there.  The type
of a third parameter is not looked at. -/
def fitsConstructor (className : Option String) (i : Nat) (ty : Option ParameterType) :
    Except Failure Bool :=
  match i, ty with
  | 0, some ty => ty.refersToClass [.pointer] className
  | 1, some ty => ty.refersToClass [.reference, .rvalueReference] className
  | 0, none => .error (.error "Attribute not found!")
  | 1, none => .error (.error "Attribute not found!")
  | _, _ => .ok false

/-- The loop of `is_copy_or_move_constructor` from child `i` on: `none` when a
parameter does not fit, the number of children otherwise. -/
def countConstructorChildren (className : Option String) (i : Nat) :
    List SubprogramChild → Except Failure (Option Nat)
  | [] => .ok (some i)
  | .other :: rest => countConstructorChildren className (i + 1) rest
  | .parameter ty :: rest => do
      if ← fitsConstructor className i ty then countConstructorChildren className (i + 1) rest
      else pure none

/-- `is_copy_or_move_constructor`.  The name is compared with that of the DIE that was
asked about, the types with the class behind it. -/
def isCopyOrMoveConstructor (dieName className : Option String) (info : SubprogramInfo) :
    Except Failure Bool :=
  if dieName ≠ info.name then .ok false
  else do
    let count ← countConstructorChildren className 0 info.children
    pure (count = some 2)

/-- `DW_AT_defaulted` is absent, or its negation differs from
`DW_DEFAULTED_in_class`. -/
def isUserProvided (info : SubprogramInfo) : Bool :=
  match info.defaulted with
  | none => true
  | some value => (if value = 0 then 1 else 0) ≠ 1

/-- The function makes its class non-trivial: a copy or move constructor, or else a
destructor, that counts for user-provided. -/
def isNonTrivial (dieName className : Option String) (info : SubprogramInfo) :
    Except Failure Bool := do
  if ← info.isCopyOrMoveConstructor dieName className then pure info.isUserProvided
  else pure (info.isDestructor && info.isUserProvided)

end SubprogramInfo

namespace Ty

def stripCvTypedef : Ty → Ty
  | .alias _ _ target => target.stripCvTypedef
  | ty => ty

/-- A qualifier or typedef. -/
def isLayer : Ty → Bool
  | .alias .. => true
  | _ => false

theorem stripCvTypedef_isLayer (ty : Ty) : ty.stripCvTypedef.isLayer = false := by
  match ty with
  | .alias _ _ target => exact stripCvTypedef_isLayer target
  | .base .. => rfl
  | .enumeration .. => rfl
  | .pointer .. => rfl
  | .reference .. => rfl
  | .memberPointer .. => rfl
  | .array .. => rfl
  | .cls .. => rfl
  | .other .. => rfl

/-- `die::name` of a type DIE. -/
def name : Ty → Option String
  | .base name _ _ => name
  | .cls _ name _ _ => name
  | .alias _ name _ => name
  | _ => none

/-- `type::compute_byte_size` of a type DIE. -/
def byteSize : Ty → Nat
  | .base _ _ size => size
  | .enumeration size _ => size
  | .pointer _ => 8
  | .reference _ size => size
  | .memberPointer toFunction => if toFunction then 16 else 8
  | .array element upperBounds =>
      upperBounds.foldl (fun size upper => size * (upper + 1)) element.byteSize
  | .cls _ _ size _ => size.getD 0
  | .alias _ _ target => target.byteSize
  | .other size => size

def isClassType (ty : Ty) : Bool :=
  match ty.stripCvTypedef with
  | .cls .. => true
  | _ => false

def isReferenceType (ty : Ty) : Bool :=
  match ty.stripCvTypedef with
  | .reference .. => true
  | _ => false

mutual

/-- `type::is_non_trivial_for_calls` of a DIE that has a name, which need not be
that of the class it stands for. -/
def isNonTrivialNamed (dieName : Option String) : Ty → Except Failure Bool
  | .cls _ name _ children => isNonTrivialChildren dieName name children
  | .array element _ => element.isNonTrivialNamed element.name
  | .alias _ _ target => target.isNonTrivialNamed dieName
  | _ => .ok false

/-- The loop over the children of the class. -/
def isNonTrivialChildren (dieName className : Option String) : Children → Except Failure Bool
  | .nil => .ok false
  | .member ty info rest =>
      returnIf (if info.isLocated then ty.isNonTrivialNamed ty.name else .ok false)
        (returnIf (.ok (MemberInfo.isVirtual info.virtuality))
          (isNonTrivialChildren dieName className rest))
  | .inheritance ty _ virtuality rest =>
      returnIf (ty.isNonTrivialNamed ty.name)
        (returnIf (.ok (MemberInfo.isVirtual virtuality))
          (isNonTrivialChildren dieName className rest))
  | .subprogram info rest =>
      returnIf (.ok (MemberInfo.isVirtual info.virtuality))
        (returnIf (info.isNonTrivial dieName className)
          (isNonTrivialChildren dieName className rest))
  | .other _ rest => isNonTrivialChildren dieName className rest

end

/-- `type::is_non_trivial_for_calls`. -/
def isNonTrivialForCalls (ty : Ty) : Except Failure Bool := ty.isNonTrivialNamed ty.name

theorem isNonTrivialNamed_strip (dieName : Option String) (ty : Ty) :
    ty.isNonTrivialNamed dieName = ty.stripCvTypedef.isNonTrivialNamed dieName := by
  match ty with
  | .alias _ _ target => exact isNonTrivialNamed_strip dieName target
  | .base .. => rfl
  | .enumeration .. => rfl
  | .pointer .. => rfl
  | .reference .. => rfl
  | .memberPointer .. => rfl
  | .array .. => rfl
  | .cls .. => rfl
  | .other .. => rfl

/-- Of a class that is found trivial the located members are. -/
theorem isNonTrivialChildren_member {dieName className : Option String} {ty : Ty}
    {info : MemberInfo} {rest : Children}
    (h : isNonTrivialChildren dieName className (.member ty info rest) = .ok false) :
    (info.isLocated = true → ty.isNonTrivialForCalls = .ok false) ∧
      isNonTrivialChildren dieName className rest = .ok false := by
  simp only [isNonTrivialChildren, returnIf_eq_false_iff] at h
  refine ⟨fun hlocated => ?_, h.2.2⟩
  rw [if_pos hlocated] at h
  exact h.1

mutual

/-- `type::alignment` of a type DIE. -/
def alignment : Ty → Nat
  | .cls _ _ _ children => maxAlignment children
  | .array element _ => element.alignment
  | .alias _ _ target => target.alignment
  | ty => ty.byteSize

def maxAlignment : Children → Nat
  | .nil => 1
  | .member ty info rest =>
      if info.isLocated then max ty.alignment (maxAlignment rest) else maxAlignment rest
  | .inheritance _ _ _ rest => maxAlignment rest
  | .subprogram _ rest => maxAlignment rest
  | .other _ rest => maxAlignment rest

end

mutual

/-- `type::has_unaligned_fields` of a type DIE. -/
def hasUnalignedFields : Ty → Bool
  | .cls _ _ _ children => hasUnalignedChildren children
  | .alias _ _ target => target.hasUnalignedFields
  | _ => false

def hasUnalignedChildren : Children → Bool
  | .nil => false
  | .member ty info rest =>
      (match info.dataMemberLocation with
        | some location =>
            (ty.alignment ≠ 0 && location % ty.alignment ≠ 0) || ty.hasUnalignedFields
        | none => false) || hasUnalignedChildren rest
  | .inheritance _ _ _ rest => hasUnalignedChildren rest
  | .subprogram _ rest => hasUnalignedChildren rest
  | .other _ rest => hasUnalignedChildren rest

end

end Ty

def mergeParameterClasses (lhs rhs : ParameterClass) : ParameterClass :=
  if lhs = rhs then lhs
  else if lhs = .noClass then rhs
  else if rhs = .noClass then lhs
  else if lhs = .memory ∨ rhs = .memory then .memory
  else if lhs = .integer ∨ rhs = .integer then .integer
  else if lhs = .x87 ∨ rhs = .x87 ∨ lhs = .x87up ∨ rhs = .x87up ∨ lhs = .complexX87 ∨
      rhs = .complexX87 then .memory
  else .sse

namespace ParameterClasses

def none : ParameterClasses := ⟨.noClass, .noClass⟩

/-- Merge the classes of a field that starts in an eightbyte.  There are only
two eightbytes. -/
def mergeField (classes : ParameterClasses) (index : Nat) (field : ParameterClasses) :
    Except Failure ParameterClasses :=
  match index with
  | 0 => .ok ⟨mergeParameterClasses classes.first field.first,
      mergeParameterClasses classes.second field.second⟩
  | 1 => .ok { classes with second := mergeParameterClasses classes.second field.first }
  | _ => .error (.undefined "eightbyte index out of range")

/-- The post-merger cleanup. -/
def cleanup (classes : ParameterClasses) : ParameterClasses :=
  if classes.first = .memory ∨ classes.second = .memory then ⟨.memory, .memory⟩
  else if classes.second = .x87up ∧ classes.first ≠ .x87 then ⟨.memory, .memory⟩
  else classes

end ParameterClasses

namespace Ty

/-- Base types: one eightbyte by encoding, `long double`, or no class. -/
def baseClasses (encoding : BaseEncoding) (byteSize : Nat) : Except Failure ParameterClasses :=
  if byteSize ≤ 8 then
    match encoding with
    | .float => .ok ⟨.sse, .noClass⟩
    | .other => .error (.error "Unimplemented base type encoding!")
    | _ => .ok ⟨.integer, .noClass⟩
  else if encoding = .float ∧ byteSize = 16 then .ok ⟨.x87, .x87up⟩
  else .ok .none

/-- `classify_class_type` around the classification of elements or fields. -/
def classifyClassType (ty : Ty) (classify : Except Failure ParameterClasses) :
    Except Failure ParameterClasses := do
  if ← ty.isNonTrivialForCalls then .error (.error "NTFPOC types are not supported!")
  else if ty.byteSize > 16 ∨ ty.hasUnalignedFields then .ok ⟨.memory, .memory⟩
  else classify.map ParameterClasses.cleanup

/-- An array longer than an eightbyte repeats the class of its elements. -/
def spreadElement (byteSize : Nat) (classes : ParameterClasses) : ParameterClasses :=
  if byteSize > 8 ∧ classes.second = .noClass then { classes with second := classes.first }
  else classes

mutual

/-- `type::get_parameter_classes` of a type DIE.  A class or array behind a
typedef or qualifier is classified by its own DIE, which has no members. -/
def getParameterClasses : Ty → Except Failure ParameterClasses
  | .base _ encoding byteSize => baseClasses encoding byteSize
  | .pointer _ => .ok ⟨.integer, .noClass⟩
  | .reference _ _ => .ok ⟨.integer, .noClass⟩
  | .enumeration _ _ => .ok .none
  | .memberPointer _ => .ok .none
  | .array element upperBounds =>
      classifyClassType (.array element upperBounds)
        (element.getParameterClasses.map (spreadElement (byteSize (.array element upperBounds))))
  | .cls tag name size children =>
      classifyClassType (.cls tag name size children)
        (classifyFields (size.getD 0) 0 children .none)
  | .alias tag name target =>
      match target.stripCvTypedef with
      | .cls .. => classifyClassType (.alias tag name target) (.ok .none)
      | .array .. => classifyClassType (.alias tag name target) (.ok .none)
      | _ => target.getParameterClasses
  | .other _ => .ok .none

/-- `classify_class_field` for every located member: its bit offset is that of
the bit-field in its storage, or its location, on top of `bitOffset`. -/
def classifyFields (classByteSize bitOffset : Nat) :
    Children → ParameterClasses → Except Failure ParameterClasses
  | .nil, classes => .ok classes
  | .member ty info rest, classes => do
      if info.isLocated then
        let bitfield ← info.bitfieldOffset classByteSize
        let currentBitOffset := match bitfield with
          | some offset => offset.toNat + bitOffset
          | none => info.dataMemberLocation.getD 0 * 8 + bitOffset
        let classes ← match ty with
          | .cls _ _ _ children =>
              classifyFields classByteSize currentBitOffset children classes
          | ty =>
              if ty.isClassType then .ok classes
              else do
                let field ← ty.getParameterClasses
                classes.mergeField (currentBitOffset / 64) field
        classifyFields classByteSize bitOffset rest classes
      else classifyFields classByteSize bitOffset rest classes
  | .inheritance _ _ _ rest, classes => classifyFields classByteSize bitOffset rest classes
  | .subprogram _ rest, classes => classifyFields classByteSize bitOffset rest classes
  | .other _ rest, classes => classifyFields classByteSize bitOffset rest classes

end

end Ty

namespace ValueType

def byteSize : ValueType → Nat
  | .dwarf ty => ty.byteSize
  | .builtin .boolean => 1
  | .builtin .character => 1
  | .builtin _ => 8

def alignment : ValueType → Nat
  | .dwarf ty => ty.alignment
  | .builtin type => byteSize (.builtin type)

def getParameterClasses : ValueType → Except Failure ParameterClasses
  | .dwarf ty => ty.getParameterClasses
  | .builtin .floatingPoint => .ok ⟨.sse, .noClass⟩
  | .builtin _ => .ok ⟨.integer, .noClass⟩

def isReferenceType : ValueType → Bool
  | .dwarf ty => ty.isReferenceType
  | .builtin _ => false

end ValueType

end Gsdb
