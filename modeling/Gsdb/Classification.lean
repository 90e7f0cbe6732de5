/-
Which eightbytes the classification of a type covers.  The scalar leaves of a
type occupy ranges of bits; the classification counts some of them, each in
the eightbyte where it takes the leaf to start.  Merging and the final cleanup
lose nothing of what was counted, so that the two agree on a type exactly when
counted and occupied eightbytes are the same.  A class with unaligned fields has
the memory class in both eightbytes.
-/
import Gsdb.Types

namespace Gsdb

/-- A range of bits in an object. -/
structure BitRange where
  start : Nat
  size : Nat
deriving DecidableEq, Repr

/-- The range has a bit in an eightbyte. -/
def BitRange.overlaps (range : BitRange) (k : Nat) : Bool :=
  range.size ≠ 0 ∧ range.start < 64 * (k + 1) ∧ 64 * k < range.start + range.size

namespace MemberInfo

/-- The bits of a bit-field in its class: `DW_AT_data_bit_offset` counts from
the start of the class, `DW_AT_bit_offset` from the end of the storage unit at
the location of the member, which has the size of its type by default. -/
def bitfieldRange (info : MemberInfo) (bitSize typeByteSize : Nat) : BitRange :=
  let location := info.dataMemberLocation.getD 0 * 8
  match info.dataBitOffset, info.bitOffset with
  | some dataBitOffset, _ => ⟨dataBitOffset, bitSize⟩
  | none, some offsetField =>
      ⟨location + (info.byteSize.getD typeByteSize * 8 - offsetField - bitSize), bitSize⟩
  | none, none => ⟨location, bitSize⟩

/-- Where the classification takes a member to start. -/
def countedOffset (info : MemberInfo) (classByteSize : Nat) : Nat :=
  match info.bitfieldOffset classByteSize with
  | .ok (some offset) => offset.toNat
  | _ => info.dataMemberLocation.getD 0 * 8

/-- The attributes by which the classification knows a bit-field. -/
def isBitfield (info : MemberInfo) : Bool :=
  info.bitOffset.isSome || info.dataBitOffset.isSome

end MemberInfo

namespace Ty

mutual

/-- The scalar leaves of a type at a bit offset: every element of an array,
every member that is not static, every base class. -/
def leaves : Ty → Nat → List BitRange
  | .base _ _ size, offset => [⟨offset, 8 * size⟩]
  | .enumeration size _, offset => [⟨offset, 8 * size⟩]
  | .pointer _, offset => [⟨offset, 64⟩]
  | .reference _ size, offset => [⟨offset, 8 * size⟩]
  | .memberPointer toFunction, offset => [⟨offset, if toFunction then 128 else 64⟩]
  | .array element upperBounds, offset =>
      (List.range (upperBounds.foldl (fun count upper => count * (upper + 1)) 1)).flatMap
        fun i => element.leaves (offset + 8 * (i * element.byteSize))
  | .cls _ _ _ children, offset => childLeaves children offset
  | .alias _ _ target, offset => target.leaves offset
  | .other size, offset => [⟨offset, 8 * size⟩]

def childLeaves : Children → Nat → List BitRange
  | .nil, _ => []
  | .member ty info rest, offset =>
      (if info.isStatic then []
        else match info.bitSize with
          | some bitSize =>
              let range := info.bitfieldRange bitSize ty.byteSize
              [⟨offset + range.start, range.size⟩]
          | none => ty.leaves (offset + info.dataMemberLocation.getD 0 * 8)) ++
        childLeaves rest offset
  | .inheritance ty location _ rest, offset =>
      ty.leaves (offset + location * 8) ++ childLeaves rest offset
  | .subprogram _ rest, offset => childLeaves rest offset
  | .other _ rest, offset => childLeaves rest offset

end

/-- A scalar leaf overlaps an eightbyte. -/
def occupied (ty : Ty) (k : Nat) : Bool := (ty.leaves 0).any (·.overlaps k)

mutual

/-- The eightbytes in which the classification counts a leaf.  It knows base
types up to an eightbyte, `long double`, pointers and references, and repeats
the elements of an array over both eightbytes. -/
def counted : Ty → Nat → Bool
  | .base _ encoding size, k => (k = 0 && size ≤ 8) || (encoding = .float && size = 16)
  | .enumeration _ _, _ => false
  | .pointer _, k => k = 0
  | .reference _ _, k => k = 0
  | .memberPointer _, _ => false
  | .array element upperBounds, k =>
      element.counted k ||
        (k = 1 && 8 < byteSize (.array element upperBounds) && element.counted 0)
  | .cls _ _ size children, k => countedFields (size.getD 0) 0 children k
  | .alias _ _ target, k =>
      match target.stripCvTypedef with
      | .cls .. => false
      | .array .. => false
      | _ => target.counted k
  | .other _, _ => false

/-- Of the children of a class it counts located members, and those of members
whose type is a class without qualifier or typedef. -/
def countedFields (classByteSize bitOffset : Nat) : Children → Nat → Bool
  | .nil, _ => false
  | .member ty info rest, k =>
      (info.isLocated &&
        (let current := info.countedOffset classByteSize + bitOffset
        match ty with
        | .cls _ _ _ children => countedFields classByteSize current children k
        | ty => !ty.isClassType &&
            (if current / 64 = 0 then ty.counted k else k = 1 && ty.counted 0))) ||
        countedFields classByteSize bitOffset rest k
  | .inheritance _ _ _ rest, k => countedFields classByteSize bitOffset rest k
  | .subprogram _ rest, k => countedFields classByteSize bitOffset rest k
  | .other _ rest, k => countedFields classByteSize bitOffset rest k

end

mutual

/-- The classification of what it looks at does not throw and stays within the
two eightbytes: it has a class for the encoding of every base type up to an
eightbyte, every bit-field has a size, and no counted member starts behind the
second eightbyte.  The members of a class with unaligned fields are not looked at. -/
def supported : Ty → Bool
  | .base _ encoding size => !(encoding = .other && size ≤ 8)
  | .array element _ => element.supported
  | .cls _ _ size children =>
      hasUnalignedChildren children || supportedFields (size.getD 0) 0 children
  | .alias _ _ target =>
      match target.stripCvTypedef with
      | .cls .. => true
      | .array .. => true
      | _ => target.supported
  | _ => true

def supportedFields (classByteSize bitOffset : Nat) : Children → Bool
  | .nil => true
  | .member ty info rest =>
      (!info.isLocated ||
        ((info.bitfieldOffset classByteSize).isOk &&
          (let current := info.countedOffset classByteSize + bitOffset
          match ty with
          | .cls _ _ _ children => supportedFields classByteSize current children
          | ty => ty.isClassType || (ty.supported && current / 64 < 2)))) &&
        supportedFields classByteSize bitOffset rest
  | .inheritance _ _ _ rest => supportedFields classByteSize bitOffset rest
  | .subprogram _ rest => supportedFields classByteSize bitOffset rest
  | .other _ rest => supportedFields classByteSize bitOffset rest

end

mutual

/-- A class with unaligned fields is classified: the type itself, the elements of an
array, or what members have of these. -/
def inMemory : Ty → Bool
  | .array element _ => element.inMemory
  | .cls _ _ _ children => hasUnalignedChildren children || fieldsInMemory children
  | .alias _ _ target =>
      match target.stripCvTypedef with
      | .cls .. => target.hasUnalignedFields
      | .array .. => false
      | _ => target.inMemory
  | _ => false

def fieldsInMemory : Children → Bool
  | .nil => false
  | .member ty info rest =>
      (info.isLocated &&
        (match ty with
        | .cls _ _ _ children => fieldsInMemory children
        | ty => !ty.isClassType && ty.inMemory)) ||
        fieldsInMemory rest
  | .inheritance _ _ _ rest => fieldsInMemory rest
  | .subprogram _ rest => fieldsInMemory rest
  | .other _ rest => fieldsInMemory rest

end

/-- The types that bit-fields can have. -/
def isIntegral : Ty → Bool
  | .base _ encoding _ => encoding ≠ .float
  | .enumeration .. => true
  | .alias _ _ target => target.isIntegral
  | _ => false

mutual

/-- The description is one of an object: members lie within their class, and
bit-fields are of integral types. -/
def fits : Ty → Bool
  | .array element _ => element.fits
  | .cls _ _ size children => fieldsFit (size.getD 0) children
  | .alias _ _ target => target.fits
  | _ => true

def fieldsFit (classByteSize : Nat) : Children → Bool
  | .nil => true
  | .member ty info rest =>
      (!info.isLocated ||
        (ty.fits &&
          if info.isBitfield then ty.isIntegral
          else info.dataMemberLocation.getD 0 + ty.byteSize ≤ classByteSize)) &&
        fieldsFit classByteSize rest
  | .inheritance _ _ _ rest => fieldsFit classByteSize rest
  | .subprogram _ rest => fieldsFit classByteSize rest
  | .other _ rest => fieldsFit classByteSize rest

end

end Ty

namespace ParameterClass

/-- The classes that need no partner in the other eightbyte. -/
def isPlain (cls : ParameterClass) : Bool :=
  cls = .noClass ∨ cls = .integer ∨ cls = .sse

end ParameterClass

theorem merge_eq_noClass_iff (lhs rhs : ParameterClass) :
    mergeParameterClasses lhs rhs = .noClass ↔ lhs = .noClass ∧ rhs = .noClass := by
  cases lhs <;> cases rhs <;> decide

theorem merge_isPlain {lhs rhs : ParameterClass} (hl : lhs.isPlain = true)
    (hr : rhs.isPlain = true) : (mergeParameterClasses lhs rhs).isPlain = true := by
  revert hl hr
  cases lhs <;> cases rhs <;> decide

/-- Classes that come from an object of a size: a class that needs a partner
stands for sixteen bytes, all of which have a class. -/
structure Balanced (size : Nat) (classes : ParameterClasses) : Prop where
  plain : (classes.first.isPlain = true ∧ classes.second.isPlain = true) ∨
    (classes.first ≠ .noClass ∧ classes.second ≠ .noClass ∧ 16 ≤ size)

/-- The classes say which eightbytes are counted. -/
structure Tells (classes : ParameterClasses) (first second : Prop) : Prop where
  first : classes.first ≠ .noClass ↔ first
  second : classes.second ≠ .noClass ↔ second

theorem Balanced.none (size : Nat) : Balanced size .none := ⟨.inl ⟨rfl, rfl⟩⟩

theorem Balanced.mono {size size' : Nat} {classes : ParameterClasses} (h : Balanced size classes)
    (hle : size ≤ size') : Balanced size' classes := by
  rcases h.plain with hplain | ⟨hfirst, hsecond, hsize⟩
  · exact ⟨.inl hplain⟩
  · exact ⟨.inr ⟨hfirst, hsecond, by omega⟩⟩

theorem Balanced.plain_of_lt {size : Nat} {classes : ParameterClasses} (h : Balanced size classes)
    (hlt : size < 16) : classes.first.isPlain = true ∧ classes.second.isPlain = true := by
  rcases h.plain with hplain | ⟨-, -, hsize⟩
  · exact hplain
  · omega

/-- The cleanup after merging forgets no eightbyte and invents none. -/
theorem Balanced.cleanup_noClass {size : Nat} {classes : ParameterClasses}
    (h : Balanced size classes) :
    (classes.cleanup.first ≠ .noClass ↔ classes.first ≠ .noClass) ∧
      (classes.cleanup.second ≠ .noClass ↔ classes.second ≠ .noClass) ∧
      Balanced size classes.cleanup := by
  rcases h.plain with ⟨hfirst, hsecond⟩ | ⟨hfirst, hsecond, hsize⟩
  · have hkeep : classes.cleanup = classes := by
      rcases classes with ⟨first, second⟩
      clear h
      revert hfirst hsecond
      cases first <;> cases second <;> decide
    rw [hkeep]
    exact ⟨Iff.rfl, Iff.rfl, h⟩
  · have hboth : classes.cleanup.first ≠ .noClass ∧ classes.cleanup.second ≠ .noClass := by
      rcases classes with ⟨first, second⟩
      unfold ParameterClasses.cleanup
      split
      · exact ⟨by decide, by decide⟩
      split
      · exact ⟨by decide, by decide⟩
      · exact ⟨hfirst, hsecond⟩
    exact ⟨iff_of_true hboth.1 hfirst, iff_of_true hboth.2 hsecond,
      ⟨.inr ⟨hboth.1, hboth.2, hsize⟩⟩⟩

theorem Tells.cleanup {size : Nat} {classes : ParameterClasses} {first second : Prop}
    (h : Balanced size classes) (htells : Tells classes first second) :
    Balanced size classes.cleanup ∧ Tells classes.cleanup first second := by
  obtain ⟨hfirst, hsecond, hbalanced⟩ := h.cleanup_noClass
  exact ⟨hbalanced, hfirst.trans htells.first, hsecond.trans htells.second⟩

/-- A field in the first eightbyte adds what it counts. -/
theorem mergeField_zero {size fieldSize : Nat} {classes field : ParameterClasses}
    {first second fieldFirst fieldSecond : Prop} (hbalanced : Balanced size classes)
    (htells : Tells classes first second) (hfield : Balanced fieldSize field)
    (hfieldTells : Tells field fieldFirst fieldSecond)
    (hle : fieldSize < 16 ∨ fieldSize ≤ size) :
    ∃ merged, classes.mergeField 0 field = .ok merged ∧ Balanced size merged ∧
      Tells merged (first ∨ fieldFirst) (second ∨ fieldSecond) := by
  have hne : ∀ lhs rhs, mergeParameterClasses lhs rhs ≠ .noClass ↔
      lhs ≠ .noClass ∨ rhs ≠ .noClass := by
    intro lhs rhs
    rw [Ne, merge_eq_noClass_iff, not_and_or]
  refine ⟨_, rfl, ⟨?_⟩, ?_, ?_⟩
  · rcases hbalanced.plain with ⟨hfirst, hsecond⟩ | ⟨hfirst, hsecond, hsize⟩
    · rcases hfield.plain with ⟨hfirst', hsecond'⟩ | ⟨hfirst', hsecond', hsize⟩
      · exact .inl ⟨merge_isPlain hfirst hfirst', merge_isPlain hsecond hsecond'⟩
      · exact .inr ⟨(hne _ _).mpr (.inr hfirst'), (hne _ _).mpr (.inr hsecond'), by omega⟩
    · exact .inr ⟨(hne _ _).mpr (.inl hfirst), (hne _ _).mpr (.inl hsecond), hsize⟩
  · rw [hne, htells.first, hfieldTells.first]
  · rw [hne, htells.second, hfieldTells.second]

/-- A field in the second eightbyte adds what it counts in its first. -/
theorem mergeField_one {size fieldSize : Nat} {classes field : ParameterClasses}
    {first second fieldFirst fieldSecond : Prop} (hbalanced : Balanced size classes)
    (htells : Tells classes first second) (hfield : Balanced fieldSize field)
    (hfieldTells : Tells field fieldFirst fieldSecond) (hlt : fieldSize < 16) :
    ∃ merged, classes.mergeField 1 field = .ok merged ∧ Balanced size merged ∧
      Tells merged first (second ∨ fieldFirst) := by
  have hne : mergeParameterClasses classes.second field.first ≠ .noClass ↔
      classes.second ≠ .noClass ∨ field.first ≠ .noClass := by
    rw [Ne, merge_eq_noClass_iff, not_and_or]
  refine ⟨_, rfl, ⟨?_⟩, htells.first, ?_⟩
  · rcases hbalanced.plain with ⟨hfirst, hsecond⟩ | ⟨hfirst, hsecond, hsize⟩
    · exact .inl ⟨hfirst, merge_isPlain hsecond (hfield.plain_of_lt hlt).1⟩
    · exact .inr ⟨hfirst, hne.mpr (.inl hsecond), hsize⟩
  · change mergeParameterClasses classes.second field.first ≠ .noClass ↔ _
    rw [hne, htells.second, hfieldTells.first]

/-- One of the eightbytes has the memory class. -/
def HasMemory (classes : ParameterClasses) : Prop :=
  classes.first = .memory ∨ classes.second = .memory

theorem merge_memory {lhs rhs : ParameterClass} (h : lhs = .memory ∨ rhs = .memory) :
    mergeParameterClasses lhs rhs = .memory := by
  rcases h with rfl | rfl
  · cases rhs <;> rfl
  · cases lhs <;> rfl

/-- Merging a field forgets no memory class. -/
theorem HasMemory.mergeField {classes field merged : ParameterClasses} {index : Nat}
    (h : HasMemory classes) (hmerged : classes.mergeField index field = .ok merged) :
    HasMemory merged := by
  match index with
  | 0 =>
      cases hmerged
      rcases h with hfirst | hsecond
      · exact .inl (merge_memory (.inl hfirst))
      · exact .inr (merge_memory (.inl hsecond))
  | 1 =>
      cases hmerged
      rcases h with hfirst | hsecond
      · exact .inl hfirst
      · exact .inr (merge_memory (.inl hsecond))
  | _ + 2 => cases hmerged

/-- A field in memory takes the class with it. -/
theorem mergeField_memory {classes merged : ParameterClasses} {index : Nat}
    (hmerged : classes.mergeField index ⟨.memory, .memory⟩ = .ok merged) : HasMemory merged := by
  match index with
  | 0 =>
      cases hmerged
      exact .inl (merge_memory (.inr rfl))
  | 1 =>
      cases hmerged
      exact .inr (merge_memory (.inr rfl))
  | _ + 2 => cases hmerged

theorem mergeField_ok {classes field : ParameterClasses} {index : Nat} (h : index < 2) :
    ∃ merged, classes.mergeField index field = .ok merged := by
  match index with
  | 0 => exact ⟨_, rfl⟩
  | 1 => exact ⟨_, rfl⟩
  | _ + 2 => omega

theorem HasMemory.cleanup {classes : ParameterClasses} (h : HasMemory classes) :
    classes.cleanup = ⟨.memory, .memory⟩ := if_pos h

/-- Classes before the cleanup: something is in memory, or they say which eightbytes
are counted. -/
inductive MergedClasses (size : Nat) (counted : Nat → Bool) (classes : ParameterClasses) :
    Bool → Prop
  | memory (h : HasMemory classes) : MergedClasses size counted classes true
  | eightbytes (hbalanced : Balanced size classes)
      (htells : Tells classes (counted 0 = true) (counted 1 = true)) :
      MergedClasses size counted classes false

/-- The classes of a type: what is in memory is so as a whole. -/
inductive SettledClasses (size : Nat) (counted : Nat → Bool) : ParameterClasses → Bool → Prop
  | memory : SettledClasses size counted ⟨.memory, .memory⟩ true
  | eightbytes {classes : ParameterClasses} (hbalanced : Balanced size classes)
      (htells : Tells classes (counted 0 = true) (counted 1 = true)) :
      SettledClasses size counted classes false

theorem MergedClasses.cleanup {size : Nat} {counted : Nat → Bool} {classes : ParameterClasses}
    {memory : Bool} (h : MergedClasses size counted classes memory) :
    SettledClasses size counted classes.cleanup memory := by
  cases h with
  | memory h =>
      rw [h.cleanup]
      exact .memory
  | eightbytes hbalanced htells =>
      obtain ⟨hbalanced, htells⟩ := htells.cleanup hbalanced
      exact .eightbytes hbalanced htells

namespace Ty

theorem hasUnalignedFields_strip (ty : Ty) :
    ty.hasUnalignedFields = ty.stripCvTypedef.hasUnalignedFields := by
  match ty with
  | .alias _ _ target => exact hasUnalignedFields_strip target
  | .base .. => rfl
  | .enumeration .. => rfl
  | .pointer .. => rfl
  | .reference .. => rfl
  | .memberPointer .. => rfl
  | .array .. => rfl
  | .cls .. => rfl
  | .other .. => rfl

/-- The classification of a type: it returns what is counted or in memory if the type
is supported, and throws otherwise. -/
structure Classified (size : Nat) (supported memory : Bool) (counted : Nat → Bool)
    (result : Except Failure ParameterClasses) : Prop where
  ok : supported = true → ∃ classes, result = .ok classes ∧
    SettledClasses size counted classes memory
  error : supported = false → ∃ e, result = .error e

theorem Classified.of_ok {size : Nat} {counted : Nat → Bool} {classes : ParameterClasses}
    (hbalanced : Balanced size classes)
    (htells : Tells classes (counted 0 = true) (counted 1 = true)) :
    Classified size true false counted (.ok classes) :=
  ⟨fun _ => ⟨classes, rfl, .eightbytes hbalanced htells⟩, fun h => by cases h⟩

/-- Of the base types only `long double` needs both eightbytes. -/
theorem base_classified (name : Option String) (encoding : BaseEncoding) {size bound : Nat}
    (hbound : encoding = .float → size ≤ bound) :
    Classified bound (supported (.base name encoding size)) false
      (counted (.base name encoding size)) (baseClasses encoding size) := by
  unfold baseClasses
  by_cases hsmall : size ≤ 8
  · have hnot : size ≠ 16 := by omega
    rw [if_pos hsmall]
    cases encoding with
    | other =>
        refine ⟨fun h => ?_, fun _ => ⟨_, rfl⟩⟩
        simp [supported, hsmall] at h
    | _ =>
        refine ⟨fun _ => ⟨_, rfl, .eightbytes ⟨.inl ⟨rfl, rfl⟩⟩ ⟨?_, ?_⟩⟩, fun h => ?_⟩
        · simp [counted, hsmall]
        · simp [counted, hnot]
        · simp [supported] at h
  · rw [if_neg hsmall]
    have hsupported : supported (.base name encoding size) = true := by simp [supported, hsmall]
    rw [hsupported]
    by_cases hlong : encoding = .float ∧ size = 16
    · have hsize := hbound hlong.1
      rw [if_pos hlong]
      refine .of_ok ⟨.inr ⟨by decide, by decide, by omega⟩⟩ ⟨?_, ?_⟩ <;> simp [counted, hlong]
    · rw [if_neg hlong]
      refine .of_ok (.none bound) ⟨?_, ?_⟩ <;>
        simp [counted, hsmall, ParameterClasses.none] <;> exact fun h => not_and.mp hlong h

/-- A class or array, or one behind layers. -/
def isAggregate (ty : Ty) : Bool :=
  match ty.stripCvTypedef with
  | .cls .. => true
  | .array .. => true
  | _ => false

section Alias

variable (tag : AliasTag) (name : Option String) {target : Ty}

/-- Behind a layer a class or array is classified without its members. -/
theorem getParameterClasses_alias (target : Ty) :
    getParameterClasses (.alias tag name target) =
      if target.isAggregate then classifyClassType (.alias tag name target) (.ok .none)
      else target.getParameterClasses := by
  rw [getParameterClasses, isAggregate]
  cases target.stripCvTypedef <;> rfl

theorem counted_alias (target : Ty) (k : Nat) :
    counted (.alias tag name target) k = (!target.isAggregate && target.counted k) := by
  rw [counted, isAggregate]
  cases target.stripCvTypedef <;> rfl

theorem supported_alias (target : Ty) :
    supported (.alias tag name target) = (target.isAggregate || target.supported) := by
  rw [supported, isAggregate]
  cases target.stripCvTypedef <;> rfl

theorem inMemory_alias_of_aggregate (h : target.isAggregate = true) :
    inMemory (.alias tag name target) = target.hasUnalignedFields := by
  rw [isAggregate] at h
  rw [inMemory, hasUnalignedFields_strip target]
  cases hstripped : target.stripCvTypedef with
  | cls => rfl
  | array => rfl
  | _ =>
      rw [hstripped] at h
      cases h

theorem inMemory_alias_of_scalar (h : target.isAggregate = false) :
    inMemory (.alias tag name target) = target.inMemory := by
  rw [isAggregate] at h
  rw [inMemory]
  cases hstripped : target.stripCvTypedef with
  | cls =>
      rw [hstripped] at h
      cases h
  | array =>
      rw [hstripped] at h
      cases h
  | _ => rfl

/-- A scalar is classified behind a layer as without it. -/
theorem alias_classified {size : Nat} (hscalar : target.isAggregate = false)
    (h : Classified size target.supported target.inMemory target.counted
      target.getParameterClasses) :
    Classified size (supported (.alias tag name target)) (inMemory (.alias tag name target))
      (counted (.alias tag name target)) (getParameterClasses (.alias tag name target)) := by
  have hcounted : counted (.alias tag name target) = target.counted := by
    funext k
    rw [counted_alias, hscalar]
    rfl
  rw [supported_alias, inMemory_alias_of_scalar _ _ hscalar, hcounted, getParameterClasses_alias,
    hscalar]
  exact h

end Alias

theorem isNonTrivialNamed_of_scalar (dieName : Option String) {ty : Ty}
    (h : ty.isAggregate = false) : ty.isNonTrivialNamed dieName = .ok false := by
  rw [isAggregate] at h
  rw [isNonTrivialNamed_strip]
  cases hstripped : ty.stripCvTypedef with
  | cls =>
      rw [hstripped] at h
      cases h
  | array =>
      rw [hstripped] at h
      cases h
  | «alias» =>
      have hlayer := stripCvTypedef_isLayer ty
      rw [hstripped] at hlayer
      cases hlayer
  | _ => rfl

theorem isAggregate_of_integral {ty : Ty} (h : ty.isIntegral = true) : ty.isAggregate = false := by
  match ty with
  | .base .. => rfl
  | .enumeration .. => rfl
  | .alias _ _ target => exact @isAggregate_of_integral target h

/-- The types of bit-fields need one eightbyte. -/
theorem integral_classified {ty : Ty} (h : ty.isIntegral = true) :
    Classified 0 ty.supported ty.inMemory ty.counted ty.getParameterClasses := by
  match ty with
  | .base name encoding size =>
      have hne : encoding ≠ .float := of_decide_eq_true h
      exact base_classified name encoding fun hfloat => absurd hfloat hne
  | .enumeration size _ =>
      exact .of_ok (.none _) ⟨by simp [counted, ParameterClasses.none],
        by simp [counted, ParameterClasses.none]⟩
  | .alias tag name target =>
      have htarget : target.isIntegral = true := h
      exact alias_classified tag name (isAggregate_of_integral htarget)
        (integral_classified htarget)

/-- A class or array of at most two eightbytes is in memory if it has unaligned
fields, and what its fields or elements say otherwise. -/
theorem classifyClassType_classified {ty : Ty} {supported memory : Bool} {counted : Nat → Bool}
    {classify : Except Failure ParameterClasses} (hsize : ty.byteSize ≤ 16)
    (htrivial : ty.isNonTrivialForCalls = .ok false)
    (hok : supported = true →
      ∃ classes, classify = .ok classes ∧ MergedClasses ty.byteSize counted classes memory)
    (herror : supported = false → ∃ e, classify = .error e) :
    Classified ty.byteSize (ty.hasUnalignedFields || supported)
      (ty.hasUnalignedFields || memory) counted (classifyClassType ty classify) := by
  rw [classifyClassType, htrivial, ok_bind, if_neg Bool.false_ne_true]
  cases hunaligned : ty.hasUnalignedFields with
  | true =>
      rw [if_pos (.inr rfl)]
      exact ⟨fun _ => ⟨_, rfl, .memory⟩, fun h => by cases h⟩
  | false =>
      have hsmall : ¬ (ty.byteSize > 16 ∨ false = true) := by simp; omega
      rw [if_neg hsmall, Bool.false_or, Bool.false_or]
      refine ⟨fun hsupported => ?_, fun hsupported => ?_⟩
      · obtain ⟨classes, rfl, hmerged⟩ := hok hsupported
        exact ⟨_, rfl, hmerged.cleanup⟩
      · obtain ⟨e, rfl⟩ := herror hsupported
        exact ⟨e, rfl⟩

theorem byteSize_le_array (element : Ty) (upperBounds : List Nat) :
    element.byteSize ≤ byteSize (.array element upperBounds) := by
  have hgrows : ∀ (upperBounds : List Nat) (size : Nat),
      size ≤ upperBounds.foldl (fun size upper => size * (upper + 1)) size := by
    intro upperBounds
    induction upperBounds with
    | nil => exact fun size => Nat.le_refl size
    | cons upper rest ih =>
        intro size
        exact Nat.le_trans (Nat.le_mul_of_pos_right size (Nat.succ_pos upper)) (ih _)
  exact hgrows upperBounds element.byteSize

/-- An array counts what its elements count, over all of its length. -/
theorem spreadElement_merged {element : Ty} {upperBounds : List Nat} {classes : ParameterClasses}
    {memory : Bool} (h : SettledClasses element.byteSize element.counted classes memory) :
    MergedClasses (byteSize (.array element upperBounds)) (counted (.array element upperBounds))
      (spreadElement (byteSize (.array element upperBounds)) classes) memory := by
  cases h with
  | memory =>
      rw [spreadElement, if_neg (by simp)]
      exact .memory (.inl rfl)
  | eightbytes hbalanced htells =>
      replace hbalanced := hbalanced.mono (byteSize_le_array element upperBounds)
      by_cases hspread : 8 < byteSize (.array element upperBounds) ∧ classes.second = .noClass
      · obtain ⟨hlong, hsecond⟩ := hspread
        have hplain : classes.first.isPlain = true := by
          rcases hbalanced.plain with hplain | ⟨-, hne, -⟩
          · exact hplain.1
          · exact absurd hsecond hne
        have hcounted : element.counted 1 = false := by
          rw [← Bool.not_eq_true, ← htells.second]
          exact fun hne => hne hsecond
        rw [spreadElement, if_pos ⟨hlong, hsecond⟩]
        refine .eightbytes ⟨.inl ⟨hplain, hplain⟩⟩ ⟨?_, ?_⟩
        · simpa [counted] using htells.first
        · simpa [counted, hlong, hcounted] using htells.first
      · rw [spreadElement, if_neg hspread]
        refine .eightbytes hbalanced ⟨?_, ?_⟩
        · simpa [counted] using htells.first
        · rw [htells.second]
          simp only [counted, Bool.or_eq_true, Bool.and_eq_true, decide_eq_true_eq, true_and]
          constructor
          · exact .inl
          · rintro (hcounted | ⟨hlong, -⟩)
            · exact hcounted
            · exact htells.second.mp fun hnone => hspread ⟨hlong, hnone⟩

/-- Classifying fields on top of classes that are already there: what is counted
is added, what is in memory stays there, or the classification throws. -/
structure FieldsClassified (size : Nat) (supported memory : Bool) (counted : Nat → Bool)
    (step : ParameterClasses → Except Failure ParameterClasses) : Prop where
  ok : supported = true → ∀ classes, ∃ merged, step classes = .ok merged
  error : supported = false → ∀ classes, ∃ e, step classes = .error e
  keeps : ∀ {classes merged : ParameterClasses}, step classes = .ok merged →
    HasMemory classes ∨ memory = true → HasMemory merged
  adds : memory = false → ∀ {classes merged : ParameterClasses} {first second : Prop},
    step classes = .ok merged → Balanced size classes → Tells classes first second →
    Balanced size merged ∧ Tells merged (first ∨ counted 0 = true) (second ∨ counted 1 = true)

theorem FieldsClassified.keep (size : Nat) :
    FieldsClassified size true false (fun _ => false) .ok where
  ok := fun _ classes => ⟨classes, rfl⟩
  error := fun h => by cases h
  keeps := fun hstep hmemory => by
    cases hstep
    rcases hmemory with hmemory | hfalse
    · exact hmemory
    · cases hfalse
  adds := fun _ _ _ _ _ hstep hbalanced htells => by
    cases hstep
    exact ⟨hbalanced, by simpa using htells.first, by simpa using htells.second⟩

theorem FieldsClassified.throw {size : Nat} {memory : Bool} {counted : Nat → Bool}
    {step : ParameterClasses → Except Failure ParameterClasses} (e : Failure)
    (h : ∀ classes, step classes = .error e) :
    FieldsClassified size false memory counted step where
  ok := fun h => by cases h
  error := fun _ classes => ⟨e, h classes⟩
  keeps := fun hstep => by
    rw [h] at hstep
    cases hstep
  adds := fun _ _ _ _ _ hstep => by
    rw [h] at hstep
    cases hstep

theorem FieldsClassified.comp {size : Nat} {supported supported' memory memory' : Bool}
    {counted counted' : Nat → Bool}
    {step step' : ParameterClasses → Except Failure ParameterClasses}
    (h : FieldsClassified size supported memory counted step)
    (h' : FieldsClassified size supported' memory' counted' step') :
    FieldsClassified size (supported && supported') (memory || memory')
      (fun k => counted k || counted' k) (fun classes => step classes >>= step') where
  ok := fun hboth classes => by
    obtain ⟨hsupported, hsupported'⟩ := Bool.and_eq_true_iff.mp hboth
    obtain ⟨middle, hmiddle⟩ := h.ok hsupported classes
    obtain ⟨last, hlast⟩ := h'.ok hsupported' middle
    exact ⟨last, by rw [hmiddle, ok_bind, hlast]⟩
  error := fun hboth classes => by
    cases hstep : step classes with
    | error e => exact ⟨e, rfl⟩
    | ok middle =>
        cases supported with
        | true =>
            have hsupported' : supported' = false := by simpa using hboth
            exact h'.error hsupported' middle
        | false =>
            obtain ⟨e, he⟩ := h.error rfl classes
            rw [he] at hstep
            cases hstep
  keeps := fun hstep hmemory => by
    obtain ⟨middle, hmiddle, hlast⟩ := bind_eq_ok.mp hstep
    rw [Bool.or_eq_true, ← or_assoc] at hmemory
    rcases hmemory with hearlier | hlater
    · exact h'.keeps hlast (.inl (h.keeps hmiddle hearlier))
    · exact h'.keeps hlast (.inr hlater)
  adds := fun hneither classes merged first second hstep hbalanced htells => by
    obtain ⟨hmemory, hmemory'⟩ := Bool.or_eq_false_iff.mp hneither
    obtain ⟨middle, hmiddle, hlast⟩ := bind_eq_ok.mp hstep
    obtain ⟨hbalanced₁, htells₁⟩ := h.adds hmemory hmiddle hbalanced htells
    obtain ⟨hbalanced₂, htells₂⟩ := h'.adds hmemory' hlast hbalanced₁ htells₁
    refine ⟨hbalanced₂, ?_, ?_⟩
    · rw [htells₂.first, Bool.or_eq_true, or_assoc]
    · rw [htells₂.second, Bool.or_eq_true, or_assoc]

/-- What a located member adds whose type is not itself the DIE of a class. -/
def scalarStep (ty : Ty) (current : Nat) (classes : ParameterClasses) :
    Except Failure ParameterClasses :=
  if ty.isClassType then .ok classes
  else do
    let field ← ty.getParameterClasses
    classes.mergeField (current / 64) field

theorem scalarStep_of_scalar {ty : Ty} (hclass : ty.isClassType = false) (current : Nat)
    (classes : ParameterClasses) :
    scalarStep ty current classes = (do
      let field ← ty.getParameterClasses
      classes.mergeField (current / 64) field) := by
  simp [scalarStep, hclass]

/-- What is merged is the classification of a supported field, in an eightbyte. -/
theorem scalarStep_merged {ty : Ty} {fieldSize current : Nat} {classes merged : ParameterClasses}
    (hclass : ty.isClassType = false)
    (h : Classified fieldSize ty.supported ty.inMemory ty.counted ty.getParameterClasses)
    (hmerged : scalarStep ty current classes = .ok merged) :
    ty.supported = true ∧ current / 64 < 2 ∧ ∃ field,
      classes.mergeField (current / 64) field = .ok merged ∧
        SettledClasses fieldSize ty.counted field ty.inMemory := by
  rw [scalarStep_of_scalar hclass] at hmerged
  obtain ⟨field, hfield, hmerged⟩ := bind_eq_ok.mp hmerged
  have hnear : current / 64 < 2 := by
    by_contra hfar
    obtain ⟨n, hn⟩ : ∃ n, current / 64 = n + 2 := ⟨current / 64 - 2, by omega⟩
    rw [hn] at hmerged
    cases hmerged
  cases hsupported : ty.supported with
  | false =>
      obtain ⟨e, he⟩ := h.error hsupported
      rw [he] at hfield
      cases hfield
  | true =>
      obtain ⟨field', hfield', hsettled⟩ := h.ok hsupported
      rw [hfield] at hfield'
      cases hfield'
      exact ⟨rfl, hnear, field, hmerged, hsettled⟩

theorem scalarStep_classified {ty : Ty} {fieldSize size current : Nat}
    (h : ty.isClassType = false →
      Classified fieldSize ty.supported ty.inMemory ty.counted ty.getParameterClasses)
    (hfirst : current / 64 = 0 → fieldSize < 16 ∨ fieldSize ≤ size)
    (hsecond : current / 64 = 1 → fieldSize < 16) :
    FieldsClassified size (ty.isClassType || (ty.supported && decide (current / 64 < 2)))
      (!ty.isClassType && ty.inMemory)
      (fun k => !ty.isClassType &&
        (if current / 64 = 0 then ty.counted k else k = 1 && ty.counted 0))
      (scalarStep ty current) := by
  cases hclass : ty.isClassType with
  | true =>
      have hstep : scalarStep ty current = .ok := by
        funext classes
        simp [scalarStep, hclass]
      rw [hstep]
      simpa using FieldsClassified.keep size
  | false =>
      replace h := h hclass
      rw [Bool.false_or, Bool.not_false, Bool.true_and]
      refine ⟨fun hsupported classes => ?_, fun hsupported classes => ?_, fun hmerged hmemory => ?_,
        fun hmemory classes merged first second hmerged hbalanced htells => ?_⟩
      · simp only [Bool.and_eq_true, decide_eq_true_eq] at hsupported
        obtain ⟨field, hfield, -⟩ := h.ok hsupported.1
        obtain ⟨merged, hmerged⟩ := @mergeField_ok classes field _ hsupported.2
        exact ⟨merged, by rw [scalarStep_of_scalar hclass, hfield, ok_bind, hmerged]⟩
      · simp only [Bool.and_eq_false_iff, decide_eq_false_iff_not] at hsupported
        rcases hresult : scalarStep ty current classes with e | merged
        · exact ⟨e, rfl⟩
        · obtain ⟨hsupport, hnear, -⟩ := scalarStep_merged hclass h hresult
          rcases hsupported with hsupported | hfar
          · rw [hsupport] at hsupported
            cases hsupported
          · exact absurd hnear hfar
      · obtain ⟨-, -, field, hmerge, hsettled⟩ := scalarStep_merged hclass h hmerged
        rcases hmemory with hmemory | hmemory
        · exact hmemory.mergeField hmerge
        · rw [hmemory] at hsettled
          cases hsettled
          exact mergeField_memory hmerge
      · obtain ⟨-, hnear, field, hmerge, hsettled⟩ := scalarStep_merged hclass h hmerged
        rw [hmemory] at hsettled
        cases hsettled with
        | eightbytes hfieldBalanced hfieldTells =>
            by_cases hzero : current / 64 = 0
            · rw [hzero] at hmerge
              obtain ⟨merged', hmerged', hbalanced', htells'⟩ :=
                mergeField_zero hbalanced htells hfieldBalanced hfieldTells (hfirst hzero)
              rw [hmerge] at hmerged'
              cases hmerged'
              exact ⟨hbalanced', by simpa [hzero] using htells'⟩
            · have hone : current / 64 = 1 := by omega
              rw [hone] at hmerge
              obtain ⟨merged', hmerged', hbalanced', htells'⟩ :=
                mergeField_one hbalanced htells hfieldBalanced hfieldTells (hsecond hone)
              rw [hmerge] at hmerged'
              cases hmerged'
              exact ⟨hbalanced', by simpa [hone] using htells'⟩

/-- The fields of a class on top of nothing. -/
theorem FieldsClassified.merged {size : Nat} {supported memory : Bool} {counted : Nat → Bool}
    {step : ParameterClasses → Except Failure ParameterClasses}
    (h : FieldsClassified size supported memory counted step) (hsupported : supported = true) :
    ∃ classes, step .none = .ok classes ∧ MergedClasses size counted classes memory := by
  obtain ⟨classes, hstep⟩ := h.ok hsupported .none
  refine ⟨classes, hstep, ?_⟩
  cases memory with
  | true => exact .memory (h.keeps hstep (.inr rfl))
  | false =>
      have hnone : Tells .none False False := ⟨by simp [ParameterClasses.none],
        by simp [ParameterClasses.none]⟩
      obtain ⟨hbalanced, htells⟩ := h.adds rfl hstep (.none size) hnone
      exact .eightbytes hbalanced ⟨by simpa using htells.first, by simpa using htells.second⟩

theorem scalarStep_bind (ty : Ty) (current : Nat) (classes : ParameterClasses)
    (later : ParameterClasses → Except Failure ParameterClasses) :
    scalarStep ty current classes >>= later =
      if ty.isClassType then later classes
      else (do
        let field ← ty.getParameterClasses
        let classes ← classes.mergeField (current / 64) field
        later classes) := by
  unfold scalarStep
  split
  · rfl
  · cases ty.getParameterClasses <;> rfl

/-- A located member is classified at the offset where it is counted. -/
theorem classifyFields_located {classByteSize bitOffset : Nat} {ty : Ty} {info : MemberInfo}
    {rest : Children} {bitfield : Option (BitVec 8)} (hlocated : info.isLocated = true)
    (hbitfield : info.bitfieldOffset classByteSize = .ok bitfield) :
    classifyFields classByteSize bitOffset (.member ty info rest) = fun classes =>
      (match ty with
        | .cls _ _ _ children => classifyFields classByteSize
            (info.countedOffset classByteSize + bitOffset) children
        | ty => scalarStep ty (info.countedOffset classByteSize + bitOffset)) classes >>=
        classifyFields classByteSize bitOffset rest := by
  funext classes
  rw [classifyFields, if_pos hlocated, hbitfield, ok_bind]
  cases bitfield with
  | none =>
      have hoffset : info.countedOffset classByteSize = info.dataMemberLocation.getD 0 * 8 := by
        simp [MemberInfo.countedOffset, hbitfield]
      rw [hoffset]
      cases ty <;> first
        | rfl
        | exact (scalarStep_bind _ _ _ _).symm
  | some offset =>
      have hoffset : info.countedOffset classByteSize = offset.toNat := by
        simp [MemberInfo.countedOffset, hbitfield]
      rw [hoffset]
      cases ty <;> first
        | rfl
        | exact (scalarStep_bind _ _ _ _).symm

theorem countedOffset_of_not_bitfield {info : MemberInfo} (h : info.isBitfield = false)
    (classByteSize : Nat) :
    info.bitfieldOffset classByteSize = .ok none ∧
      info.countedOffset classByteSize = info.dataMemberLocation.getD 0 * 8 := by
  simp only [MemberInfo.isBitfield, Bool.or_eq_false_iff, Option.isSome_eq_false_iff,
    Option.isNone_iff_eq_none] at h
  have hnone : info.bitfieldOffset classByteSize = .ok none := by
    simp [MemberInfo.bitfieldOffset, h.1, h.2]
  exact ⟨hnone, by simp [MemberInfo.countedOffset, hnone]⟩

theorem supportedFields_located {classByteSize bitOffset : Nat} {ty : Ty} {info : MemberInfo}
    {rest : Children} {bitfield : Option (BitVec 8)} (hlocated : info.isLocated = true)
    (hbitfield : info.bitfieldOffset classByteSize = .ok bitfield) :
    supportedFields classByteSize bitOffset (.member ty info rest) =
      ((match ty with
        | .cls _ _ _ children => supportedFields classByteSize
            (info.countedOffset classByteSize + bitOffset) children
        | ty => ty.isClassType ||
            (ty.supported && (info.countedOffset classByteSize + bitOffset) / 64 < 2)) &&
        supportedFields classByteSize bitOffset rest) := by
  rw [supportedFields, hlocated, hbitfield]
  rfl

theorem countedFields_located {classByteSize bitOffset : Nat} {ty : Ty} {info : MemberInfo}
    {rest : Children} (hlocated : info.isLocated = true) :
    countedFields classByteSize bitOffset (.member ty info rest) = fun k =>
      (match ty with
        | .cls _ _ _ children => countedFields classByteSize
            (info.countedOffset classByteSize + bitOffset) children
        | ty => fun k => !ty.isClassType &&
            (if (info.countedOffset classByteSize + bitOffset) / 64 = 0 then ty.counted k
              else k = 1 && ty.counted 0)) k ||
        countedFields classByteSize bitOffset rest k := by
  funext k
  rw [countedFields, hlocated]
  cases ty <;> rfl

theorem fieldsInMemory_located {ty : Ty} {info : MemberInfo} {rest : Children}
    (hlocated : info.isLocated = true) :
    fieldsInMemory (.member ty info rest) =
      ((match ty with
        | .cls _ _ _ children => fieldsInMemory children
        | ty => !ty.isClassType && ty.inMemory) || fieldsInMemory rest) := by
  cases ty <;> simp [fieldsInMemory, hlocated]

/-- A member without a location is passed over. -/
theorem member_unlocated {ty : Ty} {info : MemberInfo} (hlocated : info.isLocated = false)
    (classByteSize bitOffset : Nat) (rest : Children) :
    supportedFields classByteSize bitOffset (.member ty info rest) =
        supportedFields classByteSize bitOffset rest ∧
      fieldsInMemory (.member ty info rest) = fieldsInMemory rest ∧
      countedFields classByteSize bitOffset (.member ty info rest) =
        countedFields classByteSize bitOffset rest ∧
      classifyFields classByteSize bitOffset (.member ty info rest) =
        classifyFields classByteSize bitOffset rest := by
  refine ⟨by simp [supportedFields, hlocated], ?_, funext fun k => ?_, funext fun classes => ?_⟩
  · cases ty <;> simp [fieldsInMemory, hlocated]
  · simp [countedFields, hlocated]
  · simp [classifyFields, hlocated]

/-- A bit-field is integral, any other member lies where it is counted. -/
theorem member_placed {ty : Ty} {info : MemberInfo} {classByteSize size : Nat}
    (h : (if info.isBitfield then ty.isIntegral
      else decide (info.dataMemberLocation.getD 0 + ty.byteSize ≤ size)) = true) :
    ty.isIntegral = true ∨ (info.countedOffset classByteSize =
        info.dataMemberLocation.getD 0 * 8 ∧
      info.dataMemberLocation.getD 0 + ty.byteSize ≤ size) := by
  cases hfield : info.isBitfield with
  | true =>
      rw [hfield] at h
      exact .inl h
  | false =>
      rw [hfield] at h
      exact .inr ⟨(countedOffset_of_not_bitfield hfield _).2, of_decide_eq_true h⟩

mutual

/-- The classification of a type counts its eightbytes as `counted` does. -/
theorem classified (ty : Ty) (hfits : ty.fits = true) (hsize : ty.byteSize ≤ 16)
    (htrivial : ty.isNonTrivialForCalls = .ok false) :
    Classified ty.byteSize ty.supported ty.inMemory ty.counted ty.getParameterClasses := by
  match ty with
  | .base name encoding size => exact base_classified name encoding fun _ => Nat.le_refl size
  | .enumeration size _ =>
      exact .of_ok (.none _) ⟨by simp [counted, ParameterClasses.none],
        by simp [counted, ParameterClasses.none]⟩
  | .pointer target => exact .of_ok ⟨.inl ⟨rfl, rfl⟩⟩ ⟨by simp [counted], by simp [counted]⟩
  | .reference rvalue size =>
      exact .of_ok ⟨.inl ⟨rfl, rfl⟩⟩ ⟨by simp [counted], by simp [counted]⟩
  | .memberPointer toFunction =>
      exact .of_ok (.none _) ⟨by simp [counted, ParameterClasses.none],
        by simp [counted, ParameterClasses.none]⟩
  | .array element upperBounds =>
      have hle := byteSize_le_array element upperBounds
      have helement := classified element hfits (by omega) htrivial
      refine classifyClassType_classified hsize htrivial (fun hsupported => ?_)
        (fun hsupported => ?_)
      · obtain ⟨classes, hclasses, hsettled⟩ := helement.ok hsupported
        exact ⟨_, by rw [hclasses]; rfl, spreadElement_merged hsettled⟩
      · obtain ⟨e, he⟩ := helement.error hsupported
        exact ⟨e, by rw [he]; rfl⟩
  | .cls tag name size children =>
      have hfields :=
        fieldsClassified (size.getD 0) children name name 0 (size.getD 0) (size.getD 0)
        hfits (by omega) hsize htrivial
      exact classifyClassType_classified hsize htrivial hfields.merged
        (fun hsupported => hfields.error hsupported .none)
  | .alias tag name target =>
      cases haggregate : target.isAggregate with
      | true =>
          have hcounted : counted (.alias tag name target) = fun _ => false := by
            funext k
            rw [counted_alias, haggregate]
            rfl
          have hnone : Classified target.byteSize (target.hasUnalignedFields || true)
              (target.hasUnalignedFields || false) (fun _ => false)
              (classifyClassType (.alias tag name target) (.ok .none)) :=
            classifyClassType_classified hsize htrivial
              (fun _ => ⟨_, rfl, .eightbytes (.none _)
                ⟨by simp [ParameterClasses.none], by simp [ParameterClasses.none]⟩⟩)
              (fun h => by cases h)
          rw [Bool.or_true, Bool.or_false] at hnone
          rw [supported_alias, inMemory_alias_of_aggregate _ _ haggregate, hcounted,
            getParameterClasses_alias, haggregate]
          exact hnone
      | false =>
          refine alias_classified tag name haggregate (classified target hfits hsize ?_)
          exact isNonTrivialNamed_of_scalar target.name haggregate
  | .other size =>
      exact .of_ok (.none _) ⟨by simp [counted, ParameterClasses.none],
        by simp [counted, ParameterClasses.none]⟩
  termination_by sizeOf ty

/-- The same for the members of a class that lies, from a bit offset on, within
an object of some size. -/
theorem fieldsClassified (classByteSize : Nat) (children : Children)
    (dieName className : Option String) (bitOffset size bound : Nat)
    (hfit : fieldsFit size children = true) (hwithin : bitOffset + 8 * size ≤ 8 * bound)
    (hbound : bound ≤ 16)
    (htrivial : isNonTrivialChildren dieName className children = .ok false) :
    FieldsClassified bound (supportedFields classByteSize bitOffset children)
      (fieldsInMemory children) (countedFields classByteSize bitOffset children)
      (classifyFields classByteSize bitOffset children) := by
  match children with
  | .nil => exact .keep bound
  | .member ty info rest =>
      simp only [fieldsFit, Bool.and_eq_true] at hfit
      obtain ⟨hplace, hrestFit⟩ := hfit
      obtain ⟨htyTrivial, hrestTrivial⟩ := isNonTrivialChildren_member htrivial
      have hrest := fieldsClassified classByteSize rest dieName className bitOffset size bound
        hrestFit hwithin hbound hrestTrivial
      cases hlocated : info.isLocated with
      | false =>
          obtain ⟨hsupported, hmemory, hcounted, hclassify⟩ :=
            @member_unlocated ty info hlocated classByteSize bitOffset rest
          rw [hsupported, hmemory, hcounted, hclassify]
          exact hrest
      | true =>
          rw [hlocated, Bool.not_true, Bool.false_or, Bool.and_eq_true] at hplace
          obtain ⟨hty, hplace⟩ := hplace
          replace htyTrivial := htyTrivial hlocated
          cases hbitfield : info.bitfieldOffset classByteSize with
          | error e =>
              have hsupported : supportedFields classByteSize bitOffset (.member ty info rest) =
                  false := by
                simp [supportedFields, hlocated, hbitfield, Except.isOk, Except.toBool]
              rw [hsupported]
              refine .throw e fun classes => ?_
              rw [classifyFields, if_pos hlocated, hbitfield]
              rfl
          | ok bitfield =>
              rw [classifyFields_located hlocated hbitfield,
                supportedFields_located hlocated hbitfield, countedFields_located hlocated,
                fieldsInMemory_located hlocated]
              refine FieldsClassified.comp ?_ hrest
              rcases @member_placed ty info classByteSize size hplace with
                hintegral | ⟨hoffset, hlies⟩
              · cases ty with
                | cls => cases hintegral
                | _ =>
                    exact scalarStep_classified (fun _ => integral_classified hintegral)
                      (fun _ => .inl (by omega)) (fun _ => by omega)
              · cases ty with
                | cls tag nestedName nestedSize nested =>
                    change info.dataMemberLocation.getD 0 + nestedSize.getD 0 ≤ size at hlies
                    exact fieldsClassified classByteSize nested nestedName nestedName _
                      (nestedSize.getD 0) bound hty (by omega) hbound htyTrivial
                | _ =>
                    exact scalarStep_classified
                      (fun _ => classified _ hty (by omega) htyTrivial) (by omega) (by omega)
  | .inheritance ty location virtuality rest =>
      simp only [isNonTrivialChildren, returnIf_eq_false_iff] at htrivial
      exact fieldsClassified classByteSize rest dieName className bitOffset size bound hfit hwithin
        hbound htrivial.2.2
  | .subprogram info rest =>
      simp only [isNonTrivialChildren, returnIf_eq_false_iff] at htrivial
      exact fieldsClassified classByteSize rest dieName className bitOffset size bound hfit hwithin
        hbound htrivial.2.2
  | .other _ rest =>
      exact fieldsClassified classByteSize rest dieName className bitOffset size bound hfit hwithin
        hbound htrivial
  termination_by sizeOf children

end

/-- The class of an eightbyte is absent exactly when no scalar leaf overlaps
it. -/
def Covered (ty : Ty) : Prop :=
  ∃ classes, ty.getParameterClasses = .ok classes ∧
    (classes.first = .noClass ↔ ty.occupied 0 = false) ∧
    (classes.second = .noClass ↔ ty.occupied 1 = false)

theorem classifyClassType_eq_ok {ty : Ty} {classify : Except Failure ParameterClasses}
    {classes : ParameterClasses} (h : ty.classifyClassType classify = .ok classes) :
    ty.isNonTrivialForCalls = .ok false := by
  unfold classifyClassType at h
  obtain ⟨answer, hanswer, h⟩ := bind_eq_ok.mp h
  cases answer with
  | true => cases h
  | false => exact hanswer

/-- The code classifies no type that it takes for non-trivial, and none about which it
cannot tell. -/
theorem isNonTrivialForCalls_of_classified {ty : Ty} {classes : ParameterClasses}
    (h : ty.getParameterClasses = .ok classes) : ty.isNonTrivialForCalls = .ok false := by
  match ty with
  | .base .. => rfl
  | .enumeration .. => rfl
  | .pointer .. => rfl
  | .reference .. => rfl
  | .memberPointer .. => rfl
  | .array .. => exact classifyClassType_eq_ok h
  | .cls .. => exact classifyClassType_eq_ok h
  | .alias tag name target =>
      rw [getParameterClasses_alias] at h
      cases haggregate : target.isAggregate with
      | true =>
          rw [if_pos haggregate] at h
          exact classifyClassType_eq_ok h
      | false => exact isNonTrivialNamed_of_scalar name haggregate
  | .other .. => rfl

namespace ClassificationWitness

def located (location : Nat) : MemberInfo :=
  ⟨none, false, some location, none, none, none, none, none⟩

/-- A pointer, a `float` and an array of two characters behind it. -/
def record : Ty :=
  .cls .structure_ none (some 16)
    (.member (.pointer 0) (located 0)
      (.member (.base "float" .float 4) (located 8)
        (.member (.array (.base "char" .signedChar 1) [1]) (located 12) .nil)))

end ClassificationWitness

end Ty

end Gsdb
