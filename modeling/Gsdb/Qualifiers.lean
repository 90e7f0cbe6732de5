/-
The questions of the calling convention, asked of a type behind qualifiers and
typedefs: which of the answers are those of the type itself.
-/
import Gsdb.Classification
import Gsdb.Triviality

namespace Gsdb

/-- A const, volatile or typedef DIE around a type. -/
structure Layer where
  tag : AliasTag
  name : Option String
deriving DecidableEq, Repr

namespace Ty

/-- A type behind layers, the outermost first. -/
def wrap : List Layer → Ty → Ty
  | [], ty => ty
  | layer :: rest, ty => .alias layer.tag layer.name (wrap rest ty)

/-- Two types to which the calling convention has the same answers. -/
structure SameAnswers (a b : Ty) : Prop where
  byteSize : a.byteSize = b.byteSize
  alignment : a.alignment = b.alignment
  unaligned : a.hasUnalignedFields = b.hasUnalignedFields
  isClass : a.isClassType = b.isClassType
  isReference : a.isReferenceType = b.isReferenceType
  nonTrivial : a.isNonTrivialForCalls = b.isNonTrivialForCalls
  classes : a.getParameterClasses = b.getParameterClasses

section Layers

variable (layers : List Layer) (ty : Ty)

theorem stripCvTypedef_wrap : (wrap layers ty).stripCvTypedef = ty.stripCvTypedef := by
  induction layers with
  | nil => rfl
  | cons layer rest ih => exact ih

theorem byteSize_wrap : (wrap layers ty).byteSize = ty.byteSize := by
  induction layers with
  | nil => rfl
  | cons layer rest ih => exact ih

theorem alignment_wrap : (wrap layers ty).alignment = ty.alignment := by
  induction layers with
  | nil => rfl
  | cons layer rest ih => exact ih

theorem hasUnalignedFields_wrap :
    (wrap layers ty).hasUnalignedFields = ty.hasUnalignedFields := by
  induction layers with
  | nil => rfl
  | cons layer rest ih => exact ih

theorem isNonTrivialNamed_wrap (dieName : Option String) :
    (wrap layers ty).isNonTrivialNamed dieName = ty.isNonTrivialNamed dieName := by
  induction layers with
  | nil => rfl
  | cons layer rest ih => exact ih

theorem isClassType_wrap : (wrap layers ty).isClassType = ty.isClassType := by
  rw [isClassType, isClassType, stripCvTypedef_wrap]

theorem isReferenceType_wrap : (wrap layers ty).isReferenceType = ty.isReferenceType := by
  rw [isReferenceType, isReferenceType, stripCvTypedef_wrap]

end Layers

section Triviality

/-- A place in a class at which the question whether it is non-trivial ends: it is, or a
`void` has no type to compare.  A function that resembles a copy or move constructor ends
it if the class is asked about under the name of that function. -/
structure Stop where
  name : Option (Option String)
  throws : Bool
deriving DecidableEq, Repr

namespace Stop

/-- The question gets to the stop when the class is asked about under a name. -/
def isMet (dieName : Option String) (stop : Stop) : Bool :=
  stop.name = none || stop.name = some dieName

def ofFind (find : Find) : List Stop :=
  if find.looked then
    match find.feature with
    | .malformed => [⟨none, true⟩]
    | .defaultedNo | .renamed => []
    | _ => [⟨none, false⟩]
  else []

def ofConstructor (className : Option String) (info : SubprogramInfo) : List Stop :=
  if info.isMalformed className then [⟨some info.name, true⟩]
  else if info.resemblesCopyOrMove className ∧ info.defaulted ≠ some 0 then
    [⟨some info.name, false⟩]
  else []

/-- The first stop that is met throws or does not, if there is one. -/
def first (dieName : Option String) (stops : List Stop) : Option Bool :=
  (stops.find? (·.isMet dieName)).map (·.throws)

def outcome : Option Bool → Except Failure Bool
  | none => .ok false
  | some true => .error (.error "Attribute not found!")
  | some false => .ok true

/-- What the question ends with. -/
def answer (dieName : Option String) (stops : List Stop) : Except Failure Bool :=
  outcome (first dieName stops)

variable {dieName className : Option String}

theorem answer_cons_of_met {stop : Stop} (stops : List Stop) (h : stop.isMet dieName = true) :
    answer dieName (stop :: stops) = outcome (some stop.throws) := by
  rw [answer, first, List.find?_cons_of_pos h]
  rfl

theorem answer_append_find (find : Find) (stops : List Stop) :
    answer dieName (ofFind find ++ stops) = returnIf find.answer (answer dieName stops) := by
  rcases find with ⟨feature, looked, owned⟩
  cases looked with
  | false => rfl
  | true => cases feature <;> rfl

theorem answer_append_finds (finds : List Find) (stops : List Stop) :
    answer dieName (finds.flatMap ofFind ++ stops) =
      returnIf (Find.answerAll finds) (answer dieName stops) := by
  induction finds with
  | nil => rfl
  | cons find rest ih =>
      rw [List.flatMap_cons, List.append_assoc, answer_append_find, ih, Find.answerAll,
        returnIf_assoc]

theorem answer_append_constructor (info : SubprogramInfo) (stops : List Stop) :
    answer dieName (ofConstructor className info ++ stops) =
      returnIf (do
        let isConstructor ← info.isCopyOrMoveConstructor dieName className
        pure (isConstructor && info.isUserProvided)) (answer dieName stops) := by
  by_cases hname : dieName = info.name
  · rw [SubprogramInfo.isCopyOrMoveConstructor_eq hname, ofConstructor,
      SubprogramInfo.isUserProvided_eq]
    cases info.isMalformed className with
    | true => exact answer_cons_of_met _ (by simp [isMet, hname])
    | false =>
        rw [if_neg Bool.false_ne_true, if_neg Bool.false_ne_true, ok_bind]
        by_cases hboth : info.resemblesCopyOrMove className = true ∧ info.defaulted ≠ some 0
        · rw [if_pos hboth, hboth.1, decide_eq_true hboth.2]
          exact answer_cons_of_met _ (by simp [isMet, hname])
        · have hfalse : (info.resemblesCopyOrMove className &&
              decide (info.defaulted ≠ some 0)) = false := by
            simpa using hboth
          rw [if_neg hboth, hfalse]
          rfl
  · have hother : info.isCopyOrMoveConstructor dieName className = .ok false := if_pos hname
    have hunmet : ∀ stop ∈ ofConstructor className info, stop.isMet dieName = false := by
      intro stop hstop
      have hstopName : stop.name = some info.name := by
        unfold ofConstructor at hstop
        split at hstop
        · rw [List.mem_singleton.mp hstop]
        · split at hstop
          · rw [List.mem_singleton.mp hstop]
          · cases hstop
      simp [isMet, hstopName, Ne.symm hname]
    have hnone : (ofConstructor className info).find? (·.isMet dieName) = none := by
      rw [List.find?_eq_none]
      exact fun stop hstop => by rw [hunmet stop hstop]; exact Bool.false_ne_true
    rw [hother, answer, first, List.find?_append, hnone]
    rfl

theorem outcome_injective {a b : Option Bool} (h : outcome a = outcome b) : a = b := by
  rcases a with _ | _ | _ <;> rcases b with _ | _ | _ <;> first | rfl | cases h

theorem answer_eq_iff (outer inner : Option String) (stops : List Stop) :
    answer outer stops = answer inner stops ↔ first outer stops = first inner stops :=
  ⟨outcome_injective, congrArg outcome⟩

end Stop

/-- The stops among the children of a class, in order. -/
def stops (className : Option String) : Children → List Stop
  | .nil => []
  | .member ty info rest =>
      ((ty.features ty.name).map (Find.through info)).flatMap Stop.ofFind ++
        (((Feature.virtualities info.virtuality).map Feature.here).flatMap Stop.ofFind ++
          stops className rest)
  | .inheritance ty _ virtuality rest =>
      (ty.features ty.name).flatMap Stop.ofFind ++
        (((Feature.virtualities virtuality).map Feature.here).flatMap Stop.ofFind ++
          stops className rest)
  | .subprogram info rest =>
      ((Feature.virtualities info.virtuality).map Feature.here).flatMap Stop.ofFind ++
        (Stop.ofConstructor className info ++
          (((Feature.destructors info).map Feature.here).flatMap Stop.ofFind ++
            stops className rest))
  | .other _ rest => stops className rest

/-- For the class behind the layers, if there is one, the first stop that is met under one
name is as the first that is met under the other. -/
def KeepsTriviality (outer inner : Option String) (ty : Ty) : Prop :=
  ∀ tag name size children, ty.stripCvTypedef = .cls tag name size children →
    Stop.first outer (stops name children) = Stop.first inner (stops name children)

theorem isNonTrivialChildren_eq_answer (dieName className : Option String)
    (children : Children) :
    isNonTrivialChildren dieName className children =
      Stop.answer dieName (stops className children) := by
  cases children with
  | nil => rfl
  | member ty info rest =>
      rw [isNonTrivialChildren, isNonTrivialChildren_eq_answer dieName className rest, stops,
        Stop.answer_append_finds, Stop.answer_append_finds, Find.answerAll_through,
        Feature.answerAll_virtualities, isNonTrivialNamed_eq]
  | inheritance ty _ virtuality rest =>
      rw [isNonTrivialChildren, isNonTrivialChildren_eq_answer dieName className rest, stops,
        Stop.answer_append_finds, Stop.answer_append_finds, Feature.answerAll_virtualities,
        isNonTrivialNamed_eq]
  | subprogram info rest =>
      rw [isNonTrivialChildren, isNonTrivialChildren_eq_answer dieName className rest, stops,
        Stop.answer_append_finds, Stop.answer_append_constructor, Stop.answer_append_finds,
        Feature.answerAll_virtualities, Feature.answerAll_destructors,
        SubprogramInfo.isNonTrivial_eq, returnIf_assoc]
  | other _ rest => exact isNonTrivialChildren_eq_answer dieName className rest

theorem isNonTrivialNamed_eq_iff (outer inner : Option String) (ty : Ty) :
    ty.isNonTrivialNamed outer = ty.isNonTrivialNamed inner ↔ KeepsTriviality outer inner ty := by
  rw [isNonTrivialNamed_strip outer, isNonTrivialNamed_strip inner, KeepsTriviality]
  cases hstripped : ty.stripCvTypedef with
  | cls tag name size children =>
      rw [isNonTrivialNamed, isNonTrivialNamed, isNonTrivialChildren_eq_answer,
        isNonTrivialChildren_eq_answer, Stop.answer_eq_iff]
      constructor
      · intro h _ _ _ _ heq
        cases heq
        exact h
      · intro h
        exact h _ _ _ _ rfl
  | «alias» =>
      have hlayer := stripCvTypedef_isLayer ty
      rw [hstripped] at hlayer
      cases hlayer
  | _ => exact iff_of_true rfl fun _ _ _ _ heq => by cases heq

end Triviality

section Classes

/-- A field has no class for the eightbyte that it starts in, nor for the next. -/
def AbsentAt (index : Nat) (field : ParameterClasses) : Prop :=
  (index = 0 ∧ field = .none) ∨ (index = 1 ∧ field.first = .noClass)

/-- No located member of a class has a class of its own.  Members whose type is
itself the DIE of a class stand for their own members. -/
def Classless (classByteSize bitOffset : Nat) : Children → Prop
  | .nil => True
  | .member ty info rest =>
      (info.isLocated = true → (∃ bitfield, info.bitfieldOffset classByteSize = .ok bitfield) ∧
        match ty with
        | .cls _ _ _ children =>
            Classless classByteSize (info.countedOffset classByteSize + bitOffset) children
        | ty => ty.isClassType = true ∨ ∃ field, ty.getParameterClasses = .ok field ∧
            AbsentAt ((info.countedOffset classByteSize + bitOffset) / 64) field) ∧
      Classless classByteSize bitOffset rest
  | .inheritance _ _ _ rest => Classless classByteSize bitOffset rest
  | .subprogram _ rest => Classless classByteSize bitOffset rest
  | .other _ rest => Classless classByteSize bitOffset rest

theorem mergeField_eq_none_iff {classes field : ParameterClasses} {index : Nat} :
    classes.mergeField index field = .ok .none ↔ classes = .none ∧ AbsentAt index field := by
  rcases classes with ⟨first, second⟩
  rcases field with ⟨fieldFirst, fieldSecond⟩
  rcases index with _ | _ | index
  · simp only [ParameterClasses.mergeField, ParameterClasses.none, AbsentAt, Except.ok.injEq,
      ParameterClasses.mk.injEq, merge_eq_noClass_iff]
    grind
  · simp only [ParameterClasses.mergeField, ParameterClasses.none, AbsentAt, Except.ok.injEq,
      ParameterClasses.mk.injEq, merge_eq_noClass_iff]
    grind
  · simp [ParameterClasses.mergeField, AbsentAt]

theorem scalarStep_eq_none_iff {ty : Ty} {current : Nat} {classes : ParameterClasses} :
    scalarStep ty current classes = .ok .none ↔
      classes = .none ∧ (ty.isClassType = true ∨ ∃ field, ty.getParameterClasses = .ok field ∧
        AbsentAt (current / 64) field) := by
  unfold scalarStep
  cases hclass : ty.isClassType with
  | true => simp
  | false =>
      cases hfield : ty.getParameterClasses with
      | error e => simp [error_bind]
      | ok field =>
          rw [if_neg (by simp), ok_bind, mergeField_eq_none_iff]
          simp

theorem classless_member {classByteSize bitOffset : Nat} {ty : Ty} {info : MemberInfo}
    {rest : Children} :
    Classless classByteSize bitOffset (.member ty info rest) ↔
      (info.isLocated = true → (∃ bitfield, info.bitfieldOffset classByteSize = .ok bitfield) ∧
        match ty with
        | .cls _ _ _ children =>
            Classless classByteSize (info.countedOffset classByteSize + bitOffset) children
        | ty => ty.isClassType = true ∨ ∃ field, ty.getParameterClasses = .ok field ∧
            AbsentAt ((info.countedOffset classByteSize + bitOffset) / 64) field) ∧
      Classless classByteSize bitOffset rest := by
  cases ty <;> rfl

theorem bind_eq_none_iff {x : Except Failure ParameterClasses}
    {later : ParameterClasses → Except Failure ParameterClasses} {rest : Prop}
    (h : ∀ classes, later classes = .ok .none ↔ classes = .none ∧ rest) :
    x >>= later = .ok .none ↔ x = .ok .none ∧ rest := by
  cases x with
  | error e => simp [error_bind]
  | ok classes =>
      rw [ok_bind, h, Except.ok.injEq]

/-- The fields of a class give it no class exactly if none of them has one. -/
theorem classifyFields_eq_none_iff (classByteSize bitOffset : Nat) (children : Children)
    (classes : ParameterClasses) :
    classifyFields classByteSize bitOffset children classes = .ok .none ↔
      classes = .none ∧ Classless classByteSize bitOffset children := by
  cases children with
  | nil => simp [classifyFields, Classless]
  | member ty info rest =>
      have hrest := classifyFields_eq_none_iff classByteSize bitOffset rest
      rw [classless_member]
      cases hlocated : info.isLocated with
      | false =>
          rw [classifyFields, if_neg (by simp [hlocated]), hrest]
          simp
      | true =>
          cases hbitfield : info.bitfieldOffset classByteSize with
          | error e =>
              rw [classifyFields, if_pos hlocated, hbitfield, error_bind]
              simp
          | ok bitfield =>
              rw [classifyFields_located hlocated hbitfield]
              simp only [Except.ok.injEq, exists_eq', true_and, forall_const]
              rw [bind_eq_none_iff hrest]
              cases ty with
              | cls tag name size nested =>
                  rw [classifyFields_eq_none_iff classByteSize
                    (info.countedOffset classByteSize + bitOffset) nested, and_assoc]
              | _ => rw [scalarStep_eq_none_iff, and_assoc]
  | inheritance _ _ _ rest => exact classifyFields_eq_none_iff classByteSize bitOffset rest classes
  | subprogram _ rest => exact classifyFields_eq_none_iff classByteSize bitOffset rest classes
  | other _ rest => exact classifyFields_eq_none_iff classByteSize bitOffset rest classes
  termination_by sizeOf children

theorem cleanup_eq_none_iff (classes : ParameterClasses) :
    classes.cleanup = .none ↔ classes = .none := by
  rcases classes with ⟨first, second⟩
  cases first <;> cases second <;> decide

theorem spreadElement_eq_none_iff (size : Nat) (classes : ParameterClasses) :
    spreadElement size classes = .none ↔ classes = .none := by
  unfold spreadElement
  split
  · rcases classes with ⟨first, second⟩
    simp_all [ParameterClasses.none]
  · rfl

theorem map_eq_ok_iff {x : Except Failure ParameterClasses}
    {f : ParameterClasses → ParameterClasses}
    (hf : ∀ classes, f classes = .none ↔ classes = .none) :
    x.map f = .ok .none ↔ x = .ok .none := by
  cases x with
  | error e => simp [Except.map]
  | ok classes => simp [Except.map, hf]

/-- A class or array has the classes of its fields or elements: it is trivial for
calls, no larger than two eightbytes and has no unaligned fields. -/
def PassedByFields (ty : Ty) : Prop :=
  ty.isNonTrivialForCalls = .ok false ∧ ty.byteSize ≤ 16 ∧ ty.hasUnalignedFields = false

/-- A class or array, as it is and not behind a layer, has fields or elements
without a class if it has the classes of these. -/
def KeepsClasses : Ty → Prop
  | .cls tag name size children => PassedByFields (.cls tag name size children) →
      Classless (size.getD 0) 0 children
  | .array element upperBounds => PassedByFields (.array element upperBounds) →
      element.getParameterClasses = .ok .none
  | _ => True

theorem classifyClassType_congr {outer ty : Ty} {x y : Except Failure ParameterClasses}
    (hnonTrivial : outer.isNonTrivialForCalls = ty.isNonTrivialForCalls)
    (hsize : outer.byteSize = ty.byteSize)
    (hunaligned : outer.hasUnalignedFields = ty.hasUnalignedFields) :
    classifyClassType outer x = classifyClassType ty y ↔
      (PassedByFields ty → x.map ParameterClasses.cleanup = y.map ParameterClasses.cleanup) := by
  unfold classifyClassType PassedByFields
  rw [hnonTrivial, hsize, hunaligned]
  rcases ty.isNonTrivialForCalls with e | _ | _
  · simp [error_bind]
  · by_cases hlarge : ty.byteSize > 16 ∨ ty.hasUnalignedFields = true
    · have hnot : ¬ (ty.byteSize ≤ 16 ∧ ty.hasUnalignedFields = false) := by
        rintro ⟨hle, haligned⟩
        rcases hlarge with hgt | hunaligned
        · omega
        · rw [haligned] at hunaligned
          cases hunaligned
      simp [ok_bind, hlarge, hnot]
    · have hboth : ty.byteSize ≤ 16 ∧ ty.hasUnalignedFields = false := by
        rw [not_or, Bool.not_eq_true] at hlarge
        exact ⟨Nat.le_of_not_lt hlarge.1, hlarge.2⟩
      rw [ok_bind, ok_bind, if_neg Bool.false_ne_true, if_neg hlarge, if_neg Bool.false_ne_true,
        if_neg hlarge]
      simp [hboth]
  · simp [ok_bind]

theorem isAggregate_wrap (layers : List Layer) (ty : Ty) :
    (wrap layers ty).isAggregate = ty.isAggregate := by
  rw [isAggregate, isAggregate, stripCvTypedef_wrap]

theorem getParameterClasses_wrap_scalar {layers : List Layer} {ty : Ty}
    (h : ty.isAggregate = false) : (wrap layers ty).getParameterClasses =
        ty.getParameterClasses := by
  induction layers with
  | nil => rfl
  | cons layer rest ih =>
      rw [wrap, getParameterClasses_alias, isAggregate_wrap, h, if_neg Bool.false_ne_true, ih]

theorem getParameterClasses_wrap_aggregate {layer : Layer} {rest : List Layer} {ty : Ty}
    (h : ty.isAggregate = true) :
    (wrap (layer :: rest) ty).getParameterClasses =
      classifyClassType (wrap (layer :: rest) ty) (.ok .none) := by
  rw [wrap, getParameterClasses_alias, isAggregate_wrap, h, if_pos rfl]

/-- Behind layers a type keeps its classes exactly if it has no fields or elements
that give it a class. -/
theorem getParameterClasses_wrap_iff {layer : Layer} {rest : List Layer} {ty : Ty}
    (hnonTrivial : (wrap (layer :: rest) ty).isNonTrivialForCalls = ty.isNonTrivialForCalls) :
    (wrap (layer :: rest) ty).getParameterClasses = ty.getParameterClasses ↔ KeepsClasses ty := by
  have hcongr := @classifyClassType_congr (wrap (layer :: rest) ty) ty
  simp only [hnonTrivial, byteSize_wrap, hasUnalignedFields_wrap, forall_const] at hcongr
  have hnone : (Except.ok ParameterClasses.none : Except Failure ParameterClasses).map
      ParameterClasses.cleanup = .ok .none := rfl
  cases ty with
  | cls tag name size children =>
      rw [getParameterClasses_wrap_aggregate rfl, getParameterClasses, hcongr, hnone, KeepsClasses]
      refine forall_congr' fun _ => ?_
      rw [eq_comm, map_eq_ok_iff cleanup_eq_none_iff, classifyFields_eq_none_iff]
      simp
  | array element upperBounds =>
      rw [getParameterClasses_wrap_aggregate rfl, getParameterClasses, hcongr, hnone, KeepsClasses]
      refine forall_congr' fun _ => ?_
      rw [eq_comm, map_eq_ok_iff cleanup_eq_none_iff,
        map_eq_ok_iff (spreadElement_eq_none_iff _)]
  | «alias» tag name target =>
      refine iff_of_true ?_ trivial
      cases haggregate : isAggregate (.alias tag name target) with
      | false => exact getParameterClasses_wrap_scalar haggregate
      | true =>
          have htarget : target.isAggregate = true := haggregate
          rw [getParameterClasses_wrap_aggregate haggregate, getParameterClasses_alias, htarget,
            if_pos rfl, hcongr]
          exact fun _ => rfl
  | _ => exact iff_of_true (getParameterClasses_wrap_scalar rfl) trivial

end Classes

namespace QualifiersWitness

/-- A structure with one `long`. -/
def record : Ty :=
  .cls .structure_ "P" (some 8)
    (.member (.base "long int" .signed 8) ⟨"x", false, some 0, none, none, none, none, none⟩ .nil)

end QualifiersWitness

end Ty

end Gsdb
