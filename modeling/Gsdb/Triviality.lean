/-
Which types are non-trivial for calls: what makes a type so, place by place, and
at which places `type::is_non_trivial_for_calls` reads something else.
-/
import Gsdb.Signatures

namespace Gsdb

/-- A child of a class DIE. -/
inductive Child where
  | member (ty : Ty) (info : MemberInfo)
  | inheritance (ty : Ty) (virtuality : Option Nat)
  | subprogram (info : SubprogramInfo)
  | other

def Children.toList : Children → List Child
  | .nil => []
  | .member ty info rest => .member ty info :: rest.toList
  | .inheritance ty _ virtuality rest => .inheritance ty virtuality :: rest.toList
  | .subprogram info rest => .subprogram info :: rest.toList
  | .other _ rest => .other :: rest.toList

/-- `DW_DEFAULTED_in_class`. -/
def SubprogramInfo.isDefaultedInClass (info : SubprogramInfo) : Bool := info.defaulted = some 1

def Child.isVirtual : Child → Bool
  | .member _ info => MemberInfo.isVirtual info.virtuality
  | .inheritance _ virtuality => MemberInfo.isVirtual virtuality
  | .subprogram info => MemberInfo.isVirtual info.virtuality
  | .other => false

/-- A type is non-trivial for calls if it, one of its bases or the type of one of
its non-static members has a virtual member or base, or a copy or move constructor
or destructor that is not defaulted in the class. -/
inductive NonTrivial : Ty → Prop where
  | isVirtual {tag : ClassTag} {name : Option String} {size : Option Nat} {children : Children}
      {child : Child} (hchild : child ∈ children.toList) (hvirtual : child.isVirtual = true) :
      NonTrivial (.cls tag name size children)
  | special {tag : ClassTag} {name : Option String} {size : Option Nat} {children : Children}
      {info : SubprogramInfo} (hchild : .subprogram info ∈ children.toList)
      (hspecial : info.isCopyOrMove name = true ∨ info.isDestructor = true)
      (hprovided : info.isDefaultedInClass = false) : NonTrivial (.cls tag name size children)
  | base {tag : ClassTag} {name : Option String} {size : Option Nat} {children : Children}
      {ty : Ty} {virtuality : Option Nat} (hchild : .inheritance ty virtuality ∈ children.toList)
      (hbase : NonTrivial ty) : NonTrivial (.cls tag name size children)
  | member {tag : ClassTag} {name : Option String} {size : Option Nat} {children : Children}
      {ty : Ty} {info : MemberInfo} (hchild : .member ty info ∈ children.toList)
      (hstatic : info.isStatic = false) (hmember : NonTrivial ty) :
      NonTrivial (.cls tag name size children)
  | array {element : Ty} {upperBounds : List Nat} (helement : NonTrivial element) :
      NonTrivial (.array element upperBounds)
  | layer {tag : AliasTag} {name : Option String} {target : Ty} (htarget : NonTrivial target) :
      NonTrivial (.alias tag name target)

/-- What there is in a class that bears on its triviality: a virtual member or base; a
copy or move constructor or destructor, by its `DW_AT_defaulted`, where `special` stands
for one without it or defaulted out of the class; another function with the name and two
children like a copy or move constructor (`lookalike`), or with `void` where a type is
compared with the class (`malformed`); and a copy or move constructor that has not the
name of the DIE that was asked about, which is a qualifier or typedef around the class
(`renamed`). -/
inductive Feature where
  | virtual_
  | special
  | defaultedInClass
  | defaultedNo
  | lookalike
  | renamed
  | malformed
deriving DecidableEq, Repr

/-- A feature and the way to it: every member on it has a location (`looked`), and none
is static (`owned`). -/
structure Find where
  feature : Feature
  looked : Bool
  owned : Bool
deriving DecidableEq, Repr

namespace Feature

variable (dieName className : Option String) (info : SubprogramInfo)

def here (feature : Feature) : Find := ⟨feature, true, true⟩

def virtualities (virtuality : Option Nat) : List Feature :=
  if MemberInfo.isVirtual virtuality then [virtual_] else []

/-- A copy or move constructor or destructor by its `DW_AT_defaulted`. -/
def ofDefaulted : Feature :=
  if info.defaulted = some 0 then .defaultedNo
  else if info.defaulted = some 1 then .defaultedInClass
  else .special

/-- A member function as a constructor. -/
def constructors : List Feature :=
  if info.isCopyOrMove className then
    if dieName = info.name then [ofDefaulted info]
    else if info.isDefaultedInClass then []
    else [renamed]
  else if dieName ≠ info.name then []
  else if info.isMalformed className then [malformed]
  else if info.resemblesCopyOrMove className ∧ info.defaulted ≠ some 0 then [lookalike]
  else []

def destructors : List Feature :=
  if info.isDestructor then [ofDefaulted info] else []

/-- What a member function is, in the order in which it is looked for. -/
def ofFunction : List Feature :=
  virtualities info.virtuality ++ constructors dieName className info ++ destructors info

/-- What the loop over the children makes of a feature: it returns, throws or goes on. -/
def answer : Feature → Except Failure Bool
  | virtual_ | special | defaultedInClass | lookalike => .ok true
  | defaultedNo | renamed => .ok false
  | malformed => .error (.error "Attribute not found!")

/-- By the feature a class is non-trivial. -/
def isMeant : Feature → Bool
  | virtual_ | special | defaultedNo | renamed => true
  | defaultedInClass | lookalike | malformed => false

end Feature

namespace Find

/-- What is found in the type of a member. -/
def through (info : MemberInfo) (find : Find) : Find :=
  { find with looked := info.isLocated && find.looked, owned := !info.isStatic && find.owned }

def answer (find : Find) : Except Failure Bool :=
  if find.looked then find.feature.answer else .ok false

def isMeant (find : Find) : Bool := find.owned && find.feature.isMeant

/-- The answer to what is found, in order. -/
def answerAll : List Find → Except Failure Bool
  | [] => .ok false
  | find :: rest => returnIf find.answer (answerAll rest)

variable (finds : List Find)

/-- What has no answer is met first: in front of it there is no virtual member or base,
nor a function that counts for a copy or move constructor or destructor. -/
def Stuck : Prop :=
  ∃ before find after, finds = before ++ find :: after ∧
    find.looked = true ∧ find.feature = .malformed ∧
    ∀ earlier ∈ before, earlier.looked = true →
      earlier.feature = .defaultedNo ∨ earlier.feature = .renamed

/-- A virtual member or base, or a special member function without `DW_AT_defaulted` or
defaulted out of the class, where it is looked for. -/
def Shared : Prop :=
  ∃ find ∈ finds, find.looked = true ∧ find.owned = true ∧
    (find.feature = .virtual_ ∨ find.feature = .special)

/-- A special member function that is defaulted in the class, a function that is none, or
any in the type of a static member. -/
def OnlyRead : Prop :=
  ∃ find ∈ finds, find.looked = true ∧
    (find.feature = .defaultedInClass ∨ find.feature = .lookalike ∨
      find.owned = false ∧ (find.feature = .virtual_ ∨ find.feature = .special))

/-- A special member function with `DW_DEFAULTED_no`, a constructor that is looked for
under another name, or any in the type of a member without a location. -/
def OnlyMeant : Prop :=
  ∃ find ∈ finds, find.owned = true ∧
    (find.feature = .defaultedNo ∨ find.feature = .renamed ∨
      find.looked = false ∧ (find.feature = .virtual_ ∨ find.feature = .special))

end Find

namespace Ty

mutual

/-- What is found in a type whose DIE has a name. -/
def features (dieName : Option String) : Ty → List Find
  | .cls _ name _ children => childFeatures dieName name children
  | .array element _ => element.features element.name
  | .alias _ _ target => target.features dieName
  | _ => []

def childFeatures (dieName className : Option String) : Children → List Find
  | .nil => []
  | .member ty info rest =>
      (ty.features ty.name).map (Find.through info) ++
        ((Feature.virtualities info.virtuality).map Feature.here ++
          childFeatures dieName className rest)
  | .inheritance ty _ virtuality rest =>
      ty.features ty.name ++
        ((Feature.virtualities virtuality).map Feature.here ++
          childFeatures dieName className rest)
  | .subprogram info rest =>
      (Feature.ofFunction dieName className info).map Feature.here ++
        childFeatures dieName className rest
  | .other _ rest => childFeatures dieName className rest

end

end Ty

namespace SubprogramInfo

variable {info : SubprogramInfo}

/-- The function counts as a constructor or else as a destructor. -/
theorem isNonTrivial_eq (dieName className : Option String) (info : SubprogramInfo) :
    info.isNonTrivial dieName className =
      returnIf (do
        let isConstructor ← info.isCopyOrMoveConstructor dieName className
        pure (isConstructor && info.isUserProvided))
        (.ok (info.isDestructor && info.isUserProvided)) := by
  rw [isNonTrivial]
  cases info.isCopyOrMoveConstructor dieName className with
  | error e => rfl
  | ok isConstructor =>
      cases isConstructor <;> cases info.isUserProvided <;> cases info.isDestructor <;> rfl

theorem isUserProvided_eq : info.isUserProvided = decide (info.defaulted ≠ some 0) := by
  unfold isUserProvided
  cases info.defaulted with
  | none => rfl
  | some value =>
      cases value with
      | zero => rfl
      | succ value => simp

end SubprogramInfo

namespace Find

theorem answerAll_append (before after : List Find) :
    answerAll (before ++ after) = returnIf (answerAll before) (answerAll after) := by
  induction before with
  | nil => rfl
  | cons find rest ih => rw [List.cons_append, answerAll, answerAll, ih, returnIf_assoc]

/-- What is found in a member without a location is not looked at. -/
theorem answerAll_through (info : MemberInfo) (finds : List Find) :
    answerAll (finds.map (through info)) =
      if info.isLocated then answerAll finds else .ok false := by
  induction finds with
  | nil =>
      rw [List.map_nil, answerAll]
      split <;> rfl
  | cons find rest ih =>
      rw [List.map_cons, answerAll, answerAll, ih]
      cases hlocated : info.isLocated <;> simp [through, answer, hlocated]

theorem any_through (info : MemberInfo) (finds : List Find) :
    (finds.map (through info)).any isMeant = (!info.isStatic && finds.any isMeant) := by
  induction finds with
  | nil => simp
  | cons find rest ih =>
      rw [List.map_cons, List.any_cons, ih, List.any_cons, Bool.and_or_distrib_left]
      simp [through, isMeant, Bool.and_assoc]

end Find

namespace Feature

variable {dieName className : Option String} {info : SubprogramInfo}

theorem answerAll_virtualities (virtuality : Option Nat) :
    Find.answerAll ((virtualities virtuality).map here) =
      .ok (MemberInfo.isVirtual virtuality) := by
  unfold virtualities
  cases MemberInfo.isVirtual virtuality <;> rfl

theorem any_virtualities (virtuality : Option Nat) :
    ((virtualities virtuality).map here).any Find.isMeant = MemberInfo.isVirtual virtuality := by
  unfold virtualities
  cases MemberInfo.isVirtual virtuality <;> rfl

theorem answer_ofDefaulted : (ofDefaulted info).answer = .ok info.isUserProvided := by
  rw [SubprogramInfo.isUserProvided_eq, ofDefaulted]
  by_cases hzero : info.defaulted = some 0
  · simp [hzero, answer]
  · by_cases hone : info.defaulted = some 1 <;> simp [hzero, hone, answer]

theorem isMeant_ofDefaulted : (ofDefaulted info).isMeant = !info.isDefaultedInClass := by
  rw [SubprogramInfo.isDefaultedInClass, ofDefaulted]
  by_cases hzero : info.defaulted = some 0
  · simp [hzero, isMeant]
  · by_cases hone : info.defaulted = some 1 <;> simp [hzero, hone, isMeant]

theorem answerAll_here (feature : Feature) (rest : List Find) :
    Find.answerAll (here feature :: rest) = returnIf feature.answer (Find.answerAll rest) := rfl

theorem answerAll_constructors :
    Find.answerAll ((constructors dieName className info).map here) = (do
      let isConstructor ← info.isCopyOrMoveConstructor dieName className
      pure (isConstructor && info.isUserProvided)) := by
  unfold constructors
  cases hcopy : info.isCopyOrMove className with
  | true =>
      by_cases hname : dieName = info.name
      · rw [if_pos rfl, if_pos hname,
          SubprogramInfo.isCopyOrMoveConstructor_of_isCopyOrMove hcopy hname, ok_bind,
          List.map_singleton, answerAll_here, answer_ofDefaulted]
        cases info.isUserProvided <;> rfl
      · have hother : info.isCopyOrMoveConstructor dieName className = .ok false := if_pos hname
        rw [if_pos rfl, if_neg hname, hother, ok_bind]
        cases info.isDefaultedInClass <;> rfl
  | false =>
      rw [if_neg Bool.false_ne_true]
      by_cases hname : dieName = info.name
      · rw [if_neg (not_not.mpr hname), SubprogramInfo.isCopyOrMoveConstructor_eq hname]
        cases info.isMalformed className with
        | true => rfl
        | false =>
            rw [if_neg Bool.false_ne_true, if_neg Bool.false_ne_true, ok_bind,
              SubprogramInfo.isUserProvided_eq]
            cases info.resemblesCopyOrMove className with
            | false => simp [pure, Except.pure, Find.answerAll]
            | true =>
                by_cases hzero : info.defaulted = some 0
                · simp [hzero, pure, Except.pure, Find.answerAll]
                · simp [hzero, pure, Except.pure, answerAll_here, answer]
      · have hother : info.isCopyOrMoveConstructor dieName className = .ok false := if_pos hname
        rw [if_pos hname, hother]
        rfl

theorem answerAll_destructors :
    Find.answerAll ((destructors info).map here) =
      .ok (info.isDestructor && info.isUserProvided) := by
  unfold destructors
  cases info.isDestructor with
  | false => rfl
  | true =>
      rw [if_pos rfl, List.map_singleton, answerAll_here, answer_ofDefaulted]
      cases info.isUserProvided <;> rfl

/-- The loop answers to what a member function is. -/
theorem answerAll_ofFunction :
    Find.answerAll ((ofFunction dieName className info).map here) =
      returnIf (.ok (MemberInfo.isVirtual info.virtuality))
        (info.isNonTrivial dieName className) := by
  rw [ofFunction, List.map_append, List.map_append, Find.answerAll_append, Find.answerAll_append,
    answerAll_virtualities, answerAll_constructors, answerAll_destructors, returnIf_assoc,
    SubprogramInfo.isNonTrivial_eq]

theorem any_ofFunction :
    ((ofFunction dieName className info).map here).any Find.isMeant =
      (MemberInfo.isVirtual info.virtuality ||
        ((info.isCopyOrMove className || info.isDestructor) && !info.isDefaultedInClass)) := by
  have hone : ∀ feature : Feature, (here feature).isMeant = feature.isMeant := fun _ => rfl
  have hconstructors : ((constructors dieName className info).map here).any Find.isMeant =
      (info.isCopyOrMove className && !info.isDefaultedInClass) := by
    unfold constructors
    cases info.isCopyOrMove className with
    | true =>
        by_cases hname : dieName = info.name
        · simp [hname, hone, isMeant_ofDefaulted]
        · cases hdefaulted : info.isDefaultedInClass <;> simp [hname, hone, isMeant]
    | false =>
        rw [if_neg Bool.false_ne_true]
        split
        · rfl
        · split
          · rfl
          · split <;> rfl
  have hdestructors : ((destructors info).map here).any Find.isMeant =
      (info.isDestructor && !info.isDefaultedInClass) := by
    unfold destructors
    cases info.isDestructor <;> simp [hone, isMeant_ofDefaulted]
  rw [ofFunction, List.map_append, List.map_append, List.any_append, List.any_append,
    any_virtualities, hconstructors, hdestructors, Bool.or_assoc, ← Bool.and_or_distrib_right]

end Feature

namespace Ty

mutual

/-- The code answers to what it finds, in order. -/
theorem isNonTrivialNamed_eq (dieName : Option String) (ty : Ty) :
    ty.isNonTrivialNamed dieName = Find.answerAll (ty.features dieName) := by
  match ty with
  | .cls _ name _ children => exact isNonTrivialChildren_eq dieName name children
  | .array element _ => exact isNonTrivialNamed_eq element.name element
  | .alias _ _ target => exact isNonTrivialNamed_eq dieName target
  | .base .. => rfl
  | .enumeration .. => rfl
  | .pointer .. => rfl
  | .reference .. => rfl
  | .memberPointer .. => rfl
  | .other .. => rfl

theorem isNonTrivialChildren_eq (dieName className : Option String) (children : Children) :
    isNonTrivialChildren dieName className children =
      Find.answerAll (childFeatures dieName className children) := by
  match children with
  | .nil => rfl
  | .member ty info rest =>
      have hty := isNonTrivialNamed_eq ty.name ty
      have hrest := isNonTrivialChildren_eq dieName className rest
      rw [isNonTrivialChildren, childFeatures, Find.answerAll_append, Find.answerAll_append,
        Find.answerAll_through, Feature.answerAll_virtualities, hty, hrest]
  | .inheritance ty _ virtuality rest =>
      have hty := isNonTrivialNamed_eq ty.name ty
      have hrest := isNonTrivialChildren_eq dieName className rest
      rw [isNonTrivialChildren, childFeatures, Find.answerAll_append, Find.answerAll_append,
        Feature.answerAll_virtualities, hty, hrest]
  | .subprogram info rest =>
      have hrest := isNonTrivialChildren_eq dieName className rest
      rw [isNonTrivialChildren, childFeatures, Find.answerAll_append, Feature.answerAll_ofFunction,
        hrest, returnIf_assoc]
  | .other _ rest => exact isNonTrivialChildren_eq dieName className rest

end

/-- A child of a class makes it non-trivial. -/
def isMeant (className : Option String) : Child → Bool
  | .member ty info => MemberInfo.isVirtual info.virtuality ||
      (!info.isStatic && (ty.features ty.name).any Find.isMeant)
  | .inheritance ty virtuality => MemberInfo.isVirtual virtuality ||
      (ty.features ty.name).any Find.isMeant
  | .subprogram info => MemberInfo.isVirtual info.virtuality ||
      ((info.isCopyOrMove className || info.isDestructor) && !info.isDefaultedInClass)
  | .other => false

theorem any_childFeatures (dieName className : Option String) (children : Children) :
    (childFeatures dieName className children).any Find.isMeant =
      children.toList.any (isMeant className) := by
  match children with
  | .nil => rfl
  | .member ty info rest =>
      have hrest := any_childFeatures dieName className rest
      rw [childFeatures, List.any_append, List.any_append, Feature.any_virtualities,
        Find.any_through, hrest, ← Bool.or_assoc, Bool.or_comm (_ && _)]
      rfl
  | .inheritance ty _ virtuality rest =>
      have hrest := any_childFeatures dieName className rest
      rw [childFeatures, List.any_append, List.any_append, Feature.any_virtualities, hrest,
        ← Bool.or_assoc, Bool.or_comm (List.any _ _)]
      rfl
  | .subprogram info rest =>
      have hrest := any_childFeatures dieName className rest
      rw [childFeatures, List.any_append, Feature.any_ofFunction, hrest]
      rfl
  | .other _ rest => exact any_childFeatures dieName className rest

/-- By something in a non-trivial type it is so. -/
theorem any_features_of_nonTrivial {ty : Ty} (h : NonTrivial ty) (dieName : Option String) :
    (ty.features dieName).any Find.isMeant = true := by
  induction h generalizing dieName with
  | isVirtual hchild hvirtual =>
      rw [features, any_childFeatures, List.any_eq_true]
      refine ⟨_, hchild, ?_⟩
      rename_i child
      cases child with
      | other => cases hvirtual
      | _ => exact Bool.or_eq_true_iff.mpr (.inl hvirtual)
  | special hchild hspecial hprovided =>
      rw [features, any_childFeatures, List.any_eq_true]
      refine ⟨_, hchild, Bool.or_eq_true_iff.mpr (.inr ?_)⟩
      rw [hprovided, Bool.not_false, Bool.and_true]
      exact Bool.or_eq_true_iff.mpr hspecial
  | base hchild _ ih =>
      rw [features, any_childFeatures, List.any_eq_true]
      exact ⟨_, hchild, Bool.or_eq_true_iff.mpr (.inr (ih _))⟩
  | member hchild hstatic _ ih =>
      rw [features, any_childFeatures, List.any_eq_true]
      refine ⟨_, hchild, Bool.or_eq_true_iff.mpr (.inr ?_)⟩
      rw [hstatic, Bool.not_false, Bool.true_and]
      exact ih _
  | array _ ih => exact ih _
  | layer _ ih => exact ih _

mutual

/-- A type with something by which it is non-trivial. -/
theorem nonTrivial_of_any_features (dieName : Option String) (ty : Ty)
    (h : (ty.features dieName).any Find.isMeant = true) : NonTrivial ty := by
  match ty with
  | .cls tag name size children =>
      rw [features, any_childFeatures, List.any_eq_true] at h
      obtain ⟨child, hchild, htruth⟩ := h
      exact nonTrivial_of_child tag name size children children (fun _ hmem => hmem) child hchild
        htruth
  | .array element _ => exact .array (nonTrivial_of_any_features element.name element h)
  | .alias _ _ target => exact .layer (nonTrivial_of_any_features dieName target h)
  | .base .. => cases h
  | .enumeration .. => cases h
  | .pointer .. => cases h
  | .reference .. => cases h
  | .memberPointer .. => cases h
  | .other .. => cases h

theorem nonTrivial_of_child (tag : ClassTag) (name : Option String) (size : Option Nat)
    (all children : Children) (hall : ∀ child ∈ children.toList, child ∈ all.toList)
    (child : Child) (hchild : child ∈ children.toList) (htruth : isMeant name child = true) :
    NonTrivial (.cls tag name size all) := by
  match children with
  | .nil => cases hchild
  | .member ty info rest =>
      rcases List.mem_cons.mp hchild with rfl | hrest
      · rcases Bool.or_eq_true_iff.mp htruth with hvirtual | hmember
        · exact .isVirtual (hall _ hchild) hvirtual
        · obtain ⟨hstatic, hty⟩ := Bool.and_eq_true_iff.mp hmember
          exact .member (hall _ hchild) (Bool.eq_false_of_not_eq_true' hstatic)
            (nonTrivial_of_any_features ty.name ty hty)
      · exact nonTrivial_of_child tag name size all rest
          (fun _ hmem => hall _ (List.mem_cons_of_mem _ hmem)) child hrest htruth
  | .inheritance ty _ virtuality rest =>
      rcases List.mem_cons.mp hchild with rfl | hrest
      · rcases Bool.or_eq_true_iff.mp htruth with hvirtual | hbase
        · exact .isVirtual (hall _ hchild) hvirtual
        · exact .base (hall _ hchild) (nonTrivial_of_any_features ty.name ty hbase)
      · exact nonTrivial_of_child tag name size all rest
          (fun _ hmem => hall _ (List.mem_cons_of_mem _ hmem)) child hrest htruth
  | .subprogram info rest =>
      rcases List.mem_cons.mp hchild with rfl | hrest
      · rcases Bool.or_eq_true_iff.mp htruth with hvirtual | hspecial
        · exact .isVirtual (hall _ hchild) hvirtual
        · obtain ⟨hkind, hprovided⟩ := Bool.and_eq_true_iff.mp hspecial
          exact .special (hall _ hchild) (Bool.or_eq_true_iff.mp hkind)
            (Bool.eq_false_of_not_eq_true' hprovided)
      · exact nonTrivial_of_child tag name size all rest
          (fun _ hmem => hall _ (List.mem_cons_of_mem _ hmem)) child hrest htruth
  | .other _ rest =>
      rcases List.mem_cons.mp hchild with rfl | hrest
      · cases htruth
      · exact nonTrivial_of_child tag name size all rest
          (fun _ hmem => hall _ (List.mem_cons_of_mem _ hmem)) child hrest htruth

end

end Ty

namespace Find

/-- The loop goes on behind the find. -/
theorem answer_eq_false_iff (find : Find) :
    find.answer = .ok false ↔ (find.looked = true →
      find.feature = .defaultedNo ∨ find.feature = .renamed) := by
  rcases find with ⟨feature, looked, owned⟩
  cases looked <;> cases feature <;> simp [answer, Feature.answer]

theorem answerAll_eq_false_iff (finds : List Find) :
    answerAll finds = .ok false ↔ ∀ find ∈ finds, find.looked = true →
      find.feature = .defaultedNo ∨ find.feature = .renamed := by
  induction finds with
  | nil => simp [answerAll]
  | cons find rest ih =>
      rw [answerAll, returnIf_eq_false_iff, answer_eq_false_iff, ih, List.forall_mem_cons]

/-- The loop throws exactly if it meets what has no answer first. -/
theorem answerAll_throws_iff (finds : List Find) :
    (∃ e, answerAll finds = .error e) ↔ Stuck finds := by
  constructor
  · rintro ⟨e, he⟩
    induction finds with
    | nil => cases he
    | cons find rest ih =>
        rw [answerAll] at he
        rcases hanswer : find.answer with e' | _ | _
        · refine ⟨[], find, rest, rfl, ?_⟩
          rcases find with ⟨feature, looked, owned⟩
          cases looked <;> cases feature <;> simp_all [answer, Feature.answer]
        · rw [hanswer, returnIf_false] at he
          obtain ⟨before, found, after, rfl, hlooked, hmalformed, hbefore⟩ := ih he
          refine ⟨find :: before, found, after, rfl, hlooked, hmalformed, ?_⟩
          exact List.forall_mem_cons.mpr ⟨(answer_eq_false_iff find).mp hanswer, hbefore⟩
        · rw [hanswer, returnIf_true] at he
          cases he
  · rintro ⟨before, find, after, rfl, hlooked, hmalformed, hbefore⟩
    have hanswer : find.answer = .error (.error "Attribute not found!") := by
      rw [answer, if_pos hlooked, hmalformed]
      rfl
    rw [answerAll_append, (answerAll_eq_false_iff before).mpr hbefore, returnIf_false, answerAll,
      hanswer]
    exact ⟨_, rfl⟩

/-- The loop finds the class non-trivial by anything that makes it return. -/
theorem answerAll_true_iff {finds : List Find} {answer : Bool} (h : answerAll finds = .ok answer) :
    answer = true ↔ ∃ find ∈ finds, find.answer = .ok true := by
  induction finds with
  | nil =>
      cases h
      simp
  | cons find rest ih =>
      rw [answerAll] at h
      rcases hanswer : find.answer with e | _ | _
      · rw [hanswer, returnIf_error] at h
        cases h
      · rw [hanswer, returnIf_false] at h
        rw [ih h]
        simp [hanswer]
      · rw [hanswer, returnIf_true] at h
        cases h
        simp [hanswer]

theorem exists_answer_iff (finds : List Find) :
    (∃ find ∈ finds, find.answer = .ok true) ↔ Shared finds ∨ OnlyRead finds := by
  rw [Shared, OnlyRead, ← exists_or]
  refine exists_congr fun find => ?_
  rw [← and_or_left]
  refine and_congr_right fun _ => ?_
  rcases find with ⟨feature, looked, owned⟩
  cases looked <;> cases owned <;> cases feature <;> simp [answer, Feature.answer]

theorem any_isMeant_iff (finds : List Find) :
    finds.any isMeant = true ↔ Shared finds ∨ OnlyMeant finds := by
  rw [List.any_eq_true, Shared, OnlyMeant, ← exists_or]
  refine exists_congr fun find => ?_
  rw [← and_or_left]
  refine and_congr_right fun _ => ?_
  rcases find with ⟨feature, looked, owned⟩
  cases looked <;> cases owned <;> cases feature <;> simp [isMeant, Feature.isMeant]

end Find

namespace Ty

namespace TrivialityWitness

/-- A class whose copy constructor is defaulted in the class. -/
def copied : Ty :=
  .cls .structure_ "P" (some 8)
    (.subprogram ⟨"P", [.parameter (some (.layer .pointer .self)),
      .parameter (some (.layer .reference (.layer .const_ .self)))], some 1, none⟩ .nil)

end TrivialityWitness

end Ty

end Gsdb
