/-
Which member functions are copy and move constructors, and which are taken for some:
`is_copy_or_move_constructor` compares the types of the parameters with the class by
`type::operator==`, which takes off pointers and compares names.
-/
import Gsdb.Types

namespace Gsdb

/-- The class that the function belongs to, behind qualifiers and typedefs. -/
def ParameterType.isClass : ParameterType → Bool
  | .self => true
  | .layer .const_ target => target.isClass
  | .layer .volatile_ target => target.isClass
  | .layer .typedef_ target => target.isClass
  | _ => false

/-- The name of the type behind all layers, pointers included. -/
def ParameterType.nameBehind (className : Option String) : ParameterType → Option String
  | .self => className
  | .core name => name
  | .layer _ target => target.nameBehind className
  | .void _ => none

/-- There is `void` behind all layers. -/
def ParameterType.endsInVoid : ParameterType → Bool
  | .self => false
  | .core _ => false
  | .layer _ target => target.endsInVoid
  | .void _ => true

namespace SubprogramChild

/-- A parameter that is a pointer or reference, by its tag, to an object of the class. -/
def refersToClass (tags : List LayerTag) : SubprogramChild → Bool
  | .parameter (some (.layer tag target)) => tag ∈ tags && target.isClass
  | _ => false

/-- A pointer or reference, by its tag, to a type that behind further layers has the name
of the class, or no parameter at all. -/
def resembles (tags : List LayerTag) (className : Option String) : SubprogramChild → Bool
  | .parameter (some (.layer tag target)) =>
      tag ∈ tags && className.isSome && target.nameBehind className = className
  | .parameter _ => false
  | .other => true

/-- A parameter without a type, or a pointer or reference, by its tag, with `void` behind
it. -/
def isVoid (tags : List LayerTag) : SubprogramChild → Bool
  | .parameter (some (.layer tag target)) => tag ∈ tags && target.endsInVoid
  | .parameter (some (.void tag)) => tag ∈ tags
  | .parameter (some _) => false
  | .parameter none => true
  | .other => false

end SubprogramChild

def referenceTags : List LayerTag := [.reference, .rvalueReference]

namespace SubprogramInfo

/-- A constructor from a reference to an object of the class: besides the object
under construction it has this parameter only. -/
def isCopyOrMove (className : Option String) (info : SubprogramInfo) : Bool :=
  className.isSome && className = info.name &&
    match info.children with
    | [object, source] => object.refersToClass [.pointer] && source.refersToClass referenceTags
    | _ => false

/-- Two children that resemble those of a copy or move constructor. -/
def resemblesCopyOrMove (className : Option String) (info : SubprogramInfo) : Bool :=
  match info.children with
  | [object, source] =>
      object.resembles [.pointer] className && source.resembles referenceTags className
  | _ => false

/-- There is `void` where a type is compared with the class: behind the first child, or
behind the second if the first resembles that of a constructor. -/
def isMalformed (className : Option String) (info : SubprogramInfo) : Bool :=
  match info.children with
  | [] => false
  | object :: rest =>
      object.isVoid [.pointer] ||
        (object.resembles [.pointer] className && rest.head?.any (·.isVoid referenceTags))

end SubprogramInfo

namespace ParameterType

variable (className : Option String)

theorem strippedName_eq (ty : ParameterType) :
    ty.strippedName className =
      if ty.endsInVoid then .error (.error "Attribute not found!")
      else .ok (ty.nameBehind className) := by
  match ty with
  | .self => rfl
  | .core _ => rfl
  | .layer _ target => exact strippedName_eq target
  | .void _ => rfl

/-- Qualifiers and typedefs taken off first, the rest is stripped as before. -/
theorem stripCvTypedef_bind (ty : ParameterType) :
    (do
      let target ← ty.stripCvTypedef
      target.strippedName className) = ty.strippedName className := by
  match ty with
  | .self => rfl
  | .core _ => rfl
  | .layer tag target =>
      have htarget := stripCvTypedef_bind target
      rw [stripCvTypedef]
      split
      · exact htarget
      · rfl
  | .void tag =>
      rw [stripCvTypedef]
      split <;> rfl

/-- The comparison of a type with the class is one of names behind all layers. -/
theorem equalsClass_stripped (ty : ParameterType) :
    (do
      let target ← ty.stripCvTypedef
      target.equalsClass className) =
      if ty.endsInVoid then .error (.error "Attribute not found!")
      else .ok (className.isSome && ty.nameBehind className = className) := by
  have hname := stripCvTypedef_bind className ty
  rw [strippedName_eq] at hname
  cases hstripped : ty.stripCvTypedef with
  | error e =>
      rw [hstripped, error_bind] at hname
      rw [error_bind]
      split at hname
      · rename_i hvoid
        cases hname
        rw [if_pos hvoid]
      · cases hname
  | ok target =>
      rw [hstripped, ok_bind] at hname
      rw [ok_bind, equalsClass, hname]
      split
      · rfl
      · rw [ok_bind]
        by_cases hequal : ty.nameBehind className = className
        · rw [hequal]
          rfl
        · simp [hequal, pure, Except.pure]

/-- What is the class behind qualifiers and typedefs has its name. -/
theorem nameBehind_of_isClass {ty : ParameterType} (h : ty.isClass = true) :
    ty.nameBehind className = className ∧ ty.endsInVoid = false := by
  match ty with
  | .self => exact ⟨rfl, rfl⟩
  | .layer .const_ target => exact @nameBehind_of_isClass target h
  | .layer .volatile_ target => exact @nameBehind_of_isClass target h
  | .layer .typedef_ target => exact @nameBehind_of_isClass target h

end ParameterType

namespace SubprogramChild

variable {tags : List LayerTag} {className : Option String} {child : SubprogramChild}

theorem resembles_of_refersToClass (h : child.refersToClass tags = true)
    (hname : className.isSome = true) :
    child.resembles tags className = true ∧ child.isVoid tags = false := by
  unfold refersToClass at h
  split at h
  · rename_i tag target
    obtain ⟨htag, hclass⟩ := Bool.and_eq_true_iff.mp h
    obtain ⟨hbehind, hvoid⟩ := target.nameBehind_of_isClass className hclass
    simp [resembles, isVoid, htag, hname, hbehind, hvoid]
  · cases h

end SubprogramChild

namespace SubprogramInfo

variable {dieName className : Option String} {info : SubprogramInfo}

/-- What the loop of `is_copy_or_move_constructor` does at a child: it throws, goes on or
leaves. -/
theorem countConstructorChildren_cons {tags : List LayerTag} {i : Nat} (child : SubprogramChild)
    (rest : List SubprogramChild)
    (hfits : ∀ ty, fitsConstructor className i (some ty) = ty.refersToClass tags className)
    (hnone : fitsConstructor className i none = .error (.error "Attribute not found!")) :
    countConstructorChildren className i (child :: rest) =
      if child.isVoid tags then .error (.error "Attribute not found!")
      else if child.resembles tags className then countConstructorChildren className (i + 1) rest
      else .ok none := by
  match child with
  | .other => rfl
  | .parameter none =>
      rw [countConstructorChildren, hnone]
      rfl
  | .parameter (some .self) =>
      rw [countConstructorChildren, hfits]
      rfl
  | .parameter (some (.core _)) =>
      rw [countConstructorChildren, hfits]
      rfl
  | .parameter (some (.void tag)) =>
      rw [countConstructorChildren, hfits, ParameterType.refersToClass]
      by_cases htag : tag ∈ tags
      · rw [if_pos htag, SubprogramChild.isVoid, if_pos (decide_eq_true htag)]
        rfl
      · rw [if_neg htag, SubprogramChild.isVoid, if_neg (by simp [htag])]
        rfl
  | .parameter (some (.layer tag target)) =>
      rw [countConstructorChildren, hfits, ParameterType.refersToClass,
        ParameterType.equalsClass_stripped, SubprogramChild.isVoid, SubprogramChild.resembles]
      by_cases htag : tag ∈ tags
      · cases hvoid : target.endsInVoid with
        | true => simp [htag, error_bind]
        | false => simp [htag, ok_bind, pure, Except.pure]
      · simp [htag, ok_bind, pure, Except.pure]

/-- Behind the second child nothing is compared. -/
theorem countConstructorChildren_later (i : Nat) (children : List SubprogramChild) :
    countConstructorChildren className (i + 2) children = .ok none ∨
      countConstructorChildren className (i + 2) children =
          .ok (some (i + 2 + children.length)) := by
  induction children generalizing i with
  | nil => exact .inr rfl
  | cons child rest ih =>
      cases child with
      | parameter ty => exact .inl rfl
      | other =>
          have hlength : i + 1 + 2 + rest.length = i + 2 + (.other :: rest).length := by
            rw [List.length_cons]
            omega
          rw [← hlength]
          exact ih (i + 1)

/-- A function of the name of the DIE is taken for a copy or move constructor if it
resembles one, unless a type cannot be compared. -/
theorem isCopyOrMoveConstructor_eq (hname : dieName = info.name) :
    info.isCopyOrMoveConstructor dieName className =
      if info.isMalformed className then .error (.error "Attribute not found!")
      else .ok (info.resemblesCopyOrMove className) := by
  rw [isCopyOrMoveConstructor, if_neg (not_not.mpr hname), isMalformed, resemblesCopyOrMove]
  have hfirst := @countConstructorChildren_cons className [.pointer] 0
  have hsecond := @countConstructorChildren_cons className referenceTags 1
  match info.children with
  | [] => rfl
  | [object] =>
      rw [hfirst object [] (fun _ => rfl) rfl]
      cases hvoid : object.isVoid [.pointer] with
      | true => simp [hvoid]
      | false =>
          cases hobject : object.resembles [.pointer] className <;>
            simp [hvoid, countConstructorChildren, ok_bind, pure, Except.pure]
  | object :: source :: rest =>
      rw [hfirst object _ (fun _ => rfl) rfl, hsecond source _ (fun _ => rfl) rfl]
      cases hobjectVoid : object.isVoid [.pointer] with
      | true => simp [hobjectVoid]
      | false =>
          cases hobject : object.resembles [.pointer] className with
          | false => cases rest <;> simp [hobjectVoid, hobject, ok_bind, pure, Except.pure]
          | true =>
              cases hvoid : source.isVoid referenceTags with
              | true => simp [hobjectVoid, hobject, hvoid]
              | false =>
                  cases hsource : source.resembles referenceTags className with
                  | false =>
                      cases rest <;>
                        simp [hobjectVoid, hvoid, hsource, ok_bind, pure, Except.pure]
                  | true =>
                      have hlater := @countConstructorChildren_later className 0 rest
                      cases rest with
                      | nil =>
                          simp [hobjectVoid, hvoid, hobject, hsource, countConstructorChildren,
                            ok_bind, pure, Except.pure]
                      | cons third rest =>
                          rcases hlater with hlater | hlater <;>
                            simp [hobjectVoid, hvoid, hlater, ok_bind, pure, Except.pure]

theorem resembles_of_isCopyOrMove (h : info.isCopyOrMove className = true) :
    info.isMalformed className = false ∧ info.resemblesCopyOrMove className = true := by
  unfold isCopyOrMove at h
  rw [Bool.and_eq_true, Bool.and_eq_true] at h
  obtain ⟨⟨hsome, -⟩, hchildren⟩ := h
  split at hchildren
  · rename_i object source heq
    obtain ⟨hobject, hsource⟩ := Bool.and_eq_true_iff.mp hchildren
    obtain ⟨hobject, hobjectVoid⟩ := SubprogramChild.resembles_of_refersToClass hobject hsome
    obtain ⟨hsource, hsourceVoid⟩ := SubprogramChild.resembles_of_refersToClass hsource hsome
    simp [isMalformed, resemblesCopyOrMove, heq, hobject, hobjectVoid, hsource, hsourceVoid]
  · cases hchildren

/-- Copy and move constructors are recognized under their own name. -/
theorem isCopyOrMoveConstructor_of_isCopyOrMove (h : info.isCopyOrMove className = true)
    (hname : dieName = info.name) : info.isCopyOrMoveConstructor dieName className = .ok true := by
  obtain ⟨hmalformed, hresembles⟩ := resembles_of_isCopyOrMove h
  rw [isCopyOrMoveConstructor_eq hname, hmalformed, hresembles]
  rfl

end SubprogramInfo

end Gsdb
