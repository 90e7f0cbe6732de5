/-
Values of a type behind qualifiers and typedefs: which members, elements, targets
and texts are those of the same bytes as a value of the type itself.
-/
import Gsdb.Qualifiers
import Gsdb.Values

namespace Gsdb

open ByteMemory

/-- Two values of which a member, an element, the target and the text are the same
at a depth of nesting, or fail alike. -/
structure SameAccess (env : ValueEnv) (m : Machine) (a b : TypedData) (memberName : String)
    (index depth : Nat) : Prop where
  member : (a.readMember memberName).toOption = (b.readMember memberName).toOption
  element : (a.index env m index).toOption = (b.index env m index).toOption
  target : (a.derefPointer env m).toOption = (b.derefPointer env m).toOption
  text : (a.visualize env m depth).toOption = (b.visualize env m depth).toOption

/-- The type is itself the DIE of a class, and the data have a member of that name. -/
def HasMember (memberName : String) (data : List Byte) : Ty → Prop
  | .cls _ _ _ children => ∃ child offset bytes fixed,
      children.firstNamed memberName = .ok child ∧ child.2.byteOffset = .ok offset ∧
        subdata data offset child.1.byteSize = .ok bytes ∧
        child.2.fixupBitfield child.1.byteSize bytes = .ok fixed
  | _ => False

/-- The name, encoding and size of a base type under which data of it have a text. -/
def BasePrints (name : Option String) (byteSize : Nat) (data : List Byte) :
    BaseEncoding → Prop
  | .boolean => 1 ≤ data.length
  | .float =>
      name = some "float" ∧ 4 ≤ data.length ∨ name = some "double" ∧ 8 ≤ data.length ∨
        name = some "long double" ∧ 16 ≤ data.length
  | .signed => byteSize ∈ [1, 2, 4, 8] ∧ byteSize ≤ data.length
  | .unsigned => byteSize ∈ [1, 2, 4, 8] ∧ byteSize ≤ data.length
  | .signedChar => 1 ≤ data.length
  | .unsignedChar => 1 ≤ data.length
  | .other => False

/-- A pointer has a text: it is null, or what it points to is known and, if that is a
character, can be read. -/
def PointerPrints (env : ValueEnv) (m : Machine) (target : Nat) (data : List Byte) : Prop :=
  8 ≤ data.length ∧ (ofLe (data.take 8) = 0 ∨ ∃ ty, env.pointee target = .ok ty ∧
    (ty.isCharType = true →
      ∃ text, readString m (BitVec.ofNat 64 (ofLe (data.take 8))) env.rounds = .ok text))

/-- Every element of an array starts within its data and satisfies `element`. -/
def ElementsPrint (element : List Byte → Prop) (elementSize : Nat) :
    List Nat → List Byte → Prop
  | [], data => element data
  | size :: dimensions, data => ∀ i < size,
      i * dimensions.foldl (· * ·) elementSize ≤ data.length ∧
        ElementsPrint element elementSize dimensions
          (data.drop (i * dimensions.foldl (· * ·) elementSize))

mutual

/-- The data of a value of this type have a text. -/
def Prints (env : ValueEnv) (m : Machine) : Ty → List Byte → Prop
  | .base name encoding byteSize, data => BasePrints name byteSize data encoding
  | .pointer target, data => PointerPrints env m target data
  | .memberPointer _, data => 8 ≤ data.length
  | .array element upperBounds, data =>
      ElementsPrint (fun data => Prints env m element data) element.byteSize
        (upperBounds.map (· + 1)) data
  | .cls _ _ _ children, data => MembersPrint env m children data
  | .enumeration _ underlying, data => Prints env m underlying data
  | .alias _ _ target, data => Prints env m target data
  | .reference _ _, _ => False
  | .other _, _ => False

/-- Every located member of a class is within its data and has a text. -/
def MembersPrint (env : ValueEnv) (m : Machine) : Children → List Byte → Prop
  | .nil, _ => True
  | .member ty info rest, data =>
      (info.isLocated = true → ∃ memberData, info.memberData ty.byteSize data = .ok memberData ∧
        Prints env m ty memberData) ∧ MembersPrint env m rest data
  | .inheritance _ _ _ rest, data => MembersPrint env m rest data
  | .subprogram _ rest, data => MembersPrint env m rest data
  | .other _ rest, data => MembersPrint env m rest data

end

/-- The type is itself the DIE of a class, whose members have texts. -/
def PrintsMembers (env : ValueEnv) (m : Machine) (data : List Byte) : Ty → Prop
  | .cls _ _ _ children => MembersPrint env m children data
  | _ => False

theorem returns_iff {α : Type} {x : Except Failure α} :
    x.toOption = none ↔ ¬ ∃ a, x = .ok a := by
  cases x <;> simp [Except.toOption]

section Members

variable {memberName : String} {data : List Byte} {address : Option Word}

theorem memberOf_returns_iff {ty : ValueType} {memberTy : Ty} {info : MemberInfo} :
    (∃ member, (⟨data, ty, address⟩ : TypedData).memberOf memberTy info = .ok member) ↔
      ∃ offset bytes fixed, info.byteOffset = .ok offset ∧
        subdata data offset memberTy.byteSize = .ok bytes ∧
        info.fixupBitfield memberTy.byteSize bytes = .ok fixed := by
  unfold TypedData.memberOf
  constructor
  · rintro ⟨member, hmember⟩
    obtain ⟨offset, hoffset, hrest⟩ := bind_eq_ok.mp hmember
    obtain ⟨bytes, hbytes, hlast⟩ := bind_eq_ok.mp hrest
    obtain ⟨fixed, hfixed, -⟩ := bind_eq_ok.mp hlast
    exact ⟨offset, bytes, fixed, hoffset, hbytes, hfixed⟩
  · rintro ⟨offset, bytes, fixed, hoffset, hbytes, hfixed⟩
    rw [hoffset, ok_bind, hbytes, ok_bind, hfixed, ok_bind]
    cases fixed with
    | none => exact ⟨_, rfl⟩
    | some fixed => exact ⟨_, rfl⟩

/-- A member is read exactly if the type is a class that has it. -/
theorem readMember_returns_iff (ty : Ty) :
    (∃ member, (⟨data, .dwarf ty, address⟩ : TypedData).readMember memberName = .ok member) ↔
      HasMember memberName data ty := by
  have hnone : ∀ {e : Failure} {p : Prop}, ¬ p →
      ((∃ member, (.error e : Except Failure TypedData) = .ok member) ↔ p) := by
    intro e p hp
    exact iff_of_false (fun ⟨_, h⟩ => by cases h) hp
  cases ty with
  | cls tag name size children =>
      change (∃ member, (children.firstNamed memberName >>= fun child =>
        (⟨data, _, address⟩ : TypedData).memberOf child.1 child.2) = .ok member) ↔ _
      rw [HasMember]
      cases hchild : children.firstNamed memberName with
      | error e => simp [error_bind]
      | ok child =>
          rw [ok_bind, memberOf_returns_iff]
          simp
  | _ => exact hnone not_false

/-- No member is read out of a value behind a layer. -/
theorem readMember_wrap (layer : Layer) (rest : List Layer) (ty : Ty) :
    ((⟨data, .dwarf (Ty.wrap (layer :: rest) ty), address⟩ : TypedData).readMember
      memberName).toOption = none := rfl

end Members

section Texts

variable (env : ValueEnv) (m : Machine)

/-- A value behind layers is printed as one that is not nested. -/
theorem visualize_wrap (layer : Layer) (rest : List Layer) (ty : Ty) (data : List Byte)
    (depth : Nat) :
    env.visualize m (Ty.wrap (layer :: rest) ty) data depth = env.visualize m ty data 0 := by
  induction rest generalizing layer depth with
  | nil => rfl
  | cons next rest ih => exact ih next 0

section Bytes

variable {data : List Byte}

theorem fromBytes_returns_iff {size : Nat} {α : Type} {next : List Byte → α} :
    (∃ a, (do let bytes ← fromBytes size data; pure (next bytes) : Except Failure α) = .ok a) ↔
      size ≤ data.length := by
  unfold fromBytes
  split
  next h => exact iff_of_true ⟨_, rfl⟩ h
  next h => exact iff_of_false (by simp) h

theorem visualizeBaseType_returns_iff {name : Option String} {encoding : BaseEncoding}
    {byteSize : Nat} :
    (∃ text, env.visualizeBaseType name encoding byteSize data = .ok text) ↔
      BasePrints name byteSize data encoding := by
  have hnone : ∀ {e : Failure}, ¬ ∃ text, (.error e : Except Failure Printed) = .ok text := by
    simp
  cases encoding with
  | boolean => exact fromBytes_returns_iff
  | float =>
      rw [ValueEnv.visualizeBaseType, BasePrints]
      by_cases hfloat : name = some "float"
      · rw [if_pos hfloat, fromBytes_returns_iff]
        simp [hfloat]
      rw [if_neg hfloat]
      by_cases hdouble : name = some "double"
      · rw [if_pos hdouble, fromBytes_returns_iff]
        simp [hdouble]
      rw [if_neg hdouble]
      by_cases hlong : name = some "long double"
      · rw [if_pos hlong, fromBytes_returns_iff]
        simp [hlong]
      rw [if_neg hlong]
      exact iff_of_false hnone (by simp [hfloat, hdouble, hlong])
  | signed =>
      rw [ValueEnv.visualizeBaseType, BasePrints]
      by_cases hsize : byteSize ∈ [1, 2, 4, 8]
      · rw [if_pos hsize]
        exact fromBytes_returns_iff.trans (and_iff_right hsize).symm
      · rw [if_neg hsize]
        exact iff_of_false hnone fun h => hsize h.1
  | unsigned =>
      rw [ValueEnv.visualizeBaseType, BasePrints]
      by_cases hsize : byteSize ∈ [1, 2, 4, 8]
      · rw [if_pos hsize]
        exact fromBytes_returns_iff.trans (and_iff_right hsize).symm
      · rw [if_neg hsize]
        exact iff_of_false hnone fun h => hsize h.1
  | signedChar => exact fromBytes_returns_iff
  | unsignedChar => exact fromBytes_returns_iff
  | other => exact iff_of_false hnone not_false

theorem visualizePointerType_returns_iff {target : Nat} :
    (∃ text, env.visualizePointerType m target data = .ok text) ↔
      PointerPrints env m target data := by
  unfold ValueEnv.visualizePointerType PointerPrints fromBytes
  by_cases hsize : 8 ≤ data.length
  swap
  · rw [if_neg hsize]
    exact iff_of_false (by simp [error_bind]) fun h => hsize h.1
  rw [if_pos hsize, ok_bind, and_iff_right hsize]
  by_cases hzero : ofLe (data.take 8) = 0
  · simp only [hzero, if_pos]
    exact iff_of_true ⟨_, rfl⟩ (.inl trivial)
  simp only [hzero, if_neg, false_or, not_false_eq_true]
  cases env.pointee target with
  | error e => simp [error_bind]
  | ok ty =>
      rw [ok_bind]
      by_cases hchar : ty.isCharType = true
      · rw [if_pos hchar]
        cases readString m (BitVec.ofNat 64 (ofLe (data.take 8))) env.rounds with
        | error e => simp [hchar]
        | ok text => exact iff_of_true ⟨_, rfl⟩ ⟨ty, rfl, fun _ => ⟨text, rfl⟩⟩
      · rw [if_neg hchar]
        exact iff_of_true ⟨_, rfl⟩ ⟨ty, rfl, fun h => absurd h hchar⟩

end Bytes

section Elements

variable {element : List Byte → Except Failure Printed} {prints : List Byte → Prop}

theorem visualizeElements_returns_iff (h : ∀ data, (∃ text, element data = .ok text) ↔ prints data)
    {subSize : Nat} {data : List Byte} {left : Nat} (i : Nat) :
    (∃ text, ValueEnv.visualizeElements element subSize data i left = .ok text) ↔
      ∀ j, i ≤ j → j < i + left → j * subSize ≤ data.length ∧ prints (data.drop (j * subSize)) := by
  induction left generalizing i with
  | zero => exact iff_of_true ⟨[], rfl⟩ fun j _ _ => by omega
  | succ left ih =>
      rw [ValueEnv.visualizeElements]
      have hfirst : ∀ p : Nat → Prop, (∀ j, i ≤ j → j < i + (left + 1) → p j) ↔
          p i ∧ ∀ j, i + 1 ≤ j → j < i + 1 + left → p j := by
        intro p
        constructor
        · intro hall
          exact ⟨hall i (by omega) (by omega), fun j hj hlt => hall j (by omega) (by omega)⟩
        · rintro ⟨hi, hrest⟩ j hj hlt
          rcases Nat.eq_or_lt_of_le hj with rfl | hj
          · exact hi
          · exact hrest j hj (by omega)
      rw [hfirst, ← ih (i + 1)]
      by_cases hin : i * subSize ≤ data.length
      swap
      · rw [if_neg hin]
        exact iff_of_false (by simp) fun hall => hin hall.1.1
      rw [if_pos hin, and_iff_right hin, ← h]
      cases element (data.drop (i * subSize)) with
      | error e => simp [error_bind]
      | ok text =>
          rw [ok_bind]
          cases ValueEnv.visualizeElements element subSize data (i + 1) left with
          | error e => simp
          | ok rest => exact iff_of_true ⟨_, rfl⟩ ⟨⟨text, rfl⟩, rest, rfl⟩

theorem visualizeSubrange_returns_iff (h : ∀ data, (∃ text, element data = .ok text) ↔ prints data)
    {elementSize : Nat} {dimensions : List Nat} (data : List Byte) :
    (∃ text, ValueEnv.visualizeSubrange element elementSize dimensions data = .ok text) ↔
      ElementsPrint prints elementSize dimensions data := by
  induction dimensions generalizing data with
  | nil => exact h data
  | cons size dimensions ih =>
      have hall : (∃ text, ValueEnv.visualizeElements
          (ValueEnv.visualizeSubrange element elementSize dimensions)
          (dimensions.foldl (· * ·) elementSize) data 0 size = .ok text) ↔
          ElementsPrint prints elementSize (size :: dimensions) data := by
        rw [visualizeElements_returns_iff ih 0, Nat.zero_add]
        exact ⟨fun h i hi => h i (Nat.zero_le i) hi, fun h i _ hi => h i hi⟩
      rw [← hall, ValueEnv.visualizeSubrange]
      cases ValueEnv.visualizeElements _ _ data 0 size with
      | error e => simp
      | ok text => exact iff_of_true ⟨_, rfl⟩ ⟨text, rfl⟩

end Elements

mutual

/-- Whether a value has a text does not depend on how deep it is nested. -/
theorem visualize_returns_iff (ty : Ty) (data : List Byte) (depth : Nat) :
    (∃ text, env.visualize m ty data depth = .ok text) ↔ Prints env m ty data := by
  match ty with
  | .base .. => exact visualizeBaseType_returns_iff env
  | .pointer _ => exact visualizePointerType_returns_iff env m
  | .memberPointer _ => exact fromBytes_returns_iff
  | .array element _ =>
      rw [ValueEnv.visualize, Prints]
      exact visualizeSubrange_returns_iff (fun data => visualize_returns_iff element data 0) data
  | .cls _ _ _ children =>
      rw [ValueEnv.visualize, Prints, ← visualizeMembers_returns_iff children data depth]
      cases env.visualizeMembers m children data depth with
      | error e => simp
      | ok members => exact iff_of_true ⟨_, rfl⟩ ⟨members, rfl⟩
  | .enumeration _ underlying => exact visualize_returns_iff underlying data 0
  | .alias _ _ target => exact visualize_returns_iff target data 0
  | .reference .. => exact iff_of_false (by simp [ValueEnv.visualize]) not_false
  | .other .. => exact iff_of_false (by simp [ValueEnv.visualize]) not_false

theorem visualizeMembers_returns_iff (children : Children) (data : List Byte) (depth : Nat) :
    (∃ text, env.visualizeMembers m children data depth = .ok text) ↔
      MembersPrint env m children data := by
  match children with
  | .nil => exact iff_of_true ⟨[], rfl⟩ trivial
  | .member ty info rest =>
      rw [ValueEnv.visualizeMembers, MembersPrint,
        ← visualizeMembers_returns_iff rest data depth]
      cases info.isLocated with
      | false =>
          rw [if_neg Bool.false_ne_true]
          simp
      | true =>
          rw [if_pos rfl]
          cases info.memberData ty.byteSize data with
          | error e => simp [error_bind]
          | ok memberData =>
              have hty := visualize_returns_iff ty memberData (depth + 1)
              have hprints : (true = true → ∃ memberData',
                  (.ok memberData : Except Failure (List Byte)) = .ok memberData' ∧
                    Prints env m ty memberData') ↔ Prints env m ty memberData := by
                simp
              rw [hprints, ← hty, ok_bind]
              cases env.visualize m ty memberData (depth + 1) with
              | error e => simp [error_bind]
              | ok text =>
                  rw [ok_bind]
                  cases env.visualizeMembers m rest data depth with
                  | error e => simp
                  | ok later => exact iff_of_true ⟨_, rfl⟩ ⟨⟨text, rfl⟩, later, rfl⟩
  | .inheritance _ _ _ rest => exact visualizeMembers_returns_iff rest data depth
  | .subprogram _ rest => exact visualizeMembers_returns_iff rest data depth
  | .other _ rest => exact visualizeMembers_returns_iff rest data depth

end

/-- The texts of members end their lines. -/
theorem visualizeMembers_lines {children : Children} {data : List Byte} {depth : Nat}
    {text before : Printed} (h : env.visualizeMembers m children data depth = .ok text)
    (hbefore : before.getLast? = some '\n') : (before ++ text).getLast? = some '\n' := by
  match children with
  | .nil =>
      cases h
      simpa using hbefore
  | .member ty info rest =>
      rw [ValueEnv.visualizeMembers] at h
      by_cases hlocated : info.isLocated = true
      · rw [if_pos hlocated] at h
        obtain ⟨memberData, -, h⟩ := bind_eq_ok.mp h
        obtain ⟨memberText, -, h⟩ := bind_eq_ok.mp h
        obtain ⟨later, hlater, h⟩ := bind_eq_ok.mp h
        cases h
        rw [← List.append_assoc]
        refine visualizeMembers_lines hlater ?_
        rw [← List.append_assoc, List.getLast?_concat]
      · rw [if_neg hlocated] at h
        exact visualizeMembers_lines h hbefore
  | .inheritance _ _ _ rest =>
      change env.visualizeMembers m rest data depth = .ok text at h
      exact visualizeMembers_lines h hbefore
  | .subprogram _ rest =>
      change env.visualizeMembers m rest data depth = .ok text at h
      exact visualizeMembers_lines h hbefore
  | .other _ rest =>
      change env.visualizeMembers m rest data depth = .ok text at h
      exact visualizeMembers_lines h hbefore

/-- The text of a class tells whether it is nested. -/
theorem visualize_cls_depth {tag : ClassTag} {name : Option String} {size : Option Nat}
    {children : Children} {data : List Byte} {depth : Nat} (hdepth : depth ≠ 0)
    (h : (env.visualize m (.cls tag name size children) data 0).toOption =
      (env.visualize m (.cls tag name size children) data depth).toOption) :
    ¬ MembersPrint env m children data := by
  intro hprint
  obtain ⟨flat, hflat⟩ := (visualizeMembers_returns_iff env m children data 0).mpr hprint
  obtain ⟨nested, hnested⟩ := (visualizeMembers_returns_iff env m children data depth).mpr hprint
  rw [ValueEnv.visualize, ValueEnv.visualize, hflat, hnested] at h
  have htexts := List.append_cancel_right (Option.some.inj h)
  have hend : (['{', '\n'] ++ flat).getLast? = some '\n' :=
    visualizeMembers_lines env m hflat (by decide)
  obtain ⟨before, rfl⟩ : ∃ before, depth = before + 1 := ⟨depth - 1, by omega⟩
  have htabs : ValueEnv.tabs (before + 1) = ValueEnv.tabs before ++ ['\t'] :=
    List.replicate_succ'
  have hzero : ValueEnv.tabs 0 = [] := rfl
  rw [hzero, List.append_nil, htabs, ← List.append_assoc] at htexts
  rw [htexts, List.getLast?_concat] at hend
  cases hend

theorem visualize_depth {ty : Ty} {data : List Byte} {depth : Nat}
    (h : depth = 0 ∨ ¬ PrintsMembers env m data ty) :
    (env.visualize m ty data 0).toOption = (env.visualize m ty data depth).toOption := by
  rcases h with rfl | hprint
  · rfl
  cases ty with
  | cls tag name size children =>
      have hnone : ∀ d, ¬ ∃ text, env.visualize m (.cls tag name size children) data d = .ok text :=
        fun d htext => hprint ((visualize_returns_iff env m _ data d).mp htext)
      rw [returns_iff.mpr (hnone 0), returns_iff.mpr (hnone depth)]
  | _ => rfl

end Texts

section Wrapped

variable (env : ValueEnv) (m : Machine) (layers : List Layer) (ty : Ty) (data : List Byte)
  (address : Option Word)

theorem index_wrap (index : Nat) :
    (⟨data, .dwarf (Ty.wrap layers ty), address⟩ : TypedData).index env m index =
      (⟨data, .dwarf ty, address⟩ : TypedData).index env m index := by
  unfold TypedData.index TypedData.typeDie
  simp only [ok_bind, Ty.stripCvTypedef_wrap]

theorem derefPointer_wrap :
    (⟨data, .dwarf (Ty.wrap layers ty), address⟩ : TypedData).derefPointer env m =
      (⟨data, .dwarf ty, address⟩ : TypedData).derefPointer env m := by
  unfold TypedData.derefPointer TypedData.typeDie
  simp only [ok_bind, Ty.stripCvTypedef_wrap]

/-- Behind layers a value is accessed like one of the type itself unless the type is
that of a class with the member asked for, or with printable members and nested. -/
theorem sameAccess_wrap_iff (memberName : String) (index depth : Nat) :
    SameAccess env m ⟨data, .dwarf (Ty.wrap layers ty), address⟩ ⟨data, .dwarf ty, address⟩
        memberName index depth ↔
      layers = [] ∨ ¬ HasMember memberName data ty ∧
        (depth = 0 ∨ ¬ PrintsMembers env m data ty) := by
  cases layers with
  | nil => exact iff_of_true ⟨rfl, rfl, rfl, rfl⟩ (.inl rfl)
  | cons layer rest =>
      have hmember : (∃ member, (⟨data, .dwarf ty, address⟩ : TypedData).readMember memberName =
          .ok member) ↔ HasMember memberName data ty := readMember_returns_iff ty
      constructor
      · intro h
        refine .inr ⟨fun hhas => ?_, ?_⟩
        · have hnone := h.member
          rw [readMember_wrap] at hnone
          exact returns_iff.mp hnone.symm (hmember.mpr hhas)
        · by_contra hdepth
          rw [not_or, not_not] at hdepth
          have htext := h.text
          change (env.visualize m _ data depth).toOption =
            (env.visualize m ty data depth).toOption at htext
          rw [visualize_wrap] at htext
          cases ty with
          | cls tag name size children => exact visualize_cls_depth env m hdepth.1 htext hdepth.2
          | _ => exact hdepth.2
      · rintro (hnil | ⟨hhas, hdepth⟩)
        · cases hnil
        refine ⟨?_, congrArg _ (index_wrap env m _ ty data address index),
          congrArg _ (derefPointer_wrap env m _ ty data address), ?_⟩
        · rw [readMember_wrap]
          exact (returns_iff.mpr fun hreads => hhas (hmember.mp hreads)).symm
        · change (env.visualize m _ data depth).toOption =
            (env.visualize m ty data depth).toOption
          rw [visualize_wrap]
          exact visualize_depth env m hdepth

end Wrapped

namespace ValueWitness

/-- `struct P { long x; };` with `x` at offset 0. -/
def record : Ty :=
  .cls .structure_ "P" (some 8)
    (.member (.base "long" .signed 8) ⟨"x", false, some 0, none, none, none, none, none⟩ .nil)

def zeros : TypedData := ⟨List.replicate 8 0, .dwarf record, none⟩

def zerosBehind : TypedData :=
  ⟨List.replicate 8 0, .dwarf (Ty.wrap [⟨.typedef_, "P_t"⟩] record), none⟩

end ValueWitness

open ValueWitness in
/-- `x` can be read out of a `P`, but not out of the same bytes as a `P_t`. -/
theorem typedef_loses_members :
    ¬ ∀ (env : ValueEnv) (m : Machine) (layers : List Layer) (ty : Ty) (data : List Byte)
      (address : Option Word) (memberName : String) (index depth : Nat),
      SameAccess env m ⟨data, .dwarf (Ty.wrap layers ty), address⟩ ⟨data, .dwarf ty, address⟩
        memberName index depth := by
  intro hall
  let env : ValueEnv := ⟨fun _ => .error .terminate, fun _ => "", fun _ => "", fun _ => "", 1⟩
  have hsame := (hall env (.atRest fun _ => 0) [⟨.typedef_, "P_t"⟩] record
    (List.replicate 8 0) none "x" 0 0).member
  have hbehind : (zerosBehind.readMember "x").toOption = none := rfl
  have hflat : (zeros.readMember "x").toOption ≠ none := by decide +kernel
  exact hflat (hsame.symm.trans hbehind)

end Gsdb
