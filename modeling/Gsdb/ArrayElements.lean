/-
The elements of an array value: where `index` takes one from, and how all of them are
printed.
-/
import Gsdb.BreakpointShadow
import Gsdb.RowMajor
import Gsdb.ValueQualifiers

namespace Gsdb

open ByteMemory

/-- The items of an array in nested brackets, one level for each dimension. -/
def bracketed : List Nat → (List Nat → Except Failure Printed) → Except Failure Printed
  | [], leaf => leaf []
  | size :: sizes, leaf => do
      let items ← (List.range size).mapM fun i => bracketed sizes fun index => leaf (i :: index)
      pure ('[' :: List.intercalate [',', ' '] items ++ [']'])

/-- A result that is the same as another, unless that one reads outside its data. -/
def AgreesWithin {α : Type} (whole part : Except Failure α) : Prop :=
  whole = part ∨ ∃ what, part = .error (.undefined what)

/-- The bytes of an element. -/
def elementBytes (sizes : List Nat) (elementSize : Nat) (data : List Byte) (index : List Nat) :
    List Byte :=
  (data.drop (rowMajor sizes index * elementSize)).take elementSize

section Nesting

theorem mapM_congr {α β : Type} {f g : α → Except Failure β} {items : List α}
    (h : ∀ a ∈ items, f a = g a) : items.mapM f = items.mapM g := by
  induction items with
  | nil => rfl
  | cons a items ih =>
      rw [List.mapM_cons, List.mapM_cons, h a List.mem_cons_self,
        ih fun b hb => h b (List.mem_cons_of_mem a hb)]

/-- Only leaves at indices of the array are looked at. -/
theorem bracketed_congr {sizes : List Nat} {leaf leaf' : List Nat → Except Failure Printed}
    (h : ∀ index, IsIndex sizes index → leaf index = leaf' index) :
    bracketed sizes leaf = bracketed sizes leaf' := by
  induction sizes generalizing leaf leaf' with
  | nil => exact h [] .nil
  | cons size sizes ih =>
      rw [bracketed, bracketed]
      congr 1
      refine mapM_congr fun i hi => ih fun index hindex => ?_
      exact h (i :: index) (.cons (List.mem_range.mp hi) hindex)

variable {element : List Byte → Except Failure Printed}

/-- The loop over a dimension prints the items in order, separated by commas. -/
theorem visualizeElements_eq {subSize : Nat} {data : List Byte} {left : Nat} (i : Nat)
    (h : (i + left) * subSize ≤ data.length) :
    ValueEnv.visualizeElements element subSize data i left = (do
      let items ← (List.range' i left).mapM fun j => element (data.drop (j * subSize))
      pure (List.intercalate [',', ' '] items)) := by
  induction left generalizing i with
  | zero => rfl
  | succ left ih =>
      have hin : i * subSize ≤ data.length :=
        Nat.le_trans (Nat.mul_le_mul_right subSize (Nat.le_add_right i (left + 1))) h
      have hnext : (i + 1 + left) * subSize ≤ data.length := by
        rwa [Nat.add_assoc, Nat.add_comm 1 left]
      rw [ValueEnv.visualizeElements, if_pos hin, ih (i + 1) hnext, List.range'_succ,
        List.mapM_cons]
      cases element (data.drop (i * subSize)) with
      | error e => rfl
      | ok text =>
          simp only [ok_bind, bind_assoc, pure_bind]
          cases left with
          | zero => simp
          | succ left =>
              rw [List.range'_succ, List.mapM_cons]
              simp only [bind_assoc, pure_bind]
              rw [if_neg (Nat.succ_ne_zero left)]
              cases element (data.drop ((i + 1) * subSize)) with
              | error e => rfl
              | ok next =>
                  simp only [ok_bind]
                  cases (List.range' (i + 1 + 1) left).mapM fun j =>
                      element (data.drop (j * subSize)) with
                  | error e => rfl
                  | ok items =>
                      simp only [ok_bind, List.intercalate_cons_cons]
                      simp

theorem prod_mul_foldl (sizes : List Nat) (elementSize : Nat) :
    sizes.foldl (· * ·) elementSize = sizes.prod * elementSize := by
  induction sizes generalizing elementSize with
  | nil => exact (Nat.one_mul elementSize).symm
  | cons size sizes ih =>
      rw [List.foldl_cons, ih, List.prod_cons, Nat.mul_comm elementSize size, ← Nat.mul_assoc,
        Nat.mul_comm sizes.prod size]

/-- The recursion over the dimensions prints each element from its place on. -/
theorem visualizeSubrange_eq {elementSize : Nat} {sizes : List Nat} {data : List Byte}
    (h : sizes.prod * elementSize ≤ data.length) :
    ValueEnv.visualizeSubrange element elementSize sizes data =
      bracketed sizes fun index => element (data.drop (rowMajor sizes index * elementSize)) := by
  induction sizes generalizing data with
  | nil =>
      change element data = element (data.drop (0 * elementSize))
      rw [Nat.zero_mul, List.drop_zero]
  | cons size sizes ih =>
      rw [ValueEnv.visualizeSubrange, prod_mul_foldl, bracketed]
      rw [List.prod_cons, Nat.mul_assoc] at h
      rw [visualizeElements_eq 0 (by rwa [Nat.zero_add]), ← List.range_eq_range']
      have hitems : ∀ i ∈ List.range size,
          ValueEnv.visualizeSubrange element elementSize sizes
              (data.drop (i * (sizes.prod * elementSize))) =
            bracketed sizes fun index => element
              (data.drop (rowMajor (size :: sizes) (i :: index) * elementSize)) := by
        intro i hi
        have hroom : (i + 1) * (sizes.prod * elementSize) ≤ data.length :=
          Nat.le_trans (Nat.mul_le_mul_right _ (List.mem_range.mp hi)) h
        rw [Nat.succ_mul] at hroom
        rw [ih (by rw [List.length_drop]; omega)]
        refine bracketed_congr fun index hindex => ?_
        rw [List.drop_drop, rowMajor_cons hindex.length_eq, Nat.add_mul, Nat.mul_assoc]
      rw [mapM_congr hitems, bind_assoc]
      rfl

end Nesting

theorem byteSize_array (element : Ty) (upperBounds : List Nat) :
    (Ty.array element upperBounds).byteSize =
      (upperBounds.map (· + 1)).prod * element.byteSize := by
  rw [← prod_mul_foldl, List.foldl_map]
  rfl

section Within

theorem AgreesWithin.refl {α : Type} (x : Except Failure α) : AgreesWithin x x := .inl rfl

theorem AgreesWithin.bind {α β : Type} {x y : Except Failure α} {f g : α → Except Failure β}
    (hx : AgreesWithin x y) (hf : ∀ a, AgreesWithin (f a) (g a)) :
    AgreesWithin (x >>= f) (y >>= g) := by
  rcases hx with rfl | ⟨what, rfl⟩
  · cases x with
    | error e => exact .refl _
    | ok a => exact hf a
  · exact .inr ⟨what, rfl⟩

theorem AgreesWithin.ite {α : Type} {c : Prop} [Decidable c] {x x' y y' : Except Failure α}
    (hx : AgreesWithin x y) (hx' : AgreesWithin x' y') :
    AgreesWithin (if c then x else x') (if c then y else y') := by
  split
  · exact hx
  · exact hx'

theorem fromBytes_within (size : Nat) (data more : List Byte) :
    AgreesWithin (fromBytes size (data ++ more)) (fromBytes size data) := by
  by_cases hsize : size ≤ data.length
  · left
    rw [fromBytes, fromBytes, if_pos hsize, if_pos (by rw [List.length_append]; omega),
      List.take_append_of_le_length hsize]
  · exact .inr ⟨_, if_neg hsize⟩

theorem subdata_within (data more : List Byte) (offset size : Nat) :
    AgreesWithin (subdata (data ++ more) offset size) (subdata data offset size) := by
  by_cases hsize : offset + size ≤ data.length
  · left
    rw [subdata, subdata, if_pos hsize, if_pos (by rw [List.length_append]; omega),
      List.drop_append_of_le_length (by omega),
      List.take_append_of_le_length (by rw [List.length_drop]; omega)]
  · exact .inr ⟨_, if_neg hsize⟩

variable (env : ValueEnv) (m : Machine) (more : List Byte)

theorem visualizeBaseType_within (name : Option String) (encoding : BaseEncoding)
    (byteSize : Nat) (data : List Byte) :
    AgreesWithin (env.visualizeBaseType name encoding byteSize (data ++ more))
      (env.visualizeBaseType name encoding byteSize data) := by
  have hbytes : ∀ {α : Type} (size : Nat) (f : List Byte → α),
      AgreesWithin (fromBytes size (data ++ more) >>= fun bytes => pure (f bytes))
        (fromBytes size data >>= fun bytes => pure (f bytes)) := fun size f =>
    (fromBytes_within size data more).bind fun _ => .refl _
  cases encoding with
  | boolean => exact hbytes 1 _
  | float => exact .ite (hbytes 4 _) (.ite (hbytes 8 _) (.ite (hbytes 16 _) (.refl _)))
  | signed => exact .ite (hbytes byteSize _) (.refl _)
  | unsigned => exact .ite (hbytes byteSize _) (.refl _)
  | signedChar => exact hbytes 1 _
  | unsignedChar => exact hbytes 1 _
  | other => exact .refl _

theorem memberData_within (info : MemberInfo) (size : Nat) (data : List Byte) :
    AgreesWithin (info.memberData size (data ++ more)) (info.memberData size data) :=
  (AgreesWithin.refl _).bind fun offset =>
    (subdata_within data more offset size).bind fun _ => .refl _

variable {element : List Byte → Except Failure Printed}
  (helement : ∀ data, AgreesWithin (element (data ++ more)) (element data))

include helement

theorem visualizeElements_within {subSize : Nat} (data : List Byte) (i left : Nat) :
    AgreesWithin (ValueEnv.visualizeElements element subSize (data ++ more) i left)
      (ValueEnv.visualizeElements element subSize data i left) := by
  induction left generalizing i with
  | zero => exact .refl _
  | succ left ih =>
      rw [ValueEnv.visualizeElements, ValueEnv.visualizeElements]
      by_cases hin : i * subSize ≤ data.length
      · rw [if_pos hin, if_pos (by rw [List.length_append]; omega),
          List.drop_append_of_le_length hin]
        exact (helement _).bind fun _ => (ih (i + 1)).bind fun _ => .refl _
      · exact .inr ⟨_, if_neg hin⟩

theorem visualizeSubrange_within {elementSize : Nat} (sizes : List Nat) (data : List Byte) :
    AgreesWithin (ValueEnv.visualizeSubrange element elementSize sizes (data ++ more))
      (ValueEnv.visualizeSubrange element elementSize sizes data) := by
  induction sizes generalizing data with
  | nil => exact helement data
  | cons size sizes ih =>
      exact (visualizeElements_within more ih data 0 size).bind fun _ => .refl _

omit helement

mutual

/-- More bytes behind a value change nothing that is printed of it, as far as printing
stays within the value. -/
theorem visualize_within (ty : Ty) (data : List Byte) (depth : Nat) :
    AgreesWithin (env.visualize m ty (data ++ more) depth) (env.visualize m ty data depth) := by
  match ty with
  | .base .. => exact visualizeBaseType_within env more _ _ _ data
  | .pointer _ => exact (fromBytes_within 8 data more).bind fun _ => .refl _
  | .memberPointer _ => exact (fromBytes_within 8 data more).bind fun _ => .refl _
  | .array element _ =>
      exact visualizeSubrange_within more (fun data => visualize_within element data 0) _ data
  | .cls _ _ _ children =>
      exact (visualizeMembers_within children data depth).bind fun _ => .refl _
  | .enumeration _ underlying => exact visualize_within underlying data 0
  | .alias _ _ target => exact visualize_within target data 0
  | .reference .. => exact .refl _
  | .other _ => exact .refl _

theorem visualizeMembers_within (children : Children) (data : List Byte) (depth : Nat) :
    AgreesWithin (env.visualizeMembers m children (data ++ more) depth)
      (env.visualizeMembers m children data depth) := by
  match children with
  | .nil => exact .refl _
  | .member ty info rest =>
      refine .ite ?_ (visualizeMembers_within rest data depth)
      refine (memberData_within more info ty.byteSize data).bind fun memberData => ?_
      refine (AgreesWithin.refl _).bind fun text => ?_
      exact (visualizeMembers_within rest data depth).bind fun _ => .refl _
  | .inheritance _ _ _ rest => exact visualizeMembers_within rest data depth
  | .subprogram _ rest => exact visualizeMembers_within rest data depth
  | .other _ rest => exact visualizeMembers_within rest data depth

end

end Within

/-- What is printed from the place of an element on is the element. -/
theorem visualize_element_within (env : ValueEnv) (m : Machine) (element : Ty)
    (sizes : List Nat) (data : List Byte) (index : List Nat) :
    AgreesWithin
      (env.visualize m element (data.drop (rowMajor sizes index * element.byteSize)) 0)
      (env.visualize m element (elementBytes sizes element.byteSize data index) 0) := by
  have hwhole := visualize_within env m
    ((data.drop (rowMajor sizes index * element.byteSize)).drop element.byteSize) element
    (elementBytes sizes element.byteSize data index) 0
  rwa [elementBytes, List.take_append_drop] at hwhole

/-- An array of any number of dimensions is printed completely and row by row, every
element from its place on. -/
theorem visualize_array_rowMajor (env : ValueEnv) (m : Machine) (element : Ty)
    (upperBounds : List Nat) (data : List Byte) (depth : Nat)
    (hsize : data.length = (Ty.array element upperBounds).byteSize) :
    env.visualize m (.array element upperBounds) data depth =
        bracketed (upperBounds.map (· + 1)) (fun index => env.visualize m element
          (data.drop (rowMajor (upperBounds.map (· + 1)) index * element.byteSize)) 0) ∧
      ∀ index, IsIndex (upperBounds.map (· + 1)) index →
        rowMajor (upperBounds.map (· + 1)) index * element.byteSize + element.byteSize ≤
            data.length ∧
          AgreesWithin
            (env.visualize m element
              (data.drop (rowMajor (upperBounds.map (· + 1)) index * element.byteSize)) 0)
            (env.visualize m element
              (elementBytes (upperBounds.map (· + 1)) element.byteSize data index) 0) := by
  have hroom := byteSize_array element upperBounds
  rw [← hsize] at hroom
  refine ⟨visualizeSubrange_eq hroom.symm.le, fun index hindex => ?_⟩
  refine ⟨?_, visualize_element_within env m element _ data index⟩
  rw [hroom, ← Nat.succ_mul]
  exact Nat.mul_le_mul_right _ hindex.rowMajor_lt

/-- `index`, applied for every index of a tuple in turn. -/
def TypedData.indexAll (env : ValueEnv) (m : Machine) (value : TypedData) (index : List Nat) :
    Except Failure TypedData :=
  index.foldlM (fun value i => value.index env m i) value

/-- The elements of an array value are taken row by row and are those that are printed;
an index out of range is refused at its dimension. -/
structure IndexedRowMajor (env : ValueEnv) (m : Machine) (element : Ty) (sizes : List Nat)
    (value : TypedData) : Prop where
  taken : ∀ index, IsIndex sizes index → ∃ result, value.indexAll env m index = .ok result ∧
    result.type = .dwarf element ∧
    result.data = elementBytes sizes element.byteSize value.data index
  printed : ∃ leaf, value.visualize env m 0 = bracketed sizes leaf ∧
    ∀ index, IsIndex sizes index → AgreesWithin (leaf index)
      (env.visualize m element (elementBytes sizes element.byteSize value.data index) 0)
  refused : ∀ before size after index i, sizes = before ++ size :: after →
    IsIndex before index → size ≤ i → ∃ what, value.indexAll env m (index ++ [i]) =
      .error (.error what)

namespace Machine

/-- A process that has no memory. -/
def withoutMemory : Machine :=
  let m := atRest fun _ => 0
  { m with kernel := { m.kernel with mapped := fun _ => false } }

end Machine

theorem readMemory_withoutMemory {address : Word} {amount : Nat} {bytes : List Byte}
    (h : readMemory .withoutMemory address amount = .ok bytes) : bytes = [] := by
  cases amount with
  | zero =>
      cases h
      rfl
  | succ amount =>
      exfalso
      have hpos := chunk_pos address
      have hunreadable : ∀ chunk, 0 < chunk →
          (⟨address, chunk⟩ : Iovec).readable Machine.withoutMemory.kernel = false := by
        intro chunk hchunk
        rw [Iovec.readable, List.all_eq_false]
        exact ⟨0, List.mem_range.mpr hchunk, fun hmapped => by cases hmapped⟩
      have hnone : processVmReadv Machine.withoutMemory.kernel
          (remoteDescs address (amount + 1)) = none := by
        rw [remoteDescs, remoteDescsLoop, if_neg (Nat.succ_ne_zero amount), processVmReadv]
        simp only [List.takeWhile_cons, hunreadable _ (by omega : 0 < min (amount + 1)
          (0x1000 - (address &&& 0xfff).toNat))]
        simp
      simp [readMemory, hnone] at h

theorem Ty.sizeOf_stripCvTypedef (ty : Ty) : sizeOf ty.stripCvTypedef ≤ sizeOf ty := by
  match ty with
  | .alias tag name target =>
      have htarget := Ty.sizeOf_stripCvTypedef target
      rw [Ty.stripCvTypedef, Ty.alias.sizeOf_spec]
      omega
  | .base .. => exact Nat.le_refl _
  | .enumeration .. => exact Nat.le_refl _
  | .pointer .. => exact Nat.le_refl _
  | .reference .. => exact Nat.le_refl _
  | .memberPointer .. => exact Nat.le_refl _
  | .array .. => exact Nat.le_refl _
  | .cls .. => exact Nat.le_refl _
  | .other .. => exact Nat.le_refl _

section Taking

variable {env : ValueEnv}

/-- An element of an array value of one dimension or more: the index counts elements of
the innermost dimension. -/
theorem index_array {m : Machine} {element : Ty} {upperBounds : List Nat} {data : List Byte}
    {address : Option Word} {i : Nat} (hsize : 0 < element.byteSize)
    (hlength : data.length = (upperBounds.map (· + 1)).prod * element.byteSize)
    (hi : i < (upperBounds.map (· + 1)).prod) :
    (⟨data, .dwarf (.array element upperBounds), address⟩ : TypedData).index env m i =
      .ok ⟨(data.drop (i * element.byteSize)).take element.byteSize, .dwarf element,
        address.map (· + BitVec.ofNat 64 (i * element.byteSize))⟩ := by
  have hcount : data.length / element.byteSize = (upperBounds.map (· + 1)).prod := by
    rw [hlength, Nat.mul_div_cancel _ hsize]
  have hroom : i * element.byteSize + element.byteSize ≤ data.length := by
    rw [hlength, ← Nat.succ_mul]
    exact Nat.mul_le_mul_right _ hi
  change (if element.byteSize = 0 ∨ data.length / element.byteSize ≤ i then _ else _) = _
  rw [if_neg (by omega), subdata, if_pos hroom]
  rfl

theorem index_array_outside {m : Machine} {element : Ty} {upperBounds : List Nat}
    {data : List Byte} {address : Option Word} {i : Nat}
    (h : element.byteSize = 0 ∨ data.length / element.byteSize ≤ i) :
    (⟨data, .dwarf (.array element upperBounds), address⟩ : TypedData).index env m i =
      .error (.error "Index out of range!") := by
  change (if element.byteSize = 0 ∨ data.length / element.byteSize ≤ i then _ else _) = _
  rw [if_pos h]

/-- Nothing is taken out of no data. -/
theorem index_data_ne_nil {m : Machine} {value result : TypedData} {i : Nat}
    (h : value.index env m i = .ok result) : value.data ≠ [] := by
  intro hnil
  obtain ⟨ty, -, h₁⟩ := bind_eq_ok.mp h
  cases hstripped : ty.stripCvTypedef with
  | pointer target =>
      rw [hstripped] at h₁
      obtain ⟨element, -, h₂⟩ := bind_eq_ok.mp h₁
      rw [hnil] at h₂
      cases h₂
  | array element upperBounds =>
      rw [hstripped] at h₁
      simp [hnil] at h₁
  | _ =>
      rw [hstripped] at h₁
      cases h₁

/-- Without memory to follow a pointer into, what is taken out of a value has a smaller
type. -/
theorem index_withoutMemory {value result : TypedData} {ty : Ty} {i : Nat}
    (hty : value.type = .dwarf ty) (h : value.index env .withoutMemory i = .ok result)
    (hdata : result.data ≠ []) : ∃ ty', result.type = .dwarf ty' ∧ sizeOf ty' < sizeOf ty := by
  have hstrip := ty.sizeOf_stripCvTypedef
  rw [TypedData.index, TypedData.typeDie, hty, ok_bind] at h
  cases hstripped : ty.stripCvTypedef with
  | pointer target =>
      rw [hstripped] at h
      obtain ⟨element, -, h₁⟩ := bind_eq_ok.mp h
      obtain ⟨bytes, hbytes, h₂⟩ := bind_eq_ok.mp h₁
      obtain ⟨data, hread, h₃⟩ := bind_eq_ok.mp h₂
      cases h₃
      exact absurd (readMemory_withoutMemory hread) hdata
  | array element upperBounds =>
      rw [hstripped] at h hstrip
      change (if element.byteSize = 0 ∨ value.data.length / element.byteSize ≤ i then _ else _) = _
        at h
      split at h
      · cases h
      · obtain ⟨data, -, h₁⟩ := bind_eq_ok.mp h
        cases h₁
        rw [Ty.array.sizeOf_spec] at hstrip
        exact ⟨element, rfl, by omega⟩
  | _ =>
      rw [hstripped] at h
      cases h

theorem indexAll_withoutMemory {value result : TypedData} {ty : Ty} {index : List Nat}
    (hty : value.type = .dwarf ty) (hne : index ≠ [])
    (h : value.indexAll env .withoutMemory index = .ok result) (hdata : result.data ≠ []) :
    ∃ ty', result.type = .dwarf ty' ∧ sizeOf ty' < sizeOf ty := by
  induction index generalizing value ty with
  | nil => exact absurd rfl hne
  | cons i index ih =>
      rw [TypedData.indexAll, List.foldlM_cons] at h
      obtain ⟨next, hnext, hrest⟩ := bind_eq_ok.mp h
      by_cases hlast : index = []
      · subst hlast
        cases hrest
        exact index_withoutMemory hty hnext hdata
      · have hsome : next.data ≠ [] := by
          obtain ⟨j, rest, rfl⟩ := List.exists_cons_of_ne_nil hlast
          obtain ⟨after, hafter, -⟩ := bind_eq_ok.mp hrest
          exact index_data_ne_nil hafter
        obtain ⟨ty', hty', hlt⟩ := index_withoutMemory hty hnext hsome
        obtain ⟨ty'', hty'', hlt'⟩ := ih hty' hlast hrest
        exact ⟨ty'', hty'', by omega⟩

end Taking

theorem elementBytes_length {sizes index : List Nat} {elementSize : Nat} {data : List Byte}
    (hindex : IsIndex sizes index) (hlength : data.length = sizes.prod * elementSize) :
    (elementBytes sizes elementSize data index).length = elementSize := by
  have hroom : rowMajor sizes index * elementSize + elementSize ≤ data.length := by
    rw [hlength, ← Nat.succ_mul]
    exact Nat.mul_le_mul_right _ hindex.rowMajor_lt
  rw [elementBytes, List.length_take, List.length_drop]
  omega

section Arrays

variable (env : ValueEnv) (layers : List Layer) (element : Ty) (upper : Nat) (uppers : List Nat)

theorem visualize_wrap_array (m : Machine) (data : List Byte) :
    env.visualize m (Ty.wrap layers (.array element (upper :: uppers))) data 0 =
      env.visualize m (.array element (upper :: uppers)) data 0 := by
  cases layers with
  | nil => rfl
  | cons layer rest => exact visualize_wrap env m layer rest _ data 0

variable {env layers element upper uppers}

/-- An array of zeros whose elements are taken row by row has one dimension, and its elements
are not empty. -/
theorem IndexedRowMajor.flat
    (h : IndexedRowMajor env .withoutMemory element ((upper :: uppers).map (· + 1))
      ⟨List.replicate (Ty.array element (upper :: uppers)).byteSize 0,
        .dwarf (Ty.wrap layers (.array element (upper :: uppers))), none⟩) :
    uppers = [] ∧ 0 < element.byteSize := by
  have hzeros : IsIndex ((upper :: uppers).map (· + 1))
      (List.replicate ((upper :: uppers).map (· + 1)).length 0) := by
    refine isIndex_zeros fun size hsize => ?_
    obtain ⟨bound, -, rfl⟩ := List.mem_map.mp hsize
    exact Nat.succ_pos bound
  obtain ⟨result, htaken, htype, hdata⟩ := h.taken _ hzeros
  rw [List.length_map, List.length_cons, List.replicate_succ, TypedData.indexAll,
    List.foldlM_cons] at htaken
  obtain ⟨first, hfirst, hrest⟩ := bind_eq_ok.mp htaken
  rw [index_wrap] at hfirst
  have hsize : 0 < element.byteSize := by
    by_contra hzero
    rw [index_array_outside (.inl (by omega))] at hfirst
    cases hfirst
  refine ⟨?_, hsize⟩
  by_contra hmore
  have hcount := byteSize_array element (upper :: uppers)
  have hsome : 0 < ((upper :: uppers).map (· + 1)).prod :=
    Nat.lt_of_le_of_lt (Nat.zero_le _) hzeros.rowMajor_lt
  rw [index_array hsize (by rw [List.length_replicate, hcount]) hsome] at hfirst
  cases hfirst
  have hagain : List.replicate uppers.length 0 ≠ [] := by
    simpa using hmore
  have hbytes : result.data ≠ [] := by
    rw [hdata, ← List.length_pos_iff, elementBytes_length hzeros]
    · exact hsize
    · rw [List.length_replicate, hcount]
  -- the type of an element of a row is smaller than that of the row
  obtain ⟨ty, hty, hsmaller⟩ := indexAll_withoutMemory rfl hagain hrest hbytes
  rw [htype] at hty
  cases hty
  exact Nat.lt_irrefl _ hsmaller

/-- The elements of an array of one dimension are taken one after the other. -/
theorem indexedRowMajor_flat (hsize : 0 < element.byteSize) (m : Machine) {data : List Byte}
    (address : Option Word) (hlength : data.length = (Ty.array element [upper]).byteSize) :
    IndexedRowMajor env m element ([upper].map (· + 1))
      ⟨data, .dwarf (Ty.wrap layers (.array element [upper])), address⟩ := by
  have hcount : data.length = (upper + 1) * element.byteSize := by
    rw [hlength, byteSize_array, List.map_singleton, List.prod_singleton]
  refine ⟨fun index hindex => ?_, ?_, fun before size after index i hsplit hindex hi => ?_⟩
  · obtain ⟨i, rfl, hi⟩ := isIndex_singleton.mp hindex
    have hplace : elementBytes ([upper].map (· + 1)) element.byteSize data [i] =
        (data.drop (i * element.byteSize)).take element.byteSize := by
      rw [elementBytes, List.map_singleton, rowMajor_singleton]
    refine ⟨⟨_, .dwarf element, address.map (· + BitVec.ofNat 64 (i * element.byteSize))⟩,
      ?_, rfl, hplace.symm⟩
    rw [TypedData.indexAll, List.foldlM_cons, index_wrap,
      index_array hsize (by simpa using hcount) (by simpa using hi)]
    rfl
  · have hroom : ([upper].map (· + 1)).prod * element.byteSize ≤ data.length := by
      rw [hlength, byteSize_array]
    have hprinted : env.visualize m (.array element [upper]) data 0 =
        bracketed ([upper].map (· + 1)) (fun index => env.visualize m element
          (data.drop (rowMajor ([upper].map (· + 1)) index * element.byteSize)) 0) :=
      visualizeSubrange_eq hroom
    refine ⟨_, ?_, fun index _ => visualize_element_within env m element _ data index⟩
    rw [← hprinted]
    exact visualize_wrap_array env layers element upper [] m data
  · cases before with
    | nil =>
        obtain ⟨rfl, rfl⟩ : upper + 1 = size ∧ [] = after := by simpa using hsplit
        cases hindex
        refine ⟨"Index out of range!", ?_⟩
        rw [List.nil_append, TypedData.indexAll, List.foldlM_cons, index_wrap,
          index_array_outside (.inr ?_)]
        · rfl
        · rwa [hcount, Nat.mul_div_cancel _ hsize]
    | cons next before => simp at hsplit

variable (env layers element upper uppers)

/-- The elements of an array type are taken row by row, whatever the value and the memory,
exactly if the array has one dimension and elements that are not empty. -/
theorem index_rowMajor_iff :
    (∀ (m : Machine) (data : List Byte) (address : Option Word),
      data.length = (Ty.array element (upper :: uppers)).byteSize →
      IndexedRowMajor env m element ((upper :: uppers).map (· + 1))
        ⟨data, .dwarf (Ty.wrap layers (.array element (upper :: uppers))), address⟩) ↔
      uppers = [] ∧ 0 < element.byteSize := by
  constructor
  · intro hall
    exact (hall .withoutMemory _ none List.length_replicate).flat
  · rintro ⟨rfl, hsize⟩ m data address hlength
    exact indexedRowMajor_flat hsize m address hlength

end Arrays

namespace ArrayElementsWitness

def env : ValueEnv where
  pointee := fun _ => .error (.error "Attribute not found!")
  floatText := fun _ => ""
  doubleText := fun _ => ""
  longDoubleText := fun _ => ""
  rounds := 0

def number : Ty := .base (some "unsigned char") .unsigned 1

/-- Two rows of three numbers. -/
def rows : List Byte := [1, 2, 3, 4, 5, 6]

def table : TypedData := ⟨rows, .dwarf (.array number [1, 2]), none⟩

end ArrayElementsWitness

open ArrayElementsWitness in
theorem visualize_array_rowMajor_table :
    env.visualize .withoutMemory (.array number [1, 2]) rows 0 =
        bracketed [2, 3] (fun index => env.visualize .withoutMemory number
          (rows.drop (rowMajor [2, 3] index * 1)) 0) ∧
      ∀ index, IsIndex [2, 3] index →
        rowMajor [2, 3] index * 1 + 1 ≤ 6 ∧
          AgreesWithin
            (env.visualize .withoutMemory number (rows.drop (rowMajor [2, 3] index * 1)) 0)
            (env.visualize .withoutMemory number (elementBytes [2, 3] 1 rows index) 0) :=
  visualize_array_rowMajor env .withoutMemory number [1, 2] rows 0 rfl

open ArrayElementsWitness in
example : env.visualize .withoutMemory (.array number [1, 2]) rows 0 =
    .ok "[[1, 2, 3], [4, 5, 6]]".toList := by decide

open ArrayElementsWitness in
/-- No element of a table is found by two indices: the first takes one already. -/
theorem table_not_indexed :
    ¬ ∀ (env : ValueEnv) (m : Machine) (element : Ty) (upper : Nat) (uppers : List Nat)
      (data : List Byte) (address : Option Word),
      data.length = (Ty.array element (upper :: uppers)).byteSize →
      IndexedRowMajor env m element ((upper :: uppers).map (· + 1))
        ⟨data, .dwarf (.array element (upper :: uppers)), address⟩ := by
  intro hall
  have htable := hall env .withoutMemory number 1 [2] rows none rfl
  have hindex : IsIndex [2, 3] [1, 2] := .cons (by decide) (.cons (by decide) .nil)
  obtain ⟨result, htaken, -⟩ := htable.taken [1, 2] hindex
  have hfails : table.indexAll env .withoutMemory [1, 2] =
      .error (.error "Not an array or pointer type!") := rfl
  rw [table] at hfails
  rw [hfails] at htaken
  cases htaken

end Gsdb
