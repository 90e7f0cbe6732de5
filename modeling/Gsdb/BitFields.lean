/-
Bit-fields: which bits of a class `read_member` hands out for one, and what number
printing makes of them.
-/
import Gsdb.ArrayElements
import Gsdb.BitCopy

namespace Gsdb

open ByteMemory

/-- A bit-field that lies inside a class, with a storage unit that contains it. -/
structure BitField (classSize : Nat) where
  name : Option String
  location : Nat
  byteSize : Nat
  bitOffset : Nat
  bitSize : Nat
  positive : 0 < bitSize
  inStorage : bitOffset + bitSize ≤ 8 * byteSize
  inClass : 8 * location + (8 * byteSize - bitOffset - bitSize) + bitSize ≤ 8 * classSize

namespace BitField

variable {n : Nat}

/-- Where the bit-field starts in its storage unit, from the low end. -/
def shift (field : BitField n) : Nat := 8 * field.byteSize - field.bitOffset - field.bitSize

/-- Where the bit-field starts in the class. -/
def position (field : BitField n) : Nat := 8 * field.location + field.shift

/-- `DW_AT_data_member_location`, `DW_AT_byte_size` and `DW_AT_bit_offset`. -/
def storageInfo (field : BitField n) : MemberInfo :=
  ⟨field.name, false, some field.location, none, some field.byteSize, some field.bitSize,
    some field.bitOffset, none⟩

/-- `DW_AT_data_bit_offset`. -/
def dataBitInfo (field : BitField n) : MemberInfo :=
  ⟨field.name, false, none, some field.position, none, some field.bitSize, none, none⟩

end BitField

/-- Data that hold some bits of an object in their low bits, and zeros above. -/
def HoldsBits (object : List Byte) (position bitSize : Nat) (data : List Byte) : Prop :=
  bitSize ≤ 8 * data.length ∧
    ∀ i, bitAt data i = if i < bitSize then bitAt object (position + i) else false

/-- The value of a class. -/
def classValue (tag : ClassTag) (name : Option String) (children : Children) (data : List Byte)
    (address : Option Word) : TypedData :=
  ⟨data, .dwarf (.cls tag name (some data.length) children), address⟩

/-- A member of a class is read as some bits of it, whatever the class and its value. -/
def ReadsBits (classSize : Nat) (ty : Ty) (info : MemberInfo) (position bitSize : Nat) : Prop :=
  ∀ (tag : ClassTag) (name : Option String) (children : Children) (memberName : String)
    (data : List Byte) (address : Option Word),
    children.firstNamed memberName = .ok (ty, info) → data.length = classSize →
    ∃ result, (classValue tag name children data address).readMember memberName = .ok result ∧
      HoldsBits data position bitSize result.data

/-- A bit-field is read as its bits by either description of it, with the same data. -/
structure ReadByEither {n : Nat} (ty : Ty) (field : BitField n) : Prop where
  storage : ReadsBits n ty field.storageInfo field.position field.bitSize
  dataBit : ReadsBits n ty field.dataBitInfo field.position field.bitSize
  same : ∀ (value : TypedData) (a b : TypedData), value.data.length = n →
    value.memberOf ty field.storageInfo = .ok a → value.memberOf ty field.dataBitInfo = .ok b →
    a.data = b.data

/-- The slice that is cut out of a class for a bit-field lies inside the class and covers
the bit-field, and the start of the bit-field in it can be counted in 8 bits, its size and
its end in 32. -/
structure SliceCovers (classSize sliceSize offset shift bitSize : Nat) : Prop where
  inside : offset + sliceSize ≤ classSize
  covers : shift + bitSize ≤ 8 * sliceSize
  start : shift < 2 ^ 8
  size : bitSize < 2 ^ 32
  stop : shift + bitSize ≤ 2 ^ 32

section Extracting

variable {ty : Ty} {info : MemberInfo} {offset shift bitSize : Nat}

theorem readMember_eq_memberOf {tag : ClassTag} {name : Option String} {children : Children}
    {memberName : String} {data : List Byte} {address : Option Word}
    (h : children.firstNamed memberName = .ok (ty, info)) :
    (classValue tag name children data address).readMember memberName =
      (classValue tag name children data address).memberOf ty info := by
  change (children.firstNamed memberName >>= _) = _
  rw [h]
  rfl

/-- Reading a bit-field: a slice of the size of its type, and a copy of its bits. -/
theorem memberOf_bitField {value : TypedData} (hoffset : info.byteOffset = .ok offset)
    (hshift : info.bitfieldOffset ty.byteSize = .ok (some (BitVec.ofNat 8 shift)))
    (hsize : info.bitSize = some bitSize) :
    value.memberOf ty info = (do
      let slice ← subdata value.data offset ty.byteSize
      let fixed ← memcpyBits (List.replicate (info.byteSize.getD ty.byteSize) 0) 0 slice
        (shift % 2 ^ 8) (bitSize % 2 ^ 32)
      pure ⟨fixed, .dwarf ty, none⟩) := by
  rw [TypedData.memberOf, hoffset, ok_bind]
  cases subdata value.data offset ty.byteSize with
  | error e => rfl
  | ok slice =>
      rw [ok_bind, ok_bind, MemberInfo.fixupBitfield, hshift, hsize]
      simp only [ok_bind, Option.getD_some, BitVec.toNat_ofNat, bind_assoc, pure_bind]

theorem bitAt_slice {data : List Byte} {size k : Nat} (h : k < 8 * size) :
    bitAt ((data.drop offset).take size) k = bitAt data (8 * offset + k) := by
  rw [bitAt_take h, bitAt_drop]

/-- A bit-field that was read: its slice is inside the value and its bits were copied. -/
theorem memberOf_eq_ok {value result : TypedData} (hoffset : info.byteOffset = .ok offset)
    (hshift : info.bitfieldOffset ty.byteSize = .ok (some (BitVec.ofNat 8 shift)))
    (hsize : info.bitSize = some bitSize) (h : value.memberOf ty info = .ok result) :
    offset + ty.byteSize ≤ value.data.length ∧
      BitsCopied (List.replicate (info.byteSize.getD ty.byteSize) 0) 0
        ((value.data.drop offset).take ty.byteSize) (shift % 2 ^ 8) (bitSize % 2 ^ 32)
        result.data := by
  rw [memberOf_bitField hoffset hshift hsize] at h
  obtain ⟨slice, hslice, h₁⟩ := bind_eq_ok.mp h
  obtain ⟨fixed, hfixed, h₂⟩ := bind_eq_ok.mp h₁
  cases h₂
  unfold subdata at hslice
  split at hslice
  · rename_i hinside
    cases hslice
    refine ⟨hinside, memcpyBits_copied ?_ (by decide) ?_ hfixed⟩
    · exact (Nat.mod_lt _ (by decide)).le
    · exact Nat.lt_of_lt_of_le (Nat.mod_lt shift (by decide)) (by decide)
  · cases hslice

/-- A value with a single bit in a bit-field shows whether that bit is read. -/
theorem bit_covered {n i : Nat} (hoffset : info.byteOffset = .ok offset)
    (hshift : info.bitfieldOffset ty.byteSize = .ok (some (BitVec.ofNat 8 shift)))
    (hsize : info.bitSize = some bitSize) (hclass : 8 * offset + shift + bitSize ≤ 8 * n)
    (hi : i < bitSize)
    (hall : ∀ value : TypedData, value.data.length = n →
      ∃ result, value.memberOf ty info = .ok result ∧
        HoldsBits value.data (8 * offset + shift) bitSize result.data) :
    offset + ty.byteSize ≤ n ∧ i < bitSize % 2 ^ 32 ∧
      bitBehind (shift % 2 ^ 8) i < 8 * ty.byteSize ∧
      bitBehind (shift % 2 ^ 8) i = shift + i := by
  have hplace : 8 * offset + shift + i < 8 * n := by omega
  obtain ⟨result, hread, -, hholds⟩ := hall
    ⟨singleBit n (8 * offset + shift + i), .dwarf ty, none⟩ (singleBit_length _ _)
  obtain ⟨hinside, hcopied⟩ := memberOf_eq_ok hoffset hshift hsize hread
  rw [singleBit_length] at hinside
  have hset : bitAt result.data i = true := by
    rw [hholds, if_pos hi, bitAt_singleBit hplace, decide_eq_true rfl]
  have hcount : bitBehind 0 i = i ∧ i < bitSize % 2 ^ 32 := by
    by_contra hnone
    rw [hcopied.kept i fun j hj hsame => ?_, bitAt_replicate] at hset
    · cases hset
    · rw [bitBehind_of_le (n := 2 ^ 32) (by decide) (by omega), Nat.zero_add] at hsame
      subst hsame
      exact hnone ⟨by rw [bitBehind, Nat.zero_add, Nat.mod_eq_of_lt (by omega)], hj⟩
  have hwithin := (hcopied.inside i hcount.2).2
  have hsource := hcopied.copied i hcount.2
  rw [List.length_take, List.length_drop, singleBit_length] at hwithin
  rw [hcount.1, hset, bitAt_slice (by omega), bitAt_singleBit hplace] at hsource
  have hsame := of_decide_eq_true hsource.symm
  exact ⟨hinside, hcount.2, by omega, by omega⟩

/-- A bit-field that its slice covers is read as its bits. -/
theorem SliceCovers.holdsBits {value : TypedData}
    (hcovers : SliceCovers value.data.length ty.byteSize offset shift bitSize)
    (hoffset : info.byteOffset = .ok offset)
    (hshift : info.bitfieldOffset ty.byteSize = .ok (some (BitVec.ofNat 8 shift)))
    (hsize : info.bitSize = some bitSize)
    (hstorage : bitSize ≤ 8 * info.byteSize.getD ty.byteSize) :
    ∃ result, value.memberOf ty info = .ok result ∧
      HoldsBits value.data (8 * offset + shift) bitSize result.data := by
  have hinside := hcovers.inside
  have hcovered := hcovers.covers
  have hslice : shift + bitSize ≤ 8 * ((value.data.drop offset).take ty.byteSize).length := by
    rw [List.length_take, List.length_drop]
    omega
  obtain ⟨fixed, hfixed, hlength, hbits⟩ := memcpyBits_intoZeros hstorage hslice
    (Nat.lt_of_lt_of_le hcovers.start (by decide)) hcovers.size hcovers.stop
  refine ⟨⟨fixed, .dwarf ty, none⟩, ?_, by rwa [hlength], fun i => ?_⟩
  · rw [memberOf_bitField hoffset hshift hsize, subdata, if_pos hinside, ok_bind,
      Nat.mod_eq_of_lt hcovers.start, Nat.mod_eq_of_lt hcovers.size, hfixed]
    rfl
  · rw [hbits i]
    split
    · rw [bitAt_slice (by omega), Nat.add_assoc]
    · rfl

/-- A bit-field is read as its bits, whatever the value, exactly if its slice covers it. -/
theorem holdsBits_iff {n : Nat} (hoffset : info.byteOffset = .ok offset)
    (hshift : info.bitfieldOffset ty.byteSize = .ok (some (BitVec.ofNat 8 shift)))
    (hsize : info.bitSize = some bitSize) (hpositive : 0 < bitSize)
    (hstorage : shift + bitSize ≤ 8 * ty.byteSize →
      bitSize ≤ 8 * info.byteSize.getD ty.byteSize)
    (hclass : 8 * offset + shift + bitSize ≤ 8 * n) :
    (∀ value : TypedData, value.data.length = n →
      ∃ result, value.memberOf ty info = .ok result ∧
        HoldsBits value.data (8 * offset + shift) bitSize result.data) ↔
      SliceCovers n ty.byteSize offset shift bitSize := by
  constructor
  · intro hall
    have hfirst := bit_covered hoffset hshift hsize hclass hpositive hall
    have hlast := bit_covered (i := bitSize - 1) hoffset hshift hsize hclass (by omega) hall
    unfold bitBehind at hfirst hlast
    exact ⟨hfirst.1, by omega, by omega, by omega, by omega⟩
  · rintro hcovers value rfl
    exact hcovers.holdsBits hoffset hshift hsize (hstorage hcovers.covers)

/-- Reading a bit-field looks at nothing but the bytes of the class. -/
theorem readsBits_iff {n position : Nat} (hoffset : info.byteOffset = .ok offset)
    (hshift : info.bitfieldOffset ty.byteSize = .ok (some (BitVec.ofNat 8 shift)))
    (hsize : info.bitSize = some bitSize) :
    ReadsBits n ty info position bitSize ↔
      ∀ value : TypedData, value.data.length = n →
        ∃ result, value.memberOf ty info = .ok result ∧
          HoldsBits value.data position bitSize result.data := by
  constructor
  · intro hreads value hlength
    have hnamed : (Children.member ty info .nil).firstNamed (info.name.getD "") = .ok (ty, info) :=
      if_pos rfl
    obtain ⟨result, hread, hholds⟩ :=
      hreads .structure_ none _ _ value.data value.address hnamed hlength
    rw [readMember_eq_memberOf hnamed, memberOf_bitField hoffset hshift hsize] at hread
    exact ⟨result, (memberOf_bitField hoffset hshift hsize).trans hread, hholds⟩
  · intro hall tag name children memberName data address hnamed hlength
    rw [readMember_eq_memberOf hnamed]
    exact hall (classValue tag name children data address) hlength

theorem HoldsBits.unique {object a b : List Byte} {position : Nat} (hlength : a.length = b.length)
    (ha : HoldsBits object position bitSize a) (hb : HoldsBits object position bitSize b) :
    a = b :=
  bitAt_ext hlength fun i _ => (ha.2 i).trans (hb.2 i).symm

end Extracting

section Descriptions

variable {n : Nat} (field : BitField n)

theorem storageInfo_shift (size : Nat) :
    field.storageInfo.bitfieldOffset size = .ok (some (BitVec.ofNat 8 field.shift)) := by
  have hstorage := field.inStorage
  have hshift : ((field.byteSize * 8 : Nat) : Int) - field.bitOffset - field.bitSize =
      (field.shift : Nat) := by
    rw [BitField.shift]
    omega
  change Except.ok (some (BitVec.ofInt 8 (((field.byteSize * 8 : Nat) : Int) - field.bitOffset -
    field.bitSize))) = _
  rw [hshift]
  rfl

theorem dataBitInfo_shift (size : Nat) :
    field.dataBitInfo.bitfieldOffset size =
      .ok (some (BitVec.ofNat 8 (field.position % 8))) := rfl

/-- The storage unit described: its bits are those of the slice at its location. -/
theorem storageInfo_holdsBits_iff (ty : Ty) :
    (∀ value : TypedData, value.data.length = n →
      ∃ result, value.memberOf ty field.storageInfo = .ok result ∧
        HoldsBits value.data field.position field.bitSize result.data) ↔
      SliceCovers n ty.byteSize field.location field.shift field.bitSize := by
  refine holdsBits_iff rfl (storageInfo_shift field _) rfl field.positive (fun _ => ?_)
    field.inClass
  have hunit := field.inStorage
  change field.bitSize ≤ 8 * field.byteSize
  omega

/-- The bit offset described: the slice starts in the byte with the first bit. -/
theorem dataBitInfo_holdsBits_iff (ty : Ty) :
    (∀ value : TypedData, value.data.length = n →
      ∃ result, value.memberOf ty field.dataBitInfo = .ok result ∧
        HoldsBits value.data field.position field.bitSize result.data) ↔
      SliceCovers n ty.byteSize (field.position / 8) (field.position % 8) field.bitSize := by
  have hposition : 8 * (field.position / 8) + field.position % 8 = field.position :=
    Nat.div_add_mod field.position 8
  have hclass : 8 * (field.position / 8) + field.position % 8 + field.bitSize ≤ 8 * n := by
    rw [hposition]
    exact field.inClass
  rw [← holdsBits_iff rfl (dataBitInfo_shift field _) rfl field.positive ?_ hclass, hposition]
  intro hcovers
  change field.bitSize ≤ 8 * ty.byteSize
  omega

theorem storageInfo_length {ty : Ty} {value result : TypedData}
    (h : value.memberOf ty field.storageInfo = .ok result) :
    result.data.length = field.byteSize := by
  have hcopied := (memberOf_eq_ok rfl (storageInfo_shift field _) rfl h).2
  rw [hcopied.length, List.length_replicate]
  rfl

theorem dataBitInfo_length {ty : Ty} {value result : TypedData}
    (h : value.memberOf ty field.dataBitInfo = .ok result) :
    result.data.length = ty.byteSize := by
  have hcopied := (memberOf_eq_ok rfl (dataBitInfo_shift field _) rfl h).2
  rw [hcopied.length, List.length_replicate]
  rfl

end Descriptions

/-- A bit-field is read as its bits by either description, with the same data, exactly if
both slices cover it and the storage unit has the size of the type. -/
theorem readByEither_iff {n : Nat} (ty : Ty) (field : BitField n) :
    ReadByEither ty field ↔
      SliceCovers n ty.byteSize field.location field.shift field.bitSize ∧
        SliceCovers n ty.byteSize (field.position / 8) (field.position % 8) field.bitSize ∧
        field.byteSize = ty.byteSize := by
  have hstorage := storageInfo_holdsBits_iff field ty
  have hdataBit := dataBitInfo_holdsBits_iff field ty
  constructor
  · intro h
    have hslice := (readsBits_iff rfl (storageInfo_shift field _) rfl).mp h.storage
    have hslice' := (readsBits_iff rfl (dataBitInfo_shift field _) rfl).mp h.dataBit
    refine ⟨hstorage.mp hslice, hdataBit.mp hslice', ?_⟩
    obtain ⟨a, ha, -⟩ := hslice ⟨List.replicate n 0, .dwarf ty, none⟩ List.length_replicate
    obtain ⟨b, hb, -⟩ := hslice' ⟨List.replicate n 0, .dwarf ty, none⟩ List.length_replicate
    have hsame := h.same _ a b List.length_replicate ha hb
    rw [← storageInfo_length field ha, ← dataBitInfo_length field hb, hsame]
  · rintro ⟨hslice, hslice', hsize⟩
    have hread := hstorage.mpr hslice
    have hread' := hdataBit.mpr hslice'
    refine ⟨(readsBits_iff rfl (storageInfo_shift field _) rfl).mpr hread,
      (readsBits_iff rfl (dataBitInfo_shift field _) rfl).mpr hread', ?_⟩
    intro value a b hlength ha hb
    obtain ⟨a', ha', hholds⟩ := hread value hlength
    obtain ⟨b', hb', hholds'⟩ := hread' value hlength
    obtain rfl : a' = a := Except.ok.inj (ha'.symm.trans ha)
    obtain rfl : b' = b := Except.ok.inj (hb'.symm.trans hb)
    refine hholds.unique ?_ hholds'
    rw [storageInfo_length field ha, dataBitInfo_length field hb, hsize]

namespace BitFieldWitness

def int : Ty := .base (some "int") .signed 4

/-- `struct { int a : 9; int b : 20; }` is four bytes long; this is `b`. -/
def field : BitField 4 where
  name := some "b"
  location := 0
  byteSize := 4
  bitOffset := 3
  bitSize := 20
  positive := by decide
  inStorage := by decide
  inClass := by decide

end BitFieldWitness

open BitFieldWitness in
/-- The slice for a bit-field in the last bytes of its class runs over the end. -/
theorem slice_runs_over :
    ¬ ∀ (n : Nat) (ty : Ty) (field : BitField n), ReadByEither ty field := by
  intro hall
  obtain ⟨result, hread, -⟩ := (hall 4 int field).dataBit .structure_ none
    (.member int field.dataBitInfo .nil) "b" [0, 0, 0, 0] none rfl rfl
  have hover : (classValue .structure_ none (.member int field.dataBitInfo .nil) [0, 0, 0, 0]
      none).readMember "b" = .error (.undefined "read outside the buffer") := rfl
  rw [hover] at hread
  cases hread

/-- What a bit-field of a signed type is printed as: `fixup_bitfield` of the bytes of its
type, then `visualize_base_type`. -/
def bitFieldText (env : ValueEnv) (name : Option String) (size : Nat) (info : MemberInfo)
    (data : List Byte) : Except Failure Printed := do
  let fixed ← info.fixupBitfield size data
  env.visualizeBaseType name .signed size (fixed.getD data)

/-- A bit-field of a type of some bytes, described by its place in a storage unit of that
size or by its bit offset in the class. -/
structure DescribesBits (size : Nat) (info : MemberInfo) (bitSize shift : Nat) : Prop where
  width : info.bitSize = some bitSize
  storage : info.byteSize = none ∨ info.byteSize = some size
  place : (∃ bitOffset, info.dataBitOffset = none ∧ info.bitOffset = some bitOffset ∧
      bitOffset + bitSize + shift = 8 * size) ∨
    ∃ dataBitOffset, info.dataBitOffset = some dataBitOffset ∧ dataBitOffset % 8 = shift

/-- A number stored in some bits, in two's complement. -/
structure StoresValue (data : List Byte) (shift bitSize : Nat) (v : Int) : Prop where
  inside : shift + bitSize ≤ 8 * data.length
  bits : ∀ i < bitSize, bitAt data (shift + i) = (BitVec.ofInt bitSize v).getLsbD i

section Signed

variable {env : ValueEnv} {name : Option String} {size bitSize shift : Nat} {info : MemberInfo}
  {data : List Byte} {v : Int}

theorem DescribesBits.storage_eq (h : DescribesBits size info bitSize shift) :
    info.byteSize.getD size = size := by
  rcases h.storage with hnone | hsome
  · rw [hnone]
    rfl
  · rw [hsome]
    rfl

theorem DescribesBits.bitfieldOffset (h : DescribesBits size info bitSize shift) :
    info.bitfieldOffset size = .ok (some (BitVec.ofNat 8 shift)) := by
  have hstorage := h.storage_eq
  rcases h.place with ⟨bitOffset, hdata, hoffset, hsum⟩ | ⟨dataBitOffset, hdata, hmod⟩
  · have hshift : ((size * 8 : Nat) : Int) - bitOffset - bitSize = (shift : Nat) := by omega
    rw [MemberInfo.bitfieldOffset, h.width, hdata, hoffset]
    simp only [hstorage]
    rw [hshift]
    rfl
  · rw [MemberInfo.bitfieldOffset, h.width, hdata, ← hmod]
    cases info.bitOffset <;> rfl

/-- The text of a negative number has a minus sign, that of another has none. -/
theorem text_ne_of_neg {a b : Int} (ha : 0 ≤ a) (hb : b < 0) :
    (toString a).toList ≠ (toString b).toList := by
  obtain ⟨n, rfl⟩ := Int.eq_ofNat_of_zero_le ha
  obtain ⟨k, rfl⟩ := Int.eq_negSucc_of_lt_zero hb
  intro hsame
  have hsign : '-' ∈ (toString (Int.negSucc k)).toList := by
    change '-' ∈ ("-" ++ (k + 1).repr).toList
    rw [String.toList_append]
    exact List.mem_append_left _ List.mem_cons_self
  rw [← hsame] at hsign
  have hdigit : '-' ∈ Nat.toDigits 10 n := by
    rw [← Nat.toList_repr]
    exact hsign
  have hfalse := Nat.isDigit_of_mem_toDigits (by decide) (by decide) hdigit
  cases hfalse

/-- The bits that are copied out of the data, as a number. -/
theorem fixupBitfield_signed (h : DescribesBits size info bitSize shift) (hsize : size ≤ 8)
    (hwidth : bitSize ≤ 8 * size) (hstored : StoresValue data shift bitSize v) :
    ∃ fixed, info.fixupBitfield size data = .ok (some fixed) ∧ fixed.length = size ∧
      ofLe fixed = (BitVec.ofInt bitSize v).toNat := by
  have hstart : shift < 2 ^ 8 := by
    rcases h.place with ⟨bitOffset, -, -, hsum⟩ | ⟨dataBitOffset, -, hmod⟩
    · omega
    · omega
  have hinside := hstored.inside
  obtain ⟨fixed, hfixed, hlength, hbits⟩ := memcpyBits_intoZeros hwidth hinside
    (Nat.lt_of_lt_of_le hstart (by decide)) (by omega) (by omega)
  refine ⟨fixed, ?_, hlength, ?_⟩
  · rw [MemberInfo.fixupBitfield, h.bitfieldOffset, h.storage_eq, h.width]
    simp only [ok_bind, Option.getD_some, BitVec.toNat_ofNat]
    rw [Nat.mod_eq_of_lt hstart, Nat.mod_eq_of_lt (by omega : bitSize < 2 ^ 32), hfixed]
    rfl
  · apply Nat.eq_of_testBit_eq
    intro i
    rw [testBit_ofLe, BitVec.testBit_toNat, hbits i]
    by_cases hi : i < bitSize
    · rw [if_pos hi, hstored.bits i hi]
    · rw [if_neg hi, BitVec.getLsbD_of_ge _ _ (by omega)]

/-- The bits of a number, read as a number of a type with more bits. -/
theorem toInt_widened {w n : Nat} (hw : 1 ≤ w) (hn : w ≤ n)
    (hrange : -2 ^ (w - 1) ≤ v ∧ v < 2 ^ (w - 1)) :
    (BitVec.ofNat n (BitVec.ofInt w v).toNat).toInt =
      if 0 ≤ v ∨ w = n then v else v + 2 ^ w := by
  obtain ⟨k, rfl⟩ := Nat.exists_eq_add_of_le hw
  obtain ⟨d, rfl⟩ := Nat.exists_eq_add_of_le hn
  rw [Nat.add_sub_cancel_left] at hrange
  have hhalf : (2 : Int) ^ (1 + k) = 2 * 2 ^ k := by rw [Nat.add_comm, Int.pow_succ']
  have hpos : (0 : Int) < 2 ^ k := Int.pow_pos (by decide)
  have hnat : ((2 ^ (1 + k) : Nat) : Int) = 2 * 2 ^ k := by rw [Int.natCast_pow]; exact hhalf
  have hmod : v % ((2 ^ (1 + k) : Nat) : Int) = if 0 ≤ v then v else v + 2 * 2 ^ k := by
    rw [hnat]
    split
    · exact Int.emod_eq_of_lt (by omega) (by omega)
    · rw [← Int.add_emod_right]
      exact Int.emod_eq_of_lt (by omega) (by omega)
  have hnumber : (((BitVec.ofInt (1 + k) v).toNat : Nat) : Int) =
      if 0 ≤ v then v else v + 2 * 2 ^ k := by
    rw [BitVec.toNat_ofInt, hmod, Int.toNat_of_nonneg]
    split <;> omega
  generalize (BitVec.ofInt (1 + k) v).toNat = u at hnumber
  have hwide : d = 0 ∧ ((2 ^ (1 + k + d) : Nat) : Int) = 2 * 2 ^ k ∨
      0 < d ∧ 4 * (2 : Int) ^ k ≤ ((2 ^ (1 + k + d) : Nat) : Int) := by
    cases d with
    | zero => exact .inl ⟨rfl, hnat⟩
    | succ d =>
        have hpower : ((2 ^ (1 + k + (d + 1)) : Nat) : Int) = 4 * 2 ^ k * 2 ^ d := by
          rw [Int.natCast_pow, show 1 + k + (d + 1) = d + (1 + k + 1) by omega, Int.pow_add,
            Int.pow_succ', Int.mul_comm]
          change 2 * (2 : Int) ^ (1 + k) * 2 ^ d = _
          rw [hhalf, ← Int.mul_assoc]
          rfl
        have hone : (1 : Int) ≤ 2 ^ d := Int.pow_pos (by decide)
        have hmore := Int.mul_le_mul_of_nonneg_left hone (by omega : (0 : Int) ≤ 4 * 2 ^ k)
        rw [hpower]
        exact .inr ⟨Nat.succ_pos d, by omega⟩
  rw [BitVec.toInt_eq_toNat_cond, BitVec.toNat_ofNat, hhalf]
  generalize 2 ^ (1 + k + d) = whole at hwide ⊢
  generalize (2 : Int) ^ k = half at *
  have hsmall : u < whole := by
    split at hnumber <;> omega
  rw [Nat.mod_eq_of_lt hsmall]
  split at hnumber <;> split <;> split <;> omega

end Signed

namespace BitFieldWitness

/-- `int a : 3;` at the start of a class. -/
def info : MemberInfo := ⟨some "a", false, none, some 0, none, some 3, none, none⟩

theorem info_describes : DescribesBits 4 info 3 0 where
  width := rfl
  storage := .inl rfl
  place := .inr ⟨0, rfl, rfl⟩

theorem minusOne_stored : StoresValue [7, 0, 0, 0] 0 3 (-1) where
  inside := by decide
  bits := by decide

theorem three_stored : StoresValue [3, 0, 0, 0] 0 3 3 where
  inside := by decide
  bits := by decide

end BitFieldWitness

/-- A bit-field of a signed type is printed as the value stored in it exactly if the value
is not negative or the bit-field has all the bits of its type. -/
theorem signedBitField_iff (env : ValueEnv) (name : Option String) {size bitSize shift : Nat}
    {info : MemberInfo} {data : List Byte} {v : Int} (hsize : size ∈ [1, 2, 4, 8])
    (hpositive : 1 ≤ bitSize) (hwidth : bitSize ≤ 8 * size)
    (hrange : -2 ^ (bitSize - 1) ≤ v ∧ v < 2 ^ (bitSize - 1))
    (hdescribed : DescribesBits size info bitSize shift)
    (hstored : StoresValue data shift bitSize v) :
    bitFieldText env name size info data = .ok (toString v).toList ↔
      0 ≤ v ∨ bitSize = 8 * size := by
  have hsmall : size ≤ 8 := by
    simp only [List.mem_cons, List.not_mem_nil, or_false] at hsize
    omega
  obtain ⟨fixed, hfixed, hlength, hnumber⟩ :=
    fixupBitfield_signed hdescribed hsmall hwidth hstored
  have htext : bitFieldText env name size info data =
      .ok (toString (if 0 ≤ v ∨ bitSize = 8 * size then v else v + 2 ^ bitSize)).toList := by
    rw [← toInt_widened hpositive hwidth hrange, ← hnumber, bitFieldText, hfixed, ok_bind]
    change (if size ∈ [1, 2, 4, 8] then ValueEnv.signedText size fixed else _) = _
    rw [if_pos hsize, ValueEnv.signedText, fromBytes, if_pos hlength.ge,
      List.take_of_length_le hlength.le]
    rfl
  rw [htext]
  by_cases hkept : 0 ≤ v ∨ bitSize = 8 * size
  · rw [if_pos hkept]
    exact iff_of_true rfl hkept
  · rw [if_neg hkept]
    refine iff_of_false (fun hsame => ?_) hkept
    have hpower : (2 : Int) ^ bitSize = 2 * 2 ^ (bitSize - 1) := by
      rw [← Int.pow_succ', Nat.sub_add_cancel hpositive]
    exact text_ne_of_neg (by omega) (by omega) (Except.ok.inj hsame)

open BitFieldWitness ArrayElementsWitness in
theorem signedBitField_iff_three :
    bitFieldText env (some "int") 4 info [3, 0, 0, 0] = .ok (toString (3 : Int)).toList ↔
      0 ≤ (3 : Int) ∨ 3 = 8 * 4 :=
  signedBitField_iff env (some "int") (by decide) (by decide) (by decide) (by decide)
    info_describes three_stored

open BitFieldWitness ArrayElementsWitness in
/-- Minus one in three bits is printed as seven. -/
theorem minusOne_reads_seven :
    ¬ ∀ (env : ValueEnv) (name : Option String) (size bitSize shift : Nat) (info : MemberInfo)
      (data : List Byte) (v : Int), size ∈ [1, 2, 4, 8] → 1 ≤ bitSize → bitSize ≤ 8 * size →
      -2 ^ (bitSize - 1) ≤ v ∧ v < 2 ^ (bitSize - 1) → DescribesBits size info bitSize shift →
      StoresValue data shift bitSize v →
      bitFieldText env name size info data = .ok (toString v).toList := by
  intro hall
  have htext := hall env (some "int") 4 3 0 info [7, 0, 0, 0] (-1) (by decide) (by decide)
    (by decide) (by decide) info_describes minusOne_stored
  have hseven : bitFieldText env (some "int") 4 info [7, 0, 0, 0] = .ok ['7'] := by decide +kernel
  rw [hseven] at htext
  exact absurd (Except.ok.inj htext) (by decide)

end Gsdb
