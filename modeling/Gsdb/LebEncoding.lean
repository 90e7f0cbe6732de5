/-
LEB128 encodings of a number with any number of groups, and that decoding inverts them.
With more groups than the number needs the encoding is padded.
-/
import Gsdb.Leb128
import Mathlib.Tactic.Zify

namespace ByteCursor

open ByteMemory

/-- An unsigned number in one group and so many more. -/
def encodeUleb : Nat → Nat → List Byte
  | 0, value => [BitVec.ofNat 8 (value % 128)]
  | more + 1, value => BitVec.ofNat 8 (value % 128 + 128) :: encodeUleb more (value / 128)

/-- A signed number in two's complement, in one group and so many more. -/
def encodeSleb (more : Nat) (value : Int) : List Byte :=
  encodeUleb more (value % 128 ^ (more + 1)).toNat

/-- Ten bytes at most that encode an unsigned number, canonical or padded. -/
structure UlebOf (value : BitVec 64) (bytes : List Byte) : Prop where
  shape : isLeb bytes = true
  fits : bytes.length ≤ 10
  number : lebGroups bytes = value.toNat

/-- Ten bytes at most that encode a signed number; the highest bit of the last group counts
negatively. -/
structure SlebOf (value : BitVec 64) (bytes : List Byte) : Prop where
  shape : isLeb bytes = true
  fits : bytes.length ≤ 10
  number : (lebGroups bytes : Int) - (if lebNegative bytes then 2 ^ (7 * bytes.length) else 0) =
    value.toInt

theorem UlebOf.encodes {value : BitVec 64} {bytes : List Byte} (h : UlebOf value bytes) :
    EncodesUleb bytes value :=
  ⟨h.shape, h.fits, by rw [h.number, BitVec.ofNat_toNat, BitVec.setWidth_eq]⟩

theorem SlebOf.encodes {value : BitVec 64} {bytes : List Byte} (h : SlebOf value bytes) :
    EncodesSleb bytes value :=
  ⟨h.shape, h.fits, by rw [h.number, BitVec.ofInt_toInt]⟩

section Encoders

variable {more value : Nat}

theorem continuing_group :
    ∀ group < 128, continues (BitVec.ofNat 8 (group + 128)) = true ∧
      (BitVec.ofNat 8 (group + 128) &&& 0x7f).toNat = group := by
  decide +kernel

theorem last_group :
    ∀ group < 128, continues (BitVec.ofNat 8 group) = false ∧
      (BitVec.ofNat 8 group &&& 0x7f).toNat = group ∧
      decide (BitVec.ofNat 8 group &&& 0x40 ≠ 0) = decide (64 ≤ group) := by
  decide +kernel

theorem encodeUleb_length (more value : Nat) : (encodeUleb more value).length = more + 1 := by
  induction more generalizing value with
  | zero => rfl
  | succ more ih => rw [encodeUleb, List.length_cons, ih]

theorem encodeUleb_ne_nil (more value : Nat) : encodeUleb more value ≠ [] := by
  intro hnil
  have hlength := encodeUleb_length more value
  rw [hnil] at hlength
  cases hlength

/-- Without its first group a number takes one group less. -/
theorem div_group_lt (h : value < 128 ^ (more + 1 + 1)) : value / 128 < 128 ^ (more + 1) := by
  rw [Nat.pow_succ] at h
  exact Nat.div_lt_of_lt_mul (by rwa [Nat.mul_comm])

theorem encodeUleb_isLeb (more value : Nat) : isLeb (encodeUleb more value) = true := by
  induction more generalizing value with
  | zero =>
      obtain ⟨hlast, -, -⟩ := last_group (value % 128) (Nat.mod_lt value (by decide))
      simp [encodeUleb, isLeb, hlast]
  | succ more ih =>
      obtain ⟨hmore, -⟩ := continuing_group (value % 128) (Nat.mod_lt value (by decide))
      rw [encodeUleb, isLeb.eq_3 _ _ (encodeUleb_ne_nil more _), hmore, ih (value / 128)]
      rfl

theorem encodeUleb_groups (h : value < 128 ^ (more + 1)) :
    lebGroups (encodeUleb more value) = value := by
  induction more generalizing value with
  | zero =>
      obtain ⟨-, hgroup, -⟩ := last_group (value % 128) (Nat.mod_lt value (by decide))
      rw [encodeUleb, lebGroups, lebGroups, hgroup]
      omega
  | succ more ih =>
      obtain ⟨-, hgroup⟩ := continuing_group (value % 128) (Nat.mod_lt value (by decide))
      rw [encodeUleb, lebGroups, hgroup, ih (div_group_lt h)]
      omega

/-- The last group is negative from the upper half of the numbers on. -/
theorem encodeUleb_negative (h : value < 128 ^ (more + 1)) :
    lebNegative (encodeUleb more value) = decide (64 * 128 ^ more ≤ value) := by
  induction more generalizing value with
  | zero =>
      obtain ⟨-, -, hsign⟩ := last_group (value % 128) (Nat.mod_lt value (by decide))
      have hsmall : value % 128 = value := Nat.mod_eq_of_lt h
      rw [hsmall] at hsign
      rw [encodeUleb, hsmall]
      exact hsign
  | succ more ih =>
      have hlast : lebNegative (encodeUleb (more + 1) value) =
          lebNegative (encodeUleb more (value / 128)) := by
        rw [encodeUleb, lebNegative, lebNegative,
          List.getLast?_cons_of_ne_nil (encodeUleb_ne_nil more _)]
      rw [hlast, ih (div_group_lt h), decide_eq_decide, Nat.le_div_iff_mul_le (by decide),
        Nat.pow_succ,
        Nat.mul_assoc]

theorem encodeUleb_of {number : BitVec 64} (hmore : more < 10)
    (h : number.toNat < 128 ^ (more + 1)) : UlebOf number (encodeUleb more number.toNat) where
  shape := encodeUleb_isLeb more _
  fits := by rw [encodeUleb_length]; omega
  number := encodeUleb_groups h

theorem encodeSleb_of {number : BitVec 64} (hmore : more < 10)
    (hlow : -(64 * 128 ^ more : Int) ≤ number.toInt) (hhigh : number.toInt < 64 * 128 ^ more) :
    SlebOf number (encodeSleb more number.toInt) := by
  have hpow : (128 : Int) ^ (more + 1) = 128 ^ more * 128 := pow_succ 128 more
  have hpos : (0 : Int) < 128 ^ more := Int.pow_pos (by decide)
  have hweight : (2 : Int) ^ (7 * (more + 1)) = 128 ^ (more + 1) := pow_mul 2 7 (more + 1)
  -- a negative number is encoded as its sum with the weight of the whole encoding
  have hcode : number.toInt % 128 ^ (more + 1) =
      if number.toInt < 0 then number.toInt + 128 ^ (more + 1) else number.toInt := by
    split
    · rw [← Int.add_emod_right, Int.emod_eq_of_lt (by omega) (by omega)]
    · exact Int.emod_eq_of_lt (by omega) (by omega)
  have hlt : (number.toInt % 128 ^ (more + 1)).toNat < 128 ^ (more + 1) := by
    zify
    rw [Int.toNat_of_nonneg (by rw [hcode]; split <;> omega), hcode]
    split <;> omega
  refine ⟨encodeUleb_isLeb more _, by rw [encodeSleb, encodeUleb_length]; omega, ?_⟩
  rw [encodeSleb, encodeUleb_groups hlt, encodeUleb_negative hlt, encodeUleb_length, hweight]
  have hcast : ((number.toInt % 128 ^ (more + 1)).toNat : Int) =
      number.toInt % 128 ^ (more + 1) :=
    Int.toNat_of_nonneg (by rw [hcode]; split <;> omega)
  have hsign : 64 * 128 ^ more ≤ (number.toInt % 128 ^ (more + 1)).toNat ↔ number.toInt < 0 := by
    zify
    rw [hcast, hcode]
    split <;> omega
  simp only [decide_eq_true_eq, hsign]
  rw [hcast, hcode]
  split <;> omega

end Encoders

end ByteCursor

namespace Gsdb

open ByteMemory ByteCursor

/-- Decoding returns the number and leaves the cursor behind its encoding. -/
theorem leb128_inverts (value : BitVec 64) (before bytes after : List Byte) :
    (UlebOf value bytes →
      (Cursor.mk (before ++ (bytes ++ after)) before.length).uleb128 =
        some (value, ⟨before ++ (bytes ++ after), before.length + bytes.length⟩)) ∧
    (SlebOf value bytes →
      (Cursor.mk (before ++ (bytes ++ after)) before.length).sleb128 =
        some (value, ⟨before ++ (bytes ++ after), before.length + bytes.length⟩)) := by
  have hcur : (Cursor.mk (before ++ (bytes ++ after)) before.length).rest = bytes ++ after :=
    List.drop_left
  exact ⟨fun huleb => huleb.encodes.read hcur, fun hsleb => hsleb.encodes.read hcur⟩

/-- 300 with padding up to ten bytes, and the least signed number. -/
theorem leb128_inverts_padded :
    (Cursor.mk ([7] ++ (encodeUleb 9 300 ++ [7])) 1).uleb128 =
        some (300, ⟨[7] ++ (encodeUleb 9 300 ++ [7]), 11⟩) ∧
    (Cursor.mk ([7] ++ (encodeSleb 9 (-2 ^ 63) ++ [7])) 1).sleb128 =
        some (0x8000000000000000, ⟨[7] ++ (encodeSleb 9 (-2 ^ 63) ++ [7]), 11⟩) :=
  ⟨(leb128_inverts 300 [7] (encodeUleb 9 300) [7]).1 (@encodeUleb_of 9 300 (by decide) (by decide)),
    (leb128_inverts 0x8000000000000000 [7] (encodeSleb 9 (-2 ^ 63)) [7]).2
      (@encodeSleb_of 9 0x8000000000000000 (by decide) (by decide) (by decide))⟩

end Gsdb
