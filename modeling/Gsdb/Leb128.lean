/-
LEB128 numbers as arithmetic: groups of seven bits, lowest first, and what the
decoding loop makes of them.
-/
import Gsdb.ByteCursor

namespace ByteCursor

open ByteMemory

/-- The number in groups of seven bits, the lowest group first. -/
def lebGroups : List Byte → Nat
  | [] => 0
  | byte :: rest => (byte &&& 0x7f).toNat + 128 * lebGroups rest

/-- All bytes but the last continue the number. -/
def isLeb : List Byte → Bool
  | [] => false
  | [byte] => !continues byte
  | byte :: rest => continues byte && isLeb rest

/-- The last group has its highest bit set. -/
def lebNegative (bytes : List Byte) : Bool :=
  decide ((bytes.getLast?.getD 0) &&& 0x40 ≠ 0)

/-- Bytes that encode an unsigned number of one word, with or without padding. -/
structure EncodesUleb (bytes : List Byte) (value : BitVec 64) : Prop where
  shape : isLeb bytes = true
  fits : bytes.length ≤ 10
  value_eq : value = BitVec.ofNat 64 (lebGroups bytes)

/-- Bytes that encode a signed number of one word: the highest bit of the last
group counts negatively. -/
structure EncodesSleb (bytes : List Byte) (value : BitVec 64) : Prop where
  shape : isLeb bytes = true
  fits : bytes.length ≤ 10
  value_eq : value = BitVec.ofInt 64
    (lebGroups bytes - if lebNegative bytes then 2 ^ (7 * bytes.length) else 0)

theorem group_lt (byte : Byte) : (byte &&& 0x7f).toNat < 128 := by
  rw [BitVec.toNat_and]
  exact Nat.lt_of_le_of_lt Nat.and_le_right (by decide)

theorem lebGroups_lt (bytes : List Byte) : lebGroups bytes < 2 ^ (7 * bytes.length) := by
  induction bytes with
  | nil => simp [lebGroups]
  | cons byte rest ih =>
      have hbyte := group_lt byte
      have hpow : 2 ^ (7 * (byte :: rest).length) = 128 * 2 ^ (7 * rest.length) := by
        rw [List.length_cons, Nat.mul_add, Nat.pow_add]
        omega
      rw [lebGroups, hpow]
      omega

/-- A group that is shifted in above the ones read so far is added to them. -/
theorem or_group {res : BitVec 64} {shift : Nat} (hres : res.toNat < 2 ^ shift) (byte : Byte) :
    res ||| ((byte &&& 0x7f).setWidth 64 <<< shift) =
      BitVec.ofNat 64 (res.toNat + (byte &&& 0x7f).toNat * 2 ^ shift) := by
  apply BitVec.eq_of_toNat_eq
  have hgroup : (byte &&& 0x7f).toNat < 2 ^ 64 := Nat.lt_trans (group_lt byte) (by decide)
  rw [BitVec.toNat_or, BitVec.toNat_shiftLeft, BitVec.toNat_setWidth, Nat.mod_eq_of_lt hgroup,
    BitVec.toNat_ofNat, ← Nat.shiftLeft_eq, Nat.add_comm, Nat.shiftLeft_add_eq_or_of_lt hres,
    Nat.or_mod_two_pow, Nat.mod_eq_of_lt res.isLt, Nat.or_comm]

/-- The decoding loop adds up the groups of a number. -/
theorem lebLoop_groups (bytes : List Byte) : ∀ (res : BitVec 64) (shift : Nat),
    isLeb bytes = true → res.toNat < 2 ^ shift → shift + 7 * bytes.length ≤ 70 →
    lebLoop res shift bytes =
      some (BitVec.ofNat 64 (res.toNat + lebGroups bytes * 2 ^ shift),
        shift + 7 * bytes.length, bytes.getLast?.getD 0, bytes.length) := by
  induction bytes with
  | nil => intro res shift hshape; cases hshape
  | cons byte rest ih =>
      intro res shift hshape hres hfits
      have hopen : ¬ 64 ≤ shift := by
        rw [List.length_cons] at hfits
        omega
      have hgroup := group_lt byte
      cases rest with
      | nil =>
          have hlast : continues byte = false := by simpa [isLeb] using hshape
          simp only [lebLoop, hopen, hlast, or_group hres, if_false, Bool.false_eq_true]
          simp [lebGroups]
      | cons next rest =>
          have hparts : continues byte = true ∧ isLeb (next :: rest) = true := by
            simpa [isLeb] using hshape
          have hsmall : res.toNat + (byte &&& 0x7f).toNat * 2 ^ shift < 2 ^ (shift + 7) := by
            have hmul : (byte &&& 0x7f).toNat * 2 ^ shift ≤ 127 * 2 ^ shift :=
              Nat.mul_le_mul_right _ (by omega)
            rw [Nat.pow_add]
            omega
          have hword : 2 ^ (shift + 7) ≤ 2 ^ 64 := by
            simp only [List.length_cons] at hfits
            exact Nat.pow_le_pow_right (by decide) (by omega)
          have hnext : (BitVec.ofNat 64 (res.toNat + (byte &&& 0x7f).toNat * 2 ^ shift)).toNat =
              res.toNat + (byte &&& 0x7f).toNat * 2 ^ shift := by
            rw [BitVec.toNat_ofNat, Nat.mod_eq_of_lt (Nat.lt_of_lt_of_le hsmall hword)]
          have hrest := ih (BitVec.ofNat 64 (res.toNat + (byte &&& 0x7f).toNat * 2 ^ shift))
            (shift + 7) hparts.2 (by rw [hnext]; exact hsmall)
            (by rw [List.length_cons] at hfits; omega)
          have hsum : res.toNat + (byte &&& 0x7f).toNat * 2 ^ shift +
              lebGroups (next :: rest) * 2 ^ (shift + 7) =
                res.toNat + lebGroups (byte :: next :: rest) * 2 ^ shift := by
            rw [lebGroups.eq_2 byte, Nat.pow_add]
            ring
          rw [lebLoop, if_neg hopen]
          simp only [hparts.1, if_true, or_group hres, hrest, hnext, hsum, Option.map_some]
          simp only [List.length_cons, List.getLast?_cons_cons]
          congr 3
          omega

/-- An encoded number is read where it stands. -/
theorem EncodesUleb.read {bytes after : List Byte} {value : BitVec 64} {cur : Cursor}
    (h : EncodesUleb bytes value) (hcur : cur.rest = bytes ++ after) :
    cur.uleb128 = some (value, cur.advance bytes.length) := by
  have hloop := lebLoop_groups bytes 0 0 h.shape (by decide) (by have := h.fits; omega)
  rw [Cursor.uleb128, hcur, lebLoop_append after hloop, h.value_eq]
  simp

/-- Ones above the groups take away the weight of the sign bit. -/
theorem or_sign {groups shift : Nat} (hgroups : groups < 2 ^ shift) (hshift : shift < 64) :
    BitVec.ofNat 64 groups ||| (BitVec.allOnes 64 <<< shift) =
      BitVec.ofInt 64 ((groups : Int) - 2 ^ shift) := by
  have hword : 2 ^ 64 = 2 ^ (64 - shift) * 2 ^ shift := by
    rw [← Nat.pow_add]
    congr 1
    omega
  have hpos : 1 ≤ 2 ^ (64 - shift) := Nat.one_le_two_pow
  have hpower : 2 ^ shift < 2 ^ 64 := Nat.pow_lt_pow_right (by decide) hshift
  have hones : (BitVec.allOnes 64 <<< shift).toNat = (2 ^ (64 - shift) - 1) <<< shift := by
    have hsplit : (2 ^ 64 - 1) * 2 ^ shift =
        (2 ^ (64 - shift) - 1) * 2 ^ shift + 2 ^ 64 * (2 ^ shift - 1) := by
      rw [Nat.sub_mul, Nat.sub_mul, ← hword, Nat.mul_sub]
      omega
    rw [BitVec.toNat_shiftLeft, BitVec.toNat_allOnes, Nat.shiftLeft_eq, Nat.shiftLeft_eq, hsplit,
      Nat.add_mul_mod_self_left, Nat.mod_eq_of_lt]
    rw [Nat.sub_mul, ← hword]
    omega
  apply BitVec.eq_of_toNat_eq
  rw [BitVec.toNat_or, hones, BitVec.toNat_ofNat, Nat.mod_eq_of_lt (Nat.lt_trans hgroups hpower),
    Nat.or_comm, ← Nat.shiftLeft_add_eq_or_of_lt hgroups, Nat.shiftLeft_eq, Nat.sub_mul, ← hword,
    BitVec.toNat_ofInt]
  have hcast : ((2 ^ shift : Nat) : Int) = 2 ^ shift := by push_cast; rfl
  rw [← hcast]
  omega

theorem EncodesSleb.read {bytes after : List Byte} {value : BitVec 64} {cur : Cursor}
    (h : EncodesSleb bytes value) (hcur : cur.rest = bytes ++ after) :
    cur.sleb128 = some (value, cur.advance bytes.length) := by
  have hfits := h.fits
  have hloop := lebLoop_groups bytes 0 0 h.shape (by decide) (by omega)
  rw [Cursor.sleb128, hcur, lebLoop_append after hloop, h.value_eq]
  have hzero : (0 : BitVec 64).toNat + lebGroups bytes * 2 ^ 0 = lebGroups bytes := by
    simp
  simp only [Option.map_some, hzero, Nat.zero_add]
  congr 2
  cases hsign : lebNegative bytes with
  | false =>
      have hbit : ¬ (bytes.getLast?.getD 0 &&& 0x40 ≠ 0) := of_decide_eq_false hsign
      rw [if_neg (fun hand => hbit hand.2)]
      simp
  | true =>
      have hbit : bytes.getLast?.getD 0 &&& 0x40 ≠ 0 := of_decide_eq_true hsign
      by_cases hopen : 7 * bytes.length < 64
      · rw [if_pos ⟨hopen, hbit⟩, or_sign (lebGroups_lt bytes) hopen, if_pos rfl]
      · have hlength : bytes.length = 10 := by omega
        rw [if_neg (fun hand => hopen hand.1), hlength]
        apply BitVec.eq_of_toNat_eq
        rw [BitVec.toNat_ofNat, BitVec.toNat_ofInt, if_pos rfl]
        omega

end ByteCursor
