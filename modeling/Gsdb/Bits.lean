/-
The bits of a byte string, counted from the low end of its first byte.
-/
import Gsdb.ByteMemory
import Mathlib.Data.List.GetD

namespace Gsdb

open ByteMemory

/-- A bit of a byte string.  There are only zeros behind its end. -/
def bitAt (bytes : List Byte) (i : Nat) : Bool := (bytes.getD (i / 8) 0).getLsbD (i % 8)

section Bits

variable {bytes : List Byte} {i : Nat}

theorem bitAt_of_le (h : 8 * bytes.length ≤ i) : bitAt bytes i = false := by
  rw [bitAt, List.getD_eq_default _ _ (by omega)]
  exact BitVec.getLsbD_zero

theorem bitAt_cons (byte : Byte) :
    bitAt (byte :: bytes) i = if i < 8 then byte.getLsbD i else bitAt bytes (i - 8) := by
  by_cases hlow : i < 8
  · rw [if_pos hlow, bitAt, Nat.div_eq_of_lt hlow, Nat.mod_eq_of_lt hlow]
    rfl
  · have hquotient : i / 8 = (i - 8) / 8 + 1 := by omega
    have hremainder : i % 8 = (i - 8) % 8 := by omega
    rw [if_neg hlow, bitAt, hquotient, hremainder]
    rfl

/-- Byte strings of one length are the same if their bits are. -/
theorem bitAt_ext {other : List Byte} (hlength : bytes.length = other.length)
    (h : ∀ i < 8 * bytes.length, bitAt bytes i = bitAt other i) : bytes = other := by
  apply List.ext_getElem hlength
  intro j hj hj'
  apply BitVec.eq_of_getLsbD_eq
  intro k hk
  have hbit := h (8 * j + k) (by omega)
  have hquotient : (8 * j + k) / 8 = j := by omega
  have hremainder : (8 * j + k) % 8 = k := by omega
  rw [bitAt, bitAt, hquotient, hremainder] at hbit
  rwa [List.getD_eq_getElem _ _ hj, List.getD_eq_getElem _ _ hj'] at hbit

theorem bitAt_replicate (n : Nat) : bitAt (List.replicate n 0) i = false := by
  rw [bitAt, List.getD_eq_getElem?_getD, List.getElem?_replicate]
  split
  · exact BitVec.getLsbD_zero
  · exact BitVec.getLsbD_zero

theorem bitAt_drop (n : Nat) : bitAt (bytes.drop n) i = bitAt bytes (8 * n + i) := by
  have hquotient : (8 * n + i) / 8 = n + i / 8 := by omega
  have hremainder : (8 * n + i) % 8 = i % 8 := by omega
  rw [bitAt, bitAt, hquotient, hremainder, List.getD_eq_getElem?_getD, List.getElem?_drop,
    List.getD_eq_getElem?_getD]

theorem bitAt_take {n : Nat} (h : i < 8 * n) : bitAt (bytes.take n) i = bitAt bytes i := by
  rw [bitAt, bitAt, List.getD_eq_getElem?_getD, List.getElem?_take_of_lt (by omega),
    List.getD_eq_getElem?_getD]

theorem bitAt_set (j : Nat) (byte : Byte) (hj : j < bytes.length) :
    bitAt (bytes.set j byte) i = if i / 8 = j then byte.getLsbD (i % 8) else bitAt bytes i := by
  rw [bitAt, List.getD_eq_getElem?_getD, List.getElem?_set]
  by_cases hsame : i / 8 = j
  · rw [if_pos hsame.symm, if_pos hsame, if_pos (by omega)]
    rfl
  · rw [if_neg (Ne.symm hsame), if_neg hsame, bitAt, List.getD_eq_getElem?_getD]

theorem bitAt_append (more : List Byte) :
    bitAt (bytes ++ more) i =
      if i < 8 * bytes.length then bitAt bytes i else bitAt more (i - 8 * bytes.length) := by
  by_cases hin : i < 8 * bytes.length
  · rw [if_pos hin, bitAt, bitAt, List.getD_append _ _ _ _ (by omega)]
  · have hquotient : i / 8 - bytes.length = (i - 8 * bytes.length) / 8 := by omega
    have hremainder : i % 8 = (i - 8 * bytes.length) % 8 := by omega
    rw [if_neg hin, bitAt, bitAt, List.getD_append_right _ _ _ _ (by omega), hquotient, hremainder]

/-- The bits of the number in a byte string. -/
theorem testBit_ofLe : (ofLe bytes).testBit i = bitAt bytes i := by
  induction bytes generalizing i with
  | nil => rw [ofLe, Nat.zero_testBit, bitAt_of_le (Nat.zero_le i)]
  | cons byte bytes ih =>
      rw [ofLe, Nat.add_comm, show 256 = 2 ^ 8 from rfl,
        Nat.testBit_two_pow_mul_add _ byte.isLt, bitAt_cons, ih, BitVec.testBit_toNat]

end Bits

end Gsdb
