/-
Byte-addressed memory with wrapping addresses, and little-endian byte strings.
Nothing here knows about a particular program: addresses are machine words of
any width and a memory is a total map from addresses to bytes.
-/
import Mathlib.Data.BitVec
import Mathlib.Tactic.Ring
import Mathlib.Tactic.SplitIfs
import Mathlib.Logic.Function.Basic

namespace ByteMemory

abbrev Byte := BitVec 8

instance byte_lawfulBEq : LawfulBEq Byte := inferInstance

/-- The number denoted by a byte string, least significant byte first. -/
def ofLe : List Byte → Nat
  | [] => 0
  | byte :: rest => byte.toNat + 256 * ofLe rest

/-- The `n` least significant bytes of a number, least significant first. -/
def toLe : Nat → Nat → List Byte
  | 0, _ => []
  | n + 1, value => BitVec.ofNat 8 value :: toLe n (value / 256)

@[simp]
theorem toLe_length (n value : Nat) : (toLe n value).length = n := by
  induction n generalizing value with
  | zero => rfl
  | succ n ih => simp [toLe, ih]

theorem ofLe_lt (bytes : List Byte) : ofLe bytes < 256 ^ bytes.length := by
  induction bytes with
  | nil => simp [ofLe]
  | cons byte rest ih =>
      have hbyte := byte.isLt
      simp only [ofLe, List.length_cons, Nat.pow_succ]
      omega

/-- Splitting the value of a byte string gives the byte string back. -/
theorem toLe_ofLe (bytes : List Byte) : toLe bytes.length (ofLe bytes) = bytes := by
  induction bytes with
  | nil => rfl
  | cons byte rest ih =>
      have hbyte := byte.isLt
      have hdiv : (byte.toNat + 256 * ofLe rest) / 256 = ofLe rest := by omega
      have hhead : BitVec.ofNat 8 (byte.toNat + 256 * ofLe rest) = byte := by
        apply BitVec.eq_of_toNat_eq
        simp only [BitVec.toNat_ofNat]
        omega
      simp only [List.length_cons, ofLe, toLe, hdiv, hhead, ih]

theorem ofLe_toLe (n value : Nat) : ofLe (toLe n value) = value % 256 ^ n := by
  induction n generalizing value with
  | zero => simp [toLe, ofLe, Nat.mod_one]
  | succ n ih =>
      have hsplit : value % (256 * 256 ^ n) =
          value % 256 + 256 * (value / 256 % 256 ^ n) := Nat.mod_mul
      simp only [toLe, ofLe, ih, BitVec.toNat_ofNat, Nat.pow_succ (m := n),
        Nat.mul_comm (256 ^ n) 256, hsplit]

/-- A total memory over `w`-bit addresses; address arithmetic wraps. -/
abbrev Memory (w : Nat) := BitVec w → Byte

variable {w : Nat}

def Memory.read (memory : Memory w) (address : BitVec w) : Nat → List Byte
  | 0 => []
  | n + 1 => memory address :: Memory.read memory (address + 1) n

def Memory.write (memory : Memory w) (address : BitVec w) :
    List Byte → Memory w
  | [] => memory
  | byte :: rest =>
      Function.update (Memory.write memory (address + 1) rest) address byte

theorem add_ofNat_succ (address : BitVec w) (i : Nat) :
    address + BitVec.ofNat w (i + 1) = address + 1 + BitVec.ofNat w i := by
  rw [BitVec.ofNat_add, BitVec.add_comm (BitVec.ofNat w i), BitVec.add_assoc]
  rfl

@[simp]
theorem Memory.read_length (memory : Memory w) (address : BitVec w) (n : Nat) :
    (memory.read address n).length = n := by
  induction n generalizing address with
  | zero => rfl
  | succ n ih => simp [Memory.read, ih]

theorem Memory.read_getElem (memory : Memory w) (address : BitVec w) (n i : Nat)
    (hi : i < (memory.read address n).length) :
    (memory.read address n)[i] = memory (address + BitVec.ofNat w i) := by
  induction n generalizing address i with
  | zero => simp [Memory.read] at hi
  | succ n ih =>
      cases i with
      | zero => simp [Memory.read]
      | succ i =>
          simp only [Memory.read, List.getElem_cons_succ]
          rw [ih, add_ofNat_succ]

theorem Memory.read_append (memory : Memory w) (address : BitVec w) (n k : Nat) :
    memory.read address (n + k) =
      memory.read address n ++ memory.read (address + BitVec.ofNat w n) k := by
  induction n generalizing address with
  | zero => simp [Memory.read]
  | succ n ih =>
      rw [Nat.succ_add]
      simp only [Memory.read, List.cons_append, ih, add_ofNat_succ]

/-- Two memories that agree on a range read the same bytes there. -/
theorem Memory.read_congr {first second : Memory w} {address : BitVec w} {n : Nat}
    (hagree : ∀ i < n, first (address + BitVec.ofNat w i) =
      second (address + BitVec.ofNat w i)) :
    first.read address n = second.read address n := by
  apply List.ext_getElem
  · simp
  · intro i hleft hright
    rw [Memory.read_getElem, Memory.read_getElem]
    exact hagree i (by simpa using hleft)

/-- Writing touches no address outside the written range. -/
theorem Memory.write_outside (memory : Memory w) (address query : BitVec w)
    (bytes : List Byte)
    (houtside : ∀ i < bytes.length, query ≠ address + BitVec.ofNat w i) :
    memory.write address bytes query = memory query := by
  induction bytes generalizing address with
  | nil => rfl
  | cons byte rest ih =>
      have hhead : query ≠ address := by
        simpa using houtside 0 (by simp)
      simp only [Memory.write, Function.update_of_ne hhead]
      apply ih
      intro i hi
      have htail := houtside (i + 1) (by simpa using hi)
      rwa [add_ofNat_succ] at htail

private theorem ofNat_succ_add_ne {address : BitVec w} {i : Nat} (hi : i + 1 < 2 ^ w) :
    address + 1 + BitVec.ofNat w i ≠ address := by
  intro heq
  have hzero : (1 : BitVec w) + BitVec.ofNat w i = 0 := by
    rw [BitVec.add_assoc] at heq
    simpa using heq
  have htoNat := congrArg BitVec.toNat hzero
  have hone : (1 : BitVec w) = BitVec.ofNat w 1 := rfl
  rw [hone, ← BitVec.ofNat_add, BitVec.toNat_ofNat] at htoNat
  rw [Nat.mod_eq_of_lt (by omega)] at htoNat
  simp at htoNat

/-- A write that does not wrap onto itself puts every byte in its place. -/
theorem Memory.write_inside (memory : Memory w) (address : BitVec w)
    (bytes : List Byte) (hfits : bytes.length ≤ 2 ^ w) (i : Nat)
    (hi : i < bytes.length) :
    memory.write address bytes (address + BitVec.ofNat w i) = bytes[i] := by
  induction bytes generalizing address i with
  | nil => simp at hi
  | cons byte rest ih =>
      cases i with
      | zero => simp [Memory.write]
      | succ i =>
          have hi' : i < rest.length := by simpa using hi
          simp only [List.length_cons] at hfits
          rw [add_ofNat_succ, Memory.write,
            Function.update_of_ne (ofNat_succ_add_ne (by omega))]
          exact ih (address + 1) (by omega) i hi'

theorem Memory.read_write (memory : Memory w) (address : BitVec w)
    (bytes : List Byte) (hfits : bytes.length ≤ 2 ^ w) :
    (memory.write address bytes).read address bytes.length = bytes := by
  apply List.ext_getElem
  · simp
  · intro i hleft hright
    rw [Memory.read_getElem]
    exact memory.write_inside address bytes hfits i hright

@[simp]
theorem Memory.write_read (memory : Memory w) (address : BitVec w) (n : Nat) :
    memory.write address (memory.read address n) = memory := by
  induction n generalizing address with
  | zero => rfl
  | succ n ih => simp [Memory.read, Memory.write, ih]

/-- Rewriting a range with its own bytes except the first changes one byte. -/
theorem Memory.write_head (memory : Memory w) (address : BitVec w) (n : Nat)
    (byte : Byte) :
    memory.write address (byte :: memory.read (address + 1) n) =
      Function.update memory address byte := by
  simp [Memory.write]

/-- Offsets below the size of the address space lead to different addresses. -/
theorem ofNat_add_ne {i j : Nat} (address : BitVec w) (hi : i < 2 ^ w) (hj : j < 2 ^ w)
    (hne : i ≠ j) : address + BitVec.ofNat w i ≠ address + BitVec.ofNat w j := by
  intro heq
  have hsame : BitVec.ofNat w i = BitVec.ofNat w j := by simpa using heq
  have hnat := congrArg BitVec.toNat hsame
  rw [BitVec.toNat_ofNat, BitVec.toNat_ofNat, Nat.mod_eq_of_lt hi, Nat.mod_eq_of_lt hj] at hnat
  exact hne hnat

/-- A write can be made in two parts. -/
theorem Memory.write_append (memory : Memory w) (address : BitVec w) (first second : List Byte)
    (hfits : first.length + second.length ≤ 2 ^ w) :
    memory.write address (first ++ second) =
      (memory.write address first).write (address + BitVec.ofNat w first.length) second := by
  funext query
  by_cases hfirst : ∃ i < first.length, query = address + BitVec.ofNat w i
  · obtain ⟨i, hi, rfl⟩ := hfirst
    rw [Memory.write_inside _ _ _ (by simpa using hfits) i (by simp; omega),
      Memory.write_outside, Memory.write_inside _ _ _ (by omega) i hi,
      List.getElem_append_left hi]
    intro j hj
    rw [BitVec.add_assoc, ← BitVec.ofNat_add]
    exact ofNat_add_ne address (by omega) (by omega) (by omega)
  · by_cases hsecond : ∃ j < second.length,
        query = address + BitVec.ofNat w (first.length + j)
    · obtain ⟨j, hj, rfl⟩ := hsecond
      rw [Memory.write_inside _ _ _ (by simpa using hfits) _ (by simp; omega)]
      rw [BitVec.ofNat_add, ← BitVec.add_assoc, Memory.write_inside _ _ _ (by omega) j hj,
        List.getElem_append_right (by omega)]
      simp
    · rw [Memory.write_outside, Memory.write_outside, Memory.write_outside]
      · exact fun i hi heq => hfirst ⟨i, hi, heq⟩
      · intro j hj heq
        rw [BitVec.add_assoc, ← BitVec.ofNat_add] at heq
        exact hsecond ⟨j, hj, heq⟩
      · intro i hi heq
        by_cases hlt : i < first.length
        · exact hfirst ⟨i, hlt, heq⟩
        · refine hsecond ⟨i - first.length, ?_, ?_⟩
          · rw [List.length_append] at hi
            omega
          · rwa [Nat.add_sub_cancel' (by omega)]

/-- Bytes that are already there may be written along. -/
theorem Memory.write_append_read (memory : Memory w) (address : BitVec w) (bytes : List Byte)
    (n : Nat) (hfits : bytes.length + n ≤ 2 ^ w) :
    memory.write address
        (bytes ++ memory.read (address + BitVec.ofNat w bytes.length) n) =
      memory.write address bytes := by
  rw [Memory.write_append _ _ _ _ (by simpa using hfits)]
  have hsame : memory.read (address + BitVec.ofNat w bytes.length) n =
      (memory.write address bytes).read (address + BitVec.ofNat w bytes.length) n := by
    apply Memory.read_congr
    intro j hj
    rw [Memory.write_outside]
    intro i hi
    rw [BitVec.add_assoc, ← BitVec.ofNat_add]
    exact ofNat_add_ne address (by omega) (by omega) (by omega)
  rw [hsame, Memory.write_read]
/-- Clearing the low bits of an address rounds it down. -/
theorem toNat_clearLow (address : BitVec w) (k : Nat) :
    (address &&& ~~~(BitVec.ofNat w (2 ^ k - 1))).toNat = address.toNat / 2 ^ k * 2 ^ k := by
  apply Nat.eq_of_testBit_eq
  intro i
  rw [Nat.testBit_mul_two_pow, Nat.testBit_div_two_pow, BitVec.testBit_toNat, BitVec.testBit_toNat,
    BitVec.getLsbD_and, BitVec.getLsbD_not, BitVec.getLsbD_ofNat, Nat.testBit_two_pow_sub_one]
  by_cases hk : k ≤ i
  · have hlow : ¬ i < k := by omega
    rw [Nat.sub_add_cancel hk]
    by_cases hi : i < w
    · simp [hi, hk, hlow]
    · simp [hi, BitVec.getLsbD_of_ge address i (by omega)]
  · have hlow : i < k := by omega
    by_cases hi : i < w
    · simp [hi, hk, hlow]
    · simp [hi, hk]

/-- A block of bytes addressed by plain offsets, without wrapping. -/
abbrev Area := Nat → Byte

def Area.read (area : Area) (offset n : Nat) : List Byte :=
  (List.range n).map fun i => area (offset + i)

def Area.write (area : Area) (offset : Nat) (bytes : List Byte) : Area := fun i =>
  if offset ≤ i then bytes[i - offset]?.getD (area i) else area i

/-- Copy the bytes of a range from one block into another. -/
def Area.copy (into source : Area) (offset n : Nat) : Area := fun i =>
  if offset ≤ i ∧ i < offset + n then source i else into i

theorem Area.copy_inside {into source : Area} {offset n i : Nat}
    (h : offset ≤ i ∧ i < offset + n) : into.copy source offset n i = source i :=
  if_pos h

theorem Area.copy_outside {into source : Area} {offset n i : Nat}
    (h : ¬ (offset ≤ i ∧ i < offset + n)) : into.copy source offset n i = into i :=
  if_neg h

@[simp]
theorem Area.read_length (area : Area) (offset n : Nat) :
    (area.read offset n).length = n := by
  simp [Area.read]

theorem Area.write_outside {area : Area} {offset i : Nat} {bytes : List Byte}
    (h : i < offset ∨ offset + bytes.length ≤ i) : area.write offset bytes i = area i := by
  unfold Area.write
  split
  · rw [List.getElem?_eq_none (by omega)]
    rfl
  · rfl

theorem Area.write_inside {area : Area} {offset i : Nat} {bytes : List Byte}
    (h : i < bytes.length) : area.write offset bytes (offset + i) = bytes[i] := by
  simp [Area.write, h]

theorem Area.read_write (area : Area) (offset : Nat) (bytes : List Byte) :
    (area.write offset bytes).read offset bytes.length = bytes := by
  apply List.ext_getElem
  · simp
  · intro i hleft hright
    simp [Area.read, Area.write_inside hright]

theorem Area.write_congr {first second : Area} {i : Nat} (h : first i = second i) (offset : Nat)
    (bytes : List Byte) : first.write offset bytes i = second.write offset bytes i := by
  simp only [Area.write, h]

/-- Writing what was read elsewhere is copying. -/
theorem Area.write_read (area source : Area) (offset n : Nat) :
    area.write offset (source.read offset n) = area.copy source offset n := by
  funext i
  by_cases h : offset ≤ i ∧ i < offset + n
  · obtain ⟨j, rfl⟩ := Nat.exists_eq_add_of_le h.1
    have hj : j < (source.read offset n).length := by rw [Area.read_length]; omega
    rw [Area.write_inside hj, Area.copy_inside h]
    simp [Area.read]
  · rw [Area.copy_outside h, Area.write_outside (by rw [Area.read_length]; omega)]

theorem Area.read_congr {first second : Area} {offset n : Nat}
    (h : ∀ i, offset ≤ i → i < offset + n → first i = second i) :
    first.read offset n = second.read offset n := by
  simp only [Area.read, List.map_inj_left, List.mem_range]
  intro i hi
  exact h (offset + i) (by omega) (by omega)

/-- Writing into a disjoint range does not change what is read. -/
theorem Area.read_write_disjoint (area : Area) {offset other n : Nat} {bytes : List Byte}
    (h : offset + n ≤ other ∨ other + bytes.length ≤ offset) :
    (area.write other bytes).read offset n = area.read offset n := by
  apply Area.read_congr
  intro i hlow hhigh
  exact Area.write_outside (by omega)

/-- Writes into disjoint ranges commute. -/
theorem Area.write_comm (area : Area) {offset other : Nat} {bytes bytes' : List Byte}
    (h : offset + bytes.length ≤ other ∨ other + bytes'.length ≤ offset) :
    (area.write offset bytes).write other bytes' =
        (area.write other bytes').write offset bytes := by
  funext i
  by_cases hinside : offset ≤ i ∧ i < offset + bytes.length
  · have hfirst : (area.write offset bytes).write other bytes' i = area.write offset bytes i :=
      Area.write_outside (by omega)
    obtain ⟨j, rfl⟩ := Nat.exists_eq_add_of_le hinside.1
    rw [hfirst, Area.write_inside (by omega), Area.write_inside (by omega)]
  · have hsecond : (area.write other bytes').write offset bytes i = area.write other bytes' i :=
      Area.write_outside (by omega)
    rw [hsecond]
    exact Area.write_congr (Area.write_outside (by omega)) _ _

end ByteMemory
