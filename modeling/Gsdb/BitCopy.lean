/-
What `memcpy_bits` copies.  The numbers of its bits wrap around at 2³², so that it is
right about bits further on only by chance.
-/
import Gsdb.Bits
import Gsdb.Values

namespace Gsdb

open ByteMemory

/-- The number of the bit so many bits behind another, in 32 bits. -/
def bitBehind (bit i : Nat) : Nat := (bit + i) % 2 ^ 32

/-- Bits of a source that were copied into a byte string, and nothing else was changed. -/
structure BitsCopied (dest : List Byte) (destBit : Nat) (src : List Byte) (srcBit nBits : Nat)
    (result : List Byte) : Prop where
  length : result.length = dest.length
  inside : ∀ i < nBits, bitBehind destBit i < 8 * dest.length ∧
    bitBehind srcBit i < 8 * src.length
  copied : ∀ i < nBits, bitAt result (bitBehind destBit i) = bitAt src (bitBehind srcBit i)
  kept : ∀ k, (∀ i < nBits, bitBehind destBit i ≠ k) → bitAt result k = bitAt dest k

/-- A copy copies its bits, wherever they are, and changes no others. -/
def CopiesExactly (dest : List Byte) (destBit : Nat) (src : List Byte) (srcBit nBits : Nat) :
    Prop :=
  ∃ result, memcpyBits dest destBit src srcBit nBits = .ok result ∧
    result.length = dest.length ∧
    (∀ i < nBits, bitAt result (destBit + i) = bitAt src (srcBit + i)) ∧
    ∀ k, (∀ i < nBits, destBit + i ≠ k) → bitAt result k = bitAt dest k

/-- No bit shows that the numbers wrap around: the source has the same bit at the wrapped number,
the destination has the bit already that is missed, and the one that is struck instead keeps its
value. -/
structure WrapsUnseen (dest : List Byte) (destBit : Nat) (src : List Byte) (srcBit nBits : Nat) :
    Prop where
  source : ∀ i < nBits, destBit + i < 2 ^ 32 →
    bitAt src (bitBehind srcBit i) = bitAt src (srcBit + i)
  missed : ∀ i < nBits, 2 ^ 32 ≤ destBit + i → bitAt dest (destBit + i) = bitAt src (srcBit + i)
  struck : ∀ i < nBits, 2 ^ 32 ≤ destBit + i →
    bitAt dest (destBit + i - 2 ^ 32) = bitAt src (bitBehind srcBit i)

section Copying

variable {dest src result : List Byte} {destBit srcBit : Nat}

theorem bitBehind_zero {bit : Nat} (h : bit < 2 ^ 32) : bitBehind bit 0 = bit :=
  Nat.mod_eq_of_lt h

theorem bitBehind_succ (bit i : Nat) :
    bitBehind ((bit + 1) % 2 ^ 32) i = bitBehind bit (i + 1) := by
  rw [bitBehind, bitBehind, Nat.mod_add_mod, Nat.add_assoc, Nat.add_comm 1 i]

theorem bitBehind_of_le {bit n i : Nat} (h : bit + n ≤ 2 ^ 32) (hi : i < n) :
    bitBehind bit i = bit + i :=
  Nat.mod_eq_of_lt (by omega)

theorem bitBehind_inj {bit i j : Nat} (hi : i < 2 ^ 32) (hj : j < 2 ^ 32)
    (h : bitBehind bit i = bitBehind bit j) : i = j := by
  unfold bitBehind at h
  omega

/-- A byte in which one bit is that of another byte. -/
def withBit (old : Byte) (bit : Nat) (value : Bool) : Byte :=
  let mask : Byte := 1 <<< bit
  if value then (old &&& ~~~mask) ||| mask else old &&& ~~~mask

theorem mask_getLsbD :
    ∀ bit < 8, ∀ k < 8, (BitVec.ofNat 8 (1 <<< bit)).getLsbD k = decide (k = bit) := by
  decide

theorem withBit_getLsbD (old : Byte) (value : Bool) {bit k : Nat} (hbit : bit < 8) (hk : k < 8) :
    (withBit old bit value).getLsbD k = if k = bit then value else old.getLsbD k := by
  have hmask := mask_getLsbD bit hbit k hk
  change (if value then (old &&& ~~~BitVec.ofNat 8 (1 <<< bit)) ||| BitVec.ofNat 8 (1 <<< bit)
    else old &&& ~~~BitVec.ofNat 8 (1 <<< bit)).getLsbD k = _
  generalize BitVec.ofNat 8 (1 <<< bit) = mask at hmask ⊢
  have hcleared : (old &&& ~~~mask).getLsbD k = (old.getLsbD k && !decide (k = bit)) := by
    rw [BitVec.getLsbD_and, BitVec.getLsbD_not, hmask, decide_eq_true hk, Bool.true_and]
  cases value with
  | false =>
      change (old &&& ~~~mask).getLsbD k = _
      rw [hcleared]
      by_cases heq : k = bit <;> simp [heq]
  | true =>
      change ((old &&& ~~~mask) ||| mask).getLsbD k = _
      rw [BitVec.getLsbD_or, hcleared, hmask]
      by_cases heq : k = bit <;> simp [heq]

theorem bitAt_set_withBit {bit : Nat} (hbit : bit / 8 < dest.length) (value : Bool) (k : Nat) :
    bitAt (dest.set (bit / 8) (withBit (dest.getD (bit / 8) 0) (bit % 8) value)) k =
      if k = bit then value else bitAt dest k := by
  rw [bitAt_set _ _ hbit]
  by_cases hsame : k / 8 = bit / 8
  · rw [if_pos hsame, withBit_getLsbD _ _ (Nat.mod_lt bit (by decide))
      (Nat.mod_lt k (by decide)), bitAt, hsame]
    by_cases hplace : k % 8 = bit % 8
    · rw [if_pos hplace, if_pos (by omega)]
    · rw [if_neg hplace, if_neg (by rintro rfl; exact hplace rfl)]
  · rw [if_neg hsame, if_neg (by rintro rfl; exact hsame rfl)]

/-- A byte string with a single bit. -/
def singleBit (size bit : Nat) : List Byte :=
  (List.replicate size 0).set (bit / 8)
    (withBit ((List.replicate size 0).getD (bit / 8) 0) (bit % 8) true)

theorem bitAt_singleBit {size bit : Nat} (h : bit < 8 * size) (k : Nat) :
    bitAt (singleBit size bit) k = decide (k = bit) := by
  rw [singleBit, bitAt_set_withBit (by rw [List.length_replicate]; omega), bitAt_replicate]
  split <;> simp [*]

theorem singleBit_length (size bit : Nat) : (singleBit size bit).length = size := by
  rw [singleBit, List.length_set, List.length_replicate]

/-- One bit is copied at a time. -/
theorem memcpyBits_succ (nBits : Nat) (hdest : destBit / 8 < dest.length)
    (hsrc : srcBit / 8 < src.length) :
    memcpyBits dest destBit src srcBit (nBits + 1) =
      memcpyBits (dest.set (destBit / 8)
          (withBit (dest.getD (destBit / 8) 0) (destBit % 8) (bitAt src srcBit)))
        ((destBit + 1) % 2 ^ 32) src ((srcBit + 1) % 2 ^ 32) nBits := by
  rw [memcpyBits, List.getElem?_eq_getElem hdest, List.getElem?_eq_getElem hsrc, inBounds_some,
    inBounds_some, ok_bind, ok_bind, List.getD_eq_getElem _ _ hdest, bitAt,
    List.getD_eq_getElem _ _ hsrc]
  rfl

theorem memcpyBits_succ_eq_ok {nBits : Nat}
    (h : memcpyBits dest destBit src srcBit (nBits + 1) = .ok result) :
    destBit / 8 < dest.length ∧ srcBit / 8 < src.length := by
  rw [memcpyBits] at h
  obtain ⟨old, hold, h₁⟩ := bind_eq_ok.mp h
  obtain ⟨byte, hbyte, -⟩ := bind_eq_ok.mp h₁
  exact ⟨(List.getElem?_eq_some_iff.mp (inBounds_eq_ok.mp hold)).1,
    (List.getElem?_eq_some_iff.mp (inBounds_eq_ok.mp hbyte)).1⟩

/-- A copy that stays inside both byte strings is one. -/
theorem memcpyBits_of_inside {nBits : Nat} (hd : destBit < 2 ^ 32) (hs : srcBit < 2 ^ 32)
    (h : ∀ i < nBits, bitBehind destBit i < 8 * dest.length ∧ bitBehind srcBit i < 8 * src.length) :
    ∃ result, memcpyBits dest destBit src srcBit nBits = .ok result := by
  induction nBits generalizing dest destBit srcBit with
  | zero => exact ⟨dest, rfl⟩
  | succ nBits ih =>
      have hfirst := h 0 (Nat.succ_pos nBits)
      rw [bitBehind_zero hd, bitBehind_zero hs] at hfirst
      rw [memcpyBits_succ nBits (by omega) (by omega)]
      refine ih (Nat.mod_lt _ (by decide)) (Nat.mod_lt _ (by decide)) fun i hi => ?_
      rw [bitBehind_succ, bitBehind_succ, List.length_set]
      exact h (i + 1) (by omega)

/-- A bit is copied in front of the others. -/
theorem BitsCopied.succ {nBits : Nat} (hn : nBits + 1 ≤ 2 ^ 32) (hd : destBit < 2 ^ 32)
    (hs : srcBit < 2 ^ 32) (hdest : destBit / 8 < dest.length) (hsrc : srcBit / 8 < src.length)
    (h : BitsCopied (dest.set (destBit / 8)
        (withBit (dest.getD (destBit / 8) 0) (destBit % 8) (bitAt src srcBit)))
      ((destBit + 1) % 2 ^ 32) src ((srcBit + 1) % 2 ^ 32) nBits result) :
    BitsCopied dest destBit src srcBit (nBits + 1) result := by
  have hlater : ∀ i, bitBehind ((destBit + 1) % 2 ^ 32) i = bitBehind destBit (i + 1) :=
    bitBehind_succ destBit
  constructor
  · rw [h.length, List.length_set]
  · intro i hi
    cases i with
    | zero =>
        rw [bitBehind_zero hd, bitBehind_zero hs]
        omega
    | succ i =>
        have hinside := h.inside i (by omega)
        rwa [bitBehind_succ, bitBehind_succ, List.length_set] at hinside
  · intro i hi
    cases i with
    | zero =>
        rw [bitBehind_zero hd, bitBehind_zero hs, h.kept destBit ?_,
          bitAt_set_withBit hdest, if_pos rfl]
        intro j hj hsame
        rw [hlater] at hsame
        have hzero := hsame.trans (bitBehind_zero hd).symm
        exact Nat.succ_ne_zero j (bitBehind_inj (by omega) (by decide) hzero)
    | succ i =>
        have hcopied := h.copied i (by omega)
        rwa [bitBehind_succ, bitBehind_succ] at hcopied
  · intro k hk
    have hfirst : k ≠ destBit := fun heq => hk 0 (Nat.succ_pos nBits)
      ((bitBehind_zero hd).trans heq.symm)
    rw [h.kept k fun i hi => ?_, bitAt_set_withBit hdest, if_neg hfirst]
    rw [hlater]
    exact hk (i + 1) (by omega)

/-- What a copy that stays inside has copied. -/
theorem memcpyBits_copied {nBits : Nat} (hn : nBits ≤ 2 ^ 32) (hd : destBit < 2 ^ 32)
    (hs : srcBit < 2 ^ 32) (h : memcpyBits dest destBit src srcBit nBits = .ok result) :
    BitsCopied dest destBit src srcBit nBits result := by
  induction nBits generalizing dest destBit srcBit with
  | zero =>
      cases h
      exact ⟨rfl, fun i hi => absurd hi (Nat.not_lt_zero i),
        fun i hi => absurd hi (Nat.not_lt_zero i), fun k _ => rfl⟩
  | succ nBits ih =>
      obtain ⟨hdest, hsrc⟩ := memcpyBits_succ_eq_ok h
      rw [memcpyBits_succ nBits hdest hsrc] at h
      have hrest := ih (by omega) (Nat.mod_lt _ (by decide)) (Nat.mod_lt _ (by decide)) h
      exact hrest.succ hn hd hs hdest hsrc

/-- Bits that are copied into a block of zeros are its bits. -/
theorem memcpyBits_intoZeros {size nBits : Nat} (hsize : nBits ≤ 8 * size)
    (hsrc : srcBit + nBits ≤ 8 * src.length) (hstart : srcBit < 2 ^ 32) (hcount : nBits < 2 ^ 32)
    (hstop : srcBit + nBits ≤ 2 ^ 32) :
    ∃ result, memcpyBits (List.replicate size 0) 0 src srcBit nBits = .ok result ∧
      result.length = size ∧
      ∀ i, bitAt result i = if i < nBits then bitAt src (srcBit + i) else false := by
  have hdestBehind : ∀ i < nBits, bitBehind 0 i = i := fun i hi =>
    (bitBehind_of_le (by omega) hi).trans (Nat.zero_add i)
  have hsrcBehind : ∀ i < nBits, bitBehind srcBit i = srcBit + i := fun i hi =>
    bitBehind_of_le hstop hi
  obtain ⟨result, hresult⟩ : ∃ result,
      memcpyBits (List.replicate size 0) 0 src srcBit nBits = .ok result := by
    refine memcpyBits_of_inside (by decide) hstart fun i hi => ?_
    rw [hdestBehind i hi, hsrcBehind i hi, List.length_replicate]
    omega
  have hcopied := memcpyBits_copied hcount.le (by decide) hstart hresult
  refine ⟨result, hresult, hcopied.length.trans List.length_replicate, fun i => ?_⟩
  by_cases hi : i < nBits
  · have hbit := hcopied.copied i hi
    rwa [hdestBehind i hi, hsrcBehind i hi, ← if_pos (t := bitAt src (srcBit + i)) hi] at hbit
  · rw [if_neg hi, hcopied.kept i fun j hj hsame => ?_, bitAt_replicate]
    rw [hdestBehind j hj] at hsame
    omega

theorem bitBehind_of_lt {bit i : Nat} (h : bit + i < 2 ^ 32) : bitBehind bit i = bit + i :=
  Nat.mod_eq_of_lt h

theorem bitBehind_of_ge {bit i : Nat} (hbit : bit < 2 ^ 32) (hi : i < 2 ^ 32)
    (h : 2 ^ 32 ≤ bit + i) : bitBehind bit i = bit + i - 2 ^ 32 := by
  rw [bitBehind]
  omega

/-- A bit that is beyond 2³² is not reached. -/
theorem BitsCopied.far {nBits : Nat} (h : BitsCopied dest destBit src srcBit nBits result) {k : Nat}
    (hfar : 2 ^ 32 ≤ k) : bitAt result k = bitAt dest k := by
  refine h.kept k fun i _ hsame => ?_
  have hlt : bitBehind destBit i < 2 ^ 32 := Nat.mod_lt _ (by decide)
  omega

theorem CopiesExactly.wrapsUnseen {nBits : Nat} (hd : destBit < 2 ^ 32) (hs : srcBit < 2 ^ 32)
    (hn : nBits ≤ 2 ^ 32) (h : CopiesExactly dest destBit src srcBit nBits) :
    WrapsUnseen dest destBit src srcBit nBits := by
  obtain ⟨result, hresult, -, hexact, hothers⟩ := h
  have hcopied := memcpyBits_copied hn hd hs hresult
  constructor
  · intro i hi hnear
    rw [← hexact i hi, ← hcopied.copied i hi, bitBehind_of_lt hnear]
  · intro i hi hfar
    rw [← hexact i hi, hcopied.far hfar]
  · intro i hi hfar
    have hbehind := bitBehind_of_ge hd (by omega) hfar
    rw [← hcopied.copied i hi, hbehind]
    exact (hothers _ fun j _ => by omega).symm

theorem WrapsUnseen.copiesExactly {nBits : Nat} (hd : destBit < 2 ^ 32) (hs : srcBit < 2 ^ 32)
    (hn : nBits ≤ 2 ^ 32) (hdest : destBit + nBits ≤ 8 * dest.length)
    (hsrc : srcBit + nBits ≤ 8 * src.length) (h : WrapsUnseen dest destBit src srcBit nBits) :
    CopiesExactly dest destBit src srcBit nBits := by
  have hbehind : ∀ bit i, bitBehind bit i ≤ bit + i := fun bit i => Nat.mod_le _ _
  obtain ⟨result, hresult⟩ : ∃ result, memcpyBits dest destBit src srcBit nBits = .ok result := by
    refine memcpyBits_of_inside hd hs fun i hi => ?_
    have hd' := hbehind destBit i
    have hs' := hbehind srcBit i
    omega
  have hcopied := memcpyBits_copied hn hd hs hresult
  refine ⟨result, hresult, hcopied.length, fun i hi => ?_, fun k hk => ?_⟩
  · by_cases hnear : destBit + i < 2 ^ 32
    · rw [← bitBehind_of_lt hnear, hcopied.copied i hi, h.source i hi hnear]
    · rw [hcopied.far (by omega), h.missed i hi (by omega)]
  · by_cases hstruck : ∃ i < nBits, bitBehind destBit i = k
    · obtain ⟨i, hi, rfl⟩ := hstruck
      have hfar : 2 ^ 32 ≤ destBit + i := by
        by_contra hnear
        exact hk i hi (bitBehind_of_lt (by omega)).symm
      rw [hcopied.copied i hi, bitBehind_of_ge hd (by omega) hfar, h.struck i hi hfar]
    · exact hcopied.kept k fun i hi hsame => hstruck ⟨i, hi, hsame⟩

end Copying

/-- A copy inside both byte strings copies exactly its bits if and only if no wrapping shows;
up to 2³² there is none. -/
theorem memcpyBits_exact_iff (dest src : List Byte) (destBit srcBit nBits : Nat)
    (hd : destBit < 2 ^ 32) (hs : srcBit < 2 ^ 32) (hn : nBits < 2 ^ 32)
    (hdest : destBit + nBits ≤ 8 * dest.length) (hsrc : srcBit + nBits ≤ 8 * src.length) :
    (CopiesExactly dest destBit src srcBit nBits ↔ WrapsUnseen dest destBit src srcBit nBits) ∧
      (destBit + nBits ≤ 2 ^ 32 → srcBit + nBits ≤ 2 ^ 32 →
        WrapsUnseen dest destBit src srcBit nBits) := by
  refine ⟨⟨fun h => h.wrapsUnseen hd hs hn.le, fun h => h.copiesExactly hd hs hn.le hdest hsrc⟩,
    fun hdestStop hsrcStop => ⟨?_, ?_, ?_⟩⟩
  · intro i hi _
    rw [bitBehind_of_le hsrcStop hi]
  · intro i hi hfar
    omega
  · intro i hi hfar
    omega

/-- Three bits over the boundary of a byte. -/
theorem memcpyBits_exact_iff_three : CopiesExactly [0xff, 0xff] 6 [0b10100000] 4 3 :=
  (memcpyBits_exact_iff [0xff, 0xff] [0b10100000] 6 4 3 (by decide) (by decide) (by decide)
    (by decide) (by decide)).1.mpr
    ((memcpyBits_exact_iff [0xff, 0xff] [0b10100000] 6 4 3 (by decide) (by decide) (by decide)
      (by decide) (by decide)).2 (by decide) (by decide))

/-- Of two bits from bit 2³² - 1 on, the second one goes to bit 0. -/
theorem farBit_not_copied :
    ¬ ∀ (dest src : List Byte) (destBit srcBit nBits : Nat), destBit < 2 ^ 32 → srcBit < 2 ^ 32 →
      nBits < 2 ^ 32 → destBit + nBits ≤ 8 * dest.length → srcBit + nBits ≤ 8 * src.length →
      CopiesExactly dest destBit src srcBit nBits := by
  intro hall
  have hexact := hall (List.replicate (2 ^ 29 + 1) 0) [0b11] (2 ^ 32 - 1) 0 2 (by decide)
    (by decide) (by decide) (by rw [List.length_replicate]; decide) (by decide)
  have hunseen := hexact.wrapsUnseen (by decide) (by decide) (by decide)
  have hmissed := hunseen.missed 1 (by decide) (by decide)
  rw [bitAt_replicate] at hmissed
  revert hmissed
  decide

end Gsdb
