/-
Searching the table of `.eh_frame_hdr`.  The loop halves the rows that are left; it
reads rows of the table only, and ends at the last one that does not lie behind the
address, or reports that there is none.
-/
import Gsdb.UnwindTables

namespace Gsdb

open ByteMemory ByteCursor

/-- The rows of a search table, decoded: where each function starts, in order, and where
its FDE is. -/
structure DecodesRows (elf : Elf) (hdr : EhHdr) (text : Word) (size : Nat)
    (location fde : Nat → Word) : Prop where
  textStart : elf.textSectionStart = .ok text
  fits : elf.map.length < 2 ^ 64
  encoded : ehFramePointerEncodingSize hdr.encoding = .ok size
  nonempty : 1 ≤ hdr.count
  entry : ∀ i < hdr.count, hdr.entryAddress elf text size i = .ok (location i)
  pointer : ∀ i < hdr.count, hdr.pointerAt elf text size i size = .ok (fde i)
  increasing : ∀ i j, i < j → j < hdr.count → location i < location j

section Search

variable {entryAddress : Nat → Except Failure Word} {location : Nat → Word} {address : Word}
  {count : Nat}

/-- In front of the first row the search ends with an error. -/
theorem searchLoop_error (hentry : ∀ i < count, entryAddress i = .ok (location i))
    (hbefore : ∀ i < count, address < location i) (hcount : count < 2 ^ 63) :
    ∀ (rounds high : Nat), high < count → high < rounds →
      searchLoop entryAddress address rounds 0 high =
        .error (.error "Address not found in eh_hdr!") := by
  intro rounds
  induction rounds with
  | zero => intro high _ hrounds; omega
  | succ rounds ih =>
      intro high hhigh hrounds
      have hmid : (0 + high) % 2 ^ 64 / 2 = high / 2 := by omega
      have hbehind := hbefore (high / 2) (by omega)
      rw [searchLoop, if_pos (Nat.zero_le high)]
      simp only [hmid]
      rw [hentry _ (by omega), ok_bind, if_neg (BitVec.not_lt.mpr (BitVec.le_of_lt hbehind)),
        if_pos hbehind]
      by_cases hzero : high / 2 = 0
      · rw [if_pos hzero]
      · rw [if_neg hzero]
        exact ih _ (by omega) (by omega)

/-- The search reads no row but those between its bounds. -/
theorem searchLoop_congr {other : Nat → Except Failure Word}
    (hsame : ∀ i < count, other i = entryAddress i) (hcount : count < 2 ^ 63) :
    ∀ (rounds low high : Nat), low ≤ count → high < count →
      searchLoop other address rounds low high =
          searchLoop entryAddress address rounds low high := by
  intro rounds
  induction rounds with
  | zero => intro low high _ _; rfl
  | succ rounds ih =>
      intro low high hlow hhigh
      rw [searchLoop, searchLoop]
      by_cases hopen : low ≤ high
      · have hmid : (low + high) % 2 ^ 64 / 2 = (low + high) / 2 := by omega
        have hnext : ((low + high) / 2 + 1) % 2 ^ 64 = (low + high) / 2 + 1 := by omega
        rw [if_pos hopen, if_pos hopen]
        simp only [hmid, hnext]
        rw [hsame _ (by omega), ih _ _ (by omega) hhigh, ih _ _ hlow (by omega)]
      · rw [if_neg hopen, if_neg hopen]

end Search

section Lookup

variable {elf : Elf} {hdr : EhHdr} {text : Word} {size : Nat} {location fde : Nat → Word}

/-- Nothing is decoded at the end of the bytes. -/
theorem parseEhFramePointerWithBase_nil {cur : Cursor} (hend : cur.rest = []) (encoding : Byte)
    (base : Word) (out : Word × Cursor) :
    parseEhFramePointerWithBase cur encoding base ≠ .ok out := by
  unfold parseEhFramePointerWithBase
  split <;>
    simp [Cursor.u16, Cursor.u32, Cursor.u64, Cursor.fixedInt, Cursor.block, Cursor.uleb128,
      Cursor.sleb128, lebLoop, hend]

/-- A pointer that is decoded lies in the file. -/
theorem pointerAt_inside {row place : Nat} {pointer : Word}
    (h : hdr.pointerAt elf text size row place = .ok pointer) :
    hdr.searchTable + row * (2 * size) + place < elf.map.length := by
  obtain ⟨out, hparse, -⟩ := bind_eq_ok.mp h
  have hspan : (elf.span (hdr.searchTable + row * (2 * size) + place)
      (hdr.searchTable + hdr.count * (2 * size))).rest ≠ [] := by
    intro hend
    unfold parseEhFramePointer at hparse
    split at hparse
    · exact parseEhFramePointerWithBase_nil hend _ _ _ hparse
    · exact parseEhFramePointerWithBase_nil hend _ _ _ hparse
    · exact parseEhFramePointerWithBase_nil hend _ _ _ hparse
    · exact parseEhFramePointerWithBase_nil hend _ _ _ hparse
    · exact parseEhFramePointerWithBase_nil hend _ _ _ hparse
    · cases hparse
  exact span_inside rfl hspan

/-- Every row takes four bytes of the file at least. -/
theorem DecodesRows.count_lt (h : DecodesRows elf hdr text size location fde) :
    hdr.count < 2 ^ 63 := by
  have hcount := h.nonempty
  have hsize := encodingSize_ge h.encoded
  have hinside := pointerAt_inside (h.entry (hdr.count - 1) (by omega))
  have hmul : (hdr.count - 1) * 4 ≤ (hdr.count - 1) * (2 * size) :=
    Nat.mul_le_mul_left _ (by omega)
  have hfits := h.fits
  omega

theorem DecodesRows.first_le (h : DecodesRows elf hdr text size location fde) {i : Nat}
    (hi : i < hdr.count) : location 0 ≤ location i := by
  by_cases hzero : i = 0
  · rw [hzero]
    exact BitVec.le_refl _
  · exact BitVec.le_of_lt (h.increasing 0 i (by omega) hi)

/-- For every table of rows in order, in any encoding, and every address: the search
reports an error exactly if the address lies in front of the first row, and otherwise
returns the FDE of the last row that does not lie behind it.  It reads rows of the table
only. -/
theorem lookup_last_row (h : DecodesRows elf hdr text size location fde) (address : Word) :
    ((∃ e, hdr.lookup elf address = .error e) ↔ address < location 0) ∧
      (location 0 ≤ address → ∃ i < hdr.count, location i ≤ address ∧
        (∀ j < hdr.count, location j ≤ address → j ≤ i) ∧
        hdr.lookup elf address = .ok (fde i)) ∧
      (address < location 0 →
        hdr.lookup elf address = .error (.error "Address not found in eh_hdr!")) ∧
      ∀ other, (∀ i < hdr.count, other i = hdr.entryAddress elf text size i) →
        searchLoop other address (hdr.count + 1) 0 (hdr.count - 1) =
          searchLoop (hdr.entryAddress elf text size) address (hdr.count + 1) 0
            (hdr.count - 1) := by
  have hcount := h.count_lt
  have hpositive := h.nonempty
  have hlast : (hdr.count + (2 ^ 64 - 1)) % 2 ^ 64 = hdr.count - 1 := by omega
  have hlookup : hdr.lookup elf address =
      searchLoop (hdr.entryAddress elf text size) address (hdr.count + 1) 0 (hdr.count - 1) >>=
        fun row => hdr.pointerAt elf text size row size := by
    rw [EhHdr.lookup, h.textStart, ok_bind, h.encoded, ok_bind, hlast]
  have hfound : location 0 ≤ address → ∃ i < hdr.count, location i ≤ address ∧
      (∀ j < hdr.count, location j ≤ address → j ≤ i) ∧
      hdr.lookup elf address = .ok (fde i) := by
    intro hfirst
    obtain ⟨row, hsearch, hrow, hle, habove⟩ := searchLoop_ok h.entry h.increasing hfirst hcount
      (hdr.count + 1) 0 (hdr.count - 1) (by omega) (by omega) (by omega)
      (fun i hi => by omega) (fun i hi hlt => by omega)
    refine ⟨row, hrow, hle, fun j hj hjle => ?_, ?_⟩
    · by_contra hbehind
      exact absurd (habove j (by omega) hj) (BitVec.not_lt.mpr hjle)
    · rw [hlookup, hsearch, ok_bind, h.pointer row hrow]
  have hnotFound : address < location 0 →
      hdr.lookup elf address = .error (.error "Address not found in eh_hdr!") := by
    intro hbefore
    have hall : ∀ i < hdr.count, address < location i := by
      intro i hi
      have hle := h.first_le hi
      bv_omega
    rw [hlookup, searchLoop_error h.entry hall hcount _ _ (by omega) (by omega)]
    rfl
  refine ⟨⟨?_, fun hbefore => ⟨_, hnotFound hbefore⟩⟩, hfound, hnotFound, fun other hsame => ?_⟩
  · rintro ⟨e, herror⟩
    by_contra hbehind
    obtain ⟨i, -, -, -, hok⟩ := hfound (BitVec.not_lt.mp hbehind)
    cases herror.symm.trans hok
  · exact searchLoop_congr hsame hcount _ _ _ (by omega) (by omega)

end Lookup

namespace FdeSearchWitness

/-- Two functions, at 0x1000 and 0x2000, in a table of absolute words of four bytes. -/
def program : Elf :=
  ⟨[0, 0x10, 0, 0, 0x20, 0, 0, 0, 0, 0x20, 0, 0, 0x40, 0, 0, 0],
    [⟨".text", 6, 0x1000, 0x1000, 0x2000⟩], 0⟩

def hdr : EhHdr := ⟨0, 0, 2, 0x03⟩

def location (i : Nat) : Word := if i = 0 then 0x1000 else 0x2000

def fde (i : Nat) : Word := if i = 0 then 0x20 else 0x40

theorem program_decodes : DecodesRows program hdr 0x1000 4 location fde where
  textStart := rfl
  fits := by decide
  encoded := rfl
  nonempty := by decide
  entry := by decide +kernel
  pointer := by decide +kernel
  increasing := by
    intro i j hij hj
    obtain ⟨rfl, rfl⟩ : i = 0 ∧ j = 1 := by
      have hcount : j < 2 := hj
      omega
    decide

/-- An address between the two starts belongs to the first row. -/
theorem lookup_last_row_between : hdr.lookup program 0x1800 = .ok 0x20 := by
  obtain ⟨i, hi, hle, -, hfound⟩ := (lookup_last_row program_decodes 0x1800).2.1 (by decide)
  obtain rfl : i = 0 := by
    by_contra hne
    rw [location, if_neg hne] at hle
    exact absurd hle (by decide)
  exact hfound

end FdeSearchWitness

end Gsdb
