/-
A cursor over a byte string: fixed-width integers, LEB128 numbers, counted
blocks and null-terminated strings.  A read that would leave the byte string,
or an LEB128 number whose shift would reach the word width, is `none`.
-/
import Gsdb.ByteMemory

namespace ByteCursor

open ByteMemory

/-- A byte string and the offset of the next byte to read.  The offset may
stand past the end; nothing can be read there. -/
structure Cursor where
  data : List Byte
  pos : Nat
deriving DecidableEq, Repr

/-- The continuation bit of an LEB128 group. -/
def continues (byte : Byte) : Bool := decide (byte &&& 0x80 ≠ 0)

/-- One LEB128 group after another is shifted into `res`.  The result carries
the final shift, the last byte read and the number of bytes consumed. -/
def lebLoop (res : BitVec 64) (shift : Nat) :
    List Byte → Option (BitVec 64 × Nat × Byte × Nat)
  | [] => none
  | byte :: rest =>
      if 64 ≤ shift then none
      else
        let res := res ||| ((byte &&& 0x7f).setWidth 64 <<< shift)
        if continues byte then
          (lebLoop res (shift + 7) rest).map
            fun (res, shift, last, count) => (res, shift, last, count + 1)
        else some (res, shift + 7, byte, 1)

/-- Length of the LEB128 number at the front of a byte string, if it ends
within `groups` bytes. -/
def lebSizeUpTo : Nat → List Byte → Option Nat
  | 0, _ => none
  | _ + 1, [] => none
  | groups + 1, byte :: rest =>
      if continues byte then (lebSizeUpTo groups rest).map (· + 1) else some 1

/-- Length of the LEB128 number at the front of a byte string: the bytes up to
the first one without a continuation bit, ten of them at most. -/
def lebSize (bytes : List Byte) : Option Nat := lebSizeUpTo 10 bytes

theorem lebSizeUpTo_pos {groups n : Nat} {bytes : List Byte}
    (h : lebSizeUpTo groups bytes = some n) : 1 ≤ n := by
  induction groups generalizing bytes n with
  | zero => simp [lebSizeUpTo] at h
  | succ groups ih =>
      cases bytes with
      | nil => simp [lebSizeUpTo] at h
      | cons byte rest =>
          simp only [lebSizeUpTo] at h
          split at h
          · obtain ⟨m, -, rfl⟩ := Option.map_eq_some_iff.mp h
            omega
          · simp at h
            omega

theorem lebSizeUpTo_le_length {groups n : Nat} {bytes : List Byte}
    (h : lebSizeUpTo groups bytes = some n) : n ≤ bytes.length := by
  induction groups generalizing bytes n with
  | zero => simp [lebSizeUpTo] at h
  | succ groups ih =>
      cases bytes with
      | nil => simp [lebSizeUpTo] at h
      | cons byte rest =>
          simp only [lebSizeUpTo] at h
          split at h
          · obtain ⟨m, hm, rfl⟩ := Option.map_eq_some_iff.mp h
            have := ih hm
            simp only [List.length_cons]
            omega
          · simp at h
            simp only [List.length_cons]
            omega

theorem lebSizeUpTo_append {groups n : Nat} {bytes : List Byte} (more : List Byte)
    (h : lebSizeUpTo groups bytes = some n) :
    lebSizeUpTo groups (bytes ++ more) = some n := by
  induction groups generalizing bytes n with
  | zero => simp [lebSizeUpTo] at h
  | succ groups ih =>
      cases bytes with
      | nil => simp [lebSizeUpTo] at h
      | cons byte rest =>
          simp only [lebSizeUpTo, List.cons_append] at h ⊢
          split at h
          · rename_i hmore
            obtain ⟨m, hm, rfl⟩ := Option.map_eq_some_iff.mp h
            simp [hmore, ih hm]
          · rename_i hlast
            simp [hlast, ← h]

theorem lebSize_pos {n : Nat} {bytes : List Byte} (h : lebSize bytes = some n) : 1 ≤ n :=
  lebSizeUpTo_pos h

theorem lebSize_le_length {n : Nat} {bytes : List Byte} (h : lebSize bytes = some n) :
    n ≤ bytes.length :=
  lebSizeUpTo_le_length h

/-- The decoding loop and the length of the number agree, group by group. -/
theorem lebLoop_count (groups : Nat) (res : BitVec 64) (shift : Nat)
    (hshift : shift + 7 * groups = 70) (bytes : List Byte) :
    (lebLoop res shift bytes).map (fun out => out.2.2.2) =
      lebSizeUpTo groups bytes := by
  induction groups generalizing res shift bytes with
  | zero =>
      have hout : 64 ≤ shift := by omega
      cases bytes <;> simp [lebLoop, lebSizeUpTo, hout]
  | succ groups ih =>
      cases bytes with
      | nil => rfl
      | cons byte rest =>
          have hin : ¬ 64 ≤ shift := by omega
          by_cases hmore : continues byte = true
          · have hrest := ih (res ||| ((byte &&& 0x7f).setWidth 64 <<< shift))
              (shift + 7) (by omega) rest
            simp [lebLoop, lebSizeUpTo, hin, hmore, ← hrest, Function.comp_def]
          · simp [lebLoop, lebSizeUpTo, hin, hmore]

/-- Bytes behind a complete number do not change its decoding. -/
theorem lebLoop_append {res : BitVec 64} {shift : Nat} {bytes : List Byte}
    {out : BitVec 64 × Nat × Byte × Nat} (more : List Byte)
    (h : lebLoop res shift bytes = some out) :
    lebLoop res shift (bytes ++ more) = some out := by
  induction bytes generalizing res shift out with
  | nil => simp [lebLoop] at h
  | cons byte rest ih =>
      simp only [lebLoop, List.cons_append] at h ⊢
      split at h
      · simp at h
      · rename_i hin
        simp only [hin, if_false]
        split at h
        · rename_i hmore
          obtain ⟨inner, hinner, hout⟩ := Option.map_eq_some_iff.mp h
          rw [if_pos hmore, ih hinner, Option.map_some, hout]
        · rename_i hlast
          simpa [hlast] using h

/-- A number decodes in the same way where its own bytes are all there is. -/
theorem lebLoop_take {res : BitVec 64} {shift : Nat} {bytes : List Byte}
    {out : BitVec 64 × Nat × Byte × Nat} (h : lebLoop res shift bytes = some out) :
    lebLoop res shift (bytes.take out.2.2.2) = some out := by
  induction bytes generalizing res shift out with
  | nil => simp [lebLoop] at h
  | cons byte rest ih =>
      simp only [lebLoop] at h
      split at h
      · simp at h
      · rename_i hin
        split at h
        · rename_i hmore
          obtain ⟨inner, hinner, rfl⟩ := Option.map_eq_some_iff.mp h
          rw [List.take_succ_cons, lebLoop, if_neg hin]
          simp only [if_pos hmore, ih hinner, Option.map_some]
        · rename_i hlast
          cases h
          rw [List.take_succ_cons, lebLoop, if_neg hin]
          simp only [if_neg hlast]

namespace Cursor

def rest (cur : Cursor) : List Byte := cur.data.drop cur.pos

def finished (cur : Cursor) : Bool := decide (cur.data.length ≤ cur.pos)

def advance (cur : Cursor) (n : Nat) : Cursor := { cur with pos := cur.pos + n }

@[simp]
theorem advance_data (cur : Cursor) (n : Nat) : (cur.advance n).data = cur.data := rfl

@[simp]
theorem advance_pos (cur : Cursor) (n : Nat) : (cur.advance n).pos = cur.pos + n := rfl

theorem advance_advance (cur : Cursor) (n k : Nat) :
    (cur.advance n).advance k = cur.advance (n + k) := by
  simp [advance, Nat.add_assoc]

theorem rest_advance (cur : Cursor) (n : Nat) : (cur.advance n).rest = cur.rest.drop n := by
  simp [rest, advance, List.drop_drop]

/-- The next `n` bytes as they stand. -/
def block (cur : Cursor) (n : Nat) : Option (List Byte × Cursor) :=
  if n ≤ cur.rest.length then some (cur.rest.take n, cur.advance n) else none

/-- A little-endian integer of `w` bits, `w` a multiple of eight. -/
def fixedInt (w : Nat) (cur : Cursor) : Option (BitVec w × Cursor) :=
  (cur.block (w / 8)).map fun (bytes, next) => (BitVec.ofNat w (ofLe bytes), next)

def u8 (cur : Cursor) : Option (BitVec 8 × Cursor) := cur.fixedInt 8
def u16 (cur : Cursor) : Option (BitVec 16 × Cursor) := cur.fixedInt 16
def u32 (cur : Cursor) : Option (BitVec 32 × Cursor) := cur.fixedInt 32
def u64 (cur : Cursor) : Option (BitVec 64 × Cursor) := cur.fixedInt 64

def uleb128 (cur : Cursor) : Option (BitVec 64 × Cursor) :=
  (lebLoop 0 0 cur.rest).map fun (res, _, _, count) => (res, cur.advance count)

/-- The sign bit is the second highest bit of the last byte; it fills the
result only when the groups have not filled the word already. -/
def sleb128 (cur : Cursor) : Option (BitVec 64 × Cursor) :=
  (lebLoop 0 0 cur.rest).map fun (res, shift, last, count) =>
    (if shift < 64 ∧ last &&& 0x40 ≠ 0 then res ||| (BitVec.allOnes 64 <<< shift) else res,
      cur.advance count)

/-- Bytes up to the null terminator, or up to the end; the cursor moves past
the terminator. -/
def string (cur : Cursor) : List Byte × Cursor :=
  let text := cur.rest.takeWhile (· ≠ 0)
  (text, cur.advance (text.length + 1))

theorem block_eq_some {cur next : Cursor} {n : Nat} {bytes : List Byte}
    (h : cur.block n = some (bytes, next)) :
    n ≤ cur.rest.length ∧ bytes = cur.rest.take n ∧ next = cur.advance n := by
  unfold block at h
  split at h
  · rename_i hle
    simp only [Option.some.injEq, Prod.mk.injEq] at h
    exact ⟨hle, h.1.symm, h.2.symm⟩
  · cases h

theorem block_of_le {cur : Cursor} {n : Nat} (h : n ≤ cur.rest.length) :
    cur.block n = some (cur.rest.take n, cur.advance n) := by
  simp [block, h]

theorem fixedInt_eq_some {w : Nat} {cur next : Cursor} {value : BitVec w}
    (h : cur.fixedInt w = some (value, next)) :
    w / 8 ≤ cur.rest.length ∧ value = BitVec.ofNat w (ofLe (cur.rest.take (w / 8))) ∧
      next = cur.advance (w / 8) := by
  obtain ⟨⟨bytes, after⟩, hblock, hout⟩ := Option.map_eq_some_iff.mp h
  obtain ⟨hle, rfl, rfl⟩ := block_eq_some hblock
  simp only [Prod.mk.injEq] at hout
  exact ⟨hle, hout.1.symm, hout.2.symm⟩

theorem fixedInt_of_le {w : Nat} {cur : Cursor} (h : w / 8 ≤ cur.rest.length) :
    cur.fixedInt w =
      some (BitVec.ofNat w (ofLe (cur.rest.take (w / 8))), cur.advance (w / 8)) := by
  simp [fixedInt, block_of_le h]

theorem u8_of_cons {cur : Cursor} {byte : Byte} {tail : List Byte}
    (h : cur.rest = byte :: tail) : cur.u8 = some (byte, cur.advance 1) := by
  have hle : 8 / 8 ≤ cur.rest.length := by simp [h]
  rw [u8, fixedInt_of_le hle, h]
  simp [ofLe]

theorem u8_eq_some {cur next : Cursor} {byte : Byte} (h : cur.u8 = some (byte, next)) :
    cur.rest = byte :: next.rest ∧ next = cur.advance 1 := by
  obtain ⟨hle, hvalue, rfl⟩ := fixedInt_eq_some h
  rw [rest_advance]
  cases hrest : cur.rest with
  | nil => simp [hrest] at hle
  | cons head tail => simp [hvalue, hrest, ofLe]

theorem uleb128_count (cur : Cursor) :
    (cur.uleb128).map (fun out => out.2) = (lebSize cur.rest).map cur.advance := by
  rw [lebSize, ← lebLoop_count 10 0 0 rfl]
  simp [uleb128, Option.map_map, Function.comp_def]

theorem sleb128_count (cur : Cursor) :
    (cur.sleb128).map (fun out => out.2) = (lebSize cur.rest).map cur.advance := by
  rw [lebSize, ← lebLoop_count 10 0 0 rfl]
  simp [sleb128, Option.map_map, Function.comp_def]

/-- Reading a number moves the cursor by exactly the length of the number. -/
theorem uleb128_eq_some {cur next : Cursor} {value : BitVec 64}
    (h : cur.uleb128 = some (value, next)) :
    ∃ n, lebSize cur.rest = some n ∧ next = cur.advance n := by
  have hcount := uleb128_count cur
  rw [h, Option.map_some] at hcount
  obtain ⟨n, hn, hnext⟩ := Option.map_eq_some_iff.mp hcount.symm
  exact ⟨n, hn, hnext.symm⟩

theorem sleb128_eq_some {cur next : Cursor} {value : BitVec 64}
    (h : cur.sleb128 = some (value, next)) :
    ∃ n, lebSize cur.rest = some n ∧ next = cur.advance n := by
  have hcount := sleb128_count cur
  rw [h, Option.map_some] at hcount
  obtain ⟨n, hn, hnext⟩ := Option.map_eq_some_iff.mp hcount.symm
  exact ⟨n, hn, hnext.symm⟩

theorem uleb128_of_size {cur : Cursor} {n : Nat} (h : lebSize cur.rest = some n) :
    ∃ value, cur.uleb128 = some (value, cur.advance n) := by
  have hcount := uleb128_count cur
  rw [h, Option.map_some] at hcount
  obtain ⟨⟨value, next⟩, hread, hnext⟩ := Option.map_eq_some_iff.mp hcount
  simp only at hnext
  exact ⟨value, hnext ▸ hread⟩

theorem sleb128_of_size {cur : Cursor} {n : Nat} (h : lebSize cur.rest = some n) :
    ∃ value, cur.sleb128 = some (value, cur.advance n) := by
  have hcount := sleb128_count cur
  rw [h, Option.map_some] at hcount
  obtain ⟨⟨value, next⟩, hread, hnext⟩ := Option.map_eq_some_iff.mp hcount
  simp only at hnext
  exact ⟨value, hnext ▸ hread⟩

end Cursor

/-- A cursor over a part of a byte string, as a cursor over the whole: the part
starts at an offset. -/
def Cursor.within (cur : Cursor) (whole : List Byte) (base : Nat) : Cursor :=
  ⟨whole, base + cur.pos⟩

section Within

variable {cur next : Cursor} {whole after : List Byte} {base : Nat}

theorem Cursor.rest_within (hpart : whole.drop base = cur.data ++ after) (hrest : cur.rest ≠ []) :
    (cur.within whole base).rest = cur.rest ++ after := by
  have hinside : cur.pos ≤ cur.data.length := by
    by_contra hpast
    exact hrest (List.drop_eq_nil_of_le (by omega))
  change whole.drop (base + cur.pos) = cur.data.drop cur.pos ++ after
  rw [← List.drop_drop, hpart, List.drop_append_of_le_length hinside]

/-- What is read inside a part is read inside the whole. -/
theorem Cursor.fixedInt_within {w : Nat} {value : BitVec w} (hw : 8 ≤ w)
    (hpart : whole.drop base = cur.data ++ after) (h : cur.fixedInt w = some (value, next)) :
    (cur.within whole base).fixedInt w = some (value, next.within whole base) := by
  obtain ⟨hle, rfl, rfl⟩ := Cursor.fixedInt_eq_some h
  have hsome : cur.rest ≠ [] := by
    intro hempty
    rw [hempty] at hle
    simp only [List.length_nil] at hle
    omega
  have hrest := Cursor.rest_within hpart hsome
  have hle' : w / 8 ≤ (cur.within whole base).rest.length := by
    rw [hrest, List.length_append]
    omega
  rw [Cursor.fixedInt_of_le hle', hrest, List.take_append_of_le_length hle]
  simp [Cursor.within, Cursor.advance, Nat.add_assoc]

theorem lebLoop_within {out : BitVec 64 × Nat × Byte × Nat}
    (hpart : whole.drop base = cur.data ++ after) (h : lebLoop 0 0 cur.rest = some out) :
    lebLoop 0 0 (cur.within whole base).rest = some out := by
  have hsome : cur.rest ≠ [] := by
    intro hempty
    rw [hempty] at h
    cases h
  rw [Cursor.rest_within hpart hsome]
  exact lebLoop_append after h

theorem Cursor.uleb128_within {value : BitVec 64} (hpart : whole.drop base = cur.data ++ after)
    (h : cur.uleb128 = some (value, next)) :
    (cur.within whole base).uleb128 = some (value, next.within whole base) := by
  obtain ⟨out, hloop, hout⟩ := Option.map_eq_some_iff.mp h
  cases hout
  rw [Cursor.uleb128, lebLoop_within hpart hloop, Option.map_some]
  simp [Cursor.within, Cursor.advance, Nat.add_assoc]

theorem Cursor.sleb128_within {value : BitVec 64} (hpart : whole.drop base = cur.data ++ after)
    (h : cur.sleb128 = some (value, next)) :
    (cur.within whole base).sleb128 = some (value, next.within whole base) := by
  obtain ⟨out, hloop, hout⟩ := Option.map_eq_some_iff.mp h
  cases hout
  rw [Cursor.sleb128, lebLoop_within hpart hloop, Option.map_some]
  simp [Cursor.within, Cursor.advance, Nat.add_assoc]

end Within

/-- How an operand is encoded: in a fixed number of bytes, as an LEB128
number, or as a block behind its LEB128 count. -/
inductive OperandFormat where
  | fixed (n : Nat)
  | leb
  | block
deriving DecidableEq, Repr

/-- Length of a counted block: the count and that many bytes. -/
def blockSize (bytes : List Byte) : Option Nat := do
  let size ← lebSize bytes
  let (len, _) ← (Cursor.mk bytes 0).uleb128
  if size + len.toNat ≤ bytes.length then some (size + len.toNat) else none

def OperandFormat.size : OperandFormat → List Byte → Option Nat
  | .fixed n, bytes => if n ≤ bytes.length then some n else none
  | .leb, bytes => lebSize bytes
  | .block, bytes => blockSize bytes

/-- Length of operands one after the other. -/
def operandsSize : List OperandFormat → List Byte → Option Nat
  | [], _ => some 0
  | format :: rest, bytes => do
      let n ← format.size bytes
      let k ← operandsSize rest (bytes.drop n)
      some (n + k)

/-- Operands lie inside the bytes they are read from. -/
theorem OperandFormat.size_le {format : OperandFormat} {bytes : List Byte} {n : Nat}
    (h : format.size bytes = some n) : n ≤ bytes.length := by
  cases format with
  | fixed k =>
      simp only [OperandFormat.size] at h
      split at h
      · cases h
        assumption
      · cases h
  | leb => exact lebSize_le_length h
  | block =>
      simp only [OperandFormat.size, blockSize, Option.bind_eq_bind,
        Option.bind_eq_some_iff] at h
      obtain ⟨size, -, ⟨len, after⟩, -, hfits⟩ := h
      split at hfits
      · cases hfits
        assumption
      · cases hfits

theorem operandsSize_le {formats : List OperandFormat} :
    ∀ {bytes : List Byte} {n : Nat}, operandsSize formats bytes = some n → n ≤ bytes.length := by
  induction formats with
  | nil =>
      intro bytes n h
      cases h
      exact Nat.zero_le _
  | cons format rest ih =>
      intro bytes n h
      simp only [operandsSize, Option.bind_eq_bind, Option.bind_eq_some_iff,
        Option.some.injEq] at h
      obtain ⟨k, hk, m, hm, rfl⟩ := h
      have hfirst := OperandFormat.size_le hk
      have hrest := ih hm
      rw [List.length_drop] at hrest
      omega

section Operands

variable {cur next : Cursor}

theorem operandsSize_fixed {w : Nat} {value : BitVec w} (h : cur.fixedInt w = some (value, next)) :
    operandsSize [.fixed (w / 8)] cur.rest = some (w / 8) ∧ next = cur.advance (w / 8) := by
  obtain ⟨hle, -, rfl⟩ := Cursor.fixedInt_eq_some h
  simp [operandsSize, OperandFormat.size, hle]

theorem operandsSize_singleton (format : OperandFormat) (bytes : List Byte) :
    operandsSize [format] bytes = format.size bytes := by
  simp [operandsSize]

theorem operandsSize_leb {n : Nat} (h : lebSize cur.rest = some n) :
    operandsSize [.leb] cur.rest = some n := by
  rw [operandsSize_singleton, OperandFormat.size, h]

theorem operandsSize_leb_leb {n k : Nat} (hfirst : lebSize cur.rest = some n)
    (hsecond : lebSize (cur.advance n).rest = some k) :
    operandsSize [.leb, .leb] cur.rest = some (n + k) := by
  rw [Cursor.rest_advance] at hsecond
  simp [operandsSize, OperandFormat.size, hfirst, hsecond]

/-- The count of a block, read at a cursor. -/
theorem operandsSize_block {cur : Cursor} {k : Nat}
    (h : operandsSize [.block] cur.rest = some k) :
    ∃ size len, lebSize cur.rest = some size ∧
      cur.uleb128 = some (len, cur.advance size) ∧
      len.toNat ≤ (cur.advance size).rest.length ∧ k = size + len.toNat := by
  simp only [operandsSize, OperandFormat.size, blockSize, Option.bind_eq_bind,
    Option.bind_eq_some_iff, Prod.exists, Option.some.injEq] at h
  obtain ⟨m, ⟨size, hsize, len, after, hlen, hfits⟩, j, rfl, rfl⟩ := h
  split at hfits
  · rename_i hle
    cases hfits
    obtain ⟨len', hread⟩ := Cursor.uleb128_of_size hsize
    have hsame : len' = len := by
      obtain ⟨out, hout, hpair⟩ := Option.map_eq_some_iff.mp hread
      obtain ⟨out', hout', hpair'⟩ := Option.map_eq_some_iff.mp hlen
      have heq : out' = out := Option.some.inj (hout'.symm.trans hout)
      have hfirst := congrArg Prod.fst hpair
      have hfirst' := congrArg Prod.fst hpair'
      rw [heq] at hfirst'
      exact hfirst.symm.trans hfirst'
    subst hsame
    refine ⟨size, len', hsize, hread, ?_, by omega⟩
    rw [Cursor.rest_advance, List.length_drop]
    omega
  · cases hfits

end Operands

/-- A reader takes exactly the bytes of its format. -/
def Reads {α : Type} (reader : Cursor → Option (α × Cursor)) (format : OperandFormat) : Prop :=
  ∀ cur, (reader cur).map (·.2) = (format.size cur.rest).map cur.advance

theorem reads_fixedInt (w : Nat) : Reads (Cursor.fixedInt w) (.fixed (w / 8)) := by
  intro cur
  by_cases hle : w / 8 ≤ cur.rest.length
  · simp [Cursor.fixedInt_of_le hle, OperandFormat.size, hle]
  · simp [Cursor.fixedInt, Cursor.block, OperandFormat.size, hle]

theorem reads_u8 : Reads Cursor.u8 (.fixed 1) := reads_fixedInt 8

theorem reads_u16 : Reads Cursor.u16 (.fixed 2) := reads_fixedInt 16

theorem reads_u32 : Reads Cursor.u32 (.fixed 4) := reads_fixedInt 32

theorem reads_u64 : Reads Cursor.u64 (.fixed 8) := reads_fixedInt 64

theorem reads_uleb128 : Reads Cursor.uleb128 .leb := Cursor.uleb128_count

theorem reads_sleb128 : Reads Cursor.sleb128 .leb := Cursor.sleb128_count

/-- The value of an LEB128 number depends on its bytes only. -/
theorem uleb128_value (cur : Cursor) :
    ((Cursor.mk cur.rest 0).uleb128).map (·.1) = (cur.uleb128).map (·.1) := by
  simp [Cursor.uleb128, Cursor.rest, Option.map_map, Function.comp_def]

theorem reads_block :
    Reads (fun cur => cur.uleb128.bind fun read => read.2.block read.1.toNat) .block := by
  intro cur
  have hvalue := uleb128_value cur
  cases hsize : lebSize cur.rest with
  | none =>
      have hnone : cur.uleb128 = none := by
        simpa [hsize] using Cursor.uleb128_count cur
      simp [hnone, OperandFormat.size, blockSize, hsize]
  | some size =>
      obtain ⟨len, hread⟩ := Cursor.uleb128_of_size hsize
      rw [hread] at hvalue
      obtain ⟨⟨len', after⟩, hinner, heq⟩ := Option.map_eq_some_iff.mp hvalue
      have hlen : len' = len := heq
      subst hlen
      have hle := lebSize_le_length hsize
      have hrest : (cur.advance size).rest.length = cur.rest.length - size := by
        rw [Cursor.rest_advance, List.length_drop]
      by_cases hfits : size + len'.toNat ≤ cur.rest.length
      · have hblock : len'.toNat ≤ (cur.advance size).rest.length := by omega
        simp [hread, Cursor.block_of_le hblock, OperandFormat.size, blockSize, hsize, hinner, hfits,
          Cursor.advance_advance]
      · have hblock : ¬ len'.toNat ≤ (cur.advance size).rest.length := by omega
        simp [hread, Cursor.block, hblock, OperandFormat.size, blockSize, hsize, hinner, hfits]

end ByteCursor
