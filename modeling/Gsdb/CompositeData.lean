/-
Composite locations: the bits of a variable that is put together from pieces, whether
whole bytes are copied or single bits.
-/
import Gsdb.BitCopy
import Gsdb.LocationData

namespace Gsdb

open ByteMemory

/-- Bits of a source were put somewhere in a byte string, and nothing else was changed. -/
structure BitsPlaced (dest : List Byte) (destBit : Nat) (src : List Byte) (srcBit nBits : Nat)
    (result : List Byte) : Prop where
  length : result.length = dest.length
  bits : ∀ k, bitAt result k =
    if destBit ≤ k ∧ k < destBit + nBits then bitAt src (srcBit + (k - destBit))
    else bitAt dest k

namespace Piece

/-- The bits that a piece contributes. -/
def bits (piece : Piece) (pieceData : List Byte) : List Bool :=
  (List.range piece.bitSize.toNat).map fun i => bitAt pieceData (piece.offset.toNat + i)

/-- A location that yields all bits of the piece, in a buffer that fits into the address
space. -/
structure Yields (read : SimpleLocation → Nat → Except Failure (List Byte)) (piece : Piece)
    (data : List Byte) : Prop where
  read : read piece.location piece.srcBytes = .ok data
  enough : piece.offset.toNat + piece.bitSize.toNat ≤ 8 * data.length
  addressable : data.length < 2 ^ 60

end Piece

/-- The bits of the pieces, one piece behind the other. -/
def compositeBits : List Piece → List (List Byte) → List Bool
  | piece :: pieces, data :: datas => piece.bits data ++ compositeBits pieces datas
  | _, _ => []

/-- The bits fit into a variable and are what was read, with zeros behind them, or they do
not and there was an error. -/
structure ComposedOf (bits : List Bool) (size : Nat) (result : Except Failure (List Byte)) :
    Prop where
  fits : bits.length ≤ 8 * size → ∃ data, result = .ok data ∧ data.length = size ∧
    ∀ i, bitAt data i = bits.getD i false
  exceeds : 8 * size < bits.length → ∃ failure : Failure, result = .error failure ∧
    failure.isException = true

/-- How many bits a piece has and where they start in its location. -/
structure PieceShape where
  bitSize : Word
  offset : Word
deriving DecidableEq, Repr

namespace PieceShape

/-- Where the bits end in their location. -/
def stop (shape : PieceShape) : Nat := shape.offset.toNat + shape.bitSize.toNat

/-- Whole bytes that go to whole bytes. -/
def WholeBytes (shape : PieceShape) (dest : Nat) : Prop :=
  dest % 8 = 0 ∧ shape.offset = 0 ∧ shape.bitSize.toNat % 8 = 0

/-- Bits that can be counted in 32 bits, from the start of both buffers. -/
def Countable (shape : PieceShape) (dest : Nat) : Prop :=
  dest + shape.bitSize.toNat ≤ 2 ^ 32 ∧ shape.stop ≤ 2 ^ 32

/-- A piece of which the right bits are copied, whatever they are. -/
def Copyable (shape : PieceShape) (dest : Nat) : Prop :=
  shape.WholeBytes dest ∨ shape.bitSize = 0 ∨ shape.Countable dest

def of (piece : Piece) : PieceShape := ⟨piece.bitSize, piece.offset⟩

/-- A piece of this shape in a block of the debug information. -/
def inBlock (shape : PieceShape) (block : List Byte) : Piece :=
  ⟨.data block, shape.bitSize, shape.offset⟩

/-- As few bytes as have all bits of the piece. -/
def blockLength (shape : PieceShape) : Nat := (shape.stop + 7) / 8

end PieceShape

def totalBits (shapes : List PieceShape) : Nat :=
  (shapes.map fun shape => shape.bitSize.toNat).sum

/-- Pieces of which each is copied right, the first one to some place. -/
def AllCopyable : Nat → List PieceShape → Prop
  | _, [] => True
  | dest, shape :: shapes => shape.Copyable dest ∧
      AllCopyable (dest + shape.bitSize.toNat) shapes

/-- Composite locations of some shape are read right, whatever they consist of. -/
def ReadsComposites (size : Nat) (shapes : List PieceShape) : Prop :=
  ∀ (m : Machine) (threads : Tid → Option Stack) (otid : Option Tid) (pieces : List Piece)
    (datas : List (List Byte)), pieces.map PieceShape.of = shapes →
    List.Forall₂
      (Piece.Yields (readSimpleLocation m threads (otid.getD m.process.currentThread)))
      pieces datas →
    ComposedOf (compositeBits pieces datas) size
      (readLocationData m threads size otid (.pieces pieces))

section Placing

variable {dest src result : List Byte} {destBit srcBit nBits : Nat}

theorem BitsCopied.placed (h : BitsCopied dest destBit src srcBit nBits result)
    (hdest : destBit + nBits ≤ 2 ^ 32) (hsrc : srcBit + nBits ≤ 2 ^ 32) :
    BitsPlaced dest destBit src srcBit nBits result := by
  refine ⟨h.length, fun k => ?_⟩
  by_cases hk : destBit ≤ k ∧ k < destBit + nBits
  · have hcopied := h.copied (k - destBit) (by omega)
    rw [bitBehind_of_le hdest (by omega), bitBehind_of_le hsrc (by omega),
      Nat.add_sub_cancel' hk.1] at hcopied
    rw [if_pos hk, hcopied]
  · rw [if_neg hk]
    refine h.kept k fun i hi heq => hk ?_
    rw [bitBehind_of_le hdest hi] at heq
    omega

theorem BitsCopied.placed_none (h : BitsCopied dest destBit src srcBit 0 result)
    (destBit' srcBit' : Nat) : BitsPlaced dest destBit' src srcBit' 0 result := by
  refine ⟨h.length, fun k => ?_⟩
  rw [if_neg (by omega)]
  exact h.kept k fun i hi => absurd hi (Nat.not_lt_zero i)

/-- A copy of whole bytes. -/
theorem copyBytes_placed (h : destBit / 8 + src.length ≤ dest.length) (hwhole : destBit % 8 = 0) :
    ∃ result, copyBytes dest (destBit / 8) src = .ok result ∧
      BitsPlaced dest destBit src 0 (8 * src.length) result := by
  rw [copyBytes, if_pos h]
  have hbefore : (dest.take (destBit / 8)).length = destBit / 8 := by
    rw [List.length_take]
    omega
  refine ⟨_, rfl, ?_, fun k => ?_⟩
  · simp only [List.length_append, List.length_take, List.length_drop]
    omega
  · rw [bitAt_append, bitAt_append, List.length_append, hbefore]
    by_cases hlow : k < destBit
    · rw [if_pos (by omega), if_pos (by omega), if_neg (by omega), bitAt_take (by omega)]
    · by_cases hhigh : k < destBit + 8 * src.length
      · rw [if_pos (by omega), if_neg (by omega), if_pos (by omega), Nat.zero_add]
        congr 1
        omega
      · rw [if_neg (by omega), if_neg (by omega), bitAt_drop]
        congr 1
        omega

/-- Bits that lie inside both buffers are copied by numbers that stay inside. -/
theorem memcpyBits_truncated (hdest : destBit + nBits ≤ 8 * dest.length)
    (hsrc : srcBit + nBits ≤ 8 * src.length) :
    ∃ result, memcpyBits dest (destBit % 2 ^ 32) src (srcBit % 2 ^ 32) (nBits % 2 ^ 32) =
        .ok result ∧
      BitsCopied dest (destBit % 2 ^ 32) src (srcBit % 2 ^ 32) (nBits % 2 ^ 32) result := by
  have hd := Nat.mod_lt destBit (show 0 < 2 ^ 32 by decide)
  have hs := Nat.mod_lt srcBit (show 0 < 2 ^ 32 by decide)
  have hn := Nat.mod_lt nBits (show 0 < 2 ^ 32 by decide)
  have hle := Nat.mod_le nBits (2 ^ 32)
  have hinside : ∀ i < nBits % 2 ^ 32, bitBehind (destBit % 2 ^ 32) i < 8 * dest.length ∧
      bitBehind (srcBit % 2 ^ 32) i < 8 * src.length := by
    intro i hi
    have hdle := Nat.mod_le (destBit + i) (2 ^ 32)
    have hsle := Nat.mod_le (srcBit + i) (2 ^ 32)
    rw [bitBehind, bitBehind, Nat.mod_add_mod, Nat.mod_add_mod]
    omega
  obtain ⟨result, hresult⟩ := memcpyBits_of_inside hd hs hinside
  exact ⟨result, hresult, memcpyBits_copied hn.le hd hs hresult⟩

end Placing

section Piece

variable {piece : Piece} {offset : Word} {data pieceData result : List Byte} {dest : Nat}

/-- The rounded end of a piece, in bytes, while nothing wraps around. -/
theorem roundedBytes (a b : Word) (h : a.toNat + b.toNat + 7 < 2 ^ 64) :
    ((a + b + 7) / 8).toNat = (a.toNat + b.toNat + 7) / 8 := by
  have hfirst : (a + b).toNat = a.toNat + b.toNat := by
    rw [BitVec.toNat_add, Nat.mod_eq_of_lt (by omega)]
  have hsum : (a + b + 7).toNat = a.toNat + b.toNat + 7 := by
    rw [BitVec.toNat_add, hfirst]
    change (a.toNat + b.toNat + 7) % 2 ^ 64 = _
    exact Nat.mod_eq_of_lt (by omega)
  rw [BitVec.toNat_udiv, hsum]
  rfl

theorem byteAligned_iff (piece : Piece) (offset : Word) :
    piece.ByteAligned offset ↔ (PieceShape.of piece).WholeBytes offset.toNat := by
  have hmod : ∀ x : Word, x % 8 = 0 ↔ x.toNat % 8 = 0 := by
    intro x
    rw [← BitVec.toNat_inj, BitVec.toNat_umod]
    rfl
  exact and_congr (hmod offset) (and_congr Iff.rfl (hmod piece.bitSize))

/-- A piece that consists of whole bytes is put in its place. -/
theorem copyInto_wholeBytes
    (haligned : (PieceShape.of piece).WholeBytes offset.toNat)
    (hdata : offset.toNat + piece.bitSize.toNat ≤ 8 * data.length)
    (hsrc : piece.offset.toNat + piece.bitSize.toNat ≤ 8 * pieceData.length) :
    ∃ result, piece.copyInto data offset pieceData = .ok result ∧
      BitsPlaced data offset.toNat pieceData piece.offset.toNat piece.bitSize.toNat result := by
  rw [Piece.copyInto, if_pos ((byteAligned_iff piece offset).mpr haligned)]
  obtain ⟨hdest, hzero, hsize⟩ := haligned
  change piece.offset = 0 at hzero
  change piece.bitSize.toNat % 8 = 0 at hsize
  have hoffset : piece.offset.toNat = 0 := congrArg BitVec.toNat hzero
  rw [hoffset] at hsrc ⊢
  have hlength : (pieceData.take (piece.bitSize / 8).toNat).length = piece.bitSize.toNat / 8 := by
    rw [List.length_take, BitVec.toNat_udiv]
    change min (piece.bitSize.toNat / 8) _ = _
    omega
  have hfit : offset.toNat / 8 + (pieceData.take (piece.bitSize / 8).toNat).length ≤
      data.length := by
    omega
  obtain ⟨result, hresult, hplaced⟩ := copyBytes_placed hfit hdest
  have hplace : (offset / 8).toNat = offset.toNat / 8 := BitVec.toNat_udiv
  rw [hlength, show 8 * (piece.bitSize.toNat / 8) = piece.bitSize.toNat by omega] at hplaced
  refine ⟨result, hplace ▸ hresult, hplaced.length, fun k => ?_⟩
  rw [hplaced.bits k]
  split
  · have hcount : (piece.bitSize / 8).toNat = piece.bitSize.toNat / 8 := BitVec.toNat_udiv
    rw [bitAt_take (by omega)]
  · rfl

/-- Any other piece is copied by numbers of 32 bits. -/
theorem copyInto_bits (hbits : ¬ (PieceShape.of piece).WholeBytes offset.toNat)
    (hdata : offset.toNat + piece.bitSize.toNat ≤ 8 * data.length)
    (hsrc : piece.offset.toNat + piece.bitSize.toNat ≤ 8 * pieceData.length) :
    ∃ result, piece.copyInto data offset pieceData = .ok result ∧
      BitsCopied data (offset.toNat % 2 ^ 32) pieceData (piece.offset.toNat % 2 ^ 32)
        (piece.bitSize.toNat % 2 ^ 32) result := by
  rw [Piece.copyInto, if_neg (mt (byteAligned_iff piece offset).mp hbits)]
  exact memcpyBits_truncated hdata hsrc

/-- A piece that fits into the variable is copied somewhere. -/
theorem copyInto_ok (hdata : offset.toNat + piece.bitSize.toNat ≤ 8 * data.length)
    (hsrc : piece.offset.toNat + piece.bitSize.toNat ≤ 8 * pieceData.length) :
    ∃ result, piece.copyInto data offset pieceData = .ok result := by
  by_cases hwhole : (PieceShape.of piece).WholeBytes offset.toNat
  · obtain ⟨result, hresult, -⟩ := copyInto_wholeBytes hwhole hdata hsrc
    exact ⟨result, hresult⟩
  · obtain ⟨result, hresult, -⟩ := copyInto_bits hwhole hdata hsrc
    exact ⟨result, hresult⟩

/-- A piece whose bits can be counted in 32 bits is put in its place. -/
theorem copyInto_placed (hcopyable : (PieceShape.of piece).Copyable offset.toNat)
    (hdata : offset.toNat + piece.bitSize.toNat ≤ 8 * data.length)
    (hsrc : piece.offset.toNat + piece.bitSize.toNat ≤ 8 * pieceData.length) :
    ∃ result, piece.copyInto data offset pieceData = .ok result ∧
      BitsPlaced data offset.toNat pieceData piece.offset.toNat piece.bitSize.toNat result := by
  by_cases hwhole : (PieceShape.of piece).WholeBytes offset.toNat
  · exact copyInto_wholeBytes hwhole hdata hsrc
  obtain ⟨result, hresult, hcopied⟩ := copyInto_bits hwhole hdata hsrc
  refine ⟨result, hresult, ?_⟩
  rcases hcopyable with hwhole' | hempty | ⟨hdest, hstop⟩
  · exact absurd hwhole' hwhole
  · have hzero : piece.bitSize.toNat = 0 := congrArg BitVec.toNat hempty
    rw [hzero] at hcopied ⊢
    exact hcopied.placed_none _ _
  · change offset.toNat + piece.bitSize.toNat ≤ 2 ^ 32 at hdest
    change piece.offset.toNat + piece.bitSize.toNat ≤ 2 ^ 32 at hstop
    -- a piece of 2³² bits starts at both beginnings, and its bytes are copied
    have hbelow : piece.bitSize.toNat ≠ 0 → piece.bitSize.toNat < 2 ^ 32 := by
      intro hpositive
      by_contra hlarge
      refine hwhole ⟨by omega, ?_, ?_⟩
      · exact BitVec.eq_of_toNat_eq (show piece.offset.toNat = 0 by omega)
      · change piece.bitSize.toNat % 8 = 0
        omega
    by_cases hpositive : piece.bitSize.toNat = 0
    · rw [hpositive] at hcopied ⊢
      exact hcopied.placed_none _ _
    · have hsize := hbelow hpositive
      rw [Nat.mod_eq_of_lt hsize, Nat.mod_eq_of_lt (show offset.toNat < 2 ^ 32 by omega),
        Nat.mod_eq_of_lt (show piece.offset.toNat < 2 ^ 32 by omega)] at hcopied
      exact hcopied.placed hdest hstop

end Piece

section Loop

variable {read : SimpleLocation → Nat → Except Failure (List Byte)} {piece : Piece}
  {pieces : List Piece} {pieceData data : List Byte} {datas : List (List Byte)} {offset : Word}

theorem Piece.bits_length (piece : Piece) (pieceData : List Byte) :
    (piece.bits pieceData).length = piece.bitSize.toNat := by
  rw [Piece.bits, List.length_map, List.length_range]

theorem Piece.bits_getD {i : Nat} (h : i < piece.bitSize.toNat) :
    (piece.bits pieceData).getD i false = bitAt pieceData (piece.offset.toNat + i) := by
  rw [Piece.bits, List.getD_eq_getElem _ _ (by rwa [List.length_map, List.length_range]),
    List.getElem_map, List.getElem_range]

theorem compositeBits_length
    (h : List.Forall₂ (Piece.Yields read) pieces datas) :
    (compositeBits pieces datas).length = totalBits (pieces.map PieceShape.of) := by
  induction h with
  | nil => rfl
  | cons hyields _ ih =>
      rw [compositeBits, List.length_append, Piece.bits_length, ih]
      rfl

theorem Piece.Yields.stop_lt (h : piece.Yields read pieceData) :
    piece.offset.toNat + piece.bitSize.toNat + 7 < 2 ^ 63 := by
  have henough := h.enough
  have haddressable := h.addressable
  omega

/-- A piece that fits is copied and the next one goes behind it. -/
theorem readPieces_cons {copied : List Byte} (hyields : piece.Yields read pieceData)
    (hlength : data.length < 2 ^ 60)
    (hfits : offset.toNat + piece.bitSize.toNat ≤ 8 * data.length)
    (hcopy : piece.copyInto data offset pieceData = .ok copied) :
    readPieces read (piece :: pieces) offset data =
      readPieces read pieces (offset + piece.bitSize) copied := by
  have hrounded := roundedBytes offset piece.bitSize (by omega)
  rw [readPieces, hyields.read, ok_bind, hrounded, require, if_pos (by omega), ok_bind, hcopy]
  rfl

theorem offset_behind (hlength : data.length < 2 ^ 60)
    (hfits : offset.toNat + piece.bitSize.toNat ≤ 8 * data.length) :
    (offset + piece.bitSize).toNat = offset.toNat + piece.bitSize.toNat := by
  rw [BitVec.toNat_add, Nat.mod_eq_of_lt (by omega)]

/-- Pieces that fit and of which the right bits are copied are put together. -/
theorem readPieces_placed (hyields : List.Forall₂ (Piece.Yields read) pieces datas)
    (hcopyable : AllCopyable offset.toNat (pieces.map PieceShape.of))
    (hlength : data.length < 2 ^ 60)
    (hfits : offset.toNat + (compositeBits pieces datas).length ≤ 8 * data.length) :
    ∃ result, readPieces read pieces offset data = .ok result ∧ result.length = data.length ∧
      ∀ k, bitAt result k =
        if offset.toNat ≤ k ∧ k < offset.toNat + (compositeBits pieces datas).length then
          (compositeBits pieces datas).getD (k - offset.toNat) false
        else bitAt data k := by
  induction hyields generalizing offset data with
  | nil =>
      refine ⟨data, rfl, rfl, fun k => ?_⟩
      rw [if_neg]
      rintro ⟨hle, hlt⟩
      exact absurd hlt (Nat.not_lt.mpr hle)
  | @cons piece pieceData pieces datas hpiece hpieces ih =>
      obtain ⟨hfirst, hrest⟩ := hcopyable
      rw [compositeBits, List.length_append, Piece.bits_length] at hfits
      have hinside : offset.toNat + piece.bitSize.toNat ≤ 8 * data.length := by omega
      obtain ⟨copied, hcopy, hplaced⟩ := copyInto_placed hfirst hinside hpiece.enough
      have hbehind := offset_behind hlength hinside
      obtain ⟨result, hresult, hsame, hbits⟩ := ih
        (by rw [hbehind]; exact hrest)
        (by rwa [hplaced.length]) (by rw [hbehind, hplaced.length]; omega)
      refine ⟨result, ?_, hsame.trans hplaced.length, fun k => ?_⟩
      · rw [readPieces_cons hpiece hlength hinside hcopy, hresult]
      rw [hbits k, hbehind, hplaced.bits k, compositeBits, List.length_append, Piece.bits_length]
      by_cases hbefore : k < offset.toNat
      · rw [if_neg (by omega), if_neg (by omega), if_neg (by omega)]
      by_cases hthis : k < offset.toNat + piece.bitSize.toNat
      · rw [if_neg (by omega), if_pos (by omega), if_pos (by omega),
          List.getD_append _ _ _ _ (by rw [Piece.bits_length]; omega),
          Piece.bits_getD (by omega)]
      by_cases hlater : k < offset.toNat + piece.bitSize.toNat + (compositeBits pieces datas).length
      · rw [if_pos (by omega), if_pos (by omega),
          List.getD_append_right _ _ _ _ (by rw [Piece.bits_length]; omega), Piece.bits_length,
          Nat.sub_sub]
      · rw [if_neg (by omega), if_neg (by omega), if_neg (by omega)]

/-- Pieces that do not fit are refused, whatever the ones before them became. -/
theorem readPieces_exceeds (hyields : List.Forall₂ (Piece.Yields read) pieces datas)
    (hlength : data.length < 2 ^ 60) (hinside : offset.toNat ≤ 8 * data.length)
    (hexceeds : 8 * data.length < offset.toNat + (compositeBits pieces datas).length) :
    readPieces read pieces offset data =
      .error (.error "Location pieces exceed the variable's size!") := by
  induction hyields generalizing offset data with
  | nil => exact absurd hexceeds (Nat.not_lt.mpr hinside)
  | @cons piece pieceData pieces datas hpiece hpieces ih =>
      rw [compositeBits, List.length_append, Piece.bits_length] at hexceeds
      by_cases hfits : offset.toNat + piece.bitSize.toNat ≤ 8 * data.length
      · obtain ⟨copied, hcopy⟩ := copyInto_ok hfits hpiece.enough
        have hsame := Piece.copyInto_length hcopy
        have hbehind := offset_behind hlength hfits
        rw [readPieces_cons hpiece hlength hfits hcopy]
        refine ih ?_ ?_ ?_
        · rwa [hsame]
        · rw [hbehind, hsame]
          exact hfits
        · rw [hbehind, hsame]
          omega
      · have hstop := hpiece.stop_lt
        have hrounded := roundedBytes offset piece.bitSize (by omega)
        rw [readPieces, hpiece.read, ok_bind, hrounded, require, if_neg (by omega)]
        rfl

end Loop

section Misread

variable {read : SimpleLocation → Nat → Except Failure (List Byte)} {piece : Piece}
  {pieces : List Piece} {pieceData data copied result : List Byte} {offset : Word}

/-- A piece without a one brings none into the variable. -/
theorem copyInto_clear (hdata : offset.toNat + piece.bitSize.toNat ≤ 8 * data.length)
    (hsrc : piece.offset.toNat + piece.bitSize.toNat ≤ 8 * pieceData.length)
    (hclear : ∀ k, bitAt pieceData k = false)
    (h : piece.copyInto data offset pieceData = .ok copied) {k : Nat}
    (hk : bitAt data k = false) : bitAt copied k = false := by
  by_cases hwhole : (PieceShape.of piece).WholeBytes offset.toNat
  · obtain ⟨copied', hcopied', hplaced⟩ := copyInto_wholeBytes hwhole hdata hsrc
    rw [Except.ok.inj (h.symm.trans hcopied'), hplaced.bits k]
    split
    · exact hclear _
    · exact hk
  · obtain ⟨copied', hcopied', hbits⟩ := copyInto_bits hwhole hdata hsrc
    rw [Except.ok.inj (h.symm.trans hcopied')]
    by_cases hwritten : ∃ i < piece.bitSize.toNat % 2 ^ 32,
        bitBehind (offset.toNat % 2 ^ 32) i = k
    · obtain ⟨i, hi, rfl⟩ := hwritten
      rw [hbits.copied i hi]
      exact hclear _
    · rw [hbits.kept k fun i hi heq => hwritten ⟨i, hi, heq⟩]
      exact hk

/-- The last bit of a piece that cannot be counted in 32 bits is not copied. -/
theorem copyInto_misses (hcopyable : ¬ (PieceShape.of piece).Copyable offset.toNat)
    (hdata : offset.toNat + piece.bitSize.toNat ≤ 8 * data.length)
    (hsrc : piece.offset.toNat + piece.bitSize.toNat ≤ 8 * pieceData.length)
    (hsingle : ∀ k, bitAt pieceData k = decide (k = (PieceShape.of piece).stop - 1))
    (h : piece.copyInto data offset pieceData = .ok copied)
    (hlast : bitAt data (offset.toNat + piece.bitSize.toNat - 1) = false) :
    bitAt copied (offset.toNat + piece.bitSize.toNat - 1) = false := by
  obtain ⟨copied', hcopied', hbits⟩ :=
    copyInto_bits (fun hwhole => hcopyable (.inl hwhole)) hdata hsrc
  rw [Except.ok.inj (h.symm.trans hcopied')]
  by_cases hwritten : ∃ i < piece.bitSize.toNat % 2 ^ 32,
      bitBehind (offset.toNat % 2 ^ 32) i = offset.toNat + piece.bitSize.toNat - 1
  · obtain ⟨i, hi, heq⟩ := hwritten
    rw [← heq, hbits.copied i hi, hsingle, decide_eq_false_iff_not]
    -- both numbers fit into 32 bits, or one of them is not the last one
    intro hsame
    refine hcopyable (.inr (.inr ?_))
    have hdest : bitBehind (offset.toNat % 2 ^ 32) i < 2 ^ 32 := Nat.mod_lt _ (by decide)
    have hstop : bitBehind (piece.offset.toNat % 2 ^ 32) i < 2 ^ 32 := Nat.mod_lt _ (by decide)
    change offset.toNat + piece.bitSize.toNat ≤ 2 ^ 32 ∧ (PieceShape.of piece).stop ≤ 2 ^ 32
    omega
  · rw [hbits.kept _ fun i hi heq => hwritten ⟨i, hi, heq⟩]
    exact hlast

/-- A block of the debug information that has all bits of a piece. -/
theorem inBlock_yields (hblocks : ∀ block size, read (.data block) size = .ok block)
    {shape : PieceShape} {block : List Byte} (hstop : shape.stop + 7 < 2 ^ 63)
    (hlength : block.length = shape.blockLength) :
    (shape.inBlock block).Yields read block := by
  refine ⟨hblocks block _, ?_, ?_⟩
  · change shape.stop ≤ 8 * block.length
    rw [hlength, PieceShape.blockLength]
    omega
  · rw [hlength, PieceShape.blockLength]
    omega

/-- The piece of a shape in a block of zeros. -/
def PieceShape.clear (shape : PieceShape) : List Byte := List.replicate shape.blockLength 0

theorem clear_yields (hblocks : ∀ block size, read (.data block) size = .ok block)
    {shapes : List PieceShape} (hstop : ∀ shape ∈ shapes, shape.stop + 7 < 2 ^ 63) :
    List.Forall₂ (Piece.Yields read) (shapes.map fun shape => shape.inBlock shape.clear)
      (shapes.map PieceShape.clear) := by
  induction shapes with
  | nil => exact .nil
  | cons shape shapes ih =>
      exact .cons (inBlock_yields hblocks (hstop shape List.mem_cons_self) List.length_replicate)
        (ih fun other hmem => hstop other (List.mem_cons_of_mem _ hmem))

theorem map_of_clear (shapes : List PieceShape) :
    (shapes.map fun shape => shape.inBlock shape.clear).map PieceShape.of = shapes := by
  rw [List.map_map]
  exact List.map_id shapes

/-- Where a piece in a block comes first, its bits are copied, and the loop goes on behind
them. -/
theorem readPieces_inBlock {shape : PieceShape} {shapes : List PieceShape} {block : List Byte}
    (hyields : (shape.inBlock block).Yields read block) (hlength : data.length < 2 ^ 60)
    (hfits : offset.toNat + totalBits (shape :: shapes) ≤ 8 * data.length)
    (h : readPieces read (shape.inBlock block :: pieces) offset data = .ok result) :
    ∃ copied, (shape.inBlock block).copyInto data offset block = .ok copied ∧
      offset.toNat + (shape.inBlock block).bitSize.toNat ≤ 8 * data.length ∧
      copied.length < 2 ^ 60 ∧
      (offset + shape.bitSize).toNat = offset.toNat + shape.bitSize.toNat ∧
      offset.toNat + shape.bitSize.toNat + totalBits shapes ≤ 8 * copied.length ∧
      readPieces read pieces (offset + shape.bitSize) copied = .ok result := by
  change offset.toNat + (shape.bitSize.toNat + totalBits shapes) ≤ _ at hfits
  have hinside : offset.toNat + (shape.inBlock block).bitSize.toNat ≤ 8 * data.length := by
    change offset.toNat + shape.bitSize.toNat ≤ _
    omega
  obtain ⟨copied, hcopy⟩ := copyInto_ok hinside hyields.enough
  have hsame := Piece.copyInto_length hcopy
  rw [readPieces_cons hyields hlength hinside hcopy] at h
  refine ⟨copied, hcopy, hinside, by rwa [hsame], offset_behind hlength hinside, ?_, h⟩
  rw [hsame]
  omega

/-- Pieces without a one bring none into the variable. -/
theorem readPieces_clear (hblocks : ∀ block size, read (.data block) size = .ok block)
    {shapes : List PieceShape} (hstop : ∀ shape ∈ shapes, shape.stop + 7 < 2 ^ 63)
    (hlength : data.length < 2 ^ 60) (hfits : offset.toNat + totalBits shapes ≤ 8 * data.length)
    (h : readPieces read (shapes.map fun shape => shape.inBlock shape.clear) offset data =
      .ok result) {k : Nat} (hk : bitAt data k = false) : bitAt result k = false := by
  induction shapes generalizing offset data with
  | nil =>
      cases h
      exact hk
  | cons shape shapes ih =>
      have hyields : (shape.inBlock shape.clear).Yields read shape.clear :=
        inBlock_yields hblocks (hstop shape List.mem_cons_self) List.length_replicate
      obtain ⟨copied, hcopy, hinside, hlength', hoffset, hfits', hrest⟩ :=
        readPieces_inBlock hyields hlength hfits h
      exact ih (fun other hmem => hstop other (List.mem_cons_of_mem _ hmem)) hlength'
        (hoffset ▸ hfits') hrest
        (copyInto_clear hinside hyields.enough (fun k => bitAt_replicate _) hcopy hk)

/-- Pieces of which one is not copied right can be such that a bit of it is missing. -/
theorem exists_misread (hblocks : ∀ block size, read (.data block) size = .ok block)
    {shapes : List PieceShape} {dest : Nat} (hcopyable : ¬ AllCopyable dest shapes)
    (hstop : ∀ shape ∈ shapes, shape.stop + 7 < 2 ^ 63) :
    ∃ pieces datas bit, pieces.map PieceShape.of = shapes ∧
      List.Forall₂ (Piece.Yields read) pieces datas ∧ dest ≤ bit ∧
      (compositeBits pieces datas).getD (bit - dest) false = true ∧
      ∀ (offset : Word) (data result : List Byte), offset.toNat = dest →
        data.length < 2 ^ 60 → dest + totalBits shapes ≤ 8 * data.length →
        (∀ k, bitAt data k = false) → readPieces read pieces offset data = .ok result →
        bitAt result bit = false := by
  induction shapes generalizing dest with
  | nil => exact absurd trivial hcopyable
  | cons shape shapes ih =>
      have hfirst := hstop shape List.mem_cons_self
      have hothers : ∀ other ∈ shapes, other.stop + 7 < 2 ^ 63 := fun other hmem =>
        hstop other (List.mem_cons_of_mem _ hmem)
      by_cases hthis : shape.Copyable dest
      · -- the first piece has no ones, and a later one is not copied right
        obtain ⟨pieces, datas, bit, hshapes, hyields, hle, hone, hmisses⟩ :=
          ih (fun hrest => hcopyable ⟨hthis, hrest⟩) hothers
        have hclear : (shape.inBlock shape.clear).Yields read shape.clear :=
          inBlock_yields hblocks hfirst List.length_replicate
        refine ⟨shape.inBlock shape.clear :: pieces, shape.clear :: datas, bit, ?_,
          .cons hclear hyields, by omega, ?_, ?_⟩
        · rw [List.map_cons, hshapes]
          rfl
        · rw [compositeBits, List.getD_append_right _ _ _ _ ?_, Piece.bits_length]
          · change (compositeBits pieces datas).getD (bit - dest - shape.bitSize.toNat) _ = _
            rwa [Nat.sub_sub]
          · rw [Piece.bits_length]
            change shape.bitSize.toNat ≤ bit - dest
            omega
        · intro offset data result hoffset hlength hfits hzero h
          subst hoffset
          obtain ⟨copied, hcopy, hinside, hlength', hnext, hfits', hrest⟩ :=
            readPieces_inBlock hclear hlength hfits h
          exact hmisses _ copied result hnext hlength' hfits'
            (fun k => copyInto_clear hinside hclear.enough (fun k => bitAt_replicate _) hcopy
              (hzero k)) hrest
      · -- the first piece has a one in its last bit, which is the only one
        have hpositive : 0 < shape.bitSize.toNat := by
          refine Nat.pos_of_ne_zero fun hzero => hthis (.inr (.inl ?_))
          exact BitVec.eq_of_toNat_eq hzero
        have hplace : shape.stop - 1 < 8 * shape.blockLength := by
          unfold PieceShape.blockLength PieceShape.stop
          omega
        obtain ⟨block, hlength, hone⟩ : ∃ block : List Byte, block.length = shape.blockLength ∧
            ∀ k, bitAt block k = decide (k = shape.stop - 1) :=
          ⟨singleBit shape.blockLength (shape.stop - 1), singleBit_length _ _,
            bitAt_singleBit hplace⟩
        have hyield : (shape.inBlock block).Yields read block :=
          inBlock_yields hblocks hfirst hlength
        refine ⟨shape.inBlock block :: shapes.map fun shape => shape.inBlock shape.clear,
          block :: shapes.map PieceShape.clear, dest + shape.bitSize.toNat - 1, ?_,
          .cons hyield (clear_yields hblocks hothers), by omega, ?_, ?_⟩
        · rw [List.map_cons, map_of_clear]
          rfl
        · have hlast : dest + shape.bitSize.toNat - 1 - dest < shape.bitSize.toNat := by omega
          rw [compositeBits, List.getD_append _ _ _ _ (by rwa [Piece.bits_length]),
            Piece.bits_getD hlast, hone, decide_eq_true_iff]
          change shape.offset.toNat + _ = shape.offset.toNat + shape.bitSize.toNat - 1
          omega
        · intro offset data result hoffset hlength hfits hzero h
          subst hoffset
          obtain ⟨copied, hcopy, hinside, hlength', hnext, hfits', hrest⟩ :=
            readPieces_inBlock hyield hlength hfits h
          have hmissed : bitAt copied (offset.toNat + (shape.inBlock block).bitSize.toNat - 1) =
              false :=
            copyInto_misses hthis hinside hyield.enough hone hcopy (hzero _)
          exact readPieces_clear hblocks hothers hlength' (hnext ▸ hfits') hrest hmissed

end Misread

section Reading

variable {size : Nat} {shapes : List PieceShape}

/-- What composite locations read right have shapes like, where they fit into the variable. -/
theorem ReadsComposites.copyable (h : ReadsComposites size shapes)
    (hstop : ∀ shape ∈ shapes, shape.stop + 7 < 2 ^ 63) (hfits : totalBits shapes ≤ 8 * size) :
    size < 2 ^ 60 ∧ AllCopyable 0 shapes := by
  let m : Machine := .atRest fun _ => 0
  let read := readSimpleLocation m (fun _ => none) m.process.currentThread
  have hblocks : ∀ block size, read (.data block) size = .ok block := fun _ _ => rfl
  have hsize : size < 2 ^ 60 := by
    have hclear := clear_yields hblocks hstop
    have hcomposed := h m (fun _ => none) none _ _ (map_of_clear shapes) hclear
    obtain ⟨data, hdata, -⟩ := hcomposed.fits (by
      rw [compositeBits_length hclear, map_of_clear]
      exact hfits)
    obtain ⟨zeros, hzeros, -⟩ := bind_eq_ok.mp hdata
    exact (zeroBytes_eq_ok hzeros).1
  refine ⟨hsize, ?_⟩
  by_contra hcopyable
  obtain ⟨pieces, datas, bit, hshapes, hyields, -, hone, hmisses⟩ :=
    exists_misread hblocks hcopyable hstop
  have hcomposed := h m (fun _ => none) none pieces datas hshapes hyields
  obtain ⟨data, hdata, -, hbits⟩ := hcomposed.fits (by
    rw [compositeBits_length hyields, hshapes]
    exact hfits)
  obtain ⟨zeros, hzeros, hpieces⟩ := bind_eq_ok.mp hdata
  obtain ⟨-, rfl⟩ := zeroBytes_eq_ok hzeros
  have hmissed := hmisses 0 _ data rfl (by rwa [List.length_replicate])
    (by rw [List.length_replicate]; omega) (fun k => bitAt_replicate _) hpieces
  rw [hbits bit] at hmissed
  exact Bool.false_ne_true (hmissed.symm.trans hone)

section Composed

variable {m : Machine} {threads : Tid → Option Stack} {otid : Option Tid} {pieces : List Piece}
  {datas : List (List Byte)}

/-- A location whose pieces can be copied is read into the variable. -/
theorem composedOf_copyable
    (hyields : List.Forall₂
      (Piece.Yields (readSimpleLocation m threads (otid.getD m.process.currentThread)))
      pieces datas)
    (hsize : size < 2 ^ 60)
    (hcopyable : totalBits (pieces.map PieceShape.of) ≤ 8 * size →
      AllCopyable 0 (pieces.map PieceShape.of)) :
    ComposedOf (compositeBits pieces datas) size
      (readLocationData m threads size otid (.pieces pieces)) := by
  have htotal := compositeBits_length hyields
  have hzeros : zeroBytes size = .ok (List.replicate size 0) := if_pos hsize
  have hlength : (List.replicate size (0 : Byte)).length < 2 ^ 60 := by
    rwa [List.length_replicate]
  constructor
  · intro hfits
    have hcopyable' : AllCopyable (0 : Word).toNat (pieces.map PieceShape.of) :=
      hcopyable (htotal ▸ hfits)
    obtain ⟨result, hresult, hsame, hbits⟩ := readPieces_placed hyields hcopyable' hlength
      (by rw [List.length_replicate]; exact (Nat.zero_add _).le.trans hfits)
    refine ⟨result, ?_, hsame.trans List.length_replicate, fun i => ?_⟩
    · rw [readLocationData, hzeros, ok_bind, hresult]
    · rw [hbits i]
      change (if 0 ≤ i ∧ i < 0 + (compositeBits pieces datas).length then
        (compositeBits pieces datas).getD (i - 0) false else _) = _
      split
      · rfl
      · rw [bitAt_replicate, List.getD_eq_default _ _ (by omega)]
  · intro hexceeds
    refine ⟨.error "Location pieces exceed the variable's size!", ?_, rfl⟩
    rw [readLocationData, hzeros, ok_bind]
    refine readPieces_exceeds hyields hlength (Nat.zero_le _) ?_
    rw [List.length_replicate]
    exact hexceeds.trans_eq (Nat.zero_add _).symm

end Composed

/-- Composite locations are read right, whatever their pieces are, exactly if they are too
large for the variable or each piece is one of whole bytes or can be counted in 32 bits; or
if no location yields the bits of a piece. -/
theorem readsComposites_iff (size : Nat) (shapes : List PieceShape) :
    ReadsComposites size shapes ↔
      (∃ shape ∈ shapes, 2 ^ 63 ≤ shape.stop + 7) ∨ 8 * size < totalBits shapes ∨
        (size < 2 ^ 60 ∧ AllCopyable 0 shapes) := by
  constructor
  · intro h
    by_cases hlong : ∃ shape ∈ shapes, 2 ^ 63 ≤ shape.stop + 7
    · exact .inl hlong
    by_cases hexceeds : 8 * size < totalBits shapes
    · exact .inr (.inl hexceeds)
    have hstop : ∀ shape ∈ shapes, shape.stop + 7 < 2 ^ 63 := fun shape hmem =>
      Nat.not_le.mp fun hle => hlong ⟨shape, hmem, hle⟩
    exact .inr (.inr (h.copyable hstop (Nat.not_lt.mp hexceeds)))
  · rintro h m threads otid pieces datas rfl hyields
    have hsmall : ¬ ∃ shape ∈ pieces.map PieceShape.of, 2 ^ 63 ≤ shape.stop + 7 := by
      rintro ⟨shape, hmem, hlong⟩
      obtain ⟨piece, hpiece, rfl⟩ := List.mem_map.mp hmem
      obtain ⟨i, hi, rfl⟩ := List.mem_iff_getElem.mp hpiece
      have hlt := (hyields.get hi (hyields.length_eq ▸ hi)).stop_lt
      exact absurd hlong (Nat.not_le.mpr hlt)
    by_cases hsize : size < 2 ^ 60
    · refine composedOf_copyable hyields hsize fun hfits => ?_
      rcases h with hlong | hexceeds | ⟨-, hcopyable⟩
      · exact absurd hlong hsmall
      · omega
      · exact hcopyable
    · -- there is no room for the variable
      have hzeros : zeroBytes size = .error (.exception "bad_alloc") := if_neg hsize
      have htotal := compositeBits_length hyields
      constructor
      · intro hfits
        rcases h with hlong | hexceeds | ⟨hsize', -⟩
        · exact absurd hlong hsmall
        · omega
        · exact absurd hsize' hsize
      · intro _
        refine ⟨.exception "bad_alloc", ?_, rfl⟩
        rw [readLocationData, hzeros, error_bind]

end Reading

namespace CompositeDataWitness

def machine : Machine := .atRest fun _ => 0

/-- One bit of the value 1, far behind its end. -/
def piece : Piece := ⟨.literal 1, 1, 2 ^ 32⟩

/-- The value 1 in 2²⁹ + 1 bytes. -/
def value : List Byte := toLe 8 1 ++ List.replicate (2 ^ 29 + 1 - 8) 0

theorem readValue (tid : Tid) (size : Nat) (hsize : size < 2 ^ 60) (hlong : 8 ≤ size) :
    readSimpleLocation machine (fun _ => none) tid (.literal 1) size =
      .ok (toLe 8 1 ++ List.replicate (size - 8) 0) := by
  rw [readSimpleLocation, zeroBytes, if_pos hsize, ok_bind, List.drop_replicate,
    List.take_of_length_le (by rwa [toLe_length])]
  rfl

theorem yields (tid : Tid) :
    piece.Yields (readSimpleLocation machine (fun _ => none) tid) value := by
  have hlength : value.length = 2 ^ 29 + 1 := by
    rw [value, List.length_append, toLe_length, List.length_replicate]
    omega
  have hoffset : piece.offset.toNat = 2 ^ 32 := by decide
  have hbitSize : piece.bitSize.toNat = 1 := by decide
  refine ⟨?_, ?_, ?_⟩
  · have hbytes : piece.srcBytes = 2 ^ 29 + 1 := by decide
    rw [hbytes]
    exact readValue tid _ (by decide) (by decide)
  · rw [hlength, hoffset, hbitSize]
    decide
  · rw [hlength]
    decide

theorem bit_zero : compositeBits [piece] [value] = [false] := by
  have hoffset : piece.offset.toNat = 2 ^ 32 := by decide
  have hbitSize : piece.bitSize.toNat = 1 := by decide
  have hbit : bitAt value (2 ^ 32 + 0) = false := by
    rw [value, bitAt_append, bitAt_replicate, toLe_length, if_neg (by decide)]
  have hbits : piece.bits value = [false] := by
    rw [Piece.bits, hbitSize, hoffset, List.range_one, List.map_singleton, hbit]
  rw [compositeBits, hbits]
  rfl

theorem copied (rest : List Byte) :
    piece.copyInto [0] 0 (toLe 8 1 ++ rest) = .ok [1] := by
  have hbits : ¬ piece.ByteAligned 0 := by decide
  rw [Piece.copyInto, if_neg hbits]
  rfl

theorem readPiece : readLocationData machine (fun _ => none) 1 none (.pieces [piece]) =
    .ok [1] := by
  have hzeros : zeroBytes 1 = .ok [0] := by decide
  rw [readLocationData, hzeros, ok_bind,
    readPieces_cons (yields _) (by decide) (by decide) (copied _)]
  rfl

end CompositeDataWitness

open CompositeDataWitness in
/-- A bit of a literal behind its first 2³² bits is zero; its first bit is read. -/
theorem far_bit_misread :
    ¬ ComposedOf (compositeBits [piece] [value]) 1
        (readLocationData machine (fun _ => none) 1 none (.pieces [piece])) ∧
      ¬ ReadsComposites 1 [⟨1, 2 ^ 32⟩] := by
  have hmisread : ¬ ComposedOf (compositeBits [piece] [value]) 1
      (readLocationData machine (fun _ => none) 1 none (.pieces [piece])) := by
    intro h
    rw [bit_zero, readPiece] at h
    obtain ⟨data, hdata, -, hbits⟩ := h.fits (by decide)
    cases hdata
    exact absurd (hbits 0) (by decide)
  exact ⟨hmisread, fun h => hmisread
    (h machine (fun _ => none) none [piece] [value] rfl (.cons (yields _) .nil))⟩

end Gsdb
