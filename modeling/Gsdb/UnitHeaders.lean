/-
The units of `.debug_info`.  The cursor goes on by the size of the unit that was parsed, which
is the 32-bit length in its header and four more, in 32 bits.
-/
import Gsdb.AbbrevTables

namespace Gsdb

open ByteMemory ByteCursor

/-- What stands in front of the entries of a unit. -/
structure UnitHeader where
  unitLength : BitVec 32
  version : BitVec 16
  abbrevOffset : BitVec 32
  addressSize : BitVec 8
deriving DecidableEq, Repr

/-- A unit by the span of its data and the offset of its abbreviations: what a `compile_unit` is
constructed from. -/
structure UnitSpan where
  start : Nat
  size : BitVec 32
  abbrevOffset : BitVec 32
deriving DecidableEq, Repr

/-- The fields of a header, one after the other. -/
def unitHeader (cur : Cursor) : Option UnitHeader := do
  let (size, cur) ← cur.u32
  let (version, cur) ← cur.u16
  let (abbrevOffset, cur) ← cur.u32
  let (addressSize, _) ← cur.u8
  pure ⟨size, version, abbrevOffset, addressSize⟩

/-- `parse_compile_unit`. -/
def parseCompileUnit (cur : Cursor) : Except Failure UnitSpan := do
  let header ← inBounds (unitHeader cur)
  require (header.unitLength ≠ 0xffffffff) "Only DWARF32 is supported!"
  require (header.version = 4) "Only DWARF version 4 is supported!"
  require (header.addressSize = 8) "Invalid address size for DWARF!"
  pure ⟨cur.pos, header.unitLength + 4, header.abbrevOffset⟩

/-- The loop of `parse_compile_units`, given up after a number of rounds. -/
def parseCompileUnitsFrom : Nat → Cursor → Except Failure (List UnitSpan)
  | 0, _ => .error .schedule
  | rounds + 1, cur =>
      if cur.finished then .ok []
      else do
        let unit ← parseCompileUnit cur
        let units ← parseCompileUnitsFrom rounds (cur.advance unit.size.toNat)
        pure (unit :: units)

/-- `parse_compile_units`. -/
def parseCompileUnits (rounds : Nat) (debugInfo : List Byte) : Except Failure (List UnitSpan) :=
  parseCompileUnitsFrom rounds ⟨debugInfo, 0⟩

/-- Spans that are not empty, one directly behind the other from a position on. -/
inductive Tiles : Nat → List UnitSpan → Prop where
  | nil {pos : Nat} : Tiles pos []
  | cons {unit : UnitSpan} {units : List UnitSpan} (hsize : 0 < unit.size.toNat)
      (hrest : Tiles (unit.start + unit.size.toNat) units) : Tiles unit.start (unit :: units)

/-- Parsing comes to an end, with units that tile the section from its first byte on. -/
def ParsesUnits (debugInfo : List Byte) : Prop :=
  ∃ rounds units, parseCompileUnits rounds debugInfo = .ok units ∧ Tiles 0 units

/-- Where units start: at the first byte, and where the span of another one ends. -/
inductive UnitAt (debugInfo : List Byte) : Nat → Prop where
  | first : UnitAt debugInfo 0
  | next {pos : Nat} {header : UnitHeader} (hunit : UnitAt debugInfo pos)
      (hinside : pos < debugInfo.length) (hheader : unitHeader ⟨debugInfo, pos⟩ = some header) :
      UnitAt debugInfo (pos + (header.unitLength + 4).toNat)

/-- The checks of `parse_compile_unit`. -/
def UnitHeader.Supported (header : UnitHeader) : Prop :=
  header.unitLength ≠ 0xffffffff ∧ header.version = 4 ∧ header.addressSize = 8

/-- No header of a unit fails a check. -/
def HeadersSupported (debugInfo : List Byte) : Prop :=
  ∀ pos header, UnitAt debugInfo pos → pos < debugInfo.length →
    unitHeader ⟨debugInfo, pos⟩ = some header → header.Supported

/-- The header of every unit is inside the section, and its length is not the one whose sum with
four is zero in 32 bits. -/
def UnitsAdvance (debugInfo : List Byte) : Prop :=
  ∀ pos, UnitAt debugInfo pos → pos < debugInfo.length →
    ∃ header, unitHeader ⟨debugInfo, pos⟩ = some header ∧ header.unitLength ≠ 0xfffffffc

section Units

variable {debugInfo : List Byte} {pos : Nat} {header : UnitHeader}

/-- A unit whose header passes the checks is the span that its length says. -/
theorem parseCompileUnit_supported (hheader : unitHeader ⟨debugInfo, pos⟩ = some header)
    (hsupported : header.Supported) : parseCompileUnit ⟨debugInfo, pos⟩ =
      .ok ⟨pos, header.unitLength + 4, header.abbrevOffset⟩ := by
  obtain ⟨hlength, hversion, haddress⟩ := hsupported
  rw [parseCompileUnit, hheader, inBounds_some, ok_bind, require, if_pos hlength, ok_bind, require,
    if_pos hversion, ok_bind, require, if_pos haddress, ok_bind]
  rfl

theorem parseCompileUnit_cut (hheader : unitHeader ⟨debugInfo, pos⟩ = none) :
    parseCompileUnit ⟨debugInfo, pos⟩ = .error (.undefined "read outside the buffer") := by
  rw [parseCompileUnit, hheader]
  rfl

theorem advance_zero_iff {length : BitVec 32} :
    (length + 4).toNat = 0 ↔ length = 0xfffffffc := by
  constructor
  · intro h
    bv_omega
  · rintro rfl
    rfl

/-- A round of the loop at a unit. -/
theorem parseCompileUnitsFrom_unit (hinside : pos < debugInfo.length)
    (hheader : unitHeader ⟨debugInfo, pos⟩ = some header) (hsupported : header.Supported)
    (rounds : Nat) :
    parseCompileUnitsFrom (rounds + 1) ⟨debugInfo, pos⟩ =
      (parseCompileUnitsFrom rounds ⟨debugInfo, pos + (header.unitLength + 4).toNat⟩).map
        fun units => ⟨pos, header.unitLength + 4, header.abbrevOffset⟩ :: units := by
  have hopen : (Cursor.mk debugInfo pos).finished = false :=
    decide_eq_false (by simpa using hinside)
  rw [parseCompileUnitsFrom, hopen, if_neg Bool.false_ne_true,
    parseCompileUnit_supported hheader hsupported, ok_bind]
  change (parseCompileUnitsFrom rounds ⟨debugInfo, pos + (header.unitLength + 4).toNat⟩ >>= _) = _
  cases parseCompileUnitsFrom rounds ⟨debugInfo, pos + (header.unitLength + 4).toNat⟩ <;> rfl

/-- The loop ends when every unit advances it. -/
theorem parseCompileUnitsFrom_advances (hsupported : HeadersSupported debugInfo)
    (hadvance : UnitsAdvance debugInfo) (rest : Nat) : ∀ pos, UnitAt debugInfo pos →
      debugInfo.length - pos ≤ rest → ∃ rounds units,
        parseCompileUnitsFrom rounds ⟨debugInfo, pos⟩ = .ok units ∧ Tiles pos units := by
  induction rest with
  | zero =>
      intro pos hunit hrest
      have hfinished : (Cursor.mk debugInfo pos).finished = true := decide_eq_true (by simp; omega)
      exact ⟨1, [], by rw [parseCompileUnitsFrom, if_pos hfinished], .nil⟩
  | succ rest ih =>
      intro pos hunit hrest
      by_cases hinside : pos < debugInfo.length
      · obtain ⟨header, hheader, hlength⟩ := hadvance pos hunit hinside
        have hforward : 0 < (header.unitLength + 4).toNat :=
          Nat.pos_of_ne_zero (mt advance_zero_iff.mp hlength)
        obtain ⟨rounds, units, hunits, htiles⟩ :=
          ih _ (.next hunit hinside hheader) (by omega)
        refine ⟨rounds + 1, ⟨pos, header.unitLength + 4, header.abbrevOffset⟩ :: units, ?_, ?_⟩
        · rw [parseCompileUnitsFrom_unit hinside hheader (hsupported _ _ hunit hinside hheader),
            hunits]
          rfl
        · have htiles' : Tiles (pos + (header.unitLength + 4).toNat) units := htiles
          exact @Tiles.cons ⟨pos, header.unitLength + 4, header.abbrevOffset⟩ units hforward htiles'
      · have hfinished : (Cursor.mk debugInfo pos).finished = true :=
          decide_eq_true (by simpa using hinside)
        exact ⟨1, [], by rw [parseCompileUnitsFrom, if_pos hfinished], .nil⟩

/-- At a unit that does not advance it the loop goes on forever. -/
theorem parseCompileUnitsFrom_stuck (hinside : pos < debugInfo.length)
    (hheader : unitHeader ⟨debugInfo, pos⟩ = some header) (hsupported : header.Supported)
    (hstuck : header.unitLength = 0xfffffffc) (rounds : Nat) :
    parseCompileUnitsFrom rounds ⟨debugInfo, pos⟩ = .error .schedule := by
  induction rounds with
  | zero => rfl
  | succ rounds ih =>
      have hplace : pos + (header.unitLength + 4).toNat = pos := by
        rw [advance_zero_iff.mpr hstuck, Nat.add_zero]
      rw [parseCompileUnitsFrom_unit hinside hheader hsupported, hplace, ih]
      rfl

/-- What a run that ends says of the units from a position on. -/
theorem unit_of_parse {rounds : Nat} {units : List UnitSpan} (hinside : pos < debugInfo.length)
    (hsupported : ∀ header, unitHeader ⟨debugInfo, pos⟩ = some header → header.Supported)
    (h : parseCompileUnitsFrom rounds ⟨debugInfo, pos⟩ = .ok units) :
    ∃ header rounds' units', unitHeader ⟨debugInfo, pos⟩ = some header ∧
      header.unitLength ≠ 0xfffffffc ∧
      parseCompileUnitsFrom rounds' ⟨debugInfo, pos + (header.unitLength + 4).toNat⟩ =
        .ok units' := by
  cases hheader : unitHeader ⟨debugInfo, pos⟩ with
  | none =>
      cases rounds with
      | zero => cases h
      | succ rounds =>
          have hopen : (Cursor.mk debugInfo pos).finished = false :=
            decide_eq_false (by simpa using hinside)
          rw [parseCompileUnitsFrom, hopen, if_neg Bool.false_ne_true,
            parseCompileUnit_cut hheader] at h
          cases h
  | some header =>
      have hpasses := hsupported header hheader
      have hlength : header.unitLength ≠ 0xfffffffc := by
        intro hstuck
        rw [parseCompileUnitsFrom_stuck hinside hheader hpasses hstuck] at h
        cases h
      cases rounds with
      | zero => cases h
      | succ rounds =>
          rw [parseCompileUnitsFrom_unit hinside hheader hpasses] at h
          cases hunits : parseCompileUnitsFrom rounds
              ⟨debugInfo, pos + (header.unitLength + 4).toNat⟩ with
          | error failure =>
              rw [hunits] at h
              cases h
          | ok units' => exact ⟨header, rounds, units', rfl, hlength, hunits⟩

theorem parses_at {rounds : Nat} {units : List UnitSpan} (hsupported : HeadersSupported debugInfo)
    (h : parseCompileUnits rounds debugInfo = .ok units) (hunit : UnitAt debugInfo pos) :
    ∃ rounds' units', parseCompileUnitsFrom rounds' ⟨debugInfo, pos⟩ = .ok units' := by
  induction hunit with
  | first => exact ⟨rounds, units, h⟩
  | @next pos header hunit hinside hheader ih =>
      obtain ⟨rounds', units', hparsed⟩ := ih
      obtain ⟨other, rounds'', units'', hother, -, hrest⟩ :=
        unit_of_parse hinside (fun header => hsupported pos header hunit hinside) hparsed
      cases hheader.symm.trans hother
      exact ⟨rounds'', units'', hrest⟩

end Units

/-- Where no header fails a check, parsing ends with units that tile the section exactly if every
header is inside it and none has the length that does not advance the cursor. -/
theorem parsesUnits_iff {debugInfo : List Byte} (hsupported : HeadersSupported debugInfo) :
    ParsesUnits debugInfo ↔ UnitsAdvance debugInfo := by
  constructor
  · rintro ⟨rounds, units, hparsed, -⟩ pos hunit hinside
    obtain ⟨rounds', units', hfrom⟩ := parses_at hsupported hparsed hunit
    obtain ⟨header, -, -, hheader, hlength, -⟩ :=
      unit_of_parse hinside (fun header => hsupported pos header hunit hinside) hfrom
    exact ⟨header, hheader, hlength⟩
  · intro hadvance
    exact parseCompileUnitsFrom_advances hsupported hadvance debugInfo.length 0 .first (by omega)

namespace UnitHeadersWitness

/-- A header with a length, and nothing behind it. -/
def unitWith (length : BitVec 32) : List Byte := toLe 4 length.toNat ++ [4, 0, 0, 0, 0, 0, 8]

theorem unitWith_header (length : BitVec 32) :
    unitHeader ⟨unitWith length, 0⟩ = some ⟨length, 4, 0, 8⟩ := by
  have hbytes : ∃ a b c d, toLe 4 length.toNat = [a, b, c, d] := ⟨_, _, _, _, rfl⟩
  obtain ⟨a, b, c, d, hbytes⟩ := hbytes
  have hlength : BitVec.ofNat 32 (ofLe [a, b, c, d]) = length := by
    rw [← hbytes, ofLe_toLe]
    apply BitVec.eq_of_toNat_eq
    rw [BitVec.toNat_ofNat]
    have hbound := length.isLt
    omega
  rw [unitWith, hbytes]
  change some (UnitHeader.mk (BitVec.ofNat 32 (ofLe [a, b, c, d])) 4 0 8) = _
  rw [hlength]

/-- The header of the unit is the only one, where the next unit is the same or starts behind the
section. -/
theorem unitWith_supported {length : BitVec 32} (hlength : length ≠ 0xffffffff)
    (hnext : (length + 4).toNat = 0 ∨ 11 ≤ (length + 4).toNat) :
    HeadersSupported (unitWith length) := by
  have hplace : ∀ pos, UnitAt (unitWith length) pos → pos < 11 → pos = 0 := by
    intro pos hunit
    induction hunit with
    | first =>
        intro _
        rfl
    | @next pos header hunit hinside hheader ih =>
        intro hinside'
        have hstart := ih (by omega)
        subst hstart
        have hsame := hheader.symm.trans (unitWith_header length)
        cases hsame
        simp only at hinside' ⊢
        omega
  intro pos header hunit hinside hheader
  have hstart := hplace pos hunit (by simpa [unitWith] using hinside)
  subst hstart
  cases hheader.symm.trans (unitWith_header length)
  exact ⟨hlength, rfl, rfl⟩

end UnitHeadersWitness

open UnitHeadersWitness in
/-- A unit of the greatest length but three is parsed again and again. -/
theorem wrappedLength_never_ends :
    ¬ ∀ debugInfo, HeadersSupported debugInfo → ParsesUnits debugInfo := by
  intro hall
  have hsupported : HeadersSupported (unitWith 0xfffffffc) :=
    unitWith_supported (by decide) (.inl rfl)
  obtain ⟨rounds, units, hparsed, -⟩ := hall _ hsupported
  have hinside : 0 < (unitWith 0xfffffffc).length := by decide
  have hheader := unitWith_header 0xfffffffc
  have hstuck := parseCompileUnitsFrom_stuck hinside hheader
    (hsupported 0 _ .first hinside hheader) rfl rounds
  cases hparsed.symm.trans hstuck

open UnitHeadersWitness in
theorem parsesUnits_iff_one : ParsesUnits (unitWith 7) ↔ UnitsAdvance (unitWith 7) :=
  parsesUnits_iff (unitWith_supported (by decide) (.inr (by decide)))

end Gsdb
