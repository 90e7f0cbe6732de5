/-
How attribute values are encoded, and whether the table by which an attribute is
skipped agrees with the tables by which it is decoded.
-/
import Gsdb.DebugInfo

namespace Gsdb

open ByteMemory ByteCursor

/-- Bytes that are an unsigned LEB128 number. -/
def IsUleb (bytes : List Byte) (value : Word) : Prop :=
  (Cursor.mk bytes 0).uleb128 = some (value, ⟨bytes, bytes.length⟩)

theorem IsUleb.uleb128 {bytes after : List Byte} {value : Word} (h : IsUleb bytes value)
    {cur : Cursor} (hcur : cur.rest = bytes ++ after) :
    cur.uleb128 = some (value, cur.advance bytes.length) := by
  obtain ⟨⟨res, shift, last, count⟩, hloop, hout⟩ := Option.map_eq_some_iff.mp h
  have hcount : count = bytes.length := by
    have hpos := congrArg (fun out => out.2.pos) hout
    simpa using hpos
  have hvalue : res = value := congrArg Prod.fst hout
  have hbytes : lebLoop 0 0 bytes = some (res, shift, last, count) := hloop
  rw [Cursor.uleb128, hcur, lebLoop_append after hbytes, Option.map_some, hcount, hvalue]

theorem IsUleb.lebSize {bytes : List Byte} {value : Word} (h : IsUleb bytes value) :
    lebSize bytes = some bytes.length := by
  obtain ⟨n, hsize, hnext⟩ := Cursor.uleb128_eq_some h
  have hpos : bytes.length = 0 + n := congrArg Cursor.pos hnext
  rw [hpos, Nat.zero_add]
  exact hsize

/-- The sizes of forms with a fixed size. -/
def Form.fixedSize : Form → Option Nat
  | .flagPresent => some 0
  | .data1 | .ref1 | .flag => some 1
  | .data2 | .ref2 => some 2
  | .data4 | .ref4 | .refAddr | .secOffset | .strp => some 4
  | .data8 | .addr | .ref8 | .refSig8 => some 8
  | _ => none

/-- The forms that `skip_form` has a case for. -/
def Form.isSkippable : Form → Bool
  | .ref8 | .refSig8 | .other _ => false
  | _ => true

/-- Blocks by the width of their count. -/
def Form.countWidth : Form → Option Nat
  | .block1 => some 1
  | .block2 => some 2
  | .block4 => some 4
  | _ => none

/-- The encodings of the values of a form, in 32-bit DWARF 4. -/
inductive EncodesForm : Form → List Byte → Prop where
  | fixed {form : Form} {bytes : List Byte} (hsize : form.fixedSize = some bytes.length) :
      EncodesForm form bytes
  | leb {form : Form} {bytes : List Byte} (hform : form = .sdata ∨ form = .udata ∨ form = .refUdata)
      (hsize : lebSize bytes = some bytes.length) : EncodesForm form bytes
  | counted {form : Form} {count content : List Byte} (hwidth : form.countWidth = some count.length)
      (hcount : ofLe count = content.length) : EncodesForm form (count ++ content)
  | block {form : Form} {count content : List Byte} {size : Word}
      (hform : form = .block ∨ form = .exprloc) (hcount : IsUleb count size)
      (hsize : size.toNat = content.length) : EncodesForm form (count ++ content)
  | string {text : List Byte} (htext : 0 ∉ text) : EncodesForm .string (text ++ [0])
  | indirect {first inner : List Byte} {code : Word} (hcode : IsUleb first code)
      (hskippable : (Form.ofCode code).isSkippable = true)
      (hinner : EncodesForm (.ofCode code) inner) : EncodesForm .indirect (first ++ inner)

section Skipping

variable {form : Form} {bytes after : List Byte} {cur : Cursor}

theorem rest_advance_append (hcur : cur.rest = bytes ++ after) :
    (cur.advance bytes.length).rest = after := by
  rw [Cursor.rest_advance, hcur, List.drop_left]

/-- A little-endian number in front of other bytes. -/
theorem fixedInt_append {w : Nat} (hcur : cur.rest = bytes ++ after)
    (hlength : w / 8 = bytes.length) (hwidth : 256 ^ bytes.length = 2 ^ w) :
    ∃ value : BitVec w, cur.fixedInt w = some (value, cur.advance bytes.length) ∧
      value.toNat = ofLe bytes := by
  refine ⟨BitVec.ofNat w (ofLe bytes), ?_, ?_⟩
  · rw [Cursor.fixedInt_of_le (by rw [hcur, List.length_append]; omega), hcur, hlength,
      List.take_left]
  · rw [BitVec.toNat_ofNat, Nat.mod_eq_of_lt (hwidth ▸ ofLe_lt bytes)]

theorem takeWhile_text {text : List Byte} (htext : 0 ∉ text) (after : List Byte) :
    (text ++ 0 :: after).takeWhile (fun byte => decide (byte ≠ 0)) = text := by
  induction text with
  | nil => rfl
  | cons byte rest ih =>
      have hbyte : byte ≠ 0 := fun heq => htext (heq ▸ List.mem_cons_self)
      have hrest : (0 : Byte) ∉ rest := fun hmem => htext (List.mem_cons_of_mem _ hmem)
      rw [List.cons_append, List.takeWhile_cons, if_pos (by simpa using hbyte), ih hrest]

theorem skipFormLoop_fixed (rounds : Nat) {n : Nat} (hsize : form.fixedSize = some n)
    (hskippable : form.isSkippable = true) (cur : Cursor) :
    skipFormLoop (rounds + 1) form cur = .ok (cur.advance n) := by
  cases form <;> cases hsize <;> first | rfl | cases hskippable

/-- Every form with a case is skipped by exactly its encoding. -/
theorem skipFormLoop_encoded (h : EncodesForm form bytes) (hskippable : form.isSkippable = true)
    (hcur : cur.rest = bytes ++ after) {rounds : Nat} (hrounds : bytes.length < rounds) :
    skipFormLoop rounds form cur = .ok (cur.advance bytes.length) := by
  induction h generalizing cur rounds with
  | @fixed form bytes hsize =>
      obtain ⟨rounds, rfl⟩ : ∃ k, rounds = k + 1 := ⟨rounds - 1, by omega⟩
      exact skipFormLoop_fixed rounds hsize hskippable cur
  | @leb form bytes hform hsize =>
      obtain ⟨rounds, rfl⟩ : ∃ k, rounds = k + 1 := ⟨rounds - 1, by omega⟩
      have hleb : lebSize cur.rest = some bytes.length := by
        rw [hcur]
        exact lebSizeUpTo_append after hsize
      obtain ⟨unsigned, hunsigned⟩ := Cursor.uleb128_of_size hleb
      obtain ⟨signed, hsigned⟩ := Cursor.sleb128_of_size hleb
      rcases hform with rfl | rfl | rfl
      · simp only [skipFormLoop, hsigned, inBounds_some, ok_bind]
        rfl
      · simp only [skipFormLoop, hunsigned, inBounds_some, ok_bind]
        rfl
      · simp only [skipFormLoop, hunsigned, inBounds_some, ok_bind]
        rfl
  | @counted form count content hwidth hcount =>
      obtain ⟨rounds, rfl⟩ : ∃ k, rounds = k + 1 := ⟨rounds - 1, by omega⟩
      rw [List.append_assoc] at hcur
      rw [List.length_append, ← hcount, ← Cursor.advance_advance]
      cases form <;> simp only [Form.countWidth, Option.some.injEq, reduceCtorEq] at hwidth
      · obtain ⟨value, hread, hvalue⟩ :=
          fixedInt_append (w := 16) hcur hwidth (by rw [← hwidth]; rfl)
        simp only [skipFormLoop, Cursor.u16, hread, inBounds_some, ok_bind, hvalue]
        rfl
      · obtain ⟨value, hread, hvalue⟩ :=
          fixedInt_append (w := 32) hcur hwidth (by rw [← hwidth]; rfl)
        simp only [skipFormLoop, Cursor.u32, hread, inBounds_some, ok_bind, hvalue]
        rfl
      · obtain ⟨value, hread, hvalue⟩ :=
          fixedInt_append (w := 8) hcur hwidth (by rw [← hwidth]; rfl)
        simp only [skipFormLoop, Cursor.u8, hread, inBounds_some, ok_bind, hvalue]
        rfl
  | @block form count content size hform hcount hsize =>
      obtain ⟨rounds, rfl⟩ : ∃ k, rounds = k + 1 := ⟨rounds - 1, by omega⟩
      rw [List.append_assoc] at hcur
      have hread := hcount.uleb128 hcur
      rw [List.length_append, ← hsize, ← Cursor.advance_advance]
      rcases hform with rfl | rfl
      · simp only [skipFormLoop, hread, inBounds_some, ok_bind]
        rfl
      · simp only [skipFormLoop, hread, inBounds_some, ok_bind]
        rfl
  | @string text htext =>
      obtain ⟨rounds, rfl⟩ : ∃ k, rounds = k + 1 := ⟨rounds - 1, by omega⟩
      rw [List.append_assoc, List.singleton_append] at hcur
      simp only [skipFormLoop, Cursor.string, hcur, takeWhile_text htext, List.length_append,
        List.length_singleton]
  | @indirect first inner code hcode hinner hencodes ih =>
      obtain ⟨rounds, rfl⟩ : ∃ k, rounds = k + 1 := ⟨rounds - 1, by omega⟩
      rw [List.append_assoc] at hcur
      have hread := hcode.uleb128 hcur
      have hpos := lebSize_pos hcode.lebSize
      simp only [skipFormLoop, hread, inBounds_some, ok_bind]
      rw [List.length_append, ← Cursor.advance_advance]
      refine ih hinner (rest_advance_append hcur) ?_
      rw [List.length_append] at hrounds
      omega

theorem skipForm_encoded (h : EncodesForm form bytes) (hskippable : form.isSkippable = true)
    (hcur : cur.rest = bytes ++ after) : skipForm form cur = .ok (cur.advance bytes.length) := by
  refine skipFormLoop_encoded h hskippable hcur ?_
  rw [hcur, List.length_append]
  omega

end Skipping

/-- The accessors of `attr` that decode a value in the unit. -/
inductive Accessor where
  | asAddress
  | asSectionOffset
  | asInt
  | asBlock
  | asReference
  | asString
  | asExpression
deriving DecidableEq, Repr

/-- An accessor returns a value.  `as_expression` does not look at the form; it is
called for `DW_FORM_exprloc` only. -/
def Accessor.decodes (dw : Dwarf) (attr : Attr) : Accessor → Prop
  | .asAddress => ∃ value, attr.asAddress = .ok value
  | .asSectionOffset => ∃ value, attr.asSectionOffset = .ok value
  | .asInt => ∃ value, attr.asInt = .ok value
  | .asBlock => ∃ value, attr.asBlock = .ok value
  | .asReference => ∃ value, attr.asReference dw = .ok value
  | .asString => ∃ value, attr.asString dw = .ok value
  | .asExpression => attr.form = .exprloc ∧ ∃ value, attr.asExpression = .ok value

/-- The entry that an encoded reference leads to: by its offset in the section or
in its unit. -/
def referenced (dw : Dwarf) (cu : CompileUnit) (form : Form) (bytes : List Byte) :
    Except Failure Die :=
  match form with
  | .refAddr => Attr.dieInSection dw (ofLe bytes)
  | .refUdata => do
      let (offset, _) ← inBounds (Cursor.mk bytes 0).uleb128
      parseDie cu offset.toNat
  | _ => parseDie cu (ofLe bytes)

/-- The reference forms that `skip_form` accepts. -/
def Form.isReference : Form → Bool
  | .ref1 | .ref2 | .ref4 | .refUdata | .refAddr => true
  | _ => false

/-- Skipping and decoding agree on a form: what some accessor decodes is skipped
by exactly its encoding, and the references that are skipped are decoded. -/
structure FormAgrees (form : Form) : Prop where
  skipped : ∀ (accessor : Accessor) (dw : Dwarf) (attr : Attr), attr.form = form →
    accessor.decodes dw attr → ∀ (bytes after : List Byte) (cur : Cursor), EncodesForm form bytes →
      cur.rest = bytes ++ after → skipForm form cur = .ok (cur.advance bytes.length)
  decoded : form.isReference = true → ∀ (dw : Dwarf) (attr : Attr) (bytes after : List Byte),
    attr.form = form → EncodesForm form bytes → attr.cursor.rest = bytes ++ after →
      attr.asReference dw = referenced dw attr.cu form bytes

section Agreement

variable {form : Form} {dw : Dwarf} {attr : Attr}

/-- The forms that some accessor has a case for. -/
theorem Accessor.decodes_skippable {accessor : Accessor} (h : accessor.decodes dw attr)
    (hform : attr.form ≠ .ref8) : attr.form.isSkippable = true := by
  obtain ⟨cu, type, form, location⟩ := attr
  cases accessor with
  | asAddress =>
      obtain ⟨value, hvalue⟩ := h
      obtain ⟨u, hcheck, -⟩ := bind_eq_ok.mp hvalue
      have hcase : form = .addr := require_eq_ok hcheck
      rw [hcase]
      rfl
  | asSectionOffset =>
      obtain ⟨value, hvalue⟩ := h
      obtain ⟨u, hcheck, -⟩ := bind_eq_ok.mp hvalue
      have hcase : form = .secOffset := require_eq_ok hcheck
      rw [hcase]
      rfl
  | asInt =>
      obtain ⟨value, hvalue⟩ := h
      cases form <;> first | rfl | cases hvalue
  | asBlock =>
      obtain ⟨value, hvalue⟩ := h
      cases form <;> first | rfl | cases hvalue
  | asReference =>
      obtain ⟨value, hvalue⟩ := h
      cases form <;> first | rfl | cases hvalue | exact absurd rfl hform
  | asString =>
      obtain ⟨value, hvalue⟩ := h
      cases form <;> first | rfl | cases hvalue
  | asExpression =>
      have hcase : form = .exprloc := h.1
      rw [hcase]
      rfl

/-- An encoding of a fixed size has that size. -/
theorem EncodesForm.length_of_fixed {bytes : List Byte} {n : Nat} (h : EncodesForm form bytes)
    (hsize : form.fixedSize = some n) : bytes.length = n := by
  cases h with
  | fixed hfixed => exact Option.some.inj (hfixed.symm.trans hsize)
  | leb hform => rcases hform with rfl | rfl | rfl <;> cases hsize
  | counted hwidth => cases form <;> first | cases hwidth | cases hsize
  | block hform => rcases hform with rfl | rfl <;> cases hsize
  | string => cases hsize
  | indirect => cases hsize

theorem asReference_fixed {bytes after : List Byte} (hform : attr.form = form)
    (hreference : form = .ref1 ∨ form = .ref2 ∨ form = .ref4 ∨ form = .refAddr)
    (h : EncodesForm form bytes) (hcur : attr.cursor.rest = bytes ++ after) :
    attr.asReference dw = referenced dw attr.cu form bytes := by
  rcases hreference with rfl | rfl | rfl | rfl
  · have hlength : bytes.length = 1 := h.length_of_fixed rfl
    obtain ⟨value, hread, hvalue⟩ :=
      fixedInt_append (w := 8) hcur hlength.symm (by rw [hlength]; rfl)
    simp only [Attr.asReference, hform, Cursor.u8, hread, inBounds_some, ok_bind, hvalue,
      referenced]
  · have hlength : bytes.length = 2 := h.length_of_fixed rfl
    obtain ⟨value, hread, hvalue⟩ :=
      fixedInt_append (w := 16) hcur hlength.symm (by rw [hlength]; rfl)
    simp only [Attr.asReference, hform, Cursor.u16, hread, inBounds_some, ok_bind, hvalue,
      referenced]
  · have hlength : bytes.length = 4 := h.length_of_fixed rfl
    obtain ⟨value, hread, hvalue⟩ :=
      fixedInt_append (w := 32) hcur hlength.symm (by rw [hlength]; rfl)
    simp only [Attr.asReference, hform, Cursor.u32, hread, inBounds_some, ok_bind, hvalue,
      referenced]
  · have hlength : bytes.length = 4 := h.length_of_fixed rfl
    obtain ⟨value, hread, hvalue⟩ :=
      fixedInt_append (w := 32) hcur hlength.symm (by rw [hlength]; rfl)
    simp only [Attr.asReference, hform, Cursor.u32, hread, inBounds_some, ok_bind, hvalue,
      referenced]

end Agreement

namespace AttributeFormsWitness

/-- A unit whose first eight bytes are the reference to the null entry that
follows them. -/
def cu : CompileUnit := ⟨0, [8, 0, 0, 0, 0, 0, 0, 0, 0], []⟩

def dwarf : Dwarf := ⟨cu.data, [], [cu]⟩

/-- `DW_FORM_ref8` is decoded but not skipped. -/
theorem ref8_not_agrees : ¬ FormAgrees .ref8 := by
  intro h
  have hskip := h.skipped .asReference dwarf ⟨cu, 0x49, .ref8, 0⟩ rfl ⟨⟨cu, 9, none⟩, by decide⟩
    [8, 0, 0, 0, 0, 0, 0, 0] [0] ⟨cu.data, 0⟩ (.fixed rfl) rfl
  cases hskip

/-- `DW_FORM_ref_udata` is skipped but not decoded. -/
theorem refUdata_not_agrees : ¬ FormAgrees .refUdata := by
  intro h
  have hdecoded := h.decoded rfl dwarf ⟨cu, 0x49, .refUdata, 0⟩ [8] [0, 0, 0, 0, 0, 0, 0, 0] rfl
    (.leb (.inr (.inr rfl)) rfl) rfl
  have hparsed : referenced dwarf cu .refUdata [8] = .ok ⟨cu, 9, none⟩ := by decide
  rw [hparsed] at hdecoded
  cases hdecoded

/-- Skipping and decoding do not agree. -/
theorem forms_not_agree : ¬ ∀ form : Form, FormAgrees form := by
  intro hall
  exact ref8_not_agrees (hall .ref8)

end AttributeFormsWitness

/-- Skipping and decoding agree on a form exactly if it is neither of the two
that one table has and the other lacks. -/
theorem formAgrees_iff (form : Form) : FormAgrees form ↔ form ≠ .ref8 ∧ form ≠ .refUdata := by
  constructor
  · intro h
    refine ⟨?_, ?_⟩
    · rintro rfl
      exact AttributeFormsWitness.ref8_not_agrees h
    · rintro rfl
      exact AttributeFormsWitness.refUdata_not_agrees h
  · rintro ⟨href8, hrefUdata⟩
    refine ⟨?_, ?_⟩
    · rintro accessor dw attr rfl hdecodes bytes after cur hbytes hcur
      exact skipForm_encoded hbytes (Accessor.decodes_skippable hdecodes href8) hcur
    · intro hreference dw attr bytes after hform hbytes hcur
      refine asReference_fixed hform ?_ hbytes hcur
      cases form <;> simp_all [Form.isReference]

end Gsdb
