/-
Debugging information entries: the forms of attribute values, the abbreviations
that say which attributes an entry has, and the entries of a compile unit with
the iterator over their children.
-/
import Gsdb.Failure

namespace Gsdb

open ByteMemory ByteCursor

/-- `DW_FORM_*`. -/
inductive Form where
  | addr
  | block2
  | block4
  | data2
  | data4
  | data8
  | string
  | block
  | block1
  | data1
  | flag
  | sdata
  | strp
  | udata
  | refAddr
  | ref1
  | ref2
  | ref4
  | ref8
  | refUdata
  | indirect
  | secOffset
  | exprloc
  | flagPresent
  | refSig8
  | other (code : Word)
deriving DecidableEq, Repr

def Form.ofCode (code : Word) : Form :=
  match code.toNat with
  | 0x01 => .addr
  | 0x03 => .block2
  | 0x04 => .block4
  | 0x05 => .data2
  | 0x06 => .data4
  | 0x07 => .data8
  | 0x08 => .string
  | 0x09 => .block
  | 0x0a => .block1
  | 0x0b => .data1
  | 0x0c => .flag
  | 0x0d => .sdata
  | 0x0e => .strp
  | 0x0f => .udata
  | 0x10 => .refAddr
  | 0x11 => .ref1
  | 0x12 => .ref2
  | 0x13 => .ref4
  | 0x14 => .ref8
  | 0x15 => .refUdata
  | 0x16 => .indirect
  | 0x17 => .secOffset
  | 0x18 => .exprloc
  | 0x19 => .flagPresent
  | 0x20 => .refSig8
  | _ => .other code

/-- The recursion of `cursor::skip_form`: an indirect form is read from the data,
at least one byte each time. -/
def skipFormLoop : Nat → Form → Cursor → Except Failure Cursor
  | 0, _, _ => .error (.undefined "read outside the buffer")
  | rounds + 1, form, cur =>
      match form with
      | .flagPresent => .ok cur
      | .data1 | .ref1 | .flag => .ok (cur.advance 1)
      | .data2 | .ref2 => .ok (cur.advance 2)
      | .data4 | .ref4 | .refAddr | .secOffset | .strp => .ok (cur.advance 4)
      | .data8 | .addr => .ok (cur.advance 8)
      | .sdata => do
          let (_, cur) ← inBounds cur.sleb128
          pure cur
      | .udata | .refUdata => do
          let (_, cur) ← inBounds cur.uleb128
          pure cur
      | .block1 => do
          let (size, cur) ← inBounds cur.u8
          pure (cur.advance size.toNat)
      | .block2 => do
          let (size, cur) ← inBounds cur.u16
          pure (cur.advance size.toNat)
      | .block4 => do
          let (size, cur) ← inBounds cur.u32
          pure (cur.advance size.toNat)
      | .block | .exprloc => do
          let (size, cur) ← inBounds cur.uleb128
          pure (cur.advance size.toNat)
      | .string => .ok cur.string.2
      | .indirect => do
          let (code, cur) ← inBounds cur.uleb128
          skipFormLoop rounds (.ofCode code) cur
      | .ref8 | .refSig8 | .other _ => .error (.error "Unrecognized DWARF form!")

/-- `cursor::skip_form`. -/
def skipForm (form : Form) (cur : Cursor) : Except Failure Cursor :=
  skipFormLoop (cur.rest.length + 1) form cur

structure AttrSpec where
  attr : Word
  form : Form
deriving DecidableEq, Repr

structure Abbrev where
  code : Word
  tag : Word
  hasChildren : Bool
  attrSpecs : List AttrSpec
deriving DecidableEq, Repr

/-- A compile unit: where it starts in `.debug_info`, its bytes from the header
on, and its abbreviations. -/
structure CompileUnit where
  offset : Nat
  data : List Byte
  abbrevTable : List Abbrev
deriving DecidableEq, Repr

/-- `abbrev_table.at(code)`. -/
def CompileUnit.abbrevAt (cu : CompileUnit) (code : Word) : Except Failure Abbrev :=
  match cu.abbrevTable.find? fun entry => entry.code = code with
  | some entry => .ok entry
  | none => .error (.exception "out_of_range")

/-- What a `die` knows of an entry that is not null. -/
structure DieEntry where
  pos : Nat
  abbrevEntry : Abbrev
  attrLocs : List Nat
deriving DecidableEq, Repr

/-- `gsdb::die`; positions are offsets in the unit.  A null entry has no
abbreviation. -/
structure Die where
  cu : CompileUnit
  next : Nat
  entry : Option DieEntry
deriving DecidableEq, Repr

/-- The loop of `parse_die` over the attributes: their locations. -/
def skipForms : List AttrSpec → Cursor → Except Failure (List Nat × Cursor)
  | [], cur => .ok ([], cur)
  | spec :: rest, cur => do
      let next ← skipForm spec.form cur
      let (locs, last) ← skipForms rest next
      pure (cur.pos :: locs, last)

def parseDie (cu : CompileUnit) (pos : Nat) : Except Failure Die := do
  let (abbrevCode, cur) ← inBounds (Cursor.mk cu.data pos).uleb128
  if abbrevCode = 0 then pure ⟨cu, cur.pos, none⟩
  else
    let entry ← cu.abbrevAt abbrevCode
    let (attrLocs, last) ← skipForms entry.attrSpecs cur
    pure ⟨cu, last.pos, some ⟨pos, entry, attrLocs⟩⟩

/-- `compile_unit::root`; the header takes eleven bytes. -/
def CompileUnit.root (cu : CompileUnit) : Except Failure Die := parseDie cu 11

/-- The sections and units that attribute values refer to. -/
structure Dwarf where
  debugInfo : List Byte
  debugStr : List Byte
  units : List CompileUnit

/-- `gsdb::attr`. -/
structure Attr where
  cu : CompileUnit
  type : Word
  form : Form
  location : Nat

namespace Attr

def cursor (attr : Attr) : Cursor := ⟨attr.cu.data, attr.location⟩

def asAddress (attr : Attr) : Except Failure Word := do
  require (attr.form = .addr) "Invalid address type!"
  let (address, _) ← inBounds attr.cursor.u64
  pure address

def asSectionOffset (attr : Attr) : Except Failure (BitVec 32) := do
  require (attr.form = .secOffset) "Invalid offset type!"
  let (offset, _) ← inBounds attr.cursor.u32
  pure offset

def asInt (attr : Attr) : Except Failure Word :=
  match attr.form with
  | .data1 => do
      let (n, _) ← inBounds attr.cursor.u8
      pure (n.setWidth 64)
  | .data2 => do
      let (n, _) ← inBounds attr.cursor.u16
      pure (n.setWidth 64)
  | .data4 => do
      let (n, _) ← inBounds attr.cursor.u32
      pure (n.setWidth 64)
  | .data8 => do
      let (n, _) ← inBounds attr.cursor.u64
      pure n
  | .udata => do
      let (n, _) ← inBounds attr.cursor.uleb128
      pure n
  | _ => .error (.error "Invalid integer type!")

/-- The size of a block and the cursor behind it. -/
def blockSize (attr : Attr) : Except Failure (Nat × Cursor) :=
  match attr.form with
  | .block1 => do
      let (size, cur) ← inBounds attr.cursor.u8
      pure (size.toNat, cur)
  | .block2 => do
      let (size, cur) ← inBounds attr.cursor.u16
      pure (size.toNat, cur)
  | .block4 => do
      let (size, cur) ← inBounds attr.cursor.u32
      pure (size.toNat, cur)
  | .block => do
      let (size, cur) ← inBounds attr.cursor.uleb128
      pure (size.toNat, cur)
  | _ => .error (.error "Invalid block type!")

/-- The bytes that a span of the unit shows. -/
def span (cur : Cursor) (size : Nat) : Except Failure (List Byte) := do
  let (bytes, _) ← inBounds (cur.block size)
  pure bytes

def asBlock (attr : Attr) : Except Failure (List Byte) := do
  let (size, cur) ← attr.blockSize
  span cur size

/-- The entry at an offset of the section, in the unit that contains it. -/
def dieInSection (dw : Dwarf) (offset : Nat) : Except Failure Die :=
  match dw.units.find? fun cu => cu.offset ≤ offset ∧ offset < cu.offset + cu.data.length with
  | none => .error (.undefined "no unit at the offset")
  | some cu => parseDie cu (offset - cu.offset)

def asReference (dw : Dwarf) (attr : Attr) : Except Failure Die :=
  match attr.form with
  | .ref1 => do
      let (offset, _) ← inBounds attr.cursor.u8
      parseDie attr.cu offset.toNat
  | .ref2 => do
      let (offset, _) ← inBounds attr.cursor.u16
      parseDie attr.cu offset.toNat
  | .ref4 => do
      let (offset, _) ← inBounds attr.cursor.u32
      parseDie attr.cu offset.toNat
  | .ref8 => do
      let (offset, _) ← inBounds attr.cursor.u64
      parseDie attr.cu offset.toNat
  | .udata => do
      let (offset, _) ← inBounds attr.cursor.uleb128
      parseDie attr.cu offset.toNat
  | .refAddr => do
      let (offset, _) ← inBounds attr.cursor.u32
      dieInSection dw offset.toNat
  | _ => .error (.error "Invalid reference type!")

def asString (dw : Dwarf) (attr : Attr) : Except Failure (List Byte) :=
  match attr.form with
  | .string => .ok attr.cursor.string.1
  | .strp => do
      let (offset, _) ← inBounds attr.cursor.u32
      if offset.toNat ≤ dw.debugStr.length then
        pure (Cursor.mk dw.debugStr offset.toNat).string.1
      else .error (.undefined "string outside the section")
  | _ => .error (.error "Invalid string type!")

/-- `attr::as_expression`: the form is not looked at. -/
def asExpression (attr : Attr) : Except Failure (List Byte) := do
  let (size, cur) ← inBounds attr.cursor.uleb128
  span cur size.toNat

end Attr

/-- `DW_AT_sibling`. -/
def atSibling : Word := 0x01

/-- `DW_AT_low_pc`. -/
def atLowPc : Word := 0x11

/-- `DW_AT_ranges`. -/
def atRanges : Word := 0x55

/-- `DW_TAG_inlined_subroutine`. -/
def tagInlinedSubroutine : Word := 0x1d

namespace Die

def contains (entry : DieEntry) (name : Word) : Bool :=
  entry.abbrevEntry.attrSpecs.any fun spec => spec.attr = name

/-- `die::operator[]`: the first specification of the attribute. -/
def attr (cu : CompileUnit) (entry : DieEntry) (name : Word) : Except Failure Attr :=
  match (entry.abbrevEntry.attrSpecs.zip entry.attrLocs).find? fun spec => spec.1.attr = name with
  | some (spec, location) => .ok ⟨cu, spec.attr, spec.form, location⟩
  | none => .error (.error "Attribute not found!")

/-- `while (sub_children->abbrev_) ++sub_children`, given the increment. -/
def skipChildren (increment : Die → Except Failure Die) : Nat → Die → Except Failure Die
  | 0, _ => .error .schedule
  | rounds + 1, die =>
      match die.entry with
      | none => .ok die
      | some _ => do
          let next ← increment die
          skipChildren increment rounds next

/-- `die::children_range::iterator::operator++`, with a bound on the depth of the
recursion. -/
def increment (dw : Dwarf) : Nat → Die → Except Failure Die
  | 0, _ => .error .schedule
  | rounds + 1, die =>
      match die.entry with
      | none => .ok die
      | some entry =>
          if !entry.abbrevEntry.hasChildren then parseDie die.cu die.next
          else if contains entry atSibling then do
            let sibling ← attr die.cu entry atSibling
            sibling.asReference dw
          else do
            let first ← parseDie die.cu die.next
            let last ← skipChildren (increment dw rounds) rounds first
            parseDie die.cu last.next

/-- The entries from an iterator up to the null entry. -/
def siblingsFrom (dw : Dwarf) (depth : Nat) : Nat → Die → Except Failure (List Die)
  | 0, _ => .error .schedule
  | rounds + 1, die =>
      match die.entry with
      | none => .ok []
      | some _ => do
          let next ← increment dw depth die
          let rest ← siblingsFrom dw depth rounds next
          pure (die :: rest)

/-- `for (auto child : die.children())`.  Every entry takes a byte of the unit,
so that its length bounds both the depth and the number of children. -/
def children (dw : Dwarf) (die : Die) : Except Failure (List Die) :=
  match die.entry with
  | none => .error (.undefined "children of a null entry")
  | some entry =>
      if entry.abbrevEntry.hasChildren then do
        let first ← parseDie die.cu die.next
        siblingsFrom dw (die.cu.data.length + 1) (die.cu.data.length + 1) first
      else .ok []

end Die

end Gsdb
