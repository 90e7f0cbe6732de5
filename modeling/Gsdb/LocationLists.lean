/-
Where a variable is.  An attribute with a location is an expression or an offset of a list in
`.debug_loc`; the list names, for ranges of program counters, the expression to evaluate.
`DW_OP_fbreg` evaluates the location of the function's frame base in turn.
-/
import Gsdb.CodePosition
import Gsdb.RangeLists
import Gsdb.ExpressionTrees

namespace Gsdb

open ByteMemory ByteCursor PostfixCode

/-- `DW_AT_frame_base`. -/
def atFrameBase : Word := 0x40

/-- What locations are evaluated over: the file, the bytes of its `.debug_loc`, the inferior's
memory, and the number of rounds after which an expression is given up. -/
structure LocationEnv where
  file : LoadedFile
  elf : Elf
  loaded : file.elves[file.position]? = some elf
  loc : List Byte
  readMemory : Word → Nat → Except Failure (List Byte)
  rounds : Nat

/-- `cu_->root()[DW_AT_low_pc].as_address()`. -/
def CompileUnit.lowAddress (cu : CompileUnit) : Except Failure Word := do
  let root ← cu.root
  match root.entry with
  | none => .error (.undefined "attribute of a null entry")
  | some entry => Die.lowPc cu entry

/-- The data of `attr::as_location_list`: it extends to the end of the section. -/
def Attr.locationListData (loc : List Byte) (attr : Attr) : Except Failure (List Byte) := do
  let (offset, _) ← inBounds attr.cursor.u32
  if offset.toNat ≤ loc.length then pure (loc.drop offset.toNat)
  else .error (.undefined "list outside the section")

/-- The expression of the entry found; it is read from where it stands in the list. -/
def readFound (data : List Byte) : Option LocationEntry → Except Failure (Option (List Byte))
  | none => .ok none
  | some entry => do
      let expr ← Attr.span ⟨data, entry.start⟩ entry.length
      pure (some expr)

/-- The expression that `location_list::eval` evaluates at a program counter. -/
def LocationList.expression (list : LocationList) (pc : Word) :
    Except Failure (Option (List Byte)) := do
  let found ← list.select pc
  readFound list.bytes found

/-- The location that an expression describes; without one the object is nowhere. -/
def evalFound (ctx : EvalContext) (rounds : Nat) : Option (List Byte) → Except Failure EvalResult
  | none => .ok (.simple .empty)
  | some expr => evalExpression ctx rounds (.start ctx expr false)

namespace LocationEnv

/-- `dwarf_expression::eval`, with what `DW_OP_fbreg` finds. -/
def evalExpressionData (env : LocationEnv) (regs : Registers) (inFrameInfo : Bool)
    (frameBase : Except Failure EvalResult) (data : List Byte) : Except Failure EvalResult := do
  let _ ← env.file.evaluationFunction regs
  let ctx : EvalContext := ⟨regs, env.readMemory, env.elf, inFrameInfo, frameBase⟩
  evalExpression ctx env.rounds (.start ctx data false)

/-- `attr::as_location_list` and `location_list::eval`, given how expressions are evaluated. -/
def evalLocationList (env : LocationEnv) (regs : Registers)
    (evaluate : List Byte → Except Failure EvalResult) (attr : Attr) :
    Except Failure EvalResult := do
  let data ← attr.locationListData env.loc
  let rip ← regs.readU64 .rip
  let _ ← env.file.evaluationFunction regs
  let base ← attr.cu.lowAddress
  let pc := (toFileAddrIn env.file.elves env.file.position rip).addr
  match ← LocationList.expression ⟨data, base⟩ pc with
  | none => pure (.simple .empty)
  | some expr => evaluate expr

/-- `attr::as_evaluated_location`, given what `DW_OP_fbreg` finds. -/
def evaluateAttr (env : LocationEnv) (regs : Registers) (inFrameInfo : Bool)
    (frameBase : Except Failure EvalResult) (attr : Attr) : Except Failure EvalResult :=
  match attr.form with
  | .exprloc => do
      let expr ← attr.asExpression
      env.evalExpressionData regs inFrameInfo frameBase expr
  | .secOffset =>
      env.evalLocationList regs (env.evalExpressionData regs inFrameInfo frameBase) attr
  | _ => .error (.error "Invalid location type!")

/-- The attribute that `DW_OP_fbreg` evaluates: that of the function at the program counter. -/
def frameBaseAttr (env : LocationEnv) (regs : Registers) : Except Failure Attr := do
  let func ← env.file.frameBaseFunction regs
  match func.entry with
  | none => .error (.undefined "attribute of a null entry")
  | some entry => Die.attr func.cu entry atFrameBase

/-- `attr::as_evaluated_location`, given up after a number of frame bases within frame bases. -/
def asEvaluatedLocation (env : LocationEnv) (regs : Registers) :
    Nat → Attr → Bool → Except Failure EvalResult
  | 0, _, _ => .error .schedule
  | depth + 1, attr, inFrameInfo =>
      let frameBase := do
        let nested ← env.frameBaseAttr regs
        asEvaluatedLocation env regs depth nested true
      env.evaluateAttr regs inFrameInfo frameBase attr

/-- What `DW_OP_fbreg` finds at a depth. -/
def frameBaseAt (env : LocationEnv) (regs : Registers) (depth : Nat) :
    Except Failure EvalResult := do
  let nested ← env.frameBaseAttr regs
  env.asEvaluatedLocation regs depth nested true

/-- What an expression is evaluated in at a depth. -/
def context (env : LocationEnv) (regs : Registers) (depth : Nat) (inFrameInfo : Bool) :
    EvalContext :=
  ⟨regs, env.readMemory, env.elf, inFrameInfo, env.frameBaseAt regs depth⟩

end LocationEnv

/-- What stands in a location list: a base for the entries behind it, or an entry with its
expression. -/
inductive LocationItem where
  | select (base : Word)
  | entry (first second : Word) (expr : List Byte)
deriving DecidableEq, Repr

namespace LocationItem

/-- An entry that neither selects a base nor ends the list, with an expression whose length two
bytes hold. -/
def Valid : LocationItem → Prop
  | .select _ => True
  | .entry first second expr => first ≠ -1 ∧ ¬ (first = 0 ∧ second = 0) ∧ expr.length < 2 ^ 16

instance (item : LocationItem) : Decidable item.Valid := by
  cases item <;> unfold Valid <;> infer_instance

def encode : LocationItem → List Byte
  | .select base => encodePair (-1) base
  | .entry first second expr => encodePair first second ++ (toLe 2 expr.length ++ expr)

end LocationItem

/-- A list with the pair of zeros behind it. -/
def encodeLocations : List LocationItem → List Byte
  | [] => encodePair 0 0
  | item :: items => item.encode ++ encodeLocations items

/-- An expression and the program counters that it is for. -/
structure RangedExpression where
  low : Word
  high : Word
  expr : List Byte
deriving DecidableEq, Repr

def RangedExpression.contains (entry : RangedExpression) (pc : Word) : Bool :=
  decide (entry.low ≤ pc) && decide (pc < entry.high)

/-- The entries of a list, each relative to the base selected last in front of it. -/
def locationsFrom : Word → List LocationItem → List RangedExpression
  | _, [] => []
  | _, .select base :: items => locationsFrom base items
  | base, .entry first second expr :: items =>
      ⟨base + first, base + second, expr⟩ :: locationsFrom base items

/-- The expression of the first entry for a program counter. -/
def expressionFor (base : Word) (items : List LocationItem) (pc : Word) : Option (List Byte) :=
  ((locationsFrom base items).find? fun entry => entry.contains pc).map RangedExpression.expr

section Reading

variable {cur : Cursor} {bytes after : List Byte}

/-- The length in front of an expression. -/
theorem u16_length {size : Nat} (hcur : cur.rest = toLe 2 size ++ after) (hsize : size < 2 ^ 16) :
    ∃ length, cur.u16 = some (length, cur.advance 2) ∧ length.toNat = size ∧
      (cur.advance 2).rest = after := by
  have hbytes := toLe_length 2 size
  obtain ⟨length, hread, hvalue⟩ :=
    fixedInt_append (w := 16) hcur hbytes.symm (by rw [hbytes]; rfl)
  have hrest := rest_advance_append hcur
  rw [hbytes] at hrest
  refine ⟨length, by rw [Cursor.u16, hread, hbytes], ?_, hrest⟩
  rw [hvalue, ofLe_toLe]
  exact Nat.mod_eq_of_lt hsize

theorem span_append (hcur : cur.rest = bytes ++ after) : Attr.span cur bytes.length =
    .ok bytes := by
  have hroom : bytes.length ≤ cur.rest.length := by
    rw [hcur, List.length_append]
    omega
  rw [Attr.span, Cursor.block, if_pos hroom, hcur, List.take_left]
  rfl

end Reading

theorem neg_one_ne_zero : (-1 : Word) ≠ 0 := by decide

section Selection

variable {data after : List Byte} {cur : Cursor} {base low high pc : Word} {rounds : Nat}

theorem selectLocation_end (hcur : cur.rest = encodePair 0 0 ++ after) :
    selectLocation pc (rounds + 1) cur base = .ok none := by
  obtain ⟨hlow, hhigh, -⟩ := u64_pair hcur
  rw [selectLocation, hlow, inBounds_some, ok_bind]
  simp only [hhigh, inBounds_some, ok_bind]
  rfl

theorem selectLocation_base (hcur : cur.rest = encodePair (-1) high ++ after) :
    selectLocation pc (rounds + 1) cur base = selectLocation pc rounds (cur.advance 16) high := by
  obtain ⟨hlow, hhigh, -⟩ := u64_pair hcur
  rw [selectLocation, hlow, inBounds_some, ok_bind]
  simp only [hhigh, inBounds_some, ok_bind]
  rw [if_neg fun hzero => neg_one_ne_zero hzero.1, if_pos trivial]

/-- An entry is left with its expression unread unless it is for the program counter. -/
theorem selectLocation_entry {length : BitVec 16} (expr : List Byte)
    (hcur : cur.rest = encodePair low high ++ after) (hflag : low ≠ -1)
    (hend : ¬ (low = 0 ∧ high = 0))
    (hread : (cur.advance 16).u16 = some (length, (cur.advance 16).advance 2)) :
    selectLocation pc (rounds + 1) cur base =
      if RangedExpression.contains ⟨base + low, base + high, expr⟩ pc then
        .ok (some ⟨base + low, base + high, ((cur.advance 16).advance 2).pos, length.toNat⟩)
      else selectLocation pc rounds (((cur.advance 16).advance 2).advance length.toNat) base := by
  obtain ⟨hlow, hhigh, -⟩ := u64_pair hcur
  rw [selectLocation, hlow, inBounds_some, ok_bind]
  simp only [hhigh, inBounds_some, ok_bind]
  rw [if_neg hend, if_neg hflag, hread, inBounds_some, ok_bind]
  rfl

theorem LocationItem.encode_length (item : LocationItem) : 16 ≤ item.encode.length := by
  cases item with
  | select base => rw [encode, encodePair_length]
  | entry first second expr =>
      rw [encode, List.length_append, encodePair_length]
      omega

theorem encodeLocations_length (items : List LocationItem) :
    16 * (items.length + 1) ≤ (encodeLocations items).length := by
  induction items with
  | nil => exact Nat.le_refl _
  | cons item items ih =>
      have hitem := item.encode_length
      rw [encodeLocations, List.length_append, List.length_cons]
      omega

/-- The loop passes over the entries in front and reads the expression of the first one that is
for the program counter. -/
theorem select_items {items : List LocationItem} (hvalid : ∀ item ∈ items, item.Valid) :
    ∀ (cur : Cursor) (base : Word) (rounds : Nat), cur.data = data →
      cur.rest = encodeLocations items ++ after → items.length < rounds →
      (selectLocation pc rounds cur base >>= readFound data) =
          .ok (expressionFor base items pc) := by
  induction items with
  | nil =>
      intro cur base rounds hdata hcur hrounds
      obtain ⟨rounds, rfl⟩ : ∃ k, rounds = k + 1 := ⟨rounds - 1, by omega⟩
      rw [selectLocation_end hcur]
      rfl
  | cons item items ih =>
      intro cur base rounds hdata hcur hrounds
      rw [List.length_cons] at hrounds
      obtain ⟨rounds, rfl⟩ : ∃ k, rounds = k + 1 := ⟨rounds - 1, by omega⟩
      have hothers : ∀ other ∈ items, other.Valid :=
        fun other hmem => hvalid other (List.mem_cons_of_mem item hmem)
      rw [encodeLocations, List.append_assoc] at hcur
      cases item with
      | select selected =>
          have hrest := rest_advance_append hcur
          rw [LocationItem.encode, encodePair_length] at hrest
          rw [LocationItem.encode] at hcur
          rw [selectLocation_base hcur]
          exact ih hothers (cur.advance 16) selected rounds hdata hrest (by omega)
      | entry low high expr =>
          obtain ⟨hflag, hend, hlength⟩ := hvalid _ List.mem_cons_self
          rw [LocationItem.encode, List.append_assoc] at hcur
          have hbehind := rest_advance_append hcur
          rw [encodePair_length] at hbehind
          rw [List.append_assoc] at hbehind
          obtain ⟨length, hread, hvalue, hexpr⟩ := u16_length hbehind hlength
          have hrest := rest_advance_append hexpr
          rw [selectLocation_entry expr hcur hflag hend hread, hvalue, expressionFor,
            locationsFrom, List.find?_cons]
          cases RangedExpression.contains ⟨base + low, base + high, expr⟩ pc with
          | true =>
              have hcursor : (⟨data, ((cur.advance 16).advance 2).pos⟩ : Cursor) =
                  (cur.advance 16).advance 2 := by
                rw [← hdata]
                rfl
              rw [if_pos rfl, ok_bind, readFound]
              simp only [hcursor, span_append hexpr]
              rfl
          | false =>
              rw [if_neg Bool.false_ne_true]
              exact ih hothers _ base rounds hdata hrest (by omega)

end Selection

/-- What the registers, the file and the unit give for a list at a position of `.debug_loc`: the
program counter in the file and the base that the list starts with. -/
structure ListReadable (file : LoadedFile) (regs : Registers) (attr : Attr) (start : Nat)
    (pc base : Word) : Prop where
  form : attr.form = .secOffset
  offset : ∃ offset, attr.asSectionOffset = .ok offset ∧ offset.toNat = start
  rip : ∃ rip, regs.readU64 .rip = .ok rip ∧ (toFileAddrIn file.elves file.position rip).addr = pc
  function : ∃ func, file.evaluationFunction regs = .ok func
  base : attr.cu.lowAddress = .ok base

/-- An attribute describes a location with an expression: its own, or the one that its list has
for the program counter. -/
inductive Describes (env : LocationEnv) (regs : Registers) (attr : Attr) : List Byte → Prop where
  | expression {expr : List Byte} {func : Option Die} (form : attr.form = .exprloc)
      (data : attr.asExpression = .ok expr)
      (function : env.file.evaluationFunction regs = .ok func) : Describes env regs attr expr
  | list {items : List LocationItem} {before after expr : List Byte} {pc base : Word}
      (valid : ∀ item ∈ items, item.Valid)
      (readable : ListReadable env.file regs attr before.length pc base)
      (section_ : env.loc = before ++ (encodeLocations items ++ after))
      (found : expressionFor base items pc = some expr) : Describes env regs attr expr

section Locations

variable {env : LocationEnv} {regs : Registers} {attr : Attr} {items : List LocationItem}
  {before data expr bytes : List Byte} {pc base offset : Word} {depth : Nat} {inFrameInfo : Bool}

theorem asEvaluatedLocation_succ :
    env.asEvaluatedLocation regs (depth + 1) attr inFrameInfo =
      env.evaluateAttr regs inFrameInfo (env.frameBaseAt regs depth) attr := rfl

theorem locationListData_of_readable (h : ListReadable env.file regs attr before.length pc base)
    (hloc : env.loc = before ++ data) : attr.locationListData env.loc = .ok data := by
  obtain ⟨offset, hread, hoffset⟩ := h.offset
  obtain ⟨-, -, hread⟩ := bind_eq_ok.mp hread
  obtain ⟨⟨offset', cur⟩, hcur, hread⟩ := bind_eq_ok.mp hread
  cases hread
  have hroom : offset.toNat ≤ env.loc.length := by
    rw [hoffset, hloc, List.length_append]
    omega
  rw [Attr.locationListData, hcur, ok_bind]
  simp only [if_pos hroom]
  rw [hoffset, hloc, List.drop_left]
  rfl

/-- Of a list that can be read, the entry for the program counter decides. -/
theorem evaluateAttr_list {frameBase : Except Failure EvalResult}
    (h : ListReadable env.file regs attr before.length pc base) (hloc : env.loc = before ++ data) :
    env.evaluateAttr regs inFrameInfo frameBase attr =
      (LocationList.expression ⟨data, base⟩ pc >>=
        evalFound ⟨regs, env.readMemory, env.elf, inFrameInfo, frameBase⟩ env.rounds) := by
  obtain ⟨rip, hrip, hpc⟩ := h.rip
  obtain ⟨func, hfunc⟩ := h.function
  rw [LocationEnv.evaluateAttr, h.form]
  simp only [LocationEnv.evalLocationList, locationListData_of_readable h hloc, ok_bind,
    hrip, hfunc,
    h.base, hpc]
  congr 1
  funext found
  cases found with
  | none => rfl
  | some expr =>
      simp only [LocationEnv.evalExpressionData, hfunc, ok_bind]
      rfl

/-- The whole list stands in the section. -/
theorem expression_encoded {after : List Byte} (hvalid : ∀ item ∈ items, item.Valid) :
    LocationList.expression ⟨encodeLocations items ++ after, base⟩ pc =
      .ok (expressionFor base items pc) := by
  refine select_items hvalid ⟨encodeLocations items ++ after, 0⟩ base _ rfl rfl ?_
  have hlength := encodeLocations_length items
  rw [List.length_append]
  omega

theorem Describes.evaluated {frameBase : Except Failure EvalResult}
    (h : Describes env regs attr expr) :
    env.evaluateAttr regs inFrameInfo frameBase attr =
      evalFound ⟨regs, env.readMemory, env.elf, inFrameInfo, frameBase⟩ env.rounds
        (some expr) := by
  cases h with
  | expression form data function =>
      rw [LocationEnv.evaluateAttr, form]
      simp only [data, ok_bind, LocationEnv.evalExpressionData, function]
      rfl
  | list valid readable hloc found =>
      rw [evaluateAttr_list readable hloc, expression_encoded valid, ok_bind, found]

/-- A list yields the location that its first entry for the program counter describes, relative to
the base selected last in front of it, or no location. -/
theorem asEvaluatedLocation_list {after : List Byte} (hvalid : ∀ item ∈ items, item.Valid)
    (h : ListReadable env.file regs attr before.length pc base)
    (hloc : env.loc = before ++ (encodeLocations items ++ after)) :
    env.asEvaluatedLocation regs (depth + 1) attr inFrameInfo =
      evalFound (env.context regs depth inFrameInfo) env.rounds (expressionFor base items pc) := by
  rw [asEvaluatedLocation_succ, evaluateAttr_list h hloc, expression_encoded hvalid]
  rfl

/-- An object at an offset from the frame base of its function is that far from the value of the
tree with which the frame base is described, whether either is described by an expression or by a
list. -/
theorem asEvaluatedLocation_frameBase {frameBase : Attr} {tree : ExprTree} {treeBytes : List Byte}
    (hattr : Describes env regs attr (0x91 :: bytes)) (hoffset : EncodesSleb bytes offset)
    (hfound : env.frameBaseAttr regs = .ok frameBase)
    (hbase : Describes env regs frameBase treeBytes) (htree : EncodesCode tree.code treeBytes)
    (hrounds : treeBytes.length ≤ env.rounds) (hbytes : bytes.length + 1 ≤ env.rounds) :
    env.asEvaluatedLocation regs (depth + 2) attr false =
      (tree.value (dwarfMeaning (env.context regs depth true))).map
        fun value => .simple (.address (value + offset)) := by
  have hnested : env.frameBaseAt regs (depth + 1) =
      (tree.value (dwarfMeaning (env.context regs depth true))).map fun x =>
          .simple (.address x) := by
    rw [LocationEnv.frameBaseAt, hfound, ok_bind, asEvaluatedLocation_succ, hbase.evaluated]
    exact htree.evalTree false hrounds
  have hcode :
      EncodesCode (Tree.leaf (ValueOp.frameBase offset) : ExprTree).code (0x91 :: bytes) := by
    have hcode := EncodesCode.cons (.push (.fbreg hoffset)) .nil
    rwa [List.append_nil] at hcode
  rw [asEvaluatedLocation_succ, hattr.evaluated]
  refine (hcode.evalTree false hbytes).trans ?_
  change (ValueOp.value _ (.frameBase offset)).map _ = _
  rw [ValueOp.value]
  simp only [hnested]
  cases tree.value (dwarfMeaning (env.context regs depth true)) <;> rfl

end Locations

namespace LocationWitness

open CodePositionWitness (program)

def functionEntry : Abbrev :=
  ⟨2, tagSubprogram, true, [⟨atLowPc, .addr⟩, ⟨atHighPc, .data1⟩, ⟨atFrameBase, .exprloc⟩]⟩

/-- A unit with a function whose frame base is the canonical frame address, and in it a variable
with an expression and one with a list. -/
def cu : CompileUnit :=
  ⟨0, [39, 0, 0, 0, 4, 0, 0, 0, 0, 0, 8, 1, 0, 0x10, 0, 0, 0, 0, 0, 0,
    2, 0, 0x10, 0, 0, 0, 0, 0, 0, 0x10, 1, 0x9c, 3, 2, 0x91, 0x70, 4, 1, 0, 0, 0, 0, 0],
    [⟨1, 0x11, true, [⟨atLowPc, .addr⟩]⟩, functionEntry,
      ⟨3, tagVariable, false, [⟨atLocation, .exprloc⟩]⟩,
      ⟨4, tagVariable, false, [⟨atLocation, .secOffset⟩]⟩]⟩

def items : List LocationItem :=
  [.entry 0x10 0x20 [0x50], .select 0x1000, .entry 0 8 [0x91, 0x78]]

def env : LocationEnv where
  file := ⟨[program], 0, ⟨⟨[], [], [cu]⟩, [], [([0x66], ⟨cu, 20⟩)]⟩⟩
  elf := program
  loaded := rfl
  loc := [7] ++ (encodeLocations items ++ [])
  readMemory := fun _ n => .ok (List.replicate n 0)
  rounds := 8

/-- Stopped in the function. -/
def regs : Registers := ⟨Area.write (fun _ => 0) 128 (toLe 8 0x1004), [], 0x7010⟩

def withExpression : Attr := ⟨cu, atLocation, .exprloc, 33⟩

def withList : Attr := ⟨cu, atLocation, .secOffset, 37⟩

def frameBase : Attr := ⟨cu, atFrameBase, .exprloc, 30⟩

def function : Die := ⟨cu, 32, some ⟨20, functionEntry, [21, 29, 30]⟩⟩

theorem evaluationFunction_regs : env.file.evaluationFunction regs = .ok (some function) := by
  decide +kernel

theorem readable : ListReadable env.file regs withList 1 0x1004 0x1000 where
  form := rfl
  offset := ⟨1, by decide +kernel, rfl⟩
  rip := ⟨0x1004, by decide +kernel, by decide +kernel⟩
  function := ⟨some function, evaluationFunction_regs⟩
  base := by decide +kernel

/-- The third item is for the program counter: the base selected in front of it counts. -/
theorem asEvaluatedLocation_list_selected :
    env.asEvaluatedLocation regs 1 withList false =
      evalFound (env.context regs 0 false) 8 (some [0x91, 0x78]) :=
  @asEvaluatedLocation_list env regs withList items [7] 0x1004 0x1000 0 false [] (by decide)
    readable rfl

/-- Sixteen bytes in front of the canonical frame address by the expression, eight by the list. -/
theorem asEvaluatedLocation_frameBase_cfa :
    env.asEvaluatedLocation regs 2 withExpression false = .ok (.simple (.address 0x7000)) ∧
      env.asEvaluatedLocation regs 2 withList false = .ok (.simple (.address 0x7008)) := by
  have hfound : env.frameBaseAttr regs = .ok frameBase := by
    rw [LocationEnv.frameBaseAttr, LoadedFile.frameBaseFunction, evaluationFunction_regs]
    rfl
  have hbase : Describes env regs frameBase [0x9c] :=
    .expression rfl (by decide +kernel) evaluationFunction_regs
  have htree : EncodesCode (Tree.leaf ValueOp.callFrameCfa : ExprTree).code [0x9c] :=
    .cons (.push .callFrameCfa) .nil
  have hexpression : Describes env regs withExpression [0x91, 0x70] :=
    .expression rfl (by decide +kernel) evaluationFunction_regs
  have hlist : Describes env regs withList [0x91, 0x78] :=
    @Describes.list env regs withList items [7] [] [0x91, 0x78] 0x1004 0x1000 (by decide)
      readable rfl
      (by decide)
  have hsixteen : EncodesSleb [0x70] (-16) := ⟨by decide, by decide, by decide⟩
  have height : EncodesSleb [0x78] (-8) := ⟨by decide, by decide, by decide⟩
  exact ⟨asEvaluatedLocation_frameBase hexpression hsixteen hfound hbase htree (by decide)
    (by decide),
    asEvaluatedLocation_frameBase hlist height hfound hbase htree (by decide) (by decide)⟩

end LocationWitness

end Gsdb
