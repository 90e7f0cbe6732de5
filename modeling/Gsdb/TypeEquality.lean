/-
Which types are equal: `type::operator==` strips the layers of both types, pointers
included, and compares the names of what is left.
-/
import Gsdb.CallTargets

namespace Gsdb

open ByteMemory

def tagPointerType : Word := 0x0f
def tagReferenceType : Word := 0x10
def tagTypedef : Word := 0x16
def tagBaseType : Word := 0x24
def tagConstType : Word := 0x26
def tagVolatileType : Word := 0x35
def tagRvalueReferenceType : Word := 0x42

def atEncoding : Word := 0x3e

/-- The tags that `strip_cv_typedef` removes. -/
def cvTypedefTags : List Word := [tagConstType, tagVolatileType, tagTypedef]

/-- The tags that `strip_cvref_typedef` removes. -/
def cvrefTypedefTags : List Word := cvTypedefTags ++ [tagReferenceType, tagRvalueReferenceType]

/-- The tags that `strip_all` removes. -/
def layerTags : List Word := cvrefTypedefTags ++ [tagPointerType]

/-- `gsdb::type`, of an entry of the debug information or of a literal. -/
inductive EntryType where
  | dwarf (die : FileDie)
  | builtin (type : BuiltinType)

/-- The builtin type that an encoding stands for. -/
def builtinOfEncoding (encoding : Word) : Option BuiltinType :=
  match encoding with
  | 0x02 => some .boolean
  | 0x04 => some .floatingPoint
  | 0x05 | 0x07 => some .integer
  | 0x06 | 0x08 => some .character
  | _ => none

/-- Both have a name, and the names are the same. -/
def namedAlike : Option (List Byte) → Option (List Byte) → Bool
  | some lhs, some rhs => decide (lhs = rhs)
  | _, _ => false

namespace CallEnv

variable (env : CallEnv)

/-- `abbrev_entry()->tag`. -/
def tagOf (die : FileDie) : Except Failure Word :=
  match die.2.entry with
  | none => .error (.undefined "tag of a null entry")
  | some entry => .ok entry.abbrevEntry.tag

/-- `die[DW_AT_type].as_type()`. -/
def targetType (die : FileDie) : Except Failure FileDie :=
  match die.2.entry with
  | none => .error (.undefined "attribute of a null entry")
  | some entry => do
      let file ← env.fileAt die.1
      let target ← Die.reference file.dwarf die.2.cu entry atType
      pure (die.1, target)

/-- `die[DW_AT_encoding].as_int()`. -/
def encodingOf (die : FileDie) : Except Failure Word :=
  match die.2.entry with
  | none => .error (.undefined "attribute of a null entry")
  | some entry => do
      let encoding ← Die.attr die.2.cu entry atEncoding
      encoding.asInt

def typeName (die : FileDie) : Except Failure (Option (List Byte)) := do
  let file ← env.fileAt die.1
  die.2.name file.dwarf env.rounds

/-- `type::strip`, with a bound on the number of layers. -/
def strip (tags : List Word) : Nat → FileDie → Except Failure FileDie
  | 0, _ => .error .schedule
  | rounds + 1, die => do
      let tag ← tagOf die
      if tag ∈ tags then do
        let target ← env.targetType die
        strip tags rounds target
      else pure die

/-- `type::is_char_type`. -/
def isCharType (die : FileDie) : Except Failure Bool := do
  let stripped ← env.strip cvTypedefTags env.rounds die
  let tag ← tagOf stripped
  match stripped.2.entry with
  | none => .error (.undefined "attribute of a null entry")
  | some entry =>
      if !Die.contains entry atEncoding then .ok false
      else do
        let encoding ← encodingOf stripped
        pure (decide (tag = tagBaseType ∧ builtinOfEncoding encoding = some .character))

/-- `type::operator==` of an entry and the type of a literal. -/
def equalsBuiltin (die : FileDie) (builtin : BuiltinType) : Except Failure Bool := do
  let stripped ← env.strip cvrefTypedefTags env.rounds die
  let tag ← tagOf stripped
  if tag = tagBaseType then do
    let encoding ← encodingOf stripped
    pure (decide (builtinOfEncoding encoding = some builtin))
  else if tag = tagPointerType then do
    let target ← env.targetType stripped
    let isChar ← env.isCharType target
    pure (isChar && decide (builtin = .string))
  else .ok false

/-- `type::operator==`. -/
def typeEquals (lhs rhs : EntryType) : Except Failure Bool :=
  match lhs, rhs with
  | .builtin lhs, .builtin rhs => .ok (decide (lhs = rhs))
  | .builtin builtin, .dwarf die => env.equalsBuiltin die builtin
  | .dwarf die, .builtin builtin => env.equalsBuiltin die builtin
  | .dwarf lhs, .dwarf rhs => do
      let lhsStripped ← env.strip layerTags env.rounds lhs
      let rhsStripped ← env.strip layerTags env.rounds rhs
      let lhsName ← env.typeName lhsStripped
      let rhsName ← env.typeName rhsStripped
      pure (namedAlike lhsName rhsName)

end CallEnv

def LayerTag.code : LayerTag → Word
  | const_ => tagConstType
  | volatile_ => tagVolatileType
  | typedef_ => tagTypedef
  | reference => tagReferenceType
  | rvalueReference => tagRvalueReferenceType
  | pointer => tagPointerType

/-- What a type is made of: layers around a type of the program, whose name its entry may
give, or around nothing. -/
inductive TypeTree where
  | core (entity : Nat) (name : Option (List Byte))
  | layer (tag : LayerTag) (target : TypeTree)
  | void (tag : LayerTag)
deriving DecidableEq, Repr

namespace TypeTree

/-- How many pointers there are among the layers. -/
def depth : TypeTree → Nat
  | core _ _ => 0
  | layer tag target => target.depth + if tag = .pointer then 1 else 0
  | void tag => if tag = .pointer then 1 else 0

/-- The type behind all layers, if it is not `void`. -/
def entity : TypeTree → Option Nat
  | core entity _ => some entity
  | layer _ target => target.entity
  | void _ => none

def name : TypeTree → Option (List Byte)
  | core _ name => name
  | layer _ target => target.name
  | void _ => none

def layers : TypeTree → Nat
  | core _ _ => 0
  | layer _ target => target.layers + 1
  | void _ => 1

/-- The same type, up to layers other than pointers. -/
def Same (lhs rhs : TypeTree) : Prop := lhs.depth = rhs.depth ∧ lhs.entity = rhs.entity

instance (lhs rhs : TypeTree) : Decidable (lhs.Same rhs) :=
  inferInstanceAs (Decidable (_ ∧ _))

/-- Types that the names behind all layers tell apart: neither is `void` there, the same
types have a name, and different ones have not the same. -/
structure ToldApart (lhs rhs : TypeTree) : Prop where
  lhsType : lhs.entity ≠ none
  rhsType : rhs.entity ≠ none
  same : lhs.Same rhs → lhs.name ≠ none ∧ lhs.name = rhs.name
  different : ¬ lhs.Same rhs → lhs.name = none ∨ lhs.name ≠ rhs.name

end TypeTree

namespace CallEnv

/-- What an entry of the debug information describes, given which type of the program each
entry is about. -/
inductive Depicts (env : CallEnv) (entity : FileDie → Nat) : FileDie → TypeTree → Prop where
  | core {die : FileDie} {tag : Word} {name : Option (List Byte)} (htag : tagOf die = .ok tag)
      (hcore : tag ∉ layerTags) (hname : env.typeName die = .ok name) :
      Depicts env entity die (.core (entity die) name)
  | layer {die target : FileDie} {tag : LayerTag} {tree : TypeTree}
      (htag : tagOf die = .ok tag.code) (htarget : env.targetType die = .ok target)
      (htree : Depicts env entity target tree) : Depicts env entity die (.layer tag tree)
  | void {die : FileDie} {tag : LayerTag} (htag : tagOf die = .ok tag.code)
      (htarget : env.targetType die = .error (.error "Attribute not found!")) :
      Depicts env entity die (.void tag)

/-- The comparison of two entries is right. -/
def ComparesRight (env : CallEnv) (lhs rhs : FileDie) (lhsTree rhsTree : TypeTree) : Prop :=
  env.typeEquals (.dwarf lhs) (.dwarf rhs) = .ok (decide (lhsTree.Same rhsTree))

/-- A function that takes a type, one that takes pointers to it, and an argument of the
type. -/
structure Overloads (env : CallEnv) (entity : FileDie → Nat) (type pointer : FileDie)
    (tree : TypeTree) (func pointerFunc : FileDie) (arg : TypedData) : Prop where
  isType : env.Depicts entity type tree
  isPointer : tagOf pointer = .ok tagPointerType
  target : env.targetType pointer = .ok type
  rounds : tree.layers + 1 < env.rounds
  takesType : env.parameterTypes func = .ok [type]
  takesPointer : env.parameterTypes pointerFunc = .ok [pointer]
  argument : ∀ param, env.sameType param arg = env.typeEquals (.dwarf param) (.dwarf type)

end CallEnv

section Stripping

variable {env : CallEnv} {entity : FileDie → Nat} {die : FileDie} {tree : TypeTree}

theorem LayerTag.code_mem (tag : LayerTag) : tag.code ∈ layerTags := by
  cases tag <;> decide

theorem strip_of_mem {tags : List Word} {tag : Word} (htag : CallEnv.tagOf die = .ok tag)
    (hmem : tag ∈ tags) (rounds : Nat) :
    env.strip tags (rounds + 1) die = env.targetType die >>= env.strip tags rounds := by
  rw [CallEnv.strip, htag, ok_bind, if_pos hmem]

theorem strip_of_not_mem {tags : List Word} {tag : Word} (htag : CallEnv.tagOf die = .ok tag)
    (hmem : tag ∉ tags) (rounds : Nat) : env.strip tags (rounds + 1) die = .ok die := by
  rw [CallEnv.strip, htag, ok_bind, if_neg hmem]
  rfl

/-- Behind all layers there is the entry of a type, or the missing one of `void`. -/
theorem CallEnv.Depicts.strip (h : env.Depicts entity die tree) {rounds : Nat}
    (hrounds : tree.layers < rounds) :
    (tree.entity = none ∧
      env.strip layerTags rounds die = .error (.error "Attribute not found!")) ∨
    (tree.entity ≠ none ∧ ∃ stripped, env.strip layerTags rounds die = .ok stripped ∧
      env.typeName stripped = .ok tree.name) := by
  induction h generalizing rounds with
  | @core die tag name htag hcore hname =>
      obtain ⟨rounds, rfl⟩ := Nat.exists_eq_succ_of_ne_zero (Nat.ne_zero_of_lt hrounds)
      exact .inr ⟨Option.some_ne_none _, die, strip_of_not_mem htag hcore rounds, hname⟩
  | @layer die target tag tree htag htarget _ ih =>
      obtain ⟨rounds, rfl⟩ := Nat.exists_eq_succ_of_ne_zero (Nat.ne_zero_of_lt hrounds)
      rw [Nat.succ_eq_add_one, strip_of_mem htag tag.code_mem, htarget, ok_bind]
      exact ih (Nat.lt_of_succ_lt_succ hrounds)
  | @void die tag htag htarget =>
      obtain ⟨rounds, rfl⟩ := Nat.exists_eq_succ_of_ne_zero (Nat.ne_zero_of_lt hrounds)
      rw [Nat.succ_eq_add_one, strip_of_mem htag tag.code_mem, htarget]
      exact .inl ⟨rfl, rfl⟩

end Stripping

section Comparing

variable {env : CallEnv} {entity : FileDie → Nat} {lhs rhs : FileDie} {s t : TypeTree}

theorem namedAlike_iff {lhs rhs : Option (List Byte)} :
    namedAlike lhs rhs = true ↔ lhs ≠ none ∧ lhs = rhs := by
  cases lhs with
  | none => exact iff_of_false Bool.false_ne_true fun h => h.1 rfl
  | some name =>
      cases rhs with
      | none => exact iff_of_false Bool.false_ne_true fun h => absurd h.2 (Option.some_ne_none _)
      | some other => simp [namedAlike]

/-- Two entries are compared by the names behind all layers. -/
theorem typeEquals_names (hlhs : env.Depicts entity lhs s) (hrhs : env.Depicts entity rhs t)
    (hs : s.layers < env.rounds) (ht : t.layers < env.rounds) :
    env.typeEquals (.dwarf lhs) (.dwarf rhs) =
      if s.entity = none ∨ t.entity = none then .error (.error "Attribute not found!")
      else .ok (namedAlike s.name t.name) := by
  rw [CallEnv.typeEquals]
  rcases hlhs.strip hs with ⟨hvoid, hfails⟩ | ⟨hs', core, hcore, hname⟩
  · rw [hfails, if_pos (.inl hvoid)]
    rfl
  rcases hrhs.strip ht with ⟨hvoid, hfails⟩ | ⟨ht', core', hcore', hname'⟩
  · rw [hcore, ok_bind, hfails, if_pos (.inr hvoid)]
    rfl
  · rw [hcore, ok_bind, hcore', ok_bind, hname, ok_bind, hname', ok_bind,
      if_neg (fun h => h.elim hs' ht')]
    rfl

theorem comparesRight_iff (hlhs : env.Depicts entity lhs s) (hrhs : env.Depicts entity rhs t)
    (hs : s.layers < env.rounds) (ht : t.layers < env.rounds) :
    env.ComparesRight lhs rhs s t ↔ s.ToldApart t := by
  rw [CallEnv.ComparesRight, typeEquals_names hlhs hrhs hs ht]
  constructor
  · intro h
    split at h
    · cases h
    rename_i htypes
    have hnames := Except.ok.inj h
    refine ⟨fun hvoid => htypes (.inl hvoid), fun hvoid => htypes (.inr hvoid), fun hsame => ?_,
      fun hdifferent => ?_⟩
    · rw [decide_eq_true hsame] at hnames
      exact namedAlike_iff.mp hnames
    · rw [decide_eq_false hdifferent] at hnames
      by_contra hneither
      rw [not_or, not_not] at hneither
      exact Bool.false_ne_true (hnames.symm.trans (namedAlike_iff.mpr hneither))
  · intro h
    rw [if_neg (fun hvoid => hvoid.elim h.lhsType h.rhsType)]
    by_cases hsame : s.Same t
    · rw [decide_eq_true hsame, namedAlike_iff.mpr (h.same hsame)]
    · have hnames : namedAlike s.name t.name = false := by
        refine Bool.eq_false_iff.mpr fun halike => ?_
        obtain ⟨hnamed, heq⟩ := namedAlike_iff.mp halike
        exact (h.different hsame).elim hnamed fun hne => hne heq
      rw [decide_eq_false hsame, hnames]

/-- A pointer to a type is compared as the type is. -/
theorem CallEnv.Overloads.sameType {type pointer func pointerFunc : FileDie} {arg : TypedData}
    (h : env.Overloads entity type pointer t func pointerFunc arg) :
    env.sameType pointer arg = env.sameType type arg := by
  have hrounds := h.rounds
  have hpointer : env.Depicts entity pointer (.layer .pointer t) :=
    .layer h.isPointer h.target h.isType
  have hlayers : t.layers < env.rounds := by omega
  rw [h.argument, h.argument, typeEquals_names hpointer h.isType hrounds hlayers,
    typeEquals_names h.isType h.isType hlayers hlayers]
  rfl

theorem isMatch_one {func param : FileDie} {arg : TypedData}
    (h : env.parameterTypes func = .ok [param]) :
    env.isMatch [arg] func = env.sameType param arg := by
  rw [CallEnv.isMatch, h, ok_bind, if_pos (show [arg].length = [param].length from rfl),
    CallEnv.typesMatch]
  cases env.sameType param arg with
  | error failure => rfl
  | ok matched => cases matched <;> rfl

/-- Of functions that match alike none is chosen. -/
theorem resolveOverload_alike {func other : FileDie} {args : List TypedData}
    (h : env.isMatch args func = env.isMatch args other) (chosen : FileDie) :
    env.resolveOverload [func, other] args ≠ .ok chosen := by
  intro hchosen
  rw [CallEnv.resolveOverload, CallEnv.matchOverload, h] at hchosen
  cases hmatch : env.isMatch args other with
  | error failure =>
      rw [hmatch] at hchosen
      cases hchosen
  | ok matched =>
      rw [hmatch, ok_bind] at hchosen
      cases matched with
      | false =>
          rw [if_neg Bool.false_ne_true, CallEnv.matchOverload, hmatch] at hchosen
          cases hchosen
      | true =>
          have hfirst : ¬ (none : Option FileDie).isSome = true := Bool.false_ne_true
          rw [if_pos rfl, if_neg hfirst, CallEnv.matchOverload, hmatch] at hchosen
          cases hchosen

end Comparing

/-- Two types are compared right exactly if neither is `void` behind its layers, they have
a name there if they are the same, and not the same name if they differ.  A call with an
argument of a type is never resolved between a function that takes it and one that takes
pointers to it. -/
theorem typeEquals_right_iff (env : CallEnv) (entity : FileDie → Nat) :
    (∀ (lhs rhs : FileDie) (s t : TypeTree), env.Depicts entity lhs s →
      env.Depicts entity rhs t → s.layers < env.rounds → t.layers < env.rounds →
      (env.ComparesRight lhs rhs s t ↔ s.ToldApart t)) ∧
    ∀ (type pointer : FileDie) (tree : TypeTree) (func pointerFunc : FileDie) (arg : TypedData),
      env.Overloads entity type pointer tree func pointerFunc arg → ∀ chosen,
      env.resolveOverload [func, pointerFunc] [arg] ≠ .ok chosen ∧
        env.resolveOverload [pointerFunc, func] [arg] ≠ .ok chosen := by
  refine ⟨fun lhs rhs s t hlhs hrhs hs ht => comparesRight_iff hlhs hrhs hs ht, ?_⟩
  intro type pointer tree func pointerFunc arg h chosen
  have halike : env.isMatch [arg] func = env.isMatch [arg] pointerFunc := by
    rw [isMatch_one h.takesType, isMatch_one h.takesPointer, h.sameType]
  exact ⟨resolveOverload_alike halike chosen, resolveOverload_alike halike.symm chosen⟩

namespace TypeEqualityWitness

def unitEntry : Abbrev := ⟨1, 0x11, true, []⟩

def baseEntry : Abbrev := ⟨2, tagBaseType, false, [⟨atName, .string⟩]⟩

def pointerEntry : Abbrev := ⟨3, tagPointerType, false, [⟨atType, .ref1⟩]⟩

def functionEntry : Abbrev := ⟨4, tagSubprogram, true, []⟩

def parameterEntry : Abbrev := ⟨5, tagFormalParameter, false, [⟨atType, .ref1⟩]⟩

/-- The types `int` and `int *` and a function for each. -/
def cu : CompileUnit :=
  ⟨0, List.replicate 11 0 ++ [1, 2, 0x69, 0x6e, 0x74, 0, 3, 12, 4, 5, 12, 0, 4, 5, 17, 0, 0],
    [unitEntry, baseEntry, pointerEntry, functionEntry, parameterEntry]⟩

def int : FileDie := (0, ⟨cu, 17, some ⟨12, baseEntry, [13]⟩⟩)

def pointer : FileDie := (0, ⟨cu, 19, some ⟨17, pointerEntry, [18]⟩⟩)

def func : FileDie := (0, ⟨cu, 20, some ⟨19, functionEntry, []⟩⟩)

def pointerFunc : FileDie := (0, ⟨cu, 24, some ⟨23, functionEntry, []⟩⟩)

def files : List IndexedFile := [⟨⟨[], [], [cu]⟩, [], []⟩]

/-- The arguments are of type `int`. -/
def env : CallEnv where
  elves := []
  files := files
  rounds := 3
  sameType := fun param _ =>
    CallEnv.typeEquals ⟨[], files, 3, fun _ _ => .ok false⟩ (.dwarf param) (.dwarf int)

def intTree : TypeTree := .core 0 (some [0x69, 0x6e, 0x74])

def arg : TypedData := ⟨[0, 0, 0, 0], .dwarf (.base (some "int") .signed 4), none⟩

theorem int_depicts : env.Depicts (fun _ => 0) int intTree :=
  .core (show CallEnv.tagOf int = .ok tagBaseType from rfl) (by decide) (by decide +kernel)

theorem pointer_target : env.targetType pointer = .ok int := by
  decide +kernel

theorem pointer_depicts : env.Depicts (fun _ => 0) pointer (.layer .pointer intTree) :=
  .layer rfl pointer_target int_depicts

theorem overloads : env.Overloads (fun _ => 0) int pointer intTree func pointerFunc arg where
  isType := int_depicts
  isPointer := rfl
  target := pointer_target
  rounds := by decide
  takesType := by decide +kernel
  takesPointer := by decide +kernel
  argument := fun _ => rfl

end TypeEqualityWitness

open TypeEqualityWitness in
/-- `int` and `int *` are equal, so that a call with an `int` is ambiguous. -/
theorem int_equals_pointer :
    ¬ ∀ (env : CallEnv) (entity : FileDie → Nat) (lhs rhs : FileDie) (s t : TypeTree),
      env.Depicts entity lhs s → env.Depicts entity rhs t → s.layers < env.rounds →
      t.layers < env.rounds → env.ComparesRight lhs rhs s t := by
  intro hall
  have hright := hall env _ int pointer _ _ int_depicts pointer_depicts (by decide) (by decide)
  have hequal : env.typeEquals (.dwarf int) (.dwarf pointer) = .ok true := by decide +kernel
  rw [CallEnv.ComparesRight, hequal] at hright
  exact absurd (Except.ok.inj hright) (by decide)

open TypeEqualityWitness in
theorem typeEquals_right_iff_int :
    (env.ComparesRight int pointer intTree (.layer .pointer intTree) ↔
      intTree.ToldApart (.layer .pointer intTree)) ∧
    ∀ chosen, env.resolveOverload [func, pointerFunc] [arg] ≠ .ok chosen ∧
      env.resolveOverload [pointerFunc, func] [arg] ≠ .ok chosen :=
  ⟨(typeEquals_right_iff env _).1 _ _ _ _ int_depicts pointer_depicts (by decide) (by decide),
    (typeEquals_right_iff env _).2 _ _ _ _ _ _ overloads⟩

end Gsdb
