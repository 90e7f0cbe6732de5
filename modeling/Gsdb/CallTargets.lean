/-
The entry whose code a call of the inferior enters.  Candidates come from the index by
name, where copies inlined into other functions stand beside the functions, or from the
chain of instances of a declaration.
-/
import Gsdb.Elf
import Gsdb.Evaluation
import Gsdb.MemberIndex

namespace Gsdb

open ByteMemory ByteCursor Effects

def atType : Word := 0x49
def tagFormalParameter : Word := 0x05

namespace Die

/-- The loop of `die::parameter_types` from a child on. -/
def parameterTypesFrom (dw : Dwarf) : Nat → Die → Except Failure (List Die)
  | 0, _ => .error .schedule
  | rounds + 1, child =>
      match child.entry with
      | none => .ok []
      | some entry => do
          let own ←
            if entry.abbrevEntry.tag = tagFormalParameter then do
              let ty ← reference dw child.cu entry atType
              pure [ty]
            else pure []
          let next ← increment dw (child.cu.data.length + 1) child
          let rest ← parameterTypesFrom dw rounds next
          pure (own ++ rest)

/-- `die::parameter_types`; a type is known by its entry. -/
def parameterTypes (dw : Dwarf) (die : Die) : Except Failure (List Die) :=
  match die.entry with
  | none => .error (.undefined "tag of a null entry")
  | some entry =>
      if entry.abbrevEntry.tag ≠ tagSubprogram then .ok []
      else if entry.abbrevEntry.hasChildren then do
        let first ← parseDie die.cu die.next
        parameterTypesFrom dw (die.cu.data.length + 1) first
      else .ok []

/-- `range_list::begin()->low`. -/
def rangeListFirst : Nat → Cursor → Word → Except Failure Word
  | 0, _, _ => .error (.undefined "read outside the buffer")
  | rounds + 1, cur, base => do
      let (low, cur) ← inBounds cur.u64
      let (high, cur) ← inBounds cur.u64
      if low = -1 then rangeListFirst rounds cur high
      else if low = 0 ∧ high = 0 then pure 0
      else pure (low + base)

/-- `die::low_pc`; `ranges` are the bytes of `.debug_ranges`. -/
def lowPcOf (ranges : List Byte) (die : Die) : Except Failure Word :=
  match die.entry with
  | none => .error (.undefined "attribute of a null entry")
  | some entry =>
      if contains entry atRanges then do
        let list ← attr die.cu entry atRanges
        let offset ← list.asSectionOffset
        let base ← rangeBase die.cu
        rangeListFirst (ranges.length + 1) ⟨ranges, offset.toNat⟩ base
      else if contains entry atLowPc then lowPc die.cu entry
      else .error (.error "DIE does NOT have low PC!")

def IsSubprogram (die : Die) : Prop :=
  ∃ entry, die.entry = some entry ∧ entry.abbrevEntry.tag = tagSubprogram

end Die

/-- A file with the lookups that have filled its index so far. -/
structure IndexedFile where
  dwarf : Dwarf
  ranges : List Byte
  earlier : List Lookup

/-- An entry, with the position of its file. -/
abbrev FileDie := Nat × Die

/-- What choosing the function of a call looks at: the loaded files and their debug
information, a bound on chains of references, and the comparison of a parameter's type
with that of an argument. -/
structure CallEnv where
  elves : ElfCollection
  files : List IndexedFile
  rounds : Nat
  sameType : FileDie → TypedData → Except Failure Bool

namespace CallEnv

variable (env : CallEnv)

def fileAt (position : Nat) : Except Failure IndexedFile :=
  match env.files[position]? with
  | some file => .ok file
  | none => .error (.undefined "dangling file")

/-- `dwarf::find_functions` of one file. -/
def findFunctionsIn (name : List Byte) (position : Nat) : Except Failure (List FileDie) := do
  let file ← env.fileAt position
  let dies ← (file.dwarf.findFunctions env.rounds name
    (file.dwarf.indexAfter env.rounds file.ranges file.earlier)).1
  pure (dies.map fun die => (position, die))

/-- The `dwarf_functions` of `target::find_functions`. -/
def findFunctions (name : List Byte) : Except Failure (List FileDie) := do
  let found ← (List.range env.files.length).mapM (env.findFunctionsIn name)
  pure found.flatten

def parameterTypes (func : FileDie) : Except Failure (List FileDie) := do
  let file ← env.fileAt func.1
  let types ← func.2.parameterTypes file.dwarf
  pure (types.map fun ty => (func.1, ty))

/-- Whether the types of all arguments are those of the parameters, up to the first
that is not. -/
def typesMatch : List FileDie → List TypedData → Except Failure Bool
  | param :: params, arg :: args => do
      if ← env.sameType param arg then typesMatch params args else .ok false
  | _, _ => .ok true

/-- Whether a function takes the arguments. -/
def isMatch (args : List TypedData) (func : FileDie) : Except Failure Bool := do
  let params ← env.parameterTypes func
  if args.length = params.length then env.typesMatch params args else .ok false

/-- The loop of `resolve_overload`. -/
def matchOverload (args : List TypedData) :
    List FileDie → Option FileDie → Except Failure (Option FileDie)
  | [], matching => .ok matching
  | func :: rest, matching => do
      let matched ← env.isMatch args func
      if matched then
        if matching.isSome then .error (.error "Ambiguous function call!")
        else matchOverload args rest (some func)
      else matchOverload args rest matching

/-- `resolve_overload`. -/
def resolveOverload (funcs : List FileDie) (args : List TypedData) : Except Failure FileDie := do
  match ← env.matchOverload args funcs none with
  | some func => .ok func
  | none => .error (.error "No matching function!")

/-- `dwarf::get_member_function_definition` of one file, for an entry that is known by its
position. -/
def memberDefinition (position : Nat) (declaration : Option Nat) : Except Failure (Option Die) := do
  let file ← env.fileAt position
  (file.dwarf.getMemberFunctionDefinition env.rounds env.rounds declaration
    (file.dwarf.indexAfter env.rounds file.ranges file.earlier)).1

/-- The entry whose code `inferior_call_from_dwarf` enters. -/
def callBody (func : FileDie) : Except Failure FileDie :=
  match func.2.entry with
  | none => .error (.undefined "attribute of a null entry")
  | some entry =>
      if entry.hasRange then .ok func
      else do
        match ← env.memberDefinition func.1 func.2.position with
        | none => .error (.error "No function definition found!")
        | some definition => .ok (func.1, definition)

/-- The address of an entry's code in memory. -/
def codeAddress (body : FileDie) : Except Failure Word := do
  let file ← env.fileAt body.1
  let low ← body.2.lowPcOf file.ranges
  FileAddr.toVirtAddr env.elves ⟨some body.1, low⟩

/-- The address that a call jumps to, of one of several functions or declarations. -/
def callAddress (funcs : List FileDie) (args : List TypedData) : Except Failure Word := do
  let func ← env.resolveOverload funcs args
  let body ← env.callBody func
  env.codeAddress body

/-- The address that the call of a function by its name jumps to. -/
def namedCallAddress (name : List Byte) (args : List TypedData) : Except Failure Word := do
  let funcs ← env.findFunctions name
  env.callAddress funcs args

/-- A function or an inlined copy with code and a name. -/
def IsCandidate (name : List Byte) (func : FileDie) : Prop :=
  ∃ file, env.files[func.1]? = some file ∧
    (∃ cu ∈ file.dwarf.units, ∃ inFunction, cu.Shows file.dwarf func.2 inFunction) ∧
    func.2.IsFunctionNamed file.dwarf name

/-- An entry of one of the files. -/
def IsEntry (die : FileDie) : Prop :=
  ∃ file, env.files[die.1]? = some file ∧
    ∃ cu ∈ file.dwarf.units, ∃ inFunction, cu.Shows file.dwarf die.2 inFunction

/-- Calls enter functions and no copies inlined into others. -/
structure EntersFunctions : Prop where
  overload : ∀ name args found func, env.findFunctions name = .ok found →
    env.resolveOverload found args = .ok func → func.2.IsSubprogram
  definition : ∀ position declaration body,
    env.memberDefinition position declaration = .ok (some body) → body.IsSubprogram
  named : ∀ name args address, env.namedCallAddress name args = .ok address →
    ∃ body, env.IsEntry body ∧ body.2.IsSubprogram ∧ env.codeAddress body = .ok address
  declared : ∀ funcs args address, (∀ func ∈ funcs, func.2.IsSubprogram) →
    env.callAddress funcs args = .ok address →
    ∃ body, (body ∈ funcs ∨ env.IsEntry body) ∧ body.2.IsSubprogram ∧
      env.codeAddress body = .ok address
  refused : ∀ name args, (∀ func, env.IsCandidate name func → ¬ func.2.IsSubprogram) →
    ∃ failure, env.namedCallAddress name args = .error failure

/-- An inlined copy shares its name with another function without parameters or with one
whose parameters cannot be read, and what refers first to an entry is no inlined copy
with code. -/
structure FunctionsFirst : Prop where
  shared : ∀ name func, env.IsCandidate name func → ¬ func.2.IsSubprogram →
    ∃ other, env.IsCandidate name other ∧ ((∃ failure, env.parameterTypes other = .error failure) ∨
      (other ≠ func ∧ env.parameterTypes other = .ok []))
  first : ∀ (position : Nat) (file : IndexedFile) (declaration : Option Nat) (v : Visit),
    env.files[position]? = some file →
    firstInstance file.dwarf file.dwarf.walk.visits declaration = some v →
    v.entry.hasRange = true → v.die.IsSubprogram

/-- What the index of every file answers. -/
structure Answers : Prop where
  functions : ∀ (name : List Byte) (position : Nat) (file : IndexedFile),
    env.files[position]? = some file → ∃ dies : List Die,
    env.findFunctionsIn name position = .ok (dies.map fun die => (position, die)) ∧ dies.Nodup ∧
    ∀ die, die ∈ dies ↔ (∃ cu ∈ file.dwarf.units, ∃ inFunction,
      cu.Shows file.dwarf die inFunction) ∧ die.IsFunctionNamed file.dwarf name
  definitions : ∀ (position : Nat) (file : IndexedFile) (declaration : Option Nat),
    env.files[position]? = some file →
    env.memberDefinition position declaration =
      definitionFrom file.dwarf file.dwarf.walk.visits env.rounds declaration
  visits : ∀ (position : Nat) (file : IndexedFile), env.files[position]? = some file →
    ∀ v ∈ file.dwarf.walk.visits,
      ∃ cu ∈ file.dwarf.units, cu.Shows file.dwarf v.die v.inFunction

theorem fileAt_eq_ok {env : CallEnv} {position : Nat} {file : IndexedFile}
    (h : env.fileAt position = .ok file) : env.files[position]? = some file := by
  rw [fileAt] at h
  cases hfile : env.files[position]? with
  | none =>
      rw [hfile] at h
      cases h
  | some found =>
      rw [hfile] at h
      cases h
      rfl

section Overloads

variable {env : CallEnv} {args : List TypedData} {func other : FileDie} {funcs : List FileDie}

/-- Functions that do not take the arguments are passed over. -/
theorem matchOverload_skip {skipped : List FileDie}
    (h : ∀ func ∈ skipped, env.isMatch args func = .ok false) (rest : List FileDie)
    (matching : Option FileDie) :
    env.matchOverload args (skipped ++ rest) matching = env.matchOverload args rest matching := by
  induction skipped with
  | nil => rfl
  | cons func skipped ih =>
      rw [List.cons_append, matchOverload, h func List.mem_cons_self]
      exact ih fun other hother => h other (List.mem_cons_of_mem func hother)

/-- The only function that takes the arguments is chosen. -/
theorem resolveOverload_only (hnodup : funcs.Nodup) (hfunc : func ∈ funcs)
    (hmatch : env.isMatch args func = .ok true)
    (hothers : ∀ other ∈ funcs, other ≠ func → env.isMatch args other = .ok false) :
    env.resolveOverload funcs args = .ok func := by
  obtain ⟨before, after, rfl⟩ := List.append_of_mem hfunc
  obtain ⟨-, hafter, happart⟩ := List.nodup_append.mp hnodup
  have hbefore : ∀ other ∈ before, env.isMatch args other = .ok false := fun other hother =>
    hothers other (List.mem_append_left _ hother) (happart other hother func List.mem_cons_self)
  have hrest : ∀ other ∈ after, env.isMatch args other = .ok false := by
    intro other hother
    refine hothers other (List.mem_append_right _ (List.mem_cons_of_mem func hother)) ?_
    rintro rfl
    exact (List.nodup_cons.mp hafter).1 hother
  have hlast := matchOverload_skip hrest [] (some func)
  rw [List.append_nil] at hlast
  have hfound : env.matchOverload args (before ++ func :: after) none = .ok (some func) := by
    rw [matchOverload_skip hbefore, matchOverload, hmatch]
    exact hlast
  rw [resolveOverload, hfound]
  rfl

/-- What the chosen function and the others are like. -/
theorem matchOverload_eq_some {matching : Option FileDie}
    (h : env.matchOverload args funcs matching = .ok (some func)) :
    (∀ other ∈ funcs, ∃ matched, env.isMatch args other = .ok matched) ∧
      (matching = some func ∧ (∀ other ∈ funcs, env.isMatch args other = .ok false) ∨
        matching = none ∧ func ∈ funcs ∧ env.isMatch args func = .ok true ∧
          ∀ other ∈ funcs, env.isMatch args other = .ok true → other = func) := by
  induction funcs generalizing matching with
  | nil =>
      cases h
      exact ⟨by simp, .inl ⟨rfl, by simp⟩⟩
  | cons next rest ih =>
      obtain ⟨matched, hmatched, hrest⟩ := bind_eq_ok.mp h
      cases matched with
      | false =>
          obtain ⟨hread, hcases⟩ := ih (hrest : env.matchOverload args rest matching = _)
          refine ⟨List.forall_mem_cons.mpr ⟨⟨false, hmatched⟩, hread⟩, ?_⟩
          rcases hcases with ⟨hkept, hnone⟩ | ⟨hnone, hin, hmatch, honly⟩
          · exact .inl ⟨hkept, List.forall_mem_cons.mpr ⟨hmatched, hnone⟩⟩
          · refine .inr ⟨hnone, List.mem_cons_of_mem next hin, hmatch,
              List.forall_mem_cons.mpr ⟨fun hother => ?_, honly⟩⟩
            rw [hmatched] at hother
            cases hother
      | true =>
          cases matching with
          | some held => cases hrest
          | none =>
              obtain ⟨hread, hcases⟩ := ih (hrest : env.matchOverload args rest (some next) = _)
              refine ⟨List.forall_mem_cons.mpr ⟨⟨true, hmatched⟩, hread⟩, ?_⟩
              rcases hcases with ⟨hkept, hnone⟩ | ⟨hnone, -⟩
              · cases hkept
                refine .inr ⟨rfl, List.mem_cons_self, hmatched,
                  List.forall_mem_cons.mpr ⟨fun _ => rfl, fun other hother hmatch => ?_⟩⟩
                rw [hnone other hother] at hmatch
                cases hmatch
              · cases hnone

theorem resolveOverload_eq_ok (h : env.resolveOverload funcs args = .ok func) :
    (∀ other ∈ funcs, ∃ matched, env.isMatch args other = .ok matched) ∧ func ∈ funcs ∧
      env.isMatch args func = .ok true ∧
      ∀ other ∈ funcs, env.isMatch args other = .ok true → other = func := by
  obtain ⟨found, hfound, hend⟩ := bind_eq_ok.mp h
  cases found with
  | none => cases hend
  | some chosen =>
      cases hend
      obtain ⟨hread, ⟨hnone, -⟩ | ⟨-, hcases⟩⟩ := matchOverload_eq_some hfound
      · cases hnone
      · exact ⟨hread, hcases⟩

end Overloads

section Candidates

variable {env : CallEnv} {name : List Byte} {func : FileDie}

/-- `find_functions` of all files finds every candidate once. -/
theorem Answers.candidates (h : env.Answers) (name : List Byte) :
    ∃ found, env.findFunctions name = .ok found ∧ found.Nodup ∧
      ∀ func, func ∈ found ↔ env.IsCandidate name func := by
  have hin : ∀ position, ∃ dies : List Die, position < env.files.length →
      env.findFunctionsIn name position = .ok (dies.map fun die => (position, die)) ∧ dies.Nodup ∧
        ∀ die, die ∈ dies ↔ env.IsCandidate name (position, die) := by
    intro position
    by_cases hlt : position < env.files.length
    · have hfile := List.getElem?_eq_getElem hlt
      obtain ⟨dies, hfound, hnodup, hmem⟩ := h.functions name position _ hfile
      refine ⟨dies, fun _ => ⟨hfound, hnodup, fun die => (hmem die).trans ?_⟩⟩
      constructor
      · rintro ⟨hshown, hnamed⟩
        exact ⟨_, hfile, hshown, hnamed⟩
      · rintro ⟨file, hother, hshown, hnamed⟩
        cases hfile.symm.trans hother
        exact ⟨hshown, hnamed⟩
    · exact ⟨[], fun hinside => absurd hinside hlt⟩
  choose dies hdies using hin
  have hall : ∀ position ∈ List.range env.files.length, env.findFunctionsIn name position =
      .ok ((dies position).map fun die => (position, die)) :=
    fun position hposition => (hdies position (List.mem_range.mp hposition)).1
  refine ⟨((List.range env.files.length).map fun position =>
    (dies position).map fun die => (position, die)).flatten, ?_, ?_, fun func => ?_⟩
  · rw [findFunctions, mapM_eq_ok_of_forall hall]
    rfl
  · refine List.nodup_flatten.mpr ⟨fun list hlist => ?_, ?_⟩
    · obtain ⟨position, hposition, rfl⟩ := List.mem_map.mp hlist
      refine (hdies position (List.mem_range.mp hposition)).2.1.map fun first second heq => ?_
      exact (Prod.mk.inj heq).2
    · refine List.pairwise_map.mpr (List.nodup_range.imp fun hne => ?_)
      intro func hfirst hsecond
      obtain ⟨_, -, rfl⟩ := List.mem_map.mp hfirst
      obtain ⟨_, -, heq⟩ := List.mem_map.mp hsecond
      exact hne (Prod.mk.inj heq).1.symm
  · rw [List.mem_flatten]
    constructor
    · rintro ⟨list, hlist, hfunc⟩
      obtain ⟨position, hposition, rfl⟩ := List.mem_map.mp hlist
      obtain ⟨die, hdie, rfl⟩ := List.mem_map.mp hfunc
      exact ((hdies position (List.mem_range.mp hposition)).2.2 die).mp hdie
    · intro hcandidate
      have hlt : func.1 < env.files.length := by
        obtain ⟨file, hfile, -⟩ := hcandidate
        exact (List.getElem?_eq_some_iff.mp hfile).1
      have hdie := ((hdies func.1 hlt).2.2 func.2).mpr hcandidate
      exact ⟨_, List.mem_map_of_mem (List.mem_range.mpr hlt), List.mem_map_of_mem hdie⟩

/-- An entry that is no function has no parameters. -/
theorem parameterTypes_inlined (h : env.IsCandidate name func) (hinlined : ¬ func.2.IsSubprogram) :
    env.parameterTypes func = .ok [] := by
  obtain ⟨file, hfile, -, entry, hentry, -⟩ := h
  have htag : entry.abbrevEntry.tag ≠ tagSubprogram := fun heq => hinlined ⟨entry, hentry, heq⟩
  rw [parameterTypes, fileAt, hfile, ok_bind, Die.parameterTypes, hentry]
  simp [htag]

/-- Without arguments, the functions without parameters are taken. -/
theorem isMatch_nil {types : List FileDie} (h : env.parameterTypes func = .ok types) :
    env.isMatch [] func = .ok types.isEmpty := by
  rw [isMatch, h, ok_bind]
  cases types with
  | nil => rfl
  | cons ty rest => rfl

/-- Whether a function takes no arguments, when the parameters of all can be read. -/
theorem not_isMatch_nil {types : List FileDie} (h : env.parameterTypes func = .ok types)
    (hsome : env.parameterTypes func ≠ .ok []) : env.isMatch [] func = .ok false := by
  rw [isMatch_nil h]
  cases types with
  | nil => exact absurd h hsome
  | cons ty rest => rfl

end Candidates

section Directions

variable {env : CallEnv}

/-- A definition that is found is the first that refers to some entry. -/
theorem definitionFrom_eq_some {dw : Dwarf} {visits : List Visit} {chain : Nat}
    {declaration : Option Nat} {body : Die}
    (h : definitionFrom dw visits chain declaration = .ok (some body)) :
    ∃ declaration v, firstInstance dw visits declaration = some v ∧ v.entry.hasRange = true ∧
      v.die = body := by
  induction chain generalizing declaration with
  | zero => cases h
  | succ chain ih =>
      rw [definitionFrom] at h
      cases hfirst : firstInstance dw visits declaration with
      | none =>
          rw [hfirst] at h
          cases h
      | some v =>
          simp only [hfirst] at h
          cases hrange : v.entry.hasRange with
          | true =>
              rw [if_pos hrange] at h
              cases h
              exact ⟨declaration, v, hfirst, hrange, rfl⟩
          | false =>
              rw [if_neg (by simp [hrange])] at h
              exact ih h

/-- What is selected as the definition of an entry is a function of the file. -/
def DefinitionsAreFunctions (env : CallEnv) : Prop :=
  ∀ position declaration body, env.memberDefinition position declaration = .ok (some body) →
    env.IsEntry (position, body) ∧ body.IsSubprogram

/-- Functions are entered where overloads and definitions are functions: the overload itself, or
an entry of the files. -/
theorem callAddress_body (hdefinition : env.DefinitionsAreFunctions)
    {funcs : List FileDie} {args : List TypedData} {address : Word}
    (hfunc : ∀ func, env.resolveOverload funcs args = .ok func → func.2.IsSubprogram)
    (h : env.callAddress funcs args = .ok address) :
    ∃ body, (env.resolveOverload funcs args = .ok body ∨ env.IsEntry body) ∧
      body.2.IsSubprogram ∧ env.codeAddress body = .ok address := by
  obtain ⟨func, hresolve, hrest⟩ := bind_eq_ok.mp h
  obtain ⟨body, hbody, haddress⟩ := bind_eq_ok.mp hrest
  refine ⟨body, ?_⟩
  have hsub := hfunc func hresolve
  obtain ⟨entry, hentry, -⟩ := hsub
  rw [callBody, hentry] at hbody
  cases hrange : entry.hasRange with
  | true =>
      simp only [hrange] at hbody
      cases hbody
      exact ⟨.inl hresolve, hfunc func hresolve, haddress⟩
  | false =>
      simp only [hrange] at hbody
      obtain ⟨found, hfound, hend⟩ := bind_eq_ok.mp hbody
      cases found with
      | none => cases hend
      | some definition =>
          cases hend
          obtain ⟨hshown, hsub⟩ := hdefinition _ _ _ hfound
          exact ⟨.inr hshown, hsub, haddress⟩

theorem IsCandidate.isEntry {name : List Byte} {func : FileDie} (h : env.IsCandidate name func) :
    env.IsEntry func := by
  obtain ⟨file, hfile, hshown, -⟩ := h
  exact ⟨file, hfile, hshown⟩

theorem FunctionsFirst.enters (h : env.FunctionsFirst) (hanswers : env.Answers) :
    env.EntersFunctions := by
  have hoverload : ∀ name args found func, env.findFunctions name = .ok found →
      env.resolveOverload found args = .ok func →
      env.IsCandidate name func ∧ func.2.IsSubprogram := by
    intro name args found func hfind hresolve
    obtain ⟨all, hall, -, hmem⟩ := hanswers.candidates name
    cases hall.symm.trans hfind
    obtain ⟨hread, hin, hmatch, honly⟩ := resolveOverload_eq_ok hresolve
    have hcandidate := (hmem func).mp hin
    refine ⟨hcandidate, ?_⟩
    by_contra hinlined
    have hnone := parameterTypes_inlined hcandidate hinlined
    have hargs : args = [] := by
      rw [isMatch, hnone, ok_bind] at hmatch
      cases args with
      | nil => rfl
      | cons arg rest => cases hmatch
    subst hargs
    obtain ⟨other, hother, hcases⟩ := h.shared name func hcandidate hinlined
    have hinOther := (hmem other).mpr hother
    rcases hcases with ⟨failure, hfails⟩ | ⟨hne, hparameterless⟩
    · obtain ⟨matched, hmatched⟩ := hread other hinOther
      rw [isMatch, hfails] at hmatched
      cases hmatched
    · exact hne (honly other hinOther (isMatch_nil hparameterless))
  have hdefinition : env.DefinitionsAreFunctions := by
    intro position declaration body hbody
    obtain ⟨file, hfile, -⟩ := bind_eq_ok.mp hbody
    have hpresent := fileAt_eq_ok hfile
    rw [hanswers.definitions position file declaration hpresent] at hbody
    obtain ⟨declared, v, hfirst, hrange, rfl⟩ := definitionFrom_eq_some hbody
    obtain ⟨cu, hcu, hshows⟩ :=
      hanswers.visits position file hpresent v (List.mem_of_find?_eq_some hfirst)
    exact ⟨⟨file, hpresent, cu, hcu, _, hshows⟩,
      h.first position file declared v hpresent hfirst hrange⟩
  refine ⟨fun name args found func hfind hresolve => (hoverload name args found func hfind
    hresolve).2, fun position declaration body hbody => (hdefinition _ _ _ hbody).2, ?_, ?_, ?_⟩
  · intro name args address hcall
    obtain ⟨funcs, hfind, haddress⟩ := bind_eq_ok.mp hcall
    obtain ⟨body, hfrom, hsub, hcode⟩ := callAddress_body hdefinition
      (fun func hresolve => (hoverload name args funcs func hfind hresolve).2) haddress
    refine ⟨body, hfrom.elim (fun hresolve => ?_) id, hsub, hcode⟩
    exact (hoverload name args funcs body hfind hresolve).1.isEntry
  · intro funcs args address hall hcall
    obtain ⟨body, hfrom, hbody⟩ := callAddress_body hdefinition
      (fun func hresolve => hall func (resolveOverload_eq_ok hresolve).2.1) hcall
    exact ⟨body, hfrom.imp_left fun hresolve => (resolveOverload_eq_ok hresolve).2.1, hbody⟩
  · intro name args hnone
    cases hcall : env.namedCallAddress name args with
    | error failure => exact ⟨failure, rfl⟩
    | ok address =>
        obtain ⟨funcs, hfind, haddress⟩ := bind_eq_ok.mp hcall
        obtain ⟨func, hresolve, -⟩ := bind_eq_ok.mp haddress
        obtain ⟨hcandidate, hsub⟩ := hoverload name args funcs func hfind hresolve
        exact absurd hsub (hnone func hcandidate)

theorem EntersFunctions.first (h : env.EntersFunctions) (hanswers : env.Answers)
    (hrounds : 0 < env.rounds) : env.FunctionsFirst := by
  refine ⟨fun name func hcandidate hinlined => ?_, ?_⟩
  · by_contra hnone
    have hread : ∀ other, env.IsCandidate name other →
        ∃ types, env.parameterTypes other = .ok types := by
      intro other hother
      cases htypes : env.parameterTypes other with
      | ok types => exact ⟨types, rfl⟩
      | error failure => exact absurd ⟨other, hother, .inl ⟨failure, htypes⟩⟩ hnone
    obtain ⟨found, hfind, hnodup, hmem⟩ := hanswers.candidates name
    have hresolve : env.resolveOverload found [] = .ok func := by
      refine resolveOverload_only hnodup ((hmem func).mpr hcandidate)
        (isMatch_nil (parameterTypes_inlined hcandidate hinlined)) fun other hother hne => ?_
      obtain ⟨types, htypes⟩ := hread other ((hmem other).mp hother)
      exact not_isMatch_nil htypes fun hparameterless =>
        hnone ⟨other, (hmem other).mp hother, .inr ⟨hne, hparameterless⟩⟩
    exact hinlined (h.overload name [] found func hfind hresolve)
  · intro position file declaration v hfile hfirst hrange
    refine h.definition position declaration v.die ?_
    rw [hanswers.definitions position file declaration hfile]
    obtain ⟨chain, hchain⟩ := Nat.exists_eq_succ_of_ne_zero hrounds.ne'
    rw [hchain, definitionFrom]
    simp [hfirst, hrange]

end Directions

end CallEnv

/-- What the index of a file answers. -/
structure IndexedFile.Answers (file : IndexedFile) (rounds : Nat) : Prop where
  functions : ∀ name, ∃ dies : List Die, (file.dwarf.findFunctions rounds name
      (file.dwarf.indexAfter rounds file.ranges file.earlier)).1 = .ok dies ∧ dies.Nodup ∧
    ∀ die, die ∈ dies ↔ (∃ cu ∈ file.dwarf.units, ∃ inFunction,
      cu.Shows file.dwarf die inFunction) ∧ die.IsFunctionNamed file.dwarf name
  definitions : ∀ declaration, (file.dwarf.getMemberFunctionDefinition rounds rounds declaration
      (file.dwarf.indexAfter rounds file.ranges file.earlier)).1 =
    definitionFrom file.dwarf file.dwarf.walk.visits rounds declaration
  visits : ∀ v ∈ file.dwarf.walk.visits,
    ∃ cu ∈ file.dwarf.units, cu.Shows file.dwarf v.die v.inFunction

theorem IndexedFile.exists_answers {file : IndexedFile} (h : file.dwarf.WellFormed) :
    ∃ enough, ∀ rounds, enough ≤ rounds → file.Answers rounds := by
  obtain ⟨visits, enough, hwalk, hvisits, hgood⟩ := h.exists_visits
  have hsame : file.dwarf.walk.visits = visits := congrArg Walk.visits hwalk
  refine ⟨enough, fun rounds hrounds => ⟨fun name => ?_, fun declaration => ?_, fun v hv => ?_⟩⟩
  · have hnames := fun v hv => (hgood rounds hrounds v hv).1
    obtain ⟨honce, hmem⟩ := functions_answer hvisits hnames name
    refine ⟨_, findFunctions_visits hwalk hvisits (fun v hv => (hgood rounds hrounds v hv).2) _ _ _,
      honce, fun die => (hmem die).trans ?_⟩
    constructor
    · rintro ⟨cu, hcu, inFunction, hshows, hnamed⟩
      exact ⟨⟨cu, hcu, inFunction, hshows⟩, hnamed⟩
    · rintro ⟨⟨cu, hcu, inFunction, hshows⟩, hnamed⟩
      exact ⟨cu, hcu, inFunction, hshows, hnamed⟩
  · have houtcome := fun v hv => (hgood rounds hrounds v hv).2
    rw [hsame]
    exact getMemberFunctionDefinition_settled hwalk hvisits houtcome rounds declaration
      (indexAfter_definitions hwalk houtcome file.ranges file.earlier)
  · rw [hsame] at hv
    exact ((hvisits.shown v).mp hv).2

theorem exists_enough {α : Type} {P : α → Nat → Prop} {items : List α}
    (h : ∀ a ∈ items, ∃ enough, ∀ rounds, enough ≤ rounds → P a rounds) :
    ∃ enough, ∀ rounds, enough ≤ rounds → ∀ a ∈ items, P a rounds := by
  induction items with
  | nil => exact ⟨0, by simp⟩
  | cons a rest ih =>
      obtain ⟨enough, hrest⟩ := ih fun b hb => h b (List.mem_cons_of_mem a hb)
      obtain ⟨own, hown⟩ := h a List.mem_cons_self
      refine ⟨max own enough, fun rounds hrounds => List.forall_mem_cons.mpr ⟨?_, ?_⟩⟩
      · exact hown rounds ((Nat.le_max_left _ _).trans hrounds)
      · exact hrest rounds ((Nat.le_max_right _ _).trans hrounds)

/-- In files with well-formed debug information, calls enter functions if and only if every
inlined copy shares its name with another parameterless function, and none is the first
that refers to an entry. -/
theorem CallEnv.entersFunctions_iff {files : List IndexedFile}
    (h : ∀ file ∈ files, file.dwarf.WellFormed) :
    ∃ enough, ∀ env : CallEnv, env.files = files → enough ≤ env.rounds →
      (env.EntersFunctions ↔ env.FunctionsFirst) := by
  obtain ⟨enough, hall⟩ := exists_enough fun file hfile =>
    IndexedFile.exists_answers (h file hfile)
  refine ⟨enough + 1, fun env hfiles hrounds => ?_⟩
  have hanswers : env.Answers := by
    constructor
    · intro name position file hfile
      have hmem : file ∈ files := hfiles ▸ List.mem_of_getElem? hfile
      obtain ⟨dies, hdies, hrest⟩ := (hall env.rounds (by omega) file hmem).functions name
      refine ⟨dies, ?_, hrest⟩
      rw [findFunctionsIn, fileAt, hfile, ok_bind, hdies]
      rfl
    · intro position file declaration hfile
      have hmem : file ∈ files := hfiles ▸ List.mem_of_getElem? hfile
      rw [memberDefinition, fileAt, hfile, ok_bind]
      exact (hall env.rounds (by omega) file hmem).definitions declaration
    · intro position file hfile
      exact (hall env.rounds (by omega) file (hfiles ▸ List.mem_of_getElem? hfile)).visits
  exact ⟨fun henters => henters.first hanswers (by omega), fun hfirst => hfirst.enters hanswers⟩

section Evaluation

variable {callEnv : CallEnv} {env : Environment} {typeOf : FileDie → Ty}

/-- The evaluation knows the parameters of a function and where a call of it jumps to. -/
structure CallEnv.Describes (callEnv : CallEnv) (typeOf : FileDie → Ty) (func : FileDie)
    (function : Function) : Prop where
  parameters : ∃ types, callEnv.parameterTypes func = .ok types ∧
    function.parameterTypes = types.map typeOf
  address : Debugger.callAddress function = callEnv.callBody func >>= callEnv.codeAddress

theorem typesMatch_functions
    (hsame : ∀ ty arg, callEnv.sameType ty arg = env.sameType (.dwarf (typeOf ty)) arg.type)
    (params : List FileDie) (args : List TypedData) :
    Debugger.typesMatch env (params.map typeOf) args = callEnv.typesMatch params args := by
  induction params generalizing args with
  | nil => rfl
  | cons param params ih =>
      cases args with
      | nil => rfl
      | cons arg args =>
          rw [List.map_cons, Debugger.typesMatch, CallEnv.typesMatch, hsame]
          simp only [ih]

/-- Overload resolution in an evaluation is that of the entries. -/
theorem matchOverload_functions {function : FileDie → Function} {args : List TypedData}
    {funcs : List FileDie}
    (hsame : ∀ ty arg, callEnv.sameType ty arg = env.sameType (.dwarf (typeOf ty)) arg.type)
    (h : ∀ func ∈ funcs, callEnv.Describes typeOf func (function func))
    (matching : Option FileDie) :
    Debugger.matchOverload env args (funcs.map function) (matching.map function) =
      (callEnv.matchOverload args funcs matching).map (Option.map function) := by
  induction funcs generalizing matching with
  | nil => rfl
  | cons func rest ih =>
      have hrest := ih fun other hother => h other (List.mem_cons_of_mem func hother)
      obtain ⟨types, htypes, hparameters⟩ := (h func List.mem_cons_self).parameters
      have hlength : (function func).parameterTypes.length = types.length := by
        rw [hparameters, List.length_map]
      have hmatch : callEnv.isMatch args func =
          if args.length = types.length then callEnv.typesMatch types args else .ok false := by
        rw [CallEnv.isMatch, htypes]
        rfl
      rw [List.map_cons, Debugger.matchOverload, CallEnv.matchOverload, hmatch, hlength,
        hparameters]
      by_cases hcount : args.length = types.length
      · rw [if_pos hcount, if_pos hcount, typesMatch_functions hsame]
        cases callEnv.typesMatch types args with
        | error failure => rfl
        | ok matched =>
            cases matched with
            | false => exact hrest matching
            | true =>
                cases matching with
                | some held => rfl
                | none => exact hrest (some func)
      · rw [if_neg hcount, if_neg hcount]
        exact hrest matching

/-- The address that an evaluation calls is that of the entries. -/
theorem resolveOverload_callAddress {function : FileDie → Function} {funcs : List FileDie}
    (args : List TypedData)
    (hsame : ∀ ty arg, callEnv.sameType ty arg = env.sameType (.dwarf (typeOf ty)) arg.type)
    (h : ∀ func ∈ funcs, callEnv.Describes typeOf func (function func)) :
    (Debugger.resolveOverload env (funcs.map function) args >>= Debugger.callAddress) =
      callEnv.callAddress funcs args := by
  have hmatch : Debugger.matchOverload env args (funcs.map function) none =
      (callEnv.matchOverload args funcs none).map (Option.map function) :=
    matchOverload_functions hsame h none
  rw [Debugger.resolveOverload, CallEnv.callAddress, CallEnv.resolveOverload, hmatch]
  cases hfound : callEnv.matchOverload args funcs none with
  | error failure => rfl
  | ok found =>
      cases found with
      | none => rfl
      | some func =>
          have hfunc : callEnv.resolveOverload funcs args = .ok func := by
            rw [CallEnv.resolveOverload, hfound]
            rfl
          exact (h func (CallEnv.resolveOverload_eq_ok hfunc).2.1).address

/-- What an evaluation knows of a function that is an entry of the files. -/
def CallEnv.functionOf (callEnv : CallEnv) (typeOf : FileDie → Ty)
    (returnType objectPointerType : FileDie → Option Ty) (func : FileDie) : Function where
  parameterTypes := ((callEnv.parameterTypes func).toOption.getD []).map typeOf
  returnType := returnType func
  ownAddress :=
    if func.2.entry.any DieEntry.hasRange then (callEnv.codeAddress func).toOption else none
  definitionAddress := (callEnv.callBody func >>= callEnv.codeAddress).toOption
  objectPointerType := objectPointerType func

/-- An entry can be called: its parameters are known, and its code is found or missing. -/
structure CallEnv.Callable (callEnv : CallEnv) (func : FileDie) : Prop where
  parameters : ∃ types, callEnv.parameterTypes func = .ok types
  address : (∃ address, (callEnv.callBody func >>= callEnv.codeAddress) = .ok address) ∨
    callEnv.callBody func = .error (.error "No function definition found!")

theorem CallEnv.functionOf_describes {returnType objectPointerType : FileDie → Option Ty}
    {func : FileDie} (h : callEnv.Callable func) :
    callEnv.Describes typeOf func
      (callEnv.functionOf typeOf returnType objectPointerType func) where
  parameters := by
    obtain ⟨types, htypes⟩ := h.parameters
    refine ⟨types, htypes, ?_⟩
    rw [functionOf, htypes]
    rfl
  address := by
    have hown : func.2.entry.any DieEntry.hasRange = true → callEnv.callBody func = .ok func := by
      intro hrange
      cases hentry : func.2.entry with
      | none =>
          rw [hentry] at hrange
          cases hrange
      | some entry =>
          rw [hentry] at hrange
          simp only [callBody, hentry, if_pos (show entry.hasRange = true from hrange)]
    by_cases hrange : func.2.entry.any DieEntry.hasRange = true
    · have hbody := hown hrange
      rcases h.address with ⟨address, haddress⟩ | hmissing
      · have hcode : callEnv.codeAddress func = .ok address := by
          rwa [hbody, ok_bind] at haddress
        rw [haddress, Debugger.callAddress, functionOf, if_pos hrange, hcode]
        rfl
      · rw [hbody] at hmissing
        cases hmissing
    · rcases h.address with ⟨address, haddress⟩ | hmissing
      · rw [haddress, Debugger.callAddress, functionOf, if_neg hrange, haddress]
        rfl
      · rw [hmissing, Debugger.callAddress, functionOf, if_neg hrange, hmissing]
        rfl

/-- An evaluation whose functions are entries of the files calls the address that is chosen by the
entries. -/
theorem resolveOverload_functionOf {returnType objectPointerType : FileDie → Option Ty}
    {funcs : List FileDie} (args : List TypedData)
    (hsame : ∀ ty arg, callEnv.sameType ty arg = env.sameType (.dwarf (typeOf ty)) arg.type)
    (h : ∀ func ∈ funcs, callEnv.Callable func) :
    (Debugger.resolveOverload env
        (funcs.map (callEnv.functionOf typeOf returnType objectPointerType)) args >>=
      Debugger.callAddress) = callEnv.callAddress funcs args :=
  resolveOverload_callAddress args hsame fun func hfunc =>
    callEnv.functionOf_describes (h func hfunc)

end Evaluation

namespace CallTargetsWitness

open IndexCompleteWitness (unitEntry declarationEntry functionEntry variableEntry root declaration
  function globalVariable name_encodes dwarf_wellFormed unit_dies)

def callerEntry : Abbrev := ⟨3, tagSubprogram, true, [⟨atName, .string⟩, ⟨atLowPc, .addr⟩]⟩

def copyEntry : Abbrev :=
  ⟨4, tagInlinedSubroutine, false, [⟨atAbstractOrigin, .ref1⟩, ⟨atLowPc, .addr⟩]⟩

/-- A function `f` without code of its own, and a function `m` that it is inlined into. -/
def cu : CompileUnit :=
  ⟨0, List.replicate 11 0 ++ [1, 2, 0x66, 0, 3, 0x6d, 0, 0x00, 0x10, 0, 0, 0, 0, 0, 0,
    4, 12, 0x08, 0x10, 0, 0, 0, 0, 0, 0, 0, 0],
    [unitEntry, declarationEntry, callerEntry, copyEntry]⟩

def dwarf : Dwarf := ⟨[], [], [cu]⟩

def copy : Die := ⟨cu, 36, some ⟨26, copyEntry, [27, 28]⟩⟩

def env : CallEnv where
  elves := [⟨[], [⟨".text", 6, 0x1000, 0x1000, 0x200⟩], 0x555555554000⟩]
  files := [⟨dwarf, [], []⟩]
  rounds := 2
  sameType := fun _ _ => .ok true

theorem encodes : ∃ tree, EncodesUnit cu tree := by
  have hlast : EncodesSiblings cu 37 [] 38 := .null ⟨_, rfl⟩ (show IsUleb [0] 0 from rfl)
  have hinner : EncodesSiblings cu 36 [] 37 := .null ⟨_, rfl⟩ (show IsUleb [0] 0 from rfl)
  have hcopy : EncodesHead cu 26 copyEntry
      [⟨atAbstractOrigin, .ref1, [12]⟩, ⟨atLowPc, .addr, [0x08, 0x10, 0, 0, 0, 0, 0, 0]⟩] 36 36 :=
    ⟨[4], 4, ⟨_, rfl⟩, rfl, by decide, rfl,
      .value (by decide) rfl ⟨_, rfl⟩ (.fixed rfl)
        (.value (by decide) rfl ⟨_, rfl⟩ (.fixed rfl) .nil)⟩
  have hcaller : EncodesHead cu 15 callerEntry
      [⟨atName, .string, [0x6d, 0]⟩, ⟨atLowPc, .addr, [0, 0x10, 0, 0, 0, 0, 0, 0]⟩] 26 37 :=
    ⟨[3], 3, ⟨_, rfl⟩, rfl, by decide, rfl,
      .value (by decide) rfl ⟨_, rfl⟩ (name_encodes 0x6d (by decide))
        (.value (by decide) rfl ⟨_, rfl⟩ (.fixed rfl) .nil)⟩
  have hdeclaration : EncodesHead cu 12 declarationEntry [⟨atName, .string, [0x66, 0]⟩] 15 15 :=
    ⟨[2], 2, ⟨_, rfl⟩, rfl, by decide, rfl,
      .value (by decide) rfl ⟨_, rfl⟩ (name_encodes 0x66 (by decide)) .nil⟩
  have hroot : EncodesHead cu 11 unitEntry [] 12 38 :=
    ⟨[1], 1, ⟨_, rfl⟩, rfl, by decide, rfl, .nil⟩
  exact ⟨_, .parent hroot rfl (.leaf hdeclaration rfl (.parent hcaller rfl
    (.leaf hcopy rfl hinner) hlast))⟩

def defined : IndexedFile := ⟨IndexCompleteWitness.dwarf, [], []⟩

theorem defined_visits : defined.dwarf.walk.visits =
    [⟨root, ⟨11, unitEntry, []⟩, false⟩, ⟨declaration, ⟨12, declarationEntry, [13]⟩, false⟩,
      ⟨function, ⟨15, functionEntry, [16, 17]⟩, false⟩,
      ⟨globalVariable, ⟨25, variableEntry, [26, 28]⟩, false⟩] := rfl

/-- The declaration and its definition, by which an evaluation calls it. -/
theorem defined_callable : ∀ func ∈ [(0, declaration), (0, function)],
    CallEnv.Callable { env with files := [defined] } func := by
  refine List.forall_mem_cons.mpr ⟨⟨⟨[], rfl⟩, .inl ⟨0, rfl⟩⟩, ?_⟩
  exact List.forall_mem_singleton.mpr ⟨⟨[], rfl⟩, .inl ⟨0, rfl⟩⟩

/-- A declaration with its definition. -/
theorem entersFunctions_iff_defined : ∃ enough, ∀ env : CallEnv, env.files = [defined] →
    enough ≤ env.rounds → env.EntersFunctions := by
  have hwell : ∀ file ∈ [defined], file.dwarf.WellFormed := by
    intro file hfile
    rw [List.mem_singleton.mp hfile]
    exact dwarf_wellFormed
  obtain ⟨enough, h⟩ := CallEnv.entersFunctions_iff hwell
  refine ⟨enough, fun env hfiles hrounds => (h env hfiles hrounds).mpr ⟨?_, ?_⟩⟩
  · intro name func hcandidate hinlined
    obtain ⟨file, hfile, ⟨unit, hunit, inFunction, hshows⟩, entry, hentry, hrange, -, -⟩ :=
      hcandidate
    have hdefined : file = defined := by
      have hmem := List.mem_of_getElem? hfile
      rw [hfiles] at hmem
      exact List.mem_singleton.mp hmem
    subst hdefined
    have hdie := unit_dies hunit hshows
    simp only [IndexCompleteWitness.dies, List.mem_cons, List.not_mem_nil, or_false] at hdie
    rcases hdie with heq | heq | heq | heq
    · rw [heq] at hentry
      cases hentry
      cases hrange
    · rw [heq] at hentry
      cases hentry
      cases hrange
    · rw [heq] at hinlined
      exact absurd ⟨_, rfl, rfl⟩ hinlined
    · rw [heq] at hentry
      cases hentry
      cases hrange
  · intro position file declared v hfile hfirst hrange
    have hdefined : file = defined := by
      have hmem := List.mem_of_getElem? hfile
      rw [hfiles] at hmem
      exact List.mem_singleton.mp hmem
    subst hdefined
    have hv := List.mem_of_find?_eq_some hfirst
    rw [defined_visits] at hv
    simp only [List.mem_cons, List.not_mem_nil, or_false] at hv
    rcases hv with rfl | rfl | rfl | rfl
    · cases hrange
    · cases hrange
    · exact ⟨_, rfl, rfl⟩
    · cases hrange

/-- `f()` jumps into `m`, where `f` is inlined. -/
theorem inlined_called :
    (∃ tree, EncodesUnit cu tree) ∧
      env.namedCallAddress [0x66] [] = .ok 0x555555555008 ∧
      env.memberDefinition 0 (some 12) = .ok (some copy) ∧ ¬ env.EntersFunctions := by
  have hdefinition : env.memberDefinition 0 (some 12) = .ok (some copy) := rfl
  refine ⟨encodes, rfl, hdefinition, fun h => ?_⟩
  obtain ⟨entry, hentry, htag⟩ := h.definition 0 (some 12) copy hdefinition
  cases hentry
  exact absurd htag (by decide)

end CallTargetsWitness

end Gsdb
