/-
Lookups through the index: what a run of the indexing adds does not depend on what
is there already, so that an index is complete when its run was, and a run that was
cut short is cut short at the same entry again.
-/
import Gsdb.IndexWalk

namespace Gsdb

open ByteMemory ByteCursor Effects

/-- A computation with the same outcome in every state, that adds the same names of
functions and of global variables. -/
def Adds {α : Type} (x : Indexing α) (r : Except Failure α)
    (functions globalVariables : List (List Byte × IndexEntry)) : Prop :=
  ∀ s, (x s).1 = r ∧ (x s).2.functions = s.functions ++ functions ∧
    (x s).2.globalVariables = s.globalVariables ++ globalVariables

namespace Adds

variable {α β : Type} {x : Indexing α} {f : α → Indexing β}
  {fs gs fs' gs' : List (List Byte × IndexEntry)}

theorem pure (a : α) : Adds (pure a : Indexing α) (.ok a) [] [] := by
  intro s
  simp

theorem ofExcept (r : Except Failure α) : Adds (Eff.ofExcept r) r [] [] := by
  intro s
  simp

theorem throw (e : Failure) : Adds (Eff.throw e : Indexing α) (.error e) [] [] :=
  ofExcept (.error e)

theorem bind {a : α} {r : Except Failure β} (hx : Adds x (.ok a) fs gs)
    (hf : Adds (f a) r fs' gs') : Adds (x >>= f) r (fs ++ fs') (gs ++ gs') := by
  intro s
  obtain ⟨hresult, hfunctions, hglobals⟩ := hx s
  rcases hrun : x s with ⟨r', s'⟩
  rw [hrun] at hresult hfunctions hglobals
  cases hresult
  obtain ⟨hresult', hfunctions', hglobals'⟩ := hf s'
  rw [Eff.bind_of_ok hrun]
  refine ⟨hresult', ?_, ?_⟩
  · rw [hfunctions', hfunctions, List.append_assoc]
  · rw [hglobals', hglobals, List.append_assoc]

theorem andThen {a : α} {y : Indexing β} {r : Except Failure β} (hx : Adds x (.ok a) fs gs)
    (hy : Adds y r fs' gs') : Adds (x >>= fun _ => y) r (fs ++ fs') (gs ++ gs') :=
  hx.bind hy

theorem bind_error {e : Failure} (hx : Adds x (.error e) fs gs) :
    Adds (x >>= f) (.error e) fs gs := by
  intro s
  obtain ⟨hresult, hfunctions, hglobals⟩ := hx s
  rcases hrun : x s with ⟨r', s'⟩
  rw [hrun] at hresult hfunctions hglobals
  cases hresult
  rw [Eff.bind_of_error hrun]
  exact ⟨rfl, hfunctions, hglobals⟩

theorem addFunction (name : List Byte) (entry : IndexEntry) :
    Adds (Eff.modify (NameIndex.addFunction name entry)) (.ok ⟨⟩) [(name, entry)] [] := by
  intro s
  simp [NameIndex.addFunction]

theorem addGlobalVariable (name : List Byte) (entry : IndexEntry) :
    Adds (Eff.modify (NameIndex.addGlobalVariable name entry)) (.ok ⟨⟩) [] [(name, entry)] := by
  intro s
  simp [NameIndex.addGlobalVariable]

theorem addMemberFunction (declaration : Option Nat) (entry : IndexEntry) :
    Adds (Eff.modify (NameIndex.addMemberFunction declaration entry)) (.ok ⟨⟩) [] [] := by
  intro s
  simp only [Eff.modify_apply, NameIndex.addMemberFunction, List.append_nil]
  split <;> simp

end Adds

namespace Visit

variable (dw : Dwarf) (rounds : Nat) (v : Visit)

def indexEntry : IndexEntry := ⟨v.die.cu, v.entry.pos⟩

/-- The name under which an entry becomes known as a function. -/
def functionName : Except Failure (Option (List Byte)) :=
  if v.entry.hasRange && v.entry.isFunction then v.die.name dw rounds else .ok none

/-- The entry that a function refers to. -/
def declaration : Except Failure (Option Die) :=
  if v.entry.isFunction then
    if Die.contains v.entry atSpecification then
      (Die.reference dw v.die.cu v.entry atSpecification).map some
    else if Die.contains v.entry atAbstractOrigin then
      (Die.reference dw v.die.cu v.entry atAbstractOrigin).map some
    else .ok none
  else .ok none

/-- The name under which an entry becomes known as a global variable. -/
def globalName : Except Failure (Option (List Byte)) :=
  if v.entry.isLocatedVariable && !v.inFunction then v.die.name dw rounds else .ok none

/-- Whether the visit fails. -/
def outcome : Except Failure PUnit := do
  let _ ← v.functionName dw rounds
  let _ ← v.declaration dw
  let _ ← v.globalName dw rounds
  pure ⟨⟩

/-- A name with an entry, if there is one. -/
def named : Except Failure (Option (List Byte)) → List (List Byte × IndexEntry)
  | .ok (some name) => [(name, v.indexEntry)]
  | _ => []

/-- What a visit adds to the names of global variables, its last part. -/
def globals : List (List Byte × IndexEntry) :=
  match v.outcome dw rounds with
  | .ok _ => v.named (v.globalName dw rounds)
  | .error _ => []

/-- The visits up to and including the first one that fails. -/
def reached : List Visit → List Visit
  | [] => []
  | v :: rest =>
      match v.outcome dw rounds with
      | .ok _ => v :: reached rest
      | .error _ => [v]

/-- The failure of the first visit that fails. -/
def outcomes : List Visit → Except Failure PUnit
  | [] => .ok ⟨⟩
  | v :: rest => do
      v.outcome dw rounds
      outcomes rest

end Visit

namespace Dwarf

/-- The walk of `dwarf::index`. -/
def walk (dw : Dwarf) : Walk := dw.walkUnits dw.units

/-- The entries that `dwarf::index` visits. -/
def reached (dw : Dwarf) (rounds : Nat) : List Visit := Visit.reached dw rounds dw.walk.visits

end Dwarf

section Visiting

variable (dw : Dwarf) (rounds : Nat) (v : Visit)

theorem adds_indexFunction :
    Adds (dw.indexFunction rounds v.die v.entry) ((v.functionName dw rounds).map fun _ => ⟨⟩)
      (v.named (v.functionName dw rounds)) [] := by
  unfold Dwarf.indexFunction Visit.functionName
  split
  · cases v.die.name dw rounds with
    | error e => exact (Adds.ofExcept _).bind_error
    | ok name =>
        cases name with
        | none => exact (Adds.ofExcept _).bind (Adds.pure _)
        | some name => exact (Adds.ofExcept _).bind (Adds.addFunction name _)
  · exact Adds.pure _

theorem adds_indexGlobalVariable :
    Adds (dw.indexGlobalVariable rounds v.die v.entry v.inFunction)
      ((v.globalName dw rounds).map fun _ => ⟨⟩) [] (v.named (v.globalName dw rounds)) := by
  unfold Dwarf.indexGlobalVariable Visit.globalName
  split
  · cases v.die.name dw rounds with
    | error e => exact (Adds.ofExcept _).bind_error
    | ok name =>
        cases name with
        | none => exact (Adds.ofExcept _).bind (Adds.pure _)
        | some name => exact (Adds.ofExcept _).bind (Adds.addGlobalVariable name _)
  · exact Adds.pure _

theorem adds_indexMemberFunction :
    Adds (dw.indexMemberFunction v.die v.entry) ((v.declaration dw).map fun _ => ⟨⟩) [] [] := by
  unfold Dwarf.indexMemberFunction Visit.declaration
  split
  · split
    · cases Die.reference dw v.die.cu v.entry atSpecification with
      | error e => exact (Adds.ofExcept _).bind_error
      | ok target => exact (Adds.ofExcept _).bind (Adds.addMemberFunction _ _)
    · split
      · cases Die.reference dw v.die.cu v.entry atAbstractOrigin with
        | error e => exact (Adds.ofExcept _).bind_error
        | ok target => exact (Adds.ofExcept _).bind (Adds.addMemberFunction _ _)
      · exact Adds.pure _
  · exact Adds.pure _

theorem adds_visit :
    Adds (dw.visit rounds v) (v.outcome dw rounds) (v.named (v.functionName dw rounds))
      (v.globals dw rounds) := by
  have hfunction := adds_indexFunction dw rounds v
  have hmember := adds_indexMemberFunction dw v
  have hglobal := adds_indexGlobalVariable dw rounds v
  unfold Dwarf.visit Dwarf.indexEntry Visit.globals Visit.outcome
  cases hname : v.functionName dw rounds with
  | error e =>
      rw [hname] at hfunction
      exact hfunction.bind_error
  | ok name =>
      rw [hname] at hfunction
      cases hdeclaration : v.declaration dw with
      | error e =>
          rw [hdeclaration] at hmember
          have hrest : Adds (dw.indexMemberFunction v.die v.entry >>= fun _ =>
              dw.indexGlobalVariable rounds v.die v.entry v.inFunction) (.error e) [] [] :=
            hmember.bind_error
          simpa using hfunction.andThen hrest
      | ok declaration =>
          rw [hdeclaration] at hmember
          cases hglobals : v.globalName dw rounds with
          | error e =>
              rw [hglobals] at hglobal
              have hall := hfunction.andThen (hmember.andThen hglobal)
              simpa [Except.map, Visit.named] using hall
          | ok global =>
              rw [hglobals] at hglobal
              have hall := hfunction.andThen (hmember.andThen hglobal)
              simpa [Except.map, Visit.named] using hall

/-- A run adds what the visits add that it reaches. -/
theorem adds_forEach (visits : List Visit) :
    Adds (Eff.forEach (dw.visit rounds) visits) (Visit.outcomes dw rounds visits)
      ((Visit.reached dw rounds visits).flatMap fun v => v.named (v.functionName dw rounds))
      ((Visit.reached dw rounds visits).flatMap fun v => v.globals dw rounds) := by
  induction visits with
  | nil => exact Adds.pure _
  | cons v rest ih =>
      have hvisit := adds_visit dw rounds v
      rw [Visit.reached, Visit.outcomes]
      cases houtcome : v.outcome dw rounds with
      | error e =>
          rw [houtcome] at hvisit
          rw [Eff.forEach]
          simpa using hvisit.bind_error
      | ok u =>
          rw [houtcome] at hvisit
          rw [Eff.forEach]
          simpa using hvisit.andThen ih

end Visiting

/-- The outcome of a run of the indexing. -/
def Dwarf.outcome (dw : Dwarf) (rounds : Nat) : Except Failure PUnit := do
  Visit.outcomes dw rounds dw.walk.visits
  match dw.walk.failure with
  | some failure => .error failure
  | none => .ok ⟨⟩

section Index

variable {dw : Dwarf} {rounds : Nat} {ranges : List Byte} {s s' : NameIndex}

/-- A run of the indexing has the same outcome whatever is in the index. -/
theorem adds_walk (dw : Dwarf) (rounds : Nat) :
    Adds (Eff.forEach (dw.indexUnit rounds) dw.units) (dw.outcome rounds)
      ((dw.reached rounds).flatMap fun v => v.named (v.functionName dw rounds))
      ((dw.reached rounds).flatMap fun v => v.globals dw rounds) := by
  have hvisits := adds_forEach dw rounds dw.walk.visits
  rw [indexUnits_eq]
  change Adds (dw.walk.run (dw.visit rounds)) _ _ _
  unfold Dwarf.outcome Walk.run
  cases houtcomes : Visit.outcomes dw rounds dw.walk.visits with
  | error e =>
      rw [houtcomes] at hvisits
      exact hvisits.bind_error
  | ok u =>
      rw [houtcomes] at hvisits
      cases dw.walk.failure with
      | none => simpa [Dwarf.reached] using hvisits.andThen (Adds.pure PUnit.unit)
      | some failure =>
          have hthrow : Adds (Eff.throw failure : Indexing PUnit) _ _ _ := Adds.throw failure
          simpa [Dwarf.reached] using hvisits.andThen hthrow

theorem index_of_empty (h : s.functions = []) :
    dw.index rounds s = Eff.forEach (dw.indexUnit rounds) dw.units s := by
  simp [Dwarf.index, Eff.bind_apply, h]

theorem index_of_filled (h : s.functions ≠ []) : dw.index rounds s = (.ok ⟨⟩, s) := by
  simp [Dwarf.index, Eff.bind_apply, h]

theorem perform_snd (query : Lookup) :
    (dw.perform rounds ranges query s).2 = (dw.lookup rounds ranges query s).2 := by
  rw [Dwarf.perform, Eff.bind_apply]
  rcases dw.lookup rounds ranges query s with ⟨e | a, s'⟩ <;> rfl

/-- A lookup throws when the indexing before it does. -/
theorem lookup_throws {e : Failure} (h : dw.index rounds s = (.error e, s')) (ranges : List Byte)
    (query : Lookup) :
    ∃ e' last, dw.lookup rounds ranges query s = (.error e', last) ∧ (last = s' ∨ last = s) := by
  cases query with
  | functions name => exact ⟨e, s', Eff.bind_of_error h _, .inl rfl⟩
  | globalVariable name =>
      exact ⟨e, s', Eff.bind_of_error (Eff.bind_of_error h _) _, .inl rfl⟩
  | functionContaining address =>
      exact ⟨e, s', Eff.bind_of_error (Eff.bind_of_error h _) _, .inl rfl⟩
  | memberFunction declaration =>
      cases rounds with
      | zero => exact ⟨.schedule, s, rfl, .inr rfl⟩
      | succ rounds =>
          exact ⟨e, s', Eff.bind_of_error (Eff.bind_of_error h _) _, .inl rfl⟩

end Index

/-- After lookups of which the first made the indexing throw, every lookup throws
again or answers as it does from an index that was completed. -/
def Dwarf.NoPartialAnswer (dw : Dwarf) (rounds : Nat) (ranges : List Byte) : Prop :=
  ∀ (earlier : List Lookup) (query : Lookup), earlier ≠ [] →
    (∃ e, (dw.lookup rounds ranges query (dw.indexAfter rounds ranges earlier)).1 = .error e) ∨
      ∃ complete, dw.index rounds NameIndex.empty = (.ok ⟨⟩, complete) ∧
        (dw.lookup rounds ranges query (dw.indexAfter rounds ranges earlier)).1 =
          (dw.lookup rounds ranges query complete).1

section Partial

variable {dw : Dwarf} {rounds : Nat} {ranges : List Byte}

/-- Without a function among the entries that are reached the index of functions
stays empty, and every lookup runs into the same failure. -/
theorem lookup_throws_again {e : Failure} (houtcome : dw.outcome rounds = .error e)
    (hnone : ((dw.reached rounds).flatMap fun v => v.named (v.functionName dw rounds)) = [])
    {s : NameIndex} (hempty : s.functions = []) (query : Lookup) :
    (∃ e', (dw.lookup rounds ranges query s).1 = .error e') ∧
      (dw.lookup rounds ranges query s).2.functions = [] := by
  obtain ⟨hresult, hfunctions, -⟩ := adds_walk dw rounds s
  rcases hrun : Eff.forEach (dw.indexUnit rounds) dw.units s with ⟨r, s'⟩
  rw [hrun, houtcome] at hresult
  rw [hrun, hnone, hempty] at hfunctions
  have hindex : dw.index rounds s = (.error e, s') := by
    rw [index_of_empty hempty, hrun]
    exact congrArg (fun r => (r, s')) hresult
  obtain ⟨e', last, hlookup, hlast⟩ := lookup_throws hindex ranges query
  rw [hlookup]
  refine ⟨⟨e', rfl⟩, ?_⟩
  rcases hlast with rfl | rfl
  · exact hfunctions
  · exact hempty

theorem functions_of_failed (ranges : List Byte) {e : Failure} (houtcome : dw.outcome rounds =
    .error e)
    (hnone : ((dw.reached rounds).flatMap fun v => v.named (v.functionName dw rounds)) = [])
    (lookups : List Lookup) {s : NameIndex} (hempty : s.functions = []) :
    (Eff.performAll (dw.perform rounds ranges) lookups s).functions = [] := by
  induction lookups generalizing s with
  | nil => exact hempty
  | cons query rest ih =>
      refine ih ?_
      rw [perform_snd]
      exact (lookup_throws_again houtcome hnone hempty query).2

theorem named_functions_eq_nil :
    ((dw.reached rounds).flatMap fun v => v.named (v.functionName dw rounds)) = [] ↔
      ∀ v ∈ dw.reached rounds, v.entry.hasRange = true → v.entry.isFunction = true →
        ∀ name, v.die.name dw rounds ≠ .ok (some name) := by
  rw [List.flatMap_eq_nil_iff]
  refine forall₂_congr fun v _ => ?_
  unfold Visit.named Visit.functionName
  constructor
  · intro h hrange hfunction name hname
    simp [hrange, hfunction, hname] at h
  · intro h
    split
    · rename_i name hname
      split at hname
      · rename_i hboth
        rw [Bool.and_eq_true] at hboth
        exact absurd hname (h hboth.1 hboth.2 name)
      · cases hname
    · rfl

/-- When the indexing throws, later lookups never answer from what was indexed before
the exception, exactly when no function with a range and a name is among the entries
that were visited. -/
theorem noPartialAnswer_iff {e : Failure}
    (hthrows : (dw.index rounds NameIndex.empty).1 = .error e) :
    dw.NoPartialAnswer rounds ranges ↔
      ∀ v ∈ dw.reached rounds, v.entry.hasRange = true → v.entry.isFunction = true →
        ∀ name, v.die.name dw rounds ≠ .ok (some name) := by
  have hindex := hthrows
  rw [index_of_empty rfl, (adds_walk dw rounds NameIndex.empty).1] at hindex
  rw [← named_functions_eq_nil]
  constructor
  · intro h
    by_contra hsome
    rcases hrun : dw.index rounds NameIndex.empty with ⟨r, stored⟩
    have hstored : stored.functions ≠ [] := by
      have hadds := (adds_walk dw rounds NameIndex.empty).2.1
      rw [← index_of_empty rfl, hrun] at hadds
      rw [hadds]
      simpa [NameIndex.empty] using hsome
    rw [hrun] at hthrows
    cases hthrows
    have hafter : dw.indexAfter rounds ranges [.functions []] = stored := by
      change (dw.perform rounds ranges (.functions []) NameIndex.empty).2 = stored
      rw [perform_snd]
      exact congrArg Prod.snd (Eff.bind_of_error hrun _)
    obtain ⟨name, hfresh⟩ :=
      Infinite.exists_notMem_finset (stored.functions.map Prod.fst).toFinset
    have hnames : stored.functions.filter (fun entry => entry.1 = name) = [] := by
      refine List.filter_eq_nil_iff.mpr ?_
      intro entry hentry hname
      refine hfresh (List.mem_toFinset.mpr (List.mem_map.mpr ⟨entry, hentry, ?_⟩))
      simpa using hname
    have hanswer : (dw.lookup rounds ranges (.functions name) stored).1 = .ok [] := by
      change (dw.findFunctions rounds name stored).1 = .ok []
      rw [Dwarf.findFunctions, Eff.bind_of_ok (index_of_filled hstored), Eff.bind_apply,
        Eff.get_apply]
      simp only [hnames]
      rfl
    rcases h [.functions []] (.functions name) (List.cons_ne_nil _ _) with
      ⟨e', herror⟩ | ⟨complete, hcomplete, -⟩
    · rw [hafter, hanswer] at herror
      cases herror
    · rw [hrun] at hcomplete
      cases hcomplete
  · intro hnone earlier query _
    have hempty := functions_of_failed ranges hindex hnone earlier
      (show NameIndex.empty.functions = [] from rfl)
    exact .inl (lookup_throws_again hindex hnone hempty query).1

end Partial

namespace PartialIndexWitness

def unitEntry : Abbrev := ⟨1, 0x11, true, []⟩

/-- A function with a name and an address. -/
def functionEntry : Abbrev := ⟨2, tagSubprogram, false, [⟨atName, .string⟩, ⟨atLowPc, .addr⟩]⟩

/-- A function whose name has a form that is no string. -/
def unreadableEntry : Abbrev := ⟨3, tagSubprogram, false, [⟨atName, .data1⟩, ⟨atLowPc, .addr⟩]⟩

def function : List Byte := [2, 0x66, 0] ++ List.replicate 8 0

def unreadable : List Byte := [3, 7] ++ List.replicate 8 0

def dwarf (entries : List Byte) : Dwarf :=
  ⟨[], [], [⟨0, List.replicate 11 0 ++ [1] ++ entries ++ [0],
    [unitEntry, functionEntry, unreadableEntry]⟩]⟩

/-- The function before the unreadable entry makes later lookups answer. -/
theorem index_answers_partially :
    ¬ ∀ (dw : Dwarf) (rounds : Nat) (ranges : List Byte) (e : Failure),
      (dw.index rounds NameIndex.empty).1 = .error e → e.isException = true →
      dw.NoPartialAnswer rounds ranges := by
  intro h
  have hthrows : ((dwarf (function ++ unreadable)).index 5 NameIndex.empty).1 =
      .error (.error "Invalid string type!") := rfl
  rcases h _ 5 [] _ hthrows rfl [.functions []] (.functions [0x67]) (List.cons_ne_nil _ _) with
    ⟨e, herror⟩ | ⟨complete, hcomplete, -⟩
  · have hanswer : ((dwarf (function ++ unreadable)).lookup 5 [] (.functions [0x67])
        ((dwarf (function ++ unreadable)).indexAfter 5 [] [.functions []])).1 = .ok [] := rfl
    rw [hanswer] at herror
    cases herror
  · rw [hcomplete] at hthrows
    cases hthrows

/-- The unreadable entry comes first: every lookup throws. -/
theorem noPartialAnswer_iff_unreadable :
    (dwarf (unreadable ++ function)).NoPartialAnswer 5 [] :=
  (noPartialAnswer_iff (e := .error "Invalid string type!") rfl).mpr
    (named_functions_eq_nil.mp rfl)

end PartialIndexWitness

end Gsdb
