/-
The definitions of member functions.  Of the functions that refer to a declaration the
index keeps the one that is visited first; a search follows it to an entry with code.
-/
import Gsdb.IndexComplete

namespace Gsdb

open ByteMemory ByteCursor Effects

/-- The entry that the index has for a declaration. -/
def NameIndex.definition (index : NameIndex) (declaration : Option Nat) : Option IndexEntry :=
  (index.memberFunctions.find? fun member => member.1 = declaration).map (·.2)

/-- The position of the entry that a function refers to. -/
def Visit.declared (dw : Dwarf) (v : Visit) : Option (Option Nat) :=
  match v.declaration dw with
  | .ok (some target) => some target.position
  | _ => none

/-- The first function among the visits that refers to a position. -/
def firstInstance (dw : Dwarf) (visits : List Visit) (declaration : Option Nat) : Option Visit :=
  visits.find? fun v => v.declared dw = some declaration

/-- `get_member_function_definition` over the visits, with a bound on the length of a
chain. -/
def definitionFrom (dw : Dwarf) (visits : List Visit) :
    Nat → Option Nat → Except Failure (Option Die)
  | 0, _ => .error .schedule
  | chain + 1, declaration =>
      match firstInstance dw visits declaration with
      | none => .ok none
      | some v =>
          if v.entry.hasRange then .ok (some v.die)
          else definitionFrom dw visits chain v.die.position

/-- A computation with one outcome that adds definitions to those that the index has;
what is there stays. -/
def Defines {α : Type} (x : Indexing α) (r : Except Failure α)
    (definitions : Option Nat → Option IndexEntry) : Prop :=
  ∀ s, (x s).1 = r ∧ ∀ d, (x s).2.definition d = (s.definition d).or (definitions d)

namespace Defines

variable {α β : Type} {x : Indexing α} {f : α → Indexing β} {a : α} {r : Except Failure β}
  {ds ds' : Option Nat → Option IndexEntry}

theorem pure (a : α) : Defines (pure a : Indexing α) (.ok a) fun _ => none :=
  fun _ => ⟨rfl, fun _ => by simp⟩

theorem ofExcept (a : α) : Defines (Eff.ofExcept (.ok a) : Indexing α) (.ok a) fun _ => none :=
  fun _ => ⟨rfl, fun _ => by simp⟩

theorem bind (hx : Defines x (.ok a) ds) (hf : Defines (f a) r ds') :
    Defines (x >>= f) r fun d => (ds d).or (ds' d) := by
  intro s
  obtain ⟨hresult, hdefinition⟩ := hx s
  have hrun : x s = (.ok a, (x s).2) := Prod.ext hresult rfl
  obtain ⟨hresult', hdefinition'⟩ := hf (x s).2
  rw [Eff.bind_of_ok hrun]
  refine ⟨hresult', fun d => ?_⟩
  rw [hdefinition', hdefinition, Option.or_assoc]

theorem andThen {y : Indexing β} (hx : Defines x (.ok a) ds) (hy : Defines y r ds') :
    Defines (x >>= fun _ => y) r fun d => (ds d).or (ds' d) :=
  hx.bind hy

/-- What does not touch the member functions adds no definition. -/
theorem modify {g : NameIndex → NameIndex}
    (h : ∀ s, (g s).memberFunctions = s.memberFunctions) :
    Defines (Eff.modify g) (.ok ⟨⟩) fun _ => none :=
  fun s => ⟨rfl, fun d => by simp [NameIndex.definition, h s]⟩

theorem addMemberFunction (declaration : Option Nat) (entry : IndexEntry) :
    Defines (Eff.modify (NameIndex.addMemberFunction declaration entry)) (.ok ⟨⟩)
      fun d => if declaration = d then some entry else none := by
  intro s
  refine ⟨rfl, fun d => ?_⟩
  change (NameIndex.addMemberFunction declaration entry s).definition d = _
  rw [NameIndex.addMemberFunction]
  split
  · rename_i hthere
    obtain ⟨member, hmember, hkey⟩ := List.any_eq_true.mp hthere
    by_cases hd : declaration = d
    · subst hd
      have hfound : (s.memberFunctions.find? fun member => member.1 = declaration).isSome = true :=
        List.find?_isSome.mpr ⟨member, hmember, hkey⟩
      obtain ⟨first, hfirst⟩ := Option.isSome_iff_exists.mp hfound
      simp [NameIndex.definition, hfirst]
    · simp [hd]
  · rw [NameIndex.definition, NameIndex.definition, List.find?_append]
    by_cases hd : declaration = d
    · subst hd
      cases s.memberFunctions.find? (fun member => decide (member.1 = declaration)) with
      | none => simp
      | some member => rfl
    · simp [hd]

end Defines

section Visiting

variable {dw : Dwarf} {rounds : Nat} {v : Visit} {visits : List Visit}

theorem defines_indexFunction {name : Option (List Byte)}
    (h : v.functionName dw rounds = .ok name) :
    Defines (dw.indexFunction rounds v.die v.entry) (.ok ⟨⟩) fun _ => none := by
  unfold Visit.functionName at h
  unfold Dwarf.indexFunction
  split
  · rename_i hfunction
    rw [if_pos hfunction] at h
    rw [h]
    cases name with
    | none => exact (Defines.ofExcept _).bind (Defines.pure _)
    | some name => exact (Defines.ofExcept _).bind (Defines.modify fun _ => rfl)
  · exact Defines.pure _

theorem defines_indexGlobalVariable {name : Option (List Byte)}
    (h : v.globalName dw rounds = .ok name) :
    Defines (dw.indexGlobalVariable rounds v.die v.entry v.inFunction) (.ok ⟨⟩)
      fun _ => none := by
  unfold Visit.globalName at h
  unfold Dwarf.indexGlobalVariable
  split
  · rename_i hvariable
    rw [if_pos hvariable] at h
    rw [h]
    cases name with
    | none => exact (Defines.ofExcept _).bind (Defines.pure _)
    | some name => exact (Defines.ofExcept _).bind (Defines.modify fun _ => rfl)
  · exact Defines.pure _

/-- A function that refers to an entry is its definition unless there is one. -/
theorem defines_indexMemberFunction {target : Option Die} (h : v.declaration dw = .ok target) :
    Defines (dw.indexMemberFunction v.die v.entry) (.ok ⟨⟩)
      fun d => if v.declared dw = some d then some v.indexEntry else none := by
  have hdeclared : v.declared dw = target.map Die.position := by
    rw [Visit.declared, h]
    cases target <;> rfl
  rw [hdeclared]
  unfold Visit.declaration at h
  unfold Dwarf.indexMemberFunction
  split at h
  · rename_i hfunction
    rw [if_pos hfunction]
    split at h
    · rename_i hspecification
      rw [if_pos hspecification]
      cases hdie : Die.reference dw v.die.cu v.entry atSpecification with
      | error failure =>
          rw [hdie] at h
          cases h
      | ok die =>
          rw [hdie] at h
          cases h
          simpa using (Defines.ofExcept die).bind
            (Defines.addMemberFunction die.position v.indexEntry)
    · rename_i hspecification
      rw [if_neg hspecification]
      split at h
      · rename_i horigin
        rw [if_pos horigin]
        cases hdie : Die.reference dw v.die.cu v.entry atAbstractOrigin with
        | error failure =>
            rw [hdie] at h
            cases h
        | ok die =>
            rw [hdie] at h
            cases h
            simpa using (Defines.ofExcept die).bind
              (Defines.addMemberFunction die.position v.indexEntry)
      · rename_i horigin
        cases h
        rw [if_neg horigin]
        exact Defines.pure _
  · rename_i hfunction
    cases h
    rw [if_neg hfunction]
    exact Defines.pure _

theorem defines_visit (h : v.outcome dw rounds = .ok ⟨⟩) :
    Defines (dw.visit rounds v) (.ok ⟨⟩)
      fun d => if v.declared dw = some d then some v.indexEntry else none := by
  obtain ⟨name, hname, hrest⟩ := bind_eq_ok.mp h
  obtain ⟨target, htarget, hrest⟩ := bind_eq_ok.mp hrest
  obtain ⟨global, hglobal, -⟩ := bind_eq_ok.mp hrest
  have hall := (defines_indexFunction hname).andThen
    ((defines_indexMemberFunction htarget).andThen (defines_indexGlobalVariable hglobal))
  simpa [Dwarf.visit, Dwarf.indexEntry] using hall

/-- The first instance of a declaration is what a run adds for it. -/
theorem defines_forEach (h : ∀ v ∈ visits, v.outcome dw rounds = .ok ⟨⟩) :
    Defines (Eff.forEach (dw.visit rounds) visits) (.ok ⟨⟩)
      fun d => (firstInstance dw visits d).map Visit.indexEntry := by
  induction visits with
  | nil => exact Defines.pure _
  | cons v rest ih =>
      have hfirst := (defines_visit (h v List.mem_cons_self)).andThen
        (ih fun w hw => h w (List.mem_cons_of_mem v hw))
      intro s
      obtain ⟨hresult, hdefinition⟩ := hfirst s
      refine ⟨hresult, fun d => (hdefinition d).trans ?_⟩
      simp only [firstInstance, List.find?_cons]
      by_cases hd : v.declared dw = some d
      · simp [hd]
      · simp [hd]

end Visiting

/-- The definitions before the first run, or after one or more complete runs. -/
def DefinitionsSettled (dw : Dwarf) (visits : List Visit) (index : NameIndex) : Prop :=
  (index.functions = [] ∧ ∀ d, index.definition d = none) ∨
    ∀ d, index.definition d = (firstInstance dw visits d).map Visit.indexEntry

section Settling

variable {dw : Dwarf} {rounds : Nat} {visits : List Visit} {s : NameIndex}

theorem index_definitions (hwalk : dw.walkUnits dw.units = ⟨visits, none⟩)
    (houtcome : ∀ v ∈ visits, v.outcome dw rounds = .ok ⟨⟩) (h : DefinitionsSettled dw visits s) :
    ∃ s', dw.index rounds s = (.ok ⟨⟩, s') ∧
      ∀ d, s'.definition d = (firstInstance dw visits d).map Visit.indexEntry := by
  by_cases hempty : s.functions = []
  · have hrun : Defines (Eff.forEach (dw.indexUnit rounds) dw.units) (.ok ⟨⟩)
        fun d => (firstInstance dw visits d).map Visit.indexEntry := by
      rw [indexUnits_eq, hwalk]
      simpa [Walk.run] using (defines_forEach houtcome).andThen (Defines.pure PUnit.unit)
    obtain ⟨hresult, hdefinition⟩ := hrun s
    refine ⟨(Eff.forEach (dw.indexUnit rounds) dw.units s).2, ?_, fun d => ?_⟩
    · rw [index_of_empty hempty]
      exact Prod.ext hresult rfl
    · rw [hdefinition]
      rcases h with ⟨-, hnone⟩ | hdone
      · rw [hnone, Option.none_or]
      · rw [hdone, Option.or_self]
  · refine ⟨s, index_of_filled hempty, ?_⟩
    rcases h with ⟨hnone, -⟩ | hdone
    · exact absurd hnone hempty
    · exact hdone

theorem indexAfter_definitions (hwalk : dw.walkUnits dw.units = ⟨visits, none⟩)
    (houtcome : ∀ v ∈ visits, v.outcome dw rounds = .ok ⟨⟩) (ranges : List Byte)
    (earlier : List Lookup) :
    DefinitionsSettled dw visits (dw.indexAfter rounds ranges earlier) := by
  have hindex : Eff.Respects (Eff.Carries (DefinitionsSettled dw visits)) (dw.index rounds) := by
    intro s h
    obtain ⟨s', hrun, hdone⟩ := index_definitions hwalk houtcome h
    rw [hrun]
    exact .inr hdone
  exact Eff.Respects.performAll (respects_lookup hindex ranges) earlier NameIndex.empty
    (.inl ⟨rfl, fun _ => rfl⟩)

/-- A search for a definition goes from one first instance to the next. -/
theorem getMemberFunctionDefinition_settled (hwalk : dw.walkUnits dw.units = ⟨visits, none⟩)
    (hvisits : WalkedTrees dw dw.units visits)
    (houtcome : ∀ v ∈ visits, v.outcome dw rounds = .ok ⟨⟩) (chain : Nat)
    (declaration : Option Nat) (h : DefinitionsSettled dw visits s) :
    (dw.getMemberFunctionDefinition rounds chain declaration s).1 =
      definitionFrom dw visits chain declaration := by
  induction chain generalizing declaration s with
  | zero => rfl
  | succ chain ih =>
      obtain ⟨s', hindex, hdone⟩ := index_definitions hwalk houtcome h
      rw [Dwarf.getMemberFunctionDefinition, definitionFrom, Eff.bind_of_ok hindex,
        Eff.bind_of_ok (Eff.get_apply s')]
      have hentry := hdone declaration
      rw [NameIndex.definition] at hentry
      cases hfirst : firstInstance dw visits declaration with
      | none =>
          rw [hfirst] at hentry
          have hnone : (s'.memberFunctions.find? fun member => member.1 = declaration) = none := by
            simpa using hentry
          rw [hnone]
          rfl
      | some v =>
          rw [hfirst] at hentry
          obtain ⟨member, hmember, hsame⟩ := Option.map_eq_some_iff.mp hentry
          have hv : v ∈ visits := List.mem_of_find?_eq_some hfirst
          have hparse : parseDie member.2.cu member.2.pos = .ok v.die := by
            rw [hsame]
            exact (hvisits.parsed v hv).2
          rw [hmember]
          change ((Eff.ofExcept (parseDie member.2.cu member.2.pos) >>= _) s').1 = _
          rw [hparse, Eff.bind_of_ok (Eff.ofExcept_apply (.ok v.die) s'),
            ((hvisits.shown v).mp hv).1]
          cases hrange : v.entry.hasRange with
          | true => simp [hrange]
          | false => simpa [hrange] using ih v.die.position (.inr hdone)

end Settling

end Gsdb
