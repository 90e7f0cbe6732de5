/-
The index of names is sound and complete: for units that encode trees of readable
entries, with references that do not run in circles, lookups of functions and of
global variables return what a search through all entries would find.
-/
import Mathlib.Order.WellFoundedSet
import Gsdb.IndexLookups

namespace Gsdb

open ByteMemory ByteCursor Effects

namespace Die

/-- An entry refers to another one by `DW_AT_specification` or
`DW_AT_abstract_origin`. -/
def RefersTo (dw : Dwarf) (die target : Die) : Prop :=
  ∃ entry, die.entry = some entry ∧
    ((contains entry atSpecification = true ∧
        reference dw die.cu entry atSpecification = .ok target) ∨
      (contains entry atAbstractOrigin = true ∧
        reference dw die.cu entry atAbstractOrigin = .ok target))

/-- The attributes that the index looks at can be read. -/
def Readable (dw : Dwarf) (die : Die) : Prop :=
  ∃ entry, die.entry = some entry ∧
    (contains entry atName = true → ∃ name, text dw die.cu entry atName = .ok name) ∧
    (contains entry atSpecification = true →
      ∃ target, reference dw die.cu entry atSpecification = .ok target) ∧
    (contains entry atAbstractOrigin = true →
      ∃ target, reference dw die.cu entry atAbstractOrigin = .ok target)

/-- The name of an entry: its own, or that of the entry that it specifies or that it
is an instance of. -/
inductive Named (dw : Dwarf) : Die → Option (List Byte) → Prop where
  | own {die : Die} {entry : DieEntry} {name : List Byte} (hentry : die.entry = some entry)
      (hown : contains entry atName = true) (hname : text dw die.cu entry atName = .ok name) :
      Named dw die (some name)
  | specification {die target : Die} {entry : DieEntry} {name : Option (List Byte)}
      (hentry : die.entry = some entry) (hown : contains entry atName = false)
      (hspecification : contains entry atSpecification = true)
      (htarget : reference dw die.cu entry atSpecification = .ok target)
      (hnamed : Named dw target name) : Named dw die name
  | abstractOrigin {die target : Die} {entry : DieEntry} {name : Option (List Byte)}
      (hentry : die.entry = some entry) (hown : contains entry atName = false)
      (hspecification : contains entry atSpecification = false)
      (horigin : contains entry atAbstractOrigin = true)
      (htarget : reference dw die.cu entry atAbstractOrigin = .ok target)
      (hnamed : Named dw target name) : Named dw die name
  | unnamed {die : Die} {entry : DieEntry} (hentry : die.entry = some entry)
      (hown : contains entry atName = false)
      (hspecification : contains entry atSpecification = false)
      (horigin : contains entry atAbstractOrigin = false) : Named dw die none

end Die

/-- The entries that an entry leads to, itself included. -/
def Die.LeadsTo (dw : Dwarf) : Die → Die → Prop := Relation.ReflTransGen (Die.RefersTo dw)

/-- The references from the entries of the units on do not run in circles. -/
def Dwarf.Acyclic (dw : Dwarf) : Prop :=
  ∀ cu ∈ dw.units, ∀ die inFunction, cu.Shows dw die inFunction → ∀ target, die.LeadsTo dw target →
    ¬ Relation.TransGen (Die.RefersTo dw) target target

section Names

variable {dw : Dwarf} {die target : Die} {cu : CompileUnit} {pos : Nat}

theorem parseDie_unit (h : parseDie cu pos = .ok die) : die.cu = cu := by
  obtain ⟨⟨code, cur⟩, -, hrest⟩ := bind_eq_ok.mp h
  simp only at hrest
  split at hrest
  · cases hrest
    rfl
  · obtain ⟨entry, -, hrest⟩ := bind_eq_ok.mp hrest
    obtain ⟨⟨locs, last⟩, -, hrest⟩ := bind_eq_ok.mp hrest
    cases hrest
    rfl

theorem parseDie_inside (h : parseDie cu pos = .ok die) : pos < cu.data.length := by
  obtain ⟨⟨code, cur⟩, hread, -⟩ := bind_eq_ok.mp h
  obtain ⟨n, hsize, -⟩ := Cursor.uleb128_eq_some (inBounds_eq_ok.mp hread)
  by_contra hbeyond
  have hnothing : (Cursor.mk cu.data pos).rest = [] := by
    simp only [Cursor.rest]
    exact List.drop_eq_nil_of_le (by omega)
  rw [hnothing] at hsize
  cases hsize

/-- A reference leads to an entry of the same unit or of one of the file. -/
theorem reference_parsed {entry : DieEntry} {name : Word}
    (h : Die.reference dw cu entry name = .ok target) :
    ∃ unit pos, (unit = cu ∨ unit ∈ dw.units) ∧ parseDie unit pos = .ok target := by
  obtain ⟨attr, hattr, hreference⟩ := bind_eq_ok.mp h
  have hunit : attr.cu = cu := by
    unfold Die.attr at hattr
    split at hattr <;> cases hattr
    rfl
  have hown : ∀ {w : Nat} {read : Option (BitVec w × Cursor)},
      (inBounds read >>= fun value => parseDie attr.cu value.1.toNat) = .ok target →
      ∃ unit pos, (unit = cu ∨ unit ∈ dw.units) ∧ parseDie unit pos = .ok target := by
    intro w read hread
    obtain ⟨value, -, hparsed⟩ := bind_eq_ok.mp hread
    exact ⟨attr.cu, _, .inl hunit, hparsed⟩
  unfold Attr.asReference at hreference
  split at hreference
  · exact hown hreference
  · exact hown hreference
  · exact hown hreference
  · exact hown hreference
  · exact hown hreference
  · obtain ⟨value, -, hsection⟩ := bind_eq_ok.mp hreference
    simp only [Attr.dieInSection] at hsection
    split at hsection
    · cases hsection
    · rename_i unit hfound
      exact ⟨unit, _, .inr (List.mem_of_find?_eq_some hfound), hsection⟩
  · cases hreference

/-- The entries that can be parsed in the units of a file. -/
def Dwarf.parsedDies (dw : Dwarf) : List Die :=
  dw.units.flatMap fun cu => (List.range cu.data.length).filterMap fun pos =>
    (parseDie cu pos).toOption

theorem mem_parsedDies :
    die ∈ dw.parsedDies ↔ ∃ cu ∈ dw.units, ∃ pos, parseDie cu pos = .ok die := by
  simp only [Dwarf.parsedDies, List.mem_flatMap, List.mem_filterMap, List.mem_range]
  constructor
  · rintro ⟨cu, hcu, pos, -, hparsed⟩
    refine ⟨cu, hcu, pos, ?_⟩
    cases hresult : parseDie cu pos with
    | error e =>
        rw [hresult] at hparsed
        cases hparsed
    | ok found =>
        rw [hresult] at hparsed
        cases hparsed
        rfl
  · rintro ⟨cu, hcu, pos, hparsed⟩
    refine ⟨cu, hcu, pos, parseDie_inside hparsed, ?_⟩
    rw [hparsed]
    rfl

theorem parsedDies_of_refersTo (hmem : die ∈ dw.parsedDies) (h : die.RefersTo dw target) :
    target ∈ dw.parsedDies := by
  obtain ⟨cu, hcu, pos, hparsed⟩ := mem_parsedDies.mp hmem
  have hunit := parseDie_unit hparsed
  have hinside : ∀ unit pos', (unit = die.cu ∨ unit ∈ dw.units) → parseDie unit pos' = .ok target →
      target ∈ dw.parsedDies := by
    rintro unit pos' (rfl | hunits) hparsed'
    · exact mem_parsedDies.mpr ⟨die.cu, hunit ▸ hcu, pos', hparsed'⟩
    · exact mem_parsedDies.mpr ⟨unit, hunits, pos', hparsed'⟩
  obtain ⟨entry, -, ⟨-, hreference⟩ | ⟨-, hreference⟩⟩ := h
  · obtain ⟨unit, pos', hunits, hparsed'⟩ := reference_parsed hreference
    exact hinside unit pos' hunits hparsed'
  · obtain ⟨unit, pos', hunits, hparsed'⟩ := reference_parsed hreference
    exact hinside unit pos' hunits hparsed'

/-- A chain of references that was followed to its end is followed with more rounds
as well. -/
theorem name_of_more {rounds more : Nat} {name : Option (List Byte)}
    (h : die.name dw rounds = .ok name) (hle : rounds ≤ more) : die.name dw more = .ok name := by
  induction rounds generalizing die more with
  | zero => cases h
  | succ rounds ih =>
      obtain ⟨more, rfl⟩ : ∃ k, more = k + 1 := ⟨more - 1, by omega⟩
      rw [Die.name] at h ⊢
      cases hentry : die.entry with
      | none =>
          rw [hentry] at h
          cases h
      | some entry =>
          rw [hentry] at h
          simp only at h ⊢
          split
          · rename_i hown
            rwa [if_pos hown] at h
          · rename_i hown
            rw [if_neg hown] at h
            split
            · rename_i hspecification
              rw [if_pos hspecification] at h
              obtain ⟨target, htarget, hname⟩ := bind_eq_ok.mp h
              exact bind_eq_ok.mpr ⟨target, htarget, ih hname (by omega)⟩
            · rename_i hspecification
              rw [if_neg hspecification] at h
              split
              · rename_i horigin
                rw [if_pos horigin] at h
                obtain ⟨target, htarget, hname⟩ := bind_eq_ok.mp h
                exact bind_eq_ok.mpr ⟨target, htarget, ih hname (by omega)⟩
              · rename_i horigin
                rwa [if_neg horigin] at h

/-- `die::name` returns the name of an entry. -/
theorem named_of_name {rounds : Nat} {name : Option (List Byte)}
    (h : die.name dw rounds = .ok name) : die.Named dw name := by
  induction rounds generalizing die with
  | zero => cases h
  | succ rounds ih =>
      rw [Die.name] at h
      cases hentry : die.entry with
      | none =>
          rw [hentry] at h
          cases h
      | some entry =>
          rw [hentry] at h
          simp only at h
          split at h
          · rename_i hown
            obtain ⟨text, htext, hdone⟩ := bind_eq_ok.mp h
            cases hdone
            exact .own hentry hown htext
          · rename_i hown
            have hunnamed := Bool.not_eq_true _ ▸ hown
            split at h
            · rename_i hspecification
              obtain ⟨target, htarget, hname⟩ := bind_eq_ok.mp h
              exact .specification hentry hunnamed hspecification htarget (ih hname)
            · rename_i hspecification
              have hnoSpecification := Bool.not_eq_true _ ▸ hspecification
              split at h
              · rename_i horigin
                obtain ⟨target, htarget, hname⟩ := bind_eq_ok.mp h
                exact .abstractOrigin hentry hunnamed hnoSpecification horigin htarget (ih hname)
              · rename_i horigin
                cases h
                exact .unnamed hentry hunnamed hnoSpecification (Bool.not_eq_true _ ▸ horigin)

theorem named_unique {first second : Option (List Byte)} (h : die.Named dw first)
    (h' : die.Named dw second) : first = second := by
  induction h with
  | own hentry hown hname =>
      cases h' with
      | own hentry' hown' hname' =>
          cases hentry.symm.trans hentry'
          exact congrArg some (Except.ok.inj (hname.symm.trans hname'))
      | specification hentry' hown' => simp_all
      | abstractOrigin hentry' hown' => simp_all
      | unnamed hentry' hown' => simp_all
  | specification hentry hown hspecification htarget hnamed ih =>
      cases h' with
      | own hentry' hown' => simp_all
      | specification hentry' hown' hspecification' htarget' hnamed' =>
          cases hentry.symm.trans hentry'
          cases htarget.symm.trans htarget'
          exact ih hnamed'
      | abstractOrigin hentry' hown' hspecification' => simp_all
      | unnamed hentry' hown' hspecification' => simp_all
  | abstractOrigin hentry hown hspecification horigin htarget hnamed ih =>
      cases h' with
      | own hentry' hown' => simp_all
      | specification hentry' hown' hspecification' => simp_all
      | abstractOrigin hentry' hown' hspecification' horigin' htarget' hnamed' =>
          cases hentry.symm.trans hentry'
          cases htarget.symm.trans htarget'
          exact ih hnamed'
      | unnamed hentry' hown' hspecification' horigin' => simp_all
  | unnamed hentry hown hspecification horigin =>
      cases h' with
      | own hentry' hown' => simp_all
      | specification hentry' hown' hspecification' => simp_all
      | abstractOrigin hentry' hown' hspecification' horigin' => simp_all
      | unnamed => rfl

/-- One step towards a name. -/
theorem exists_name_of_targets (hreadable : die.Readable dw)
    (htargets : ∀ target, die.RefersTo dw target →
      ∃ rounds name, target.name dw rounds = .ok name) :
    ∃ rounds name, die.name dw rounds = .ok name := by
  obtain ⟨entry, hentry, hown, hspecification, horigin⟩ := hreadable
  by_cases hcontains : Die.contains entry atName = true
  · obtain ⟨name, hname⟩ := hown hcontains
    exact ⟨1, some name, by simp only [Die.name, hentry, if_pos hcontains, hname]; rfl⟩
  · by_cases hspecified : Die.contains entry atSpecification = true
    · obtain ⟨target, htarget⟩ := hspecification hspecified
      obtain ⟨rounds, name, hname⟩ := htargets target ⟨entry, hentry, .inl ⟨hspecified, htarget⟩⟩
      refine ⟨rounds + 1, name, ?_⟩
      simp only [Die.name, hentry, if_neg hcontains, if_pos hspecified, htarget, ok_bind, hname]
    · by_cases hinstance : Die.contains entry atAbstractOrigin = true
      · obtain ⟨target, htarget⟩ := horigin hinstance
        obtain ⟨rounds, name, hname⟩ := htargets target ⟨entry, hentry, .inr ⟨hinstance, htarget⟩⟩
        refine ⟨rounds + 1, name, ?_⟩
        simp only [Die.name, hentry, if_neg hcontains, if_neg hspecified, if_pos hinstance, htarget,
          ok_bind, hname]
      · exact ⟨1, none, by
          simp only [Die.name, hentry, if_neg hcontains, if_neg hspecified, if_neg hinstance]⟩

/-- References that do not run in circles lead to a name. -/
theorem exists_name (hmem : die ∈ dw.parsedDies)
    (hacyclic : ∀ target, die.LeadsTo dw target →
      ¬ Relation.TransGen (Die.RefersTo dw) target target)
    (hreadable : ∀ target, die.LeadsTo dw target → target.Readable dw) :
    ∃ rounds name, die.name dw rounds = .ok name := by
  let below : Die → Die → Prop := fun a b =>
    die.LeadsTo dw b ∧ Relation.TransGen (Die.RefersTo dw) b a
  have horder : IsStrictOrder Die below :=
    { irrefl := fun a h => hacyclic a h.1 h.2
      trans := fun _ _ _ h h' => ⟨h'.1, h'.2.trans h.2⟩ }
  have hfounded : {d | d ∈ dw.parsedDies}.WellFoundedOn below :=
    (List.finite_toSet dw.parsedDies).wellFoundedOn
  refine hfounded.induction (P := fun d => die.LeadsTo dw d →
    ∃ rounds name, d.name dw rounds = .ok name) hmem ?_ .refl
  intro d hd ih hleads
  refine exists_name_of_targets (hreadable d hleads) ?_
  intro target htarget
  exact ih target (parsedDies_of_refersTo hd htarget) ⟨hleads, .single htarget⟩
    (hleads.tail htarget)

end Names

/-- The visits to units that encode trees: every entry that a unit shows, once. -/
structure WalkedTrees (dw : Dwarf) (units : List CompileUnit) (visits : List Visit) : Prop where
  shown : ∀ v, v ∈ visits ↔
    v.die.entry = some v.entry ∧ ∃ cu ∈ units, cu.Shows dw v.die v.inFunction
  parsed : ∀ v ∈ visits, v.die.cu ∈ units ∧ parseDie v.die.cu v.entry.pos = .ok v.die
  once : (visits.map Visit.die).Nodup

section Trees

variable {dw : Dwarf} {units : List CompileUnit} {cu : CompileUnit} {visits : List Visit}

theorem InOrder.nodup {start stop : Nat} (h : InOrder cu start stop visits)
    (hentry : ∀ v ∈ visits, v.die.entry = some v.entry) : (visits.map Visit.die).Nodup := by
  refine List.pairwise_map.mpr (h.ordered.imp_of_mem ?_)
  intro a b ha hb hlt hsame
  have hentries := (hentry a ha).symm.trans ((congrArg Die.entry hsame).trans (hentry b hb))
  rw [Option.some.inj hentries] at hlt
  exact Nat.lt_irrefl _ hlt

/-- The walk through units that encode trees. -/
theorem walkUnits_trees (dw : Dwarf) (htrees : ∀ cu ∈ units, ∃ tree, EncodesUnit cu tree)
    (hnodup : units.Nodup) :
    ∃ visits, dw.walkUnits units = ⟨visits, none⟩ ∧ WalkedTrees dw units visits := by
  induction units with
  | nil => exact ⟨[], rfl, by simp, by simp, by simp⟩
  | cons cu rest ih =>
      obtain ⟨hnew, hrest⟩ := List.nodup_cons.mp hnodup
      obtain ⟨tree, htree⟩ := htrees cu List.mem_cons_self
      obtain ⟨own, hown, horder⟩ := htree.walked dw
      obtain ⟨later, hlater, hwalked⟩ :=
        ih (fun c hc => htrees c (List.mem_cons_of_mem cu hc)) hrest
      have hshown := mem_walkUnit (show (dw.walkUnit cu).failure = none by rw [hown])
      rw [hown] at hshown
      refine ⟨own ++ later, ?_, ?_, ?_, ?_⟩
      · simp only [Dwarf.walkUnits, hown, hlater, Walk.andThen]
      · intro v
        rw [List.mem_append, hshown v, hwalked.shown v]
        simp only [List.mem_cons, exists_eq_or_imp, and_or_left]
      · intro v hv
        rcases List.mem_append.mp hv with hv | hv
        · rw [horder.unit v hv]
          exact ⟨List.mem_cons_self, horder.parsed v hv⟩
        · obtain ⟨hunit, hparsed⟩ := hwalked.parsed v hv
          exact ⟨List.mem_cons_of_mem cu hunit, hparsed⟩
      · rw [List.map_append]
        refine List.nodup_append.mpr ⟨?_, hwalked.once, ?_⟩
        · exact horder.nodup fun v hv => ((hshown v).mp hv).1
        · intro a ha b hb hsame
          obtain ⟨v, hv, rfl⟩ := List.mem_map.mp ha
          obtain ⟨w, hw, rfl⟩ := List.mem_map.mp hb
          refine hnew ?_
          rw [← horder.unit v hv, hsame]
          exact (hwalked.parsed w hw).1

/-- With enough rounds every entry in a list has its name. -/
theorem exists_rounds (h : ∀ v ∈ visits, ∃ rounds name, v.die.name dw rounds = .ok name) :
    ∃ enough, ∀ rounds, enough ≤ rounds → ∀ v ∈ visits,
      ∃ name, v.die.name dw rounds = .ok name := by
  induction visits with
  | nil => exact ⟨0, by simp⟩
  | cons v rest ih =>
      obtain ⟨own, name, hname⟩ := h v List.mem_cons_self
      obtain ⟨later, hlater⟩ := ih fun w hw => h w (List.mem_cons_of_mem v hw)
      refine ⟨max own later, fun rounds hrounds w hw => ?_⟩
      rcases List.mem_cons.mp hw with rfl | hin
      · exact ⟨name, name_of_more hname (by omega)⟩
      · exact hlater rounds (by omega) w hin

theorem outcome_of_readable {rounds : Nat} {v : Visit} (hentry : v.die.entry = some v.entry)
    (hreadable : v.die.Readable dw) {name : Option (List Byte)}
    (hname : v.die.name dw rounds = .ok name) : v.outcome dw rounds = .ok ⟨⟩ := by
  obtain ⟨entry, hsome, -, hspecification, horigin⟩ := hreadable
  cases hentry.symm.trans hsome
  have hfunction : ∃ a, v.functionName dw rounds = .ok a := by
    unfold Visit.functionName
    split
    · exact ⟨name, hname⟩
    · exact ⟨none, rfl⟩
  have hglobal : ∃ a, v.globalName dw rounds = .ok a := by
    unfold Visit.globalName
    split
    · exact ⟨name, hname⟩
    · exact ⟨none, rfl⟩
  have hdeclaration : ∃ a, v.declaration dw = .ok a := by
    unfold Visit.declaration
    split
    · split
      · rename_i hcontains
        obtain ⟨target, htarget⟩ := hspecification hcontains
        exact ⟨some target, by rw [htarget]; rfl⟩
      · split
        · rename_i hcontains
          obtain ⟨target, htarget⟩ := horigin hcontains
          exact ⟨some target, by rw [htarget]; rfl⟩
        · exact ⟨none, rfl⟩
    · exact ⟨none, rfl⟩
  obtain ⟨a, ha⟩ := hfunction
  obtain ⟨b, hb⟩ := hdeclaration
  obtain ⟨c, hc⟩ := hglobal
  simp only [Visit.outcome, ha, hb, hc, ok_bind]
  rfl

/-- Visits that do not fail are all reached. -/
theorem reached_all {rounds : Nat} (h : ∀ v ∈ visits, v.outcome dw rounds = .ok ⟨⟩) :
    Visit.reached dw rounds visits = visits ∧ Visit.outcomes dw rounds visits = .ok ⟨⟩ := by
  induction visits with
  | nil => exact ⟨rfl, rfl⟩
  | cons v rest ih =>
      obtain ⟨hreached, houtcomes⟩ := ih fun w hw => h w (List.mem_cons_of_mem v hw)
      have hown := h v List.mem_cons_self
      constructor
      · rw [Visit.reached, hown, hreached]
      · rw [Visit.outcomes, hown, ok_bind, houtcomes]

end Trees

/-- The index before the first run, or after one or more complete runs. -/
def IndexSettled (functions globalVariables : List (List Byte × IndexEntry))
    (index : NameIndex) : Prop :=
  (index.functions = [] ∧ index.globalVariables = []) ∨
    (index.functions = functions ∧
      ∃ runs, index.globalVariables = (List.replicate (runs + 1) globalVariables).flatten)

section Settling

variable {dw : Dwarf} {rounds : Nat} {fs gs : List (List Byte × IndexEntry)} {s : NameIndex}

/-- Indexing completes the index, and adds global variables again if there is no
function. -/
theorem index_settled (hadds : Adds (Eff.forEach (dw.indexUnit rounds) dw.units) (.ok ⟨⟩) fs gs)
    (h : IndexSettled fs gs s) :
    ∃ s', dw.index rounds s = (.ok ⟨⟩, s') ∧ s'.functions = fs ∧
      ∃ runs, s'.globalVariables = (List.replicate (runs + 1) gs).flatten := by
  by_cases hempty : s.functions = []
  · obtain ⟨hresult, hfunctions, hglobals⟩ := hadds s
    refine ⟨(Eff.forEach (dw.indexUnit rounds) dw.units s).2, ?_, ?_, ?_⟩
    · rw [index_of_empty hempty]
      exact Prod.ext hresult rfl
    · rw [hfunctions, hempty, List.nil_append]
    · rw [hglobals]
      rcases h with ⟨-, hnone⟩ | ⟨-, runs, hruns⟩
      · exact ⟨0, by simp [hnone]⟩
      · refine ⟨runs + 1, ?_⟩
        rw [hruns, List.replicate_succ' (n := runs + 1), List.flatten_append]
        simp
  · refine ⟨s, index_of_filled hempty, ?_⟩
    rcases h with ⟨hnone, -⟩ | hdone
    · exact absurd hnone hempty
    · exact hdone

theorem respects_index (hadds : Adds (Eff.forEach (dw.indexUnit rounds) dw.units) (.ok ⟨⟩) fs gs) :
    Eff.Respects (Eff.Carries (IndexSettled fs gs)) (dw.index rounds) := by
  intro s h
  obtain ⟨s', hindex, hdone⟩ := index_settled hadds h
  rw [hindex]
  exact .inr hdone

/-- What indexing keeps, a search for a definition keeps. -/
theorem respects_memberFunction {I : NameIndex → Prop}
    (hindex : Eff.Respects (Eff.Carries I) (dw.index rounds)) (chain : Nat)
    (declaration : Option Nat) :
    Eff.Respects (Eff.Carries I) (dw.getMemberFunctionDefinition rounds chain declaration) := by
  induction chain generalizing declaration with
  | zero => exact .throw _
  | succ chain ih =>
      refine .bind hindex fun _ => .bind .get fun index => ?_
      split
      · exact .pure _
      · refine .bind (.ofExcept _) fun die => ?_
        split
        · exact .throw _
        · split
          · exact .pure _
          · exact ih _

/-- What indexing keeps, lookups keep. -/
theorem respects_lookup {I : NameIndex → Prop}
    (hindex : Eff.Respects (Eff.Carries I) (dw.index rounds)) (ranges : List Byte)
    (query : Lookup) : Eff.Respects (Eff.Carries I) (dw.perform rounds ranges query) := by
  refine .bind ?_ fun _ => .pure _
  cases query with
  | functions name => exact .bind hindex fun _ => .bind .get fun _ => .ofExcept _
  | globalVariable name =>
      refine .bind (.bind hindex fun _ => .bind .get fun index => ?_) fun _ => .pure _
      split
      · exact .pure _
      · exact .bind (.ofExcept _) fun _ => .pure _
  | functionContaining address =>
      exact .bind (.bind hindex fun _ => .bind .get fun _ => .ofExcept _) fun _ => .pure _
  | memberFunction declaration =>
      exact .bind (respects_memberFunction hindex rounds declaration) fun _ => .pure _

theorem indexAfter_settled
    (hadds : Adds (Eff.forEach (dw.indexUnit rounds) dw.units) (.ok ⟨⟩) fs gs)
    (ranges : List Byte) (earlier : List Lookup) :
    IndexSettled fs gs (dw.indexAfter rounds ranges earlier) :=
  Eff.Respects.performAll (respects_lookup (respects_index hadds) ranges) earlier NameIndex.empty
    (.inl ⟨rfl, rfl⟩)

/-- Runs that repeat each other do not change what is found first. -/
theorem find_replicate (p : List Byte × IndexEntry → Bool) (runs : Nat) :
    (List.replicate (runs + 1) gs).flatten.find? p = gs.find? p := by
  cases hfound : gs.find? p with
  | some entry => simp [List.replicate_succ, List.find?_append, hfound]
  | none =>
      rw [List.find?_eq_none] at hfound ⊢
      intro entry hentry
      obtain ⟨list, hlist, hin⟩ := List.mem_flatten.mp hentry
      rw [List.eq_of_mem_replicate hlist] at hin
      exact hfound entry hin

/-- `find_functions` and `find_global_variable` in an index that lookups have left. -/
theorem findFunctions_settled
    (hadds : Adds (Eff.forEach (dw.indexUnit rounds) dw.units) (.ok ⟨⟩) fs gs)
    (h : IndexSettled fs gs s) (name : List Byte) :
    (dw.findFunctions rounds name s).1 = (fs.filter fun entry => entry.1 = name).mapM fun entry =>
      parseDie entry.2.cu entry.2.pos := by
  obtain ⟨s', hindex, hfunctions, -⟩ := index_settled hadds h
  rw [Dwarf.findFunctions, Eff.bind_of_ok hindex, Eff.bind_apply, Eff.get_apply]
  simp only [hfunctions, Eff.ofExcept_apply]

theorem findGlobalVariable_settled
    (hadds : Adds (Eff.forEach (dw.indexUnit rounds) dw.units) (.ok ⟨⟩) fs gs)
    (h : IndexSettled fs gs s) (name : List Byte) :
    (dw.findGlobalVariable rounds name s).1 =
      match gs.find? fun entry => entry.1 = name with
      | none => .ok none
      | some entry => (parseDie entry.2.cu entry.2.pos).map some := by
  obtain ⟨s', hindex, -, runs, hglobals⟩ := index_settled hadds h
  rw [Dwarf.findGlobalVariable, Eff.bind_of_ok hindex, Eff.bind_apply, Eff.get_apply]
  simp only [hglobals, find_replicate]
  cases gs.find? (fun entry => entry.1 = name) with
  | none => rfl
  | some entry =>
      simp only [Eff.bind_apply, Eff.ofExcept_apply]
      cases parseDie entry.2.cu entry.2.pos <;> rfl

end Settling

section Answers

variable {dw : Dwarf} {rounds : Nat} {visits : List Visit}

/-- The entries under a name, parsed again. -/
theorem mapM_named {names : Visit → Except Failure (Option (List Byte))}
    (hparsed : ∀ v ∈ visits, parseDie v.die.cu v.entry.pos = .ok v.die) (name : List Byte) :
    ((visits.flatMap fun v => v.named (names v)).filter fun entry => entry.1 = name).mapM
        (fun entry => parseDie entry.2.cu entry.2.pos) =
      .ok ((visits.filter fun v => names v = .ok (some name)).map Visit.die) := by
  induction visits with
  | nil => rfl
  | cons v rest ih =>
      have hrest := ih fun w hw => hparsed w (List.mem_cons_of_mem v hw)
      have hown := hparsed v List.mem_cons_self
      rw [List.flatMap_cons, List.filter_append]
      by_cases hname : names v = .ok (some name)
      · have hfirst : (v.named (names v)).filter (fun entry => decide (entry.1 = name)) =
            [(name, v.indexEntry)] := by
          simp [hname, Visit.named]
        rw [hfirst, List.singleton_append, List.mapM_cons]
        change (parseDie v.die.cu v.entry.pos >>= _) = _
        rw [hown, ok_bind, hrest, ok_bind, List.filter_cons_of_pos (by simp [hname])]
        rfl
      · have hnothing : (v.named (names v)).filter (fun entry => decide (entry.1 = name)) = [] := by
          unfold Visit.named
          split
          · rename_i other hother
            have hne : other ≠ name := by
              rintro rfl
              exact hname hother
            simp [hne]
          · rfl
        rw [hnothing, List.nil_append, hrest]
        simp [hname]

/-- The first entry under a name. -/
theorem find_named {names : Visit → Except Failure (Option (List Byte))} (name : List Byte) :
    (visits.flatMap fun v => v.named (names v)).find? (fun entry => entry.1 = name) =
      (visits.find? fun v => names v = .ok (some name)).map fun v => (name, v.indexEntry) := by
  induction visits with
  | nil => rfl
  | cons v rest ih =>
      rw [List.flatMap_cons, List.find?_append, ih]
      by_cases hname : names v = .ok (some name)
      · simp [hname, Visit.named]
      · have hnothing : (v.named (names v)).find? (fun entry => decide (entry.1 = name)) =
            none := by
          unfold Visit.named
          split
          · rename_i other hother
            have hne : other ≠ name := by
              rintro rfl
              exact hname hother
            simp [hne]
          · rfl
        rw [hnothing]
        simp [hname]

end Answers

/-- A function with a range and a name. -/
def Die.IsFunctionNamed (dw : Dwarf) (die : Die) (name : List Byte) : Prop :=
  ∃ entry, die.entry = some entry ∧ entry.hasRange = true ∧ entry.isFunction = true ∧
    die.Named dw (some name)

/-- A variable with a location and a name. -/
def Die.IsVariableNamed (dw : Dwarf) (die : Die) (name : List Byte) : Prop :=
  ∃ entry, die.entry = some entry ∧ entry.isLocatedVariable = true ∧ die.Named dw (some name)

section Complete

variable {dw : Dwarf} {rounds : Nat} {visits : List Visit}

theorem functionName_eq {v : Visit} (hentry : v.die.entry = some v.entry)
    (hname : ∃ name, v.die.name dw rounds = .ok name) (name : List Byte) :
    v.functionName dw rounds = .ok (some name) ↔ v.die.IsFunctionNamed dw name := by
  obtain ⟨known, hknown⟩ := hname
  unfold Visit.functionName
  constructor
  · intro h
    split at h
    · rename_i hboth
      rw [Bool.and_eq_true] at hboth
      exact ⟨v.entry, hentry, hboth.1, hboth.2, named_of_name h⟩
    · cases h
  · rintro ⟨entry, hentry', hrange, hfunction, hnamed⟩
    cases hentry'.symm.trans hentry
    rw [if_pos (by rw [hrange, hfunction]; rfl), hknown,
      named_unique (named_of_name hknown) hnamed]

theorem globalName_eq {v : Visit} (hentry : v.die.entry = some v.entry)
    (hname : ∃ name, v.die.name dw rounds = .ok name) (name : List Byte) :
    v.globalName dw rounds = .ok (some name) ↔
      v.inFunction = false ∧ v.die.IsVariableNamed dw name := by
  obtain ⟨known, hknown⟩ := hname
  unfold Visit.globalName
  constructor
  · intro h
    split at h
    · rename_i hboth
      rw [Bool.and_eq_true, Bool.not_eq_true'] at hboth
      exact ⟨hboth.2, v.entry, hentry, hboth.1, named_of_name h⟩
    · cases h
  · rintro ⟨houtside, entry, hentry', hvariable, hnamed⟩
    cases hentry'.symm.trans hentry
    rw [if_pos (by rw [hvariable, houtside]; rfl), hknown,
      named_unique (named_of_name hknown) hnamed]

/-- A complete run adds the names of all entries. -/
theorem adds_complete (hwalk : dw.walkUnits dw.units = ⟨visits, none⟩)
    (houtcome : ∀ v ∈ visits, v.outcome dw rounds = .ok ⟨⟩) :
    Adds (Eff.forEach (dw.indexUnit rounds) dw.units) (.ok ⟨⟩)
      (visits.flatMap fun v => v.named (v.functionName dw rounds))
      (visits.flatMap fun v => v.named (v.globalName dw rounds)) := by
  obtain ⟨hreached, houtcomes⟩ := reached_all houtcome
  have hadds := adds_walk dw rounds
  have hall : dw.reached rounds = visits := by
    rw [Dwarf.reached, Dwarf.walk, hwalk]
    exact hreached
  have hdone : dw.outcome rounds = .ok ⟨⟩ := by
    rw [Dwarf.outcome, Dwarf.walk, hwalk]
    simp only [houtcomes, ok_bind]
  have hglobals : (visits.flatMap fun v => v.globals dw rounds) =
      visits.flatMap fun v => v.named (v.globalName dw rounds) := by
    refine List.flatMap_congr fun v hv => ?_
    rw [Visit.globals, houtcome v hv]
  rwa [hall, hdone, hglobals] at hadds

/-- The functions under a name are those that the units show. -/
theorem functions_answer (hvisits : WalkedTrees dw dw.units visits)
    (hnames : ∀ v ∈ visits, ∃ name, v.die.name dw rounds = .ok name) (name : List Byte) :
    ((visits.filter fun v => v.functionName dw rounds = .ok (some name)).map Visit.die).Nodup ∧
      ∀ die, die ∈ (visits.filter fun v => v.functionName dw rounds = .ok (some name)).map
        Visit.die ↔
        ∃ cu ∈ dw.units, ∃ inFunction,
          cu.Shows dw die inFunction ∧ die.IsFunctionNamed dw name := by
  constructor
  · exact hvisits.once.sublist (List.filter_sublist.map _)
  · intro die
    simp only [List.mem_map, List.mem_filter, decide_eq_true_eq]
    constructor
    · rintro ⟨v, ⟨hv, hname⟩, rfl⟩
      obtain ⟨hentry, cu, hcu, hshows⟩ := (hvisits.shown v).mp hv
      exact ⟨cu, hcu, v.inFunction, hshows, (functionName_eq hentry (hnames v hv) name).mp hname⟩
    · rintro ⟨cu, hcu, inFunction, hshows, entry, hentry, hfunction⟩
      have hv : (⟨die, entry, inFunction⟩ : Visit) ∈ visits :=
        (hvisits.shown _).mpr ⟨hentry, cu, hcu, hshows⟩
      exact ⟨_, ⟨hv, (functionName_eq hentry (hnames _ hv) name).mpr ⟨entry, hentry, hfunction⟩⟩,
        rfl⟩

/-- There is a global variable under a name when the units show one. -/
theorem global_answer (hvisits : WalkedTrees dw dw.units visits)
    (hnames : ∀ v ∈ visits, ∃ name, v.die.name dw rounds = .ok name) (name : List Byte) :
    ((visits.find? fun v => v.globalName dw rounds = .ok (some name)).map Visit.die).isSome = true ↔
      ∃ cu ∈ dw.units, ∃ die, cu.Shows dw die false ∧ die.IsVariableNamed dw name := by
  rw [Option.isSome_map, List.find?_isSome]
  simp only [decide_eq_true_eq]
  constructor
  · rintro ⟨v, hv, hname⟩
    obtain ⟨hentry, cu, hcu, hshows⟩ := (hvisits.shown v).mp hv
    obtain ⟨houtside, hvariable⟩ := (globalName_eq hentry (hnames v hv) name).mp hname
    rw [houtside] at hshows
    exact ⟨cu, hcu, v.die, hshows, hvariable⟩
  · rintro ⟨cu, hcu, die, hshows, entry, hentry, hvariable⟩
    have hv : (⟨die, entry, false⟩ : Visit) ∈ visits :=
      (hvisits.shown _).mpr ⟨hentry, cu, hcu, hshows⟩
    exact ⟨_, hv, (globalName_eq hentry (hnames _ hv) name).mpr ⟨rfl, entry, hentry, hvariable⟩⟩

/-- Units that encode trees of readable entries, with references that do not run in
circles. -/
structure Dwarf.WellFormed (dw : Dwarf) : Prop where
  units : dw.units.Nodup
  trees : ∀ cu ∈ dw.units, ∃ tree, EncodesUnit cu tree
  acyclic : dw.Acyclic
  readable : ∀ cu ∈ dw.units, ∀ die inFunction, cu.Shows dw die inFunction →
    ∀ target, die.LeadsTo dw target → target.Readable dw

/-- With enough rounds every entry is visited once, and no visit fails. -/
theorem Dwarf.WellFormed.exists_visits (h : dw.WellFormed) : ∃ visits enough,
    dw.walkUnits dw.units = ⟨visits, none⟩ ∧ WalkedTrees dw dw.units visits ∧
    ∀ rounds, enough ≤ rounds → ∀ v ∈ visits,
      (∃ name, v.die.name dw rounds = .ok name) ∧ v.outcome dw rounds = .ok ⟨⟩ := by
  obtain ⟨visits, hwalk, hvisits⟩ := walkUnits_trees dw h.trees h.units
  have hread : ∀ v ∈ visits, v.die.Readable dw ∧ ∃ rounds name, v.die.name dw rounds =
      .ok name := by
    intro v hv
    obtain ⟨hentry, cu, hcu, hshows⟩ := (hvisits.shown v).mp hv
    obtain ⟨hunit, hparsed⟩ := hvisits.parsed v hv
    have hall := h.readable cu hcu _ _ hshows
    exact ⟨hall v.die .refl, exists_name (mem_parsedDies.mpr ⟨_, hunit, _, hparsed⟩)
      (h.acyclic cu hcu _ _ hshows) hall⟩
  obtain ⟨enough, henough⟩ := exists_rounds fun v hv => (hread v hv).2
  refine ⟨visits, enough, hwalk, hvisits, fun rounds hrounds v hv => ?_⟩
  obtain ⟨known, hknown⟩ := henough rounds hrounds v hv
  exact ⟨⟨known, hknown⟩, outcome_of_readable ((hvisits.shown v).mp hv).1 (hread v hv).1 hknown⟩

/-- Lookups of functions answer with the visits to functions of the name. -/
theorem findFunctions_visits (hwalk : dw.walkUnits dw.units = ⟨visits, none⟩)
    (hvisits : WalkedTrees dw dw.units visits)
    (houtcome : ∀ v ∈ visits, v.outcome dw rounds = .ok ⟨⟩) (ranges : List Byte)
    (earlier : List Lookup) (name : List Byte) :
    (dw.findFunctions rounds name (dw.indexAfter rounds ranges earlier)).1 =
      .ok ((visits.filter fun v => v.functionName dw rounds = .ok (some name)).map Visit.die) := by
  have hadds := adds_complete hwalk houtcome
  exact (findFunctions_settled hadds (indexAfter_settled hadds ranges earlier) name).trans
    (mapM_named (fun v hv => (hvisits.parsed v hv).2) name)

/-- The index of units that encode trees of readable entries, with references that do
not run in circles, is sound and complete.  Whatever was looked up before,
`find_functions` returns every function with the name once, at any depth, and
`find_global_variable` succeeds exactly when there is such a variable outside of all
functions; both answer as the first lookup does. -/
theorem nameIndex_sound_complete (hunits : dw.units.Nodup)
    (htrees : ∀ cu ∈ dw.units, ∃ tree, EncodesUnit cu tree) (hacyclic : dw.Acyclic)
    (hreadable : ∀ cu ∈ dw.units, ∀ die inFunction, cu.Shows dw die inFunction →
      ∀ target, die.LeadsTo dw target → target.Readable dw) :
    ∃ enough, ∀ rounds, enough ≤ rounds → ∀ ranges earlier name,
      (∃ dies, (dw.findFunctions rounds name (dw.indexAfter rounds ranges earlier)).1 = .ok dies ∧
        dies.Nodup ∧ ∀ die, die ∈ dies ↔ ∃ cu ∈ dw.units, ∃ inFunction,
          cu.Shows dw die inFunction ∧ die.IsFunctionNamed dw name) ∧
      (∃ found,
        (dw.findGlobalVariable rounds name (dw.indexAfter rounds ranges earlier)).1 = .ok found ∧
        (found.isSome = true ↔ ∃ cu ∈ dw.units, ∃ die,
          cu.Shows dw die false ∧ die.IsVariableNamed dw name)) ∧
      (dw.findFunctions rounds name (dw.indexAfter rounds ranges earlier)).1 =
        (dw.findFunctions rounds name NameIndex.empty).1 ∧
      (dw.findGlobalVariable rounds name (dw.indexAfter rounds ranges earlier)).1 =
        (dw.findGlobalVariable rounds name NameIndex.empty).1 := by
  obtain ⟨visits, enough, hwalk, hvisits, hgood⟩ := Dwarf.WellFormed.exists_visits
    ⟨hunits, htrees, hacyclic, hreadable⟩
  refine ⟨enough, fun rounds hrounds ranges earlier name => ?_⟩
  have hnames := fun v hv => (hgood rounds hrounds v hv).1
  have houtcome := fun v hv => (hgood rounds hrounds v hv).2
  have hadds := adds_complete hwalk houtcome
  have hparsed := fun v hv => (hvisits.parsed v hv).2
  have hstart : IndexSettled (visits.flatMap fun v => v.named (v.functionName dw rounds))
      (visits.flatMap fun v => v.named (v.globalName dw rounds)) NameIndex.empty :=
    .inl ⟨rfl, rfl⟩
  have hlater := indexAfter_settled hadds ranges earlier
  have hfunctions := findFunctions_visits hwalk hvisits houtcome ranges
  have hglobals : ∀ s, IndexSettled (visits.flatMap fun v => v.named (v.functionName dw rounds))
      (visits.flatMap fun v => v.named (v.globalName dw rounds)) s →
      (dw.findGlobalVariable rounds name s).1 =
      .ok ((visits.find? fun v => v.globalName dw rounds = .ok (some name)).map Visit.die) := by
    intro s hs
    rw [findGlobalVariable_settled hadds hs name, find_named]
    cases hfound : visits.find? fun v => v.globalName dw rounds = .ok (some name) with
    | none => rfl
    | some v =>
        change (parseDie v.die.cu v.entry.pos).map some = _
        rw [hparsed v (List.mem_of_find?_eq_some hfound)]
        rfl
  obtain ⟨honce, hmem⟩ := functions_answer hvisits hnames name
  exact ⟨⟨_, hfunctions earlier name, honce, hmem⟩,
    ⟨_, hglobals _ hlater, global_answer hvisits hnames name⟩,
    (hfunctions earlier name).trans (hfunctions [] name).symm,
    (hglobals _ hlater).trans (hglobals _ hstart).symm⟩

end Complete

namespace IndexCompleteWitness

def unitEntry : Abbrev := ⟨1, 0x11, true, []⟩

def declarationEntry : Abbrev := ⟨2, tagSubprogram, false, [⟨atName, .string⟩]⟩

def functionEntry : Abbrev :=
  ⟨3, tagSubprogram, false, [⟨atSpecification, .ref1⟩, ⟨atLowPc, .addr⟩]⟩

def variableEntry : Abbrev := ⟨4, tagVariable, false, [⟨atName, .string⟩, ⟨atLocation, .exprloc⟩]⟩

/-- A declaration of `f`, its definition and a global variable `g`. -/
def cu : CompileUnit :=
  ⟨0, List.replicate 11 0 ++ [1, 2, 0x66, 0, 3, 12, 0, 0, 0, 0, 0, 0, 0, 0, 4, 0x67, 0, 0, 0],
    [unitEntry, declarationEntry, functionEntry, variableEntry]⟩

def dwarf : Dwarf := ⟨[], [], [cu]⟩

def root : Die := ⟨cu, 12, some ⟨11, unitEntry, []⟩⟩

def declaration : Die := ⟨cu, 15, some ⟨12, declarationEntry, [13]⟩⟩

def function : Die := ⟨cu, 25, some ⟨15, functionEntry, [16, 17]⟩⟩

def globalVariable : Die := ⟨cu, 29, some ⟨25, variableEntry, [26, 28]⟩⟩

theorem name_encodes (letter : Byte) (h : 0 ∉ [letter]) : EncodesForm .string [letter, 0] :=
  @EncodesForm.string [letter] h

theorem empty_encodes : EncodesForm .exprloc [0] :=
  @EncodesForm.block .exprloc [0] [] 0 (.inr rfl) rfl rfl

theorem encodes : ∃ tree, EncodesUnit cu tree := by
  have hlast : EncodesSiblings cu 29 [] 30 := .null ⟨_, rfl⟩ (show IsUleb [0] 0 from rfl)
  have hvariable : EncodesHead cu 25 variableEntry
      [⟨atName, .string, [0x67, 0]⟩, ⟨atLocation, .exprloc, [0]⟩] 29 29 :=
    ⟨[4], 4, ⟨_, rfl⟩, rfl, by decide, rfl,
      .value (by decide) rfl ⟨_, rfl⟩ (name_encodes 0x67 (by decide))
        (.value (by decide) rfl ⟨_, rfl⟩ empty_encodes .nil)⟩
  have hfunction : EncodesHead cu 15 functionEntry
      [⟨atSpecification, .ref1, [12]⟩, ⟨atLowPc, .addr, List.replicate 8 0⟩] 25 25 :=
    ⟨[3], 3, ⟨_, rfl⟩, rfl, by decide, rfl,
      .value (by decide) rfl ⟨_, rfl⟩ (.fixed rfl)
        (.value (by decide) rfl ⟨_, rfl⟩ (.fixed rfl) .nil)⟩
  have hdeclaration : EncodesHead cu 12 declarationEntry [⟨atName, .string, [0x66, 0]⟩] 15 15 :=
    ⟨[2], 2, ⟨_, rfl⟩, rfl, by decide, rfl,
      .value (by decide) rfl ⟨_, rfl⟩ (name_encodes 0x66 (by decide)) .nil⟩
  have hroot : EncodesHead cu 11 unitEntry [] 12 30 :=
    ⟨[1], 1, ⟨_, rfl⟩, rfl, by decide, rfl, .nil⟩
  exact ⟨_, .parent hroot rfl (.leaf hdeclaration rfl (.leaf hfunction rfl
    (.leaf hvariable rfl hlast)))⟩

def dies : List Die := [root, declaration, function, globalVariable]

theorem children_dies {die : Die} (hmem : die ∈ dies) {children : List Die}
    (h : die.children dwarf = .ok children) : ∀ child ∈ children, child ∈ dies := by
  have hroot : root.children dwarf = .ok [declaration, function, globalVariable] := rfl
  simp only [dies, List.mem_cons, List.not_mem_nil, or_false] at hmem
  rcases hmem with rfl | rfl | rfl | rfl
  · cases hroot.symm.trans h
    intro child hchild
    exact List.mem_cons_of_mem root hchild
  · cases h
    simp
  · cases h
    simp
  · cases h
    simp

theorem shows_dies {die target : Die} {inFunction nested : Bool}
    (h : die.Shows dwarf inFunction target nested) (hmem : die ∈ dies) : target ∈ dies := by
  induction h with
  | self => exact hmem
  | inside _ hchildren hchild _ ih => exact ih (children_dies hmem hchildren _ hchild)

/-- The definition refers to the declaration, and nothing else refers to anything. -/
theorem refersTo_dies {die target : Die} (hmem : die ∈ dies) (h : die.RefersTo dwarf target) :
    die = function ∧ target = declaration := by
  have htarget : Die.reference dwarf cu ⟨15, functionEntry, [16, 17]⟩ atSpecification =
      .ok declaration := rfl
  simp only [dies, List.mem_cons, List.not_mem_nil, or_false] at hmem
  obtain ⟨entry, hentry, hrefers⟩ := h
  rcases hmem with rfl | rfl | rfl | rfl
  · cases hentry
    rcases hrefers with ⟨hcontains, -⟩ | ⟨hcontains, -⟩ <;> cases hcontains
  · cases hentry
    rcases hrefers with ⟨hcontains, -⟩ | ⟨hcontains, -⟩ <;> cases hcontains
  · cases hentry
    rcases hrefers with ⟨-, hreference⟩ | ⟨hcontains, -⟩
    · exact ⟨rfl, Except.ok.inj (hreference.symm.trans htarget)⟩
    · cases hcontains
  · cases hentry
    rcases hrefers with ⟨hcontains, -⟩ | ⟨hcontains, -⟩ <;> cases hcontains

theorem leadsTo_dies {die target : Die} (h : die.LeadsTo dwarf target) (hmem : die ∈ dies) :
    target ∈ dies := by
  induction h with
  | refl => exact hmem
  | tail _ hstep ih =>
      rw [(refersTo_dies ih hstep).2]
      decide

theorem acyclic_dies {die : Die} (hmem : die ∈ dies) :
    ¬ Relation.TransGen (Die.RefersTo dwarf) die die := by
  intro h
  obtain ⟨middle, hfirst, hrest⟩ := Relation.TransGen.head'_iff.mp h
  obtain ⟨rfl, rfl⟩ := refersTo_dies hmem hfirst
  rcases hrest.cases_head with hsame | ⟨next, hstep, -⟩
  · cases hsame
  · have hdeclaration := (refersTo_dies (by decide) hstep).1
    cases hdeclaration

theorem readable_dies {die : Die} (hmem : die ∈ dies) : die.Readable dwarf := by
  simp only [dies, List.mem_cons, List.not_mem_nil, or_false] at hmem
  rcases hmem with rfl | rfl | rfl | rfl
  · exact ⟨_, rfl, nofun, nofun, nofun⟩
  · exact ⟨_, rfl, fun _ => ⟨[0x66], rfl⟩, nofun, nofun⟩
  · exact ⟨_, rfl, nofun, fun _ => ⟨declaration, rfl⟩, nofun⟩
  · exact ⟨_, rfl, fun _ => ⟨[0x67], rfl⟩, nofun, nofun⟩

theorem unit_dies {unit : CompileUnit} (hunit : unit ∈ dwarf.units) {die : Die} {inFunction : Bool}
    (h : unit.Shows dwarf die inFunction) : die ∈ dies := by
  rw [List.mem_singleton.mp hunit] at h
  obtain ⟨start, hstart, hshows⟩ := h
  have hroot : cu.root = .ok root := rfl
  cases hstart.symm.trans hroot
  exact shows_dies hshows (by decide)

theorem dwarf_wellFormed : dwarf.WellFormed where
  units := List.nodup_singleton cu
  trees := fun unit hunit => by
    rw [List.mem_singleton.mp hunit]
    exact encodes
  acyclic := fun _ hunit _ _ hshows _ hleads =>
    acyclic_dies (leadsTo_dies hleads (unit_dies hunit hshows))
  readable := fun _ hunit _ _ hshows _ hleads =>
    readable_dies (leadsTo_dies hleads (unit_dies hunit hshows))

/-- `f` is found under the name of its declaration, also after other lookups. -/
theorem nameIndex_sound_complete_specified :
    ∃ enough, ∀ rounds, enough ≤ rounds → ∀ ranges earlier,
      ∃ dies, (dwarf.findFunctions rounds [0x66] (dwarf.indexAfter rounds ranges earlier)).1 =
          .ok dies ∧ dies.Nodup ∧ ∀ die, die ∈ dies ↔ ∃ cu ∈ dwarf.units, ∃ inFunction,
            cu.Shows dwarf die inFunction ∧ die.IsFunctionNamed dwarf [0x66] := by
  obtain ⟨enough, h⟩ := nameIndex_sound_complete dwarf_wellFormed.units dwarf_wellFormed.trees
    dwarf_wellFormed.acyclic dwarf_wellFormed.readable
  exact ⟨enough, fun rounds hrounds ranges earlier => (h rounds hrounds ranges earlier [0x66]).1⟩

example : (dwarf.findFunctions 2 [0x66] NameIndex.empty).1 = .ok [function] := by rfl

end IndexCompleteWitness

end Gsdb
