/-
Entries with a low address and no end, such as labels, in the lookup of scopes.
`contains_address` compares such an entry's low address and, where that does not settle it,
asks for the high address that the entry does not have.
-/
import Gsdb.Scopes
import Gsdb.CodeBounds

namespace Gsdb

open ByteMemory ByteCursor ScopeSearch

/-- An entry has a low address, and neither a high one nor ranges. -/
def DieEntry.isBare (entry : DieEntry) : Bool :=
  Die.contains entry atLowPc && !Die.contains entry atHighPc && !Die.contains entry atRanges

/-- What an entry says of its code can be read. -/
structure Die.CodeReadable (ranges : List Byte) (die : Die) (entry : DieEntry) : Prop where
  ranges : Die.contains entry atRanges = true →
    ∃ base items, HasRangeList ranges die.cu entry base items
  low : Die.contains entry atLowPc = true → ∃ low, Die.lowPc die.cu entry = .ok low
  high : Die.contains entry atLowPc = true → Die.contains entry atHighPc = true →
    ∃ high, Die.highPc die.cu entry = .ok high

/-- A bare entry whose low address is not above an address. -/
def Die.BareBelow (die : Die) (address : Word) : Prop :=
  ∃ entry low, die.entry = some entry ∧ entry.isBare = true ∧
    Die.lowPc die.cu entry = .ok low ∧ low ≤ address

namespace DebugFile

/-- The functions of the index can be read, with the trees of their entries, the code that
these are for and the names of variables. -/
def FunctionsReadable (file : DebugFile) (names : Nat) : Prop :=
  ∀ indexed ∈ file.functions, ∃ func, parseDie indexed.2.cu indexed.2.pos = .ok func ∧
    (∃ height tree, func.readTree file.dwarf height = .ok tree) ∧
    ∀ die, file.InTree func die → file.NameReadable names die ∧
      ∃ entry, die.entry = some entry ∧ die.CodeReadable file.ranges entry

/-- The functions that are asked for an address: none in front of them contains it. -/
def AskedFunction (file : DebugFile) (functions : List (List Byte × IndexEntry)) (address : Word)
    (die : Die) : Prop :=
  ∃ before indexed after, functions = before ++ indexed :: after ∧
    (∀ other ∈ before, ∀ func, ¬ file.Contains address other func) ∧
    parseDie indexed.2.cu indexed.2.pos = .ok die

/-- The entries that are asked for an address: functions, and the children of its scopes. -/
def AskedDie (file : DebugFile) (address : Word) (die : Die) : Prop :=
  file.AskedFunction file.functions address die ∨
    ∃ func, file.FirstContaining address func ∧
      Asked (Die.children file.dwarf) (file.containsAt address) func die

/-- Looking up the scopes and the variables at an address returns, however deep the tree may
be searched beyond some depth, and an entry without an end does not contain it. -/
def ScopesReturn (file : DebugFile) (names position : Nat) (address : Word) : Prop :=
  (∃ enough, ∀ depth, enough ≤ depth →
    (∃ scopes, file.scopesAtAddress depth position ⟨some position, address⟩ = .ok scopes) ∧
      ∀ name, ∃ found,
        file.findLocalVariable names depth name position ⟨some position, address⟩ = .ok found) ∧
  ∀ die entry, file.AskedDie address die → die.entry = some entry → entry.isBare = true →
    file.containsAt address die = .ok false

end DebugFile

section Entries

variable {file : DebugFile} {address : Word} {die : Die} {entry : DieEntry}

theorem isBare_iff : entry.isBare = true ↔ Die.contains entry atLowPc = true ∧
    Die.contains entry atHighPc = false ∧ Die.contains entry atRanges = false := by
  simp [DieEntry.isBare, and_assoc]

/-- An entry is never found to contain an address if it is bare, and whether it contains one
cannot be answered if it starts at or below that. -/
theorem containsAt_bare {low : Word} (hentry : die.entry = some entry)
    (hbare : entry.isBare = true) (hlow : Die.lowPc die.cu entry = .ok low) :
    file.containsAt address die =
      if low ≤ address then .error (.error "DIE does not have high PC!") else .ok false := by
  obtain ⟨hcontains, hhigh, hranges⟩ := isBare_iff.mp hbare
  simp only [DebugFile.containsAt, hentry, Die.containsAddress, hranges, hcontains, hlow, ok_bind,
    Die.highPc, hhigh, Bool.false_eq_true, if_false, if_true]
  split <;> rfl

theorem containsAt_readable (hentry : die.entry = some entry)
    (hreadable : die.CodeReadable file.ranges entry) (hbare : entry.isBare = false) :
    ∃ found, file.containsAt address die = .ok found := by
  simp only [DebugFile.containsAt, hentry]
  by_cases hranges : Die.contains entry atRanges = true
  · obtain ⟨base, items, hlist⟩ := hreadable.ranges hranges
    exact ⟨_, containsAddress_items hranges hlist address⟩
  · rw [Die.containsAddress, if_neg hranges]
    by_cases hcontains : Die.contains entry atLowPc = true
    · obtain ⟨low, hlow⟩ := hreadable.low hcontains
      have hhas : Die.contains entry atHighPc = true := by
        rw [← Bool.not_eq_false]
        intro hnone
        rw [isBare_iff.mpr ⟨hcontains, hnone, Bool.eq_false_iff.mpr hranges⟩] at hbare
        cases hbare
      obtain ⟨high, hhigh⟩ := hreadable.high hcontains hhas
      rw [if_pos hcontains, hlow, ok_bind]
      split
      · exact ⟨decide (address < high), by rw [hhigh]; rfl⟩
      · exact ⟨false, rfl⟩
    · exact ⟨false, if_neg hcontains⟩

/-- Whether a readable entry contains an address is answered unless it is bare and starts at or
below that. -/
theorem containsAt_answered_iff (address : Word) (hentry : die.entry = some entry)
    (hreadable : die.CodeReadable file.ranges entry) :
    (∃ found, file.containsAt address die = .ok found) ↔ ¬ die.BareBelow address := by
  by_cases hbare : entry.isBare = true
  · obtain ⟨low, hlow⟩ := hreadable.low (isBare_iff.mp hbare).1
    rw [containsAt_bare hentry hbare hlow]
    constructor
    · rintro ⟨found, hfound⟩ ⟨other, low', hother, -, hlow', hle⟩
      obtain rfl := Option.some.inj (hentry.symm.trans hother)
      obtain rfl := Except.ok.inj (hlow.symm.trans hlow')
      rw [if_pos hle] at hfound
      cases hfound
    · intro hnot
      refine ⟨false, if_neg fun hle => hnot ⟨entry, low, hentry, hbare, hlow, hle⟩⟩
  · refine iff_of_true (containsAt_readable hentry hreadable (Bool.eq_false_iff.mpr hbare)) ?_
    rintro ⟨other, -, hother, hyes, -⟩
    obtain rfl := Option.some.inj (hentry.symm.trans hother)
    exact hbare hyes

end Entries

section Functions

variable {file : DebugFile} {names position : Nat} {address : Word} {die func : Die}
  {functions : List (List Byte × IndexEntry)} {indexed : List Byte × IndexEntry}

theorem DebugFile.AskedFunction.of_rest (hnot : ∀ func, ¬ file.Contains address indexed func)
    (h : file.AskedFunction functions address die) :
    file.AskedFunction (indexed :: functions) address die := by
  obtain ⟨before, last, after, rfl, hbefore, hparse⟩ := h
  refine ⟨indexed :: before, last, after, rfl, fun other hother => ?_, hparse⟩
  rcases List.mem_cons.mp hother with rfl | hother
  · exact hnot
  · exact hbefore other hother

/-- A function that is asked is the first, or asked among the rest if the first does not contain
the address. -/
theorem DebugFile.AskedFunction.cases_cons
    (h : file.AskedFunction (indexed :: functions) address die) :
    parseDie indexed.2.cu indexed.2.pos = .ok die ∨
      (∀ func, ¬ file.Contains address indexed func) ∧
        file.AskedFunction functions address die := by
  obtain ⟨before, last, after, hsplit, hbefore, hparse⟩ := h
  cases before with
  | nil =>
      cases hsplit
      exact .inl hparse
  | cons head before =>
      cases hsplit
      exact .inr ⟨hbefore indexed List.mem_cons_self, before, last, after, rfl,
        fun other hother => hbefore other (List.mem_cons_of_mem _ hother), hparse⟩

/-- One round of the loop over the index. -/
theorem functionAt_round {entry : DieEntry} {found : Bool}
    (hparse : parseDie indexed.2.cu indexed.2.pos = .ok func) (hentry : func.entry = some entry)
    (hfound : file.containsAt address func = .ok found) :
    Dwarf.functionAt file.ranges address (indexed :: functions) =
      if found && entry.abbrevEntry.tag = tagSubprogram then .ok (some func)
      else Dwarf.functionAt file.ranges address functions := by
  rw [DebugFile.containsAt, hentry] at hfound
  simp only [Dwarf.functionAt, hparse, ok_bind, hentry, hfound]
  rfl

theorem contains_iff {entry : DieEntry} {found : Bool}
    (hparse : parseDie indexed.2.cu indexed.2.pos = .ok func) (hentry : func.entry = some entry)
    (hfound : file.containsAt address func = .ok found) :
    (∃ other, file.Contains address indexed other) ↔
      (found && entry.abbrevEntry.tag = tagSubprogram) = true := by
  rw [DebugFile.containsAt, hentry] at hfound
  rw [Bool.and_eq_true, decide_eq_true_iff]
  constructor
  · rintro ⟨other, hother, parsed, hparsed, hcontains, htag⟩
    obtain rfl := Except.ok.inj (hparse.symm.trans hother)
    obtain rfl := Option.some.inj (hentry.symm.trans hparsed)
    exact ⟨Except.ok.inj (hfound.symm.trans hcontains), htag⟩
  · rintro ⟨rfl, htag⟩
    exact ⟨func, hparse, entry, hentry, hfound, htag⟩

/-- The search through the index returns exactly if no function that is asked is bare and starts
at or below the address. -/
theorem functionAt_returns_iff (address : Word)
    (h : ∀ indexed ∈ functions, ∃ func entry, parseDie indexed.2.cu indexed.2.pos = .ok func ∧
      func.entry = some entry ∧ func.CodeReadable file.ranges entry) :
    (∃ found, Dwarf.functionAt file.ranges address functions = .ok found) ↔
      ∀ die, file.AskedFunction functions address die → ¬ die.BareBelow address := by
  induction functions with
  | nil =>
      refine iff_of_true ⟨none, rfl⟩ fun die hdie => ?_
      obtain ⟨before, indexed, after, hsplit, -⟩ := hdie
      cases before <;> cases hsplit
  | cons indexed rest ih =>
      obtain ⟨func, entry, hparse, hentry, hreadable⟩ := h indexed List.mem_cons_self
      have hrest := ih fun other hother => h other (List.mem_cons_of_mem indexed hother)
      have hanswered := containsAt_answered_iff address hentry hreadable
      constructor
      · rintro ⟨result, hresult⟩ die hdie
        have hfunc : ∃ found, file.containsAt address func = .ok found := by
          simp only [Dwarf.functionAt, hparse, ok_bind, hentry] at hresult
          obtain ⟨found, hfound, -⟩ := bind_eq_ok.mp hresult
          exact ⟨found, by simp only [DebugFile.containsAt, hentry, hfound]⟩
        rcases hdie.cases_cons with hfirst | ⟨hnot, hdie⟩
        · obtain rfl := Except.ok.inj (hparse.symm.trans hfirst)
          exact hanswered.mp hfunc
        · obtain ⟨found, hfound⟩ := hfunc
          rw [functionAt_round hparse hentry hfound, if_neg] at hresult
          · exact hrest.mp ⟨result, hresult⟩ die hdie
          · rw [← contains_iff hparse hentry hfound]
            rintro ⟨other, hother⟩
            exact hnot other hother
      · intro hasked
        have hfirst : file.AskedFunction (indexed :: rest) address func :=
          ⟨[], indexed, rest, rfl, fun other hother => absurd hother List.not_mem_nil, hparse⟩
        obtain ⟨found, hfound⟩ := hanswered.mpr (hasked func hfirst)
        rw [functionAt_round hparse hentry hfound]
        split
        · exact ⟨some func, rfl⟩
        · rename_i hnot
          rw [← contains_iff hparse hentry hfound] at hnot
          exact hrest.mpr fun die hdie =>
            hasked die (hdie.of_rest fun other hother => hnot ⟨other, hother⟩)

end Functions

section Lookups

variable {file : DebugFile} {names position : Nat} {address : Word} {die func : Die}

theorem functionContainingAddress_eq (file : DebugFile) (position : Nat) (address : Word) :
    file.functionContainingAddress position ⟨some position, address⟩ =
      Dwarf.functionAt file.ranges address file.functions :=
  if_pos rfl

theorem FunctionsReadable.asked (h : file.FunctionsReadable names) :
    ∀ indexed ∈ file.functions, ∃ func entry, parseDie indexed.2.cu indexed.2.pos = .ok func ∧
      func.entry = some entry ∧ func.CodeReadable file.ranges entry := by
  intro indexed hindexed
  obtain ⟨func, hparse, -, htree⟩ := h indexed hindexed
  obtain ⟨-, entry, hentry, hreadable⟩ := htree func .refl
  exact ⟨func, entry, hparse, hentry, hreadable⟩

/-- The tree of the function at an address. -/
theorem FunctionsReadable.tree (h : file.FunctionsReadable names)
    (hfunc : file.FirstContaining address func) :
    (∃ height, Within (Die.children file.dwarf) height func) ∧
      ∀ die, file.InTree func die → file.NameReadable names die ∧
        ∃ entry, die.entry = some entry ∧ die.CodeReadable file.ranges entry := by
  obtain ⟨before, indexed, after, hsplit, -, hparse, -⟩ := hfunc
  obtain ⟨other, hother, ⟨height, tree, htree⟩, hall⟩ :=
    h indexed (hsplit ▸ List.mem_append_right before List.mem_cons_self)
  obtain rfl := Except.ok.inj (hparse.symm.trans hother)
  exact ⟨⟨height, within_of_readTree htree⟩, hall⟩

/-- Every entry that is asked is readable. -/
theorem AskedDie.readable (h : file.FunctionsReadable names) (hdie : file.AskedDie address die) :
    ∃ entry, die.entry = some entry ∧ die.CodeReadable file.ranges entry := by
  rcases hdie with ⟨before, indexed, after, hsplit, -, hparse⟩ | ⟨func, hfunc, hasked⟩
  · obtain ⟨func, entry, hother, hentry, hreadable⟩ :=
      FunctionsReadable.asked h indexed (hsplit ▸ List.mem_append_right before List.mem_cons_self)
    obtain rfl := Except.ok.inj (hparse.symm.trans hother)
    exact ⟨entry, hentry, hreadable⟩
  · exact ((FunctionsReadable.tree h hfunc).2 die hasked.reaches).2

/-- A lookup that returns has been answered by every entry that it asks. -/
theorem asked_of_returns {depth : Nat} {scopes : List Die} (h : file.FunctionsReadable names)
    (hscopes : file.scopesAtAddress depth position ⟨some position, address⟩ = .ok scopes)
    (hdie : file.AskedDie address die) : ¬ die.BareBelow address := by
  obtain ⟨found, hfound, hsearch⟩ := bind_eq_ok.mp hscopes
  obtain ⟨entry, hentry, hreadable⟩ := AskedDie.readable h hdie
  rcases hdie with hasked | ⟨func, hfunc, hasked⟩
  · rw [functionContainingAddress_eq] at hfound
    exact (functionAt_returns_iff address (FunctionsReadable.asked h)).mp ⟨found, hfound⟩ die hasked
  · have hsome : file.functionContainingAddress position ⟨some position, address⟩ =
        .ok (some func) := functionContainingAddress_eq_some_iff.mpr ⟨rfl, hfunc⟩
    obtain rfl := Except.ok.inj (hsome.symm.trans hfound)
    obtain ⟨inner, hinner, -⟩ := bind_eq_ok.mp hsearch
    obtain ⟨⟨height, hwithin⟩, -⟩ := FunctionsReadable.tree h hfunc
    rw [scopesAtAddressInDie_eq hwithin] at hinner
    exact (containsAt_answered_iff address hentry hreadable).mp
      (answered_of_collect hinner hasked)

/-- In a function that is found, the scopes are found if every entry that is asked answers. -/
theorem scopes_of_answers {height depth : Nat}
    (hfunc : file.functionContainingAddress position ⟨some position, address⟩ = .ok (some func))
    (hwithin : Within (Die.children file.dwarf) height func) (hdepth : height ≤ depth)
    (hanswers : ∀ die, Asked (Die.children file.dwarf) (file.containsAt address) func die →
      ∃ found, file.containsAt address die = .ok found) :
    ∃ scopes, file.scopesAtAddress depth position ⟨some position, address⟩ = .ok scopes ∧
      ∀ scope ∈ scopes, file.InTree func scope := by
  obtain ⟨inner, hinner, hmem⟩ :=
    collect_of_answers Failure.schedule (hwithin.mono hdepth) hanswers []
  refine ⟨inner ++ [func], scopesAtAddress_eq hfunc hwithin hinner, fun scope hscope => ?_⟩
  rcases List.mem_append.mp hscope with hscope | hscope
  · exact (hmem scope hscope).reaches
  · obtain rfl := List.mem_singleton.mp hscope
    exact .refl

theorem returns_of_asked (h : file.FunctionsReadable names)
    (hasked : ∀ die, file.AskedDie address die → ¬ die.BareBelow address) :
    ∃ enough, ∀ depth, enough ≤ depth →
      (∃ scopes, file.scopesAtAddress depth position ⟨some position, address⟩ = .ok scopes) ∧
        ∀ name, ∃ found, file.findLocalVariable names depth name position
          ⟨some position, address⟩ = .ok found := by
  obtain ⟨found, hfound⟩ := (functionAt_returns_iff address (FunctionsReadable.asked h)).mpr
    fun die hdie => hasked die (.inl hdie)
  rw [← functionContainingAddress_eq file position] at hfound
  cases found with
  | none =>
      have hscopes : ∀ depth, file.scopesAtAddress depth position ⟨some position, address⟩ =
          .ok [] := by
        intro depth
        rw [DebugFile.scopesAtAddress, hfound]
        rfl
      refine ⟨0, fun depth _ => ⟨⟨[], hscopes depth⟩, fun name => ⟨none, ?_⟩⟩⟩
      rw [DebugFile.findLocalVariable, hscopes]
      rfl
  | some func =>
      obtain ⟨-, hfunc⟩ := functionContainingAddress_eq_some_iff.mp hfound
      obtain ⟨⟨height, hwithin⟩, htree⟩ := FunctionsReadable.tree h hfunc
      refine ⟨height, fun depth hdepth => ?_⟩
      obtain ⟨scopes, hscopes, hmem⟩ := scopes_of_answers hfound hwithin hdepth fun die hdie => by
        obtain ⟨entry, hentry, hreadable⟩ := (htree die hdie.reaches).2
        exact (containsAt_answered_iff address hentry hreadable).mpr
          (hasked die (.inr ⟨func, hfunc, hdie⟩))
      refine ⟨⟨scopes, hscopes⟩, fun name => ?_⟩
      rw [DebugFile.findLocalVariable, hscopes, ok_bind]
      obtain ⟨found, hfound, -⟩ :=
        firstVariable_inTree hwithin (fun die hdie => (htree die hdie).1) hmem name
      exact ⟨found, hfound⟩

end Lookups

/-- Looking up scopes and variables at an address returns exactly if no entry that is asked
there is bare and starts at or below the address. -/
theorem scopesReturn_iff {file : DebugFile} {names : Nat} (h : file.FunctionsReadable names)
    (position : Nat) (address : Word) :
    file.ScopesReturn names position address ↔
      ∀ die, file.AskedDie address die → ¬ die.BareBelow address := by
  constructor
  · rintro ⟨⟨enough, hall⟩, -⟩ die hdie
    obtain ⟨⟨scopes, hscopes⟩, -⟩ := hall enough (Nat.le_refl enough)
    exact asked_of_returns h hscopes hdie
  · intro hasked
    refine ⟨returns_of_asked h hasked, fun die entry hdie hentry hbare => ?_⟩
    obtain ⟨other, hother, hreadable⟩ := AskedDie.readable h hdie
    obtain rfl := Option.some.inj (hentry.symm.trans hother)
    obtain ⟨low, hlow⟩ := hreadable.low (isBare_iff.mp hbare).1
    rw [containsAt_bare hentry hbare hlow,
      if_neg fun hle => hasked die hdie ⟨entry, low, hentry, hbare, hlow, hle⟩]

namespace ScopesWitness

theorem code_readable {die : Die} (h : file.InTree function die) :
    ∃ entry, die.entry = some entry ∧ die.CodeReadable file.ranges entry := by
  have hdie := mem_entries h
  simp only [entries, List.mem_cons, List.not_mem_nil, or_false] at hdie
  rcases hdie with rfl | rfl | rfl | rfl | rfl
  · refine ⟨_, rfl, ?_, fun _ => ⟨0x1000, rfl⟩, fun _ _ => ⟨0x1100, rfl⟩⟩
    intro hranges
    cases hranges
  · refine ⟨_, rfl, ?_, ?_, ?_⟩ <;>
    · intro hcontains
      cases hcontains
  · refine ⟨_, rfl, ?_, fun _ => ⟨0x1010, rfl⟩, fun _ _ => ⟨0x1020, rfl⟩⟩
    intro hranges
    cases hranges
  · refine ⟨_, rfl, ?_, ?_, ?_⟩ <;>
    · intro hcontains
      cases hcontains
  · refine ⟨_, rfl, ?_, fun _ => ⟨0x1080, rfl⟩, ?_⟩
    · intro hranges
      cases hranges
    · intro _ hhigh
      cases hhigh

theorem functions_readable : file.FunctionsReadable 1 := by
  intro indexed hindexed
  obtain rfl := List.mem_singleton.mp hindexed
  obtain ⟨tree, htree⟩ := function_tree
  exact ⟨function, rfl, ⟨3, tree, htree⟩, fun die hdie => ⟨names_readable hdie, code_readable hdie⟩⟩

/-- All entries that are asked are those of the function. -/
theorem asked_mem {address : Word} {die : Die} (h : file.AskedDie address die) : die ∈ entries := by
  rcases h with ⟨before, indexed, after, hsplit, -, hparse⟩ |
    ⟨func, ⟨before, indexed, after, hsplit, -, hparse, -⟩, hasked⟩
  · obtain rfl := List.mem_singleton.mp
      (hsplit ▸ List.mem_append_right before List.mem_cons_self : indexed ∈ file.functions)
    obtain rfl := Except.ok.inj ((rfl : parseDie cu 12 = .ok function).symm.trans hparse)
    exact List.mem_cons_self
  · obtain rfl := List.mem_singleton.mp
      (hsplit ▸ List.mem_append_right before List.mem_cons_self : indexed ∈ file.functions)
    obtain rfl := Except.ok.inj ((rfl : parseDie cu 12 = .ok function).symm.trans hparse)
    exact mem_entries hasked.reaches

/-- In front of the label, the scopes are found. -/
theorem scopesReturn_iff_block : file.ScopesReturn 1 0 0x1018 := by
  refine (scopesReturn_iff functions_readable 0 0x1018).mpr fun die hdie hbelow => ?_
  have hmem := asked_mem hdie
  obtain ⟨entry, low, hentry, hbare, hlow, hle⟩ := hbelow
  simp only [entries, List.mem_cons, List.not_mem_nil, or_false] at hmem
  rcases hmem with rfl | rfl | rfl | rfl | rfl <;> cases hentry
  · cases hbare
  · cases hbare
  · cases hbare
  · cases hbare
  · obtain rfl := Except.ok.inj
      ((rfl : Die.lowPc cu ⟨42, labelEntry, [43, 45]⟩ = .ok 0x1080).symm.trans hlow)
    exact absurd hle (by decide)

/-- Behind the label, the scopes and the variables of the function cannot be looked up. -/
theorem label_hides_scopes :
    file.FunctionsReadable 1 ∧ ¬ file.ScopesReturn 1 0 0x1090 := by
  refine ⟨functions_readable, ?_⟩
  rintro ⟨⟨enough, hall⟩, -⟩
  obtain ⟨⟨scopes, hscopes⟩, -⟩ := hall enough (Nat.le_refl enough)
  have hasked : file.AskedDie 0x1090 label :=
    .inr ⟨function, function_first (by decide) (by decide), function, .root, _, function_children,
      by simp⟩
  exact asked_of_returns functions_readable hscopes hasked
    ⟨_, 0x1080, rfl, rfl, rfl, by decide⟩

end ScopesWitness

end Gsdb
