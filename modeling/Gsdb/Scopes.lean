/-
The scopes at an address, and the local variable that a name is for there.  Scopes are the
function and the entries in it that contain the address; they are listed from the innermost
one out, and asked for their variables in that order.
-/
import Gsdb.ScopeSearch
import Gsdb.CodePosition
import Gsdb.CallTargets

namespace Gsdb

open ByteMemory ByteCursor ScopeSearch

/-- A `DW_TAG_variable` or a `DW_TAG_formal_parameter`. -/
def DieEntry.isVariable (entry : DieEntry) : Bool :=
  entry.abbrevEntry.tag = tagVariable || entry.abbrevEntry.tag = tagFormalParameter

namespace DebugFile

/-- `die::contains_address` of an entry of the file. -/
def containsAt (file : DebugFile) (address : Word) (die : Die) : Except Failure Bool :=
  match die.entry with
  | none => .error (.undefined "attribute of a null entry")
  | some entry => Die.containsAddress file.ranges die.cu entry address

/-- The loop of `scopes_at_address_in_die` over the children from an iterator. -/
def collectScopes (file : DebugFile) (address : Word) (size : Nat)
    (inDie : Die → List Die → Except Failure (List Die)) :
    Nat → Die → List Die → Except Failure (List Die)
  | 0, _, _ => .error .schedule
  | rounds + 1, child, scopes =>
      match child.entry with
      | none => .ok scopes
      | some _ => do
          let found ← file.containsAt address child
          let scopes ←
            if found then do
              let scopes ← inDie child scopes
              pure (scopes ++ [child])
            else pure scopes
          let next ← Die.increment file.dwarf size child
          collectScopes file address size inDie rounds next scopes

/-- `scopes_at_address_in_die`, with a bound on the depth of the tree. -/
def scopesAtAddressInDie (file : DebugFile) (address : Word) :
    Nat → Die → List Die → Except Failure (List Die)
  | 0, _, _ => .error .schedule
  | depth + 1, die, scopes =>
      match die.entry with
      | none => .error (.undefined "children of a null entry")
      | some entry =>
          if entry.abbrevEntry.hasChildren then do
            let first ← parseDie die.cu die.next
            file.collectScopes address (die.cu.data.length + 1)
              (file.scopesAtAddressInDie address depth) (die.cu.data.length + 1) first scopes
          else .ok scopes

/-- `dwarf::scopes_at_address` of the file at a position. -/
def scopesAtAddress (file : DebugFile) (depth position : Nat) (address : FileAddr) :
    Except Failure (List Die) := do
  match ← file.functionContainingAddress position address with
  | none => pure []
  | some func => do
      let scopes ← file.scopesAtAddressInDie address.addr depth func []
      pure (scopes ++ [func])

/-- The test of `dwarf::find_local_variable`, with a bound on the chain of references to a
name. -/
def isCalled (file : DebugFile) (names : Nat) (name : List Byte) (die : Die) (entry : DieEntry) :
    Except Failure Bool :=
  if entry.isVariable then do
    let called ← die.name file.dwarf names
    pure (decide (called = some name))
  else pure false

/-- The inner loop of `dwarf::find_local_variable`, over the children from an iterator. -/
def findVariableFrom (file : DebugFile) (names size : Nat) (name : List Byte) :
    Nat → Die → Except Failure (Option Die)
  | 0, _ => .error .schedule
  | rounds + 1, child =>
      match child.entry with
      | none => .ok none
      | some entry => do
          let found ← file.isCalled names name child entry
          if found then pure (some child)
          else do
            let next ← Die.increment file.dwarf size child
            findVariableFrom file names size name rounds next

/-- The variable of a name among the children of a scope. -/
def findVariable (file : DebugFile) (names : Nat) (name : List Byte) (scope : Die) :
    Except Failure (Option Die) :=
  match scope.entry with
  | none => .error (.undefined "children of a null entry")
  | some entry =>
      if entry.abbrevEntry.hasChildren then do
        let first ← parseDie scope.cu scope.next
        file.findVariableFrom names (scope.cu.data.length + 1) name (scope.cu.data.length + 1) first
      else .ok none

/-- The outer loop of `dwarf::find_local_variable`, over the scopes. -/
def firstVariable (file : DebugFile) (names : Nat) (name : List Byte) :
    List Die → Except Failure (Option Die)
  | [] => .ok none
  | scope :: outer => do
      match ← file.findVariable names name scope with
      | some found => pure (some found)
      | none => file.firstVariable names name outer

/-- `dwarf::find_local_variable`. -/
def findLocalVariable (file : DebugFile) (names depth : Nat) (name : List Byte)
    (position : Nat) (address : FileAddr) : Except Failure (Option Die) := do
  let scopes ← file.scopesAtAddress depth position address
  file.firstVariable names name scopes

/-- An entry is in the tree of another. -/
def InTree (file : DebugFile) : Die → Die → Prop := Reaches (Die.children file.dwarf)

/-- The name of an entry can be read if it is that of a variable or a parameter. -/
def NameReadable (file : DebugFile) (names : Nat) (die : Die) : Prop :=
  ∀ entry, die.entry = some entry → entry.isVariable = true →
    ∃ called, die.name file.dwarf names = .ok called

/-- An entry is a variable or a parameter of a name. -/
def Declares (file : DebugFile) (names : Nat) (name : List Byte) (die : Die) : Prop :=
  ∃ entry, die.entry = some entry ∧ entry.isVariable = true ∧
    die.name file.dwarf names = .ok (some name)

/-- The first of some entries that declares a name, or nothing if none does. -/
def FirstDeclaring (file : DebugFile) (names : Nat) (name : List Byte) (dies : List Die) :
    Option Die → Prop
  | some die => ∃ before after, dies = before ++ die :: after ∧ file.Declares names name die ∧
      ∀ other ∈ before, ¬ file.Declares names name other
  | none => ∀ die ∈ dies, ¬ file.Declares names name die

/-- The first child that declares a name, of the innermost scope with one that does, or
nothing if no scope has one. -/
def Resolves (file : DebugFile) (names : Nat) (name : List Byte) (scopes : List Die) :
    Option Die → Prop
  | some die => ∃ inner scope outer below, scopes = inner ++ scope :: outer ∧
      scope.children file.dwarf = .ok below ∧
      file.FirstDeclaring names name below (some die) ∧
      ∀ other ∈ inner, ∀ child, IsChild (Die.children file.dwarf) other child →
        ¬ file.Declares names name child
  | none => ∀ scope ∈ scopes, ∀ child, IsChild (Die.children file.dwarf) scope child →
      ¬ file.Declares names name child

end DebugFile

section Collecting

variable {file : DebugFile} {address : Word} {size rounds depth height : Nat} {die first : Die}
  {dies scopes : List Die} {inDie : Die → List Die → Except Failure (List Die)}

/-- The loop over an iterator is one over the entries that it shows. -/
theorem collectScopes_eq (h : Die.siblingsFrom file.dwarf size rounds first = .ok dies) :
    file.collectScopes address size inDie rounds first scopes =
      dies.foldlM (enter (file.containsAt address) inDie) scopes := by
  induction rounds generalizing first dies scopes with
  | zero => cases h
  | succ rounds ih =>
      rw [Die.siblingsFrom] at h
      cases hentry : first.entry with
      | none =>
          rw [hentry] at h
          cases h
          simp only [DebugFile.collectScopes, hentry]
          rfl
      | some entry =>
          rw [hentry] at h
          obtain ⟨next, hnext, h⟩ := bind_eq_ok.mp h
          obtain ⟨rest, hrest, h⟩ := bind_eq_ok.mp h
          cases h
          have hloop : ∀ scopes, file.collectScopes address size inDie rounds next scopes =
              rest.foldlM (enter (file.containsAt address) inDie) scopes := fun _ => ih hrest
          simp only [DebugFile.collectScopes, hentry, hnext, ok_bind, hloop, List.foldlM_cons,
            enter]
          cases file.containsAt address first with
          | error failure => rfl
          | ok found =>
              cases found with
              | false => rfl
              | true => cases inDie first scopes <;> rfl

/-- Listing the children of an entry parses the first of them, if there are any. -/
theorem children_eq_ok (h : die.children file.dwarf = .ok dies) :
    ∃ entry, die.entry = some entry ∧
      (entry.abbrevEntry.hasChildren = false ∧ dies = [] ∨
        entry.abbrevEntry.hasChildren = true ∧ ∃ first, parseDie die.cu die.next = .ok first ∧
          Die.siblingsFrom file.dwarf (die.cu.data.length + 1) (die.cu.data.length + 1) first =
            .ok dies) := by
  unfold Die.children at h
  split at h
  · cases h
  · rename_i entry hentry
    refine ⟨entry, hentry, ?_⟩
    split at h
    · rename_i hparent
      obtain ⟨first, hfirst, h⟩ := bind_eq_ok.mp h
      exact .inr ⟨hparent, first, hfirst, h⟩
    · rename_i hleaf
      cases h
      exact .inl ⟨Bool.eq_false_iff.mpr hleaf, rfl⟩

/-- The recursion is a search of the tree that `children()` shows. -/
theorem scopesAtAddressInDie_eq (hwithin : Within (Die.children file.dwarf) height die)
    (depth : Nat) (scopes : List Die) :
    file.scopesAtAddressInDie address depth die scopes =
      collect (Die.children file.dwarf) (file.containsAt address) .schedule depth die scopes := by
  induction depth generalizing height die scopes with
  | zero => rfl
  | succ depth ih =>
      cases hwithin with
      | node hbelow hchildren =>
          rw [collect_succ_eq_ok hbelow]
          obtain ⟨entry, hentry, ⟨hleaf, rfl⟩ | ⟨hparent, first, hfirst, hdies⟩⟩ :=
            children_eq_ok hbelow
          · simp only [DebugFile.scopesAtAddressInDie, hentry, hleaf, Bool.false_eq_true, if_false]
            rfl
          · simp only [DebugFile.scopesAtAddressInDie, hentry, hparent, if_true, hfirst, ok_bind,
              collectScopes_eq hdies]
            exact foldlM_enter_congr (fun c hc scopes => ih (hchildren c hc) scopes) scopes

/-- A loop over a list returns for each of its elements. -/
theorem returns_of_mapM {ε α β : Type} {f : α → Except ε β} {items : List α} {results : List β}
    (h : items.mapM f = .ok results) : ∀ a ∈ items, ∃ b, f a = .ok b := by
  induction items generalizing results with
  | nil => exact fun a ha => absurd ha List.not_mem_nil
  | cons a rest ih =>
      rw [List.mapM_cons] at h
      obtain ⟨b, hb, h⟩ := bind_eq_ok.mp h
      obtain ⟨others, hothers, -⟩ := bind_eq_ok.mp h
      intro c hc
      rcases List.mem_cons.mp hc with rfl | hc
      · exact ⟨b, hb⟩
      · exact ih hothers c hc

/-- A tree that can be read can be searched. -/
theorem within_of_readTree {tree : DieTree} (h : die.readTree file.dwarf height = .ok tree) :
    Within (Die.children file.dwarf) height die := by
  induction height generalizing die tree with
  | zero => cases h
  | succ height ih =>
      rw [Die.readTree] at h
      split at h
      · cases h
      · obtain ⟨below, hbelow, h⟩ := bind_eq_ok.mp h
        obtain ⟨trees, htrees, -⟩ := bind_eq_ok.mp h
        refine .node hbelow fun c hc => ?_
        obtain ⟨subtree, hsubtree⟩ := returns_of_mapM htrees c hc
        exact ih hsubtree

end Collecting

section Variables

variable {file : DebugFile} {names size rounds : Nat} {name : List Byte} {first scope : Die}
  {dies below scopes : List Die}

theorem DebugFile.FirstDeclaring.cons {die : Die} {found : Option Die}
    (hnot : ¬ file.Declares names name die)
    (h : file.FirstDeclaring names name dies found) :
    file.FirstDeclaring names name (die :: dies) found := by
  cases found with
  | none =>
      intro other hother
      rcases List.mem_cons.mp hother with rfl | hother
      · exact hnot
      · exact h other hother
  | some found =>
      obtain ⟨before, after, rfl, hdeclares, hbefore⟩ := h
      refine ⟨die :: before, after, rfl, hdeclares, fun other hother => ?_⟩
      rcases List.mem_cons.mp hother with rfl | hother
      · exact hnot
      · exact hbefore other hother

/-- Whether an entry declares a name can be told if its name can be read. -/
theorem isCalled_answered (name : List Byte) {die : Die} {entry : DieEntry}
    (hentry : die.entry = some entry) (hname : file.NameReadable names die) : ∃ found,
      file.isCalled names name die entry = .ok found ∧
      (found = true ↔ file.Declares names name die) := by
  unfold DebugFile.isCalled
  by_cases hvariable : entry.isVariable = true
  · obtain ⟨called, hcalled⟩ := hname entry hentry hvariable
    refine ⟨decide (called = some name), ?_, ?_⟩
    · rw [if_pos hvariable, hcalled]
      rfl
    · rw [decide_eq_true_iff]
      constructor
      · rintro rfl
        exact ⟨entry, hentry, hvariable, hcalled⟩
      · rintro ⟨-, -, -, hname⟩
        exact Except.ok.inj (hcalled.symm.trans hname)
  · refine ⟨false, if_neg hvariable, ?_⟩
    constructor
    · intro h
      cases h
    · rintro ⟨other, hother, hyes, -⟩
      obtain rfl := Option.some.inj (hentry.symm.trans hother)
      exact absurd hyes hvariable

/-- The loop over the children finds the first one that declares the name. -/
theorem findVariableFrom_spec (h : Die.siblingsFrom file.dwarf size rounds first = .ok dies)
    (hnames : ∀ die ∈ dies, file.NameReadable names die) :
    ∃ found, file.findVariableFrom names size name rounds first = .ok found ∧
      file.FirstDeclaring names name dies found := by
  induction rounds generalizing first dies with
  | zero => cases h
  | succ rounds ih =>
      rw [Die.siblingsFrom] at h
      cases hentry : first.entry with
      | none =>
          rw [hentry] at h
          cases h
          exact ⟨none, by simp only [DebugFile.findVariableFrom, hentry],
            fun die hdie => absurd hdie List.not_mem_nil⟩
      | some entry =>
          rw [hentry] at h
          obtain ⟨next, hnext, h⟩ := bind_eq_ok.mp h
          obtain ⟨rest, hrest, h⟩ := bind_eq_ok.mp h
          cases h
          obtain ⟨found, hfound, hdeclares⟩ :=
            isCalled_answered name hentry (hnames first List.mem_cons_self)
          simp only [DebugFile.findVariableFrom, hentry, hfound, ok_bind]
          cases found with
          | true =>
              exact ⟨some first, rfl, [], rest, rfl, hdeclares.mp rfl,
                fun other hother => absurd hother List.not_mem_nil⟩
          | false =>
              obtain ⟨result, hresult, hfirst⟩ :=
                ih hrest fun die hdie => hnames die (List.mem_cons_of_mem first hdie)
              refine ⟨result, ?_, hfirst.cons fun hyes => ?_⟩
              · simp only [Bool.false_eq_true, if_false, hnext, ok_bind, hresult]
              · exact absurd (hdeclares.mpr hyes) Bool.false_ne_true

theorem findVariable_spec (name : List Byte) (h : scope.children file.dwarf = .ok below)
    (hnames : ∀ die ∈ below, file.NameReadable names die) :
    ∃ found, file.findVariable names name scope = .ok found ∧
      file.FirstDeclaring names name below found := by
  obtain ⟨entry, hentry, ⟨hleaf, rfl⟩ | ⟨hparent, first, hfirst, hdies⟩⟩ := children_eq_ok h
  · refine ⟨none, ?_, fun die hdie => absurd hdie List.not_mem_nil⟩
    simp only [DebugFile.findVariable, hentry, hleaf, Bool.false_eq_true, if_false]
  · simp only [DebugFile.findVariable, hentry, hparent, if_true, hfirst, ok_bind]
    exact findVariableFrom_spec hdies hnames

/-- The loop over the scopes resolves the name. -/
theorem firstVariable_spec (name : List Byte) (hscopes : ∀ scope ∈ scopes, ∃ below,
      scope.children file.dwarf = .ok below ∧ ∀ die ∈ below, file.NameReadable names die) :
    ∃ found, file.firstVariable names name scopes = .ok found ∧
      file.Resolves names name scopes found := by
  induction scopes with
  | nil => exact ⟨none, rfl, fun scope hscope => absurd hscope List.not_mem_nil⟩
  | cons scope outer ih =>
      obtain ⟨below, hbelow, hnames⟩ := hscopes scope List.mem_cons_self
      obtain ⟨found, hfound, hfirst⟩ := findVariable_spec name hbelow hnames
      cases found with
      | some die =>
          refine ⟨some die, ?_, [], scope, outer, below, rfl, hbelow, hfirst,
            fun other hother => absurd hother List.not_mem_nil⟩
          simp only [DebugFile.firstVariable, hfound, ok_bind]
          rfl
      | none =>
          obtain ⟨result, hresult, hresolves⟩ :=
            ih fun scope hscope => hscopes scope (List.mem_cons_of_mem _ hscope)
          have hnone : ∀ child, IsChild (Die.children file.dwarf) scope child →
              ¬ file.Declares names name child := by
            rintro child ⟨siblings, hsiblings, hchild⟩
            obtain rfl := Except.ok.inj (hbelow.symm.trans hsiblings)
            exact hfirst child hchild
          refine ⟨result, ?_, ?_⟩
          · simp only [DebugFile.firstVariable, hfound, ok_bind, hresult]
          · cases result with
            | none =>
                intro other hother
                rcases List.mem_cons.mp hother with rfl | hother
                · exact hnone
                · exact hresolves other hother
            | some die =>
                obtain ⟨inner, found, rest, below', rfl, hlist, hdeclaring, hinner⟩ := hresolves
                refine ⟨scope :: inner, found, rest, below', rfl, hlist, hdeclaring, ?_⟩
                intro other hother
                rcases List.mem_cons.mp hother with rfl | hother
                · exact hnone
                · exact hinner other hother

/-- Every name is resolved, over scopes that are in a tree. -/
theorem firstVariable_inTree {height : Nat} {root : Die}
    (hwithin : Within (Die.children file.dwarf) height root)
    (hnames : ∀ die, file.InTree root die → file.NameReadable names die)
    (hscopes : ∀ scope ∈ scopes, file.InTree root scope) (name : List Byte) :
    ∃ found, file.firstVariable names name scopes = .ok found ∧
      file.Resolves names name scopes found := by
  refine firstVariable_spec name fun scope hscope => ?_
  have hreaches := hscopes scope hscope
  obtain ⟨below, hbelow⟩ := hwithin.of_reaches hreaches
  exact ⟨below, hbelow, fun die hdie => hnames die (hreaches.tail ⟨below, hbelow, hdie⟩)⟩

/-- The scopes at an address are those that the search finds, and the function. -/
theorem scopesAtAddress_eq {height depth position : Nat} {address : Word} {func : Die}
    (hfunc : file.functionContainingAddress position ⟨some position, address⟩ = .ok (some func))
    (hwithin : Within (Die.children file.dwarf) height func)
    (hcollect : collect (Die.children file.dwarf) (file.containsAt address) .schedule depth func []
      = .ok scopes) :
    file.scopesAtAddress depth position ⟨some position, address⟩ = .ok (scopes ++ [func]) := by
  rw [DebugFile.scopesAtAddress, hfunc, ok_bind]
  simp only [scopesAtAddressInDie_eq hwithin, hcollect]
  rfl

end Variables

/-- Where siblings are disjoint and ranges nested, the scopes at an address are the chain of
those entries of the function that contain it, from the innermost one out to the function, and
a name is resolved along this chain. -/
theorem scopes_lexical {file : DebugFile} {address : Word} {func : Die} {height names : Nat}
    {tree : DieTree} (hfunc : file.FirstContaining address func)
    (htree : func.readTree file.dwarf height = .ok tree)
    (hanswers : ∀ die, file.InTree func die → ∃ found, file.containsAt address die = .ok found)
    (hnames : ∀ die, file.InTree func die → file.NameReadable names die)
    (hdisjoint : SiblingsDisjoint (Die.children file.dwarf) (file.containsAt address) func)
    (hnested : ChildrenNested (Die.children file.dwarf) (file.containsAt address) func)
    {depth : Nat} (hdepth : height ≤ depth) (position : Nat) :
    ∃ scopes, file.scopesAtAddress depth position ⟨some position, address⟩ = .ok scopes ∧
      Chain (Die.children file.dwarf) (file.containsAt address) func scopes ∧
      (∀ die, die ∈ scopes ↔ file.InTree func die ∧ file.containsAt address die = .ok true) ∧
      ∀ name, ∃ found,
        file.findLocalVariable names depth name position ⟨some position, address⟩ = .ok found ∧
          file.Resolves names name scopes found := by
  have hwithin := (within_of_readTree htree).mono hdepth
  have hfound : file.functionContainingAddress position ⟨some position, address⟩ =
      .ok (some func) := functionContainingAddress_eq_some_iff.mpr ⟨rfl, hfunc⟩
  have hinside : file.containsAt address func = .ok true := by
    obtain ⟨-, -, -, -, -, -, parsed, hentry, hcontains, -⟩ := hfunc
    rw [DebugFile.containsAt, hentry]
    exact hcontains
  obtain ⟨inner, hcollect, hchain⟩ := collect_chain Failure.schedule hwithin
    (fun x hx => hanswers x hx.reaches) hdisjoint []
  have hscopes := scopesAtAddress_eq hfound hwithin hcollect
  have hmem : ∀ die, die ∈ inner ++ [func] ↔
      file.InTree func die ∧ file.containsAt address die = .ok true :=
    fun die => (hchain.mem_iff hdisjoint).trans (scope_iff hnested hinside)
  refine ⟨inner ++ [func], hscopes, hchain, hmem, fun name => ?_⟩
  rw [DebugFile.findLocalVariable, hscopes, ok_bind]
  exact firstVariable_inTree hwithin hnames (fun scope hscope => ((hmem scope).mp hscope).1) name

namespace ScopesWitness

def unitEntry : Abbrev := ⟨5, 0x11, true, []⟩

def functionEntry : Abbrev :=
  ⟨1, tagSubprogram, true, [⟨atName, .string⟩, ⟨atLowPc, .addr⟩, ⟨atHighPc, .data2⟩]⟩

def blockEntry : Abbrev := ⟨2, 0x0b, true, [⟨atLowPc, .addr⟩, ⟨atHighPc, .data1⟩]⟩

def variableEntry : Abbrev := ⟨3, tagVariable, false, [⟨atName, .string⟩]⟩

def labelEntry : Abbrev := ⟨4, 0x0a, false, [⟨atName, .string⟩, ⟨atLowPc, .addr⟩]⟩

/-- A function from 0x1000 to 0x1100 with a variable `x`, a block from 0x1010 to 0x1020 with
one of its own, and a label at 0x1080. -/
def cu : CompileUnit :=
  ⟨0, List.replicate 11 0 ++ [5, 1, 0x66, 0, 0x00, 0x10, 0, 0, 0, 0, 0, 0, 0x00, 0x01,
    3, 0x78, 0, 2, 0x10, 0x10, 0, 0, 0, 0, 0, 0, 0x10, 3, 0x78, 0, 0,
    4, 0x6c, 0, 0x80, 0x10, 0, 0, 0, 0, 0, 0, 0, 0],
    [functionEntry, blockEntry, variableEntry, labelEntry, unitEntry]⟩

def file : DebugFile := ⟨⟨[], [], [cu]⟩, [], [([0x66], ⟨cu, 12⟩)]⟩

def function : Die := ⟨cu, 25, some ⟨12, functionEntry, [13, 15, 23]⟩⟩
def outerVariable : Die := ⟨cu, 28, some ⟨25, variableEntry, [26]⟩⟩
def block : Die := ⟨cu, 38, some ⟨28, blockEntry, [29, 37]⟩⟩
def innerVariable : Die := ⟨cu, 41, some ⟨38, variableEntry, [39]⟩⟩
def label : Die := ⟨cu, 53, some ⟨42, labelEntry, [43, 45]⟩⟩

theorem function_children : function.children file.dwarf = .ok [outerVariable, block, label] := rfl
theorem outerVariable_children : outerVariable.children file.dwarf = .ok [] := rfl
theorem block_children : block.children file.dwarf = .ok [innerVariable] := rfl
theorem innerVariable_children : innerVariable.children file.dwarf = .ok [] := rfl
theorem label_children : label.children file.dwarf = .ok [] := rfl

/-- The entries of the function. -/
def entries : List Die := [function, outerVariable, block, innerVariable, label]

theorem mem_entries {die : Die} (h : file.InTree function die) : die ∈ entries := by
  refine mem_of_reaches (fun a ha c hc => ?_) List.mem_cons_self h
  obtain ⟨below, hbelow, hc⟩ := hc
  simp only [entries, List.mem_cons, List.not_mem_nil, or_false] at ha ⊢
  rcases ha with rfl | rfl | rfl | rfl | rfl
  · obtain rfl := Except.ok.inj (function_children.symm.trans hbelow)
    simp only [List.mem_cons, List.not_mem_nil, or_false] at hc
    tauto
  · obtain rfl := Except.ok.inj (outerVariable_children.symm.trans hbelow)
    cases hc
  · obtain rfl := Except.ok.inj (block_children.symm.trans hbelow)
    obtain rfl := List.mem_singleton.mp hc
    tauto
  · obtain rfl := Except.ok.inj (innerVariable_children.symm.trans hbelow)
    cases hc
  · obtain rfl := Except.ok.inj (label_children.symm.trans hbelow)
    cases hc

theorem function_tree : ∃ tree, function.readTree file.dwarf 3 = .ok tree := ⟨_, rfl⟩

theorem function_first {address : Word} (hlow : 0x1000 ≤ address) (hhigh : address < 0x1100) :
    file.FirstContaining address function := by
  refine ⟨[], _, [], rfl, fun other hother => absurd hother List.not_mem_nil, rfl, _, rfl, ?_, rfl⟩
  have hlowPc : Die.lowPc cu ⟨12, functionEntry, [13, 15, 23]⟩ = .ok 0x1000 := rfl
  have hhighPc : Die.highPc cu ⟨12, functionEntry, [13, 15, 23]⟩ = .ok 0x1100 := rfl
  rw [Die.containsAddress, if_neg (by decide), if_pos (by decide)]
  simp only [function, hlowPc, hhighPc, ok_bind, if_pos hlow, hhigh, decide_true]
  rfl

theorem names_readable {die : Die} (h : file.InTree function die) : file.NameReadable 1 die := by
  have hdie := mem_entries h
  simp only [entries, List.mem_cons, List.not_mem_nil, or_false] at hdie
  rintro entry hentry hvariable
  rcases hdie with rfl | rfl | rfl | rfl | rfl <;> cases hentry
  · cases hvariable
  · exact ⟨some [0x78], rfl⟩
  · cases hvariable
  · exact ⟨some [0x78], rfl⟩
  · cases hvariable

theorem function_inside : file.containsAt 0x1018 function = .ok true := rfl
theorem outerVariable_outside : file.containsAt 0x1018 outerVariable = .ok false := rfl
theorem block_inside : file.containsAt 0x1018 block = .ok true := rfl
theorem innerVariable_outside : file.containsAt 0x1018 innerVariable = .ok false := rfl
theorem label_outside : file.containsAt 0x1018 label = .ok false := rfl

theorem siblings_disjoint :
    SiblingsDisjoint (Die.children file.dwarf) (file.containsAt 0x1018) function := by
  intro a below ha hbelow
  have hmem := mem_entries ha
  simp only [entries, List.mem_cons, List.not_mem_nil, or_false] at hmem
  rcases hmem with rfl | rfl | rfl | rfl | rfl
  · obtain rfl := Except.ok.inj (function_children.symm.trans hbelow)
    refine .cons (fun d _ hboth => ?_) (.cons (fun d hd hboth => ?_) (List.pairwise_singleton _ _))
    · cases outerVariable_outside.symm.trans hboth.1
    · obtain rfl := List.mem_singleton.mp hd
      cases label_outside.symm.trans hboth.2
  · obtain rfl := Except.ok.inj (outerVariable_children.symm.trans hbelow)
    exact .nil
  · obtain rfl := Except.ok.inj (block_children.symm.trans hbelow)
    exact List.pairwise_singleton _ _
  · obtain rfl := Except.ok.inj (innerVariable_children.symm.trans hbelow)
    exact .nil
  · obtain rfl := Except.ok.inj (label_children.symm.trans hbelow)
    exact .nil

theorem children_nested :
    ChildrenNested (Die.children file.dwarf) (file.containsAt 0x1018) function := by
  intro a c ha hchild _
  have hmem := mem_entries ha
  obtain ⟨below, hbelow, hc⟩ := hchild
  simp only [entries, List.mem_cons, List.not_mem_nil, or_false] at hmem
  rcases hmem with rfl | rfl | rfl | rfl | rfl
  · exact function_inside
  · obtain rfl := Except.ok.inj (outerVariable_children.symm.trans hbelow)
    cases hc
  · exact block_inside
  · obtain rfl := Except.ok.inj (innerVariable_children.symm.trans hbelow)
    cases hc
  · obtain rfl := Except.ok.inj (label_children.symm.trans hbelow)
    cases hc

theorem answered {die : Die} (h : file.InTree function die) :
    ∃ found, file.containsAt 0x1018 die = .ok found := by
  have hmem := mem_entries h
  simp only [entries, List.mem_cons, List.not_mem_nil, or_false] at hmem
  rcases hmem with rfl | rfl | rfl | rfl | rfl
  · exact ⟨true, function_inside⟩
  · exact ⟨false, outerVariable_outside⟩
  · exact ⟨true, block_inside⟩
  · exact ⟨false, innerVariable_outside⟩
  · exact ⟨false, label_outside⟩

theorem scopes_lexical_block :
    ∃ scopes, file.scopesAtAddress 3 0 ⟨some 0, 0x1018⟩ = .ok scopes ∧
      Chain (Die.children file.dwarf) (file.containsAt 0x1018) function scopes ∧
      (∀ die, die ∈ scopes ↔ file.InTree function die ∧ file.containsAt 0x1018 die = .ok true) ∧
      ∀ name, ∃ found, file.findLocalVariable 1 3 name 0 ⟨some 0, 0x1018⟩ = .ok found ∧
        file.Resolves 1 name scopes found := by
  obtain ⟨tree, htree⟩ := function_tree
  exact scopes_lexical (function_first (by decide) (by decide)) htree (fun _ => answered)
    (fun _ => names_readable) siblings_disjoint children_nested (Nat.le_refl 3) 0

end ScopesWitness

end Gsdb
