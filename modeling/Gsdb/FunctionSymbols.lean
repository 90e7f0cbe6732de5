/-
Symbols as the places of a function breakpoint.  The name map of a file holds the symbols
that it defines and those that it imports alike, and `function_breakpoint::resolve` takes
every one that is found for the load address of a function.
-/
import Gsdb.StoppointOwners

namespace Gsdb

open ByteMemory Effects Eff Debugger

/-- `Elf64_Sym`, with the name that `st_name` stands for. -/
structure Elf64Sym where
  stName : List Byte
  stInfo : Byte
  stShndx : BitVec 16
  stValue : Word
deriving DecidableEq, Repr

def sttFunc : Byte := 2
def shnUndef : BitVec 16 := 0

/-- `ELF64_ST_TYPE`. -/
def Elf64Sym.type (sym : Elf64Sym) : Byte := sym.stInfo &&& 0xf

/-- A function that its file defines. -/
def Elf64Sym.isDefinedFunction (sym : Elf64Sym) : Bool :=
  sym.type = sttFunc ∧ sym.stShndx ≠ shnUndef ∧ sym.stValue ≠ 0

/-- What looking up functions by name asks the files, which are known by their positions:
their symbol tables and the functions of their debug information.  A hash table
enumerates the symbols of one name in an order of its own. -/
structure SymbolEnv where
  symbolTable : Nat → List Elf64Sym
  dwarfFunctions : Nat → List Byte → Except Failure (List Die)
  demangle : List Byte → Option (List Byte)
  enumerate : List Elf64Sym → List Elf64Sym
  enumerate_perm : ∀ symbols, (enumerate symbols).Perm symbols

/-- The functions of a name: debug entries, and symbols with the files they are from. -/
abbrev FoundFunctions := List Die × List (Nat × Elf64Sym)

namespace SymbolEnv

/-- `symbol_name_map_`, as `elf::build_symbol_maps` fills it. -/
def symbolNameMap (files : SymbolEnv) (position : Nat) : List (List Byte × Elf64Sym) :=
  (files.symbolTable position).flatMap fun symbol =>
    ((files.demangle symbol.stName).toList ++ [symbol.stName]).map fun name => (name, symbol)

/-- `elf::get_symbols_by_name`. -/
def getSymbolsByName (files : SymbolEnv) (position : Nat) (name : List Byte) : List Elf64Sym :=
  files.enumerate (((files.symbolNameMap position).filter fun entry => entry.1 = name).map (·.2))

/-- The functions of one file: its symbols are asked where its debug information has none. -/
def findFunctionsIn (files : SymbolEnv) (name : List Byte) (position : Nat) :
    Except Failure FoundFunctions := do
  let dwarfFound ← files.dwarfFunctions position name
  if dwarfFound.isEmpty then
    pure ([], (files.getSymbolsByName position name).map fun sym => (position, sym))
  else pure (dwarfFound, [])

/-- `target::find_functions`. -/
def findFunctions (files : SymbolEnv) (elves : ElfCollection) (name : List Byte) :
    Except Failure FoundFunctions := do
  let found ← (List.range elves.length).mapM (files.findFunctionsIn name)
  pure (found.flatMap (·.1), found.flatMap (·.2))

end SymbolEnv

/-- Resolving with the functions of the files; of a symbol only its value is used. -/
def ResolveEnv.withSymbols (env : ResolveEnv) (files : SymbolEnv) : ResolveEnv :=
  { env with
    findFunctions := fun name => do
      let found ← files.findFunctions env.elves name
      pure (found.1, found.2.map fun sym => (sym.1, sym.2.stValue)) }

/-- `function_breakpoint::resolve` of the breakpoint at a position. -/
def Debugger.resolveFunction (env : ResolveEnv) (index : Nat) (point : Breakpoint)
    (functionName : List Byte) : Debugger Breakpoint := do
  let places ← ofExcept (env.functionPlaces functionName)
  resolvePlaces index point places

/-- The load address of a function that the symbol's file defines. -/
def DefinedAt (elves : ElfCollection) (sym : Nat × Elf64Sym) (address : Word) : Prop :=
  sym.2.isDefinedFunction = true ∧ ∃ elf, elves[sym.1]? = some elf ∧
    (elf.sectionContainingFileAddress sym.2.stValue).isSome = true ∧
    address = sym.2.stValue + elf.loadBias

/-- The place of a debug entry that was found, or the load address of a function that was
found as a symbol. -/
def FunctionAt (env : ResolveEnv) (found : FoundFunctions) (address : Word) : Prop :=
  (∃ die ∈ found.1, env.diePlace die = .ok (some address)) ∨
    ∃ sym ∈ found.2, DefinedAt env.elves sym address

/-- Whatever the breakpoint and the process, the sites that resolving a name creates are
those of functions. -/
def ResolvesFunctions (env : ResolveEnv) (files : SymbolEnv) (name : List Byte) : Prop :=
  ∀ (index : Nat) (point : Breakpoint) (m m' : Machine) (r : Except Failure Breakpoint),
    resolveFunction (env.withSymbols files) index point name m = (r, m') →
    ∀ site ∈ m'.process.breakpointSites,
      site.address ∈ m.process.breakpointSites.map (·.address) ∨
        ∃ found, files.findFunctions env.elves name = .ok found ∧
          FunctionAt env found site.address

/-- The symbols that are reached are functions that their files define, or loaded where
one is that was found as well. -/
def SymbolsDefined (env : ResolveEnv) (files : SymbolEnv) (name : List Byte) : Prop :=
  ∀ found, files.findFunctions env.elves name = .ok found →
    (∃ die ∈ found.1, ∃ failure, env.diePlace die = .error failure) ∨
    ∀ sym ∈ found.2, (∃ address, DefinedAt env.elves sym address) ∨
      ∃ address, env.symbolPlace (sym.1, sym.2.stValue) = .ok (some address) ∧
        FunctionAt env found address

/-- The addresses of all sites are of one kind. -/
def SitesWithin (kind : Word → Prop) (m : Machine) : Prop :=
  ∀ site ∈ m.process.breakpointSites, kind site.address

section Places

variable {kind : Word → Prop} {index : Nat} {point point' : Breakpoint} {m m' : Machine}

theorem enableSite_within (site : Nat) : Respects (Carries (SitesWithin kind)) (enableSite site) :=
  (enableSite_catalog site).mono fun m m' hsame hm site hsite => by
    have haddresses : m'.process.breakpointSites.map (·.address) =
        m.process.breakpointSites.map (·.address) := congrArg (·.1) hsame
    have hmem : site.address ∈ m'.process.breakpointSites.map (·.address) :=
      List.mem_map_of_mem hsite
    rw [haddresses] at hmem
    obtain ⟨old, hold, heq⟩ := List.mem_map.mp hmem
    exact heq ▸ hm old hold

theorem resolveAt_within (index : Nat) (point : Breakpoint) {address : Word} (h : kind address) :
    Respects (Carries (SitesWithin kind)) (resolveAt index point address) := by
  refine Respects.ite (Respects.pure _) (Respects.bind ?_ fun newSite =>
    Respects.ite (Respects.bind (enableSite_within newSite) fun _ => Respects.pure _)
      (Respects.pure _))
  intro m hm
  cases hthere : m.process.breakpointSites.containsAddress address with
  | true =>
      rw [createBreakpointSiteFor, pushSite_of_taken hthere]
      exact hm
  | false =>
      rw [createBreakpointSiteFor, pushSite_of_free hthere]
      intro site hsite
      rcases List.mem_append.mp hsite with hold | hnew
      · exact hm site hold
      · rw [List.mem_singleton.mp hnew]
        exact h

/-- The loop over the places creates sites at their addresses only. -/
theorem resolvePlaces_within (index : Nat) (point : Breakpoint) {places : List Place}
    (h : ∀ address, .ok (some address) ∈ places → kind address) :
    Respects (Carries (SitesWithin kind)) (resolvePlaces index point places) := by
  induction places generalizing point with
  | nil => exact Respects.pure _
  | cons place rest ih =>
      have hrest : ∀ address, .ok (some address) ∈ rest → kind address :=
        fun address hin => h address (List.mem_cons_of_mem place hin)
      refine Respects.bindOfExcept fun found hfound => ?_
      cases found with
      | none => exact ih point hrest
      | some address =>
          refine Respects.bind (resolveAt_within index point (h address ?_)) fun next =>
            ih next hrest
          rw [hfound]
          exact List.mem_cons_self

/-- A place that fails ends the loop. -/
theorem resolvePlaces_stops {done rest : List Place} {failure : Failure}
    (h : .error failure ∈ done) (point : Breakpoint) (m : Machine) :
    resolvePlaces index point (done ++ rest) m = resolvePlaces index point done m := by
  induction done generalizing point m with
  | nil => cases h
  | cons place done ih =>
      rcases List.mem_cons.mp h with rfl | hin
      · rfl
      · cases place with
        | error failure => rfl
        | ok found =>
            cases found with
            | none => exact ih hin point m
            | some address =>
                change (resolveAt index point address >>= _) m =
                  (resolveAt index point address >>= _) m
                rcases hrun : resolveAt index point address m with ⟨failure | next, middle⟩
                · rw [bind_of_error hrun, bind_of_error hrun]
                · rw [bind_of_ok hrun, bind_of_ok hrun]
                  exact ih hin next middle

theorem resolveAt_holds {address : Word} (h : resolveAt index point address m = (.ok point', m')) :
    address ∈ point'.sites ∧ point.sites ⊆ point'.sites := by
  rw [resolveAt] at h
  by_cases hheld : point.sites.contains address = true
  · rw [if_pos hheld] at h
    cases h
    exact ⟨by simpa using hheld, List.Subset.refl _⟩
  rw [if_neg hheld] at h
  obtain ⟨newSite, middle, -, hrest⟩ := Eff.bind_eq_ok.mp h
  have hsites : point'.sites = point.sites ++ [address] := by
    by_cases henabled : point.isEnabled = true
    · rw [if_pos henabled] at hrest
      obtain ⟨u, last, -, hend⟩ := Eff.bind_eq_ok.mp hrest
      cases hend
      rfl
    · rw [if_neg henabled] at hrest
      cases hrest
      rfl
  rw [hsites]
  exact ⟨List.mem_append_right _ (List.mem_singleton_self _), List.subset_append_left _ _⟩

/-- A loop over the places that returns has a site at each address. -/
theorem resolvePlaces_holds {places : List Place}
    (h : resolvePlaces index point places m = (.ok point', m')) :
    point.sites ⊆ point'.sites ∧
      ∀ address, .ok (some address) ∈ places → address ∈ point'.sites := by
  induction places generalizing point m with
  | nil =>
      cases h
      exact ⟨List.Subset.refl _, fun _ hin => by cases hin⟩
  | cons place rest ih =>
      rcases place with failure | (_ | address)
      · cases h
      · obtain ⟨hkept, hall⟩ := ih (h : resolvePlaces index point rest m = _)
        refine ⟨hkept, fun address hin => hall address ?_⟩
        simpa using hin
      · have hstep : (resolveAt index point address >>= fun next =>
            resolvePlaces index next rest) m = (.ok point', m') := h
        obtain ⟨next, middle, hrun, hrest⟩ := Eff.bind_eq_ok.mp hstep
        obtain ⟨hheld, hgrown⟩ := resolveAt_holds hrun
        obtain ⟨hkept, hall⟩ := ih hrest
        refine ⟨List.Subset.trans hgrown hkept, fun other hin => ?_⟩
        rcases List.mem_cons.mp hin with heq | hin
        · cases heq
          exact hkept hheld
        · exact hall other hin

end Places

section Resolve

variable {env : ResolveEnv} {files : SymbolEnv} {name : List Byte} {found : FoundFunctions}

/-- Symbols come from the files of the collection. -/
theorem findFunctions_position (h : files.findFunctions env.elves name = .ok found)
    {sym : Nat × Elf64Sym} (hsym : sym ∈ found.2) : sym.1 < env.elves.length := by
  obtain ⟨results, hresults, hfound⟩ := bind_eq_ok.mp h
  cases hfound
  obtain ⟨result, hresult, hin⟩ := List.mem_flatMap.mp hsym
  obtain ⟨position, hposition, hone⟩ := mem_of_mapM_eq_ok hresults hresult
  obtain ⟨dwarfFound, -, hsplit⟩ := bind_eq_ok.mp hone
  cases hempty : dwarfFound.isEmpty with
  | true =>
      rw [if_pos hempty] at hsplit
      cases hsplit
      obtain ⟨symbol, -, rfl⟩ := List.mem_map.mp hin
      exact List.mem_range.mp hposition
  | false =>
      rw [if_neg (by simp [hempty])] at hsplit
      cases hsplit
      cases hin

/-- A function that its file defines is loaded at its load address. -/
theorem DefinedAt.place {sym : Nat × Elf64Sym} {address : Word}
    (h : DefinedAt env.elves sym address) :
    env.symbolPlace (sym.1, sym.2.stValue) = .ok (some address) := by
  obtain ⟨-, elf, helf, hsection, rfl⟩ := h
  obtain ⟨header, hheader⟩ := Option.isSome_iff_exists.mp hsection
  simp [ResolveEnv.symbolPlace, FileAddr.toVirtAddr, Elf.toVirtAddr, helf, hheader]

/-- Every symbol that is found has a place. -/
theorem symbolPlace_found (h : files.findFunctions env.elves name = .ok found)
    {sym : Nat × Elf64Sym} (hsym : sym ∈ found.2) :
    ∃ address, env.symbolPlace (sym.1, sym.2.stValue) = .ok (some address) := by
  obtain ⟨elf, helf⟩ : ∃ elf, env.elves[sym.1]? = some elf :=
    ⟨_, List.getElem?_eq_getElem (findFunctions_position h hsym)⟩
  refine ⟨elf.toVirtAddr sym.2.stValue, ?_⟩
  simp [ResolveEnv.symbolPlace, FileAddr.toVirtAddr, helf]

/-- The places of a name whose functions were found. -/
theorem functionPlaces_found (h : files.findFunctions env.elves name = .ok found) :
    (env.withSymbols files).functionPlaces name = .ok (found.1.map env.diePlace ++
      found.2.map fun sym => env.symbolPlace (sym.1, sym.2.stValue)) := by
  have hfound : (env.withSymbols files).findFunctions name =
      .ok (found.1, found.2.map fun sym => (sym.1, sym.2.stValue)) := by
    change (files.findFunctions env.elves name >>= _) = _
    rw [h]
    rfl
  rw [ResolveEnv.functionPlaces, hfound, ok_bind]
  change Except.ok (_ ++ (found.2.map _).map _) = _
  rw [List.map_map]
  rfl

theorem resolveFunction_found (h : files.findFunctions env.elves name = .ok found) (index : Nat)
    (point : Breakpoint) (m : Machine) :
    resolveFunction (env.withSymbols files) index point name m =
      resolvePlaces index point (found.1.map env.diePlace ++
        found.2.map fun sym => env.symbolPlace (sym.1, sym.2.stValue)) m := by
  rw [resolveFunction, functionPlaces_found h, bind_of_ok (ofExcept_apply _ m)]

/-- With the symbols defined, no other sites are created. -/
theorem SymbolsDefined.resolves (h : SymbolsDefined env files name) :
    ResolvesFunctions env files name := by
  intro index point m m' r hrun
  cases hfind : files.findFunctions env.elves name with
  | error failure =>
      have hnone : (env.withSymbols files).functionPlaces name = .error failure := by
        change ((files.findFunctions env.elves name >>= _) >>= _) = _
        rw [hfind]
        rfl
      rw [resolveFunction, hnone] at hrun
      cases hrun
      exact fun site hsite => .inl (List.mem_map_of_mem hsite)
  | ok found =>
      let kind : Word → Prop := fun address =>
        address ∈ m.process.breakpointSites.map (·.address) ∨ FunctionAt env found address
      have hstart : SitesWithin kind m := fun site hsite => .inl (List.mem_map_of_mem hsite)
      have hdies : ∀ address, .ok (some address) ∈ found.1.map env.diePlace → kind address := by
        intro address hin
        obtain ⟨die, hdie, hplace⟩ := List.mem_map.mp hin
        exact .inr (.inl ⟨die, hdie, hplace⟩)
      have hend : SitesWithin kind m' := by
        rw [resolveFunction_found hfind] at hrun
        rcases h found hfind with ⟨die, hdie, failure, hfailure⟩ | hsymbols
        · have hfails : .error failure ∈ found.1.map env.diePlace :=
            List.mem_map.mpr ⟨die, hdie, hfailure⟩
          rw [resolvePlaces_stops hfails] at hrun
          exact (resolvePlaces_within index point hdies).apply_eq hrun hstart
        · refine (resolvePlaces_within index point fun address hin => ?_).apply_eq hrun hstart
          rcases List.mem_append.mp hin with hdie | hsym
          · exact hdies address hdie
          obtain ⟨sym, hsym, hplace⟩ := List.mem_map.mp hsym
          rcases hsymbols sym hsym with ⟨defined, hdefined⟩ | ⟨shared, hshared, hat⟩
          · rw [hdefined.place] at hplace
            cases hplace
            exact .inr (.inr ⟨sym, hsym, hdefined⟩)
          · rw [hshared] at hplace
            cases hplace
            exact .inr hat
      intro site hsite
      rcases hend site hsite with hold | hat
      · exact .inl hold
      · exact .inr ⟨found, rfl, hat⟩

/-- Every place of a breakpoint that is created anew in a process without sites gets one. -/
theorem ResolvesFunctions.symbols (h : ResolvesFunctions env files name) :
    SymbolsDefined env files name := by
  intro found hfind
  by_cases hfails : ∃ die ∈ found.1, ∃ failure, env.diePlace die = .error failure
  · exact .inl hfails
  refine .inr fun sym hsym => .inr ?_
  let start : Machine := Machine.atRest fun _ => 0
  have hall : ∀ place ∈ found.1.map env.diePlace ++
      found.2.map (fun sym => env.symbolPlace (sym.1, sym.2.stValue)),
      placeFailure start.process.breakpointSites place = none := by
    intro place hplace
    have hok : ∀ failure, place ≠ .error failure := by
      rintro failure rfl
      rcases List.mem_append.mp hplace with hin | hin
      · obtain ⟨die, hdie, heq⟩ := List.mem_map.mp hin
        exact hfails ⟨die, hdie, failure, heq⟩
      · obtain ⟨sym, hsym, heq⟩ := List.mem_map.mp hin
        obtain ⟨address, haddress⟩ := symbolPlace_found hfind hsym
        rw [haddress] at heq
        cases heq
    rcases place with failure | (_ | address)
    · exact absurd rfl (hok failure)
    · rfl
    · rfl
  obtain ⟨address, haddress⟩ := symbolPlace_found hfind hsym
  refine ⟨address, haddress, ?_⟩
  have hstart : Extended start 0 (newBreakpoint 1 false false).sites start := .start start 0
  obtain ⟨point, m, hrun, hextended, -⟩ := resolvePlaces_append hstart rfl hall []
  rw [List.append_nil] at hrun
  have hheld : address ∈ point.sites := by
    refine (resolvePlaces_holds hrun).2 address (List.mem_append_right _ ?_)
    rw [← haddress]
    exact List.mem_map_of_mem hsym
  obtain ⟨new, rfl, hnew, -⟩ := hextended.added
  rw [← hnew] at hheld
  obtain ⟨site, hsite, rfl⟩ := List.mem_map.mp hheld
  rw [← resolveFunction_found hfind] at hrun
  rcases h 0 _ start _ _ hrun site (List.mem_append_right _ hsite) with hold | ⟨other, hother, hat⟩
  · cases hold
  · rw [hfind] at hother
    cases hother
    exact hat

end Resolve

namespace FunctionSymbolsWitness

/-- The program, whose `.comment` is not loaded, and a library. -/
def elves : ElfCollection :=
  [⟨[], [⟨".text", 6, 0x1000, 0x1000, 0x200⟩, ⟨".comment", 0, 0, 0x3000, 0x2b⟩], 0x555555554000⟩,
    ⟨[], [⟨".text", 6, 0x1000, 0x1000, 0x200⟩], 0x7ffff7fb0000⟩]

def name : List Byte := [0x6d, 0x65, 0x6f, 0x77]

/-- The function that the program imports and the library defines. -/
def imported : Elf64Sym := ⟨name, 0x12, shnUndef, 0⟩

def exported : Elf64Sym := ⟨name, 0x12, 11, 0x1119⟩

def files : SymbolEnv where
  symbolTable := fun position => if position = 0 then [imported] else [exported]
  dwarfFunctions := fun _ _ => .ok []
  demangle := fun _ => none
  enumerate := id
  enumerate_perm := fun _ => .refl _

def env : ResolveEnv where
  elves := elves
  findFunctions := fun _ => .ok ([], [])
  compileUnits := []
  lines := fun _ => .error (.undefined "no line table")
  lowPc := fun _ => .error (.error "DIE does NOT have low PC!")
  inlineStackAtAddress := fun _ => .ok []

/-- An enabled breakpoint without sites, as when the libraries are loaded. -/
def point : Breakpoint := { newBreakpoint 1 false false with isEnabled := true }

def start : Machine := .atRest fun _ => 0x7f

def run : Except Failure Breakpoint × Machine :=
  resolveFunction (env.withSymbols files) 0 point name start

end FunctionSymbolsWitness

end Gsdb
