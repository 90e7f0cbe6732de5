/-
Sites and the breakpoints they belong to.  A breakpoint creates its sites one
by one while it is constructed; an exception in between destroys it and leaves
the sites it has created behind.
-/
import Gsdb.BreakpointShadow
import Gsdb.SourceBreakpoints

namespace Gsdb

open ByteMemory Effects Eff Debugger

/-- Why a place cannot be taken, given the sites there were before. -/
def placeFailure (sites : StoppointCollection BreakpointSite) : Place → Option Failure
  | .error failure => some failure
  | .ok none => none
  | .ok (some address) =>
      if sites.containsAddress address then
        some (.error ("Breakpoint site already created at address " ++ toString address.toNat))
      else none

/-- The first place whose failure is an exception is not preceded by an
address. -/
def FailsFirst (sites : StoppointCollection BreakpointSite)
    (places : Except Failure (List Place)) : Prop :=
  ∀ done next rest failure, places = .ok (done ++ next :: rest) →
    (∀ place ∈ done, placeFailure sites place = none) →
    placeFailure sites next = some failure → failure.isException = true →
    ∀ place ∈ done, place = .ok none

/-- An operation that throws leaves the sites and the breakpoints as they were. -/
def Atomic (x : Debugger PUnit) (m : Machine) : Prop :=
  ∀ failure m', x m = (.error failure, m') → failure.isException = true →
    m'.process.breakpointSites = m.process.breakpointSites ∧
      m'.process.breakpoints = m.process.breakpoints

def Machine.addSites (new : List BreakpointSite) (m : Machine) : Machine :=
  m.setProcess fun p => { p with breakpointSites := p.breakpointSites ++ new }

/-- The site that a breakpoint at a position creates at an address. -/
def Breakpoint.newSite (point : Breakpoint) (index : Nat) (address : Word) : BreakpointSite :=
  ⟨some index, point.nextSiteId, address, false, 0, point.isHardware, point.isInternal, -1⟩

/-- A breakpoint that has created a site. -/
def Breakpoint.hold (point : Breakpoint) (address : Word) : Breakpoint :=
  { point with sites := point.sites ++ [address], nextSiteId := point.nextSiteId + 1 }

/-- A machine with sites that a breakpoint to come has added. -/
structure Extended (m₀ : Machine) (index : Nat) (held : List Word) (m : Machine) : Prop where
  added : ∃ new, m = m₀.addSites new ∧ new.map BreakpointSite.address = held ∧
    ∀ site ∈ new, site.parent = some index
  nodup : held.Nodup
  fresh : ∀ address ∈ held, m₀.process.breakpointSites.containsAddress address = false

theorem containsAddress_iff {sites : StoppointCollection BreakpointSite} {address : Word} :
    sites.containsAddress address = true ↔ address ∈ sites.map BreakpointSite.address := by
  simp [StoppointCollection.containsAddress, StoppointCollection.findByAddress,
    Stoppoint.atAddress]

theorem Extended.start (m : Machine) (index : Nat) : Extended m index [] m where
  added := ⟨[], by simp [Machine.addSites, Machine.setProcess], rfl, by simp⟩
  nodup := List.nodup_nil
  fresh := by simp

theorem Extended.sites_eq {m₀ m : Machine} {index : Nat} (h : Extended m₀ index [] m) :
    m = m₀ := by
  obtain ⟨new, rfl, hnew, _⟩ := h.added
  have hnil : new = [] := by simpa using hnew
  simp [hnil, Machine.addSites, Machine.setProcess]

theorem pushSite_of_free {address : Word} {site : Process → BreakpointSite × Process} {m : Machine}
    (h : m.process.breakpointSites.containsAddress address = false) :
    pushSite address site m = (.ok m.process.breakpointSites.length, m.setProcess fun p =>
      { (site p).2 with breakpointSites := (site p).2.breakpointSites.push (site p).1 }) := by
  rw [pushSite, bind_apply, get_apply]
  simp only
  rw [if_neg (by simp [h])]
  rfl

theorem pushSite_of_taken {address : Word} {site : Process → BreakpointSite × Process}
    {m : Machine} (h : m.process.breakpointSites.containsAddress address = true) :
    pushSite address site m = (.error (.error
      ("Breakpoint site already created at address " ++ toString address.toNat)), m) := by
  rw [pushSite, bind_apply, get_apply]
  simp only
  rw [if_pos h]
  rfl

section Resolve

variable {m₀ m : Machine} {index : Nat} {point : Breakpoint}

/-- A new address: the site is refused if there was one before, and added
otherwise. -/
theorem resolveAt_new {address : Word} (h : Extended m₀ index point.sites m)
    (hdisabled : point.isEnabled = false) (hnew : address ∉ point.sites)
    (hfree : m₀.process.breakpointSites.containsAddress address = false) :
    ∃ m', resolveAt index point address m = (.ok (point.hold address), m') ∧
      Extended m₀ index (point.hold address).sites m' := by
  obtain ⟨new, rfl, hheld, hparent⟩ := h.added
  have hunheld : ¬ point.sites.contains address = true := by simpa using hnew
  have habsent : StoppointCollection.containsAddress
      (m₀.process.breakpointSites ++ new : List BreakpointSite) address = false := by
    rw [← Bool.not_eq_true, containsAddress_iff, List.map_append, List.mem_append, hheld]
    rw [← Bool.not_eq_true, containsAddress_iff] at hfree
    exact fun hmem => hmem.elim hfree hnew
  refine ⟨m₀.addSites (new ++ [point.newSite index address]), ?_, ?_, ?_, ?_⟩
  · rw [resolveAt, if_neg hunheld, createBreakpointSiteFor, bind_of_ok (pushSite_of_free habsent)]
    rw [if_neg (by simp [hdisabled]), pure_apply]
    simp [Machine.addSites, Machine.setProcess, Breakpoint.hold, Breakpoint.newSite,
      StoppointCollection.push]
  · refine ⟨_, rfl, by simp [hheld, Breakpoint.hold, Breakpoint.newSite], ?_⟩
    intro site hsite
    rcases List.mem_append.mp hsite with hold | hlast
    · exact hparent site hold
    · rw [List.mem_singleton.mp hlast]
      rfl
  · refine List.nodup_append.mpr ⟨h.nodup, List.nodup_singleton _, fun a ha b hb heq => ?_⟩
    rw [heq, List.mem_singleton.mp hb] at ha
    exact hnew ha
  · intro a ha
    rcases List.mem_append.mp ha with hold | hlast
    · exact h.fresh a hold
    · rwa [List.mem_singleton.mp hlast]

theorem resolveAt_held {address : Word} (hheld : address ∈ point.sites) :
    resolveAt index point address m = (.ok point, m) := by
  simp [resolveAt, hheld]

theorem resolveAt_taken {address : Word} (h : Extended m₀ index point.sites m)
    (htaken : m₀.process.breakpointSites.containsAddress address = true) :
    resolveAt index point address m =
      (.error (.error ("Breakpoint site already created at address " ++
        toString address.toNat)), m) := by
  have hunheld : address ∉ point.sites := by
    intro hmem
    rw [h.fresh address hmem] at htaken
    cases htaken
  obtain ⟨new, rfl, hheld, _⟩ := h.added
  have hpresent : StoppointCollection.containsAddress
      (m₀.process.breakpointSites ++ new : List BreakpointSite) address = true := by
    rw [containsAddress_iff, List.map_append, List.mem_append]
    exact .inl (containsAddress_iff.mp htaken)
  rw [resolveAt, if_neg (by simpa using hunheld), createBreakpointSiteFor,
    bind_of_error (pushSite_of_taken hpresent)]

/-- One place that does not fail: the breakpoint goes on with an address more,
or as it is. -/
theorem resolvePlaces_step {place : Place} (h : Extended m₀ index point.sites m)
    (hdisabled : point.isEnabled = false)
    (hplace : placeFailure m₀.process.breakpointSites place = none) (rest : List Place) :
    ∃ point' m', resolvePlaces index point (place :: rest) m =
        resolvePlaces index point' rest m' ∧
      Extended m₀ index point'.sites m' ∧ point'.isEnabled = false ∧
      (point'.sites = [] ↔ point.sites = [] ∧ place = .ok none) := by
  rcases place with failure | (_ | address)
  · cases hplace
  · exact ⟨point, m, rfl, h, hdisabled, by simp⟩
  · have hfree : m₀.process.breakpointSites.containsAddress address = false := by
      simpa [placeFailure] using hplace
    by_cases hheld : address ∈ point.sites
    · refine ⟨point, m, ?_, h, hdisabled, ?_⟩
      · rw [resolvePlaces, bind_of_ok (ofExcept_apply _ _)]
        exact bind_of_ok (resolveAt_held hheld) _
      · simpa using List.ne_nil_of_mem hheld
    · obtain ⟨m', hrun, hextended⟩ := resolveAt_new h hdisabled hheld hfree
      refine ⟨point.hold address, m', ?_, hextended, hdisabled, ?_⟩
      · rw [resolvePlaces, bind_of_ok (ofExcept_apply _ _)]
        exact bind_of_ok hrun _
      · simp [Breakpoint.hold]

/-- Places that do not fail. -/
theorem resolvePlaces_append {done : List Place} (h : Extended m₀ index point.sites m)
    (hdisabled : point.isEnabled = false)
    (hdone : ∀ place ∈ done, placeFailure m₀.process.breakpointSites place = none)
    (rest : List Place) :
    ∃ point' m', resolvePlaces index point (done ++ rest) m =
        resolvePlaces index point' rest m' ∧
      Extended m₀ index point'.sites m' ∧
      (point'.sites = [] ↔ point.sites = [] ∧ ∀ place ∈ done, place = .ok none) := by
  induction done generalizing point m with
  | nil => exact ⟨point, m, rfl, h, by simp⟩
  | cons place done ih =>
      obtain ⟨middle, m', hrun, hextended, hmiddle, hheld⟩ :=
        resolvePlaces_step h hdisabled (hdone place List.mem_cons_self) (done ++ rest)
      obtain ⟨last, m'', hrest, hlast, hempty⟩ := ih hextended hmiddle fun next hnext =>
        hdone next (List.mem_cons_of_mem place hnext)
      refine ⟨last, m'', hrun.trans hrest, hlast, ?_⟩
      rw [hempty, hheld, List.forall_mem_cons, and_assoc]

/-- A place that fails ends the loop there. -/
theorem resolvePlaces_fails {next : Place} {failure : Failure}
    (h : Extended m₀ index point.sites m)
    (hnext : placeFailure m₀.process.breakpointSites next = some failure) (rest : List Place) :
    resolvePlaces index point (next :: rest) m = (.error failure, m) := by
  rcases next with reason | (_ | address)
  · cases hnext
    rfl
  · cases hnext
  · have htaken : m₀.process.breakpointSites.containsAddress address = true := by
      by_contra hfree
      rw [placeFailure, if_neg hfree] at hnext
      cases hnext
    rw [placeFailure, if_pos htaken] at hnext
    cases hnext
    rw [resolvePlaces, bind_of_ok (ofExcept_apply _ _)]
    exact bind_of_error (resolveAt_taken h htaken) _

end Resolve

/-- Either no place fails, or there is a first one that does. -/
theorem places_cases (sites : StoppointCollection BreakpointSite) (places : List Place) :
    (∀ place ∈ places, placeFailure sites place = none) ∨
      ∃ done next rest failure, places = done ++ next :: rest ∧
        (∀ place ∈ done, placeFailure sites place = none) ∧
        placeFailure sites next = some failure := by
  induction places with
  | nil => exact .inl (by simp)
  | cons place rest ih =>
      cases hplace : placeFailure sites place with
      | some failure => exact .inr ⟨[], place, rest, failure, rfl, by simp, hplace⟩
      | none =>
          rcases ih with hnone | ⟨done, next, rest, failure, rfl, hdone, hnext⟩
          · exact .inl (List.forall_mem_cons.mpr ⟨hplace, hnone⟩)
          · exact .inr ⟨place :: done, next, rest, failure, rfl,
              List.forall_mem_cons.mpr ⟨hplace, hdone⟩, hnext⟩

section Create

variable {m : Machine} {nextId : Int} {hardware internal : Bool} {places : List Place}

theorem createBreakpoint_apply : createBreakpoint nextId hardware internal (.ok places) m =
    (resolvePlaces m.process.breakpoints.length (newBreakpoint nextId hardware internal) places >>=
      fun point => modifyProcess fun p => { p with breakpoints := p.breakpoints.push point }) m :=
  rfl

/-- A breakpoint none of whose places fails is created. -/
theorem createBreakpoint_succeeds
    (hall : ∀ place ∈ places, placeFailure m.process.breakpointSites place = none) :
    ∃ point m', createBreakpoint nextId hardware internal (.ok places) m =
        (.ok ⟨⟩, m'.setProcess fun p => { p with breakpoints := p.breakpoints.push point }) ∧
      Extended m m.process.breakpoints.length point.sites m' := by
  have hstart : Extended m m.process.breakpoints.length
      (newBreakpoint nextId hardware internal).sites m := .start m _
  obtain ⟨point, m', hrun, hextended, _⟩ := resolvePlaces_append hstart rfl hall []
  rw [List.append_nil] at hrun
  refine ⟨point, m', ?_, hextended⟩
  rw [createBreakpoint_apply, bind_of_ok hrun]
  rfl

/-- At the first place that fails, the sites created before it are left. -/
theorem createBreakpoint_fails {done rest : List Place} {next : Place} {failure : Failure}
    (hdone : ∀ place ∈ done, placeFailure m.process.breakpointSites place = none)
    (hnext : placeFailure m.process.breakpointSites next = some failure) :
    ∃ held m', createBreakpoint nextId hardware internal (.ok (done ++ next :: rest)) m =
        (.error failure, m') ∧ Extended m m.process.breakpoints.length held m' ∧
      (held = [] ↔ ∀ place ∈ done, place = .ok none) := by
  have hstart : Extended m m.process.breakpoints.length
      (newBreakpoint nextId hardware internal).sites m := .start m _
  obtain ⟨point, m', hrun, hextended, hheld⟩ :=
    resolvePlaces_append hstart rfl hdone (next :: rest)
  rw [resolvePlaces_fails hextended hnext] at hrun
  refine ⟨point.sites, m', ?_, hextended, ?_⟩
  · rw [createBreakpoint_apply, bind_of_error hrun]
  · simpa [newBreakpoint] using hheld

theorem Extended.nil_of_sites {m₀ : Machine} {index : Nat} {held : List Word}
    (h : Extended m₀ index held m)
    (hsites : m.process.breakpointSites = m₀.process.breakpointSites) : held = [] := by
  obtain ⟨new, rfl, hheld, _⟩ := h.added
  have hnil : new = [] := by
    simpa [Machine.addSites, Machine.setProcess] using hsites
  rw [← hheld, hnil, List.map_nil]

/-- Creating a breakpoint is atomic exactly if no address is resolved before
the first place that fails. -/
theorem createBreakpoint_atomic_iff (nextId : Int) (hardware internal : Bool)
    (places : Except Failure (List Place)) (m : Machine) :
    Atomic (createBreakpoint nextId hardware internal places) m ↔
      FailsFirst m.process.breakpointSites places := by
  constructor
  · rintro hatomic done next rest failure rfl hdone hnext hexception
    obtain ⟨held, m', hrun, hextended, hheld⟩ := @createBreakpoint_fails m nextId hardware internal
      done rest next failure hdone hnext
    exact hheld.mp (hextended.nil_of_sites (hatomic failure m' hrun hexception).1)
  · intro hfirst failure m' hrun hexception
    cases places with
    | error reason =>
        cases hrun
        exact ⟨rfl, rfl⟩
    | ok places =>
        rcases places_cases m.process.breakpointSites places with
          hall | ⟨done, next, rest, reason, rfl, hdone, hnext⟩
        · obtain ⟨_, _, hok, _⟩ :=
            @createBreakpoint_succeeds m nextId hardware internal places hall
          rw [hok] at hrun
          cases hrun
        · obtain ⟨held, last, hfails, hextended, hheld⟩ :=
            @createBreakpoint_fails m nextId hardware internal done rest next reason hdone hnext
          rw [hfails] at hrun
          cases hrun
          have hnil := hheld.mpr (hfirst done next rest failure rfl hdone hnext hexception)
          rw [hnil] at hextended
          rw [hextended.sites_eq]
          exact ⟨rfl, rfl⟩

end Create

/-- Every site with a parent has one of the target's breakpoints for it, which
lists the site; no two sites share an address. -/
structure Owned (m : Machine) : Prop where
  distinct : (m.process.breakpointSites.map BreakpointSite.address).Nodup
  listed : ∀ site ∈ m.process.breakpointSites, ∀ parent, site.parent = some parent →
    ∃ point, m.process.breakpoints[parent]? = some point ∧ site.address ∈ point.sites

/-- A place whose computation has a defined outcome fails with an exception. -/
theorem placeFailure_isException {sites : StoppointCollection BreakpointSite} {place : Place}
    {failure : Failure} (hdefined : ∀ reason, place = .error reason → reason.isException = true)
    (h : placeFailure sites place = some failure) : failure.isException = true := by
  rcases place with reason | (_ | address)
  · cases h
    exact hdefined failure rfl
  · cases h
  · rw [placeFailure] at h
    split at h
    · cases h
      rfl
    · cases h

/-- A breakpoint pushed onto the list owns the sites it has added. -/
theorem Owned.push {m m' : Machine} {point : Breakpoint} (howned : Owned m)
    (h : Extended m m.process.breakpoints.length point.sites m') :
    Owned (m'.setProcess fun p => { p with breakpoints := p.breakpoints.push point }) := by
  obtain ⟨new, rfl, hheld, hparent⟩ := h.added
  constructor
  · change ((m.process.breakpointSites ++ new).map BreakpointSite.address).Nodup
    rw [List.map_append, hheld]
    refine List.nodup_append.mpr ⟨howned.distinct, h.nodup, fun a ha b hb heq => ?_⟩
    have hfree := h.fresh b hb
    rw [← heq, ← Bool.not_eq_true, containsAddress_iff] at hfree
    exact hfree ha
  · intro site hsite parent hsome
    change ∃ owner, (m.process.breakpoints ++ [point])[parent]? = some owner ∧ _
    rcases List.mem_append.mp hsite with hold | hnew
    · obtain ⟨owner, howner, hlists⟩ := howned.listed site hold parent hsome
      refine ⟨owner, ?_, hlists⟩
      rw [List.getElem?_append_left (List.getElem?_eq_some_iff.mp howner).1, howner]
    · have hposition := hparent site hnew
      rw [hsome] at hposition
      cases hposition
      refine ⟨point, List.getElem?_concat_length, ?_⟩
      rw [← hheld]
      exact List.mem_map_of_mem hnew

theorem createBreakpoint_owned {m : Machine} {nextId : Int} {hardware internal : Bool}
    {places : Except Failure (List Place)} (howned : Owned m)
    (hfirst : FailsFirst m.process.breakpointSites places)
    (hdefined : ∀ list, places = .ok list → ∀ failure, .error failure ∈ list →
      failure.isException = true) :
    Owned (createBreakpoint nextId hardware internal places m).2 := by
  cases places with
  | error reason => exact howned
  | ok places =>
      rcases places_cases m.process.breakpointSites places with
        hall | ⟨done, next, rest, reason, rfl, hdone, hnext⟩
      · obtain ⟨point, m', hok, hextended⟩ :=
          @createBreakpoint_succeeds m nextId hardware internal places hall
        rw [hok]
        exact howned.push hextended
      · obtain ⟨held, last, hfails, hextended, hheld⟩ :=
          @createBreakpoint_fails m nextId hardware internal done rest next reason hdone hnext
        have hexception : reason.isException = true := by
          refine placeFailure_isException (fun failure heq => ?_) hnext
          exact hdefined _ rfl failure (by simp [heq])
        have hnil := hheld.mpr (hfirst done next rest reason rfl hdone hnext hexception)
        rw [hnil] at hextended
        rw [hfails, hextended.sites_eq]
        exact howned

/-- Which breakpoint each site belongs to, and which sites each breakpoint
lists. -/
def ownership (m : Machine) : List (Option Nat × Word) × List (List Word) :=
  (m.process.breakpointSites.map fun site => (site.parent, site.address),
    m.process.breakpoints.map Breakpoint.sites)

theorem Owned.of_ownership {m m' : Machine} (howned : Owned m)
    (h : ownership m' = ownership m) : Owned m' := by
  obtain ⟨hsites, hpoints⟩ := Prod.mk.inj h
  constructor
  · have haddresses := congrArg (List.map Prod.snd) hsites
    rw [List.map_map, List.map_map] at haddresses
    exact (congrArg List.Nodup haddresses).mpr howned.distinct
  · intro site hsite parent hsome
    have hmem := List.mem_map_of_mem (f := fun s : BreakpointSite => (s.parent, s.address)) hsite
    rw [hsites] at hmem
    obtain ⟨old, hold, heq⟩ := List.mem_map.mp hmem
    obtain ⟨hparent, haddress⟩ := Prod.mk.inj heq
    obtain ⟨owner, howner, hlists⟩ := howned.listed old hold parent (hparent.trans hsome)
    have hposition := congrArg (fun list => list[parent]?) hpoints
    rw [List.getElem?_map, List.getElem?_map, howner] at hposition
    obtain ⟨point, hpoint, hpointSites⟩ := Option.map_eq_some_iff.mp hposition
    refine ⟨point, hpoint, ?_⟩
    rw [hpointSites, ← haddress]
    exact hlists

/-- A step that keeps who owns what keeps the ownership proper. -/
theorem carries_owned {α : Type} {x : Debugger α} (h : Respects (Fixes ownership) x) :
    Respects (Carries Owned) x :=
  h.mono fun _ _ heq howned => howned.of_ownership heq

theorem updateSite_ownership (index : Nat) {f : BreakpointSite → BreakpointSite}
    (hf : ∀ site, (f site).parent = site.parent ∧ (f site).address = site.address) :
    Respects (Fixes ownership) (updateSite index f) := by
  refine Respects.modify fun m => ?_
  refine Prod.ext ?_ rfl
  exact map_modify_of_eq (fun site => Prod.ext (hf site).1 (hf site).2) _ _

theorem debugRegisterFrame_ownership : DebugRegisterFrame (Fixes ownership) :=
  fun _ _ id val _ => writeRegister_respects (fun _ _ => rfl) (fun _ _ => rfl) id val true

theorem peekData_ownership (address : Word) (what : String) :
    Respects (Fixes ownership) (peekData address what) :=
  Respects.bind Respects.get fun _ => Respects.ite (Respects.pure _) (Respects.throw _)

theorem pokeData_ownership (address data : Word) (what : String) :
    Respects (Fixes ownership) (pokeData address data what) :=
  Respects.bind Respects.get fun _ =>
    Respects.ite (Respects.modify fun _ => rfl) (Respects.throw _)

theorem enableSite_ownership (index : Nat) : Respects (Fixes ownership) (enableSite index) := by
  refine Respects.bind (Respects.asks _) fun site => Respects.ite (Respects.pure _) ?_
  refine Respects.ite (Respects.bind ?_ fun slot => Respects.bind ?_ fun _ => ?_)
    (Respects.bind ?_ fun data => Respects.bind ?_ fun _ => Respects.bind ?_ fun _ => ?_)
  · exact debugRegisterFrame_ownership.setHardwareStoppoint (fun _ _ _ => rfl) _ _ _
  · exact updateSite_ownership _ fun _ => ⟨rfl, rfl⟩
  · exact updateSite_ownership _ fun _ => ⟨rfl, rfl⟩
  · exact peekData_ownership _ _
  · exact updateSite_ownership _ fun _ => ⟨rfl, rfl⟩
  · exact pokeData_ownership _ _ _
  · exact updateSite_ownership _ fun _ => ⟨rfl, rfl⟩

theorem disableSite_ownership (index : Nat) : Respects (Fixes ownership) (disableSite index) := by
  refine Respects.bind (Respects.asks _) fun site => Respects.ite (Respects.pure _) ?_
  refine Respects.ite (Respects.bind ?_ fun _ => Respects.bind ?_ fun _ => ?_)
    (Respects.bind ?_ fun data => Respects.bind ?_ fun _ => ?_)
  · exact debugRegisterFrame_ownership.clearHardwareStoppoint (fun _ _ _ => rfl) _
  · exact updateSite_ownership _ fun _ => ⟨rfl, rfl⟩
  · exact updateSite_ownership _ fun _ => ⟨rfl, rfl⟩
  · exact peekData_ownership _ _
  · exact pokeData_ownership _ _ _
  · exact updateSite_ownership _ fun _ => ⟨rfl, rfl⟩

/-- Sites may go, and a site without a parent may come. -/
theorem Owned.sublist {m : Machine} {sites : StoppointCollection BreakpointSite}
    (howned : Owned m) (h : List.Sublist sites m.process.breakpointSites) :
    Owned (m.setProcess fun p => { p with breakpointSites := sites }) where
  distinct := (h.map _).nodup howned.distinct
  listed := fun site hsite => howned.listed site (h.subset hsite)

theorem removeSite_owned (index : Option Nat) :
    Respects (Carries Owned) (removeSite index) := by
  cases index with
  | none => exact Respects.pure _
  | some index =>
      refine Respects.bind (carries_owned (disableSite_ownership index)) fun _ => ?_
      exact Respects.modify fun m howned => howned.sublist (List.eraseIdx_sublist _ _)

/-- A site at a free address may come: without a parent, or with one that lists
it.  The breakpoints may list more sites than before. -/
theorem Owned.add {m m' : Machine} {site : BreakpointSite} (howned : Owned m)
    (hfree : m.process.breakpointSites.containsAddress site.address = false)
    (hsites : m'.process.breakpointSites = m.process.breakpointSites.push site)
    (hkeeps : ∀ (index : Nat) (point : Breakpoint), m.process.breakpoints[index]? = some point →
      ∃ later : Breakpoint, m'.process.breakpoints[index]? = some later ∧
        point.sites ⊆ later.sites)
    (hlisted : ∀ parent, site.parent = some parent →
      ∃ point, m'.process.breakpoints[parent]? = some point ∧ site.address ∈ point.sites) :
    Owned m' := by
  constructor
  · rw [hsites]
    change ((m.process.breakpointSites ++ [site]).map BreakpointSite.address).Nodup
    rw [List.map_append]
    refine List.nodup_append.mpr ⟨howned.distinct, List.nodup_singleton _, ?_⟩
    intro a ha b hb heq
    rw [heq, List.mem_singleton.mp hb, ← containsAddress_iff, hfree] at ha
    cases ha
  · intro other hother parent hsome
    rw [hsites] at hother
    rcases List.mem_append.mp hother with hold | hlast
    · obtain ⟨owner, howner, hlists⟩ := howned.listed other hold parent hsome
      obtain ⟨later, hlater, hmore⟩ := hkeeps parent owner howner
      exact ⟨later, hlater, hmore hlists⟩
    · rw [List.mem_singleton.mp hlast] at hsome ⊢
      exact hlisted parent hsome

theorem createBreakpointSite_owned (address : Word) (hardware internal : Bool) :
    Respects (Carries Owned) (createBreakpointSite address hardware internal) := by
  intro m howned
  cases htaken : m.process.breakpointSites.containsAddress address with
  | true =>
      rw [createBreakpointSite, pushSite_of_taken htaken]
      exact howned
  | false =>
      rw [createBreakpointSite, pushSite_of_free htaken]
      have hsame : ∀ (index : Nat) (point : Breakpoint),
          m.process.breakpoints[index]? = some point →
          ∃ later : Breakpoint, m.process.breakpoints[index]? = some later ∧
            point.sites ⊆ later.sites :=
        fun _ point hpoint => ⟨point, hpoint, List.Subset.refl _⟩
      cases internal with
      | true => exact howned.add htaken rfl hsame fun _ hsome => by cases hsome
      | false => exact howned.add htaken rfl hsame fun _ hsome => by cases hsome

theorem updateBreakpoint_apply (index : Nat) (f : Breakpoint → Breakpoint) (m : Machine) :
    updateBreakpoint index f m =
      (.ok ⟨⟩, m.setProcess fun p => { p with breakpoints := p.breakpoints.modify index f }) :=
  rfl

theorem updateBreakpoint_ownership (index : Nat) {f : Breakpoint → Breakpoint}
    (hf : ∀ point, (f point).sites = point.sites) :
    Respects (Fixes ownership) (updateBreakpoint index f) :=
  Respects.modify fun _ => Prod.ext rfl (map_modify_of_eq hf _ _)

/-- The site that a breakpoint of the list creates is entered into the
breakpoint's own list as well. -/
theorem Owned.adopt {m : Machine} {index : Nat} {point : Breakpoint} {site : BreakpointSite}
    (howned : Owned m) (hpoint : m.process.breakpoints[index]? = some point)
    (hfree : m.process.breakpointSites.containsAddress site.address = false)
    (hparent : site.parent = some index) :
    Owned (m.setProcess fun p => { p with
      breakpointSites := p.breakpointSites.push site
      breakpoints := p.breakpoints.modify index fun point =>
        { point with sites := point.sites ++ [site.address] } }) := by
  refine howned.add hfree rfl (fun i before hbefore => ?_) fun parent hsome => ?_
  · refine ⟨_, (List.getElem?_modify _ _ _ _).trans (congrArg _ hbefore), ?_⟩
    split
    · exact List.subset_append_left _ _
    · exact List.Subset.refl _
  · cases hparent.symm.trans hsome
    refine ⟨_, (List.getElem?_modify _ _ _ _).trans (congrArg _ hpoint), ?_⟩
    simp only [if_pos]
    exact List.mem_append_right _ (List.mem_singleton_self _)

/-- While the site has a breakpoint that does not list it yet, nothing can
throw. -/
theorem createListed_owned {m : Machine} {index : Nat} {point : Breakpoint} (howned : Owned m)
    (hpoint : m.process.breakpoints[index]? = some point) (id : Int) (address : Word)
    (hardware internal enabled : Bool) :
    Owned ((do
      let newSite ← createBreakpointSiteFor index id address hardware internal
      updateBreakpoint index fun point => { point with sites := point.sites ++ [address] }
      if enabled then enableSite newSite else pure ⟨⟩ : Debugger PUnit) m).2 := by
  cases htaken : m.process.breakpointSites.containsAddress address with
  | true =>
      rw [createBreakpointSiteFor, bind_of_error (pushSite_of_taken htaken)]
      exact howned
  | false =>
      rw [createBreakpointSiteFor, bind_of_ok (pushSite_of_free htaken),
        bind_of_ok (updateBreakpoint_apply _ _ _)]
      refine Respects.ite (carries_owned (enableSite_ownership _)) (Respects.pure _) _ ?_
      exact @Owned.adopt m index point
        ⟨some index, id, address, false, 0, hardware, internal, -1⟩ howned hpoint htaken rfl

theorem addSite_owned (index : Nat) (address : Word) :
    Respects (Carries Owned) (addSite index address) := by
  intro m howned
  cases hpoint : m.process.breakpoints[index]? with
  | none =>
      have hat : breakpointAt index m = (.error (.undefined "dangling breakpoint"), m) := by
        simp [breakpointAt, hpoint]
      rw [addSite, bind_of_error hat]
      exact howned
  | some point =>
      have hat : breakpointAt index m = (.ok point, m) := by simp [breakpointAt, hpoint]
      rw [addSite, bind_of_ok hat, bind_of_ok (updateBreakpoint_apply _ _ _)]
      refine createListed_owned (howned.of_ownership ?_)
        ((List.getElem?_modify _ _ _ _).trans (congrArg _ hpoint)) _ _ _ _ _
      exact updateBreakpoint_ownership index
        (f := fun point => { point with nextSiteId := point.nextSiteId + 1 }) (fun _ => rfl) m

theorem resolveBreakpoint_owned (env : ResolveEnv) (index : Nat) (request : Requested) :
    Respects (Carries Owned) (resolveBreakpoint env index request) := by
  have hplaces : ∀ places : Except Failure (List Place),
      Respects (Carries Owned) (Eff.ofExcept places >>= forEach (resolvePlace index)) := by
    refine fun places => Respects.bind (Respects.ofExcept _) fun places =>
      Respects.forEach fun place _ => Respects.bind (Respects.ofExcept _) fun found => ?_
    cases found with
    | none => exact Respects.pure _
    | some address =>
        exact Respects.bind (Respects.asks _) fun _ =>
          Respects.ite (Respects.pure _) (addSite_owned index address)
  cases request with
  | address address =>
      exact Respects.bind (Respects.asks _) fun _ =>
        Respects.ite (addSite_owned index address) (Respects.pure _)
  | function functionName => exact hplaces _
  | line file line => exact hplaces _

/-- Resolving the breakpoints again keeps every site with a breakpoint that
lists it, also where a place fails on the way. -/
theorem resolveBreakpoints_owned (env : ResolveEnv) (requested : List Requested) :
    Respects (Carries Owned) (resolveBreakpoints env requested) :=
  Respects.bind Respects.get fun _ => Respects.forEach fun pair _ =>
    resolveBreakpoint_owned env pair.1 pair.2

/-- Sites for a breakpoint are made by the breakpoint itself. -/
def SiteOperation.isFree : SiteOperation → Bool
  | .createFor .. => false
  | _ => true

theorem SiteOperation.run_owned {op : SiteOperation} (hfree : op.isFree = true) :
    Respects (Carries Owned) op.run := by
  refine Respects.bind (op.touch_respects fun m _ howned => howned.of_ownership rfl) fun _ => ?_
  cases op with
  | create address hardware internal =>
      exact Respects.bind (createBreakpointSite_owned address hardware internal) fun _ =>
        Respects.pure _
  | createFor => cases hfree
  | enable index => exact carries_owned (enableSite_ownership index)
  | disable index => exact carries_owned (disableSite_ownership index)
  | removeById => exact Respects.bind Respects.get fun _ => removeSite_owned _
  | removeByAddress => exact Respects.bind Respects.get fun _ => removeSite_owned _

theorem switchBreakpoint_ownership (index : Nat) (enabled : Bool) :
    Respects (Fixes ownership) (switchBreakpoint index enabled) := by
  refine Respects.bind (Respects.asks _) fun point => Respects.bind (Respects.modify fun m => ?_)
    fun _ => Respects.forEach fun address _ => Respects.bind (Respects.asks _) fun site =>
      Respects.ite (enableSite_ownership site) (disableSite_ownership site)
  have hsites : ∀ b : Breakpoint, ({ b with isEnabled := enabled } : Breakpoint).sites = b.sites :=
    fun _ => rfl
  exact Prod.ext rfl (map_modify_of_eq hsites _ _)

/-- The site at an address, if there is one, is disabled. -/
def DisabledAt (address : Word) (m : Machine) : Prop :=
  ∀ site ∈ m.process.breakpointSites, site.address = address → site.isEnabled = false

theorem DisabledAt.of_sites {address : Word} {m m' : Machine} (h : DisabledAt address m)
    (hsites : m'.process.breakpointSites = m.process.breakpointSites) : DisabledAt address m' := by
  rw [DisabledAt, hsites]
  exact h

theorem updateSite_disabledAt (address : Word) (index : Nat) {f : BreakpointSite → BreakpointSite}
    (hf : ∀ site, (f site).address = site.address ∧
      (site.isEnabled = false → (f site).isEnabled = false)) :
    Respects (Carries (DisabledAt address)) (updateSite index f) := by
  refine Respects.modify fun m h site hsite haddress => ?_
  obtain ⟨i, hi, hget⟩ := List.mem_iff_getElem.mp hsite
  have hmodified : (m.process.breakpointSites.modify index f)[i]? = some site :=
    List.getElem?_eq_some_iff.mpr ⟨hi, hget⟩
  rw [List.getElem?_modify] at hmodified
  obtain ⟨old, hold, heq⟩ := Option.map_eq_some_iff.mp hmodified
  have hmem := List.mem_of_getElem? hold
  split at heq
  · subst heq
    exact (hf old).2 (h old hmem ((hf old).1.symm.trans haddress))
  · subst heq
    exact h old hmem haddress

theorem disableSite_disabledAt (address : Word) (index : Nat) :
    Respects (Carries (DisabledAt address)) (disableSite index) := by
  have hregisters : DebugRegisterFrame (Carries (DisabledAt address)) := fun _ _ id val _ =>
    writeRegister_respects (R := Carries (DisabledAt address))
      (fun _ => Respects.modify fun _ h => h.of_sites rfl) (fun _ _ h => h.of_sites rfl) id val true
  refine Respects.bind (Respects.asks _) fun site => Respects.ite (Respects.pure _) ?_
  refine Respects.ite (Respects.bind ?_ fun _ => Respects.bind ?_ fun _ => ?_)
    (Respects.bind ?_ fun data => Respects.bind ?_ fun _ => ?_)
  · exact hregisters.clearHardwareStoppoint (fun _ _ _ h => h.of_sites rfl) _
  · exact updateSite_disabledAt address _ fun _ => ⟨rfl, id⟩
  · exact updateSite_disabledAt address _ fun _ => ⟨rfl, fun _ => rfl⟩
  · exact Respects.bind Respects.get fun _ => Respects.ite (Respects.pure _) (Respects.throw _)
  · exact Respects.bind Respects.get fun _ =>
      Respects.ite (Respects.modify fun _ h => h.of_sites rfl) (Respects.throw _)
  · exact updateSite_disabledAt address _ fun _ => ⟨rfl, fun _ => rfl⟩

/-- Two sites at one address are the same. -/
theorem Owned.unique {m : Machine} (howned : Owned m) {i j : Nat} {site other : BreakpointSite}
    (hsite : m.process.breakpointSites[i]? = some site)
    (hother : m.process.breakpointSites[j]? = some other)
    (haddress : site.address = other.address) : i = j := by
  have hlt : i < (m.process.breakpointSites.map BreakpointSite.address).length := by
    rw [List.length_map]
    exact (List.getElem?_eq_some_iff.mp hsite).1
  refine (List.getElem?_inj hlt howned.distinct).mp ?_
  rw [List.getElem?_map, List.getElem?_map, hsite, hother]
  exact congrArg some haddress

theorem findByAddress_eq_some {sites : StoppointCollection BreakpointSite} {address : Word}
    {index : Nat} (h : sites.findByAddress address = some index) :
    ∃ site, sites[index]? = some site ∧ site.address = address := by
  obtain ⟨hlt, hat, _⟩ := List.findIdx?_eq_some_iff_getElem.mp h
  exact ⟨sites[index], List.getElem?_eq_getElem hlt, by simpa [Stoppoint.atAddress] using hat⟩

/-- One round of `breakpoint::disable`. -/
theorem disableAt_disabled {address : Word} {m m' : Machine} {u : PUnit} (howned : Owned m')
    (h : (siteOf address >>= fun site => disableSite site) m = (.ok u, m')) :
    DisabledAt address m' := by
  obtain ⟨index, middle, hof, hdisable⟩ := Eff.bind_eq_ok.mp h
  have hmiddle : m = middle := congrArg Prod.snd hof
  subst hmiddle
  have hfound : m.process.breakpointSites.findByAddress address = some index := by
    have hfirst := congrArg Prod.fst hof
    rw [siteOf, asks_apply] at hfirst
    split at hfirst
    · rename_i found hfound
      cases hfirst
      exact hfound
    · cases hfirst
  obtain ⟨site, hsite, haddress⟩ := findByAddress_eq_some hfound
  have howns := congrArg Prod.fst ((disableSite_ownership index).apply_eq hdisable)
  have hposition := congrArg (·[index]?) howns
  simp only [ownership, List.getElem?_map, hsite, Option.map_some] at hposition
  obtain ⟨last, hlast, heq⟩ := Option.map_eq_some_iff.mp hposition
  intro other hother hat
  obtain ⟨i, hi, hget⟩ := List.mem_iff_getElem.mp hother
  have hget' : m'.process.breakpointSites[i]? = some other :=
    List.getElem?_eq_some_iff.mpr ⟨hi, hget⟩
  have hsame : i = index := howned.unique hget' hlast (by
    rw [hat, (Prod.mk.inj heq).2, haddress])
  rw [hsame] at hget'
  exact disableSite_disabled hdisable other hget'

/-- After `breakpoint::disable` returned, its sites are disabled. -/
theorem switchBreakpoint_disabled {index : Nat} {point : Breakpoint} {m m' : Machine} {u : PUnit}
    (howned : Owned m) (hpoint : m.process.breakpoints[index]? = some point)
    (h : switchBreakpoint index false m = (.ok u, m')) :
    ∀ address ∈ point.sites, DisabledAt address m' := by
  intro address hmem
  have hlast : Owned m' := howned.of_ownership
    ((switchBreakpoint_ownership index false).apply_eq h)
  obtain ⟨found, middle, hat, hrest⟩ := Eff.bind_eq_ok.mp h
  have hfound : found = point ∧ middle = m := by
    simp only [breakpointAt, asks_apply, hpoint, Prod.mk.injEq, Except.ok.injEq] at hat
    exact ⟨hat.1.symm, hat.2.symm⟩
  obtain ⟨rfl, rfl⟩ := hfound
  obtain ⟨_, first, _, hloop⟩ := Eff.bind_eq_ok.mp hrest
  refine forEach_establishes (I := fun m => Owned m → DisabledAt address m) hmem ?_ ?_ hloop hlast
  · intro b _
    refine Respects.bind (Respects.asks _) fun site => ?_
    intro s hs howned'
    have hback := (disableSite_ownership site s).symm
    exact disableSite_disabledAt address site s (hs (howned'.of_ownership hback))
  · intro s s' u' hround howned'
    exact disableAt_disabled howned' hround

/-- Between the two halves of a deletion: sites at some addresses, all of them
disabled, have lost their breakpoint. -/
structure Orphaned (addresses : List Word) (m : Machine) : Prop where
  distinct : (m.process.breakpointSites.map BreakpointSite.address).Nodup
  listed : ∀ site ∈ m.process.breakpointSites, ∀ parent, site.parent = some parent →
    site.address ∈ addresses ∨
      ∃ point, m.process.breakpoints[parent]? = some point ∧ site.address ∈ point.sites
  disabled : ∀ address ∈ addresses, DisabledAt address m

theorem getElem?_shiftParent {points : List Breakpoint} {index parent : Nat}
    (hne : parent ≠ index) :
    (points.eraseIdx index)[shiftParent index points.length parent]? = points[parent]? := by
  rw [shiftParent]
  split
  · rename_i hlt
    exact List.getElem?_eraseIdx_of_lt hlt
  · rename_i hge
    rw [List.getElem?_eraseIdx_of_ge (by omega)]
    congr 1
    omega

theorem eraseBreakpoint_orphaned {m : Machine} {index : Nat} {point : Breakpoint}
    (howned : Owned m) (hpoint : m.process.breakpoints[index]? = some point)
    (hdisabled : ∀ address ∈ point.sites, DisabledAt address m) :
    Orphaned point.sites (eraseBreakpoint index m).2 where
  distinct := by
    change (List.map _ (List.map _ m.process.breakpointSites)).Nodup
    rw [List.map_map]
    exact howned.distinct
  listed := by
    intro site hsite parent hsome
    obtain ⟨old, hold, rfl⟩ := List.mem_map.mp hsite
    obtain ⟨before, hbefore, rfl⟩ := Option.map_eq_some_iff.mp hsome
    obtain ⟨owner, howner, hlists⟩ := howned.listed old hold before hbefore
    by_cases heq : before = index
    · rw [heq, hpoint] at howner
      cases howner
      exact .inl hlists
    · exact .inr ⟨owner, (getElem?_shiftParent heq).trans howner, hlists⟩
  disabled := by
    intro address hmem site hsite haddress
    obtain ⟨old, hold, rfl⟩ := List.mem_map.mp hsite
    exact hdisabled address hmem old hold haddress

/-- Removing the site at an address takes one orphan away. -/
theorem removeByAddress_orphaned {m : Machine} {address : Word} {rest : List Word}
    (h : Orphaned (address :: rest) m) :
    ∃ m', removeByAddress address m = (.ok ⟨⟩, m') ∧ Orphaned rest m' := by
  cases hfind : m.process.breakpointSites.findByAddress address with
  | none =>
      refine ⟨m, ?_, h.distinct, ?_, fun a ha => h.disabled a (List.mem_cons_of_mem _ ha)⟩
      · rw [removeByAddress, bind_of_ok (get_apply m), hfind]
        rfl
      · intro site hsite parent hsome
        rcases h.listed site hsite parent hsome with hmem | howner
        · rcases List.mem_cons.mp hmem with heq | hrest
          · have habsent := List.findIdx?_eq_none_iff.mp hfind site hsite
            simp [Stoppoint.atAddress, heq] at habsent
          · exact .inl hrest
        · exact .inr howner
  | some index =>
      obtain ⟨site, hsite, haddress⟩ := findByAddress_eq_some hfind
      have hoff := h.disabled address List.mem_cons_self site (List.mem_of_getElem? hsite) haddress
      have hdisable : disableSite index m = (.ok ⟨⟩, m) := by
        have hat : siteAt index m = (.ok site, m) := by simp [siteAt, hsite]
        rw [disableSite, bind_of_ok hat, if_pos (by simp [hoff])]
        rfl
      have hsub := List.eraseIdx_sublist m.process.breakpointSites index
      refine ⟨m.setProcess fun p => { p with breakpointSites := p.breakpointSites.eraseIdx index },
        ?_, (hsub.map _).nodup h.distinct, ?_, ?_⟩
      · rw [removeByAddress, bind_of_ok (get_apply m), hfind, removeSite, bind_of_ok hdisable]
        rfl
      · intro other hother parent hsome
        have hmem := hsub.subset hother
        rcases h.listed other hmem parent hsome with haddresses | howner
        · rcases List.mem_cons.mp haddresses with heq | hrest
          · obtain ⟨j, hne, hget⟩ := List.mem_eraseIdx_iff_getElem?.mp hother
            refine absurd ?_ hne
            have hlt : j < (m.process.breakpointSites.map BreakpointSite.address).length := by
              rw [List.length_map]
              exact (List.getElem?_eq_some_iff.mp hget).1
            refine (List.getElem?_inj hlt h.distinct).mp ?_
            rw [List.getElem?_map, List.getElem?_map, hget, hsite]
            exact congrArg some (heq.trans haddress.symm)
          · exact .inl hrest
        · exact .inr howner
      · intro a ha other hother
        exact h.disabled a (List.mem_cons_of_mem _ ha) other (hsub.subset hother)

theorem removeSites_owned {addresses : List Word} {m : Machine} (h : Orphaned addresses m) :
    Owned (forEach removeByAddress addresses m).2 := by
  induction addresses generalizing m with
  | nil =>
      refine ⟨h.distinct, fun site hsite parent hsome => ?_⟩
      exact (h.listed site hsite parent hsome).resolve_left List.not_mem_nil
  | cons address rest ih =>
      obtain ⟨m', hremove, hrest⟩ := removeByAddress_orphaned h
      rw [forEach, bind_of_ok hremove]
      exact ih hrest

theorem deleteBreakpoint_owned (id : Int) : Respects (Carries Owned) (deleteBreakpoint id) := by
  intro m howned
  rw [deleteBreakpoint, bind_of_ok (get_apply m)]
  cases hindex : m.process.breakpoints.getById id with
  | error failure => exact howned
  | ok index =>
      rw [bind_of_ok (ofExcept_apply _ _)]
      cases hpoint : m.process.breakpoints[index]? with
      | none =>
          have hat : breakpointAt index m = (.error (.undefined "dangling breakpoint"), m) := by
            simp [breakpointAt, hpoint]
          rw [bind_of_error hat]
          exact howned
      | some point =>
          have hat : breakpointAt index m = (.ok point, m) := by simp [breakpointAt, hpoint]
          rw [bind_of_ok hat]
          have hkeeps := switchBreakpoint_ownership index false m
          rcases hswitch : switchBreakpoint index false m with ⟨failure | u, m'⟩
          · rw [bind_of_error hswitch]
            rw [hswitch] at hkeeps
            exact howned.of_ownership hkeeps
          · rw [hswitch] at hkeeps
            have hposition := congrArg (fun o => (Prod.snd o)[index]?) hkeeps
            simp only [ownership, List.getElem?_map, hpoint, Option.map_some] at hposition
            obtain ⟨last, hlast, hsites⟩ := Option.map_eq_some_iff.mp hposition
            have hdisabled := switchBreakpoint_disabled howned hpoint hswitch
            rw [← hsites] at hdisabled ⊢
            rw [bind_of_ok hswitch]
            exact removeSites_owned (eraseBreakpoint_orphaned (howned.of_ownership hkeeps) hlast
              hdisabled)

/-- What can be done to breakpoints and sites, the reload of the libraries
included.  `nextId` is the number that the static counter of breakpoints has
reached. -/
inductive BreakpointCommand where
  | createAddress (nextId : Int) (address : Word) (hardware internal : Bool)
  | createFunction (env : ResolveEnv) (nextId : Int) (functionName : List Byte)
      (hardware internal : Bool)
  | createLine (env : ResolveEnv) (nextId : Int) (file : List Byte) (line : Word)
      (hardware internal : Bool)
  | switch (index : Nat) (enabled : Bool)
  | delete (id : Int)
  | resolve (env : ResolveEnv) (requested : List Requested)
  | site (op : SiteOperation) (free : op.isFree = true)

namespace BreakpointCommand

def run : BreakpointCommand → Debugger PUnit
  | .createAddress nextId address hardware internal =>
      createAddressBreakpoint nextId address hardware internal
  | .createFunction env nextId functionName hardware internal =>
      createFunctionBreakpoint env nextId functionName hardware internal
  | .createLine env nextId file line hardware internal =>
      createLineBreakpoint env nextId file line hardware internal
  | .switch index enabled => switchBreakpoint index enabled
  | .delete id => deleteBreakpoint id
  | .resolve env requested => resolveBreakpoints env requested
  | .site op _ => op.run

/-- The places a command creates a breakpoint for. -/
def places : BreakpointCommand → Except Failure (List Place)
  | .createAddress _ address _ _ => .ok [.ok (some address)]
  | .createFunction env _ functionName _ _ => env.functionPlaces functionName
  | .createLine env _ file line _ _ => env.linePlaces file line
  | .switch _ _ | .delete _ | .resolve _ _ | .site _ _ => .ok []

/-- Looking the places up has a defined outcome, and the first that fails is not
preceded by an address. -/
structure FailsCleanly (command : BreakpointCommand) (m : Machine) : Prop where
  first : FailsFirst m.process.breakpointSites command.places
  defined : ∀ list, command.places = .ok list → ∀ failure, .error failure ∈ list →
    failure.isException = true

theorem run_owned {command : BreakpointCommand} {m : Machine} (h : command.FailsCleanly m)
    (howned : Owned m) : Owned (command.run m).2 := by
  cases command with
  | createAddress => exact createBreakpoint_owned howned h.first h.defined
  | createFunction => exact createBreakpoint_owned howned h.first h.defined
  | createLine => exact createBreakpoint_owned howned h.first h.defined
  | switch index enabled => exact carries_owned (switchBreakpoint_ownership index enabled) m howned
  | delete id => exact deleteBreakpoint_owned id m howned
  | resolve env requested => exact resolveBreakpoints_owned env requested m howned
  | site op free => exact SiteOperation.run_owned free m howned

end BreakpointCommand

/-- Every command of a run fails cleanly where it is performed. -/
def EachFailsCleanly : List BreakpointCommand → Machine → Prop
  | [], _ => True
  | command :: rest, m => command.FailsCleanly m ∧ EachFailsCleanly rest (command.run m).2

theorem performCommands_owned {commands : List BreakpointCommand} {m : Machine}
    (h : EachFailsCleanly commands m) (howned : Owned m) :
    Owned (performAll BreakpointCommand.run commands m) := by
  induction commands generalizing m with
  | nil => exact howned
  | cons command rest ih => exact ih h.2 (BreakpointCommand.run_owned h.1 howned)

/-- Creating a breakpoint for a function or a line is atomic exactly if no
address is resolved before the first place that fails; and in a run in which
this is so throughout, every site with a parent has a live one that lists it. -/
theorem creation_atomic_iff (env : ResolveEnv) (nextId : Int) (hardware internal : Bool)
    (m : Machine) :
    (∀ functionName,
      Atomic (createFunctionBreakpoint env nextId functionName hardware internal) m ↔
        FailsFirst m.process.breakpointSites (env.functionPlaces functionName)) ∧
    (∀ file line, Atomic (createLineBreakpoint env nextId file line hardware internal) m ↔
      FailsFirst m.process.breakpointSites (env.linePlaces file line)) ∧
    ∀ commands, Owned m → EachFailsCleanly commands m →
      Owned (performAll BreakpointCommand.run commands m) := by
  refine ⟨fun functionName => ?_, fun file line => ?_, fun commands howned hclean => ?_⟩
  · exact createBreakpoint_atomic_iff nextId hardware internal (env.functionPlaces functionName) m
  · exact createBreakpoint_atomic_iff nextId hardware internal (env.linePlaces file line) m
  · exact performCommands_owned hclean howned

namespace OwnershipWitness

/-- A name that two symbols of a file have. -/
def env : ResolveEnv where
  elves := [⟨[], [⟨".text", 6, 0x1000, 0x1000, 0x2000⟩], 0⟩]
  findFunctions := fun _ => .ok ([], [(0, 0x1000), (0, 0x2000)])
  compileUnits := []
  lines := fun _ => .error (.undefined "no line table")
  lowPc := fun _ => .error (.error "DIE does NOT have low PC!")
  inlineStackAtAddress := fun _ => .ok []

/-- A site of its own stands at an address. -/
def machineWith (address : Word) : Machine :=
  (createBreakpointSite address false false (.atRest fun _ => 0)).2

/-- The second of the two addresses is taken: the site at the first stays. -/
theorem creation_not_atomic :
    ¬ Atomic (createFunctionBreakpoint env 1 [0x66] false false) (machineWith 0x2000) := by
  intro hatomic
  have hsame := (hatomic _ _ rfl rfl).1
  exact absurd (congrArg List.length hsame) (by decide +kernel)

theorem machineWith_owned (address : Word) : Owned (machineWith address) := by
  refine createBreakpointSite_owned address false false _ ?_
  exact ⟨List.nodup_nil, fun site hsite => absurd hsite List.not_mem_nil⟩

/-- The first of the two addresses is taken. -/
theorem creation_atomic_iff_taken :
    Atomic (createFunctionBreakpoint env 1 [0x66] false false) (machineWith 0x1000) ∧
      Owned (performAll BreakpointCommand.run [.createFunction env 1 [0x66] false false]
        (machineWith 0x1000)) := by
  have hplaces : env.functionPlaces [0x66] = .ok [.ok (some 0x1000), .ok (some 0x2000)] := by
    decide +kernel
  have hfirst : FailsFirst (machineWith 0x1000).process.breakpointSites
      (env.functionPlaces [0x66]) := by
    rw [hplaces]
    intro done next rest failure heq hdone _ _ place hplace
    cases done with
    | nil => cases hplace
    | cons first done =>
        have htaken : first = .ok (some 0x1000) := (List.cons.inj (Except.ok.inj heq)).1.symm
        have hfree := hdone first List.mem_cons_self
        rw [htaken] at hfree
        exact absurd hfree (by decide +kernel)
  obtain ⟨hfunction, _, hrun⟩ := creation_atomic_iff env 1 false false (machineWith 0x1000)
  refine ⟨(hfunction [0x66]).mpr hfirst, hrun _ (machineWith_owned 0x1000) ⟨⟨hfirst, ?_⟩, trivial⟩⟩
  intro list hlist failure hmem
  rw [← Except.ok.inj (hplaces.symm.trans hlist)] at hmem
  simp at hmem

end OwnershipWitness

end Gsdb
