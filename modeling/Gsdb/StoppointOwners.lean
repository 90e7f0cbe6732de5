/-
Which stoppoint a stop by a debug register belongs to.  The slot that was hit has one
owner; `get_current_hardware_stoppoint` goes by the address in it instead, and looks at
the breakpoint sites of every kind before the watchpoints.
-/
import Gsdb.RunUntil
import Gsdb.ThreadArming

namespace Gsdb

open ByteMemory Effects Eff Debugger

/-- What identifies the stoppoints of a process. -/
def Catalog (m : Machine) : List Word × List (Int × Word) × Int :=
  (m.process.breakpointSites.map (·.address),
    m.process.watchpoints.map fun point => (point.id, point.address), m.process.nextWatchpointId)

/-- No two sites are at one address, no two watchpoints are at one address or have one
identifier, and the identifiers to come are free. -/
structure Cataloged (m : Machine) : Prop where
  sites : (m.process.breakpointSites.map (·.address)).Nodup
  watched : (m.process.watchpoints.map (·.address)).Nodup
  ids : (m.process.watchpoints.map (·.id)).Nodup
  fresh : ∀ point ∈ m.process.watchpoints, point.id ≤ m.process.nextWatchpointId

/-- An enabled hardware stoppoint, by its kind. -/
abbrev SlotOwner := BreakpointSite ⊕ Watchpoint

namespace SlotOwner

/-- The identifier that `get_current_hardware_stoppoint` should return for it. -/
def id : SlotOwner → Int ⊕ Int
  | .inl site => .inl site.id
  | .inr point => .inr point.id

def address : SlotOwner → Word
  | .inl site => site.address
  | .inr point => point.address

end SlotOwner

/-- The enabled stoppoint whose `hardware_register_index_` is the slot. -/
def Machine.Owns (m : Machine) (slot : Fin 4) : SlotOwner → Prop
  | .inl site => site ∈ m.process.breakpointSites ∧ site.isEnabled = true ∧
      site.isHardware = true ∧ site.hardwareRegisterIndex = (slot : Nat)
  | .inr point => point ∈ m.process.watchpoints ∧ point.isEnabled = true ∧
      point.hardwareRegisterIndex = (slot : Nat)

/-- A thread stopped with a slot reported: its registers were read, the addresses in
them are as they were programmed, and the lowest bit of the status is the slot's. -/
structure StopReports (before m : Machine) (tid : Tid) (slot : Fin 4) : Prop where
  sites : m.process.breakpointSites = before.process.breakpointSites
  watchpoints : m.process.watchpoints = before.process.watchpoints
  tracked : (before.thread? tid).isSome = true
  thread : ∃ thread, m.thread? tid = some thread ∧ thread.regs.undefinedOffsets = [] ∧
    (∀ other : Fin 4, User.drs thread.regs.data (other.castLE (by decide)) =
      (before.debugView tid).actual (other.castLE (by decide))) ∧
    builtinCtzll (User.drs thread.regs.data 6) = .ok slot

/-- The stop is put down to its stoppoint, and a watchpoint takes over the data that is
now in memory. -/
structure Identified (m : Machine) (tid : Tid) (owner : SlotOwner) : Prop where
  found : getCurrentHardwareStoppoint tid m = (.ok owner.id, m)
  updated : ∀ point, owner = .inr point → ∀ read,
    readMemory m point.address point.size = .ok read →
    ∀ (handlers : HitHandlers) (reason : StopReason) (isMainStop : Bool), reason.tid = tid →
      reason.trapReason = some .hardwareBreak → ∃ (m' : Machine) (index : Nat),
        handleTrap handlers reason isMainStop m = (.ok false, m') ∧
        m.process.watchpoints[index]? = some point ∧
        m'.process.watchpoints[index]? = some { point with
          previousData := point.data, data := BitVec.ofNat 64 (ofLe (read.take 8)) }

section Catalog

variable {m m' : Machine}

theorem Cataloged.of_fixes (h : Cataloged m) (hsame : Fixes Catalog m m') : Cataloged m' := by
  have hsites : m'.process.breakpointSites.map (·.address) =
      m.process.breakpointSites.map (·.address) := congrArg (·.1) hsame
  have hpoints : m'.process.watchpoints.map (fun point => (point.id, point.address)) =
      m.process.watchpoints.map fun point => (point.id, point.address) := congrArg (·.2.1) hsame
  have hnext : m'.process.nextWatchpointId = m.process.nextWatchpointId := congrArg (·.2.2) hsame
  have hids := congrArg (List.map Prod.fst) hpoints
  have haddresses := congrArg (List.map Prod.snd) hpoints
  simp only [List.map_map] at hids haddresses
  refine ⟨hsites ▸ h.sites, ?_, ?_, fun point hpoint => ?_⟩
  · exact (congrArg List.Nodup haddresses).mpr h.watched
  · exact (congrArg List.Nodup hids).mpr h.ids
  · have hmem : point.id ∈ m'.process.watchpoints.map (·.id) := List.mem_map_of_mem hpoint
    have hids' : m'.process.watchpoints.map (·.id) = m.process.watchpoints.map (·.id) := hids
    rw [hids'] at hmem
    obtain ⟨old, hold, heq⟩ := List.mem_map.mp hmem
    rw [hnext, ← heq]
    exact h.fresh old hold

theorem carries_of_fixes {α : Type} {x : Debugger α} (h : Respects (Fixes Catalog) x) :
    Respects (Carries Cataloged) x :=
  h.mono fun _ _ hsame hm => hm.of_fixes hsame

theorem debugRegisterFrame_catalog : DebugRegisterFrame (Fixes Catalog) :=
  fun _ _ id val _ => writeRegister_respects (fun _ _ => rfl) (fun _ _ => rfl) id val true

theorem updateSite_catalog {f : BreakpointSite → BreakpointSite}
    (hf : ∀ site, (f site).address = site.address) (index : Nat) :
    Respects (Fixes Catalog) (updateSite index f) := by
  intro m
  change Catalog (m.setProcess fun p => { p with
    breakpointSites := p.breakpointSites.modify index f }) = Catalog m
  simp only [Catalog, Machine.setProcess, map_modify_of_eq hf]

theorem updateWatchpoint_catalog {f : Watchpoint → Watchpoint}
    (hf : ∀ point, ((f point).id, (f point).address) = (point.id, point.address)) (index : Nat) :
    Respects (Fixes Catalog) (updateWatchpoint index f) := by
  intro m
  have hmap : (m.process.watchpoints.modify index f).map (fun point => (point.id, point.address)) =
      m.process.watchpoints.map fun point => (point.id, point.address) := map_modify_of_eq hf _ _
  change Catalog (m.setProcess fun p => { p with
    watchpoints := p.watchpoints.modify index f }) = Catalog m
  simp only [Catalog, Machine.setProcess, hmap]

theorem pokeData_catalog (address data : Word) (what : String) :
    Respects (Fixes Catalog) (pokeData address data what) :=
  Respects.bind Respects.get fun _ =>
    Respects.ite (Respects.modify fun _ => rfl) (Respects.throw _)

theorem enableSite_catalog (index : Nat) : Respects (Fixes Catalog) (enableSite index) := by
  refine Respects.bind (Respects.asks _) fun site => ?_
  split
  · exact Respects.pure _
  split
  · refine Respects.bind (debugRegisterFrame_catalog.setHardwareStoppoint (fun _ _ _ => rfl) _ _ _)
      fun slot => ?_
    refine Respects.bind (updateSite_catalog ?_ index) fun _ => updateSite_catalog ?_ index <;>
      exact fun _ => rfl
  · refine Respects.bind (SiteFrame.peekData _ _) fun data => ?_
    refine Respects.bind (updateSite_catalog ?_ index) fun _ => ?_
    · exact fun _ => rfl
    refine Respects.bind (pokeData_catalog _ _ _) fun _ => updateSite_catalog ?_ index
    exact fun _ => rfl

theorem disableSite_catalog (index : Nat) : Respects (Fixes Catalog) (disableSite index) := by
  refine Respects.bind (Respects.asks _) fun site => ?_
  split
  · exact Respects.pure _
  split
  · refine Respects.bind (debugRegisterFrame_catalog.clearHardwareStoppoint (fun _ _ _ => rfl) _)
      fun slot => ?_
    refine Respects.bind (updateSite_catalog ?_ index) fun _ => updateSite_catalog ?_ index <;>
      exact fun _ => rfl
  · refine Respects.bind (SiteFrame.peekData _ _) fun data => ?_
    refine Respects.bind (pokeData_catalog _ _ _) fun _ => updateSite_catalog ?_ index
    exact fun _ => rfl

theorem enableWatchpoint_catalog (index : Nat) :
    Respects (Fixes Catalog) (enableWatchpoint index) := by
  refine Respects.bind (Respects.asks _) fun point => Respects.ite (Respects.pure _) ?_
  refine Respects.bind (debugRegisterFrame_catalog.setHardwareStoppoint (fun _ _ _ => rfl) _ _ _)
    fun slot => ?_
  refine Respects.bind (updateWatchpoint_catalog ?_ index) fun _ =>
    updateWatchpoint_catalog ?_ index <;> exact fun _ => rfl

theorem disableWatchpoint_catalog (index : Nat) :
    Respects (Fixes Catalog) (disableWatchpoint index) := by
  refine Respects.bind (Respects.asks _) fun point => Respects.ite (Respects.pure _) ?_
  refine Respects.bind (debugRegisterFrame_catalog.clearHardwareStoppoint (fun _ _ _ => rfl) _)
    fun _ => updateWatchpoint_catalog ?_ index
  exact fun _ => rfl

/-- A new site is at an address that no other has. -/
theorem pushSite_cataloged {address : Word} {site : Process → BreakpointSite × Process}
    (hsite : ∀ p, (site p).1.address = address ∧
      ∃ next, (site p).2 = { p with nextSiteId := next }) :
    Respects (Carries Cataloged) (pushSite address site) := by
  intro m hm
  rw [pushSite, bind_of_ok (get_apply m)]
  by_cases hthere : m.process.breakpointSites.containsAddress address = true
  · rw [if_pos hthere]
    exact hm
  rw [if_neg hthere]
  obtain ⟨haddress, next, hnext⟩ := hsite m.process
  have hnew : ∀ old ∈ m.process.breakpointSites, old.address ≠ address := by
    intro old hold heq
    have hnot := StoppointCollection.containsAddress_eq_false (by simpa using hthere) old hold
    simp [Stoppoint.atAddress, heq] at hnot
  change Cataloged (m.setProcess fun p => { (site p).2 with
    breakpointSites := (site p).2.breakpointSites.push (site p).1 })
  have hprocess : (m.setProcess fun p => { (site p).2 with
      breakpointSites := (site p).2.breakpointSites.push (site p).1 }) =
      m.setProcess fun p => { p with
        breakpointSites := m.process.breakpointSites ++ [(site m.process).1]
        nextSiteId := next } := by
    simp only [Machine.setProcess, StoppointCollection.push, hnext]
  rw [hprocess]
  refine ⟨?_, hm.watched, hm.ids, hm.fresh⟩
  change ((m.process.breakpointSites ++ [(site m.process).1]).map (·.address)).Nodup
  rw [List.map_append, List.nodup_append]
  refine ⟨hm.sites, by simp, fun a ha b hb heq => ?_⟩
  obtain ⟨old, hold, rfl⟩ := List.mem_map.mp ha
  simp only [List.map_cons, List.map_nil, List.mem_singleton, haddress] at hb
  exact hnew old hold (heq.trans hb)

theorem Cataloged.erase_site (h : Cataloged m) (index : Nat) :
    Cataloged (m.setProcess fun p => { p with
      breakpointSites := p.breakpointSites.eraseIdx index }) :=
  ⟨h.sites.sublist ((List.eraseIdx_sublist _ index).map _), h.watched, h.ids, h.fresh⟩

theorem Cataloged.erase_watchpoint (h : Cataloged m) (index : Nat) :
    Cataloged (m.setProcess fun p => { p with
      watchpoints := p.watchpoints.eraseIdx index }) :=
  ⟨h.sites, h.watched.sublist ((List.eraseIdx_sublist _ index).map _),
    h.ids.sublist ((List.eraseIdx_sublist _ index).map _),
    fun point hpoint => h.fresh point ((List.eraseIdx_sublist _ index).mem hpoint)⟩

theorem removeSite_cataloged (index : Option Nat) :
    Respects (Carries Cataloged) (removeSite index) := by
  cases index with
  | none => exact Respects.pure _
  | some index =>
      exact Respects.bind (carries_of_fixes (disableSite_catalog index)) fun _ =>
        Respects.modify fun _ hm => hm.erase_site index

theorem removeWatchpoint_cataloged (index : Option Nat) :
    Respects (Carries Cataloged) (removeWatchpoint index) := by
  cases index with
  | none => exact Respects.pure _
  | some index =>
      exact Respects.bind (carries_of_fixes (disableWatchpoint_catalog index)) fun _ =>
        Respects.modify fun _ hm => hm.erase_watchpoint index

/-- A new watchpoint is at an address that no other has, and takes the next identifier. -/
theorem createWatchpoint_cataloged (address : Word) (mode : StoppointMode) (size : Nat) :
    Respects (Carries Cataloged) (createWatchpoint address mode size) := by
  intro m hm
  rw [createWatchpoint, bind_of_ok (get_apply m)]
  by_cases hthere : m.process.watchpoints.containsAddress address = true
  · rw [if_pos hthere]
    exact hm
  rw [if_neg hthere]
  have hnew : ∀ old ∈ m.process.watchpoints, old.address ≠ address := by
    intro old hold heq
    have hnot := StoppointCollection.containsAddress_eq_false (by simpa using hthere) old hold
    simp [Stoppoint.atAddress, heq] at hnot
  have hnext : Cataloged (m.setProcess fun p => { p with
      nextWatchpointId := m.process.nextWatchpointId + 1 }) := by
    refine ⟨hm.sites, hm.watched, hm.ids, fun point hpoint => ?_⟩
    have := hm.fresh point hpoint
    change point.id ≤ m.process.nextWatchpointId + 1
    omega
  cases hcheck : checkWatchpoint address mode size with
  | error e => exact hm
  | ok u =>
      cases hdata : watchedData m address size with
      | error e => exact hnext
      | ok data =>
          let created : Watchpoint := ⟨m.process.nextWatchpointId + 1, address, false, mode, size,
            -1, data, 0⟩
          refine ⟨hm.sites, ?_, ?_, ?_⟩
          · change ((m.process.watchpoints ++ [created]).map (·.address)).Nodup
            rw [List.map_append, List.nodup_append]
            refine ⟨hm.watched, by simp, fun a ha b hb heq => ?_⟩
            obtain ⟨old, hold, rfl⟩ := List.mem_map.mp ha
            simp only [List.map_cons, List.map_nil, List.mem_singleton] at hb
            exact hnew old hold (heq.trans hb)
          · change ((m.process.watchpoints ++ [created]).map (·.id)).Nodup
            rw [List.map_append, List.nodup_append]
            refine ⟨hm.ids, by simp, fun a ha b hb heq => ?_⟩
            obtain ⟨old, hold, rfl⟩ := List.mem_map.mp ha
            have hbound : old.id ≤ m.process.nextWatchpointId := hm.fresh old hold
            have hlast : b = m.process.nextWatchpointId + 1 := List.mem_singleton.mp hb
            omega
          · intro point hpoint
            rcases List.mem_append.mp hpoint with hold | hlast
            · exact hnext.fresh point hold
            · obtain rfl := List.mem_singleton.mp hlast
              exact Int.le_refl _

theorem HardwareOperation.run_cataloged (op : HardwareOperation) :
    Respects (Carries Cataloged) op.run := by
  cases op with
  | setCurrentThread tid => exact Respects.modify fun _ hm => hm.of_fixes rfl
  | watchpoint op =>
      cases op with
      | create address mode size =>
          exact Respects.bind (createWatchpoint_cataloged _ _ _) fun _ => Respects.pure _
      | enable index => exact carries_of_fixes (enableWatchpoint_catalog index)
      | disable index => exact carries_of_fixes (disableWatchpoint_catalog index)
      | removeById id => exact Respects.bind Respects.get fun _ => removeWatchpoint_cataloged _
      | removeByAddress address =>
          exact Respects.bind Respects.get fun _ => removeWatchpoint_cataloged _
  | site op =>
      refine Respects.bind (op.touch_respects fun _ _ hm => hm.of_fixes rfl) fun _ => ?_
      cases op with
      | create address hardware internal =>
          refine Respects.bind (pushSite_cataloged fun p => ?_) fun _ => Respects.pure _
          split
          · exact ⟨rfl, p.nextSiteId, rfl⟩
          · exact ⟨rfl, p.nextSiteId + 1, rfl⟩
      | createFor parent id address hardware internal =>
          exact Respects.bind (pushSite_cataloged fun p => ⟨rfl, p.nextSiteId, rfl⟩) fun _ =>
            Respects.pure _
      | enable index => exact carries_of_fixes (enableSite_catalog index)
      | disable index => exact carries_of_fixes (disableSite_catalog index)
      | removeById id => exact Respects.bind Respects.get fun _ => removeSite_cataloged _
      | removeByAddress address =>
          exact Respects.bind Respects.get fun _ => removeSite_cataloged _

theorem performHardwareOperations_cataloged (ops : List HardwareOperation) (h : Cataloged m) :
    Cataloged (performHardwareOperations ops m) :=
  Respects.performAll HardwareOperation.run_cataloged ops m h

end Catalog

section Owner

variable {before m : Machine} {tid : Tid} {slot : Fin 4} {owner : SlotOwner}

/-- The owner of a slot is one of the enabled hardware stoppoints. -/
theorem Machine.Owns.mem_hardwareStoppoints (h : m.Owns slot owner) :
    ∃ point ∈ m.process.hardwareStoppoints, point.slot = (slot : Nat) ∧
      point.address = owner.address := by
  cases owner with
  | inl site =>
      obtain ⟨hsite, henabled, hhardware, hslot⟩ := h
      refine ⟨⟨site.hardwareRegisterIndex, site.address, .execute, 1⟩, ?_, hslot, rfl⟩
      refine List.mem_append_left _ (List.mem_filterMap.mpr ⟨site, hsite, ?_⟩)
      exact if_pos ⟨henabled, hhardware⟩
  | inr point =>
      obtain ⟨hpoint, henabled, hslot⟩ := h
      refine ⟨⟨point.hardwareRegisterIndex, point.address, point.mode, point.size⟩, ?_, hslot, rfl⟩
      refine List.mem_append_right _ (List.mem_filterMap.mpr ⟨point, hpoint, ?_⟩)
      exact if_pos henabled

/-- The register of a slot holds the address of the slot's owner. -/
theorem StopReports.address (hbefore : Allocated before) (h : StopReports before m tid slot)
    (howner : m.Owns slot owner) {thread : ThreadState}
    (hdrs : ∀ other : Fin 4, User.drs thread.regs.data (other.castLE (by decide)) =
      (before.debugView tid).actual (other.castLE (by decide))) :
    User.drs thread.regs.data (slot.castLE (by decide)) = owner.address := by
  obtain ⟨point, hpoint, hslot, haddress⟩ := howner.mem_hardwareStoppoints
  have hsame : m.process.hardwareStoppoints = before.process.hardwareStoppoints := by
    rw [Process.hardwareStoppoints, h.sites, h.watchpoints]
    rfl
  rw [hsame] at hpoint
  obtain ⟨other, hother, hheld, -⟩ := (hbefore.actual tid h.tracked).owned point hpoint
  have hslots : other = slot := Fin.ext (by omega)
  rw [hdrs slot, ← haddress, ← hheld, hslots]

/-- What `get_current_hardware_stoppoint` reads: the status, and the address of the
slot's owner. -/
theorem StopReports.reads (hbefore : Allocated before) (h : StopReports before m tid slot)
    (howner : m.Owns slot owner) : ∃ status id, readRegister tid .dr6 m = (.ok status, m) ∧
      builtinCtzll status = .ok slot ∧ debugRegister ((slot : Nat) : Int) = .ok id ∧
      readRegister tid id m = (.ok owner.address, m) := by
  obtain ⟨thread, hthread, hdefined, hdrs, hstatus⟩ := h.thread
  obtain ⟨id, hid⟩ := debugRegister_slot slot.isLt
  refine ⟨User.drs thread.regs.data 6, id, ?_, hstatus, hid, ?_⟩
  · exact readRegister_drs hthread hdefined (rfl : debugRegister ((6 : Fin 8) : Nat) = .ok .dr6)
  · rw [← h.address hbefore howner hdrs]
    exact readRegister_drs hthread hdefined
      (hid : debugRegister ((slot.castLE (by decide) : Fin 8) : Nat) = .ok id)

/-- A site at the owner's address, of whatever kind, is taken for it. -/
theorem StopReports.finds_site (hbefore : Allocated before) (h : StopReports before m tid slot)
    (howner : m.Owns slot owner) {site : BreakpointSite}
    (hsite : m.process.breakpointSites.find? (fun site => site.address = owner.address) =
      some site) :
    getCurrentHardwareStoppoint tid m = (.ok (.inl site.id), m) := by
  obtain ⟨status, id, hstatus, hctz, hid, hread⟩ := h.reads hbefore howner
  rw [getCurrentHardwareStoppoint, bind_of_ok hstatus, hctz, bind_of_ok (ofExcept_apply (.ok _) m),
    hid]
  change (readRegister tid id >>= _) m = _
  rw [bind_of_ok hread, bind_of_ok (get_apply m), hsite]
  rfl

/-- With no site at the owner's address, the watchpoint there is taken for it. -/
theorem StopReports.finds_watchpoint (hbefore : Allocated before)
    (h : StopReports before m tid slot) (howner : m.Owns slot owner)
    (hnone : m.process.breakpointSites.find? (fun site => site.address = owner.address) = none)
    {index : Nat} (hindex : m.process.watchpoints.getByAddress owner.address = .ok index)
    {point : Watchpoint} (hpoint : m.process.watchpoints[index]? = some point) :
    getCurrentHardwareStoppoint tid m = (.ok (.inr point.id), m) := by
  obtain ⟨status, id, hstatus, hctz, hid, hread⟩ := h.reads hbefore howner
  rw [getCurrentHardwareStoppoint, bind_of_ok hstatus, hctz, bind_of_ok (ofExcept_apply (.ok _) m),
    hid]
  change (readRegister tid id >>= _) m = _
  rw [bind_of_ok hread, bind_of_ok (get_apply m), hnone]
  change (ofExcept (m.process.watchpoints.getByAddress owner.address) >>= _) m = _
  rw [hindex, bind_of_ok (ofExcept_apply (.ok index) m), hpoint]
  rfl

/-- A watchpoint is found by its address and by its identifier. -/
theorem Cataloged.position {point : Watchpoint} (h : Cataloged before)
    (hsame : m.process.watchpoints = before.process.watchpoints)
    (hpoint : point ∈ m.process.watchpoints) : ∃ index : Nat,
      m.process.watchpoints[index]? = some point ∧
      m.process.watchpoints.getByAddress point.address = .ok index ∧
      m.process.watchpoints.getById point.id = .ok index := by
  obtain ⟨index, hlt, hindex⟩ := List.mem_iff_getElem.mp hpoint
  have hat : m.process.watchpoints[index]? = some point :=
    List.getElem?_eq_some_iff.mpr ⟨hlt, hindex⟩
  have haddress : m.process.watchpoints.findByAddress point.address = some index :=
    findIdx?_of_nodup (hsame ▸ h.watched) hat
  have hid : m.process.watchpoints.findById point.id = some index :=
    findIdx?_of_nodup (hsame ▸ h.ids) hat
  refine ⟨index, hat, ?_, ?_⟩
  · rw [StoppointCollection.getByAddress, haddress]
  · rw [StoppointCollection.getById, hid]

/-- `watchpoint::update_data` notes the data that is in memory. -/
theorem updateData_eq {point : Watchpoint} {index : Nat}
    (hindex : m.process.watchpoints[index]? = some point)
    (hid : m.process.watchpoints.getById point.id = .ok index) {read : List Byte}
    (hread : readMemory m point.address point.size = .ok read) :
    updateData point.id m = (.ok ⟨⟩, m.setProcess fun p => { p with
      watchpoints := p.watchpoints.modify index fun w =>
        { w with previousData := w.data, data := BitVec.ofNat 64 (ofLe (read.take 8)) } }) := by
  rw [updateData, bind_of_ok (get_apply m), hid, bind_of_ok (ofExcept_apply (.ok index) m), hindex]
  change (ofExcept (readMemory m point.address point.size) >>= _) m = _
  rw [hread, bind_of_ok (ofExcept_apply (.ok read) m)]
  rfl

/-- A watchpoint that was found is updated when its stop is handled. -/
theorem handleTrap_updates {point : Watchpoint} {thread : ThreadState}
    (hthread : m.thread? tid = some thread) (hdefined : thread.regs.undefinedOffsets = [])
    (hfound : getCurrentHardwareStoppoint tid m = (.ok (.inr point.id), m)) {index : Nat}
    (hindex : m.process.watchpoints[index]? = some point)
    (hid : m.process.watchpoints.getById point.id = .ok index) {read : List Byte}
    (hread : readMemory m point.address point.size = .ok read) (handlers : HitHandlers)
    {reason : StopReason} (isMainStop : Bool) (htid : reason.tid = tid)
    (htrap : reason.trapReason = some .hardwareBreak) : ∃ m',
      handleTrap handlers reason isMainStop m = (.ok false, m') ∧
      m'.process.watchpoints[index]? = some { point with
        previousData := point.data, data := BitVec.ofNat 64 (ofLe (read.take 8)) } := by
  have hupdate := updateData_eq hindex hid hread
  have hrun : handleTrap handlers reason isMainStop m =
      (.ok false, (updateData point.id m).2) := by
    rw [handleTrap, htid, bind_of_ok (getPc_eq hthread hdefined), bind_of_ok (get_apply m),
      if_neg (by simp [htrap]), if_pos htrap, bind_of_ok hfound]
    change (updateData point.id >>= _) m = _
    rw [bind_of_ok hupdate, hupdate]
    rfl
  refine ⟨_, hrun, ?_⟩
  rw [hupdate]
  simp [Machine.setProcess, hindex]

/-- A stop is reported once the registers of its thread are read. -/
theorem readAllRegisters_reports {thread : ThreadState} (hthread : m.thread? tid = some thread)
    (hdefined : thread.regs.undefinedOffsets = []) (hstopped : m.isStopped tid = true)
    (htracked : (before.thread? tid).isSome = true)
    (hsites : m.process.breakpointSites = before.process.breakpointSites)
    (hpoints : m.process.watchpoints = before.process.watchpoints)
    (hdrs : ∀ other : Fin 4, User.drs (m.kernel.threads tid).user (other.castLE (by decide)) =
      (before.debugView tid).actual (other.castLE (by decide)))
    (hstatus : builtinCtzll (User.drs (m.kernel.threads tid).user 6) = .ok slot) :
    StopReports before (readAllRegisters tid m).2 tid slot := by
  have hload : readAllRegisters tid m = (.ok ⟨⟩, (updateThread tid (fun thread => { thread with
      regs := reload thread.regs (m.kernel.threads tid).user }) m).2) := by
    rw [readAllRegisters, bind_of_ok (threadAt_eq hthread), bind_of_ok (get_apply m),
      if_pos hstopped]
    rfl
  rw [hload]
  refine ⟨hsites, hpoints, htracked, ?_⟩
  refine ⟨{ thread with regs := reload thread.regs (m.kernel.threads tid).user }, ?_, hdefined,
    ?_, ?_⟩
  · rw [Machine.thread?_updateThread, hthread]
    rfl
  · intro other
    rw [User.drs_reload]
    exact hdrs other
  · rw [User.drs_reload]
    exact hstatus

/-- A stop by the debug registers is put down to the stoppoint that owns the slot, unless
that is a watchpoint and some site is at its address. -/
theorem getCurrentHardwareStoppoint_owner_iff {start : Machine} (hstart : Unarmed start)
    (hcatalog : Cataloged start) (ops : List HardwareOperation)
    (hstop : StopReports (performHardwareOperations ops start) m tid slot)
    (howner : m.Owns slot owner) :
    Identified m tid owner ↔ ∀ point, owner = .inr point →
      ∀ site ∈ m.process.breakpointSites, site.address ≠ point.address := by
  have hallocated : Allocated (performHardwareOperations ops start) :=
    (performHardwareOperations_allocated_uniform ops hstart.allocated hstart.uniform).1
  have hcataloged := performHardwareOperations_cataloged ops hcatalog
  have hsites : (m.process.breakpointSites.map (·.address)).Nodup := hstop.sites ▸ hcataloged.sites
  refine ⟨fun h point hpoint site hsite heq => ?_, fun h => ?_⟩
  · subst hpoint
    have hfind := find?_of_nodup hsites hsite
    rw [heq] at hfind
    have hfound := h.found
    rw [hstop.finds_site hallocated howner hfind] at hfound
    cases hfound
  · obtain ⟨thread, hthread, hdefined, -, -⟩ := hstop.thread
    cases owner with
    | inl site =>
        refine ⟨hstop.finds_site hallocated howner (find?_of_nodup hsites howner.1), ?_⟩
        intro point hpoint
        cases hpoint
    | inr point =>
        obtain ⟨index, hindex, haddress, hid⟩ := hcataloged.position hstop.watchpoints howner.1
        have hnone : m.process.breakpointSites.find?
            (fun site => site.address = SlotOwner.address (.inr point)) = none :=
          List.find?_eq_none.mpr fun site hsite hat =>
            h point rfl site hsite (of_decide_eq_true hat)
        have hfound := hstop.finds_watchpoint hallocated howner hnone haddress hindex
        refine ⟨hfound, fun other hother read hread handlers reason isMainStop htid htrap => ?_⟩
        cases hother
        obtain ⟨m', hrun, hnew⟩ := handleTrap_updates hthread hdefined hfound hindex hid hread
          handlers isMainStop htid htrap
        exact ⟨m', index, hrun, hindex, hnew⟩

end Owner

namespace StoppointOwnersWitness

open SlotAllocationWitness (machine machine_unarmed)

def watching : List HardwareOperation :=
  [.watchpoint (.create 0x1000 .readWrite 1), .watchpoint (.enable 0)]

/-- The watchpoint, with a software breakpoint at the watched address. -/
def covered : List HardwareOperation :=
  watching ++ [.site (.create 0x1000 false false), .site (.enable 0)]

/-- The first slot is hit. -/
def stopped (ops : List HardwareOperation) : Machine :=
  let before := performHardwareOperations ops machine
  (readAllRegisters 1 (before.setUser 1
    ((before.kernel.threads 1).user.write (debugregOffset + 6 * 8) (toLe 8 1)))).2

def watchpoint : Watchpoint := ⟨1, 0x1000, true, .readWrite, 1, 0, 0, 0⟩

theorem machine_cataloged : Cataloged machine where
  sites := List.nodup_nil
  watched := List.nodup_nil
  ids := List.nodup_nil
  fresh := by simp [machine, Machine.atRest, Machine.setProcess]

theorem watching_reports :
    StopReports (performHardwareOperations watching machine) (stopped watching) 1 0 := by
  exact readAllRegisters_reports rfl (by decide +kernel) (by decide +kernel) (by decide +kernel)
    rfl rfl (by decide +kernel) (by decide +kernel)

theorem covered_reports :
    StopReports (performHardwareOperations covered machine) (stopped covered) 1 0 := by
  exact readAllRegisters_reports rfl (by decide +kernel) (by decide +kernel) (by decide +kernel)
    rfl rfl (by decide +kernel) (by decide +kernel)

theorem watching_owns : (stopped watching).Owns 0 (.inr watchpoint) :=
  ⟨by decide +kernel, rfl, rfl⟩

theorem covered_owns : (stopped covered).Owns 0 (.inr watchpoint) :=
  ⟨by decide +kernel, rfl, rfl⟩

theorem covered_allocated : Allocated (performHardwareOperations covered machine) :=
  (performHardwareOperations_allocated_uniform covered machine_unarmed.allocated
    machine_unarmed.uniform).1

theorem covered_site : (stopped covered).process.breakpointSites.find?
    (fun site => site.address = watchpoint.address) =
      some ⟨none, 1, 0x1000, true, 0, false, false, -1⟩ := by
  decide +kernel

theorem getCurrentHardwareStoppoint_owner_iff_watching :
    Identified (stopped watching) 1 (.inr watchpoint) :=
  (getCurrentHardwareStoppoint_owner_iff machine_unarmed machine_cataloged watching
    watching_reports watching_owns).mpr fun _ _ site hsite =>
      absurd hsite (by simp [show (stopped watching).process.breakpointSites = [] from rfl])

/-- With a software breakpoint at the watched address, the stop goes to the breakpoint and
the watchpoint keeps its data. -/
theorem covered_found_site :
    Unarmed machine ∧ Cataloged machine ∧
      StopReports (performHardwareOperations covered machine) (stopped covered) 1 0 ∧
      (stopped covered).Owns 0 (.inr watchpoint) ∧
      (getCurrentHardwareStoppoint 1 (stopped covered)).1 = .ok (.inl 1) ∧
      (∀ (handlers : HitHandlers) (reason : StopReason), reason.tid = 1 →
        reason.trapReason = some .hardwareBreak →
        handleTrap handlers reason true (stopped covered) = (.ok false, stopped covered)) ∧
      ¬ Identified (stopped covered) 1 (.inr watchpoint) := by
  have hfound : (getCurrentHardwareStoppoint 1 (stopped covered)).1 = .ok (.inl 1) := by
    decide +kernel
  refine ⟨machine_unarmed, machine_cataloged, covered_reports, covered_owns, hfound, ?_, ?_⟩
  · intro handlers reason htid htrap
    obtain ⟨thread, hthread, hdefined, hdrs, hstatus⟩ := covered_reports.thread
    exact handleTrap_hardware hthread hdefined htid htrap hstatus
      (covered_reports.address covered_allocated covered_owns hdrs) covered_site
  · intro h
    have hother := congrArg Prod.fst h.found
    rw [hfound] at hother
    cases hother

end StoppointOwnersWitness

end Gsdb
