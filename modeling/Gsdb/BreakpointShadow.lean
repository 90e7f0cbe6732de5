/-
The shadow invariant of software breakpoints.  Enabling a site reads the eight
bytes at its address, trap bytes of neighbouring sites included, and writes
them back with the first one replaced; the invariant is about all sites at
once, and every operation on sites carries it, whether it returns or throws.
-/
import Gsdb.BreakpointSites
import Mathlib.Data.List.TakeWhile

namespace Gsdb

open ByteMemory Effects Eff Debugger

theorem withLowByte_eq (data : Word) (byte : Byte) :
    withLowByte data byte = ((data >>> 8) <<< 8) ||| byte.setWidth 64 := by
  have hmask : ∀ j : Fin 64, (0xff : Word).getLsbD j = decide ((j : Nat) < 8) := by decide
  apply BitVec.eq_of_getLsbD_eq
  intro i hi
  have hbit : (0xff : Word).getLsbD i = decide (i < 8) := hmask ⟨i, hi⟩
  rw [withLowByte, BitVec.getLsbD_or, BitVec.getLsbD_or, BitVec.getLsbD_and,
    BitVec.getLsbD_not, hbit]
  by_cases hlow : i < 8
  · simp [hlow, hi]
  · simp [hlow, hi, Nat.add_sub_cancel' (Nat.le_of_not_lt hlow)]

theorem withLowByte_toNat (data : Word) (byte : Byte) :
    (withLowByte data byte).toNat = byte.toNat + 256 * (data.toNat / 256) := by
  have hbyte := byte.isLt
  have hdata := data.isLt
  rw [withLowByte_eq, BitVec.toNat_or, BitVec.toNat_shiftLeft, BitVec.toNat_ushiftRight,
    BitVec.toNat_setWidth, Nat.mod_eq_of_lt (a := byte.toNat) (by omega),
    Nat.shiftRight_eq_div_pow, Nat.mod_eq_of_lt, ← Nat.shiftLeft_add_eq_or_of_lt (by omega)]
  · simp [Nat.shiftLeft_eq]; omega
  · simp [Nat.shiftLeft_eq]; omega

theorem toLe_withLowByte (bytes : List Byte) (head byte : Byte) (h : bytes.length = 7) :
    toLe 8 (withLowByte (BitVec.ofNat 64 (ofLe (head :: bytes))) byte).toNat = byte :: bytes := by
  have hlt := ofLe_lt (head :: bytes)
  have hhead := head.isLt
  have hbyte := byte.isLt
  rw [withLowByte_toNat, BitVec.toNat_ofNat]
  simp only [List.length_cons, h] at hlt
  rw [Nat.mod_eq_of_lt (by simpa using hlt)]
  have hdiv : ofLe (head :: bytes) / 256 = ofLe bytes := by
    simp only [ofLe]; omega
  rw [hdiv]
  have := toLe_ofLe (byte :: bytes)
  simpa [ofLe, h] using this

/-- A site whose trap byte is meant to be in memory. -/
def BreakpointSite.armed (site : BreakpointSite) : Bool := site.isEnabled && !site.isHardware

/-- Memory is the original memory with a trap byte at every armed site, and
every armed site keeps the byte it covers. -/
structure ShadowOf (original memory : Memory 64) (sites : List BreakpointSite) : Prop where
  distinct : (sites.map BreakpointSite.address).Nodup
  armed : ∀ site ∈ sites, site.armed = true →
    memory site.address = int3 ∧ site.savedData = original site.address
  plain : ∀ address, (∀ site ∈ sites, site.armed = true → site.address ≠ address) →
    memory address = original address

namespace ShadowOf

variable {original memory : Memory 64} {sites rest : List BreakpointSite}
  {site new : BreakpointSite}

theorem perm {other : List BreakpointSite} (h : ShadowOf original memory sites)
    (hperm : sites.Perm other) : ShadowOf original memory other where
  distinct := (hperm.map _).nodup_iff.mp h.distinct
  armed s hs := h.armed s (hperm.mem_iff.mpr hs)
  plain a ha := h.plain a fun s hs => ha s (hperm.mem_iff.mp hs)

theorem address_ne_of_mem_rest (h : ShadowOf original memory (site :: rest))
    {other : BreakpointSite} (hother : other ∈ rest) : other.address ≠ site.address := by
  intro heq
  have hdistinct := h.distinct
  rw [List.map_cons, List.nodup_cons] at hdistinct
  exact hdistinct.1 (heq ▸ List.mem_map_of_mem hother)

theorem distinct_replace (h : ShadowOf original memory (site :: rest))
    (haddress : new.address = site.address) :
    ((new :: rest).map BreakpointSite.address).Nodup := by
  simpa [haddress] using h.distinct

/-- Nothing about a site without a trap byte matters except its address. -/
theorem replace_unarmed (h : ShadowOf original memory (site :: rest))
    (haddress : new.address = site.address) (hsite : site.armed = false)
    (hnew : new.armed = false) : ShadowOf original memory (new :: rest) where
  distinct := h.distinct_replace haddress
  armed s hs harmed := by
    rcases List.mem_cons.mp hs with rfl | hrest
    · simp [hnew] at harmed
    · exact h.armed s (List.mem_cons_of_mem _ hrest) harmed
  plain a ha := by
    apply h.plain a
    intro s hs harmed
    rcases List.mem_cons.mp hs with rfl | hrest
    · simp [hsite] at harmed
    · exact ha s (List.mem_cons_of_mem _ hrest) harmed

/-- Putting the trap byte in and remembering the byte it covers. -/
theorem arm (h : ShadowOf original memory (site :: rest))
    (haddress : new.address = site.address) (hsite : site.armed = false)
    (hnew : new.armed = true) (hsaved : new.savedData = memory site.address) :
    ShadowOf original (Function.update memory site.address int3) (new :: rest) where
  distinct := h.distinct_replace haddress
  armed s hs harmed := by
    rcases List.mem_cons.mp hs with rfl | hrest
    · have horiginal : memory site.address = original site.address := by
        apply h.plain
        intro other hother harmed
        rcases List.mem_cons.mp hother with rfl | hrest
        · simp [hsite] at harmed
        · exact h.address_ne_of_mem_rest hrest
      simp [haddress, hsaved, horiginal]
    · rw [Function.update_of_ne (h.address_ne_of_mem_rest hrest)]
      exact h.armed s (List.mem_cons_of_mem _ hrest) harmed
  plain a ha := by
    have hne : a ≠ site.address := by
      intro heq
      exact ha new List.mem_cons_self hnew (haddress.trans heq.symm)
    rw [Function.update_of_ne hne]
    apply h.plain a
    intro s hs harmed
    rcases List.mem_cons.mp hs with rfl | hrest
    · simp [hsite] at harmed
    · exact ha s (List.mem_cons_of_mem _ hrest) harmed

/-- Writing the covered byte back. -/
theorem disarm (h : ShadowOf original memory (site :: rest))
    (haddress : new.address = site.address) (hsite : site.armed = true)
    (hnew : new.armed = false) :
    ShadowOf original (Function.update memory site.address site.savedData) (new :: rest) where
  distinct := h.distinct_replace haddress
  armed s hs harmed := by
    rcases List.mem_cons.mp hs with rfl | hrest
    · simp [hnew] at harmed
    · rw [Function.update_of_ne (h.address_ne_of_mem_rest hrest)]
      exact h.armed s (List.mem_cons_of_mem _ hrest) harmed
  plain a ha := by
    by_cases heq : a = site.address
    · subst heq
      rw [Function.update_self]
      exact (h.armed site List.mem_cons_self hsite).2
    · rw [Function.update_of_ne heq]
      apply h.plain a
      intro s hs harmed
      rcases List.mem_cons.mp hs with rfl | hrest
      · exact fun hcontra => heq hcontra.symm
      · exact ha s (List.mem_cons_of_mem _ hrest) harmed

theorem add_unarmed (h : ShadowOf original memory sites)
    (hfresh : ∀ s ∈ sites, s.address ≠ new.address) (hnew : new.armed = false) :
    ShadowOf original memory (new :: sites) where
  distinct := by
    rw [List.map_cons, List.nodup_cons]
    refine ⟨?_, h.distinct⟩
    rintro hmem
    obtain ⟨s, hs, heq⟩ := List.mem_map.mp hmem
    exact hfresh s hs heq
  armed s hs harmed := by
    rcases List.mem_cons.mp hs with rfl | hrest
    · simp [hnew] at harmed
    · exact h.armed s hrest harmed
  plain a ha := h.plain a fun s hs => ha s (List.mem_cons_of_mem _ hs)

theorem drop_unarmed (h : ShadowOf original memory (site :: rest))
    (hsite : site.armed = false) : ShadowOf original memory rest where
  distinct := (List.nodup_cons.mp (by simpa using h.distinct)).2
  armed s hs := h.armed s (List.mem_cons_of_mem _ hs)
  plain a ha := by
    apply h.plain a
    intro s hs harmed
    rcases List.mem_cons.mp hs with rfl | hrest
    · simp [hsite] at harmed
    · exact ha s hrest harmed

end ShadowOf

/-- A position splits a collection into its stoppoint and the others; updating
or erasing the position leaves the others alone. -/
theorem exists_rest_of_getElem? {S : Type} {points : StoppointCollection S} {index : Nat}
    {point : S} (h : points[index]? = some point) :
    ∃ rest : List S, points.Perm (point :: rest) ∧ (points.eraseIdx index).Perm rest ∧
      ∀ f, (points.modify index f).Perm (f point :: rest) := by
  obtain ⟨hlt, rfl⟩ := List.getElem?_eq_some_iff.mp h
  refine ⟨points.take index ++ points.drop (index + 1), ?_, ?_, fun f => ?_⟩
  · conv_lhs => rw [← List.take_append_drop index points, List.drop_eq_getElem_cons hlt]
    exact List.perm_middle
  · rw [List.eraseIdx_eq_take_drop_succ]
  · rw [List.modify_eq_take_cons_drop hlt]
    exact List.perm_middle

def Shadow (original : Memory 64) (m : Machine) : Prop :=
  ShadowOf original m.kernel.memory m.process.breakpointSites

theorem Shadow.of_untouched {original : Memory 64} {m m' : Machine}
    (h : Shadow original m) (hsame : Untouched m m') : Shadow original m' := by
  unfold Shadow
  rw [hsame.memory, hsame.sites]
  exact h

theorem updateSite_apply (index : Nat) (f : BreakpointSite → BreakpointSite) (m : Machine) :
    updateSite index f m = (.ok ⟨⟩, m.setProcess fun p =>
      { p with breakpointSites := p.breakpointSites.modify index f }) := rfl

/-- The word at an address with its first byte replaced, written back, changes
that one byte. -/
theorem write_withLowByte (memory : Memory 64) (address : Word) (byte : Byte) :
    memory.write address
        (toLe 8 (withLowByte (BitVec.ofNat 64 (ofLe (memory.read address 8))) byte).toNat) =
      Function.update memory address byte := by
  have hread : memory.read address 8 = memory address :: memory.read (address + 1) 7 := rfl
  rw [hread, toLe_withLowByte _ _ _ (by simp), Memory.write_head]

theorem setWidth_ofLe_read (memory : Memory 64) (address : Word) :
    (BitVec.ofNat 64 (ofLe (memory.read address 8))).setWidth 8 = memory address := by
  have hbyte := (memory address).isLt
  apply BitVec.eq_of_toNat_eq
  have hread : ofLe (memory.read address 8) =
      (memory address).toNat + 256 * ofLe (memory.read (address + 1) 7) := rfl
  rw [hread, BitVec.toNat_setWidth, BitVec.toNat_ofNat]
  omega

section Words

variable {m : Machine} {address : Word} {index : Nat} {site : BreakpointSite}

theorem peekData_mapped (hstopped : m.isStopped m.process.pid = true)
    (hmapped : m.wordMapped address = true) (what : String) :
    peekData address what m =
      (.ok (BitVec.ofNat 64 (ofLe (m.kernel.memory.read address 8))), m) := by
  rw [peekData, bind_of_ok (get_apply m), if_pos ⟨hstopped, hmapped⟩]
  rfl

theorem peekData_refused (h : ¬ (m.isStopped m.process.pid = true ∧ m.wordMapped address = true))
    (what : String) : peekData address what m = (.error (.errno what), m) := by
  rw [peekData, bind_of_ok (get_apply m), if_neg h]
  rfl

theorem pokeData_mapped (hstopped : m.isStopped m.process.pid = true)
    (hmapped : m.wordMapped address = true) (data : Word) (what : String) :
    pokeData address data what m =
      (.ok ⟨⟩, m.setMemory (m.kernel.memory.write address (toLe 8 data.toNat))) := by
  rw [pokeData, bind_of_ok (get_apply m), if_pos ⟨hstopped, hmapped⟩]
  rfl

theorem pokeData_refused (h : ¬ (m.isStopped m.process.pid = true ∧ m.wordMapped address = true))
    (data : Word) (what : String) : pokeData address data what m = (.error (.errno what), m) := by
  rw [pokeData, bind_of_ok (get_apply m), if_neg h]
  rfl

/-- A peek either fails and changes nothing or returns the word in memory. -/
theorem peekData_cases (address : Word) (what : String) (m : Machine) :
    peekData address what m = (.error (.errno what), m) ∨
      peekData address what m =
        (.ok (BitVec.ofNat 64 (ofLe (m.kernel.memory.read address 8))), m) := by
  by_cases h : m.isStopped m.process.pid = true ∧ m.wordMapped address = true
  · exact .inr (peekData_mapped h.1 h.2 what)
  · exact .inl (peekData_refused h what)

/-- A poke either fails and changes nothing or writes the word to memory. -/
theorem pokeData_cases (address data : Word) (what : String) (m : Machine) :
    pokeData address data what m = (.error (.errno what), m) ∨
      pokeData address data what m =
        (.ok ⟨⟩, m.setMemory (m.kernel.memory.write address (toLe 8 data.toNat))) := by
  by_cases h : m.isStopped m.process.pid = true ∧ m.wordMapped address = true
  · exact .inr (pokeData_mapped h.1 h.2 data what)
  · exact .inl (pokeData_refused h data what)

theorem siteAt_eq (h : m.process.breakpointSites[index]? = some site) :
    siteAt index m = (.ok site, m) := by
  simp [siteAt, h]

/-- A software site over mapped memory is enabled. -/
theorem enableSite_software (hsite : m.process.breakpointSites[index]? = some site)
    (hdisabled : site.isEnabled = false) (hsoftware : site.isHardware = false)
    (hstopped : m.isStopped m.process.pid = true) (hmapped : m.wordMapped site.address = true) :
    enableSite index m = (.ok ⟨⟩,
      (m.setMemory (Function.update m.kernel.memory site.address int3)).setProcess fun p =>
        { p with breakpointSites := p.breakpointSites.modify index fun s =>
          { s with isEnabled := true, savedData := m.kernel.memory site.address } }) := by
  rw [enableSite, bind_of_ok (siteAt_eq hsite), if_neg (by simp [hdisabled]),
    if_neg (by simp [hsoftware]), bind_of_ok (peekData_mapped hstopped hmapped _),
    bind_of_ok (updateSite_apply _ _ _)]
  have hpoke := pokeData_mapped (m := m.setProcess fun p => { p with
      breakpointSites := p.breakpointSites.modify index fun s => { s with
        savedData := (BitVec.ofNat 64 (ofLe (m.kernel.memory.read site.address 8))).setWidth 8 } })
    hstopped hmapped (withLowByte (BitVec.ofNat 64 (ofLe (m.kernel.memory.read site.address 8)))
      int3) "Enabling breakpoint site failed!"
  rw [bind_of_ok hpoke]
  simp only [updateSite_apply, Machine.setProcess, Machine.setMemory, write_withLowByte,
    setWidth_ofLe_read, List.modify_modify_eq]
  rfl

/-- A software site over mapped memory is disabled. -/
theorem disableSite_software (hsite : m.process.breakpointSites[index]? = some site)
    (henabled : site.isEnabled = true) (hsoftware : site.isHardware = false)
    (hstopped : m.isStopped m.process.pid = true) (hmapped : m.wordMapped site.address = true) :
    disableSite index m = (.ok ⟨⟩,
      (m.setMemory (Function.update m.kernel.memory site.address site.savedData)).setProcess
          fun p =>
        { p with breakpointSites := p.breakpointSites.modify index fun s =>
          { s with isEnabled := false } }) := by
  rw [disableSite, bind_of_ok (siteAt_eq hsite), if_neg (by simp [henabled]),
    if_neg (by simp [hsoftware]), bind_of_ok (peekData_mapped hstopped hmapped _),
    bind_of_ok (pokeData_mapped hstopped hmapped _ _)]
  simp only [updateSite_apply, Machine.setProcess, Machine.setMemory, write_withLowByte]

end Words

private theorem setHardwareBreakpoint_untouched {address : Word} {m m' : Machine}
    {outcome : Except Failure Int} (h : setHardwareBreakpoint address m = (outcome, m')) :
    Untouched m m' := by
  have hset : setHardwareStoppoint address .execute 1 m = (outcome, m') := h
  simpa [hset] using
    debugRegisterFrame_untouched.setHardwareStoppoint (fun _ _ _ => ⟨rfl, rfl, rfl, rfl⟩) address
      .execute 1 m

private theorem untouched_of_clear {index : Int} {m m' : Machine}
    {outcome : Except Failure PUnit} (h : clearHardwareStoppoint index m = (outcome, m')) :
    Untouched m m' := by
  simpa [h] using debugRegisterFrame_untouched.clearHardwareStoppoint
    (fun _ _ _ => ⟨rfl, rfl, rfl, rfl⟩) index m

theorem enableSite_shadow (original : Memory 64) (index : Nat) :
    Respects (Carries (Shadow original)) (enableSite index) := by
  intro m hm
  cases hsite : m.process.breakpointSites[index]? with
  | none =>
      have hat : siteAt index m = (.error (.undefined "dangling breakpoint site"), m) := by
        simp [siteAt, hsite]
      rw [enableSite, bind_of_error hat]
      exact hm
  | some site =>
      have hat : siteAt index m = (.ok site, m) := by simp [siteAt, hsite]
      obtain ⟨rest, hperm, -, hmodify⟩ := exists_rest_of_getElem? hsite
      rw [enableSite, bind_of_ok hat]
      by_cases henabled : site.isEnabled = true
      · simpa [henabled] using hm
      have hunarmed : site.armed = false := by simp [BreakpointSite.armed, henabled]
      have hcons := ShadowOf.perm hm hperm
      rw [if_neg henabled]
      by_cases hhard : site.isHardware = true
      · rw [if_pos hhard]
        rcases hset : setHardwareBreakpoint site.address m with ⟨e | slot, m'⟩
        · rw [bind_of_error hset]
          exact Shadow.of_untouched hm (setHardwareBreakpoint_untouched hset)
        · have hsame := setHardwareBreakpoint_untouched hset
          rw [bind_of_ok hset, bind_of_ok (updateSite_apply _ _ _)]
          simp only [Shadow, updateSite_apply, Machine.setProcess, hsame.memory, hsame.sites,
            List.modify_modify_eq]
          refine ShadowOf.perm ?_ (hmodify _).symm
          exact hcons.replace_unarmed rfl hunarmed (by simp [BreakpointSite.armed, hhard])
      · rw [if_neg hhard]
        rcases peekData_cases site.address "Enabling breakpoint site failed!" m with
          hpeek | hpeek
        · rw [bind_of_error hpeek]
          exact hm
        · rw [bind_of_ok hpeek, bind_of_ok (updateSite_apply _ _ _), setWidth_ofLe_read]
          rcases pokeData_cases site.address _ "Enabling breakpoint site failed!" _ with
            hpoke | hpoke
          · rw [bind_of_error hpoke]
            refine ShadowOf.perm ?_ (hmodify _).symm
            exact hcons.replace_unarmed rfl hunarmed (by simp [BreakpointSite.armed, henabled])
          · rw [bind_of_ok hpoke]
            simp only [Shadow, updateSite_apply, Machine.setProcess, Machine.setMemory,
              List.modify_modify_eq, write_withLowByte]
            refine ShadowOf.perm ?_ (hmodify _).symm
            exact hcons.arm rfl hunarmed (by simp [BreakpointSite.armed, hhard]) rfl

theorem disableSite_shadow (original : Memory 64) (index : Nat) :
    Respects (Carries (Shadow original)) (disableSite index) := by
  intro m hm
  cases hsite : m.process.breakpointSites[index]? with
  | none =>
      have hat : siteAt index m = (.error (.undefined "dangling breakpoint site"), m) := by
        simp [siteAt, hsite]
      rw [disableSite, bind_of_error hat]
      exact hm
  | some site =>
      have hat : siteAt index m = (.ok site, m) := by simp [siteAt, hsite]
      obtain ⟨rest, hperm, -, hmodify⟩ := exists_rest_of_getElem? hsite
      rw [disableSite, bind_of_ok hat]
      by_cases henabled : site.isEnabled = true
      case neg => simpa [henabled] using hm
      have hcons := ShadowOf.perm hm hperm
      rw [if_neg (by simp [henabled])]
      by_cases hhard : site.isHardware = true
      · rw [if_pos hhard]
        have hunarmed : site.armed = false := by simp [BreakpointSite.armed, hhard]
        rcases hclear : clearHardwareStoppoint site.hardwareRegisterIndex m with ⟨e | _, m'⟩
        · rw [bind_of_error hclear]
          exact Shadow.of_untouched hm (untouched_of_clear hclear)
        · have hsame := untouched_of_clear hclear
          rw [bind_of_ok hclear, bind_of_ok (updateSite_apply _ _ _)]
          simp only [Shadow, updateSite_apply, Machine.setProcess, hsame.memory, hsame.sites,
            List.modify_modify_eq]
          refine ShadowOf.perm ?_ (hmodify _).symm
          exact hcons.replace_unarmed rfl hunarmed (by simp [BreakpointSite.armed])
      · rw [if_neg hhard]
        have harmed : site.armed = true := by simp [BreakpointSite.armed, henabled, hhard]
        rcases peekData_cases site.address "Disabling breakpoint site failed!" m with
          hpeek | hpeek
        · rw [bind_of_error hpeek]
          exact hm
        · rw [bind_of_ok hpeek]
          rcases pokeData_cases site.address _ "Disabling breakpoint site failed!" m with
            hpoke | hpoke
          · rw [bind_of_error hpoke]
            exact hm
          · rw [bind_of_ok hpoke]
            simp only [Shadow, updateSite_apply, Machine.setProcess, Machine.setMemory,
              write_withLowByte]
            refine ShadowOf.perm ?_ (hmodify _).symm
            exact hcons.disarm rfl harmed (by simp [BreakpointSite.armed])

theorem pushSite_shadow (original : Memory 64) (address : Word)
    (site : Process → BreakpointSite × Process)
    (hnew : ∀ p, (site p).1.address = address ∧ (site p).1.isEnabled = false)
    (hsites : ∀ p, (site p).2.breakpointSites = p.breakpointSites) :
    Respects (Carries (Shadow original)) (pushSite address site) := by
  intro m hm
  rw [pushSite, bind_of_ok (get_apply m)]
  by_cases hthere : m.process.breakpointSites.containsAddress address = true
  · simpa [hthere, fail] using hm
  · rw [if_neg hthere]
    have hfresh := StoppointCollection.containsAddress_eq_false (by simpa using hthere)
    change ShadowOf original m.kernel.memory
      ((site m.process).2.breakpointSites ++ [(site m.process).1])
    rw [hsites]
    refine ShadowOf.perm (ShadowOf.add_unarmed hm ?_ ?_) (List.perm_append_singleton _ _).symm
    · intro s hs
      simpa [Stoppoint.atAddress, (hnew m.process).1] using hfresh s hs
    · simp [BreakpointSite.armed, (hnew m.process).2]

/-- Clearing the enabled flag is the last thing `disable` does. -/
private theorem updateSite_disabled {index : Nat} {m m' : Machine} {u : PUnit}
    (h : updateSite index (fun s => { s with isEnabled := false }) m = (.ok u, m')) :
    ∀ site, m'.process.breakpointSites[index]? = some site → site.isEnabled = false := by
  intro site hsite
  cases h
  change (m.process.breakpointSites.modify index _)[index]? = some site at hsite
  rw [List.getElem?_modify_eq] at hsite
  obtain ⟨old, -, rfl⟩ := Option.map_eq_some_iff.mp hsite
  rfl

/-- A site that `disable` returned from is disabled. -/
theorem disableSite_disabled {index : Nat} {m m' : Machine} {u : PUnit}
    (h : disableSite index m = (.ok u, m')) :
    ∀ site, m'.process.breakpointSites[index]? = some site → site.isEnabled = false := by
  obtain ⟨site, middle, hat, hrest⟩ := Eff.bind_eq_ok.mp h
  have hmiddle : m = middle := congrArg Prod.snd hat
  subst hmiddle
  by_cases henabled : site.isEnabled = true
  · rw [if_neg (by simp [henabled])] at hrest
    by_cases hhard : site.isHardware = true
    · rw [if_pos hhard] at hrest
      obtain ⟨_, _, -, hupdates⟩ := Eff.bind_eq_ok.mp hrest
      obtain ⟨_, _, -, hlast⟩ := Eff.bind_eq_ok.mp hupdates
      exact updateSite_disabled hlast
    · rw [if_neg hhard] at hrest
      obtain ⟨_, _, -, hpoke⟩ := Eff.bind_eq_ok.mp hrest
      obtain ⟨_, _, -, hlast⟩ := Eff.bind_eq_ok.mp hpoke
      exact updateSite_disabled hlast
  · rw [if_pos (by simpa using henabled)] at hrest
    cases hrest
    intro other hother
    have hfirst := congrArg Prod.fst hat
    simp only [siteAt, asks_apply, hother, Except.ok.injEq] at hfirst
    simp [hfirst, henabled]

theorem removeSite_shadow (original : Memory 64) (index : Option Nat) :
    Respects (Carries (Shadow original)) (removeSite index) := by
  intro m hm
  cases index with
  | none => exact hm
  | some index =>
      have hdisabled := disableSite_shadow original index m hm
      rw [removeSite]
      rcases hdisable : disableSite index m with ⟨e | u, m'⟩
      · rw [bind_of_error hdisable]
        simpa [hdisable] using hdisabled
      · rw [bind_of_ok hdisable]
        rw [hdisable] at hdisabled
        change ShadowOf original m'.kernel.memory (m'.process.breakpointSites.eraseIdx index)
        cases hsite : m'.process.breakpointSites[index]? with
        | none =>
            rw [List.eraseIdx_of_length_le (List.getElem?_eq_none_iff.mp hsite)]
            exact hdisabled
        | some site =>
            obtain ⟨rest, hperm, herase, -⟩ := exists_rest_of_getElem? hsite
            have hcons := ShadowOf.perm hdisabled hperm
            have hunarmed : site.armed = false := by
              simp [BreakpointSite.armed, disableSite_disabled hdisable site hsite]
            exact (hcons.drop_unarmed hunarmed).perm herase.symm

/-- Every operation on sites carries the shadow invariant. -/
theorem SiteOperation.run_shadow (original : Memory 64) (op : SiteOperation) :
    Respects (Carries (Shadow original)) op.run := by
  refine Respects.bind (op.touch_respects fun _ _ h => h) fun _ => ?_
  cases op with
  | create address hardware internal =>
      refine Respects.bind (pushSite_shadow original address _ ?_ ?_) fun _ => Respects.pure _
      · intro p
        cases internal <;> exact ⟨rfl, rfl⟩
      · intro p
        cases internal <;> rfl
  | createFor parent id address hardware internal =>
      exact Respects.bind (pushSite_shadow original address _ (fun _ => ⟨rfl, rfl⟩)
        fun _ => rfl) fun _ => Respects.pure _
  | enable index => exact enableSite_shadow original index
  | disable index => exact disableSite_shadow original index
  | removeById id =>
      exact Respects.bind Respects.get fun m => removeSite_shadow original _
  | removeByAddress address =>
      exact Respects.bind Respects.get fun m => removeSite_shadow original _

theorem Shadow.start {m : Machine} (h : m.process.breakpointSites = []) :
    Shadow m.kernel.memory m := by
  unfold Shadow
  rw [h]
  exact ⟨List.nodup_nil, by simp, fun _ _ => rfl⟩

/-- What is mapped, and how much one read may transfer, is not for the
operations on sites to change. -/
def Layout (m : Machine) : (Word → Bool) × Nat := (m.kernel.mapped, m.kernel.iovMax)

theorem siteFrame_layout : SiteFrame true (Fixes Layout) where
  slots := fun _ _ _ _ _ => .inl fun _ _ id val _ =>
    writeRegister_respects (fun _ _ => rfl) (fun _ _ => rfl) id val true
  memory := fun _ _ => rfl
  update := fun _ _ _ _ => rfl
  push := fun _ _ _ _ => rfl
  erase := fun _ _ => rfl
  note := fun _ _ _ => rfl

/-- The addresses of a range are all mapped. -/
def RangeMapped (kernel : Kernel) (address : Word) (amount : Nat) : Prop :=
  ∀ i < amount, kernel.mapped (address + BitVec.ofNat 64 i) = true

/-- The parts of a mapped range are mapped. -/
theorem RangeMapped.part {kernel : Kernel} {address : Word} {size offset amount : Nat}
    (h : RangeMapped kernel address size) (hle : offset + amount ≤ size) :
    RangeMapped kernel (address + BitVec.ofNat 64 offset) amount := by
  intro i hi
  have hmapped := h (offset + i) (by omega)
  rwa [BitVec.ofNat_add, ← BitVec.add_assoc] at hmapped

theorem chunk_pos (address : Word) : 0 < 0x1000 - (address &&& 0xfff).toNat := by
  have hlt : (address &&& 0xfff).toNat ≤ 0xfff := by
    rw [BitVec.toNat_and]
    exact Nat.and_le_right
  omega

/-- The descriptors cover the range in order, and are readable when it is. -/
theorem remoteDescsLoop_spec (kernel : Kernel) (rounds : Nat) (address : Word) (amount : Nat)
    (hrounds : amount ≤ rounds) (hmapped : RangeMapped kernel address amount) :
    (remoteDescsLoop rounds address amount).all (·.readable kernel) = true ∧
      (remoteDescsLoop rounds address amount).flatMap
        (fun iov => kernel.memory.read iov.base iov.len) = kernel.memory.read address amount := by
  induction rounds generalizing address amount with
  | zero =>
      obtain rfl : amount = 0 := by omega
      exact ⟨rfl, rfl⟩
  | succ rounds ih =>
      by_cases hzero : amount = 0
      · subst hzero
        exact ⟨rfl, rfl⟩
      have hpos := chunk_pos address
      simp only [remoteDescsLoop, if_neg hzero, List.all_cons, Bool.and_eq_true,
        List.flatMap_cons]
      generalize hchunk : min amount (0x1000 - (address &&& 0xfff).toNat) = chunk
      have hle : chunk ≤ amount := by omega
      have hrest : RangeMapped kernel (address + BitVec.ofNat 64 chunk) (amount - chunk) :=
        hmapped.part (by omega)
      obtain ⟨hreadable, hbytes⟩ := ih _ _ (by omega) hrest
      refine ⟨⟨?_, hreadable⟩, ?_⟩
      · simp only [Iovec.readable, List.all_eq_true, List.mem_range]
        exact fun i hi => hmapped i (by omega)
      · rw [hbytes, ← Memory.read_append, Nat.add_sub_cancel' hle]

/-- A mapped range that fits in one transfer is read as it is. -/
theorem readMemory_eq {m : Machine} {address : Word} {amount : Nat}
    (hmapped : RangeMapped m.kernel address amount)
    (hfits : (remoteDescs address amount).length ≤ m.kernel.iovMax) :
    readMemory m address amount = .ok (m.kernel.memory.read address amount) := by
  obtain ⟨hreadable, hbytes⟩ :=
    remoteDescsLoop_spec m.kernel amount address amount (Nat.le_refl _) hmapped
  have hall : (remoteDescs address amount).takeWhile (·.readable m.kernel) =
      remoteDescs address amount :=
    List.takeWhile_eq_self_iff.mpr (List.all_eq_true.mp hreadable)
  have htransfer : processVmReadv m.kernel (remoteDescs address amount) =
      some (m.kernel.memory.read address amount) := by
    rw [processVmReadv, if_neg (by omega), hall, if_neg (by tauto)]
    exact congrArg some hbytes
  simp [readMemory, htransfer]

/-- Patching a buffer with the right byte at every position that may differ
gives the intended contents. -/
theorem foldl_patch_eq {target : List Byte} (address : Word) (sites : List BreakpointSite)
    (buffer : List Byte) (hlength : buffer.length = target.length)
    (hsaved : ∀ site ∈ sites, site.armed = true →
      target[(site.address - address).toNat]? = some site.savedData)
    (hother : ∀ i, buffer[i]? = target[i]? ∨
      ∃ site ∈ sites, site.armed = true ∧ (site.address - address).toNat = i) :
    sites.foldl (fun memory site =>
      if !site.isEnabled || site.isHardware then memory
      else memory.set (site.address - address).toNat site.savedData) buffer = target := by
  induction sites generalizing buffer with
  | nil =>
      apply List.ext_getElem?
      intro i
      simpa using hother i
  | cons site rest ih =>
      rw [List.foldl_cons]
      by_cases harmed : site.armed = true
      · have hset : (!site.isEnabled || site.isHardware) = false := by
          simpa [BreakpointSite.armed] using harmed
        rw [if_neg (by simp [hset])]
        refine ih _ (by simpa using hlength)
          (fun s hs => hsaved s (List.mem_cons_of_mem _ hs)) fun i => ?_
        have hbyte := hsaved site List.mem_cons_self harmed
        by_cases hi : (site.address - address).toNat = i
        · left
          have hlt : (site.address - address).toNat < buffer.length := by
            rw [hlength]
            exact (List.getElem?_eq_some_iff.mp hbyte).1
          subst hi
          rw [List.getElem?_set_self hlt, hbyte]
        · rcases hother i with heq | ⟨s, hs, hsarmed, hsi⟩
          · left
            rw [List.getElem?_set_ne hi, heq]
          · rcases List.mem_cons.mp hs with rfl | hrest
            · exact absurd hsi hi
            · exact .inr ⟨s, hrest, hsarmed, hsi⟩
      · have hskip : (!site.isEnabled || site.isHardware) = true := by
          simp only [BreakpointSite.armed, Bool.and_eq_true, Bool.not_eq_true'] at harmed
          cases hon : site.isEnabled <;> simp_all
        rw [if_pos hskip]
        refine ih _ hlength (fun s hs => hsaved s (List.mem_cons_of_mem _ hs)) fun i => ?_
        rcases hother i with heq | ⟨s, hs, hsarmed, hsi⟩
        · exact .inl heq
        · rcases List.mem_cons.mp hs with rfl | hrest
          · exact absurd hsarmed harmed
          · exact .inr ⟨s, hrest, hsarmed, hsi⟩

/-- Undoing the trap bytes of the sites in a region recovers the original
memory. -/
theorem Shadow.readMemoryWithoutTraps_eq {original : Memory 64} {m : Machine}
    (h : Shadow original m) {address : Word} {amount : Nat}
    (hwrap : address.toNat + amount < 2 ^ 64)
    (hmapped : RangeMapped m.kernel address amount)
    (hfits : (remoteDescs address amount).length ≤ m.kernel.iovMax) :
    readMemoryWithoutTraps m address amount = .ok (original.read address amount) := by
  have hend : (address + BitVec.ofNat 64 amount).toNat = address.toNat + amount := by
    rw [BitVec.toNat_add, BitVec.toNat_ofNat]
    omega
  have hinRegion : ∀ site : BreakpointSite,
      (Stoppoint.inRange site address (address + BitVec.ofNat 64 amount) = true ↔
        (site.address - address).toNat < amount) := by
    intro site
    have hsite := site.address.isLt
    simp only [Stoppoint.inRange, BitVec.le_def, BitVec.lt_def, hend, decide_eq_true_eq]
    rw [BitVec.toNat_sub]
    omega
  have hback : ∀ site : BreakpointSite,
      address + BitVec.ofNat 64 (site.address - address).toNat = site.address := by
    intro site
    rw [BitVec.ofNat_toNat, BitVec.setWidth_eq, BitVec.add_comm, BitVec.sub_add_cancel]
  rw [readMemoryWithoutTraps, readMemory_eq hmapped hfits]
  refine congrArg Except.ok (foldl_patch_eq address _ _ (by simp) ?_ ?_)
  · intro site hsite harmed
    obtain ⟨hmem, hregion⟩ := List.mem_filter.mp hsite
    have hlt := (hinRegion site).mp hregion
    rw [List.getElem?_eq_getElem (by simpa using hlt), Memory.read_getElem, hback]
    exact congrArg some (h.armed site hmem harmed).2.symm
  · intro i
    by_cases hi : i < amount
    case neg =>
      left
      rw [List.getElem?_eq_none (by simpa using hi), List.getElem?_eq_none (by simpa using hi)]
    by_cases hsite : ∃ site ∈ m.process.breakpointSites, site.armed = true ∧
        site.address = address + BitVec.ofNat 64 i
    · obtain ⟨site, hmem, harmed, haddress⟩ := hsite
      have hoffset : (site.address - address).toNat = i := by
        rw [haddress, BitVec.add_comm, BitVec.add_sub_cancel, BitVec.toNat_ofNat]
        omega
      refine .inr ⟨site, List.mem_filter.mpr ⟨hmem, ?_⟩, harmed, hoffset⟩
      exact (hinRegion site).mpr (hoffset ▸ hi)
    · left
      rw [List.getElem?_eq_getElem (by simpa using hi),
        List.getElem?_eq_getElem (by simpa using hi), Memory.read_getElem, Memory.read_getElem]
      refine congrArg some (h.plain _ fun site hmem harmed haddress => ?_)
      exact hsite ⟨site, hmem, harmed, haddress⟩

/-- The shadow invariant over whole runs.  Whatever sequence of operations is
performed on sites, starting without any, memory is the original memory with
a trap byte exactly at the enabled software sites, each of which keeps the
byte it covers; and reading without traps shows the original memory, wherever
the kernel can transfer the range. -/
theorem performSiteOperations_shadow (m : Machine) (ops : List SiteOperation)
    (hstart : m.process.breakpointSites = []) :
    let last := performSiteOperations ops m
    (∀ site ∈ last.process.breakpointSites, site.isEnabled = true → site.isHardware = false →
      last.kernel.memory site.address = 0xcc ∧
        site.savedData = m.kernel.memory site.address) ∧
    (∀ address, (¬ ∃ site ∈ last.process.breakpointSites,
        site.isEnabled = true ∧ site.isHardware = false ∧ site.address = address) →
      last.kernel.memory address = m.kernel.memory address) ∧
    (∀ (address : Word) (amount : Nat), address.toNat + amount < 2 ^ 64 →
      RangeMapped m.kernel address amount →
      (remoteDescs address amount).length ≤ m.kernel.iovMax →
      readMemoryWithoutTraps last address amount =
        .ok (m.kernel.memory.read address amount)) := by
  intro last
  have hshadow : Shadow m.kernel.memory last :=
    Respects.performAll (SiteOperation.run_shadow m.kernel.memory) ops m
      (Shadow.start hstart)
  have hlayout : Layout last = Layout m :=
    Respects.performAll (fun _ => siteFrame_layout.run (.inl rfl)) ops m
  obtain ⟨hmapped, hiov⟩ := Prod.mk.inj hlayout
  refine ⟨?_, ?_, ?_⟩
  · intro site hsite henabled hsoft
    exact hshadow.armed site hsite (by simp [BreakpointSite.armed, henabled, hsoft])
  · intro address hnone
    refine hshadow.plain address fun site hsite harmed haddress => hnone ⟨site, hsite, ?_⟩
    simpa [BreakpointSite.armed, haddress] using harmed
  · intro address amount hwrap hrange hfits
    refine hshadow.readMemoryWithoutTraps_eq hwrap ?_ ?_
    · rw [RangeMapped, hmapped]
      exact hrange
    · rw [hiov]
      exact hfits

namespace ShadowWitness

/-- Memory holds the low byte of every address. -/
def machine : Machine := .atRest fun address => address.setWidth 8

/-- Two adjacent sites, enabled upwards and disabled upwards. -/
def operations : List SiteOperation :=
  [.create 0x1000 false false, .create 0x1001 false false, .enable 0, .enable 1, .disable 0]

end ShadowWitness

open ShadowWitness in
theorem performSiteOperations_shadow_adjacent :
    (performSiteOperations operations machine).kernel.memory 0x1001 = 0xcc ∧
      readMemoryWithoutTraps (performSiteOperations operations machine) 0x1000 4 =
        .ok [0x00, 0x01, 0x02, 0x03] := by
  have hrun := performSiteOperations_shadow machine operations rfl
  refine ⟨?_, ?_⟩
  · have hsite : ((performSiteOperations operations machine).process.breakpointSites).getLast? =
        some ⟨none, 2, 0x1001, true, 0x01, false, false, -1⟩ := by decide
    exact (hrun.1 _ (List.mem_of_getLast? hsite) rfl rfl).1
  · exact hrun.2.2 0x1000 4 (by decide) (fun _ _ => rfl) (by decide)

end Gsdb
