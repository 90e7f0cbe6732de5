/-
Executing the rules of a row: what a rule does to the caller's registers depends
on the registers of the frame only, and rules for different registers write
different bytes.  So the order in which the rules are enumerated does not matter.
-/
import Gsdb.CallFrameRows

namespace Gsdb

open ByteMemory ByteCursor

/-- What a rule does to its register: nothing, take its value away, or replace its
bytes. -/
inductive RuleEffect where
  | keep
  | undefine
  | write (bytes : List Byte)

def RuleEffect.apply (info : RegisterInfo) (unwound : Registers) : RuleEffect → Registers
  | .keep => unwound
  | .undefine => unwound.undefine info
  | .write bytes => { unwound with data := unwound.data.write info.offset bytes }

/-- The effect of a rule, from the registers of the frame. -/
def UnwindEnv.ruleEffect (env : UnwindEnv) (file : Elf) (old : Registers) (cfa : Word)
    (info : RegisterInfo) (rule : RegisterRule) : Except Failure RuleEffect :=
  if rule = .undefined then .ok .undefine
  else do
    match ← env.ruleValue file old cfa rule with
    | none => pure .keep
    | some value =>
        if value.sizeof ≤ info.size then
          pure (.write (toLe info.size (widen info value).toNat))
        else .error .terminate

/-- Register files with the same values and the same registers undefined. -/
structure SameUnwound (a b : Registers) : Prop where
  data : a.data = b.data
  cfa : a.cfa = b.cfa
  undefined : ∀ offset, offset ∈ a.undefinedOffsets ↔ offset ∈ b.undefinedOffsets

/-- Two outcomes that both fail, or return the same registers. -/
def SameOutcome : Except Failure Registers → Except Failure Registers → Prop
  | .ok a, .ok b => SameUnwound a b
  | .error _, .error _ => True
  | _, _ => False

/-- Two registers that share no byte. -/
def SlotsApart (info other : RegisterInfo) : Prop :=
  info.offset + info.size ≤ other.offset ∨ other.offset + other.size ≤ info.offset

instance (info other : RegisterInfo) : Decidable (SlotsApart info other) :=
  inferInstanceAs (Decidable (_ ∨ _))

/-- Two DWARF registers that share no byte. -/
def RegistersApart (reg other : BitVec 32) : Prop :=
  ∀ info info', registerInfoByDwarf reg.toInt = .ok info →
    registerInfoByDwarf other.toInt = .ok info' → SlotsApart info info'

/-- The rules of a set, in the order in which it holds them. -/
def Ruleset.rules (rules : Ruleset) : List (BitVec 32 × RegisterRule) :=
  rules.entries.map fun rule => (rule.1, rule.2)

section Effects

variable {env : UnwindEnv} {file : Elf} {cfa : Word} {old : Registers}

@[refl]
theorem SameUnwound.refl (a : Registers) : SameUnwound a a := ⟨rfl, rfl, fun _ => Iff.rfl⟩

theorem SameUnwound.trans {a b c : Registers} (h : SameUnwound a b) (h' : SameUnwound b c) :
    SameUnwound a c :=
  ⟨h.data.trans h'.data, h.cfa.trans h'.cfa,
    fun offset => (h.undefined offset).trans (h'.undefined offset)⟩

theorem SameOutcome.trans {a b c : Except Failure Registers} (h : SameOutcome a b)
    (h' : SameOutcome b c) : SameOutcome a c := by
  match a, b, c, h, h' with
  | .ok _, .ok _, .ok _, h, h' => exact SameUnwound.trans h h'
  | .error _, .error _, .error _, _, _ => exact trivial

theorem RuleEffect.apply_same (info : RegisterInfo) (effect : RuleEffect) {a b : Registers}
    (h : SameUnwound a b) : SameUnwound (effect.apply info a) (effect.apply info b) := by
  cases effect with
  | keep => exact h
  | undefine =>
      refine ⟨h.data, h.cfa, fun offset => ?_⟩
      simp only [RuleEffect.apply, Registers.undefine, List.mem_append, h.undefined offset]
  | write bytes =>
      refine ⟨?_, h.cfa, h.undefined⟩
      simp only [RuleEffect.apply, h.data]

/-- Effects on different registers commute. -/
theorem RuleEffect.apply_comm {info info' : RegisterInfo} (hapart : SlotsApart info info')
    {effect effect' : RuleEffect}
    (hsize : ∀ bytes, effect = .write bytes → bytes.length = info.size)
    (hsize' : ∀ bytes, effect' = .write bytes → bytes.length = info'.size) (a : Registers) :
    SameUnwound (effect'.apply info' (effect.apply info a))
      (effect.apply info (effect'.apply info' a)) := by
  cases effect with
  | keep => exact .refl _
  | undefine =>
      cases effect' with
      | keep => exact .refl _
      | write bytes => exact .refl _
      | undefine =>
          refine ⟨rfl, rfl, fun offset => ?_⟩
          simp only [RuleEffect.apply, Registers.undefine, List.mem_append, List.mem_singleton]
          tauto
  | write bytes =>
      cases effect' with
      | keep => exact .refl _
      | undefine => exact .refl _
      | write bytes' =>
          refine ⟨?_, rfl, fun _ => Iff.rfl⟩
          simp only [RuleEffect.apply]
          refine Area.write_comm _ ?_
          rw [hsize bytes rfl, hsize' bytes' rfl]
          exact hapart

theorem ruleEffect_size {info : RegisterInfo} {rule : RegisterRule} {effect : RuleEffect}
    (h : env.ruleEffect file old cfa info rule = .ok effect) :
    ∀ bytes, effect = .write bytes → bytes.length = info.size := by
  rintro bytes rfl
  unfold UnwindEnv.ruleEffect at h
  split at h
  · cases h
  · obtain ⟨value, -, hrest⟩ := bind_eq_ok.mp h
    cases value with
    | none => cases hrest
    | some value =>
        simp only at hrest
        split at hrest
        · cases hrest
          exact toLe_length _ _
        · cases hrest

/-- A round of the loop applies the effect of its rule. -/
theorem executeRule_eq (unwound : Registers) (reg : BitVec 32) (rule : RegisterRule) :
    env.executeRule file old cfa unwound reg rule = (do
      let info ← registerInfoByDwarf reg.toInt
      let effect ← env.ruleEffect file old cfa info rule
      pure (effect.apply info unwound)) := by
  unfold UnwindEnv.executeRule UnwindEnv.ruleEffect
  cases registerInfoByDwarf reg.toInt with
  | error e => rfl
  | ok info =>
      by_cases hrule : rule = .undefined
      · simp only [ok_bind, if_pos hrule]
        rfl
      · simp only [ok_bind, if_neg hrule]
        cases env.ruleValue file old cfa rule with
        | error e => rfl
        | ok value =>
            cases value with
            | none => rfl
            | some value =>
                simp only [ok_bind, Registers.writeData]
                split <;> rfl

/-- The register and the effect of a rule, if it has one. -/
def UnwindEnv.action (env : UnwindEnv) (file : Elf) (old : Registers) (cfa : Word)
    (rule : BitVec 32 × RegisterRule) : Except Failure (RegisterInfo × RuleEffect) := do
  let info ← registerInfoByDwarf rule.1.toInt
  let effect ← env.ruleEffect file old cfa info rule.2
  pure (info, effect)

theorem executeRules_cons (rule : BitVec 32 × RegisterRule) (rest : List (BitVec 32 × RegisterRule))
    (unwound : Registers) :
    env.executeRules file old cfa (rule :: rest) unwound =
      env.action file old cfa rule >>= fun action =>
        env.executeRules file old cfa rest (action.2.apply action.1 unwound) := by
  obtain ⟨reg, rule⟩ := rule
  simp only [UnwindEnv.executeRules, executeRule_eq, UnwindEnv.action, bind_assoc, pure_bind]

theorem action_eq_ok {rule : BitVec 32 × RegisterRule} {action : RegisterInfo × RuleEffect}
    (h : env.action file old cfa rule = .ok action) :
    registerInfoByDwarf rule.1.toInt = .ok action.1 ∧
      env.ruleEffect file old cfa action.1 rule.2 = .ok action.2 := by
  obtain ⟨info, hinfo, hrest⟩ := bind_eq_ok.mp h
  obtain ⟨effect, heffect, hdone⟩ := bind_eq_ok.mp hrest
  cases hdone
  exact ⟨hinfo, heffect⟩

/-- The rules do not tell register files apart that are the same. -/
theorem executeRules_same (rules : List (BitVec 32 × RegisterRule)) {a b : Registers}
    (h : SameUnwound a b) :
    SameOutcome (env.executeRules file old cfa rules a)
      (env.executeRules file old cfa rules b) := by
  induction rules generalizing a b with
  | nil => exact h
  | cons rule rest ih =>
      rw [executeRules_cons, executeRules_cons]
      cases env.action file old cfa rule with
      | error e => exact trivial
      | ok action => exact ih (action.2.apply_same action.1 h)

/-- Rules for registers apart can be executed in any order. -/
theorem executeRules_perm {rules rules' : List (BitVec 32 × RegisterRule)}
    (hperm : rules.Perm rules') (hapart : rules.Pairwise fun a b => RegistersApart a.1 b.1)
    (unwound : Registers) :
    SameOutcome (env.executeRules file old cfa rules unwound)
      (env.executeRules file old cfa rules' unwound) := by
  induction hperm generalizing unwound with
  | nil => exact SameUnwound.refl unwound
  | cons rule _ ih =>
      rw [executeRules_cons, executeRules_cons]
      cases env.action file old cfa rule with
      | error e => exact trivial
      | ok action => exact ih (List.pairwise_cons.mp hapart).2 _
  | swap first second rest =>
      simp only [executeRules_cons]
      cases hfirst : env.action file old cfa first with
      | error e =>
          cases env.action file old cfa second <;> exact trivial
      | ok action =>
          cases hsecond : env.action file old cfa second with
          | error e => exact trivial
          | ok action' =>
              obtain ⟨hinfo, heffect⟩ := action_eq_ok hfirst
              obtain ⟨hinfo', heffect'⟩ := action_eq_ok hsecond
              have hslots :=
                (List.pairwise_cons.mp hapart).1 first List.mem_cons_self _ _ hinfo' hinfo
              simp only [ok_bind]
              refine executeRules_same rest ?_
              exact RuleEffect.apply_comm hslots (ruleEffect_size heffect')
                (ruleEffect_size heffect) _
  | trans hfirst _ ih ih' =>
      refine (ih hapart unwound).trans (ih' ?_ unwound)
      refine (hfirst.pairwise_iff ?_).mp hapart
      intro a b h info info' hinfo hinfo'
      exact (h info' info hinfo' hinfo).symm

/-- When the rules ran, each of them had an effect. -/
theorem executed_rule {rules : List (BitVec 32 × RegisterRule)} {unwound done : Registers}
    {rule : BitVec 32 × RegisterRule}
    (hdone : env.executeRules file old cfa rules unwound = .ok done) (hmem : rule ∈ rules) :
    ∃ info effect, registerInfoByDwarf rule.1.toInt = .ok info ∧
      env.ruleEffect file old cfa info rule.2 = .ok effect := by
  induction rules generalizing unwound with
  | nil => cases hmem
  | cons first rest ih =>
      rw [executeRules_cons] at hdone
      obtain ⟨action, haction, hrest⟩ := bind_eq_ok.mp hdone
      rcases List.mem_cons.mp hmem with rfl | hin
      · exact ⟨action.1, action.2, action_eq_ok haction⟩
      · exact ih hrest hin

/-- Rules that each have an effect can be executed. -/
theorem executeRules_ok {rules : List (BitVec 32 × RegisterRule)}
    (h : ∀ rule ∈ rules, ∃ action, env.action file old cfa rule = .ok action)
    (unwound : Registers) : ∃ done, env.executeRules file old cfa rules unwound = .ok done := by
  induction rules generalizing unwound with
  | nil => exact ⟨unwound, rfl⟩
  | cons rule rest ih =>
      obtain ⟨action, haction⟩ := h rule List.mem_cons_self
      rw [executeRules_cons, haction]
      exact ih (fun other hother => h other (List.mem_cons_of_mem rule hother)) _

theorem ruleEffect_undefine {info : RegisterInfo} {rule : RegisterRule}
    (h : env.ruleEffect file old cfa info rule = .ok .undefine) : rule = .undefined := by
  unfold UnwindEnv.ruleEffect at h
  split at h
  · assumption
  · obtain ⟨value, -, hrest⟩ := bind_eq_ok.mp h
    cases value with
    | none => cases hrest
    | some value =>
        simp only at hrest
        split at hrest <;> cases hrest

/-- Registers become undefined by their own rules only. -/
theorem executeRules_undefined {rules : List (BitVec 32 × RegisterRule)} {unwound done : Registers}
    (hdone : env.executeRules file old cfa rules unwound = .ok done) {offset : Nat}
    (hoffset : offset ∈ done.undefinedOffsets) :
    offset ∈ unwound.undefinedOffsets ∨ ∃ rule ∈ rules, ∃ info, rule.2 = .undefined ∧
      registerInfoByDwarf rule.1.toInt = .ok info ∧ info.offset / 2 = offset := by
  induction rules generalizing unwound with
  | nil =>
      cases hdone
      exact .inl hoffset
  | cons rule rest ih =>
      rw [executeRules_cons] at hdone
      obtain ⟨⟨info, effect⟩, haction, hrest⟩ := bind_eq_ok.mp hdone
      rcases ih hrest with hstart | ⟨other, hother, hlater⟩
      · cases effect with
        | keep => exact .inl hstart
        | write bytes => exact .inl hstart
        | undefine =>
            obtain ⟨hinfo, heffect⟩ := action_eq_ok haction
            rcases List.mem_append.mp hstart with hbefore | hown
            · exact .inl hbefore
            · exact .inr ⟨rule, List.mem_cons_self, info, ruleEffect_undefine heffect, hinfo,
                (List.mem_singleton.mp hown).symm⟩
      · exact .inr ⟨other, List.mem_cons_of_mem rule hother, hlater⟩

/-- Registers never become defined again. -/
theorem executeRules_stays_undefined {rules : List (BitVec 32 × RegisterRule)}
    {unwound done : Registers}
    (hdone : env.executeRules file old cfa rules unwound = .ok done) {offset : Nat}
    (hoffset : offset ∈ unwound.undefinedOffsets) : offset ∈ done.undefinedOffsets := by
  induction rules generalizing unwound with
  | nil =>
      cases hdone
      exact hoffset
  | cons rule rest ih =>
      rw [executeRules_cons] at hdone
      obtain ⟨⟨info, effect⟩, -, hrest⟩ := bind_eq_ok.mp hdone
      refine ih hrest ?_
      cases effect with
      | keep => exact hoffset
      | write bytes => exact hoffset
      | undefine => exact List.mem_append_left _ hoffset

/-- A `register` rule writes the value that the other register has in the frame. -/
theorem ruleEffect_register {info : RegisterInfo} {source : BitVec 32} {effect : RuleEffect}
    (h : env.ruleEffect file old cfa info (.register source) = .ok effect) :
    ∃ sourceInfo value, registerInfoByDwarf source.toInt = .ok sourceInfo ∧
      old.read sourceInfo = .ok value ∧
      effect = .write (toLe info.size (widen info value).toNat) := by
  unfold UnwindEnv.ruleEffect at h
  rw [if_neg RegisterRule.noConfusion] at h
  obtain ⟨restored, hvalue, hrest⟩ := bind_eq_ok.mp h
  obtain ⟨sourceInfo, hsource, hread⟩ := bind_eq_ok.mp hvalue
  obtain ⟨value, hold, hdone⟩ := bind_eq_ok.mp hread
  cases hdone
  simp only at hrest
  split at hrest
  · cases hrest
    exact ⟨sourceInfo, value, hsource, hold, rfl⟩
  · cases hrest

/-- Rules for registers that share no byte with a register leave its bytes alone. -/
theorem executeRules_apart {reg : BitVec 32} {info : RegisterInfo}
    {rules : List (BitVec 32 × RegisterRule)} {unwound done : Registers}
    (hinfo : registerInfoByDwarf reg.toInt = .ok info)
    (hothers : ∀ other ∈ rules, RegistersApart reg other.1)
    (hdone : env.executeRules file old cfa rules unwound = .ok done) :
    done.data.read info.offset info.size = unwound.data.read info.offset info.size := by
  induction rules generalizing unwound with
  | nil =>
      cases hdone
      rfl
  | cons other rest ih =>
      rw [executeRules_cons] at hdone
      obtain ⟨action, haction, hrest⟩ := bind_eq_ok.mp hdone
      obtain ⟨hotherInfo, hotherEffect⟩ := action_eq_ok haction
      have hslots := hothers other List.mem_cons_self _ _ hinfo hotherInfo
      rw [ih (fun o ho => hothers o (List.mem_cons_of_mem other ho)) hrest]
      cases hkind : action.2 with
      | keep => rfl
      | undefine => rfl
      | write written =>
          refine Area.read_write_disjoint _ ?_
          rw [ruleEffect_size hotherEffect written hkind]
          exact hslots

/-- After the rules ran, a register has the effect of its own rule. -/
theorem executeRules_slot {rules : List (BitVec 32 × RegisterRule)} {unwound done : Registers}
    {rule : BitVec 32 × RegisterRule} {info : RegisterInfo} {bytes : List Byte}
    (hdone : env.executeRules file old cfa rules unwound = .ok done)
    (hmem : rule ∈ rules) (hnodup : (rules.map Prod.fst).Nodup)
    (hapart : ∀ other ∈ rules, other.1 ≠ rule.1 → RegistersApart rule.1 other.1)
    (hinfo : registerInfoByDwarf rule.1.toInt = .ok info)
    (heffect : env.ruleEffect file old cfa info rule.2 = .ok (.write bytes)) :
    done.data.read info.offset info.size = bytes := by
  have hlength : bytes.length = info.size := ruleEffect_size heffect bytes rfl
  induction rules generalizing unwound with
  | nil => cases hmem
  | cons first rest ih =>
      rw [executeRules_cons] at hdone
      obtain ⟨action, haction, hrest⟩ := bind_eq_ok.mp hdone
      obtain ⟨hfirst, htail⟩ := List.nodup_cons.mp hnodup
      rcases List.mem_cons.mp hmem with rfl | hin
      · have hothers : ∀ other ∈ rest, RegistersApart rule.1 other.1 := by
          intro other hother
          refine hapart other (List.mem_cons_of_mem rule hother) ?_
          intro heq
          exact hfirst (heq ▸ List.mem_map_of_mem hother)
        obtain ⟨hown, howned⟩ := action_eq_ok haction
        have hsame : action.1 = info := Except.ok.inj (hown.symm.trans hinfo)
        rw [hsame] at howned
        have hwrite : action.2 = .write bytes := Except.ok.inj (howned.symm.trans heffect)
        rw [executeRules_apart hinfo hothers hrest, hwrite, hsame, ← hlength]
        exact Area.read_write _ _ _
      · exact ih hrest hin htail fun other hother =>
          hapart other (List.mem_cons_of_mem first hother)

end Effects

section Order

variable {env : UnwindEnv} {file : Elf}

/-- Two different registers among the seventeen of a frame share no byte. -/
theorem registersApart_of_ne {reg other : BitVec 32} (hreg : reg.toNat ≤ 16)
    (hother : other.toNat ≤ 16) (hne : reg ≠ other) : RegistersApart reg other := by
  have htable : ∀ a b : Fin 17, a ≠ b →
      (registerInfoByDwarf (BitVec.ofNat 32 a).toInt).toOption.all (fun info =>
        (registerInfoByDwarf (BitVec.ofNat 32 b).toInt).toOption.all fun info' =>
          decide (SlotsApart info info')) = true := by
    decide +kernel
  have hdistinct : reg.toNat ≠ other.toNat := fun h => hne (BitVec.eq_of_toNat_eq h)
  intro info info' hinfo hinfo'
  have hcase := htable ⟨reg.toNat, by omega⟩ ⟨other.toNat, by omega⟩
    (fun h => hdistinct (Fin.mk.inj h))
  simpa only [BitVec.ofNat_toNat, BitVec.setWidth_eq, hinfo, hinfo', Except.toOption,
    Option.all_some, decide_eq_true_eq] using hcase

theorem rules_nodup (rules : Ruleset) : (rules.rules.map Prod.fst).Nodup := by
  rw [Ruleset.rules, List.map_map]
  exact rules.nodupKeys

theorem mem_rules {rules : Ruleset} {rule : BitVec 32 × RegisterRule} :
    rule ∈ rules.rules ↔ rules.lookup rule.1 = some rule.2 := by
  refine Iff.trans ?_ AList.mem_lookup_iff.symm
  constructor
  · intro h
    obtain ⟨entry, hentry, rfl⟩ := List.mem_map.mp h
    exact hentry
  · intro h
    exact List.mem_map.mpr ⟨⟨rule.1, rule.2⟩, h, rfl⟩

/-- No two rules of a set over the registers of a frame share a byte. -/
theorem rules_apart {rules : Ruleset} (hkeys : ∀ reg ∈ rules, reg.toNat ≤ 16)
    {a b : BitVec 32 × RegisterRule} (ha : a ∈ rules.rules) (hb : b ∈ rules.rules)
    (hne : a.1 ≠ b.1) : RegistersApart a.1 b.1 := by
  have hmem : ∀ rule ∈ rules.rules, rule.1 ∈ rules := by
    intro rule hrule
    refine AList.lookup_isSome.mp ?_
    rw [mem_rules.mp hrule]
    rfl
  exact registersApart_of_ne (hkeys a.1 (hmem a ha)) (hkeys b.1 (hmem b hb)) hne

/-- Expressions do not depend on the order in which rules are enumerated. -/
theorem evalNested_enumerate (other : Ruleset → List (BitVec 32 × RegisterRule))
    (regs : Registers) (depth : Nat) (expr : List Byte) (pushCfa : Bool) :
    { env with enumerate := other }.evalNested file regs depth expr pushCfa =
      env.evalNested file regs depth expr pushCfa := by
  induction depth generalizing expr pushCfa with
  | zero => rfl
  | succ depth ih => simp only [UnwindEnv.evalNested, ih]

theorem evalAddress_enumerate (other : Ruleset → List (BitVec 32 × RegisterRule))
    (regs : Registers) (expr : List Byte) (pushCfa : Bool) :
    { env with enumerate := other }.evalAddress file regs expr pushCfa =
      env.evalAddress file regs expr pushCfa := by
  simp only [UnwindEnv.evalAddress, evalNested_enumerate]

theorem ruleValue_enumerate (other : Ruleset → List (BitVec 32 × RegisterRule))
    (old : Registers) (cfa : Word) (rule : RegisterRule) :
    { env with enumerate := other }.ruleValue file old cfa rule =
      env.ruleValue file old cfa rule := by
  cases rule <;> simp only [UnwindEnv.ruleValue, evalAddress_enumerate, UnwindEnv.readU64]

theorem executeRules_enumerate (other : Ruleset → List (BitVec 32 × RegisterRule))
    (old : Registers) (cfa : Word) (rules : List (BitVec 32 × RegisterRule)) (unwound : Registers) :
    { env with enumerate := other }.executeRules file old cfa rules unwound =
      env.executeRules file old cfa rules unwound := by
  induction rules generalizing unwound with
  | nil => rfl
  | cons rule rest ih =>
      simp only [UnwindEnv.executeRules, UnwindEnv.executeRule, ruleValue_enumerate, ih]

theorem cfaOf_enumerate (other : Ruleset → List (BitVec 32 × RegisterRule)) (regs : Registers)
    (rule : CfaRule) :
    { env with enumerate := other }.cfaOf file regs rule = env.cfaOf file regs rule := by
  cases rule <;> simp only [UnwindEnv.cfaOf, evalAddress_enumerate]

/-- The rules of a row can be executed in any order: both orders fail, or both give
the same registers.  A register that is restored from another one gets the value
that the other has in the frame. -/
theorem executeUnwindRules_order (other : Ruleset → List (BitVec 32 × RegisterRule))
    {ctx : UnwindContext} (regs : Registers)
    (hkeys : ∀ reg ∈ ctx.registerRules, reg.toNat ≤ 16)
    (henumerate : (env.enumerate ctx.registerRules).Perm ctx.registerRules.rules)
    (hother : (other ctx.registerRules).Perm ctx.registerRules.rules) :
    SameOutcome (env.executeUnwindRules file ctx regs).2
        ({ env with enumerate := other }.executeUnwindRules file ctx regs).2 ∧
      ∀ unwound reg source, (env.executeUnwindRules file ctx regs).2 = .ok unwound →
        ctx.registerRules.lookup reg = some (.register source) →
        ∃ info sourceInfo value, registerInfoByDwarf reg.toInt = .ok info ∧
          registerInfoByDwarf source.toInt = .ok sourceInfo ∧
          regs.read sourceInfo = .ok value ∧
          unwound.data.read info.offset info.size =
            toLe info.size (widen info value).toNat := by
  have hnodup : ((env.enumerate ctx.registerRules).map Prod.fst).Nodup :=
    (henumerate.map Prod.fst).nodup_iff.mpr (rules_nodup _)
  have hapart : ∀ a ∈ env.enumerate ctx.registerRules, ∀ b ∈ env.enumerate ctx.registerRules,
      a.1 ≠ b.1 → RegistersApart a.1 b.1 :=
    fun a ha b hb => rules_apart hkeys (henumerate.mem_iff.mp ha) (henumerate.mem_iff.mp hb)
  constructor
  · unfold UnwindEnv.executeUnwindRules
    rw [cfaOf_enumerate other]
    cases env.cfaOf file regs ctx.cfaRule with
    | error failure => exact trivial
    | ok cfa =>
        simp only [executeRules_enumerate other]
        cases registerInfoById .rsp with
        | error failure => exact trivial
        | ok rsp =>
            simp only [ok_bind]
            cases regs.writeData rsp (.u64 cfa) with
            | error failure => exact trivial
            | ok unwound =>
                refine executeRules_perm (henumerate.trans hother.symm) ?_ unwound
                exact (List.pairwise_map.mp hnodup).imp_of_mem fun ha hb => hapart _ ha _ hb
  · intro unwound reg source hdone hlookup
    have hmem : (reg, RegisterRule.register source) ∈ env.enumerate ctx.registerRules :=
      henumerate.mem_iff.mpr (mem_rules.mpr hlookup)
    unfold UnwindEnv.executeUnwindRules at hdone
    split at hdone
    · cases hdone
    · rename_i cfa hcfa
      obtain ⟨rsp, -, hrest⟩ := bind_eq_ok.mp hdone
      obtain ⟨start, -, hrun⟩ := bind_eq_ok.mp hrest
      obtain ⟨info, effect, hinfo, heffect⟩ := executed_rule hrun hmem
      obtain ⟨sourceInfo, value, hsource, hvalue, rfl⟩ := ruleEffect_register heffect
      exact ⟨info, sourceInfo, value, hinfo, hsource, hvalue,
        executeRules_slot hrun hmem hnodup (fun other hin hne => hapart _ hmem other hin hne.symm)
          hinfo heffect⟩

end Order

namespace UnwindRulesWitness

def program : Elf := ⟨[], [], 0⟩

def env : UnwindEnv :=
  { elves := [program]
    ehHdr := fun _ => ⟨0, 0, 0, 0⟩
    readMemory := fun _ n => .ok (List.replicate n 0)
    frameBase := fun _ => .ok none
    enumerate := Ruleset.rules
    rounds := 10
    depth := 1 }

/-- `rbx` and `rbp` are exchanged. -/
def rules : Ruleset :=
  ((∅ : Ruleset).emplace 3 (.register 6)).emplace 6 (.register 3)

def ctx : UnwindContext :=
  { cur := ⟨[], 0⟩
    origin := 0
    location := 0
    cfaRule := .register 7 8
    cieRegisterRules := ∅
    registerRules := rules
    ruleStack := [] }

def regs : Registers :=
  { data := fun offset => BitVec.ofNat 8 offset
    undefinedOffsets := []
    cfa := 0 }

theorem rules_keys : ∀ reg ∈ rules, reg.toNat ≤ 16 := by
  intro reg hreg
  rcases List.mem_pair.mp (show reg ∈ [6, 3] from hreg) with rfl | rfl <;> decide

/-- The registers are exchanged in both orders. -/
theorem executeUnwindRules_order_exchanged :
    SameOutcome (env.executeUnwindRules program ctx regs).2
      ({ env with enumerate := fun rules => rules.rules.reverse }.executeUnwindRules program ctx
        regs).2 ∧
    ((env.executeUnwindRules program ctx regs).2.toOption.map fun unwound =>
      (unwound.data.read 40 8, unwound.data.read 32 8)) =
        some (regs.data.read 32 8, regs.data.read 40 8) := by
  have horder := @executeUnwindRules_order env program (fun rules => rules.rules.reverse) ctx regs
    rules_keys (List.Perm.refl _) (List.reverse_perm _)
  exact ⟨horder.1, by decide +kernel⟩

end UnwindRulesWitness

end Gsdb
