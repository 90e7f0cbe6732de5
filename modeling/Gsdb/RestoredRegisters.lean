/-
Reading a register that a row restored.  Which registers are undefined is handed on
from frame to frame with the values; a rule that restores a value does not take its
register off that list.
-/
import Gsdb.ExpressionRules

namespace Gsdb

open ByteMemory ByteCursor

/-- The bits of a value, filled up with zeros. -/
def Value.bits : Value → BitVec 128
  | .u8 x | .i8 x => x.setWidth 128
  | .u16 x | .i16 x => x.setWidth 128
  | .u32 x | .i32 x => x.setWidth 128
  | .u64 x | .i64 x | .byte64 x => x.setWidth 128
  | .longDouble x | .byte128 x => x

/-- Frames that are unwound one after the other, each with its file and row. -/
inductive UnwindEnv.Unwinds (env : UnwindEnv) :
    List (Elf × UnwindContext) → Registers → Registers → Prop where
  | done {regs : Registers} : Unwinds env [] regs regs
  | frame {file : Elf} {ctx : UnwindContext} {rows : List (Elf × UnwindContext)}
      {regs next last : Registers}
      (hrow : (env.executeUnwindRules file ctx regs).2 = .ok next)
      (hrows : Unwinds env rows next last) : Unwinds env ((file, ctx) :: rows) regs last

/-- A row takes away the value of a register, or of the one that shares its place. -/
def Ruleset.Undefines (rules : Ruleset) (info : RegisterInfo) : Prop :=
  ∃ other info', rules.lookup other = some .undefined ∧
    registerInfoByDwarf other.toInt = .ok info' ∧ info'.offset / 2 = info.offset / 2

/-- What is executed behind the rule of a register leaves the bytes it wrote. -/
def UnwindEnv.LaterLeave (env : UnwindEnv) (file : Elf) (old : Registers) (cfa : Word)
    (rules : List (BitVec 32 × RegisterRule)) (reg : BitVec 32) (info : RegisterInfo)
    (bytes : List Byte) : Prop :=
  ∀ before rule after, rules = before ++ (reg, rule) :: after → ∀ other ∈ after,
    ∀ info' written, env.action file old cfa other = .ok (info', .write written) →
      (Area.write (Area.write (fun _ => 0) info.offset bytes) info'.offset written).read
        info.offset info.size = bytes

section Values

variable {info : RegisterInfo} {regs : Registers} {value : Value}

/-- The formats of the table fit the sizes. -/
def RegisterInfo.IsSized (info : RegisterInfo) : Prop :=
  match info.format with
  | .uint => info.size = 1 ∨ info.size = 2 ∨ info.size = 4 ∨ info.size = 8
  | .doubleFloat => False
  | .longDouble => info.size = 16
  | .vector => info.size = 8 ∨ info.size = 16

instance (info : RegisterInfo) : Decidable info.IsSized := by
  unfold RegisterInfo.IsSized
  split <;> infer_instance

theorem registerInfos_isSized : ∀ info ∈ registerInfos, info.IsSized := by
  decide +kernel

/-- Some bytes as a word have certain bits if and only if they are the bytes of these. -/
theorem setWidth_ofLe_eq_iff {n : Nat} (hn : n ≤ 16) {bytes : List Byte}
    (hlength : bytes.length = n) {b : BitVec 128} (hb : b.toNat < 256 ^ n) :
    (BitVec.ofNat (8 * n) (ofLe bytes)).setWidth 128 = b ↔ bytes = toLe n b.toNat := by
  have hwidth : 2 ^ (8 * n) = 256 ^ n := pow_mul 2 8 n
  have hbytes : ofLe bytes < 256 ^ n := hlength ▸ ofLe_lt bytes
  have hwide : (256 : Nat) ^ n ≤ 2 ^ 128 := by
    calc (256 : Nat) ^ n ≤ 256 ^ 16 := Nat.pow_le_pow_right (by norm_num) hn
      _ = 2 ^ 128 := by norm_num
  have htoNat : ((BitVec.ofNat (8 * n) (ofLe bytes)).setWidth 128).toNat = ofLe bytes := by
    rw [BitVec.toNat_setWidth, BitVec.toNat_ofNat, hwidth, Nat.mod_eq_of_lt hbytes,
      Nat.mod_eq_of_lt (lt_of_lt_of_le hbytes hwide)]
  constructor
  · rintro rfl
    rw [htoNat, ← hlength, toLe_ofLe]
  · intro heq
    refine BitVec.eq_of_toNat_eq ?_
    rw [htoNat, heq, ofLe_toLe, Nat.mod_eq_of_lt hb]

/-- A register is read with certain bits if and only if it is defined and has their
bytes. -/
theorem read_bits_iff (hsized : info.IsSized) {b : BitVec 128} (hb : b.toNat < 256 ^ info.size) :
    (∃ x, regs.read info = .ok x ∧ x.bits = b) ↔
      regs.isUndefined info = false ∧
        regs.data.read info.offset info.size = toLe info.size b.toNat := by
  have hlength : (regs.data.read info.offset info.size).length = info.size := Area.read_length _ _ _
  cases hundefined : regs.isUndefined info with
  | true =>
      have hread : regs.read info = .error (.error "Register is undefined") := by
        rw [Registers.read, if_pos hundefined]
      simp [hread]
  | false =>
      have hvalue : ∃ x, regs.read info = .ok x ∧
          (x.bits = b ↔ regs.data.read info.offset info.size = toLe info.size b.toNat) := by
        have hiff := fun h : info.size ≤ 16 => setWidth_ofLe_eq_iff h hlength hb
        unfold RegisterInfo.IsSized at hsized
        split at hsized
        · rename_i hformat
          rcases hsized with hsize | hsize | hsize | hsize <;>
            · rw [hsize] at hiff ⊢
              simp only [Registers.read, hundefined, Bool.false_eq_true, if_false, hformat, hsize]
              exact ⟨_, rfl, hiff (by decide)⟩
        · exact hsized.elim
        · rename_i hformat
          rw [hsized] at hiff ⊢
          simp only [Registers.read, hundefined, Bool.false_eq_true, if_false, hformat]
          refine ⟨_, rfl, ?_⟩
          rw [← hiff (by decide), BitVec.setWidth_eq]
          rfl
        · rename_i hformat
          rcases hsized with hsize | hsize
          · rw [hsize] at hiff ⊢
            simp only [Registers.read, hundefined, Bool.false_eq_true, if_false, hformat, hsize]
            exact ⟨_, rfl, hiff (by decide)⟩
          · rw [hsize] at hiff ⊢
            simp only [Registers.read, hundefined, Bool.false_eq_true, if_false, hformat, hsize]
            refine ⟨_, rfl, ?_⟩
            rw [← hiff (by decide), BitVec.setWidth_eq]
            rfl
      obtain ⟨x, hread, hbits⟩ := hvalue
      simp [hread, hbits]

end Values

section Widening

variable {info : RegisterInfo} {value : Value}

theorem setWidth_lt {w n : Nat} (x : BitVec w) (hwidth : w = 8 * n) (hle : n ≤ info.size) :
    (x.setWidth 128).toNat < 256 ^ info.size := by
  have hx : x.toNat < 256 ^ n := by
    have hlt := x.isLt
    have hpow : 2 ^ w = 256 ^ n := hwidth ▸ pow_mul 2 8 n
    rwa [hpow] at hlt
  calc (x.setWidth 128).toNat ≤ x.toNat := by
        rw [BitVec.toNat_setWidth]
        exact Nat.mod_le _ _
    _ < 256 ^ n := hx
    _ ≤ 256 ^ info.size := Nat.pow_le_pow_right (by decide) hle

theorem widenSigned_lt {w n : Nat} (x : BitVec w) (hwidth : w = 8 * n) (hle : n ≤ info.size) :
    (widenSigned info x).toNat < 256 ^ info.size := by
  unfold widenSigned
  split
  · rename_i hsize
    exact setWidth_lt _ (n := 2) rfl (Nat.le_of_eq hsize.symm)
  · rename_i hsize
    exact setWidth_lt _ (n := 4) rfl (Nat.le_of_eq hsize.symm)
  · rename_i hsize
    exact setWidth_lt _ (n := 8) rfl (Nat.le_of_eq hsize.symm)
  · exact setWidth_lt x hwidth hle

/-- A value that fits into a register is widened to its size at most. -/
theorem widen_lt (hle : value.sizeof ≤ info.size) :
    (widen info value).toNat < 256 ^ info.size := by
  cases value with
  | u8 x => exact setWidth_lt x (n := 1) rfl hle
  | u16 x => exact setWidth_lt x (n := 2) rfl hle
  | u32 x => exact setWidth_lt x (n := 4) rfl hle
  | u64 x => exact setWidth_lt x (n := 8) rfl hle
  | byte64 x => exact setWidth_lt x (n := 8) rfl hle
  | i8 x => exact widenSigned_lt x (n := 1) rfl hle
  | i16 x => exact widenSigned_lt x (n := 2) rfl hle
  | i32 x => exact widenSigned_lt x (n := 4) rfl hle
  | i64 x => exact widenSigned_lt x (n := 8) rfl hle
  | longDouble x =>
      exact lt_of_lt_of_le x.isLt (Nat.pow_le_pow_right (n := 256) (by decide) hle)
  | byte128 x =>
      exact lt_of_lt_of_le x.isLt (Nat.pow_le_pow_right (n := 256) (by decide) hle)

end Widening

section Undefined

variable {env : UnwindEnv} {file : Elf} {cfa : Word} {old regs : Registers} {info : RegisterInfo}

/-- A rule that takes a value away has done so when the rules ran. -/
theorem executeRules_undefines {rules : List (BitVec 32 × RegisterRule)} {unwound done : Registers}
    {other : BitVec 32} (hdone : env.executeRules file old cfa rules unwound = .ok done)
    (hmem : (other, .undefined) ∈ rules) (hinfo : registerInfoByDwarf other.toInt = .ok info) :
    info.offset / 2 ∈ done.undefinedOffsets := by
  induction rules generalizing unwound with
  | nil => cases hmem
  | cons first rest ih =>
      rw [executeRules_cons] at hdone
      obtain ⟨action, haction, hrest⟩ := bind_eq_ok.mp hdone
      rcases List.mem_cons.mp hmem with rfl | hin
      · refine executeRules_stays_undefined hrest ?_
        obtain ⟨hown, heffect⟩ := action_eq_ok haction
        obtain rfl : info = action.1 := Except.ok.inj (hinfo.symm.trans hown)
        obtain hundefine : .undefine = action.2 := Except.ok.inj heffect
        rw [← hundefine]
        exact List.mem_append_right _ List.mem_cons_self
      · exact ih hrest hin

/-- What is undefined in the registers of the caller: what was undefined in those of
the frame, and what the row takes away. -/
theorem executeUnwindRules_undefined {ctx : UnwindContext} {unwound : Registers}
    (henumerate : (env.enumerate ctx.registerRules).Perm ctx.registerRules.rules)
    (hrow : (env.executeUnwindRules file ctx regs).2 = .ok unwound) :
    info.offset / 2 ∈ unwound.undefinedOffsets ↔
      info.offset / 2 ∈ regs.undefinedOffsets ∨ ctx.registerRules.Undefines info := by
  unfold UnwindEnv.executeUnwindRules at hrow
  split at hrow
  · cases hrow
  · rename_i cfa hcfa
    obtain ⟨rsp, -, hrest⟩ := bind_eq_ok.mp hrow
    obtain ⟨start, hstart, hrun⟩ := bind_eq_ok.mp hrest
    have hbefore := writeData_undefinedOffsets hstart
    constructor
    · intro hundefined
      rcases executeRules_undefined hrun hundefined with
        hinherited | ⟨⟨other, rule⟩, hmem, info', hrule, hinfo', hplace⟩
      · exact .inl (hbefore ▸ hinherited)
      · refine .inr ⟨other, info', ?_, hinfo', hplace⟩
        rw [mem_rules.mp (henumerate.mem_iff.mp hmem)]
        exact congrArg some hrule
    · rintro (hinherited | ⟨other, info', hlookup, hinfo', hplace⟩)
      · exact executeRules_stays_undefined hrun (hbefore ▸ hinherited)
      · rw [← hplace]
        exact executeRules_undefines hrun
          (henumerate.mem_iff.mpr (mem_rules.mpr hlookup)) hinfo'

/-- Along a chain of frames. -/
theorem unwinds_undefined {rows : List (Elf × UnwindContext)} {first last : Registers}
    (henumerate : ∀ rules, (env.enumerate rules).Perm rules.rules)
    (h : env.Unwinds rows first last) :
    info.offset / 2 ∈ last.undefinedOffsets ↔
      info.offset / 2 ∈ first.undefinedOffsets ∨
        ∃ row ∈ rows, row.2.registerRules.Undefines info := by
  induction h with
  | done => simp
  | frame hrow _ ih =>
      rw [ih, executeUnwindRules_undefined (henumerate _) hrow, or_assoc, List.exists_mem_cons_iff]

end Undefined

section Overlap

variable {env : UnwindEnv} {file : Elf} {cfa : Word} {old : Registers} {info : RegisterInfo}
  {reg : BitVec 32}

/-- The registers that DWARF numbers select. -/
def numberedInfos : List RegisterInfo :=
  registerInfos.filter fun info =>
    registerInfos.find? (fun other => other.dwarfId = info.dwarfId) = some info

theorem mem_numberedInfos {number : Int} (h : registerInfoByDwarf number = .ok info) :
    info ∈ numberedInfos := by
  have hid := registerInfoByDwarf_dwarfId h
  refine List.mem_filter.mpr ⟨registerInfoBy_mem h, ?_⟩
  unfold registerInfoByDwarf registerInfoBy at h
  split at h
  · rename_i found hfound
    obtain rfl := Except.ok.inj h
    simpa only [hid, decide_eq_true_eq] using hfound
  · cases h

/-- A register shares bytes with one other register at most. -/
theorem overlap_unique {a b : BitVec 32} {infoA infoB : RegisterInfo}
    (hinfo : registerInfoByDwarf reg.toInt = .ok info)
    (ha : registerInfoByDwarf a.toInt = .ok infoA) (hb : registerInfoByDwarf b.toInt = .ok infoB)
    (hna : a ≠ reg) (hnb : b ≠ reg) (hoverA : ¬ SlotsApart info infoA)
    (hoverB : ¬ SlotsApart info infoB) : a = b := by
  have htable : ∀ info ∈ numberedInfos,
      ∀ x ∈ numberedInfos.filter (fun other => ¬ SlotsApart info other),
      ∀ y ∈ numberedInfos.filter (fun other => ¬ SlotsApart info other),
        x.dwarfId = info.dwarfId ∨ y.dwarfId = info.dwarfId ∨ x.dwarfId = y.dwarfId := by
    decide +kernel
  have hmemA : infoA ∈ numberedInfos.filter (fun other => ¬ SlotsApart info other) :=
    List.mem_filter.mpr ⟨mem_numberedInfos ha, by simpa using hoverA⟩
  have hmemB : infoB ∈ numberedInfos.filter (fun other => ¬ SlotsApart info other) :=
    List.mem_filter.mpr ⟨mem_numberedInfos hb, by simpa using hoverB⟩
  have hcases := htable info (mem_numberedInfos hinfo) infoA hmemA infoB hmemB
  rw [registerInfoByDwarf_dwarfId hinfo, registerInfoByDwarf_dwarfId ha,
    registerInfoByDwarf_dwarfId hb] at hcases
  rcases hcases with hsame | hsame | hsame
  · exact absurd (BitVec.eq_of_toInt_eq hsame) hna
  · exact absurd (BitVec.eq_of_toInt_eq hsame) hnb
  · exact BitVec.eq_of_toInt_eq hsame

/-- What is read from a range after a write depends on the bytes of the range only. -/
theorem read_write_congr {first second : Area} {offset n : Nat}
    (h : first.read offset n = second.read offset n) (other : Nat) (bytes : List Byte) :
    (first.write other bytes).read offset n = (second.write other bytes).read offset n := by
  refine Area.read_congr fun i hlow hhigh => Area.write_congr ?_ other bytes
  have hbyte := congrArg (fun bytes => bytes[i - offset]?) h
  have hindex : i - offset < n := by omega
  simp only [Area.read, List.getElem?_map, List.getElem?_range hindex, Option.map_some,
    Option.some.injEq] at hbyte
  rwa [Nat.add_sub_cancel' hlow] at hbyte

/-- The rules behind that of a register leave the bytes it wrote, exactly if each of
them does. -/
theorem executeRules_leaves_iff {rules : List (BitVec 32 × RegisterRule)}
    {unwound done : Registers} {bytes : List Byte}
    (hinfo : registerInfoByDwarf reg.toInt = .ok info) (hlength : bytes.length = info.size)
    (hnodup : (rules.map Prod.fst).Nodup) (hothers : ∀ other ∈ rules, other.1 ≠ reg)
    (hstart : unwound.data.read info.offset info.size = bytes)
    (hdone : env.executeRules file old cfa rules unwound = .ok done) :
    done.data.read info.offset info.size = bytes ↔
      ∀ other ∈ rules, ∀ info' written,
        env.action file old cfa other = .ok (info', .write written) →
        (Area.write (Area.write (fun _ => 0) info.offset bytes) info'.offset written).read
          info.offset info.size = bytes := by
  have hwritten : (Area.write (fun _ => 0) info.offset bytes).read info.offset info.size = bytes :=
    hlength ▸ Area.read_write _ _ _
  -- a write to a register apart leaves the bytes
  have hapart : ∀ (info' : RegisterInfo) (written : List Byte), written.length = info'.size →
      SlotsApart info info' →
      (Area.write (Area.write (fun _ => 0) info.offset bytes) info'.offset written).read
        info.offset info.size = bytes := by
    intro info' written hsize hslots
    rw [Area.read_write_disjoint _ (by rw [hsize]; exact hslots), hwritten]
  induction rules generalizing unwound with
  | nil =>
      cases hdone
      simp [hstart]
  | cons first rest ih =>
      rw [executeRules_cons] at hdone
      obtain ⟨⟨info₁, effect⟩, haction, hrest⟩ := bind_eq_ok.mp hdone
      obtain ⟨hinfo₁, heffect⟩ := action_eq_ok haction
      obtain ⟨hfresh, hnodup'⟩ := List.nodup_cons.mp hnodup
      have hothers' : ∀ other ∈ rest, other.1 ≠ reg :=
        fun other hother => hothers other (List.mem_cons_of_mem first hother)
      by_cases hslots : SlotsApart info info₁
      · have hstill : (effect.apply info₁ unwound).data.read info.offset info.size = bytes := by
          cases effect with
          | keep => exact hstart
          | undefine => exact hstart
          | write written =>
              refine (Area.read_write_disjoint _ ?_).trans hstart
              rw [ruleEffect_size heffect written rfl]
              exact hslots
        refine (ih hnodup' hothers' hstill hrest).trans ?_
        rw [List.forall_mem_cons]
        refine (and_iff_right ?_).symm
        intro info' written hwrite
        obtain ⟨rfl, rfl⟩ := Prod.mk.inj (Except.ok.inj (haction.symm.trans hwrite))
        exact hapart info₁ written (ruleEffect_size heffect written rfl) hslots
      · have hrestApart : ∀ other ∈ rest, RegistersApart reg other.1 := by
          intro other hother info₂ info₃ hinfo₂ hinfo₃
          obtain rfl := Except.ok.inj (hinfo.symm.trans hinfo₂)
          by_contra hover
          have hsame := overlap_unique hinfo hinfo₁ hinfo₃ (hothers first List.mem_cons_self)
            (hothers' other hother) hslots hover
          exact hfresh (hsame ▸ List.mem_map_of_mem hother)
        rw [executeRules_apart hinfo hrestApart hrest, List.forall_mem_cons]
        have hrestLeaves : ∀ other ∈ rest, ∀ info' written,
            env.action file old cfa other = .ok (info', .write written) →
            (Area.write (Area.write (fun _ => 0) info.offset bytes) info'.offset written).read
              info.offset info.size = bytes := by
          intro other hother info' written hwrite
          obtain ⟨hinfo', heffect'⟩ := action_eq_ok hwrite
          exact hapart info' written (ruleEffect_size heffect' written rfl)
            (hrestApart other hother _ _ hinfo hinfo')
        rw [and_iff_left hrestLeaves]
        cases effect with
        | keep =>
            refine iff_of_true hstart fun info' written hwrite => ?_
            cases haction.symm.trans hwrite
        | undefine =>
            refine iff_of_true hstart fun info' written hwrite => ?_
            cases haction.symm.trans hwrite
        | write written =>
            change (Area.write unwound.data info₁.offset written).read _ _ = bytes ↔ _
            rw [read_write_congr (hstart.trans hwritten.symm)]
            constructor
            · intro hleaves info' other hwrite
              obtain ⟨rfl, heq⟩ := Prod.mk.inj (Except.ok.inj (haction.symm.trans hwrite))
              cases heq
              exact hleaves
            · exact fun hleaves => hleaves info₁ written haction

end Overlap

section Restored

variable {env : UnwindEnv} {file : Elf} {cfa : Word} {old : Registers} {info : RegisterInfo}
  {reg : BitVec 32} {rule : RegisterRule} {value : Value}

/-- A rule with a value writes it. -/
theorem ruleEffect_of_value {effect : RuleEffect}
    (hvalue : env.ruleValue file old cfa rule = .ok (some value))
    (heffect : env.ruleEffect file old cfa info rule = .ok effect) :
    value.sizeof ≤ info.size ∧ effect = .write (toLe info.size (widen info value).toNat) := by
  have hrule : rule ≠ .undefined := by
    rintro rfl
    cases hvalue
  rw [UnwindEnv.ruleEffect, if_neg hrule, hvalue, ok_bind] at heffect
  change (if value.sizeof ≤ info.size then
    pure (.write (toLe info.size (widen info value).toNat))
    else .error .terminate : Except Failure RuleEffect) = _ at heffect
  split at heffect
  · rename_i hsize
    exact ⟨hsize, (Except.ok.inj heffect).symm⟩
  · cases heffect

/-- The bytes of a register after the rules of a row ran. -/
theorem executeRules_value_iff {rules : List (BitVec 32 × RegisterRule)}
    {unwound done : Registers} (hinfo : registerInfoByDwarf reg.toInt = .ok info)
    (hnodup : (rules.map Prod.fst).Nodup) (hmem : (reg, rule) ∈ rules)
    (hvalue : env.ruleValue file old cfa rule = .ok (some value))
    (hdone : env.executeRules file old cfa rules unwound = .ok done) :
    value.sizeof ≤ info.size ∧
      (done.data.read info.offset info.size = toLe info.size (widen info value).toNat ↔
        env.LaterLeave file old cfa rules reg info
          (toLe info.size (widen info value).toNat)) := by
  induction rules generalizing unwound with
  | nil => cases hmem
  | cons first rest ih =>
      rw [executeRules_cons] at hdone
      obtain ⟨⟨info₁, effect⟩, haction, hrest⟩ := bind_eq_ok.mp hdone
      obtain ⟨hinfo₁, heffect⟩ := action_eq_ok haction
      obtain ⟨hfresh, hnodup'⟩ := List.nodup_cons.mp hnodup
      rcases List.mem_cons.mp hmem with rfl | hin
      · obtain rfl := Except.ok.inj (hinfo.symm.trans hinfo₁)
        change env.ruleEffect file old cfa info rule = .ok effect at heffect
        obtain ⟨hsize, rfl⟩ := ruleEffect_of_value hvalue heffect
        have hlength := toLe_length info.size (widen info value).toNat
        have hothers : ∀ other ∈ rest, other.1 ≠ reg :=
          fun other hother hsame => hfresh (List.mem_map.mpr ⟨other, hother, hsame⟩)
        have hstart : (RuleEffect.apply info unwound
            (.write (toLe info.size (widen info value).toNat))).data.read info.offset info.size =
              toLe info.size (widen info value).toNat := by
          have hown := Area.read_write unwound.data info.offset
            (toLe info.size (widen info value).toNat)
          rwa [hlength] at hown
        refine ⟨hsize,
          (executeRules_leaves_iff hinfo hlength hnodup' hothers hstart hrest).trans ?_⟩
        constructor
        · intro hleaves before rule' after hsplit
          cases before with
          | nil =>
              obtain ⟨-, rfl⟩ := List.cons.inj hsplit
              exact hleaves
          | cons other before =>
              obtain ⟨-, rfl⟩ := List.cons.inj hsplit
              exact absurd rfl (hothers (reg, rule') (List.mem_append_right _ List.mem_cons_self))
        · exact fun hleaves => hleaves [] rule rest rfl
      · obtain ⟨hsize, hiff⟩ := ih hnodup' hin hrest
        refine ⟨hsize, hiff.trans ?_⟩
        constructor
        · intro hleaves before rule' after hsplit
          cases before with
          | nil =>
              obtain ⟨rfl, -⟩ := List.cons.inj hsplit
              exact absurd (List.mem_map_of_mem (f := Prod.fst) hin) hfresh
          | cons other before =>
              obtain ⟨-, rfl⟩ := List.cons.inj hsplit
              exact hleaves before rule' after rfl
        · intro hleaves before rule' after hsplit
          exact hleaves (first :: before) rule' after (congrArg (first :: ·) hsplit)

/-- Along a chain of frames, a register whose rule restores a value is read with that
value if and only if it was not undefined at the start, no row on the way, this one
included, takes its value away, and what this row executes behind the rule leaves the
bytes. -/
theorem restored_readable_iff (env : UnwindEnv) {rows : List (Elf × UnwindContext)}
    {first regs unwound : Registers} {file : Elf} {cfa : Word} {ctx : UnwindContext}
    {reg : BitVec 32} {rule : RegisterRule} {info : RegisterInfo} {value : Value}
    (henumerate : ∀ rules, (env.enumerate rules).Perm rules.rules)
    (hchain : env.Unwinds rows first regs)
    (hcfa : env.cfaOf file regs ctx.cfaRule = .ok cfa)
    (hlookup : ctx.registerRules.lookup reg = some rule)
    (hinfo : registerInfoByDwarf reg.toInt = .ok info)
    (hvalue : env.ruleValue file { regs with cfa := cfa } cfa rule = .ok (some value))
    (hrow : (env.executeUnwindRules file ctx regs).2 = .ok unwound) :
    (∃ x, unwound.read info = .ok x ∧ x.bits = widen info value) ↔
      info.offset / 2 ∉ first.undefinedOffsets ∧
      (∀ row ∈ rows, ¬ row.2.registerRules.Undefines info) ∧
      ¬ ctx.registerRules.Undefines info ∧
      env.LaterLeave file { regs with cfa := cfa } cfa (env.enumerate ctx.registerRules) reg
        info (toLe info.size (widen info value).toNat) := by
  have hmem : (reg, rule) ∈ env.enumerate ctx.registerRules :=
    (henumerate _).mem_iff.mpr (mem_rules.mpr hlookup)
  have hnodup : ((env.enumerate ctx.registerRules).map Prod.fst).Nodup :=
    ((henumerate _).map Prod.fst).nodup_iff.mpr (rules_nodup _)
  have hundefined : info.offset / 2 ∈ unwound.undefinedOffsets ↔ _ :=
    executeUnwindRules_undefined (henumerate _) hrow
  rw [unwinds_undefined henumerate hchain] at hundefined
  rw [UnwindEnv.executeUnwindRules, hcfa] at hrow
  obtain ⟨rsp, -, hrest⟩ := bind_eq_ok.mp hrow
  obtain ⟨start, -, hrun⟩ := bind_eq_ok.mp hrest
  obtain ⟨hsize, hbytes⟩ := executeRules_value_iff hinfo hnodup hmem hvalue hrun
  rw [read_bits_iff (registerInfos_isSized info (registerInfoBy_mem hinfo)) (widen_lt hsize),
    hbytes, isUndefined_eq_false, hundefined]
  push Not
  tauto

end Restored

namespace RestoredRegistersWitness

open ExpressionRulesWitness

def rbx : RegisterInfo := gpr64 .rbx "rbx" 3 40

/-- A row that says one thing about `rbx`; the CFA is sixteen bytes above `rbp`. -/
def rowOf (rule : RegisterRule) : UnwindContext :=
  ⟨⟨[], 0⟩, 0, 0x1000, .register 6 16, ∅, (∅ : Ruleset).emplace 3 rule, []⟩

/-- The registers of the frame whose callee has a row. -/
def callerOf (rule : RegisterRule) : Registers :=
  match ((env id).executeUnwindRules program (rowOf rule) regs).2 with
  | .ok caller => caller
  | .error _ => regs

theorem not_rowOf_undefines {rule : RegisterRule} (hrule : rule ≠ .undefined) :
    ¬ (rowOf rule).registerRules.Undefines rbx := by
  rintro ⟨other, -, hlookup, -⟩
  have hmem : (other, .undefined) ∈ (rowOf rule).registerRules.rules := mem_rules.mpr hlookup
  have hrules : (rowOf rule).registerRules.rules = [(3, rule)] := rfl
  rw [hrules, List.mem_singleton] at hmem
  exact hrule (Prod.mk.inj hmem).2.symm

/-- The callee leaves `rbx` alone, the frame restores it from memory. -/
theorem restored_readable_iff_same :
    (env id).Unwinds [(program, rowOf .same)] regs (callerOf .same) ∧
      ∃ unwound, ((env id).executeUnwindRules program (rowOf (.offset (-24))) (callerOf .same)).2 =
          .ok unwound ∧
        ∃ x, unwound.read rbx = .ok x ∧ x.bits = widen rbx (.u64 0x7fe8) := by
  have hchain : (env id).Unwinds [(program, rowOf .same)] regs (callerOf .same) := .frame rfl .done
  have hcfa : (env id).cfaOf program (callerOf .same) (rowOf (.offset (-24))).cfaRule =
    .ok 0x8000 := rfl
  have hvalue :
      (env id).ruleValue program { callerOf .same with cfa := 0x8000 } 0x8000 (.offset (-24)) =
      .ok (some (.u64 0x7fe8)) := rfl
  have hlookup : (rowOf (.offset (-24))).registerRules.lookup 3 = some (.offset (-24)) := rfl
  refine ⟨hchain, _, rfl, (restored_readable_iff (env id) (fun _ => List.Perm.refl _) hchain hcfa
    hlookup rfl hvalue rfl).mpr ⟨List.not_mem_nil, ?_, ?_, ?_⟩⟩
  · intro row hrow
    obtain rfl := List.mem_singleton.mp hrow
    exact not_rowOf_undefines (by decide)
  · exact not_rowOf_undefines (by decide)
  · intro before rule after hsplit other hother
    have hrules : [(3, .offset (-24))] = before ++ (3, rule) :: after := hsplit
    have hafter : after = [] := by
      have hlength := congrArg List.length hrules
      simp only [List.length_append, List.length_cons, List.length_nil] at hlength
      exact List.length_eq_zero_iff.mp (by omega)
    rw [hafter] at hother
    cases hother

/-- The callee's row takes the value of `rbx` away; what the frame restores from memory
cannot be read. -/
theorem restored_not_readable :
    (env id).Unwinds [(program, rowOf .undefined)] regs (callerOf .undefined) ∧
      (rowOf (.offset (-24))).registerRules.lookup 3 = some (.offset (-24)) ∧
      (env id).ruleValue program { callerOf .undefined with cfa := 0x8000 } 0x8000 (.offset (-24)) =
        .ok (some (.u64 0x7fe8)) ∧
      ∃ unwound,
          ((env id).executeUnwindRules program (rowOf (.offset (-24))) (callerOf .undefined)).2 =
          .ok unwound ∧
        unwound.read rbx = .error (.error "Register is undefined") :=
  ⟨.frame rfl .done, rfl, rfl, _, rfl, rfl⟩

end RestoredRegistersWitness

end Gsdb
