/-
Placing items by reservation from pools: every kind has its own supply, an item
reserves what it needs of every kind at once, and an item that cannot is set apart.
Nothing here knows what the items or the supplies are.
-/
import Mathlib.Data.List.Nodup
import Mathlib.Logic.Function.Basic

namespace PoolAllocation

variable {κ ρ : Type*} [DecidableEq κ]

/-- What is left of the supply of every kind, the next one first. -/
abbrev Pools (κ ρ : Type*) := κ → List ρ

/-- What an item reserves, and what it takes if it can. -/
structure Demand (κ : Type*) where
  reserved : List κ
  taken : List κ

/-- An item is set apart or has taken some of the supplies. -/
inductive Placement (ρ : Type*) where
  | apart
  | among (taken : List ρ)

def Placement.taken : Placement ρ → List ρ
  | .apart => []
  | .among taken => taken

/-- There is enough left for a list of kinds. -/
def Suffices (pools : Pools κ ρ) (kinds : List κ) : Prop :=
  ∀ kind, kinds.count kind ≤ (pools kind).length

/-- One after the other the next of its kind is taken. -/
inductive Takes : Pools κ ρ → List κ → List ρ → Pools κ ρ → Prop
  | nil (pools : Pools κ ρ) : Takes pools [] [] pools
  | cons {pools final : Pools κ ρ} {kind : κ} {kinds : List κ} {next : ρ} {left taken : List ρ}
      (hnext : pools kind = next :: left)
      (hrest : Takes (Function.update pools kind left) kinds taken final) :
      Takes pools (kind :: kinds) (next :: taken) final

/-- Item after item: one that reserves nothing, or more than is left, is set apart, the
others take. -/
inductive Allocates : Pools κ ρ → List (Demand κ) → List (Placement ρ) → Pools κ ρ → Prop
  | nil (pools : Pools κ ρ) : Allocates pools [] [] pools
  | apart {pools final : Pools κ ρ} {demand : Demand κ} {demands : List (Demand κ)}
      {placements : List (Placement ρ)}
      (hno : demand.reserved = [] ∨ ¬ Suffices pools demand.reserved)
      (hrest : Allocates pools demands placements final) :
      Allocates pools (demand :: demands) (.apart :: placements) final
  | among {pools middle final : Pools κ ρ} {demand : Demand κ} {demands : List (Demand κ)}
      {taken : List ρ} {placements : List (Placement ρ)} (hsome : demand.reserved ≠ [])
      (hsuffices : Suffices pools demand.reserved)
      (htakes : Takes pools demand.taken taken middle)
      (hrest : Allocates middle demands placements final) :
      Allocates pools (demand :: demands) (.among taken :: placements) final

theorem Takes.unique {pools final final' : Pools κ ρ} {kinds : List κ} {taken taken' : List ρ}
    (h : Takes pools kinds taken final) (h' : Takes pools kinds taken' final') :
    taken = taken' ∧ final = final' := by
  induction h generalizing taken' final' with
  | nil =>
      cases h'
      exact ⟨rfl, rfl⟩
  | cons hnext hrest ih =>
      cases h' with
      | cons hnext' hrest' =>
          rw [hnext] at hnext'
          cases hnext'
          obtain ⟨rfl, rfl⟩ := ih hrest'
          exact ⟨rfl, rfl⟩

theorem Allocates.unique {pools final final' : Pools κ ρ} {demands : List (Demand κ)}
    {placements placements' : List (Placement ρ)} (h : Allocates pools demands placements final)
    (h' : Allocates pools demands placements' final') :
    placements = placements' ∧ final = final' := by
  induction h generalizing placements' final' with
  | nil =>
      cases h'
      exact ⟨rfl, rfl⟩
  | apart hno _ ih =>
      cases h' with
      | apart _ hrest' =>
          obtain ⟨rfl, rfl⟩ := ih hrest'
          exact ⟨rfl, rfl⟩
      | among hsome hsuffices _ _ =>
          rcases hno with hnil | hnot
          · exact absurd hnil hsome
          · exact absurd hsuffices hnot
  | among hsome hsuffices htakes _ ih =>
      cases h' with
      | apart hno _ =>
          rcases hno with hnil | hnot
          · exact absurd hnil hsome
          · exact absurd hsuffices hnot
      | among _ _ htakes' hrest' =>
          obtain ⟨rfl, rfl⟩ := htakes.unique htakes'
          obtain ⟨rfl, rfl⟩ := ih hrest'
          exact ⟨rfl, rfl⟩

theorem Takes.suffices {pools final : Pools κ ρ} {kinds : List κ} {taken : List ρ}
    (h : Takes pools kinds taken final) : Suffices pools kinds := by
  induction h with
  | nil => exact fun _ => Nat.zero_le _
  | @cons pools final kind kinds next left taken hnext hrest ih =>
      intro other
      have hother := ih other
      by_cases heq : other = kind
      · subst heq
        rw [Function.update_self] at hother
        rw [hnext, List.count_cons_self, List.length_cons]
        omega
      · rw [Function.update_of_ne heq] at hother
        rwa [List.count_cons_of_ne (Ne.symm heq)]

/-- Nothing is in two supplies, or twice in one. -/
structure Disjoint (pools : Pools κ ρ) : Prop where
  nodup : ∀ kind, (pools kind).Nodup
  apart : ∀ {kind other : κ} {r : ρ}, r ∈ pools kind → r ∈ pools other → kind = other

/-- What is taken was there, is taken once, and is gone. -/
theorem Takes.disjoint {pools final : Pools κ ρ} {kinds : List κ} {taken : List ρ}
    (h : Takes pools kinds taken final) (hpools : Disjoint pools) :
    Disjoint final ∧ taken.Nodup ∧ (∀ r ∈ taken, ∃ kind, r ∈ pools kind) ∧
      (∀ r kind, r ∈ final kind → r ∈ pools kind ∧ r ∉ taken) := by
  induction h with
  | nil => exact ⟨hpools, List.nodup_nil, by simp, fun r kind hr => ⟨hr, by simp⟩⟩
  | @cons pools final kind kinds next left taken hnext hrest ih =>
      have hmem : ∀ r other, r ∈ Function.update pools kind left other → r ∈ pools other := by
        intro r other hr
        by_cases heq : other = kind
        · subst heq
          rw [Function.update_self] at hr
          rw [hnext]
          exact List.mem_cons_of_mem _ hr
        · rwa [Function.update_of_ne heq] at hr
      have hhead := hpools.nodup kind
      rw [hnext, List.nodup_cons] at hhead
      have hupdated : Disjoint (Function.update pools kind left) := by
        refine ⟨fun other => ?_, fun hr hr' => hpools.apart (hmem _ _ hr) (hmem _ _ hr')⟩
        by_cases heq : other = kind
        · subst heq
          rw [Function.update_self]
          exact hhead.2
        · rw [Function.update_of_ne heq]
          exact hpools.nodup other
      obtain ⟨hfinal, hnodup, hthere, hgone⟩ := ih hupdated
      have hfirst : next ∈ pools kind := by simp [hnext]
      have hnot : ∀ other, next ∉ Function.update pools kind left other := by
        intro other hr
        have heq := hpools.apart (hmem _ _ hr) hfirst
        subst heq
        rw [Function.update_self] at hr
        exact hhead.1 hr
      refine ⟨hfinal, List.nodup_cons.mpr ⟨fun hr => ?_, hnodup⟩, ?_, fun r other hr => ?_⟩
      · obtain ⟨other, hother⟩ := hthere next hr
        exact hnot other hother
      · intro r hr
        rcases List.mem_cons.mp hr with rfl | hr
        · exact ⟨kind, hfirst⟩
        · obtain ⟨other, hother⟩ := hthere r hr
          exact ⟨other, hmem _ _ hother⟩
      · obtain ⟨hbefore, hfree⟩ := hgone r other hr
        refine ⟨hmem _ _ hbefore, fun htaken => ?_⟩
        rcases List.mem_cons.mp htaken with rfl | htaken
        · exact hnot other hbefore
        · exact hfree htaken

/-- What is left was there before. -/
theorem Takes.mem_left {pools final : Pools κ ρ} {kinds : List κ} {taken : List ρ}
    (h : Takes pools kinds taken final) {r : ρ} {kind : κ} (hr : r ∈ final kind) :
    r ∈ pools kind := by
  induction h with
  | nil => exact hr
  | @cons pools final other kinds next left taken hnext hrest ih =>
      have hmem := ih hr
      by_cases heq : kind = other
      · subst heq
        rw [Function.update_self] at hmem
        rw [hnext]
        exact List.mem_cons_of_mem _ hmem
      · rwa [Function.update_of_ne heq] at hmem

/-- The supply of one kind is recognized by a test. -/
structure Recognizes (p : ρ → Bool) (kind : κ) (pools : Pools κ ρ) : Prop where
  own : ∀ r ∈ pools kind, p r = true
  other : ∀ other, other ≠ kind → ∀ r ∈ pools other, p r = false

theorem Recognizes.left {p : ρ → Bool} {kind : κ} {pools final : Pools κ ρ} {kinds : List κ}
    {taken : List ρ} (h : Recognizes p kind pools) (htakes : Takes pools kinds taken final) :
    Recognizes p kind final :=
  ⟨fun r hr => h.own r (htakes.mem_left hr),
    fun other hother r hr => h.other other hother r (htakes.mem_left hr)⟩

/-- The supply of a kind is what is taken of it, in order, and what is left. -/
theorem Takes.supply {p : ρ → Bool} {kind : κ} {pools final : Pools κ ρ} {kinds : List κ}
    {taken : List ρ} (htakes : Takes pools kinds taken final) (h : Recognizes p kind pools) :
    taken.filter p ++ final kind = pools kind := by
  induction htakes with
  | nil => rfl
  | @cons pools final first kinds next left taken hnext hrest ih =>
      have hone : Takes pools [first] [next] (Function.update pools first left) :=
        .cons hnext (.nil _)
      have hlater := ih (h.left hone)
      by_cases heq : kind = first
      · subst heq
        rw [Function.update_self] at hlater
        have hown := h.own next (by simp [hnext])
        rw [List.filter_cons_of_pos hown, List.cons_append, hlater, hnext]
      · rw [Function.update_of_ne heq] at hlater
        have hother := h.other first (Ne.symm heq) next (by simp [hnext])
        rw [List.filter_cons_of_neg (by simp [hother]), hlater]

theorem Allocates.supply {p : ρ → Bool} {kind : κ} {pools final : Pools κ ρ}
    {demands : List (Demand κ)} {placements : List (Placement ρ)}
    (hall : Allocates pools demands placements final) (h : Recognizes p kind pools) :
    (placements.flatMap Placement.taken).filter p ++ final kind = pools kind := by
  induction hall with
  | nil => rfl
  | apart _ _ ih => exact ih h
  | among _ _ htakes _ ih =>
      rw [List.flatMap_cons, List.filter_append, List.append_assoc, ih (h.left htakes)]
      exact htakes.supply h

/-- Nothing is handed out twice. -/
theorem Allocates.disjoint {pools final : Pools κ ρ} {demands : List (Demand κ)}
    {placements : List (Placement ρ)} (h : Allocates pools demands placements final)
    (hpools : Disjoint pools) :
    (placements.flatMap Placement.taken).Nodup ∧
      ∀ r ∈ placements.flatMap Placement.taken, ∃ kind, r ∈ pools kind := by
  induction h with
  | nil => simp
  | apart _ _ ih => exact ih hpools
  | among _ _ htakes _ ih =>
      obtain ⟨hmiddle, hnodup, hthere, hgone⟩ := htakes.disjoint hpools
      obtain ⟨hrest, hfrom⟩ := ih hmiddle
      rw [List.flatMap_cons]
      refine ⟨List.nodup_append.mpr ⟨hnodup, hrest, fun r hr r' hr' heq => ?_⟩, fun r hr => ?_⟩
      · subst heq
        obtain ⟨kind, hkind⟩ := hfrom r hr'
        exact (hgone r kind hkind).2 hr
      · rcases List.mem_append.mp hr with hr | hr
        · exact hthere r hr
        · obtain ⟨kind, hkind⟩ := hfrom r hr
          exact ⟨kind, (hgone r kind hkind).1⟩

end PoolAllocation
