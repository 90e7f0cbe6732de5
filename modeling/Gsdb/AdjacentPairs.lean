/-
Searching a list for two neighbours in a relation: where the search ends in a list
that is sorted by a key, and in a list of segments whose last elements are in
relation to nothing.
-/
import Mathlib.Data.List.Basic
import Mathlib.Order.Lattice

namespace AdjacentPairs

variable {α : Type} {p : α → α → Prop} [DecidableRel p]

/-- The first two neighbours that are in relation. -/
def firstPair (p : α → α → Prop) [DecidableRel p] : List α → Option (α × α)
  | a :: b :: rest => if p a b then some (a, b) else firstPair p (b :: rest)
  | _ => none

theorem firstPair_cons_cons (a b : α) (rest : List α) :
    firstPair p (a :: b :: rest) = if p a b then some (a, b) else firstPair p (b :: rest) := rfl

theorem firstPair_eq_some {l : List α} {a b : α} (h : firstPair p l = some (a, b)) :
    p a b ∧ ∃ before after, l = before ++ a :: b :: after := by
  induction l with
  | nil => cases h
  | cons c rest ih =>
      cases rest with
      | nil => cases h
      | cons d rest =>
          rw [firstPair_cons_cons] at h
          split at h
          · rename_i hp
            obtain ⟨rfl, rfl⟩ := Prod.mk.inj (Option.some.inj h)
            exact ⟨hp, [], rest, rfl⟩
          · obtain ⟨hp, before, after, hsplit⟩ := ih h
            refine ⟨hp, c :: before, after, ?_⟩
            rw [hsplit]
            rfl

theorem firstPair_ne_none {before after : List α} {a b : α} (hp : p a b) :
    firstPair p (before ++ a :: b :: after) ≠ none := by
  induction before with
  | nil =>
      rw [List.nil_append, firstPair_cons_cons, if_pos hp]
      exact Option.some_ne_none _
  | cons c before ih =>
      cases before with
      | nil =>
          rw [List.cons_append, List.nil_append, firstPair_cons_cons]
          split
          · exact Option.some_ne_none _
          · exact ih
      | cons d before =>
          rw [List.cons_append, List.cons_append, firstPair_cons_cons]
          split
          · exact Option.some_ne_none _
          · exact ih

/-- Where the neighbours in relation are those around a value, a sorted list has no
two of them. -/
theorem firstPair_eq_of_sorted {κ : Type} [LinearOrder κ] {key : α → κ} {x : κ} {l : List α}
    (hsorted : l.Pairwise fun a b => key a ≤ key b)
    (haround : ∀ a b, p a b → key a ≤ x ∧ x < key b) {before after : List α} {a b : α}
    (hsplit : l = before ++ a :: b :: after) (hp : p a b) : firstPair p l = some (a, b) := by
  subst hsplit
  induction before with
  | nil => rw [List.nil_append, firstPair_cons_cons, if_pos hp]
  | cons c before ih =>
      rw [List.cons_append] at hsorted
      obtain ⟨-, hrest⟩ := List.pairwise_cons.mp hsorted
      have hfound := ih hrest
      obtain ⟨d, rest, hcons⟩ : ∃ d rest, before ++ a :: b :: after = d :: rest := by
        cases before with
        | nil => exact ⟨a, b :: after, rfl⟩
        | cons d before => exact ⟨d, before ++ a :: b :: after, rfl⟩
      have hbefore : ¬ p c d := by
        intro hother
        have hle : key d ≤ key a := by
          have hmem : a ∈ d :: rest := by
            rw [← hcons]
            simp
          rcases List.mem_cons.mp hmem with rfl | hmem
          · exact le_refl _
          · rw [hcons] at hrest
            exact (List.pairwise_cons.mp hrest).1 a hmem
        have hlt := (haround c d hother).2
        exact absurd (lt_of_lt_of_le hlt (le_trans hle (haround a b hp).1)) (lt_irrefl _)
      rw [List.cons_append, hcons, firstPair_cons_cons, if_neg hbefore, ← hcons]
      exact hfound

/-- A last element in relation to nothing parts the search. -/
theorem firstPair_append {body : List α} {last : α} (hlast : ∀ b, ¬ p last b) (rest : List α) :
    firstPair p (body ++ [last] ++ rest) =
      (firstPair p (body ++ [last])).or (firstPair p rest) := by
  induction body with
  | nil =>
      cases rest with
      | nil => rfl
      | cons b rest =>
          rw [List.nil_append, List.cons_append, List.nil_append, firstPair_cons_cons,
            if_neg (hlast b)]
          rfl
  | cons a body ih =>
      cases body with
      | nil =>
          simp only [List.cons_append, List.nil_append, firstPair_cons_cons] at ih ⊢
          split
          · rfl
          · exact ih
      | cons b body =>
          simp only [List.cons_append, firstPair_cons_cons] at ih ⊢
          split
          · rfl
          · exact ih

/-- In segments of which no two have neighbours in relation, the search finds those
of the one that has. -/
theorem firstPair_flatten {segments : List (List α)}
    (hlast : ∀ s ∈ segments, ∃ body last, s = body ++ [last] ∧ ∀ b, ¬ p last b)
    (hone : segments.Pairwise fun s t => firstPair p s = none ∨ firstPair p t = none)
    (found : α × α) :
    firstPair p segments.flatten = some found ↔ ∃ s ∈ segments, firstPair p s = some found := by
  induction segments with
  | nil => simp [firstPair]
  | cons s rest ih =>
      obtain ⟨hothers, hone⟩ := List.pairwise_cons.mp hone
      have ih := ih (fun t ht => hlast t (List.mem_cons_of_mem _ ht)) hone
      obtain ⟨body, last, rfl, hend⟩ := hlast s List.mem_cons_self
      rw [List.flatten_cons, firstPair_append hend, List.exists_mem_cons_iff, ← ih]
      cases hfirst : firstPair p (body ++ [last]) with
      | none => simp
      | some other =>
          have hrest : firstPair p rest.flatten ≠ some found := by
            intro hfound
            obtain ⟨t, ht, hsome⟩ := ih.mp hfound
            rcases hothers t ht with hnone | hnone
            · rw [hfirst] at hnone
              cases hnone
            · rw [hsome] at hnone
              cases hnone
          simp [hrest]

end AdjacentPairs
