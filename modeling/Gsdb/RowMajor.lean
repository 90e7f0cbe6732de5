/-
Arrays of several dimensions, rows first: the indices, the place of an element, and
lists of lists nested as the dimensions are.
-/
import Mathlib.Algebra.BigOperators.Group.List.Basic
import Mathlib.Data.List.Forall2

namespace Gsdb

/-- An index tuple, one index for each dimension. -/
def IsIndex (sizes index : List Nat) : Prop := List.Forall₂ (· < ·) index sizes

/-- The place of an element, where `acc` elements of a row before it were passed. -/
def rowMajorFrom (acc : Nat) : List Nat → List Nat → Nat
  | size :: sizes, i :: index => rowMajorFrom (acc * size + i) sizes index
  | _, _ => acc

/-- The place of an element among all: `(i₁ * d₂ + i₂) * d₃ + … + iₖ`. -/
def rowMajor (sizes index : List Nat) : Nat := rowMajorFrom 0 sizes index

section Places

variable {sizes index : List Nat}

theorem rowMajorFrom_eq (h : index.length = sizes.length) (acc : Nat) :
    rowMajorFrom acc sizes index = acc * sizes.prod + rowMajor sizes index := by
  induction sizes generalizing index acc with
  | nil =>
      cases index with
      | nil => simp [rowMajorFrom, rowMajor]
      | cons i index => cases h
  | cons size sizes ih =>
      cases index with
      | nil => cases h
      | cons i index =>
          have hrest : index.length = sizes.length := Nat.succ.inj h
          rw [rowMajor, rowMajorFrom, rowMajorFrom, ih hrest, ih hrest, List.prod_cons,
            Nat.zero_mul, Nat.zero_add, Nat.add_mul, Nat.mul_assoc, Nat.add_assoc]

/-- An index of a dimension passes that many rows. -/
theorem rowMajor_cons (h : index.length = sizes.length) (size i : Nat) :
    rowMajor (size :: sizes) (i :: index) = i * sizes.prod + rowMajor sizes index := by
  rw [rowMajor, rowMajorFrom, rowMajorFrom_eq h, Nat.zero_mul, Nat.zero_add]

theorem rowMajor_singleton (size i : Nat) : rowMajor [size] [i] = i := by
  simp [rowMajor, rowMajorFrom]

theorem IsIndex.length_eq (h : IsIndex sizes index) : index.length = sizes.length :=
  List.Forall₂.length_eq h

theorem IsIndex.rowMajor_lt (h : IsIndex sizes index) : rowMajor sizes index < sizes.prod := by
  induction h with
  | nil => exact Nat.one_pos
  | @cons i size index sizes hi hrest ih =>
      rw [rowMajor_cons (IsIndex.length_eq hrest), List.prod_cons]
      calc i * sizes.prod + rowMajor sizes index < i * sizes.prod + sizes.prod := by omega
        _ = (i + 1) * sizes.prod := (Nat.succ_mul i sizes.prod).symm
        _ ≤ size * sizes.prod := Nat.mul_le_mul_right _ hi

end Places

theorem isIndex_singleton {size : Nat} {index : List Nat} :
    IsIndex [size] index ↔ ∃ i, index = [i] ∧ i < size := by
  constructor
  · intro h
    cases h with
    | cons hi hrest =>
        cases hrest
        exact ⟨_, rfl, hi⟩
  · rintro ⟨i, rfl, hi⟩
    exact .cons hi .nil

/-- The first index of every dimension. -/
theorem isIndex_zeros {sizes : List Nat} (h : ∀ size ∈ sizes, 0 < size) :
    IsIndex sizes (List.replicate sizes.length 0) := by
  induction sizes with
  | nil => exact .nil
  | cons size sizes ih =>
      exact .cons (h size List.mem_cons_self) (ih fun s hs => h s (List.mem_cons_of_mem _ hs))

end Gsdb
