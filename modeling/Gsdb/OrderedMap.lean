/-
Ordered maps, as lists that are sorted by their keys.  An insertion keeps the value of a key
that is present, and a search splits the map at a key.
-/
import Mathlib.Data.List.Induction
import Mathlib.Data.List.TakeWhile
import Mathlib.Order.Lattice

namespace OrderedMaps

variable {κ α : Type} [LinearOrder κ]

/-- Insert an entry in front of the first one whose key is not below its own, unless that has
its key. -/
def insertEntry (entry : κ × α) : List (κ × α) → List (κ × α)
  | [] => [entry]
  | other :: rest =>
      if other.1 < entry.1 then other :: insertEntry entry rest
      else if entry.1 < other.1 then entry :: other :: rest
      else other :: rest

theorem mem_of_mem_insertEntry {entry x : κ × α} {entries : List (κ × α)}
    (h : x ∈ insertEntry entry entries) : x = entry ∨ x ∈ entries := by
  induction entries with
  | nil => exact .inl (List.mem_singleton.mp h)
  | cons other rest ih =>
      unfold insertEntry at h
      split at h
      · rcases List.mem_cons.mp h with rfl | h
        · exact .inr List.mem_cons_self
        · exact (ih h).imp id (List.mem_cons_of_mem other)
      · split at h
        · exact List.mem_cons.mp h
        · exact .inr h

theorem insertEntry_sorted (entry : κ × α) {entries : List (κ × α)}
    (h : entries.Pairwise fun x y => x.1 < y.1) :
    (insertEntry entry entries).Pairwise fun x y => x.1 < y.1 := by
  induction entries with
  | nil => exact List.pairwise_singleton _ _
  | cons other rest ih =>
      obtain ⟨hother, hrest⟩ := List.pairwise_cons.mp h
      unfold insertEntry
      split
      · rename_i hbelow
        refine List.pairwise_cons.mpr ⟨fun x hx => ?_, ih hrest⟩
        rcases mem_of_mem_insertEntry hx with rfl | hx
        · exact hbelow
        · exact hother x hx
      · split
        · rename_i habove
          refine List.pairwise_cons.mpr ⟨fun x hx => ?_, h⟩
          rcases List.mem_cons.mp hx with rfl | hx
          · exact habove
          · exact lt_trans habove (hother x hx)
        · exact h

/-- An ordered map. -/
structure OrderedMap (κ α : Type) [LinearOrder κ] where
  entries : List (κ × α)
  sorted : entries.Pairwise fun x y => x.1 < y.1

namespace OrderedMap

def empty : OrderedMap κ α := ⟨[], .nil⟩

def insert (map : OrderedMap κ α) (entry : κ × α) : OrderedMap κ α :=
  ⟨insertEntry entry map.entries, insertEntry_sorted entry map.sorted⟩

/-- The map after insertions, one after the other. -/
def ofList (entries : List (κ × α)) : OrderedMap κ α := entries.foldl insert empty

/-- The entries in front of a key. -/
def below (map : OrderedMap κ α) (key : κ) : List (κ × α) :=
  map.entries.takeWhile fun entry => entry.1 < key

/-- The entries from the first one on whose key is not below a key. -/
def lowerBound (map : OrderedMap κ α) (key : κ) : List (κ × α) :=
  map.entries.dropWhile fun entry => entry.1 < key

end OrderedMap

section Insertion

/-- An entry is there exactly if it was, or if it is new and its key was not there. -/
theorem mem_insertEntry {entry x : κ × α} {entries : List (κ × α)}
    (h : entries.Pairwise fun x y => x.1 < y.1) :
    x ∈ insertEntry entry entries ↔
      x ∈ entries ∨ x = entry ∧ ∀ other ∈ entries, other.1 ≠ entry.1 := by
  induction entries with
  | nil => simp [insertEntry]
  | cons other rest ih =>
      obtain ⟨hother, hrest⟩ := List.pairwise_cons.mp h
      unfold insertEntry
      by_cases hbelow : other.1 < entry.1
      · rw [if_pos hbelow, List.mem_cons, ih hrest, List.mem_cons, or_assoc]
        simp [hbelow.ne]
      · rw [if_neg hbelow]
        by_cases habove : entry.1 < other.1
        · have hfresh : ∀ y ∈ other :: rest, y.1 ≠ entry.1 := by
            intro y hy
            rcases List.mem_cons.mp hy with rfl | hy
            · exact habove.ne'
            · exact (lt_trans habove (hother y hy)).ne'
          rw [if_pos habove, List.mem_cons]
          constructor
          · rintro (rfl | hx)
            · exact .inr ⟨rfl, hfresh⟩
            · exact .inl hx
          · rintro (hx | ⟨rfl, -⟩)
            · exact .inr hx
            · exact .inl rfl
        · have hsame : other.1 = entry.1 := le_antisymm (not_lt.mp habove) (not_lt.mp hbelow)
          rw [if_neg habove]
          constructor
          · exact .inl
          · rintro (hx | ⟨-, hfresh⟩)
            · exact hx
            · exact absurd hsame (hfresh other List.mem_cons_self)

theorem ofList_append_singleton (entries : List (κ × α)) (entry : κ × α) :
    OrderedMap.ofList (entries ++ [entry]) = (OrderedMap.ofList entries).insert entry := by
  rw [OrderedMap.ofList, List.foldl_append]
  rfl

/-- The keys that were inserted are there. -/
theorem key_mem_ofList (entries : List (κ × α)) (key : κ) :
    (∃ x ∈ (OrderedMap.ofList entries).entries, x.1 = key) ↔ ∃ x ∈ entries, x.1 = key := by
  induction entries using List.reverseRecOn with
  | nil => rfl
  | append_singleton entries entry ih =>
      rw [ofList_append_singleton]
      constructor
      · rintro ⟨x, hx, rfl⟩
        rcases mem_of_mem_insertEntry hx with rfl | hx
        · exact ⟨x, by simp, rfl⟩
        · obtain ⟨y, hy, hkey⟩ := ih.mp ⟨x, hx, rfl⟩
          exact ⟨y, List.mem_append_left _ hy, hkey⟩
      · rintro ⟨x, hx, rfl⟩
        rcases List.mem_append.mp hx with hx | hx
        · obtain ⟨y, hy, hkey⟩ := ih.mpr ⟨x, hx, rfl⟩
          exact ⟨y, (mem_insertEntry (OrderedMap.ofList entries).sorted).mpr (.inl hy), hkey⟩
        · obtain rfl := List.mem_singleton.mp hx
          by_cases hthere : ∃ y ∈ (OrderedMap.ofList entries).entries, y.1 = x.1
          · obtain ⟨y, hy, hkey⟩ := hthere
            exact ⟨y, (mem_insertEntry (OrderedMap.ofList entries).sorted).mpr (.inl hy), hkey⟩
          · refine ⟨x, (mem_insertEntry (OrderedMap.ofList entries).sorted).mpr
              (.inr ⟨rfl, ?_⟩), rfl⟩
            intro y hy hkey
            exact hthere ⟨y, hy, hkey⟩

/-- An entry is in the map exactly if it is the first one that was inserted with its key. -/
theorem mem_ofList {entries : List (κ × α)} {x : κ × α} :
    x ∈ (OrderedMap.ofList entries).entries ↔
      ∃ before after, entries = before ++ x :: after ∧ ∀ other ∈ before, other.1 ≠ x.1 := by
  induction entries using List.reverseRecOn with
  | nil =>
      constructor
      · intro h
        cases h
      · rintro ⟨before, after, h, -⟩
        simp at h
  | append_singleton entries entry ih =>
      rw [ofList_append_singleton]
      refine (mem_insertEntry (OrderedMap.ofList entries).sorted).trans ?_
      rw [ih]
      constructor
      · rintro (⟨before, after, rfl, hfirst⟩ | ⟨rfl, hfresh⟩)
        · exact ⟨before, after ++ [entry], by simp, hfirst⟩
        · refine ⟨entries, [], rfl, fun other hmem hkey => ?_⟩
          obtain ⟨y, hy, hsame⟩ := (key_mem_ofList entries x.1).mpr ⟨other, hmem, hkey⟩
          exact hfresh y hy hsame
      · rintro ⟨before, after, hsplit, hfirst⟩
        rcases List.eq_nil_or_concat after with rfl | ⟨after, last, rfl⟩
        · obtain ⟨rfl, hlast⟩ := List.append_inj' hsplit rfl
          obtain rfl := (List.cons.inj hlast).1
          right
          refine ⟨rfl, fun other hmem hkey => ?_⟩
          obtain ⟨y, hy, hsame⟩ := (key_mem_ofList entries entry.1).mp ⟨other, hmem, hkey⟩
          exact hfirst y hy hsame
        · left
          rw [List.concat_eq_append, ← List.cons_append, ← List.append_assoc] at hsplit
          exact ⟨before, after, (List.append_inj' hsplit rfl).1, hfirst⟩

end Insertion

section Search

variable {map : OrderedMap κ α} {key : κ} {x y : κ × α}

theorem below_append_lowerBound (map : OrderedMap κ α) (key : κ) :
    map.below key ++ map.lowerBound key = map.entries :=
  List.takeWhile_append_dropWhile

theorem lt_of_mem_below (h : x ∈ map.below key) : x.1 < key := by
  simpa using List.mem_takeWhile_imp h

/-- Not below the key are the entry behind the split and those behind it. -/
theorem le_of_mem_lowerBound (h : x ∈ map.lowerBound key) : key ≤ x.1 := by
  have hsorted : (map.below key ++ map.lowerBound key).Pairwise fun x y => x.1 < y.1 := by
    rw [below_append_lowerBound]
    exact map.sorted
  have hhead : match (map.lowerBound key).head? with
      | some y => key ≤ y.1
      | none => True := by
    have := List.head?_dropWhile_not (fun entry : κ × α => entry.1 < key) map.entries
    rw [OrderedMap.lowerBound]
    split
    · rename_i y hy
      simpa [hy] using this
    · trivial
  cases hrest : map.lowerBound key with
  | nil => simp [hrest] at h
  | cons first rest =>
      rw [hrest] at hhead h hsorted
      rcases List.mem_cons.mp h with rfl | hx
      · exact hhead
      · have hlater := (List.pairwise_cons.mp (List.pairwise_append.mp hsorted).2.1).1 x hx
        exact le_trans hhead hlater.le

theorem mem_below_iff : x ∈ map.below key ↔ x ∈ map.entries ∧ x.1 < key := by
  constructor
  · intro h
    exact ⟨below_append_lowerBound map key ▸ List.mem_append_left _ h, lt_of_mem_below h⟩
  · rintro ⟨hmem, hlt⟩
    rw [← below_append_lowerBound map key] at hmem
    rcases List.mem_append.mp hmem with h | h
    · exact h
    · exact absurd hlt (not_lt.mpr (le_of_mem_lowerBound h))

theorem mem_lowerBound_iff : x ∈ map.lowerBound key ↔ x ∈ map.entries ∧ key ≤ x.1 := by
  constructor
  · intro h
    exact ⟨below_append_lowerBound map key ▸ List.mem_append_right _ h, le_of_mem_lowerBound h⟩
  · rintro ⟨hmem, hle⟩
    rw [← below_append_lowerBound map key] at hmem
    rcases List.mem_append.mp hmem with h | h
    · exact absurd (lt_of_mem_below h) (not_lt.mpr hle)
    · exact h

/-- Entries of one key are the same. -/
theorem eq_of_key_eq (hx : x ∈ map.entries) (hy : y ∈ map.entries) (h : x.1 = y.1) : x = y := by
  obtain ⟨before, after, hsplit⟩ := List.append_of_mem hx
  have hsorted := hsplit ▸ map.sorted
  obtain ⟨-, hafter, hbefore⟩ := List.pairwise_append.mp hsorted
  rw [hsplit] at hy
  rcases List.mem_append.mp hy with hy | hy
  · exact absurd h (hbefore y hy x List.mem_cons_self).ne'
  · rcases List.mem_cons.mp hy with rfl | hy
    · rfl
    · exact absurd h ((List.pairwise_cons.mp hafter).1 y hy).ne

/-- The entry in front of the split is the one with the greatest key below the key. -/
theorem getLast_below (h : (map.below key).getLast? = some x) :
    x ∈ map.entries ∧ x.1 < key ∧ ∀ y ∈ map.entries, y.1 < key → y.1 ≤ x.1 := by
  obtain ⟨front, hfront⟩ := List.getLast?_eq_some_iff.mp h
  have hx : x ∈ map.below key := hfront ▸ List.mem_append_right _ List.mem_cons_self
  refine ⟨(mem_below_iff.mp hx).1, (mem_below_iff.mp hx).2, fun y hy hlt => ?_⟩
  have hbelow : y ∈ front ++ [x] := hfront ▸ mem_below_iff.mpr ⟨hy, hlt⟩
  have hsorted : (front ++ [x]).Pairwise fun x y => x.1 < y.1 := by
    rw [← hfront]
    exact map.sorted.sublist (List.takeWhile_sublist _)
  rcases List.mem_append.mp hbelow with hy | hy
  · exact ((List.pairwise_append.mp hsorted).2.2 y hy x List.mem_cons_self).le
  · exact (congrArg Prod.fst (List.mem_singleton.mp hy)).le

theorem getLast_below_none (h : (map.below key).getLast? = none) (hy : y ∈ map.entries) :
    key ≤ y.1 := by
  by_contra hlt
  have := mem_below_iff.mpr ⟨hy, not_le.mp hlt⟩
  rw [List.getLast?_eq_none_iff.mp h] at this
  cases this

/-- The entry of a key is behind the split. -/
theorem head_lowerBound (hx : x ∈ map.entries) (hkey : x.1 = key) :
    (map.lowerBound key).head? = some x := by
  have hmem := mem_lowerBound_iff.mpr ⟨hx, hkey.ge⟩
  have hsorted : (map.lowerBound key).Pairwise fun x y => x.1 < y.1 :=
    map.sorted.sublist (List.dropWhile_sublist _)
  cases hrest : map.lowerBound key with
  | nil => simp [hrest] at hmem
  | cons first rest =>
      rw [hrest] at hmem hsorted
      rcases List.mem_cons.mp hmem with rfl | hx
      · rfl
      · have hlt := (List.pairwise_cons.mp hsorted).1 x hx
        have hle := le_of_mem_lowerBound (hrest ▸ List.mem_cons_self : first ∈ map.lowerBound key)
        exact absurd hlt (not_lt.mpr (hkey.trans_le hle))

end Search

end OrderedMaps
