/-
`gsdb::stoppoint_collection`: an ordered collection of stoppoints searched by
identifier, by address and by address range.  The collection is generic in the
kind of stoppoint, as the class template is.
-/
import Gsdb.Failure

namespace Gsdb

/-- What a collection asks of its stoppoints (`stoppoint_concept`). -/
class Stoppoint (S : Type) where
  id : S → Int
  atAddress : S → Word → Bool
  inRange : S → Word → Word → Bool
  isEnabled : S → Bool

/-- The stoppoints in the order in which they were pushed. -/
abbrev StoppointCollection (S : Type) := List S

namespace StoppointCollection

variable {S : Type} [Stoppoint S]

def push (points : StoppointCollection S) (point : S) : StoppointCollection S :=
  points ++ [point]

/-- Position of the first stoppoint with the identifier. -/
def findById (points : StoppointCollection S) (id : Int) : Option Nat :=
  points.findIdx? fun point => Stoppoint.id point = id

/-- Position of the first stoppoint at the address. -/
def findByAddress (points : StoppointCollection S) (address : Word) : Option Nat :=
  points.findIdx? fun point => Stoppoint.atAddress point address

def containsId (points : StoppointCollection S) (id : Int) : Bool :=
  (points.findById id).isSome

def containsAddress (points : StoppointCollection S) (address : Word) : Bool :=
  (points.findByAddress address).isSome

def getById (points : StoppointCollection S) (id : Int) : Except Failure Nat :=
  match points.findById id with
  | some index => .ok index
  | none => .error (.error "Invalid stoppoint ID!")

def getByAddress (points : StoppointCollection S) (address : Word) : Except Failure Nat :=
  match points.findByAddress address with
  | some index => .ok index
  | none => .error (.error "Stoppoint with given address not found!")

def enabledStoppointAtAddress (points : StoppointCollection S) (address : Word) : Bool :=
  match points.find? fun point => Stoppoint.atAddress point address with
  | some point => Stoppoint.isEnabled point
  | none => false

/-- The stoppoints between two addresses, in collection order. -/
def getInRegion (points : StoppointCollection S) (low high : Word) : List S :=
  points.filter fun point => Stoppoint.inRange point low high

theorem containsAddress_eq_false {points : StoppointCollection S} {address : Word}
    (h : points.containsAddress address = false) :
    ∀ point ∈ points, Stoppoint.atAddress point address = false := by
  simpa [containsAddress, findByAddress, List.findIdx?_eq_none_iff] using h

/-- The stoppoint that a search by address finds. -/
theorem getElem?_of_getByAddress {points : StoppointCollection S} {address : Word} {index : Nat}
    (h : points.getByAddress address = .ok index) :
    points[index]? = points.find? fun point => Stoppoint.atAddress point address := by
  rw [List.find?_eq_bind_findIdx?_getElem?]
  unfold getByAddress findByAddress at h
  split at h
  · rename_i found hfound
    cases h
    rw [hfound]
    rfl
  · cases h

end StoppointCollection

/-- The position of a value that no other element has. -/
theorem findIdx?_of_nodup {α β : Type} [DecidableEq β] {f : α → β} {list : List α}
    (h : (list.map f).Nodup) {index : Nat} {a : α} (ha : list[index]? = some a) :
    list.findIdx? (fun b => f b = f a) = some index := by
  obtain ⟨hlt, rfl⟩ := List.getElem?_eq_some_iff.mp ha
  refine List.findIdx?_eq_some_iff_getElem.mpr ⟨hlt, by simp, fun j hj hsame => ?_⟩
  have hlength : j < (list.map f).length := by
    rw [List.length_map]
    omega
  have hindex := (List.getElem?_inj hlength h (j := index)).mp (by
    rw [List.getElem?_map, List.getElem?_map, List.getElem?_eq_getElem (hj.trans hlt), ha]
    exact congrArg some (by simpa using hsame))
  omega

theorem find?_of_nodup {α β : Type} [DecidableEq β] {f : α → β} {list : List α}
    (h : (list.map f).Nodup) {a : α} (ha : a ∈ list) : list.find? (fun b => f b = f a) =
        some a := by
  obtain ⟨index, hlt, hindex⟩ := List.mem_iff_getElem.mp ha
  have hat : list[index]? = some a := List.getElem?_eq_some_iff.mpr ⟨hlt, hindex⟩
  rw [List.find?_eq_bind_findIdx?_getElem?, findIdx?_of_nodup h hat]
  exact hat

/-- A change of one element that a function does not see. -/
theorem map_modify_of_eq {α β : Type} {f : α → α} {g : α → β} (h : ∀ a, g (f a) = g a)
    (list : List α) (index : Nat) : (list.modify index f).map g = list.map g := by
  refine List.ext_getElem? fun i => ?_
  rw [List.getElem?_map, List.getElem?_map, List.getElem?_modify]
  cases list[i]? with
  | none => rfl
  | some a =>
      by_cases hindex : index = i
      · simp [hindex, h a]
      · simp [hindex]

end Gsdb
