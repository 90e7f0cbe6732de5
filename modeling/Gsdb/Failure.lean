/-
Machine words and the ways in which an operation of the debugger fails.
-/
import Gsdb.ByteCursor
import Gsdb.Effects

namespace Gsdb

open ByteMemory

/-- A 64-bit word; virtual addresses wrap as `std::uint64_t` does. -/
abbrev Word := BitVec 64

/-- `error` and `errno` are the two ways to raise a `gsdb::error`; `errno`
carries the message in front of the system's own text.  `exception` is an
exception of the standard library.  `undefined` marks an access the language
gives no meaning to, `terminate` a call of `std::terminate`, and `schedule` a
wait for an event that the inferior never produces. -/
inductive Failure where
  | error (what : String)
  | errno (what : String)
  | exception (what : String)
  | undefined (what : String)
  | terminate
  | schedule
deriving DecidableEq, Repr

/-- What `catch (...)` catches. -/
def Failure.isException : Failure → Bool
  | .error _ | .errno _ | .exception _ => true
  | .undefined _ | .terminate | .schedule => false

/-- Raise an error unless a condition holds. -/
def require (c : Prop) [Decidable c] (what : String) : Except Failure PUnit :=
  if c then .ok ⟨⟩ else .error (.error what)

/-- A read outside its buffer has no defined result. -/
def inBounds {α : Type} : Option α → Except Failure α
  | some a => .ok a
  | none => .error (.undefined "read outside the buffer")

@[simp]
theorem inBounds_eq_ok {α : Type} {x : Option α} {a : α} :
    inBounds x = .ok a ↔ x = some a := by
  cases x <;> simp [inBounds]

theorem require_eq_ok {c : Prop} [Decidable c] {what : String} {u : PUnit}
    (h : require c what = .ok u) : c := by
  unfold require at h
  split at h
  · assumption
  · cases h

@[simp]
theorem inBounds_some {α : Type} (a : α) : inBounds (some a) = .ok a := rfl

@[simp]
theorem inBounds_none {α : Type} :
    inBounds (none : Option α) = .error (.undefined "read outside the buffer") := rfl

@[simp]
theorem ok_bind {ε α β : Type} (a : α) (f : α → Except ε β) :
    (Except.ok a >>= f) = f a := rfl

@[simp]
theorem error_bind {ε α β : Type} (e : ε) (f : α → Except ε β) :
    (Except.error e >>= f) = .error e := rfl

/-- A sequence of fallible steps returns exactly when every step returns. -/
theorem bind_eq_ok {ε α β : Type} {x : Except ε α} {f : α → Except ε β} {b : β} :
    (x >>= f) = .ok b ↔ ∃ a, x = .ok a ∧ f a = .ok b := by
  cases x <;> simp [bind, Except.bind]

/-- Every result of a loop over a list is that of one of its elements. -/
theorem mem_of_mapM_eq_ok {ε α β : Type} {f : α → Except ε β} {items : List α} {results : List β}
    (h : items.mapM f = .ok results) {b : β} (hb : b ∈ results) : ∃ a ∈ items, f a = .ok b := by
  induction items generalizing results with
  | nil =>
      cases h
      cases hb
  | cons a rest ih =>
      rw [List.mapM_cons] at h
      obtain ⟨first, hfirst, hothers⟩ := bind_eq_ok.mp h
      obtain ⟨others, hrest, hresults⟩ := bind_eq_ok.mp hothers
      cases hresults
      rcases List.mem_cons.mp hb with rfl | hin
      · exact ⟨a, List.mem_cons_self, hfirst⟩
      · obtain ⟨c, hc, hresult⟩ := ih hrest hin
        exact ⟨c, List.mem_cons_of_mem a hc, hresult⟩

/-- A loop over a list none of whose elements fails. -/
theorem mapM_eq_ok_of_forall {ε α β : Type} {f : α → Except ε β} {g : α → β} {items : List α}
    (h : ∀ a ∈ items, f a = .ok (g a)) : items.mapM f = .ok (items.map g) := by
  induction items with
  | nil => rfl
  | cons a rest ih =>
      rw [List.mapM_cons, h a List.mem_cons_self, ok_bind,
        ih fun b hb => h b (List.mem_cons_of_mem a hb), ok_bind]
      rfl

end Gsdb
