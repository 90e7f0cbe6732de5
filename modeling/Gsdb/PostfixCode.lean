/-
Expression trees and their postfix code for a machine with a stack.  Running the code of a tree
pushes the tree's value, and code that leaves one value is the code of exactly one tree.
-/
import Mathlib.Data.List.Basic

namespace PostfixCode

variable {κ υ β ν ε : Type}

/-- Trees over leaves, operations of one argument and operations of two. -/
inductive Tree (κ υ β : Type) where
  | leaf (op : κ)
  | unary (op : υ) (arg : Tree κ υ β)
  | binary (op : β) (lhs rhs : Tree κ υ β)
deriving DecidableEq, Repr

inductive Instruction (κ υ β : Type) where
  | push (op : κ)
  | apply (op : υ)
  | combine (op : β)
deriving DecidableEq, Repr

/-- What the operations compute. -/
structure Meaning (κ υ β ε ν : Type) where
  leaf : κ → Except ε ν
  unary : υ → ν → Except ε ν
  binary : β → ν → ν → Except ε ν
  underflow : ε

namespace Tree

/-- The value of a tree, from the left to the right. -/
def value (m : Meaning κ υ β ε ν) : Tree κ υ β → Except ε ν
  | leaf op => m.leaf op
  | unary op arg => do
      let x ← arg.value m
      m.unary op x
  | binary op lhs rhs => do
      let x ← lhs.value m
      let y ← rhs.value m
      m.binary op x y

def code : Tree κ υ β → List (Instruction κ υ β)
  | leaf op => [.push op]
  | unary op arg => arg.code ++ [.apply op]
  | binary op lhs rhs => lhs.code ++ (rhs.code ++ [.combine op])

end Tree

/-- One instruction; the top of the stack comes first. -/
def step (m : Meaning κ υ β ε ν) : Instruction κ υ β → List ν → Except ε (List ν)
  | .push op, stack => do
      let x ← m.leaf op
      pure (x :: stack)
  | .apply op, x :: stack => do
      let y ← m.unary op x
      pure (y :: stack)
  | .combine op, y :: x :: stack => do
      let z ← m.binary op x y
      pure (z :: stack)
  | _, _ => .error m.underflow

def run (m : Meaning κ υ β ε ν) : List (Instruction κ υ β) → List ν → Except ε (List ν)
  | [], stack => .ok stack
  | instruction :: rest, stack => do
      let stack ← step m instruction stack
      run m rest stack

/-- The size of the stack behind an instruction. -/
def sizeAfter : Instruction κ υ β → Nat → Option Nat
  | .push _, size => some (size + 1)
  | .apply _, size + 1 => some (size + 1)
  | .combine _, size + 2 => some (size + 1)
  | _, _ => none

/-- The size of the stack behind some code. -/
def sizeBehind : List (Instruction κ υ β) → Nat → Option Nat
  | [], size => some size
  | instruction :: rest, size => (sizeAfter instruction size).bind (sizeBehind rest)

/-- The meaning that builds the trees. -/
def building : Meaning κ υ β PUnit (Tree κ υ β) where
  leaf := fun op => .ok (.leaf op)
  unary := fun op arg => .ok (.unary op arg)
  binary := fun op lhs rhs => .ok (.binary op lhs rhs)
  underflow := ⟨⟩

section Running

variable {m : Meaning κ υ β ε ν} {stack : List ν} {rest : List (Instruction κ υ β)}

theorem run_append (first : List (Instruction κ υ β)) :
    run m (first ++ rest) stack = (run m first stack >>= run m rest) := by
  induction first generalizing stack with
  | nil => rfl
  | cons instruction more ih =>
      rw [List.cons_append, run, run]
      cases step m instruction stack with
      | error e => rfl
      | ok next => exact ih

/-- The code of a tree pushes its value, or fails like the tree. -/
theorem run_code (tree : Tree κ υ β) : run m (tree.code ++ rest) stack =
    (tree.value m >>= fun x => run m rest (x :: stack)) := by
  induction tree generalizing stack rest with
  | leaf op =>
      rw [Tree.code, List.singleton_append, run, step, Tree.value]
      cases m.leaf op <;> rfl
  | unary op arg ih =>
      rw [Tree.code, List.append_assoc, ih, Tree.value]
      cases arg.value m with
      | error e => rfl
      | ok x =>
          change (step m (.apply op) (x :: stack) >>= run m rest) = _
          rw [step]
          change _ = (m.unary op x >>= fun y => run m rest (y :: stack))
          cases m.unary op x <;> rfl
  | binary op lhs rhs ihl ihr =>
      rw [Tree.code, List.append_assoc, ihl, Tree.value]
      cases lhs.value m with
      | error e => rfl
      | ok x =>
          change run m (rhs.code ++ [.combine op] ++ rest) (x :: stack) = _
          rw [List.append_assoc, ihr]
          change _ = ((rhs.value m >>= fun y => m.binary op x y) >>= _)
          cases rhs.value m with
          | error e => rfl
          | ok y =>
              change (step m (.combine op) (y :: x :: stack) >>= run m rest) = _
              rw [step]
              change _ = (m.binary op x y >>= fun z => run m rest (z :: stack))
              cases m.binary op x y <;> rfl

/-- The size of the stack is known before the values are. -/
theorem step_size {instruction : Instruction κ υ β} {next : List ν}
    (h : step m instruction stack = .ok next) :
    sizeAfter instruction stack.length = some next.length := by
  cases instruction with
  | push op =>
      rw [step] at h
      cases hvalue : m.leaf op <;> rw [hvalue] at h <;> cases h
      rfl
  | apply op =>
      cases stack with
      | nil => cases h
      | cons x stack =>
          rw [step] at h
          cases hvalue : m.unary op x <;> rw [hvalue] at h <;> cases h
          rfl
  | combine op =>
      match stack, h with
      | [], h => cases h
      | [_], h => cases h
      | y :: x :: stack, h =>
          rw [step] at h
          cases hvalue : m.binary op x y <;> rw [hvalue] at h <;> cases h
          rfl

theorem run_size {code : List (Instruction κ υ β)} {last : List ν}
    (h : run m code stack = .ok last) : sizeBehind code stack.length = some last.length := by
  induction code generalizing stack with
  | nil =>
      cases h
      rfl
  | cons instruction more ih =>
      rw [run] at h
      cases hstep : step m instruction stack with
      | error e =>
          rw [hstep] at h
          cases h
      | ok next =>
          rw [hstep] at h
          rw [sizeBehind, step_size hstep]
          exact ih h

end Running

section Building

variable {code : List (Instruction κ υ β)} {stack last : List (Tree κ υ β)}

/-- Building a tree fails only on a stack that is too small. -/
theorem building_step {instruction : Instruction κ υ β} {size : Nat}
    (h : sizeAfter instruction stack.length = some size) :
    ∃ next, step building instruction stack = .ok next ∧ next.length = size ∧
      next.reverse.flatMap Tree.code = stack.reverse.flatMap Tree.code ++ [instruction] := by
  cases instruction with
  | push op =>
      cases h
      exact ⟨.leaf op :: stack, rfl, rfl, by simp [Tree.code]⟩
  | apply op =>
      cases stack with
      | nil => cases h
      | cons x stack =>
          cases h
          exact ⟨.unary op x :: stack, rfl, rfl, by simp [Tree.code]⟩
  | combine op =>
      match stack, h with
      | [], h => cases h
      | [_], h => cases h
      | y :: x :: stack, h =>
          cases h
          exact ⟨.binary op x y :: stack, rfl, rfl, by simp [Tree.code]⟩

/-- Code that never finds its stack too small is the code of the trees that it builds. -/
theorem building_run {size : Nat} (h : sizeBehind code stack.length = some size) :
    ∃ last, run building code stack = .ok last ∧ last.length = size ∧
      last.reverse.flatMap Tree.code = stack.reverse.flatMap Tree.code ++ code := by
  induction code generalizing stack with
  | nil =>
      cases h
      exact ⟨stack, rfl, rfl, (List.append_nil _).symm⟩
  | cons instruction more ih =>
      rw [sizeBehind] at h
      obtain ⟨after, hafter, hmore⟩ := Option.bind_eq_some_iff.mp h
      obtain ⟨next, hstep, hlength, hcode⟩ := building_step hafter
      obtain ⟨last, hrun, hsize, hbuilt⟩ := ih (hlength ▸ hmore)
      refine ⟨last, ?_, hsize, ?_⟩
      · rw [run, hstep]
        exact hrun
      · rw [hbuilt, hcode, List.append_assoc, List.singleton_append]

theorem building_value (tree : Tree κ υ β) : tree.value building = .ok tree := by
  induction tree with
  | leaf op => rfl
  | unary op arg ih =>
      rw [Tree.value, ih]
      rfl
  | binary op lhs rhs ihl ihr =>
      rw [Tree.value, ihl, ihr]
      rfl

/-- The code of a tree determines the tree. -/
theorem code_injective {tree other : Tree κ υ β} (h : tree.code = other.code) : tree = other := by
  have hbuilt : ∀ tree : Tree κ υ β, run building tree.code [] = .ok [tree] := by
    intro tree
    have hrun := @run_code κ υ β _ _ building [] [] tree
    rw [List.append_nil, building_value] at hrun
    exact hrun
  have hboth := (hbuilt tree).symm.trans (h ▸ hbuilt other)
  cases hboth
  rfl

/-- Code that leaves one value is the code of one tree. -/
theorem exists_tree (h : sizeBehind code 0 = some 1) : ∃ tree : Tree κ υ β, tree.code = code := by
  obtain ⟨last, -, hlength, hcode⟩ := @building_run κ υ β code [] 1 h
  obtain ⟨tree, rfl⟩ := List.length_eq_one_iff.mp hlength
  refine ⟨tree, ?_⟩
  simpa using hcode

end Building

end PostfixCode
