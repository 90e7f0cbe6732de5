/-
Searching a tree for the scopes that something is in.  The children of a value are asked one
after the other, by a test that can fail; those that say yes are entered, and listed behind
what is found below them.
-/
import Mathlib.Logic.Relation

namespace ScopeSearch

variable {α ε : Type}

/-- One value is among the children of another. -/
def IsChild (children : α → Except ε (List α)) (a c : α) : Prop :=
  ∃ below, children a = .ok below ∧ c ∈ below

/-- One value is in the tree of another. -/
def Reaches (children : α → Except ε (List α)) : α → α → Prop :=
  Relation.ReflTransGen (IsChild children)

/-- The children can be listed down to a depth where there are no more. -/
inductive Within (children : α → Except ε (List α)) : Nat → α → Prop where
  | node {height : Nat} {a : α} {below : List α} (hbelow : children a = .ok below)
      (hchildren : ∀ c ∈ below, Within children height c) : Within children (height + 1) a

/-- Add the scopes below a child, and the child, if the test says yes. -/
def enter (inside : α → Except ε Bool) (below : α → List α → Except ε (List α))
    (scopes : List α) (child : α) : Except ε (List α) := do
  let found ← inside child
  if found then do
    let scopes ← below child scopes
    pure (scopes ++ [child])
  else pure scopes

/-- Add the scopes below a value, given what to say when the depth is exhausted. -/
def collect (children : α → Except ε (List α)) (inside : α → Except ε Bool) (stop : ε) :
    Nat → α → List α → Except ε (List α)
  | 0, _, _ => .error stop
  | height + 1, a, scopes => do
      let below ← children a
      below.foldlM (enter inside (collect children inside stop height)) scopes

/-- The scopes of a tree: its root, and the children of scopes that the test says yes to. -/
inductive Scope (children : α → Except ε (List α)) (inside : α → Except ε Bool) (root : α) :
    α → Prop where
  | root : Scope children inside root root
  | child {a c : α} (ha : Scope children inside root a) (hc : IsChild children a c)
      (hinside : inside c = .ok true) : Scope children inside root c

/-- The values that the test is asked about: the children of scopes. -/
def Asked (children : α → Except ε (List α)) (inside : α → Except ε Bool) (root x : α) : Prop :=
  ∃ a, Scope children inside root a ∧ IsChild children a x

/-- The scopes of a tree from an innermost one up to its root, each one a child of the next. -/
inductive Chain (children : α → Except ε (List α)) (inside : α → Except ε Bool) :
    α → List α → Prop where
  | innermost {a : α} {below : List α} (hbelow : children a = .ok below)
      (hnone : ∀ c ∈ below, inside c = .ok false) : Chain children inside a [a]
  | outer {a c : α} {scopes : List α} (hc : IsChild children a c) (hinside : inside c = .ok true)
      (hinner : Chain children inside c scopes) : Chain children inside a (scopes ++ [a])

/-- Of the children of every value in a tree, the test says yes to one at most. -/
def SiblingsDisjoint (children : α → Except ε (List α)) (inside : α → Except ε Bool)
    (root : α) : Prop :=
  ∀ a below, Reaches children root a → children a = .ok below →
    below.Pairwise fun c d => ¬ (inside c = .ok true ∧ inside d = .ok true)

/-- In a tree, the test says yes to a value if it does to one of its children. -/
def ChildrenNested (children : α → Except ε (List α)) (inside : α → Except ε Bool)
    (root : α) : Prop :=
  ∀ a c, Reaches children root a → IsChild children a c → inside c = .ok true →
    inside a = .ok true

section Scopes

variable {children : α → Except ε (List α)} {inside : α → Except ε Bool} {stop : ε}
  {root a c x : α} {height : Nat} {scopes out : List α}

theorem Scope.reaches (h : Scope children inside root x) : Reaches children root x := by
  induction h with
  | root => exact .refl
  | child _ hc _ ih => exact ih.tail hc

/-- A scope below a child that is one is a scope. -/
theorem Scope.of_child (hc : IsChild children root c) (hinside : inside c = .ok true)
    (h : Scope children inside c x) : Scope children inside root x := by
  induction h with
  | root => exact .child .root hc hinside
  | child _ hchild hin ih => exact .child ih hchild hin

/-- A scope is the root, or below a child that is one. -/
theorem Scope.cases_child (h : Scope children inside root x) :
    x = root ∨ ∃ c, IsChild children root c ∧ inside c = .ok true ∧ Scope children inside c x := by
  induction h with
  | root => exact .inl rfl
  | @child a d ha hc hin ih =>
      right
      rcases ih with rfl | ⟨c, hchild, hinside, hscope⟩
      · exact ⟨d, hc, hin, .root⟩
      · exact ⟨c, hchild, hinside, hscope.child hc hin⟩

theorem Asked.reaches (h : Asked children inside root x) : Reaches children root x := by
  obtain ⟨a, ha, hx⟩ := h
  exact ha.reaches.tail hx

theorem Asked.of_child (hc : IsChild children root c) (hinside : inside c = .ok true)
    (h : Asked children inside c x) : Asked children inside root x := by
  obtain ⟨a, ha, hx⟩ := h
  exact ⟨a, ha.of_child hc hinside, hx⟩

/-- The scopes of a tree with nested ranges are the values in it that the test says yes to. -/
theorem scope_iff (hnested : ChildrenNested children inside root) (hroot : inside root = .ok true) :
    Scope children inside root x ↔ Reaches children root x ∧ inside x = .ok true := by
  constructor
  · intro h
    refine ⟨h.reaches, ?_⟩
    cases h with
    | root => exact hroot
    | child _ _ hinside => exact hinside
  · rintro ⟨hreaches, hinside⟩
    induction hreaches with
    | refl => exact .root
    | tail hreaches hchild ih =>
        exact (ih (hnested _ _ hreaches hchild hinside)).child hchild hinside

theorem Within.mono {depth : Nat} (h : Within children height a) (hle : height ≤ depth) :
    Within children depth a := by
  induction h generalizing depth with
  | node hbelow _ ih =>
      obtain ⟨depth, rfl⟩ : ∃ k, depth = k + 1 := ⟨depth - 1, by omega⟩
      exact .node hbelow fun c hc => ih c hc (by omega)

/-- Every value in such a tree has such a tree. -/
theorem Within.of_reaches (h : Within children height root) (hreaches : Reaches children root x) :
    ∃ below, children x = .ok below := by
  induction hreaches using Relation.ReflTransGen.head_induction_on generalizing height with
  | refl =>
      cases h with
      | node hbelow _ => exact ⟨_, hbelow⟩
  | head hchild _ ih =>
      cases h with
      | node hbelow hchildren =>
          obtain ⟨below, hlist, hc⟩ := hchild
          obtain rfl := Except.ok.inj (hbelow.symm.trans hlist)
          exact ih (hchildren _ hc)

/-- Values whose children are among them are all that is reached from one of them. -/
theorem mem_of_reaches {values : List α}
    (hclosed : ∀ a ∈ values, ∀ c, IsChild children a c → c ∈ values) (hroot : root ∈ values)
    (h : Reaches children root x) : x ∈ values := by
  induction h with
  | refl => exact hroot
  | tail _ hchild ih => exact hclosed _ ih _ hchild

end Scopes

section Collecting

variable {children : α → Except ε (List α)} {inside : α → Except ε Bool} {stop : ε}
  {root a c x : α} {height : Nat} {scopes out below : List α}
  {deeper : α → List α → Except ε (List α)}

theorem enter_eq_ok : enter inside deeper scopes c = .ok out ↔
    inside c = .ok false ∧ out = scopes ∨
      inside c = .ok true ∧ ∃ inner, deeper c scopes = .ok inner ∧ out = inner ++ [c] := by
  unfold enter
  cases inside c with
  | error e => simp [bind, Except.bind]
  | ok found =>
      cases found with
      | false => simp [bind, Except.bind, pure, Except.pure, eq_comm]
      | true =>
          cases deeper c scopes with
          | error e => simp [bind, Except.bind]
          | ok inner => simp [bind, Except.bind, pure, Except.pure, eq_comm]

theorem foldlM_enter_cons : (a :: below).foldlM (enter inside deeper) scopes = .ok out ↔
    ∃ next, enter inside deeper scopes a = .ok next ∧
      below.foldlM (enter inside deeper) next = .ok out := by
  rw [List.foldlM_cons]
  cases enter inside deeper scopes a <;> simp [bind, Except.bind]

theorem collect_succ_eq_ok (hbelow : children a = .ok below) :
    collect children inside stop (height + 1) a scopes =
      below.foldlM (enter inside (collect children inside stop height)) scopes := by
  rw [collect, hbelow]
  rfl

theorem foldlM_enter_congr {other : α → List α → Except ε (List α)}
    (h : ∀ c ∈ below, ∀ scopes, deeper c scopes = other c scopes) (scopes : List α) :
    below.foldlM (enter inside deeper) scopes = below.foldlM (enter inside other) scopes := by
  induction below generalizing scopes with
  | nil => rfl
  | cons c rest ih =>
      have hfirst : enter inside deeper scopes c = enter inside other scopes c := by
        rw [enter, enter, h c List.mem_cons_self]
      rw [List.foldlM_cons, List.foldlM_cons, hfirst]
      exact congrArg _ (funext fun next => ih (fun d hd => h d (List.mem_cons_of_mem c hd)) next)

/-- The test was answered for every child that was passed, and a child that it said yes to was
entered. -/
theorem foldlM_enter_answers (h : below.foldlM (enter inside deeper) scopes = .ok out)
    (hc : c ∈ below) : ∃ found, inside c = .ok found ∧
      (found = true → ∃ scopes out, deeper c scopes = .ok out) := by
  induction below generalizing scopes with
  | nil => cases hc
  | cons first rest ih =>
      obtain ⟨next, hfirst, hrest⟩ := foldlM_enter_cons.mp h
      rcases List.mem_cons.mp hc with rfl | hc
      · rcases enter_eq_ok.mp hfirst with ⟨hno, -⟩ | ⟨hyes, inner, hinner, -⟩
        · exact ⟨false, hno, fun h => absurd h Bool.false_ne_true⟩
        · exact ⟨true, hyes, fun _ => ⟨_, _, hinner⟩⟩
      · exact ih hrest hc

/-- A search that returns was answered whenever it asked. -/
theorem answered_of_collect (h : collect children inside stop height a scopes = .ok out)
    (hx : Asked children inside a x) : ∃ found, inside x = .ok found := by
  induction height generalizing a scopes out with
  | zero => cases h
  | succ height ih =>
      obtain ⟨b, hscope, below, hbelow, hmem⟩ := hx
      rcases hscope.cases_child with rfl | ⟨c, ⟨siblings, hsiblings, hc⟩, hinside, hinner⟩
      · rw [collect_succ_eq_ok hbelow] at h
        obtain ⟨found, hfound, -⟩ := foldlM_enter_answers h hmem
        exact ⟨found, hfound⟩
      · rw [collect_succ_eq_ok hsiblings] at h
        obtain ⟨found, hfound, hentered⟩ := foldlM_enter_answers h hc
        obtain rfl : true = found := Except.ok.inj (hinside.symm.trans hfound)
        obtain ⟨scopes', out', hdeeper⟩ := hentered rfl
        exact ih hdeeper ⟨b, hinner, below, hbelow, hmem⟩

/-- The children of a value are passed, if the test is answered for each of them and what it
says yes to can be entered; what is added is a child or from below one. -/
theorem foldlM_enter_of_answers {p : α → Prop}
    (h : ∀ c ∈ below, inside c = .ok false ∨ inside c = .ok true ∧ p c ∧
      ∀ scopes, ∃ more, deeper c scopes = .ok (scopes ++ more) ∧ ∀ x ∈ more, p x)
    (scopes : List α) : ∃ more,
      below.foldlM (enter inside deeper) scopes = .ok (scopes ++ more) ∧ ∀ x ∈ more, p x := by
  induction below generalizing scopes with
  | nil =>
      refine ⟨[], ?_, fun x hx => absurd hx List.not_mem_nil⟩
      rw [List.append_nil]
      rfl
  | cons c rest ih =>
      have hrest := fun scopes => ih (fun d hd => h d (List.mem_cons_of_mem c hd)) scopes
      rcases h c List.mem_cons_self with hno | ⟨hyes, hc, hdeeper⟩
      · obtain ⟨more, hmore, hp⟩ := hrest scopes
        exact ⟨more, foldlM_enter_cons.mpr ⟨scopes, enter_eq_ok.mpr (.inl ⟨hno, rfl⟩), hmore⟩, hp⟩
      · obtain ⟨inner, hinner, hpinner⟩ := hdeeper scopes
        obtain ⟨more, hmore, hp⟩ := hrest (scopes ++ inner ++ [c])
        refine ⟨inner ++ c :: more, foldlM_enter_cons.mpr
          ⟨_, enter_eq_ok.mpr (.inr ⟨hyes, _, hinner, rfl⟩), ?_⟩, fun x hx => ?_⟩
        · rw [hmore]
          simp
        · rcases List.mem_append.mp hx with hx | hx
          · exact hpinner x hx
          · rcases List.mem_cons.mp hx with rfl | hx
            · exact hc
            · exact hp x hx

/-- A search that is answered whenever it asks returns, and adds scopes. -/
theorem collect_of_answers (stop : ε) (hwithin : Within children height a)
    (hanswers : ∀ x, Asked children inside a x → ∃ found, inside x = .ok found)
    (scopes : List α) : ∃ more,
    collect children inside stop height a scopes = .ok (scopes ++ more) ∧
      ∀ x ∈ more, Scope children inside a x := by
  induction hwithin generalizing scopes with
  | node hbelow _ ih =>
      rw [collect_succ_eq_ok hbelow]
      refine foldlM_enter_of_answers (fun c hc => ?_) scopes
      have hchild : IsChild children _ c := ⟨_, hbelow, hc⟩
      obtain ⟨found, hfound⟩ := hanswers c ⟨_, .root, hchild⟩
      cases found with
      | false => exact .inl hfound
      | true =>
          refine .inr ⟨hfound, .child .root hchild hfound, fun scopes => ?_⟩
          obtain ⟨more, hmore, hscopes⟩ :=
            ih c hc (fun x hx => hanswers x (hx.of_child hchild hfound)) scopes
          exact ⟨more, hmore, fun x hx => (hscopes x hx).of_child hchild hfound⟩

end Collecting

section Chains

variable {children : α → Except ε (List α)} {inside : α → Except ε Bool} {stop : ε}
  {root a c x : α} {height : Nat} {scopes out below : List α}
  {deeper : α → List α → Except ε (List α)}

/-- Children that the test says no to are passed. -/
theorem foldlM_enter_none (h : ∀ c ∈ below, inside c = .ok false) :
    below.foldlM (enter inside deeper) scopes = .ok scopes := by
  induction below with
  | nil => rfl
  | cons c rest ih =>
      exact foldlM_enter_cons.mpr ⟨scopes, enter_eq_ok.mpr (.inl ⟨h c List.mem_cons_self, rfl⟩),
        ih fun d hd => h d (List.mem_cons_of_mem c hd)⟩

/-- Of children one of which the test says yes to, that one is entered. -/
theorem foldlM_enter_one {before after inner : List α}
    (hbefore : ∀ d ∈ before, inside d = .ok false) (hafter : ∀ d ∈ after, inside d = .ok false)
    (hinside : inside c = .ok true) (hdeeper : deeper c scopes = .ok inner) :
    (before ++ c :: after).foldlM (enter inside deeper) scopes = .ok (inner ++ [c]) := by
  rw [List.foldlM_append, foldlM_enter_none hbefore]
  exact foldlM_enter_cons.mpr
    ⟨_, enter_eq_ok.mpr (.inr ⟨hinside, inner, hdeeper, rfl⟩), foldlM_enter_none hafter⟩

theorem SiblingsDisjoint.of_child (h : SiblingsDisjoint children inside root)
    (hc : IsChild children root c) : SiblingsDisjoint children inside c :=
  fun a below hreaches => h a below (.head hc hreaches)

theorem SiblingsDisjoint.eq {d : α} (h : SiblingsDisjoint children inside root)
    (hc : IsChild children root c) (hd : IsChild children root d)
    (hinside : inside c = .ok true) (hyes : inside d = .ok true) : c = d := by
  obtain ⟨below, hbelow, hc⟩ := hc
  obtain ⟨siblings, hsiblings, hd⟩ := hd
  obtain rfl := Except.ok.inj (hbelow.symm.trans hsiblings)
  obtain ⟨before, after, rfl⟩ := List.append_of_mem hc
  obtain ⟨-, hafter, hbefore⟩ := List.pairwise_append.mp (h root _ .refl hbelow)
  rcases List.mem_append.mp hd with hd | hd
  · exact absurd ⟨hyes, hinside⟩ (hbefore d hd c List.mem_cons_self)
  · rcases List.mem_cons.mp hd with rfl | hd
    · rfl
    · exact absurd ⟨hinside, hyes⟩ ((List.pairwise_cons.mp hafter).1 d hd)

/-- Of disjoint children, the others than one that the test says yes to get a no. -/
theorem others_outside {before after : List α}
    (hanswers : ∀ d ∈ before ++ c :: after, ∃ found, inside d = .ok found)
    (hdisjoint : (before ++ c :: after).Pairwise
      fun c d => ¬ (inside c = .ok true ∧ inside d = .ok true))
    (hinside : inside c = .ok true) :
    (∀ d ∈ before, inside d = .ok false) ∧ ∀ d ∈ after, inside d = .ok false := by
  obtain ⟨-, hafter, hbefore⟩ := List.pairwise_append.mp hdisjoint
  have hno : ∀ d ∈ before ++ c :: after, inside d ≠ .ok true → inside d = .ok false := by
    intro d hd hne
    obtain ⟨found, hfound⟩ := hanswers d hd
    cases found with
    | false => exact hfound
    | true => exact absurd hfound hne
  constructor
  · intro d hd
    exact hno d (List.mem_append_left _ hd) fun hyes =>
      hbefore d hd c List.mem_cons_self ⟨hyes, hinside⟩
  · intro d hd
    exact hno d (List.mem_append_right _ (List.mem_cons_of_mem c hd)) fun hyes =>
      (List.pairwise_cons.mp hafter).1 d hd ⟨hinside, hyes⟩

/-- In a tree with disjoint siblings, the search adds the chain of scopes below the root. -/
theorem collect_chain (stop : ε) (hwithin : Within children height a)
    (hanswers : ∀ x, Asked children inside a x → ∃ found, inside x = .ok found)
    (hdisjoint : SiblingsDisjoint children inside a) (scopes : List α) :
    ∃ chain, collect children inside stop height a scopes = .ok (scopes ++ chain) ∧
      Chain children inside a (chain ++ [a]) := by
  induction hwithin generalizing scopes with
  | @node height a below hbelow _ ih =>
      have hasked : ∀ c ∈ below, ∃ found, inside c = .ok found :=
        fun c hc => hanswers c ⟨a, .root, below, hbelow, hc⟩
      rw [collect_succ_eq_ok hbelow]
      by_cases hsome : ∃ c ∈ below, inside c = .ok true
      · obtain ⟨c, hc, hinside⟩ := hsome
        have hchild : IsChild children a c := ⟨below, hbelow, hc⟩
        obtain ⟨inner, hinner, hchain⟩ := ih c hc
          (fun x hx => hanswers x (hx.of_child hchild hinside)) (hdisjoint.of_child hchild) scopes
        obtain ⟨before, after, rfl⟩ := List.append_of_mem hc
        obtain ⟨hbefore, hafter⟩ :=
          others_outside hasked (hdisjoint a _ .refl hbelow) hinside
        refine ⟨inner ++ [c], ?_, .outer hchild hinside hchain⟩
        rw [foldlM_enter_one hbefore hafter hinside hinner, List.append_assoc]
      · have hnone : ∀ c ∈ below, inside c = .ok false := by
          intro c hc
          obtain ⟨found, hfound⟩ := hasked c hc
          cases found with
          | false => exact hfound
          | true => exact absurd ⟨c, hc, hfound⟩ hsome
        refine ⟨[], ?_, .innermost hbelow hnone⟩
        rw [foldlM_enter_none hnone, List.append_nil]

/-- In a tree with disjoint siblings, the chain holds all scopes. -/
theorem Chain.mem_iff (h : Chain children inside a scopes)
    (hdisjoint : SiblingsDisjoint children inside a) : x ∈ scopes ↔ Scope children inside a x := by
  induction h with
  | @innermost a below hbelow hnone =>
      constructor
      · intro hx
        obtain rfl := List.mem_singleton.mp hx
        exact .root
      · intro hscope
        rcases hscope.cases_child with rfl | ⟨c, ⟨siblings, hsiblings, hc⟩, hinside, -⟩
        · exact List.mem_singleton_self x
        · obtain rfl := Except.ok.inj (hbelow.symm.trans hsiblings)
          cases (hnone c hc).symm.trans hinside
  | @outer a c scopes hc hinside hinner ih =>
      have hmem := ih (hdisjoint.of_child hc)
      constructor
      · intro hx
        rcases List.mem_append.mp hx with hx | hx
        · exact (hmem.mp hx).of_child hc hinside
        · obtain rfl := List.mem_singleton.mp hx
          exact .root
      · intro hscope
        rcases hscope.cases_child with rfl | ⟨d, hd, hyes, hbelow⟩
        · exact List.mem_append_right _ (List.mem_singleton_self x)
        · obtain rfl := hdisjoint.eq hc hd hinside hyes
          exact List.mem_append_left _ (hmem.mpr hbelow)

end Chains

end ScopeSearch
