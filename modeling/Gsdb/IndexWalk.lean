/-
Walking through the entries of all units.  The index is filled by visiting a list of
entries one after the other; for units that encode trees the list has every entry
of every tree once.
-/
import Gsdb.NameIndex

namespace Gsdb

open ByteMemory ByteCursor Effects

/-- An entry that is visited, and whether it stands below a function. -/
structure Visit where
  die : Die
  entry : DieEntry
  inFunction : Bool

/-- The entries in the order of the walk, and what ends it early. -/
structure Walk where
  visits : List Visit
  failure : Option Failure

namespace Walk

def done : Walk := ⟨[], none⟩

def fail (failure : Failure) : Walk := ⟨[], some failure⟩

def andThen (first second : Walk) : Walk :=
  match first.failure with
  | some _ => first
  | none => ⟨first.visits ++ second.visits, second.failure⟩

/-- Go on with what was read. -/
def ofExcept {α : Type} (x : Except Failure α) (f : α → Walk) : Walk :=
  match x with
  | .error failure => fail failure
  | .ok a => f a

/-- Visit the entries, then fail as the walk does. -/
def run (visit : Visit → Indexing PUnit) (walk : Walk) : Indexing PUnit := do
  Eff.forEach visit walk.visits
  match walk.failure with
  | some failure => Eff.throw failure
  | none => pure ⟨⟩

end Walk

namespace Dwarf

def walkChildren (dw : Dwarf) (depth : Nat) (walk : Die → Walk) : Nat → Die → Walk
  | 0, _ => .fail .schedule
  | rounds + 1, die =>
      match die.entry with
      | none => .done
      | some _ => (walk die).andThen (Walk.ofExcept (Die.increment dw depth die)
          (walkChildren dw depth walk rounds))

def walkDie (dw : Dwarf) : Nat → Die → Bool → Walk
  | 0, _, _ => .fail .schedule
  | depth + 1, die, inFunction =>
      match die.entry with
      | none => .fail (.undefined "index of a null entry")
      | some entry => Walk.andThen ⟨[⟨die, entry, inFunction⟩], none⟩
          (if entry.abbrevEntry.hasChildren then
            Walk.ofExcept (parseDie die.cu die.next) (walkChildren dw (die.cu.data.length + 1)
              (fun child => walkDie dw depth child (inFunction || entry.isFunction))
              (die.cu.data.length + 1))
          else .done)

def walkUnit (dw : Dwarf) (cu : CompileUnit) : Walk :=
  Walk.ofExcept cu.root fun root => dw.walkDie (cu.data.length + 1) root false

def walkUnits (dw : Dwarf) : List CompileUnit → Walk
  | [] => .done
  | cu :: rest => (dw.walkUnit cu).andThen (walkUnits dw rest)

/-- The part of `index_die` that concerns one entry. -/
def visit (dw : Dwarf) (rounds : Nat) (v : Visit) : Indexing PUnit :=
  dw.indexEntry rounds v.die v.entry v.inFunction

end Dwarf

section Running

variable {dw : Dwarf} {rounds : Nat} {visit : Visit → Indexing PUnit}

theorem forEach_append (xs ys : List Visit) :
    Eff.forEach visit (xs ++ ys) = (do
      Eff.forEach visit xs
      Eff.forEach visit ys) := by
  induction xs with
  | nil => rfl
  | cons v rest ih =>
      simp only [List.cons_append, Eff.forEach, ih, Eff.bind_assoc]

theorem Walk.run_ofExcept {α : Type} (x : Except Failure α) (f : α → Walk) :
    (Walk.ofExcept x f).run visit = (do
      let a ← Eff.ofExcept x
      (f a).run visit) := by
  cases x <;> rfl

/-- Walks one after the other are visited one after the other. -/
theorem Walk.run_andThen (first second : Walk) :
    (first.andThen second).run visit = (do
      first.run visit
      second.run visit) := by
  obtain ⟨visits, failure⟩ := first
  cases failure with
  | some failure =>
      funext s
      simp only [Walk.andThen, Walk.run, Eff.bind_apply]
      rcases Eff.forEach visit visits s with ⟨e | a, s'⟩ <;> rfl
  | none =>
      simp only [Walk.andThen, Walk.run, forEach_append, Eff.bind_assoc]
      rfl

theorem forChildren_eq {depth : Nat} {index : Die → Indexing PUnit} {walk : Die → Walk}
    (h : ∀ die, index die = (walk die).run visit) (count : Nat) (die : Die) :
    dw.forChildren depth index count die = (dw.walkChildren depth walk count die).run visit := by
  induction count generalizing die with
  | zero => rfl
  | succ count ih =>
      simp only [Dwarf.forChildren, Dwarf.walkChildren]
      cases die.entry with
      | none => rfl
      | some entry =>
          simp only [Walk.run_andThen, Walk.run_ofExcept, h, ih]

theorem indexDie_eq (depth : Nat) (die : Die) (inFunction : Bool) :
    dw.indexDie rounds depth die inFunction =
      (dw.walkDie depth die inFunction).run (dw.visit rounds) := by
  induction depth generalizing die inFunction with
  | zero => rfl
  | succ depth ih =>
      simp only [Dwarf.indexDie, Dwarf.walkDie]
      cases die.entry with
      | none => rfl
      | some entry =>
          have hfirst : Walk.run (dw.visit rounds) ⟨[⟨die, entry, inFunction⟩], none⟩ =
              dw.indexEntry rounds die entry inFunction := by
            funext s
            simp only [Walk.run, Eff.forEach, Eff.bind_apply, Dwarf.visit]
            rcases dw.indexEntry rounds die entry inFunction s with ⟨e | a, s'⟩ <;> rfl
          have hbelow : dw.forChildren (die.cu.data.length + 1)
              (fun child => dw.indexDie rounds depth child (inFunction || entry.isFunction))
              (die.cu.data.length + 1) = fun first => Walk.run (dw.visit rounds)
              (dw.walkChildren (die.cu.data.length + 1)
                (fun child => dw.walkDie depth child (inFunction || entry.isFunction))
                (die.cu.data.length + 1) first) :=
            funext fun first => forChildren_eq (fun child => ih child _) _ first
          rw [Walk.run_andThen, hfirst]
          cases hchildren : entry.abbrevEntry.hasChildren with
          | false =>
              simp only [hchildren, Bool.false_eq_true, if_false]
              rfl
          | true => simp only [hchildren, if_true, Walk.run_ofExcept, ← hbelow]

/-- The loop of `dwarf::index` visits the walk through all units. -/
theorem indexUnits_eq (units : List CompileUnit) :
    Eff.forEach (dw.indexUnit rounds) units = (dw.walkUnits units).run (dw.visit rounds) := by
  induction units with
  | nil => rfl
  | cons cu rest ih =>
      simp only [Eff.forEach, Dwarf.walkUnits, Walk.run_andThen, ih, Dwarf.indexUnit,
        Dwarf.walkUnit, Walk.run_ofExcept, indexDie_eq]

end Running

/-- An entry at any depth below another one, and whether a function stands above it. -/
inductive Die.Shows (dw : Dwarf) : Die → Bool → Die → Bool → Prop where
  | self (die : Die) (inFunction : Bool) : Die.Shows dw die inFunction die inFunction
  | inside {die child target : Die} {entry : DieEntry} {children : List Die}
      {inFunction nested : Bool} (hentry : die.entry = some entry)
      (hchildren : die.children dw = .ok children) (hchild : child ∈ children)
      (hbelow : Die.Shows dw child (inFunction || entry.isFunction) target nested) :
      Die.Shows dw die inFunction target nested

/-- An entry of a unit, at any depth. -/
def CompileUnit.Shows (dw : Dwarf) (cu : CompileUnit) (die : Die) (inFunction : Bool) : Prop :=
  ∃ root, cu.root = .ok root ∧ root.Shows dw false die inFunction

section Shown

variable {dw : Dwarf} {depth count : Nat} {die : Die} {inFunction : Bool}

theorem Walk.andThen_done {first second : Walk} (h : (first.andThen second).failure = none) :
    first.failure = none ∧ second.failure = none ∧
      (first.andThen second).visits = first.visits ++ second.visits := by
  obtain ⟨visits, failure⟩ := first
  cases failure with
  | some failure => cases h
  | none => exact ⟨rfl, h, rfl⟩

theorem Walk.ofExcept_done {α : Type} {x : Except Failure α} {f : α → Walk}
    (h : (Walk.ofExcept x f).failure = none) : ∃ a, x = .ok a ∧ Walk.ofExcept x f = f a := by
  cases x with
  | error failure => cases h
  | ok a => exact ⟨a, rfl, rfl⟩

/-- A walk through children that was not ended early went through all of them. -/
theorem walkChildren_done {walk : Die → Walk}
    (h : (dw.walkChildren depth walk count die).failure = none) :
    ∃ children, Die.siblingsFrom dw depth count die = .ok children ∧
      (∀ child ∈ children, (walk child).failure = none) ∧
      (dw.walkChildren depth walk count die).visits =
        children.flatMap fun child => (walk child).visits := by
  induction count generalizing die with
  | zero => cases h
  | succ count ih =>
      rw [Dwarf.walkChildren] at h ⊢
      rw [Die.siblingsFrom]
      cases hentry : die.entry with
      | none => exact ⟨[], rfl, by simp, rfl⟩
      | some entry =>
          rw [hentry] at h
          obtain ⟨hfirst, hsecond, hvisits⟩ := Walk.andThen_done h
          obtain ⟨next, hnext, hrest⟩ := Walk.ofExcept_done hsecond
          rw [hrest] at hsecond
          obtain ⟨children, hchildren, hdone, hall⟩ := ih hsecond
          refine ⟨die :: children, ?_, ?_, ?_⟩
          · simp only [hnext, ok_bind, hchildren]
            rfl
          · intro child hchild
            rcases List.mem_cons.mp hchild with rfl | hin
            · exact hfirst
            · exact hdone child hin
          · change ((walk die).andThen _).visits = _
            rw [hvisits, hrest, hall, List.flatMap_cons]

/-- The visits of a walk that was not ended early are the entries that are shown. -/
theorem mem_walkDie (h : (dw.walkDie depth die inFunction).failure = none) (v : Visit) :
    v ∈ (dw.walkDie depth die inFunction).visits ↔
      v.die.entry = some v.entry ∧ die.Shows dw inFunction v.die v.inFunction := by
  induction depth generalizing die inFunction with
  | zero => cases h
  | succ depth ih =>
      rw [Dwarf.walkDie] at h ⊢
      cases hentry : die.entry with
      | none =>
          rw [hentry] at h
          cases h
      | some entry =>
          rw [hentry] at h
          simp only at h ⊢
          obtain ⟨-, hsecond, hvisits⟩ := Walk.andThen_done h
          rw [hvisits, List.mem_append, List.mem_singleton]
          have hbelow : ∃ children, die.children dw = .ok children ∧
              (v ∈ (if entry.abbrevEntry.hasChildren then
                Walk.ofExcept (parseDie die.cu die.next) (dw.walkChildren (die.cu.data.length + 1)
                  (fun child => dw.walkDie depth child (inFunction || entry.isFunction))
                  (die.cu.data.length + 1))
                else .done).visits ↔ ∃ child ∈ children, v.die.entry = some v.entry ∧
                  child.Shows dw (inFunction || entry.isFunction) v.die v.inFunction) := by
            unfold Die.children
            cases hchildren : entry.abbrevEntry.hasChildren with
            | false => exact ⟨[], by simp [hentry, hchildren], by simp [Walk.done]⟩
            | true =>
                rw [hchildren, if_pos rfl] at hsecond
                obtain ⟨first, hfirst, hrest⟩ := Walk.ofExcept_done hsecond
                rw [hrest] at hsecond
                obtain ⟨children, hsiblings, hdone, hall⟩ := walkChildren_done hsecond
                refine ⟨children, ?_, ?_⟩
                · simp only [hentry, hchildren, if_true, hfirst, ok_bind, hsiblings]
                · rw [if_pos rfl, hrest, hall, List.mem_flatMap]
                  refine exists_congr fun child => and_congr_right fun hchild => ?_
                  exact ih (hdone child hchild)
          obtain ⟨children, hchildren, hmem⟩ := hbelow
          rw [hmem]
          constructor
          · rintro (rfl | ⟨child, hchild, hsome, hshows⟩)
            · exact ⟨hentry, .self die inFunction⟩
            · exact ⟨hsome, .inside hentry hchildren hchild hshows⟩
          · rintro ⟨hsome, hshows⟩
            obtain ⟨shown, shownEntry, nested⟩ := v
            cases hshows with
            | self =>
                rw [hentry] at hsome
                cases hsome
                exact .inl rfl
            | inside hentry' hchildren' hchild hbelow =>
                cases hentry'.symm.trans hentry
                cases hchildren'.symm.trans hchildren
                exact .inr ⟨_, hchild, hsome, hbelow⟩

theorem mem_walkUnit {cu : CompileUnit} (h : (dw.walkUnit cu).failure = none) (v : Visit) :
    v ∈ (dw.walkUnit cu).visits ↔
      v.die.entry = some v.entry ∧ cu.Shows dw v.die v.inFunction := by
  obtain ⟨root, hroot, hrest⟩ := Walk.ofExcept_done h
  have hdone : (dw.walkDie (cu.data.length + 1) root false).failure = none := by
    rw [← hrest]
    exact h
  rw [Dwarf.walkUnit, hrest, mem_walkDie hdone]
  constructor
  · exact fun ⟨hentry, hshows⟩ => ⟨hentry, root, hroot, hshows⟩
  · rintro ⟨hentry, root', hroot', hshows⟩
    cases hroot'.symm.trans hroot
    exact ⟨hentry, hshows⟩

end Shown

/-- Visits to entries of a unit between two positions, in the order of their
positions; each is parsed again from its position. -/
structure InOrder (cu : CompileUnit) (start stop : Nat) (visits : List Visit) : Prop where
  unit : ∀ v ∈ visits, v.die.cu = cu
  parsed : ∀ v ∈ visits, parseDie cu v.entry.pos = .ok v.die
  within : ∀ v ∈ visits, start ≤ v.entry.pos ∧ v.entry.pos < stop
  ordered : visits.Pairwise fun a b => a.entry.pos < b.entry.pos

section Encoded

variable {cu : CompileUnit} {pos after next stop : Nat} {entry : Abbrev} {attrs : List DieAttr}
  {trees : List DieTree} {locs : List Nat} {xs ys : List Visit}

theorem InOrder.nil (start stop : Nat) : InOrder cu start stop [] := by
  constructor <;> simp

theorem InOrder.append {middle : Nat} (h : InOrder cu pos middle xs)
    (h' : InOrder cu middle stop ys)
    (hle : pos ≤ middle) (hle' : middle ≤ stop) : InOrder cu pos stop (xs ++ ys) := by
  constructor
  · intro v hv
    exact (List.mem_append.mp hv).elim (h.unit v) (h'.unit v)
  · intro v hv
    exact (List.mem_append.mp hv).elim (h.parsed v) (h'.parsed v)
  · intro v hv
    rcases List.mem_append.mp hv with hx | hy
    · have hwithin := h.within v hx
      omega
    · have hwithin := h'.within v hy
      omega
  · refine List.pairwise_append.mpr ⟨h.ordered, h'.ordered, ?_⟩
    intro a ha b hb
    have hfirst := h.within a ha
    have hsecond := h'.within b hb
    omega

/-- The visit of an entry comes before those of its children. -/
theorem InOrder.head (h : HeadParsed cu pos entry attrs after next locs) (inFunction : Bool) :
    InOrder cu pos after
      [⟨⟨cu, after, some ⟨pos, entry, locs⟩⟩, ⟨pos, entry, locs⟩, inFunction⟩] := by
  have hforward := h.forward
  constructor
  · simp
  · simpa using h.parsed
  · simpa using hforward
  · simp

/-- Walking through an entry and its children. -/
theorem walkDie_parent (hparent : entry.hasChildren = true) (dw : Dwarf) {height : Nat}
    (inFunction : Bool) {first : Die} (hfirst : parseDie cu after = .ok first)
    (hwalk : dw.walkChildren (cu.data.length + 1) (fun child => dw.walkDie height child
      (inFunction || DieEntry.isFunction ⟨pos, entry, locs⟩)) (cu.data.length + 1) first =
        ⟨xs, none⟩) :
    dw.walkDie (height + 1) ⟨cu, after, some ⟨pos, entry, locs⟩⟩ inFunction =
      ⟨⟨⟨cu, after, some ⟨pos, entry, locs⟩⟩, ⟨pos, entry, locs⟩, inFunction⟩ :: xs, none⟩ := by
  simp only [Dwarf.walkDie, hparent, if_true, hfirst, Walk.ofExcept, hwalk]
  rfl

theorem walkDie_leaf (hleaf : entry.hasChildren = false) (dw : Dwarf) (height : Nat)
    (inFunction : Bool) :
    dw.walkDie (height + 1) ⟨cu, after, some ⟨pos, entry, locs⟩⟩ inFunction =
      ⟨[⟨⟨cu, after, some ⟨pos, entry, locs⟩⟩, ⟨pos, entry, locs⟩, inFunction⟩], none⟩ := by
  simp only [Dwarf.walkDie, hleaf, Bool.false_eq_true, if_false]
  rfl

/-- Walking through an entry and its siblings. -/
theorem walkChildren_cons {dw : Dwarf} {depth count : Nat} {walk : Die → Walk} {die following : Die}
    (hentry : die.entry ≠ none) (hfirst : walk die = ⟨xs, none⟩)
    (hincrement : Die.increment dw depth die = .ok following)
    (hrest : dw.walkChildren depth walk count following = ⟨ys, none⟩) :
    dw.walkChildren depth walk (count + 1) die = ⟨xs ++ ys, none⟩ := by
  obtain ⟨entry, hsome⟩ := Option.ne_none_iff_exists'.mp hentry
  simp only [Dwarf.walkChildren, hsome, hfirst, hincrement, Walk.ofExcept, hrest, Walk.andThen]

/-- Encoded siblings are walked through to their end, in order. -/
theorem EncodesSiblings.walked (h : EncodesSiblings cu pos trees stop) (dw : Dwarf)
    {depth count height : Nat} (hdepth : stop - pos ≤ depth) (hcount : stop - pos ≤ count)
    (hheight : stop - pos ≤ height) (inFunction : Bool) :
    ∃ first visits, parseDie cu pos = .ok first ∧
      dw.walkChildren depth (fun child => dw.walkDie height child inFunction) count first =
        ⟨visits, none⟩ ∧ InOrder cu pos stop visits := by
  induction h generalizing depth count height inFunction with
  | null hbytes hnull =>
      obtain ⟨hforward, -⟩ := uleb_inside hbytes hnull
      obtain ⟨count, rfl⟩ : ∃ k, count = k + 1 := ⟨count - 1, by omega⟩
      exact ⟨_, [], parseDie_null hbytes hnull, rfl, InOrder.nil _ _⟩
  | leaf head hleaf tail ih =>
      obtain ⟨locs, hlocs⟩ := head.parse
      have hforward := hlocs.forward
      have hinside := tail.inside
      obtain ⟨count, rfl⟩ : ∃ k, count = k + 1 := ⟨count - 1, by omega⟩
      obtain ⟨following, visits, hfollowing, hwalk, horder⟩ :=
        @ih depth count height (by omega) (by omega) (by omega) inFunction
      obtain ⟨depth, rfl⟩ : ∃ k, depth = k + 1 := ⟨depth - 1, by omega⟩
      obtain ⟨height, rfl⟩ : ∃ k, height = k + 1 := ⟨height - 1, by omega⟩
      refine ⟨_, _, hlocs.parsed, walkChildren_cons (Option.some_ne_none _)
        (walkDie_leaf hleaf dw height inFunction) ((increment_leaf hleaf dw depth).trans hfollowing)
        hwalk, ?_⟩
      exact (InOrder.head hlocs inFunction).append horder (by omega) (by omega)
  | parent head hparent below tail ihbelow ih =>
      obtain ⟨locs, hlocs⟩ := head.parse
      have hforward := hlocs.forward
      have hbelow := below.inside
      have hinside := tail.inside
      obtain ⟨count, rfl⟩ : ∃ k, count = k + 1 := ⟨count - 1, by omega⟩
      obtain ⟨following, visits, hfollowing, hwalk, horder⟩ :=
        @ih depth count height (by omega) (by omega) (by omega) inFunction
      obtain ⟨depth, rfl⟩ : ∃ k, depth = k + 1 := ⟨depth - 1, by omega⟩
      obtain ⟨height, rfl⟩ : ∃ k, height = k + 1 := ⟨height - 1, by omega⟩
      obtain ⟨first, hfirst, hskip⟩ := below.skipped dw
        (show _ ≤ depth by omega) (show _ ≤ depth by omega)
      obtain ⟨first', nested, hfirst', hnested, hinner⟩ :=
        @ihbelow (cu.data.length + 1) (cu.data.length + 1) height (by omega) (by omega) (by omega) _
      have hincrement := (increment_parent hlocs hparent dw hfirst hskip).trans hfollowing
      refine ⟨_, _, hlocs.parsed, walkChildren_cons (Option.some_ne_none _)
        (walkDie_parent hparent dw inFunction hfirst' hnested) hincrement hwalk, ?_⟩
      have hown := (InOrder.head hlocs inFunction).append hinner (by omega) (by omega)
      exact hown.append horder (by omega) (by omega)

/-- A unit that encodes a tree is walked through to its end, in order. -/
theorem EncodesUnit.walked {tree : DieTree} (h : EncodesUnit cu tree) (dw : Dwarf) :
    ∃ visits, dw.walkUnit cu = ⟨visits, none⟩ ∧ InOrder cu 11 cu.data.length visits := by
  cases h with
  | leaf head hleaf =>
      obtain ⟨locs, hlocs⟩ := head.parse
      have hinside := hlocs.inside
      have hforward := hlocs.forward
      refine ⟨_, ?_, (InOrder.head hlocs false).append (InOrder.nil _ _) (by omega) hinside⟩
      rw [Dwarf.walkUnit, CompileUnit.root, hlocs.parsed]
      exact walkDie_leaf hleaf dw _ false
  | parent head hparent below =>
      obtain ⟨locs, hlocs⟩ := head.parse
      have hbelow := below.inside
      have hforward := hlocs.forward
      obtain ⟨first, visits, hfirst, hwalk, horder⟩ := below.walked dw
        (show _ ≤ cu.data.length + 1 by omega) (show _ ≤ cu.data.length + 1 by omega)
        (show _ ≤ cu.data.length by omega) _
      have hown := (InOrder.head hlocs false).append horder (by omega) (by omega)
      refine ⟨_, ?_, hown.append (InOrder.nil _ _) (by omega) hbelow.2⟩
      rw [Dwarf.walkUnit, CompileUnit.root, hlocs.parsed, List.append_nil]
      exact walkDie_parent hparent dw false hfirst hwalk

end Encoded

end Gsdb
