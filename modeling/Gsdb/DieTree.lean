/-
Trees of debugging information entries.  A unit encodes a tree entry after
entry, with a null entry behind every list of children; iterating over children
follows sibling links where they are present and walks through the subtrees
where they are not.
-/
import Gsdb.AttributeForms

namespace Gsdb

open ByteMemory ByteCursor

/-- An attribute with its encoded value. -/
structure DieAttr where
  attr : Word
  form : Form
  bytes : List Byte
deriving DecidableEq, Repr

/-- An entry and its children; links to siblings are not part of it. -/
inductive DieTree where
  | node (tag : Word) (attrs : List DieAttr) (children : List DieTree)

/-- Bytes stand at a position of a unit. -/
def CompileUnit.HasAt (cu : CompileUnit) (pos : Nat) (bytes : List Byte) : Prop :=
  ∃ after, (Cursor.mk cu.data pos).rest = bytes ++ after

/-- The attributes of an entry, one after the other; every link to a sibling
holds the position of the next one. -/
inductive EncodesAttrs (cu : CompileUnit) (sibling : Nat) :
    List AttrSpec → Nat → List DieAttr → Nat → Prop where
  | nil {pos : Nat} : EncodesAttrs cu sibling [] pos [] pos
  | link {spec : AttrSpec} {specs : List AttrSpec} {pos stop : Nat} {bytes : List Byte}
      {attrs : List DieAttr} (hattr : spec.attr = atSibling)
      (hform : spec.form = .ref1 ∨ spec.form = .ref2 ∨ spec.form = .ref4)
      (hbytes : cu.HasAt pos bytes) (hencodes : EncodesForm spec.form bytes)
      (hsibling : ofLe bytes = sibling)
      (rest : EncodesAttrs cu sibling specs (pos + bytes.length) attrs stop) :
      EncodesAttrs cu sibling (spec :: specs) pos attrs stop
  | value {spec : AttrSpec} {specs : List AttrSpec} {pos stop : Nat} {bytes : List Byte}
      {attrs : List DieAttr} (hattr : spec.attr ≠ atSibling)
      (hform : spec.form.isSkippable = true) (hbytes : cu.HasAt pos bytes)
      (hencodes : EncodesForm spec.form bytes)
      (rest : EncodesAttrs cu sibling specs (pos + bytes.length) attrs stop) :
      EncodesAttrs cu sibling (spec :: specs) pos (⟨spec.attr, spec.form, bytes⟩ :: attrs) stop

/-- The part of an entry before its children: its abbreviation code and its
attributes. -/
structure EncodesHead (cu : CompileUnit) (pos : Nat) (entry : Abbrev) (attrs : List DieAttr)
    (after sibling : Nat) : Prop where
  code : ∃ first code, cu.HasAt pos first ∧ IsUleb first code ∧ code ≠ 0 ∧
    cu.abbrevAt code = .ok entry ∧
    EncodesAttrs cu sibling entry.attrSpecs (pos + first.length) attrs after

/-- Siblings one after the other, and the null entry behind them. -/
inductive EncodesSiblings (cu : CompileUnit) : Nat → List DieTree → Nat → Prop where
  | null {pos : Nat} {first : List Byte} (hbytes : cu.HasAt pos first) (hnull : IsUleb first 0) :
      EncodesSiblings cu pos [] (pos + first.length)
  | leaf {pos next stop : Nat} {entry : Abbrev} {attrs : List DieAttr} {trees : List DieTree}
      (head : EncodesHead cu pos entry attrs next next) (hleaf : entry.hasChildren = false)
      (tail : EncodesSiblings cu next trees stop) :
      EncodesSiblings cu pos (.node entry.tag attrs [] :: trees) stop
  | parent {pos after next stop : Nat} {entry : Abbrev} {attrs : List DieAttr}
      {children trees : List DieTree} (head : EncodesHead cu pos entry attrs after next)
      (hparent : entry.hasChildren = true) (below : EncodesSiblings cu after children next)
      (tail : EncodesSiblings cu next trees stop) :
      EncodesSiblings cu pos (.node entry.tag attrs children :: trees) stop

/-- A unit with a tree of entries behind its header. -/
inductive EncodesUnit (cu : CompileUnit) : DieTree → Prop where
  | leaf {next : Nat} {entry : Abbrev} {attrs : List DieAttr}
      (head : EncodesHead cu 11 entry attrs next next) (hleaf : entry.hasChildren = false) :
      EncodesUnit cu (.node entry.tag attrs [])
  | parent {after next : Nat} {entry : Abbrev} {attrs : List DieAttr} {children : List DieTree}
      (head : EncodesHead cu 11 entry attrs after next) (hparent : entry.hasChildren = true)
      (below : EncodesSiblings cu after children next) :
      EncodesUnit cu (.node entry.tag attrs children)

namespace Die

/-- Where the attributes start and end. -/
def extents : List Nat → Nat → List (Nat × Nat)
  | [], _ => []
  | loc :: rest, stop => (loc, rest.headD stop) :: extents rest stop

/-- The attributes of an entry with the bytes of their values, without links to
siblings. -/
def values (die : Die) (entry : DieEntry) : List DieAttr :=
  ((entry.abbrevEntry.attrSpecs.zip (extents entry.attrLocs die.next)).filter
    fun value => value.1.attr ≠ atSibling).map fun value =>
      ⟨value.1.attr, value.1.form, (die.cu.data.drop value.2.1).take (value.2.2 - value.2.1)⟩

/-- The tree of entries that `children()` shows, down to a depth. -/
def readTree (dw : Dwarf) : Nat → Die → Except Failure DieTree
  | 0, _ => .error .schedule
  | depth + 1, die =>
      match die.entry with
      | none => .error (.undefined "null entry")
      | some entry => do
          let below ← die.children dw
          let trees ← below.mapM (readTree dw depth)
          pure (.node entry.abbrevEntry.tag (die.values entry) trees)

end Die

/-- The tree of entries of a unit, from `root()` on. -/
def CompileUnit.readTree (dw : Dwarf) (cu : CompileUnit) : Except Failure DieTree := do
  let root ← cu.root
  root.readTree dw (cu.data.length + 1)

section Attributes

variable {cu : CompileUnit} {sibling pos stop : Nat} {specs : List AttrSpec}
  {attrs : List DieAttr} {bytes : List Byte}

theorem CompileUnit.HasAt.length_le (h : cu.HasAt pos bytes) (hsome : bytes ≠ []) :
    pos + bytes.length ≤ cu.data.length := by
  obtain ⟨after, hrest⟩ := h
  have hlength := congrArg List.length hrest
  have hpos := List.length_pos_iff.mpr hsome
  simp only [Cursor.rest, List.length_drop, List.length_append] at hlength
  omega

theorem CompileUnit.HasAt.take_drop (h : cu.HasAt pos bytes) :
    (cu.data.drop pos).take (pos + bytes.length - pos) = bytes := by
  obtain ⟨after, hrest⟩ := h
  have hdrop : cu.data.drop pos = bytes ++ after := hrest
  rw [hdrop, Nat.add_sub_cancel_left, List.take_left]

theorem skipForm_hasAt {form : Form} (h : cu.HasAt pos bytes) (hencodes : EncodesForm form bytes)
    (hform : form.isSkippable = true) :
    skipForm form ⟨cu.data, pos⟩ = .ok ⟨cu.data, pos + bytes.length⟩ := by
  obtain ⟨after, hrest⟩ := h
  exact skipForm_encoded hencodes hform hrest

theorem isSkippable_of_link {form : Form} (h : form = .ref1 ∨ form = .ref2 ∨ form = .ref4) :
    form.isSkippable = true := by
  rcases h with rfl | rfl | rfl <;> rfl

/-- A link leads to the sibling. -/
theorem asReference_link {form : Form} (dw : Dwarf) (h : cu.HasAt pos bytes)
    (hform : form = .ref1 ∨ form = .ref2 ∨ form = .ref4) (hencodes : EncodesForm form bytes)
    (hsibling : ofLe bytes = sibling) (type : Word) :
    Attr.asReference dw ⟨cu, type, form, pos⟩ = parseDie cu sibling := by
  obtain ⟨after, hrest⟩ := h
  have hreference : form = .ref1 ∨ form = .ref2 ∨ form = .ref4 ∨ form = .refAddr := by tauto
  have hread : Attr.asReference dw ⟨cu, type, form, pos⟩ = referenced dw cu form bytes :=
    asReference_fixed rfl hreference hencodes hrest
  rw [hread, ← hsibling]
  rcases hform with rfl | rfl | rfl <;> rfl

/-- What is known of the attributes of an entry that was parsed. -/
structure AttrsParsed (cu : CompileUnit) (sibling : Nat) (specs : List AttrSpec) (pos : Nat)
    (attrs : List DieAttr) (stop : Nat) (locs : List Nat) : Prop where
  skipped : skipForms specs ⟨cu.data, pos⟩ = .ok (locs, ⟨cu.data, stop⟩)
  start : locs.headD stop = pos
  ordered : pos ≤ stop
  inside : pos ≤ cu.data.length → stop ≤ cu.data.length
  values : ((specs.zip (Die.extents locs stop)).filter fun value => value.1.attr ≠ atSibling).map
      (fun value => (⟨value.1.attr, value.1.form,
        (cu.data.drop value.2.1).take (value.2.2 - value.2.1)⟩ : DieAttr)) = attrs
  linked : (specs.any fun spec => spec.attr = atSibling) = true →
    ∃ spec location, (specs.zip locs).find? (fun spec => spec.1.attr = atSibling) =
        some (spec, location) ∧
      ∀ dw, Attr.asReference dw ⟨cu, spec.attr, spec.form, location⟩ = parseDie cu sibling

theorem EncodesAttrs.parsed (h : EncodesAttrs cu sibling specs pos attrs stop) :
    ∃ locs, AttrsParsed cu sibling specs pos attrs stop locs := by
  induction h with
  | nil =>
      exact ⟨[], rfl, rfl, Nat.le_refl _, fun h => h, rfl, fun h => by cases h⟩
  | @link spec specs pos stop bytes attrs hattr hform hbytes hencodes hsibling rest ih =>
      obtain ⟨locs, hlocs⟩ := ih
      have hskip := skipForm_hasAt hbytes hencodes (isSkippable_of_link hform)
      have hordered := hlocs.ordered
      refine ⟨pos :: locs, ?_, rfl, by omega, fun hpos => ?_, ?_, fun _ => ?_⟩
      · rw [skipForms, hskip, ok_bind, hlocs.skipped]
        rfl
      · refine hlocs.inside ?_
        by_cases hsome : bytes = []
        · simpa [hsome] using hpos
        · exact hbytes.length_le hsome
      · rw [Die.extents, List.zip_cons_cons, List.filter_cons_of_neg (by simpa using hattr)]
        exact hlocs.values
      · refine ⟨spec, pos, ?_, fun dw => asReference_link dw hbytes hform hencodes hsibling _⟩
        rw [List.zip_cons_cons, List.find?_cons_of_pos (by simpa using hattr)]
  | @value spec specs pos stop bytes attrs hattr hform hbytes hencodes rest ih =>
      obtain ⟨locs, hlocs⟩ := ih
      have hskip := skipForm_hasAt hbytes hencodes hform
      have hordered := hlocs.ordered
      refine ⟨pos :: locs, ?_, rfl, by omega, fun hpos => ?_, ?_, fun hany => ?_⟩
      · rw [skipForms, hskip, ok_bind, hlocs.skipped]
        rfl
      · refine hlocs.inside ?_
        by_cases hsome : bytes = []
        · simpa [hsome] using hpos
        · exact hbytes.length_le hsome
      · rw [Die.extents, List.zip_cons_cons, List.filter_cons_of_pos (by simpa using hattr),
          List.map_cons, hlocs.values, hlocs.start, hbytes.take_drop]
      · rw [List.any_cons, decide_eq_false hattr, Bool.false_or] at hany
        obtain ⟨found, location, hfind, hreference⟩ := hlocs.linked hany
        refine ⟨found, location, ?_, hreference⟩
        rw [List.zip_cons_cons, List.find?_cons_of_neg (by simpa using hattr), hfind]

end Attributes

section Entries

variable {cu : CompileUnit} {pos after sibling stop : Nat} {entry : Abbrev}
  {attrs : List DieAttr} {trees : List DieTree} {first : List Byte} {value : Word}

theorem uleb128_hasAt (h : cu.HasAt pos first) (hleb : IsUleb first value) :
    (Cursor.mk cu.data pos).uleb128 = some (value, ⟨cu.data, pos + first.length⟩) := by
  obtain ⟨rest, hrest⟩ := h
  exact hleb.uleb128 hrest

theorem uleb_inside (h : cu.HasAt pos first) (hleb : IsUleb first value) :
    pos < pos + first.length ∧ pos + first.length ≤ cu.data.length := by
  have hpos := lebSize_pos hleb.lebSize
  have hinside := h.length_le (List.length_pos_iff.mp hpos)
  omega

/-- What is known of an entry after `parse_die`. -/
structure HeadParsed (cu : CompileUnit) (pos : Nat) (entry : Abbrev) (attrs : List DieAttr)
    (after sibling : Nat) (locs : List Nat) : Prop where
  parsed : parseDie cu pos = .ok ⟨cu, after, some ⟨pos, entry, locs⟩⟩
  forward : pos < after
  inside : after ≤ cu.data.length
  values : Die.values ⟨cu, after, some ⟨pos, entry, locs⟩⟩ ⟨pos, entry, locs⟩ = attrs
  linked : Die.contains ⟨pos, entry, locs⟩ atSibling = true → ∀ dw,
    (do let link ← Die.attr cu ⟨pos, entry, locs⟩ atSibling
        link.asReference dw) = parseDie cu sibling

theorem EncodesHead.parse (h : EncodesHead cu pos entry attrs after sibling) :
    ∃ locs, HeadParsed cu pos entry attrs after sibling locs := by
  obtain ⟨first, code, hbytes, hleb, hcode, hentry, hattrs⟩ := h.code
  obtain ⟨locs, hlocs⟩ := hattrs.parsed
  obtain ⟨hforward, hinside⟩ := uleb_inside hbytes hleb
  have hordered := hlocs.ordered
  refine ⟨locs, ?_, by omega, hlocs.inside hinside, hlocs.values, fun hcontains dw => ?_⟩
  · simp only [parseDie, uleb128_hasAt hbytes hleb, inBounds_some, ok_bind, if_neg hcode, hentry,
      hlocs.skipped]
    rfl
  · obtain ⟨spec, location, hfind, hreference⟩ := hlocs.linked hcontains
    simp only [Die.attr, hfind, ok_bind]
    exact hreference dw

theorem parseDie_null (h : cu.HasAt pos first) (hleb : IsUleb first 0) :
    parseDie cu pos = .ok ⟨cu, pos + first.length, none⟩ := by
  simp only [parseDie, uleb128_hasAt h hleb, inBounds_some, ok_bind, if_pos]
  rfl

theorem EncodesSiblings.inside (h : EncodesSiblings cu pos trees stop) :
    pos < stop ∧ stop ≤ cu.data.length := by
  induction h with
  | null hbytes hnull => exact uleb_inside hbytes hnull
  | leaf head hleaf tail ih =>
      obtain ⟨locs, hlocs⟩ := head.parse
      have hforward := hlocs.forward
      omega
  | parent head hparent below tail ihbelow ih =>
      obtain ⟨locs, hlocs⟩ := head.parse
      have hforward := hlocs.forward
      omega

end Entries

section Iteration

variable {cu : CompileUnit} {pos after next stop : Nat} {entry : Abbrev} {attrs : List DieAttr}
  {trees children : List DieTree} {locs : List Nat}

theorem increment_leaf (hleaf : entry.hasChildren = false) (dw : Dwarf) (depth : Nat) :
    Die.increment dw (depth + 1) ⟨cu, next, some ⟨pos, entry, locs⟩⟩ = parseDie cu next := by
  simp only [Die.increment, hleaf, Bool.not_false, if_pos]

/-- The link and the walk through the children lead to the same entry. -/
theorem increment_parent (h : HeadParsed cu pos entry attrs after next locs)
    (hparent : entry.hasChildren = true) (dw : Dwarf) {depth : Nat} {first : Die}
    (hfirst : parseDie cu after = .ok first)
    (hskip : Die.skipChildren (Die.increment dw depth) depth first = .ok ⟨cu, next, none⟩) :
    Die.increment dw (depth + 1) ⟨cu, after, some ⟨pos, entry, locs⟩⟩ = parseDie cu next := by
  by_cases hcontains : Die.contains ⟨pos, entry, locs⟩ atSibling = true
  · simp only [Die.increment, hparent, hcontains, Bool.not_true, if_pos, Bool.false_eq_true,
      if_false]
    exact h.linked hcontains dw
  · simp only [Die.increment, hparent, hcontains, Bool.not_true, Bool.false_eq_true, if_false,
      hfirst, ok_bind, hskip]

theorem readTree_leaf (h : HeadParsed cu pos entry attrs after next locs)
    (hleaf : entry.hasChildren = false) (dw : Dwarf) (height : Nat) :
    Die.readTree dw (height + 1) ⟨cu, after, some ⟨pos, entry, locs⟩⟩ =
      .ok (.node entry.tag attrs []) := by
  simp only [Die.readTree, Die.children, hleaf, Bool.false_eq_true, if_false, ok_bind,
    List.mapM_nil, h.values]
  rfl

theorem readTree_parent (h : HeadParsed cu pos entry attrs after next locs)
    (hparent : entry.hasChildren = true) (dw : Dwarf) {height : Nat}
    (hbelow : ∃ first dies, parseDie cu after = .ok first ∧
      Die.siblingsFrom dw (cu.data.length + 1) (cu.data.length + 1) first = .ok dies ∧
      dies.mapM (Die.readTree dw height) = .ok children) :
    Die.readTree dw (height + 1) ⟨cu, after, some ⟨pos, entry, locs⟩⟩ =
      .ok (.node entry.tag attrs children) := by
  obtain ⟨first, dies, hfirst, hdies, htrees⟩ := hbelow
  simp only [Die.readTree, Die.children, hparent, if_pos, hfirst, ok_bind, hdies, htrees,
    h.values]
  rfl

/-- Incrementing an iterator over siblings ends at their null entry. -/
theorem EncodesSiblings.skipped (h : EncodesSiblings cu pos trees stop) (dw : Dwarf)
    {depth rounds : Nat} (hdepth : stop - pos ≤ depth) (hrounds : stop - pos ≤ rounds) :
    ∃ first, parseDie cu pos = .ok first ∧
      Die.skipChildren (Die.increment dw depth) rounds first = .ok ⟨cu, stop, none⟩ := by
  induction h generalizing depth rounds with
  | null hbytes hnull =>
      obtain ⟨hforward, -⟩ := uleb_inside hbytes hnull
      obtain ⟨rounds, rfl⟩ : ∃ k, rounds = k + 1 := ⟨rounds - 1, by omega⟩
      exact ⟨_, parseDie_null hbytes hnull, rfl⟩
  | leaf head hleaf tail ih =>
      obtain ⟨locs, hlocs⟩ := head.parse
      have hforward := hlocs.forward
      have hinside := tail.inside
      obtain ⟨rounds, rfl⟩ : ∃ k, rounds = k + 1 := ⟨rounds - 1, by omega⟩
      obtain ⟨following, hfollowing, hskip⟩ :=
        @ih depth rounds (by omega) (by omega)
      obtain ⟨depth, rfl⟩ : ∃ k, depth = k + 1 := ⟨depth - 1, by omega⟩
      refine ⟨_, hlocs.parsed, ?_⟩
      rw [Die.skipChildren, increment_leaf hleaf, hfollowing]
      exact hskip
  | parent head hparent below tail ihbelow ih =>
      obtain ⟨locs, hlocs⟩ := head.parse
      have hforward := hlocs.forward
      have hbelow := below.inside
      have hinside := tail.inside
      obtain ⟨rounds, rfl⟩ : ∃ k, rounds = k + 1 := ⟨rounds - 1, by omega⟩
      obtain ⟨following, hfollowing, hskip⟩ :=
        @ih depth rounds (by omega) (by omega)
      obtain ⟨depth, rfl⟩ : ∃ k, depth = k + 1 := ⟨depth - 1, by omega⟩
      obtain ⟨first, hfirst, hwalk⟩ :=
        @ihbelow depth depth (by omega) (by omega)
      refine ⟨_, hlocs.parsed, ?_⟩
      rw [Die.skipChildren, increment_parent hlocs hparent dw hfirst hwalk, hfollowing]
      exact hskip

/-- An entry in front of its siblings is read as their first tree. -/
theorem siblings_cons {dw : Dwarf} {depth rounds height : Nat} {tree : DieTree} {die : Die}
    (hentry : die.entry ≠ none) (hread : die.readTree dw height = .ok tree)
    (hincrement : Die.increment dw depth die = parseDie cu next)
    (hrest : ∃ following dies, parseDie cu next = .ok following ∧
      Die.siblingsFrom dw depth rounds following = .ok dies ∧
      dies.mapM (Die.readTree dw height) = .ok trees) :
    ∃ dies, Die.siblingsFrom dw depth (rounds + 1) die = .ok dies ∧
      dies.mapM (Die.readTree dw height) = .ok (tree :: trees) := by
  obtain ⟨following, dies, hfollowing, hdies, htrees⟩ := hrest
  obtain ⟨entry, hsome⟩ := Option.ne_none_iff_exists'.mp hentry
  refine ⟨die :: dies, ?_, ?_⟩
  · simp only [Die.siblingsFrom, hsome, hincrement, hfollowing, ok_bind, hdies]
    rfl
  · rw [List.mapM_cons, hread, ok_bind, htrees]
    rfl

/-- Iterating over siblings shows every one of them with its whole subtree. -/
theorem EncodesSiblings.read (h : EncodesSiblings cu pos trees stop) (dw : Dwarf)
    {depth rounds height : Nat} (hdepth : stop - pos ≤ depth) (hrounds : stop - pos ≤ rounds)
    (hheight : stop - pos ≤ height) :
    ∃ first dies, parseDie cu pos = .ok first ∧
      Die.siblingsFrom dw depth rounds first = .ok dies ∧
      dies.mapM (Die.readTree dw height) = .ok trees := by
  induction h generalizing depth rounds height with
  | null hbytes hnull =>
      obtain ⟨hforward, -⟩ := uleb_inside hbytes hnull
      obtain ⟨rounds, rfl⟩ : ∃ k, rounds = k + 1 := ⟨rounds - 1, by omega⟩
      exact ⟨_, [], parseDie_null hbytes hnull, rfl, rfl⟩
  | leaf head hleaf tail ih =>
      obtain ⟨locs, hlocs⟩ := head.parse
      have hforward := hlocs.forward
      have hinside := tail.inside
      obtain ⟨rounds, rfl⟩ : ∃ k, rounds = k + 1 := ⟨rounds - 1, by omega⟩
      have hrest := @ih depth rounds height (by omega) (by omega) (by omega)
      obtain ⟨depth, rfl⟩ : ∃ k, depth = k + 1 := ⟨depth - 1, by omega⟩
      obtain ⟨height, rfl⟩ : ∃ k, height = k + 1 := ⟨height - 1, by omega⟩
      have hread := readTree_leaf hlocs hleaf dw height
      obtain ⟨dies, hdies⟩ := siblings_cons (Option.some_ne_none _) hread
        (increment_leaf hleaf dw depth) hrest
      exact ⟨_, dies, hlocs.parsed, hdies⟩
  | parent head hparent below tail ihbelow ih =>
      obtain ⟨locs, hlocs⟩ := head.parse
      have hforward := hlocs.forward
      have hbelow := below.inside
      have hinside := tail.inside
      obtain ⟨rounds, rfl⟩ : ∃ k, rounds = k + 1 := ⟨rounds - 1, by omega⟩
      have hrest := @ih depth rounds height (by omega) (by omega) (by omega)
      obtain ⟨depth, rfl⟩ : ∃ k, depth = k + 1 := ⟨depth - 1, by omega⟩
      obtain ⟨height, rfl⟩ : ∃ k, height = k + 1 := ⟨height - 1, by omega⟩
      obtain ⟨first, hfirst, hwalk⟩ := below.skipped dw
        (show _ ≤ depth by omega) (show _ ≤ depth by omega)
      have hread := readTree_parent hlocs hparent dw
        (@ihbelow _ _ height (by omega) (by omega) (by omega))
      obtain ⟨dies, hdies⟩ := siblings_cons (Option.some_ne_none _) hread
        (increment_parent hlocs hparent dw hfirst hwalk) hrest
      exact ⟨_, dies, hlocs.parsed, hdies⟩

/-- From the root on, iterating over children gives back the tree that the unit
encodes. -/
theorem EncodesUnit.read {tree : DieTree} (h : EncodesUnit cu tree) (dw : Dwarf) :
    cu.readTree dw = .ok tree := by
  cases h with
  | leaf head hleaf =>
      obtain ⟨locs, hlocs⟩ := head.parse
      rw [CompileUnit.readTree, CompileUnit.root, hlocs.parsed, ok_bind]
      exact readTree_leaf hlocs hleaf dw _
  | parent head hparent below =>
      obtain ⟨locs, hlocs⟩ := head.parse
      have hbelow := below.inside
      rw [CompileUnit.readTree, CompileUnit.root, hlocs.parsed, ok_bind]
      exact readTree_parent hlocs hparent dw
        (below.read dw (by omega) (by omega) (by omega))

end Iteration

/-- The children of an entry do not depend on the links between siblings: two
units that encode a tree, with any links or none, are both read as that tree. -/
theorem children_reproduce_tree {cu unlinked : CompileUnit} {tree : DieTree}
    (h : EncodesUnit cu tree) (hunlinked : EncodesUnit unlinked tree) (dw dw' : Dwarf) :
    cu.readTree dw = .ok tree ∧ cu.readTree dw = unlinked.readTree dw' := by
  have hread := h.read dw
  have hunlinkedRead := hunlinked.read dw'
  refine ⟨hread, ?_⟩
  rw [hread, hunlinkedRead]

namespace DieTreeWitness

def header : List Byte := List.replicate 11 0

def unitEntry : Abbrev := ⟨1, 0x11, true, []⟩

def blockEntry : Abbrev := ⟨2, 0x0b, true, [⟨0x3a, .data1⟩]⟩

def linkedBlockEntry : Abbrev := ⟨2, 0x0b, true, [⟨atSibling, .ref1⟩, ⟨0x3a, .data1⟩]⟩

def variableEntry : Abbrev := ⟨3, 0x34, false, []⟩

/-- A block with a variable, and a variable behind it that the block links to. -/
def linked : CompileUnit :=
  ⟨0, header ++ [1, 2, 17, 7, 3, 0, 3, 0], [unitEntry, linkedBlockEntry, variableEntry]⟩

def unlinked : CompileUnit :=
  ⟨0, header ++ [1, 2, 7, 3, 0, 3, 0], [unitEntry, blockEntry, variableEntry]⟩

def variableTree : DieTree := .node 0x34 [] []

def tree : DieTree := .node 0x11 [] [.node 0x0b [⟨0x3a, .data1, [7]⟩] [variableTree], variableTree]

theorem head_of_byte {cu : CompileUnit} {pos after sibling : Nat} {entry : Abbrev}
    {attrs : List DieAttr} {first : Byte} {code : Word} (hbytes : cu.HasAt pos [first])
    (hleb : IsUleb [first] code) (hcode : code ≠ 0) (hentry : cu.abbrevAt code = .ok entry)
    (hattrs : EncodesAttrs cu sibling entry.attrSpecs (pos + 1) attrs after) :
    EncodesHead cu pos entry attrs after sibling :=
  ⟨[first], code, hbytes, hleb, hcode, hentry, hattrs⟩

theorem uleb_null : IsUleb [0] 0 := rfl

theorem uleb_unit : IsUleb [1] 1 := rfl

theorem uleb_block : IsUleb [2] 2 := rfl

theorem uleb_variable : IsUleb [3] 3 := rfl

theorem file_encodes : EncodesForm .data1 [7] := .fixed rfl

theorem link_encodes : EncodesForm .ref1 [17] := .fixed rfl

theorem linked_encodes : EncodesUnit linked tree := by
  have hlast : EncodesSiblings linked 18 [] 19 := .null ⟨_, rfl⟩ uleb_null
  have hsecond : EncodesHead linked 17 variableEntry [] 18 18 :=
    head_of_byte ⟨_, rfl⟩ uleb_variable (by decide) rfl .nil
  have hinnerNull : EncodesSiblings linked 16 [] 17 := .null ⟨_, rfl⟩ uleb_null
  have hinner : EncodesHead linked 15 variableEntry [] 16 16 :=
    head_of_byte ⟨_, rfl⟩ uleb_variable (by decide) rfl .nil
  have hattrs : EncodesAttrs linked 17 linkedBlockEntry.attrSpecs 13 [⟨0x3a, .data1, [7]⟩] 15 :=
    .link rfl (.inl rfl) ⟨_, rfl⟩ link_encodes rfl
      (.value (by decide) rfl ⟨_, rfl⟩ file_encodes .nil)
  have hblock : EncodesHead linked 12 linkedBlockEntry [⟨0x3a, .data1, [7]⟩] 15 17 :=
    head_of_byte ⟨_, rfl⟩ uleb_block (by decide) rfl hattrs
  have hroot : EncodesHead linked 11 unitEntry [] 12 19 :=
    head_of_byte ⟨_, rfl⟩ uleb_unit (by decide) rfl .nil
  exact .parent hroot rfl (.parent hblock rfl (.leaf hinner rfl hinnerNull)
    (.leaf hsecond rfl hlast))

theorem unlinked_encodes : EncodesUnit unlinked tree := by
  have hlast : EncodesSiblings unlinked 17 [] 18 := .null ⟨_, rfl⟩ uleb_null
  have hsecond : EncodesHead unlinked 16 variableEntry [] 17 17 :=
    head_of_byte ⟨_, rfl⟩ uleb_variable (by decide) rfl .nil
  have hinnerNull : EncodesSiblings unlinked 15 [] 16 := .null ⟨_, rfl⟩ uleb_null
  have hinner : EncodesHead unlinked 14 variableEntry [] 15 15 :=
    head_of_byte ⟨_, rfl⟩ uleb_variable (by decide) rfl .nil
  have hattrs : EncodesAttrs unlinked 16 blockEntry.attrSpecs 13 [⟨0x3a, .data1, [7]⟩] 14 :=
    .value (by decide) rfl ⟨_, rfl⟩ file_encodes .nil
  have hblock : EncodesHead unlinked 12 blockEntry [⟨0x3a, .data1, [7]⟩] 14 16 :=
    head_of_byte ⟨_, rfl⟩ uleb_block (by decide) rfl hattrs
  have hroot : EncodesHead unlinked 11 unitEntry [] 12 18 :=
    head_of_byte ⟨_, rfl⟩ uleb_unit (by decide) rfl .nil
  exact .parent hroot rfl (.parent hblock rfl (.leaf hinner rfl hinnerNull)
    (.leaf hsecond rfl hlast))

theorem children_reproduce_tree_linked :
    linked.readTree ⟨[], [], []⟩ = .ok tree ∧
      linked.readTree ⟨[], [], []⟩ = unlinked.readTree ⟨[], [], []⟩ :=
  children_reproduce_tree linked_encodes unlinked_encodes _ _

end DieTreeWitness

end Gsdb
