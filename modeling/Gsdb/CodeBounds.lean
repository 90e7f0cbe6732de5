/-
The bounds of the code of an entry.  `low_pc` and `high_pc` of an entry with a range list are
the start of the first entry of the list and the end of its last.
-/
import Gsdb.RangeLists

namespace Gsdb

open ByteMemory ByteCursor

/-- The range list of an entry: what stands in it, and the base that it starts with. -/
structure HasRangeList (ranges : List Byte) (cu : CompileUnit) (entry : DieEntry) (base : Word)
    (items : List RangeItem) : Prop where
  valid : ∀ item ∈ items, item.Valid
  base : Die.rangeBase cu = .ok base
  stands : ∃ attr offset after, Die.attr cu entry atRanges = .ok attr ∧
    attr.asSectionOffset = .ok offset ∧ ranges.drop offset.toNat = encodeRanges items ++ after

/-- Every address of an entry is between its bounds. -/
def BoundsCode (ranges : List Byte) (die : Die) (entry : DieEntry) : Prop :=
  ∀ address, Die.containsAddress ranges die.cu entry address = .ok true →
    ∃ low high, die.lowPcOf ranges = .ok low ∧ die.highPcOf ranges = .ok high ∧
      low ≤ address ∧ address < high

/-- No range that has addresses starts below the first one or ends above the last. -/
def RangesBetween (entries : List RangeEntry) : Prop :=
  ∀ entry ∈ entries, entry.low < entry.high →
    (∀ first, entries.head? = some first → first.low ≤ entry.low) ∧
      ∀ last, entries.getLast? = some last → entry.high ≤ last.high

section Lists

variable {ranges after : List Byte} {items : List RangeItem}

/-- What holds at the end of an encoded list, and of a list if it holds behind its first item,
holds of the whole list. -/
theorem encodeRanges_induction {motive : List RangeItem → Nat → Cursor → Word → Prop}
    (stop : ∀ rounds cur base, cur.rest = encodePair 0 0 ++ after →
      motive [] (rounds + 1) cur base)
    (select : ∀ selected items rounds cur base,
      cur.rest = encodePair (-1) selected ++ (encodeRanges items ++ after) →
      motive items rounds (cur.advance 16) selected →
      motive (.select selected :: items) (rounds + 1) cur base)
    (entry : ∀ low high items rounds cur base, low ≠ -1 → ¬ (low = 0 ∧ high = 0) →
      cur.rest = encodePair low high ++ (encodeRanges items ++ after) →
      motive items rounds (cur.advance 16) base →
      motive (.entry low high :: items) (rounds + 1) cur base)
    (hvalid : ∀ item ∈ items, item.Valid) :
    ∀ (cur : Cursor) (base : Word) (rounds : Nat), cur.rest = encodeRanges items ++ after →
      items.length < rounds → motive items rounds cur base := by
  induction items with
  | nil =>
      intro cur base rounds hcur hrounds
      obtain ⟨rounds, rfl⟩ : ∃ k, rounds = k + 1 := ⟨rounds - 1, by omega⟩
      exact stop rounds cur base hcur
  | cons item items ih =>
      intro cur base rounds hcur hrounds
      rw [List.length_cons] at hrounds
      obtain ⟨rounds, rfl⟩ : ∃ k, rounds = k + 1 := ⟨rounds - 1, by omega⟩
      have hothers := ih fun other hmem => hvalid other (List.mem_cons_of_mem item hmem)
      rw [encodeRanges, List.append_assoc] at hcur
      cases item with
      | select selected =>
          obtain ⟨-, -, hrest⟩ := u64_pair hcur
          exact select selected items rounds cur base hcur
            (hothers _ selected rounds hrest (by omega))
      | entry low high =>
          have hentry : low ≠ -1 ∧ ¬ (low = 0 ∧ high = 0) := hvalid _ List.mem_cons_self
          obtain ⟨-, -, hrest⟩ := u64_pair hcur
          exact entry low high items rounds cur base hentry.1 hentry.2 hcur
            (hothers _ base rounds hrest (by omega))

theorem rangeListContains_pair {cur : Cursor} {low high : Word}
    (hcur : cur.rest = encodePair low high ++ after) (address : Word) (rounds : Nat)
    (base : Word) :
    Die.rangeListContains address (rounds + 1) cur base =
      if low = -1 then Die.rangeListContains address rounds (cur.advance 16) high
      else if low = 0 ∧ high = 0 then .ok false
      else if low + base ≤ address ∧ address < high + base then .ok true
      else Die.rangeListContains address rounds (cur.advance 16) base := by
  obtain ⟨hlow, hhigh, -⟩ := u64_pair hcur
  rw [Die.rangeListContains, hlow, inBounds_some, ok_bind]
  simp only [hhigh, inBounds_some, ok_bind]
  rfl

theorem rangeListFirst_pair {cur : Cursor} {low high : Word}
    (hcur : cur.rest = encodePair low high ++ after) (rounds : Nat) (base : Word) :
    Die.rangeListFirst (rounds + 1) cur base =
      if low = -1 then Die.rangeListFirst rounds (cur.advance 16) high
      else if low = 0 ∧ high = 0 then .ok 0
      else .ok (low + base) := by
  obtain ⟨hlow, hhigh, -⟩ := u64_pair hcur
  rw [Die.rangeListFirst, hlow, inBounds_some, ok_bind]
  simp only [hhigh, inBounds_some, ok_bind]
  rfl

/-- The loop of `contains_address` over an encoded list. -/
theorem rangeListContains_items (hvalid : ∀ item ∈ items, item.Valid) (address : Word) :
    ∀ (cur : Cursor) (base : Word) (rounds : Nat), cur.rest = encodeRanges items ++ after →
      items.length < rounds → Die.rangeListContains address rounds cur base =
        .ok ((rangesFrom base items).any fun entry => entry.contains address) := by
  refine encodeRanges_induction (motive := fun items rounds cur base =>
    Die.rangeListContains address rounds cur base =
      .ok ((rangesFrom base items).any fun entry => entry.contains address)) ?_ ?_ ?_ hvalid
  · intro rounds cur base hcur
    exact rangeListContains_pair hcur address rounds base
  · intro selected items rounds cur base hcur ih
    rw [rangeListContains_pair hcur, if_pos rfl]
    exact ih
  · intro low high items rounds cur base hlow hpair hcur ih
    rw [rangeListContains_pair hcur, if_neg hlow, if_neg hpair, rangesFrom, List.any_cons,
      RangeEntry.contains, BitVec.add_comm low, BitVec.add_comm high]
    by_cases hinside : base + low ≤ address ∧ address < base + high
    · simp [hinside]
    · have hout :
          (decide (base + low ≤ address) && decide (address < base + high)) = false := by
        simpa using hinside
      rw [if_neg hinside, ih, hout, Bool.false_or]

theorem rangeListFirst_items (hvalid : ∀ item ∈ items, item.Valid) :
    ∀ (cur : Cursor) (base : Word) (rounds : Nat), cur.rest = encodeRanges items ++ after →
      items.length < rounds → Die.rangeListFirst rounds cur base =
        .ok (((rangesFrom base items).head?.map RangeEntry.low).getD 0) := by
  refine encodeRanges_induction (motive := fun items rounds cur base =>
    Die.rangeListFirst rounds cur base =
      .ok (((rangesFrom base items).head?.map RangeEntry.low).getD 0)) ?_ ?_ ?_ hvalid
  · intro rounds cur base hcur
    exact rangeListFirst_pair hcur rounds base
  · intro selected items rounds cur base hcur ih
    rw [rangeListFirst_pair hcur, if_pos rfl]
    exact ih
  · intro low high items rounds cur base hlow hpair hcur _
    rw [rangeListFirst_pair hcur, if_neg hlow, if_neg hpair, BitVec.add_comm low]
    rfl

theorem RangeEntry.contains_iff {entry : RangeEntry} {address : Word} :
    entry.contains address = true ↔ entry.low ≤ address ∧ address < entry.high := by
  simp [RangeEntry.contains]

/-- The last address of a range that has any. -/
theorem last_inside {low high : Word} (h : low < high) :
    low ≤ high - 1 ∧ high - 1 < high ∧ ∀ bound, high - 1 < bound → high ≤ bound := by
  refine ⟨?_, ?_, fun bound hbound => ?_⟩ <;> bv_omega

/-- The addresses of a list are between the start of its first range and the end of its last
exactly if every range is that has addresses. -/
theorem rangesBetween_iff {entries : List RangeEntry} {first last : RangeEntry}
    (hfirst : entries.head? = some first) (hlast : entries.getLast? = some last) :
    RangesBetween entries ↔ ∀ address, (∃ entry ∈ entries, entry.contains address = true) →
      first.low ≤ address ∧ address < last.high := by
  constructor
  · intro h address hmem
    obtain ⟨entry, hentry, hcontains⟩ := hmem
    obtain ⟨habove, hbelow⟩ := RangeEntry.contains_iff.mp hcontains
    obtain ⟨hlow, hhigh⟩ := h entry hentry (by bv_omega)
    have hlow := hlow first hfirst
    have hhigh := hhigh last hlast
    constructor <;> bv_omega
  · intro h entry hentry hsome
    obtain ⟨habove, hbelow, hbound⟩ := last_inside hsome
    have hlow := h entry.low ⟨entry, hentry, RangeEntry.contains_iff.mpr ⟨BitVec.le_refl _, hsome⟩⟩
    have hhigh := h (entry.high - 1)
      ⟨entry, hentry, RangeEntry.contains_iff.mpr ⟨habove, hbelow⟩⟩
    refine ⟨fun other hother => ?_, fun other hother => ?_⟩
    · cases hfirst.symm.trans hother
      exact hlow.1
    · cases hlast.symm.trans hother
      exact hbound _ hhigh.2

end Lists

section Bounds

variable {ranges : List Byte} {die : Die} {entry : DieEntry} {base : Word}
  {items : List RangeItem}

theorem attr_cu {cu : CompileUnit} {name : Word} {attr : Attr}
    (h : Die.attr cu entry name = .ok attr) : attr.cu = cu := by
  unfold Die.attr at h
  split at h
  · cases h
    rfl
  · cases h

/-- A range list that stands in the section has no more entries than bytes. -/
theorem room_for_items {start : Nat} {after : List Byte}
    (h : ranges.drop start = encodeRanges items ++ after) : items.length < ranges.length + 1 := by
  have hlength := congrArg List.length h
  rw [List.length_drop, List.length_append, encodeRanges_length] at hlength
  omega

theorem containsAddress_items (hranges : Die.contains entry atRanges = true)
    (hlist : HasRangeList ranges die.cu entry base items) (address : Word) :
    Die.containsAddress ranges die.cu entry address =
      .ok ((rangesFrom base items).any fun range => range.contains address) := by
  obtain ⟨attr, offset, after, hattr, hoffset, hstands⟩ := hlist.stands
  rw [Die.containsAddress, if_pos hranges, hattr, ok_bind, hoffset, ok_bind, hlist.base, ok_bind]
  exact rangeListContains_items hlist.valid address ⟨ranges, offset.toNat⟩ base _ hstands
    (room_for_items hstands)

theorem lowPcOf_items (hentry : die.entry = some entry)
    (hranges : Die.contains entry atRanges = true)
    (hlist : HasRangeList ranges die.cu entry base items) :
    die.lowPcOf ranges = .ok (((rangesFrom base items).head?.map RangeEntry.low).getD 0) := by
  obtain ⟨attr, offset, after, hattr, hoffset, hstands⟩ := hlist.stands
  simp only [Die.lowPcOf, hentry, if_pos hranges, hattr, ok_bind, hoffset, hlist.base]
  exact rangeListFirst_items hlist.valid ⟨ranges, offset.toNat⟩ base _ hstands
    (room_for_items hstands)

theorem highPcOf_items (hentry : die.entry = some entry)
    (hranges : Die.contains entry atRanges = true)
    (hlist : HasRangeList ranges die.cu entry base items) {last : RangeEntry}
    (hlast : (rangesFrom base items).getLast? = some last) :
    die.highPcOf ranges = .ok last.high := by
  obtain ⟨attr, offset, after, hattr, hoffset, hstands⟩ := hlist.stands
  obtain ⟨first, its, hbegin, hcollect, hits⟩ :=
    RangeList.iterators_encoded base hlist.valid hstands
  rw [← hits, List.getLast?_map] at hlast
  obtain ⟨it, hit, rfl⟩ := Option.map_eq_some_iff.mp hlast
  have hwhole : attr.asRangeList ranges = .ok ⟨ranges, offset.toNat, base⟩ := by
    rw [Attr.asRangeList, hoffset, ok_bind, attr_cu hattr, hlist.base, ok_bind]
    rfl
  simp only [Die.highPcOf, hentry, if_pos hranges, hattr, ok_bind, hwhole, hbegin,
    lastFrom_collect hcollect hit]
  rfl

/-- An entry without ranges contains the addresses from its low to its high program counter. -/
theorem boundsCode_of_pair (hentry : die.entry = some entry)
    (hranges : Die.contains entry atRanges = false) : BoundsCode ranges die entry := by
  intro address hcontains
  rw [Die.containsAddress, if_neg (by rw [hranges]; exact Bool.false_ne_true)] at hcontains
  by_cases hlow : Die.contains entry atLowPc = true
  · rw [if_pos hlow] at hcontains
    obtain ⟨low, hread, hcontains⟩ := bind_eq_ok.mp hcontains
    by_cases habove : low ≤ address
    · rw [if_pos habove] at hcontains
      obtain ⟨high, hhigh, hbelow⟩ := bind_eq_ok.mp hcontains
      refine ⟨low, high, ?_, ?_, habove, ?_⟩
      · simp only [Die.lowPcOf, hentry, hranges, hlow, Bool.false_eq_true, if_false, if_true, hread]
      · simp only [Die.highPcOf, hentry, hranges, Bool.false_eq_true, if_false, hhigh]
      · exact of_decide_eq_true (Except.ok.inj hbelow)
    · rw [if_neg habove] at hcontains
      cases hcontains
  · rw [if_neg hlow] at hcontains
    cases hcontains

end Bounds

/-- The addresses of an entry are between its bounds exactly if it has no range list, or one in
which no range that has addresses starts below the first or ends above the last. -/
theorem boundsCode_iff {ranges : List Byte} {die : Die} {entry : DieEntry} {base : Word}
    {items : List RangeItem} (hentry : die.entry = some entry)
    (hlist : Die.contains entry atRanges = true → HasRangeList ranges die.cu entry base items) :
    BoundsCode ranges die entry ↔
      (Die.contains entry atRanges = true → RangesBetween (rangesFrom base items)) := by
  cases hranges : Die.contains entry atRanges with
  | false =>
      refine iff_of_true (boundsCode_of_pair hentry hranges) ?_
      intro hthere
      cases hthere
  | true =>
      have hlist := hlist hranges
      have hcontains := containsAddress_items hranges hlist
      have hlow := lowPcOf_items hentry hranges hlist
      cases hfirst : (rangesFrom base items).head? with
      | none =>
          have hempty : rangesFrom base items = [] := List.head?_eq_none_iff.mp hfirst
          refine iff_of_true (fun address hinside => ?_) (fun _ range hmem => ?_)
          · rw [hcontains, hempty] at hinside
            cases hinside
          · rw [hempty] at hmem
            cases hmem
      | some first =>
          obtain ⟨last, hlast⟩ : ∃ last, (rangesFrom base items).getLast? = some last := by
            refine ⟨_, List.getLast?_eq_some_getLast ?_⟩
            intro hempty
            rw [hempty] at hfirst
            cases hfirst
          have hhigh := highPcOf_items hentry hranges hlist hlast
          rw [hfirst] at hlow
          rw [rangesBetween_iff hfirst hlast]
          constructor
          · intro h _ address hinside
            have hread : Die.containsAddress ranges die.cu entry address = .ok true := by
              rw [hcontains, List.any_eq_true.mpr hinside]
            obtain ⟨low, high, hlow', hhigh', hbounds⟩ := h address hread
            cases hlow.symm.trans hlow'
            cases hhigh.symm.trans hhigh'
            exact hbounds
          · intro h address hread
            rw [hcontains] at hread
            have hbounds := h rfl address (List.any_eq_true.mp (Except.ok.inj hread))
            exact ⟨_, _, hlow, hhigh, hbounds⟩

namespace CodeBoundsWitness

def header : List Byte := List.replicate 11 0

def unitEntry : Abbrev := ⟨1, 0x11, true, []⟩

def splitEntry : Abbrev := ⟨2, tagSubprogram, false, [⟨atRanges, .secOffset⟩]⟩

/-- A unit with a function that has a range list. -/
def cu : CompileUnit := ⟨0, header ++ [1, 2, 0, 0, 0, 0, 0], [unitEntry, splitEntry]⟩

def entry : DieEntry := ⟨12, splitEntry, [13]⟩

def die : Die := ⟨cu, 17, some entry⟩

/-- The function and its cold part, which is placed below it. -/
def split : List RangeItem := [.entry 0x2000 0x2010, .entry 0x1000 0x1010]

theorem hasRangeList {items : List RangeItem} (hvalid : ∀ item ∈ items, item.Valid) :
    HasRangeList (encodeRanges items) cu entry 0 items :=
  ⟨hvalid, by decide, ⟨cu, atRanges, .secOffset, 13⟩, 0, [], rfl, rfl, (List.append_nil _).symm⟩

end CodeBoundsWitness

open CodeBoundsWitness in
/-- The cold part of a function can be outside of the function's bounds. -/
theorem coldPart_outside_bounds :
    ¬ ∀ (ranges : List Byte) (die : Die) (entry : DieEntry), die.entry = some entry →
      (Die.contains entry atRanges = true →
        ∃ base items, HasRangeList ranges die.cu entry base items) →
      BoundsCode ranges die entry := by
  intro hall
  have hlist : HasRangeList (encodeRanges split) cu entry 0 split := hasRangeList (by decide)
  have hbounds := hall (encodeRanges split) die entry rfl (fun _ => ⟨0, split, hlist⟩)
  have hinside : Die.containsAddress (encodeRanges split) die.cu entry 0x1008 = .ok true := by
    rw [containsAddress_items rfl hlist]
    decide
  obtain ⟨low, high, hlow, -, hbelow, -⟩ := hbounds 0x1008 hinside
  rw [lowPcOf_items rfl rfl hlist] at hlow
  have hstart : low = 0x2000 := (Except.ok.inj hlow).symm
  rw [hstart] at hbelow
  exact absurd hbelow (by decide)

open CodeBoundsWitness in
theorem boundsCode_iff_split :
    BoundsCode (encodeRanges split) die entry ↔
      (Die.contains entry atRanges = true → RangesBetween (rangesFrom 0 split)) :=
  boundsCode_iff rfl fun _ => hasRangeList (by decide)

end Gsdb
