/-
Range lists.  The iterator over a list in `.debug_ranges` keeps the base that the list has
selected, passes over the entries that select one, and has no position once it has read the
pair of zeros.
-/
import Gsdb.CallTargets

namespace Gsdb

open ByteMemory ByteCursor

/-- `range_list::entry`; both addresses belong to the file of the list. -/
structure RangeEntry where
  low : Word
  high : Word
deriving DecidableEq, Repr

/-- `range_list::entry::contains`. -/
def RangeEntry.contains (entry : RangeEntry) (address : Word) : Bool :=
  decide (entry.low ≤ address) && decide (address < entry.high)

/-- `range_list::iterator`; the position is an offset in the section, and the end iterator
has none. -/
structure RangeIterator where
  base : Word
  pos : Option Nat
  current : RangeEntry
deriving DecidableEq, Repr

/-- `range_list`: the bytes of `.debug_ranges`, where the list starts in them, and the base
it starts with. -/
structure RangeList where
  ranges : List Byte
  start : Nat
  base : Word
deriving DecidableEq, Repr

namespace RangeIterator

/-- The loop of `operator++`, from a position with a base. -/
def advanceFrom : Nat → Cursor → Word → Except Failure RangeIterator
  | 0, _, _ => .error (.undefined "read outside the buffer")
  | rounds + 1, cur, base => do
      let (low, cur) ← inBounds cur.u64
      let (high, cur) ← inBounds cur.u64
      if low = -1 then advanceFrom rounds cur high
      else if low = 0 ∧ high = 0 then pure ⟨base, none, ⟨low, high⟩⟩
      else pure ⟨base, some cur.pos, ⟨low + base, high + base⟩⟩

/-- `operator++`; the end iterator points to no data. -/
def next (ranges : List Byte) (it : RangeIterator) : Except Failure RangeIterator :=
  match it.pos with
  | none => .error (.undefined "read outside the buffer")
  | some pos => advanceFrom (ranges.length + 1) ⟨ranges, pos⟩ it.base

/-- The iterators from one up to the end. -/
def collectFrom (ranges : List Byte) : Nat → RangeIterator → Except Failure (List RangeIterator)
  | 0, _ => .error .schedule
  | rounds + 1, it =>
      if it.pos = none then .ok []
      else do
        let following ← it.next ranges
        let rest ← collectFrom ranges rounds following
        pure (it :: rest)

/-- `std::any_of` from an iterator up to the end. -/
def anyFrom (ranges : List Byte) (p : RangeEntry → Bool) : Nat → RangeIterator → Except Failure Bool
  | 0, _ => .error .schedule
  | rounds + 1, it =>
      if it.pos = none then .ok false
      else if p it.current then .ok true
      else do
        let following ← it.next ranges
        anyFrom ranges p rounds following

/-- `while (std::next(it) != ranges.end()) ++it`. -/
def lastFrom (ranges : List Byte) : Nat → RangeIterator → Except Failure RangeIterator
  | 0, _ => .error .schedule
  | rounds + 1, it => do
      let following ← it.next ranges
      if following.pos = none then pure it
      else lastFrom ranges rounds following

end RangeIterator

namespace RangeList

/-- `range_list::begin`: the constructor of the iterator increments it. -/
def begin (list : RangeList) : Except Failure RangeIterator :=
  RangeIterator.next list.ranges ⟨list.base, some list.start, ⟨0, 0⟩⟩

/-- The iterators from `begin()` up to `end()`; every entry takes bytes of the section. -/
def iterators (list : RangeList) : Except Failure (List RangeIterator) := do
  let first ← list.begin
  RangeIterator.collectFrom list.ranges (list.ranges.length + 1) first

/-- What iterating over the list yields. -/
def entries (list : RangeList) : Except Failure (List RangeEntry) := do
  let iterators ← list.iterators
  pure (iterators.map RangeIterator.current)

/-- `range_list::contains`. -/
def contains (list : RangeList) (address : Word) : Except Failure Bool := do
  let first ← list.begin
  RangeIterator.anyFrom list.ranges (fun entry => entry.contains address)
    (list.ranges.length + 1) first

end RangeList

/-- `attr::as_range_list`; `ranges` are the bytes of `.debug_ranges`. -/
def Attr.asRangeList (ranges : List Byte) (attr : Attr) : Except Failure RangeList := do
  let offset ← attr.asSectionOffset
  let base ← Die.rangeBase attr.cu
  pure ⟨ranges, offset.toNat, base⟩

namespace Die

/-- `die::high_pc`. -/
def highPcOf (ranges : List Byte) (die : Die) : Except Failure Word :=
  match die.entry with
  | none => .error (.undefined "attribute of a null entry")
  | some entry =>
      if contains entry atRanges then do
        let attr ← attr die.cu entry atRanges
        let list ← attr.asRangeList ranges
        let first ← list.begin
        let last ← RangeIterator.lastFrom ranges (ranges.length + 1) first
        pure last.current.high
      else highPc die.cu entry

end Die

/-- What stands in a range list: a base for the entries behind it, or an entry. -/
inductive RangeItem where
  | select (base : Word)
  | entry (low high : Word)
deriving DecidableEq, Repr

/-- An entry that neither selects a base nor ends the list. -/
def RangeItem.Valid : RangeItem → Prop
  | .select _ => True
  | .entry low high => low ≠ -1 ∧ ¬ (low = 0 ∧ high = 0)

instance (item : RangeItem) : Decidable item.Valid := by
  cases item <;> unfold RangeItem.Valid <;> infer_instance

def encodePair (low high : Word) : List Byte := toLe 8 low.toNat ++ toLe 8 high.toNat

def RangeItem.encode : RangeItem → List Byte
  | .select base => encodePair (-1) base
  | .entry low high => encodePair low high

/-- A list with the pair of zeros behind it. -/
def encodeRanges : List RangeItem → List Byte
  | [] => encodePair 0 0
  | item :: items => item.encode ++ encodeRanges items

/-- The entries of a list, each relative to the base selected last in front of it. -/
def rangesFrom : Word → List RangeItem → List RangeEntry
  | _, [] => []
  | _, .select base :: items => rangesFrom base items
  | base, .entry low high :: items => ⟨base + low, base + high⟩ :: rangesFrom base items

section Reading

variable {cur : Cursor} {after : List Byte} {low high : Word}

@[simp]
theorem encodePair_length (low high : Word) : (encodePair low high).length = 16 := by
  simp [encodePair]

@[simp]
theorem RangeItem.encode_length (item : RangeItem) : item.encode.length = 16 := by
  cases item <;> exact encodePair_length _ _

theorem encodeRanges_length (items : List RangeItem) :
    (encodeRanges items).length = 16 * (items.length + 1) := by
  induction items with
  | nil => rfl
  | cons item items ih =>
      rw [encodeRanges, List.length_append, ih, item.encode_length, List.length_cons]
      omega

theorem u64_word {word : Word} (hcur : cur.rest = toLe 8 word.toNat ++ after) :
    cur.u64 = some (word, cur.advance 8) := by
  have hlength := toLe_length 8 word.toNat
  obtain ⟨value, hread, hvalue⟩ :=
    fixedInt_append (w := 64) hcur hlength.symm (by rw [hlength]; rfl)
  have hsame : value = word := by
    apply BitVec.eq_of_toNat_eq
    rw [hvalue, ofLe_toLe]
    exact Nat.mod_eq_of_lt word.isLt
  rw [Cursor.u64, hread, hsame, hlength]

/-- A pair of addresses is read one after the other. -/
theorem u64_pair (hcur : cur.rest = encodePair low high ++ after) :
    cur.u64 = some (low, cur.advance 8) ∧
      (cur.advance 8).u64 = some (high, cur.advance 16) ∧ (cur.advance 16).rest = after := by
  have hfirst : cur.rest = toLe 8 low.toNat ++ (toLe 8 high.toNat ++ after) := by
    rw [hcur, encodePair, List.append_assoc]
  have hsecond : (cur.advance 8).rest = toLe 8 high.toNat ++ after := by
    have hrest := rest_advance_append hfirst
    rwa [toLe_length] at hrest
  refine ⟨u64_word hfirst, u64_word hsecond, ?_⟩
  have hrest := rest_advance_append hcur
  rwa [encodePair_length] at hrest

end Reading

section Iteration

variable {ranges after : List Byte} {cur : Cursor} {base low high : Word} {rounds : Nat}

theorem advanceFrom_pair (hcur : cur.rest = encodePair low high ++ after) :
    RangeIterator.advanceFrom (rounds + 1) cur base =
      if low = -1 then RangeIterator.advanceFrom rounds (cur.advance 16) high
      else if low = 0 ∧ high = 0 then .ok ⟨base, none, ⟨low, high⟩⟩
      else .ok ⟨base, some (cur.pos + 16), ⟨low + base, high + base⟩⟩ := by
  obtain ⟨hlow, hhigh, -⟩ := u64_pair hcur
  rw [RangeIterator.advanceFrom, hlow, inBounds_some, ok_bind]
  simp only [hhigh, inBounds_some, ok_bind]
  rfl

/-- A pair that is not all there is not read. -/
theorem advanceFrom_short (hshort : cur.rest.length < 16) :
    RangeIterator.advanceFrom rounds cur base = .error (.undefined "read outside the buffer") := by
  cases rounds with
  | zero => rfl
  | succ rounds =>
      by_cases hfirst : 8 ≤ cur.rest.length
      · have hread : cur.u64 = some (_, cur.advance 8) := Cursor.fixedInt_of_le hfirst
        have hsecond : (cur.advance 8).u64 = none := by
          have hrest : ¬ 8 ≤ (cur.advance 8).rest.length := by
            rw [Cursor.rest_advance, List.length_drop]
            omega
          simp [Cursor.u64, Cursor.fixedInt, Cursor.block, hrest]
        rw [RangeIterator.advanceFrom, hread, inBounds_some, ok_bind]
        simp only [hsecond]
        rfl
      · have hread : cur.u64 = none := by
          simp [Cursor.u64, Cursor.fixedInt, Cursor.block, hfirst]
        rw [RangeIterator.advanceFrom, hread]
        rfl

/-- Each increment reads on where the one before it has stopped, with the base that the list
has selected up to there. -/
theorem collect_items {items : List RangeItem} (hvalid : ∀ item ∈ items, item.Valid) :
    ∀ (cur : Cursor) (base : Word) (fuel rounds : Nat), cur.data = ranges →
      cur.rest = encodeRanges items ++ after → items.length < fuel → items.length < rounds →
      ∃ first its, RangeIterator.advanceFrom fuel cur base = .ok first ∧
        RangeIterator.collectFrom ranges rounds first = .ok its ∧
        its.map RangeIterator.current = rangesFrom base items := by
  induction items with
  | nil =>
      intro cur base fuel rounds hdata hcur hfuel hrounds
      obtain ⟨fuel, rfl⟩ : ∃ k, fuel = k + 1 := ⟨fuel - 1, by omega⟩
      obtain ⟨rounds, rfl⟩ : ∃ k, rounds = k + 1 := ⟨rounds - 1, by omega⟩
      exact ⟨_, [], advanceFrom_pair hcur, rfl, rfl⟩
  | cons item items ih =>
      intro cur base fuel rounds hdata hcur hfuel hrounds
      rw [List.length_cons] at hfuel hrounds
      obtain ⟨fuel, rfl⟩ : ∃ k, fuel = k + 1 := ⟨fuel - 1, by omega⟩
      have hothers : ∀ other ∈ items, other.Valid :=
        fun other hmem => hvalid other (List.mem_cons_of_mem item hmem)
      rw [encodeRanges, List.append_assoc] at hcur
      have hrest : (cur.advance 16).rest = encodeRanges items ++ after := by
        have hrest := rest_advance_append hcur
        rwa [item.encode_length] at hrest
      cases item with
      | select selected =>
          rw [advanceFrom_pair hcur, if_pos rfl]
          exact ih hothers (cur.advance 16) selected fuel rounds hdata hrest (by omega) (by omega)
      | entry low high =>
          obtain ⟨rounds, rfl⟩ : ∃ k, rounds = k + 1 := ⟨rounds - 1, by omega⟩
          have hentry : low ≠ -1 ∧ ¬ (low = 0 ∧ high = 0) := hvalid _ List.mem_cons_self
          have hroom : items.length < ranges.length + 1 := by
            have hlength := congrArg List.length hrest
            rw [Cursor.rest, List.length_drop, Cursor.advance_data, hdata, List.length_append,
              encodeRanges_length] at hlength
            omega
          obtain ⟨following, its, hnext, hcollect, hits⟩ :=
            ih hothers (cur.advance 16) base (ranges.length + 1) rounds hdata hrest hroom
              (by omega)
          have hcursor : cur.advance 16 = ⟨ranges, cur.pos + 16⟩ := by
            rw [← hdata]
            rfl
          rw [hcursor] at hnext
          rw [advanceFrom_pair hcur, if_neg hentry.1, if_neg hentry.2]
          refine ⟨_, ⟨base, some (cur.pos + 16), ⟨low + base, high + base⟩⟩ :: its, rfl, ?_, ?_⟩
          · simp only [RangeIterator.collectFrom, RangeIterator.next, reduceCtorEq, if_false,
              hnext, ok_bind, hcollect]
            rfl
          · rw [List.map_cons, hits, rangesFrom, BitVec.add_comm low, BitVec.add_comm high]

/-- A list that is cut off before its end is read past it. -/
theorem collect_truncated {items : List RangeItem} (hvalid : ∀ item ∈ items, item.Valid) :
    ∀ (cur : Cursor) (base : Word) (fuel rounds n : Nat), cur.data = ranges →
      cur.rest = (encodeRanges items).take n → n < (encodeRanges items).length →
      n < 16 * rounds →
      (RangeIterator.advanceFrom fuel cur base >>= RangeIterator.collectFrom ranges rounds) =
        .error (.undefined "read outside the buffer") := by
  induction items with
  | nil =>
      intro cur base fuel rounds n hdata hcur hn hrounds
      have hshort : cur.rest.length < 16 := by
        rw [hcur, List.length_take]
        exact Nat.lt_of_le_of_lt (Nat.min_le_left _ _) hn
      rw [advanceFrom_short hshort, error_bind]
  | cons item items ih =>
      intro cur base fuel rounds n hdata hcur hn hrounds
      by_cases hshort : n < 16
      · have hrest : cur.rest.length < 16 := by
          rw [hcur, List.length_take]
          omega
        rw [advanceFrom_short hrest, error_bind]
      have hothers : ∀ other ∈ items, other.Valid :=
        fun other hmem => hvalid other (List.mem_cons_of_mem item hmem)
      rw [encodeRanges, List.length_append, item.encode_length] at hn
      rw [encodeRanges, List.take_append,
        List.take_of_length_le (by rw [item.encode_length]; omega),
        item.encode_length] at hcur
      have hrest : (cur.advance 16).rest = (encodeRanges items).take (n - 16) := by
        have hrest := rest_advance_append hcur
        rwa [item.encode_length] at hrest
      cases fuel with
      | zero => rfl
      | succ fuel =>
          cases item with
          | select selected =>
              rw [advanceFrom_pair hcur, if_pos rfl]
              exact ih hothers (cur.advance 16) selected fuel rounds (n - 16) hdata hrest (by omega)
                (by omega)
          | entry low high =>
              obtain ⟨rounds, rfl⟩ : ∃ k, rounds = k + 1 := ⟨rounds - 1, by omega⟩
              have hentry : low ≠ -1 ∧ ¬ (low = 0 ∧ high = 0) := hvalid _ List.mem_cons_self
              have hbehind := ih hothers (cur.advance 16) base (ranges.length + 1) rounds (n - 16)
                hdata hrest (by omega) (by omega)
              have hcursor : cur.advance 16 = ⟨ranges, cur.pos + 16⟩ := by
                rw [← hdata]
                rfl
              rw [hcursor] at hbehind
              rw [advanceFrom_pair hcur, if_neg hentry.1, if_neg hentry.2, ok_bind]
              simp only [RangeIterator.collectFrom, RangeIterator.next, reduceCtorEq, if_false]
              cases hnext : RangeIterator.advanceFrom (ranges.length + 1) ⟨ranges, cur.pos + 16⟩
                  base with
              | error failure =>
                  rw [hnext] at hbehind
                  exact hbehind
              | ok following =>
                  rw [hnext, ok_bind] at hbehind
                  rw [ok_bind, hbehind]
                  rfl

/-- Standard algorithms over the list see the iterators one after the other. -/
theorem anyFrom_collect {p : RangeEntry → Bool} :
    ∀ {rounds : Nat} {it : RangeIterator} {its : List RangeIterator},
      RangeIterator.collectFrom ranges rounds it = .ok its →
      RangeIterator.anyFrom ranges p rounds it = .ok ((its.map RangeIterator.current).any p) := by
  intro rounds
  induction rounds with
  | zero => intro it its h; cases h
  | succ rounds ih =>
      intro it its h
      rw [RangeIterator.collectFrom] at h
      rw [RangeIterator.anyFrom]
      by_cases hend : it.pos = none
      · rw [if_pos hend] at h
        cases h
        rw [if_pos hend]
        rfl
      rw [if_neg hend] at h
      obtain ⟨following, hnext, h⟩ := bind_eq_ok.mp h
      obtain ⟨rest, hrest, h⟩ := bind_eq_ok.mp h
      cases h
      rw [if_neg hend, hnext, ok_bind, ih hrest, List.map_cons, List.any_cons]
      cases p it.current <;> rfl

/-- The last iterator is the one whose successor is the end. -/
theorem lastFrom_collect :
    ∀ {rounds : Nat} {it last : RangeIterator} {its : List RangeIterator},
      RangeIterator.collectFrom ranges rounds it = .ok its → its.getLast? = some last →
      RangeIterator.lastFrom ranges rounds it = .ok last := by
  intro rounds
  induction rounds with
  | zero => intro it last its h; cases h
  | succ rounds ih =>
      intro it last its h hlast
      rw [RangeIterator.collectFrom] at h
      by_cases hend : it.pos = none
      · rw [if_pos hend] at h
        cases h
        cases hlast
      rw [if_neg hend] at h
      obtain ⟨following, hnext, h⟩ := bind_eq_ok.mp h
      obtain ⟨rest, hrest, h⟩ := bind_eq_ok.mp h
      cases h
      rw [RangeIterator.lastFrom, hnext, ok_bind]
      cases rounds with
      | zero => cases hrest
      | succ rounds =>
          by_cases hstop : following.pos = none
          · rw [RangeIterator.collectFrom, if_pos hstop] at hrest
            cases hrest
            cases hlast
            rw [if_pos hstop]
            rfl
          · rw [if_neg hstop]
            refine ih hrest ?_
            cases rest with
            | nil =>
                rw [RangeIterator.collectFrom, if_neg hstop] at hrest
                obtain ⟨after, -, hrest⟩ := bind_eq_ok.mp hrest
                obtain ⟨others, -, hrest⟩ := bind_eq_ok.mp hrest
                cases hrest
            | cons second others =>
                rw [List.getLast?_cons_cons] at hlast
                exact hlast

end Iteration

section Lists

variable {ranges after : List Byte} {start : Nat} {base : Word} {items : List RangeItem}

/-- What is known of iterating over a list that stands in the section. -/
theorem RangeList.iterators_encoded (base : Word) (hvalid : ∀ item ∈ items, item.Valid)
    (hlist : ranges.drop start = encodeRanges items ++ after) :
    ∃ first its, RangeList.begin ⟨ranges, start, base⟩ = .ok first ∧
      RangeIterator.collectFrom ranges (ranges.length + 1) first = .ok its ∧
      its.map RangeIterator.current = rangesFrom base items := by
  have hroom : items.length < ranges.length + 1 := by
    have hlength := congrArg List.length hlist
    rw [List.length_drop, List.length_append, encodeRanges_length] at hlength
    omega
  exact collect_items hvalid ⟨ranges, start⟩ base _ _ rfl hlist hroom hroom

theorem RangeList.entries_encoded (hvalid : ∀ item ∈ items, item.Valid)
    (hlist : ranges.drop start = encodeRanges items ++ after) :
    RangeList.entries ⟨ranges, start, base⟩ = .ok (rangesFrom base items) := by
  obtain ⟨first, its, hbegin, hcollect, hits⟩ := iterators_encoded base hvalid hlist
  rw [RangeList.entries, RangeList.iterators, hbegin, ok_bind]
  simp only [hcollect, ok_bind, hits]
  rfl

theorem RangeList.contains_encoded (hvalid : ∀ item ∈ items, item.Valid)
    (hlist : ranges.drop start = encodeRanges items ++ after) (address : Word) :
    RangeList.contains ⟨ranges, start, base⟩ address =
      .ok ((rangesFrom base items).any fun entry => entry.contains address) := by
  obtain ⟨first, its, hbegin, hcollect, hits⟩ := iterators_encoded base hvalid hlist
  rw [RangeList.contains, hbegin, ok_bind]
  simp only [anyFrom_collect hcollect, hits]

end Lists

/-- Iterating over a list, from any base, yields its entries in order, each relative to the
base selected last, and contains the addresses of the entries; it takes the pair of zeros to
end it, whatever stands behind that. -/
theorem rangeList_iterates {items : List RangeItem} (hvalid : ∀ item ∈ items, item.Valid)
    (base : Word) (before after : List Byte) :
    RangeList.entries ⟨before ++ (encodeRanges items ++ after), before.length, base⟩ =
        .ok (rangesFrom base items) ∧
      (∀ address, RangeList.contains ⟨before ++ (encodeRanges items ++ after), before.length, base⟩
        address = .ok (decide (∃ entry ∈ rangesFrom base items,
          entry.low ≤ address ∧ address < entry.high))) ∧
      ∀ n < (encodeRanges items).length,
        RangeList.entries ⟨before ++ (encodeRanges items).take n, before.length, base⟩ =
          .error (.undefined "read outside the buffer") := by
  have hlist : (before ++ (encodeRanges items ++ after)).drop before.length =
      encodeRanges items ++ after := List.drop_left
  refine ⟨RangeList.entries_encoded hvalid hlist, fun address => ?_, fun n hn => ?_⟩
  · rw [RangeList.contains_encoded hvalid hlist]
    congr 1
    rw [Bool.eq_iff_iff, List.any_eq_true, decide_eq_true_iff]
    simp [RangeEntry.contains]
  · have hcut : (before ++ (encodeRanges items).take n).drop before.length =
        (encodeRanges items).take n := List.drop_left
    have hrounds : n < 16 * ((before ++ (encodeRanges items).take n).length + 1) := by
      rw [List.length_append, List.length_take]
      omega
    have hiterators : RangeList.iterators
        ⟨before ++ (encodeRanges items).take n, before.length, base⟩
        = .error (.undefined "read outside the buffer") :=
      collect_truncated hvalid ⟨before ++ (encodeRanges items).take n, before.length⟩
        base ((before ++ (encodeRanges items).take n).length + 1) _ n rfl hcut hn hrounds
    rw [RangeList.entries, hiterators]
    rfl

/-- An entry on either side of a selection. -/
theorem rangeList_iterates_selected :
    RangeList.entries
        ⟨[7] ++ (encodeRanges [.entry 1 2, .select 0x1000, .entry 3 4] ++ []), 1, 0x10⟩ =
      .ok [⟨0x11, 0x12⟩, ⟨0x1003, 0x1004⟩] :=
  (rangeList_iterates (by decide) 0x10 [7] []).1

end Gsdb
