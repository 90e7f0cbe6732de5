/-
The symbol that contains an address.  `symbol_addr_map_` is ordered by the addresses where
symbols start and keeps one symbol a start, and of the symbols that start below an address
the search looks at the last one.
-/
import Gsdb.OrderedMap
import Gsdb.Elf

namespace Gsdb

open ByteMemory OrderedMaps

/-- An `Elf64_Sym` of `symbol_table_`, with the fields that the map of addresses reads. -/
structure SymbolEntry where
  stName : BitVec 32
  stInfo : Byte
  stValue : Word
  stSize : Word
deriving DecidableEq, Repr

def sttTls : Byte := 6

namespace SymbolEntry

/-- `ELF64_ST_TYPE`. -/
def type (symbol : SymbolEntry) : Byte := symbol.stInfo &&& 0xf

/-- It has a name and is not in thread-local storage. -/
def isNamed (symbol : SymbolEntry) : Bool :=
  symbol.stName ≠ 0 ∧ symbol.type ≠ sttTls

/-- The test of `elf::build_symbol_maps` for the map of addresses. -/
def entersAddrMap (symbol : SymbolEntry) : Bool :=
  symbol.stValue ≠ 0 ∧ symbol.stName ≠ 0 ∧ symbol.type ≠ sttTls

/-- The address is one of those from the symbol's value on, as many as its size. -/
def Covers (symbol : SymbolEntry) (address : Word) : Prop :=
  symbol.stValue.toNat ≤ address.toNat ∧
    address.toNat < symbol.stValue.toNat + symbol.stSize.toNat

instance (symbol : SymbolEntry) (address : Word) : Decidable (symbol.Covers address) :=
  inferInstanceAs (Decidable (_ ∧ _))

/-- What `elf::build_symbol_maps` inserts: the two ends of the range, which are compared by
the first, and the symbol. -/
def addrMapEntry (symbol : SymbolEntry) : Nat × Word × SymbolEntry :=
  (symbol.stValue.toNat, symbol.stValue + symbol.stSize, symbol)

end SymbolEntry

/-- `symbol_addr_map_`, as `elf::build_symbol_maps` fills it. -/
def symbolAddrMap (table : List SymbolEntry) : OrderedMap Nat (Word × SymbolEntry) :=
  .ofList ((table.filter SymbolEntry.entersAddrMap).map SymbolEntry.addrMapEntry)

/-- What is found in front of the place where a search of the map stops. -/
def containingBefore (found : Option (Nat × Word × SymbolEntry)) (address : Word) :
    Option SymbolEntry :=
  match found with
  | none => none
  | some (low, high, symbol) =>
      if low < address.toNat ∧ high > address then some symbol else none

/-- `elf::get_symbol_containing_address` of the file at a position. -/
def getSymbolContainingAddress (position : Nat) (table : List SymbolEntry)
    (address : FileAddr) : Option SymbolEntry :=
  let map := symbolAddrMap table
  let key := address.addr.toNat
  if address.elf ≠ some position ∨ map.entries.isEmpty then none
  else
    match (map.lowerBound key).head? with
    | some (low, _, symbol) =>
        if low = key then some symbol
        else containingBefore (map.below key).getLast? address.addr
    | none => containingBefore (map.below key).getLast? address.addr

/-- For every address of the file, a named symbol that covers it is found if there is one,
and nothing is found if no symbol starts there or covers it. -/
def FindsCovering (position : Nat) (table : List SymbolEntry) (address : Word) : Prop :=
  ((∃ symbol ∈ table, symbol.isNamed ∧ symbol.Covers address) →
    ∃ symbol ∈ table, symbol.isNamed ∧ symbol.Covers address ∧
      getSymbolContainingAddress position table ⟨some position, address⟩ = some symbol) ∧
  ((∀ symbol ∈ table, symbol.stValue ≠ address ∧ ¬ symbol.Covers address) →
    getSymbolContainingAddress position table ⟨some position, address⟩ = none)

/-- The symbol is the first of the map's symbols that starts where it does, and none of them
starts behind it up to the address. -/
def LastStarting (table : List SymbolEntry) (symbol : SymbolEntry) (address : Word) : Prop :=
  (∃ before after, table = before ++ symbol :: after ∧
    ∀ other ∈ before, other.entersAddrMap → other.stValue ≠ symbol.stValue) ∧
  ∀ other ∈ table, other.entersAddrMap →
    other.stValue.toNat ≤ address.toNat → other.stValue.toNat ≤ symbol.stValue.toNat

/-- No named symbol covers the address, or the last start of a map's symbol up to there is
that of one that covers it, and whose range does not wrap unless it starts there. -/
def CoveredByLast (table : List SymbolEntry) (address : Word) : Prop :=
  (∀ symbol ∈ table, symbol.isNamed → ¬ symbol.Covers address) ∨
    ∃ symbol, symbol.entersAddrMap ∧ LastStarting table symbol address ∧
      symbol.Covers address ∧
      (symbol.stValue = address ∨ symbol.stValue.toNat + symbol.stSize.toNat < 2 ^ 64)

section Searching

variable {position : Nat} {table : List SymbolEntry} {symbol : SymbolEntry} {address : Word}

/-- The map's entries are the first symbols of their starts. -/
theorem mem_symbolAddrMap {x : Nat × Word × SymbolEntry} :
    x ∈ (symbolAddrMap table).entries ↔ ∃ symbol before after,
      x = symbol.addrMapEntry ∧ symbol.entersAddrMap ∧ table = before ++ symbol :: after ∧
        ∀ other ∈ before, other.entersAddrMap → other.stValue ≠ symbol.stValue := by
  refine mem_ofList.trans ?_
  constructor
  · rintro ⟨front, back, hsplit, hfirst⟩
    obtain ⟨kept, rest, hkept, rfl, hrest⟩ := List.map_eq_append_iff.mp hsplit
    obtain ⟨symbol, later, rfl, rfl, -⟩ := List.map_eq_cons_iff.mp hrest
    obtain ⟨before, tail, rfl, rfl, htail⟩ := List.filter_eq_append_iff.mp hkept
    obtain ⟨skipped, after, rfl, hskipped, henters, -⟩ := List.filter_eq_cons_iff.mp htail
    refine ⟨symbol, before ++ skipped, after, rfl, henters, by simp, fun other hmem hother => ?_⟩
    rcases List.mem_append.mp hmem with hmem | hmem
    · have hkept : other.addrMapEntry ∈ (before.filter _).map SymbolEntry.addrMapEntry :=
        List.mem_map_of_mem (List.mem_filter.mpr ⟨hmem, hother⟩)
      exact fun heq => hfirst _ hkept (congrArg BitVec.toNat heq)
    · exact absurd hother (hskipped other hmem)
  · rintro ⟨symbol, before, after, rfl, henters, rfl, hfirst⟩
    refine ⟨(before.filter SymbolEntry.entersAddrMap).map SymbolEntry.addrMapEntry,
      (after.filter SymbolEntry.entersAddrMap).map SymbolEntry.addrMapEntry, ?_, ?_⟩
    · simp [List.filter_append, henters]
    · intro x hx hkey
      obtain ⟨other, hother, rfl⟩ := List.mem_map.mp hx
      obtain ⟨hmem, henters'⟩ := List.mem_filter.mp hother
      exact hfirst other hmem henters' (BitVec.eq_of_toNat_eq hkey)

/-- A symbol whose start is in the map shares it with an entry. -/
theorem start_mem_symbolAddrMap (hmem : symbol ∈ table) (henters : symbol.entersAddrMap) :
    ∃ x ∈ (symbolAddrMap table).entries, x.1 = symbol.stValue.toNat :=
  (key_mem_ofList _ _).mpr ⟨symbol.addrMapEntry,
    List.mem_map_of_mem (List.mem_filter.mpr ⟨hmem, henters⟩), rfl⟩

theorem containingBefore_eq_some_iff {found : Option (Nat × Word × SymbolEntry)} :
    containingBefore found address = some symbol ↔
      ∃ low high, found = some (low, high, symbol) ∧ low < address.toNat ∧ high > address := by
  unfold containingBefore
  split
  · simp
  · rename_i low high other
    split
    · rename_i h
      constructor
      · intro heq
        obtain rfl := Option.some.inj heq
        exact ⟨low, high, rfl, h⟩
      · rintro ⟨_, _, heq, -⟩
        cases heq
        rfl
    · rename_i h
      constructor
      · intro heq
        cases heq
      · rintro ⟨_, _, heq, hin⟩
        cases heq
        exact absurd hin h

/-- Without an entry at the address, the one in front of it is asked. -/
theorem containingBefore_getLast_iff
    (hnone : ∀ x ∈ (symbolAddrMap table).entries, x.1 ≠ address.toNat) :
    containingBefore ((symbolAddrMap table).below address.toNat).getLast? address = some symbol ↔
      ∃ x ∈ (symbolAddrMap table).entries, x.2.2 = symbol ∧ x.1 ≤ address.toNat ∧
        (∀ y ∈ (symbolAddrMap table).entries, y.1 ≤ address.toNat → y.1 ≤ x.1) ∧
        (x.1 = address.toNat ∨ x.2.1 > address) := by
  rw [containingBefore_eq_some_iff]
  constructor
  · rintro ⟨low, high, hfound, hlow, hhigh⟩
    obtain ⟨hmem, -, hlast⟩ := getLast_below hfound
    exact ⟨_, hmem, rfl, hlow.le,
      fun y hy hle => hlast y hy (lt_of_le_of_ne hle (hnone y hy)), .inr hhigh⟩
  · rintro ⟨x, hx, rfl, hle, hlast, hends⟩
    have hlow : x.1 < address.toNat := lt_of_le_of_ne hle (hnone x hx)
    cases hfound : ((symbolAddrMap table).below address.toNat).getLast? with
    | none => exact absurd hlow (not_lt.mpr (getLast_below_none hfound hx))
    | some y =>
        obtain ⟨hy, hylow, hylast⟩ := getLast_below hfound
        have hsame : y.1 = x.1 := le_antisymm (hlast y hy hylow.le) (hylast x hx hlow)
        obtain rfl := eq_of_key_eq hy hx hsame
        exact ⟨y.1, y.2.1, rfl, hlow, hends.resolve_left hlow.ne⟩

/-- The search ends at the entry that starts last, and takes it if it starts at the address
or ends above it. -/
theorem getSymbolContainingAddress_entry :
    getSymbolContainingAddress position table ⟨some position, address⟩ = some symbol ↔
      ∃ x ∈ (symbolAddrMap table).entries, x.2.2 = symbol ∧ x.1 ≤ address.toNat ∧
        (∀ y ∈ (symbolAddrMap table).entries, y.1 ≤ address.toNat → y.1 ≤ x.1) ∧
        (x.1 = address.toNat ∨ x.2.1 > address) := by
  by_cases hempty : (symbolAddrMap table).entries = []
  · simp [getSymbolContainingAddress, hempty]
  have hgate : ¬ ((some position : Option Nat) ≠ some position ∨
      (symbolAddrMap table).entries.isEmpty = true) := by
    simpa using hempty
  by_cases hexact : ∃ x ∈ (symbolAddrMap table).entries, x.1 = address.toNat
  · obtain ⟨x, hx, hkey⟩ := hexact
    have hresult : getSymbolContainingAddress position table ⟨some position, address⟩ =
        some x.2.2 := by
      simp only [getSymbolContainingAddress, if_neg hgate, head_lowerBound hx hkey, if_pos hkey]
    rw [hresult]
    constructor
    · intro heq
      exact ⟨x, hx, Option.some.inj heq, hkey.le, fun y _ hle => hkey ▸ hle, .inl hkey⟩
    · rintro ⟨y, hy, rfl, hle, hlast, -⟩
      have hsame : y.1 = x.1 := le_antisymm (hkey ▸ hle) (hlast x hx hkey.le)
      rw [eq_of_key_eq hy hx hsame]
  · have hnone : ∀ x ∈ (symbolAddrMap table).entries, x.1 ≠ address.toNat :=
      fun x hx hkey => hexact ⟨x, hx, hkey⟩
    have hbefore : getSymbolContainingAddress position table ⟨some position, address⟩ =
        containingBefore ((symbolAddrMap table).below address.toNat).getLast? address := by
      simp only [getSymbolContainingAddress, if_neg hgate]
      split
      · rename_i low high other hhead
        have hmem := (mem_lowerBound_iff.mp (List.mem_of_head? hhead)).1
        rw [if_neg (hnone _ hmem)]
      · rfl
    rw [hbefore]
    exact containingBefore_getLast_iff hnone

theorem getSymbolContainingAddress_eq_some_iff :
    getSymbolContainingAddress position table ⟨some position, address⟩ = some symbol ↔
      symbol.entersAddrMap ∧ LastStarting table symbol address ∧
        symbol.stValue.toNat ≤ address.toNat ∧
        (symbol.stValue = address ∨ symbol.stValue + symbol.stSize > address) := by
  rw [getSymbolContainingAddress_entry]
  constructor
  · rintro ⟨x, hx, hsymbol, hle, hlast, hends⟩
    obtain ⟨symbol', before, after, rfl, henters, htable, hfirst⟩ := mem_symbolAddrMap.mp hx
    obtain rfl : symbol' = symbol := hsymbol
    refine ⟨henters, ⟨⟨before, after, htable, hfirst⟩, fun other hmem hother hbelow => ?_⟩, hle,
      hends.imp (fun h => BitVec.eq_of_toNat_eq h) id⟩
    obtain ⟨y, hy, hkey⟩ := start_mem_symbolAddrMap hmem hother
    exact hkey ▸ hlast y hy (hkey.trans_le hbelow)
  · rintro ⟨henters, ⟨⟨before, after, htable, hfirst⟩, hlast⟩, hle, hends⟩
    refine ⟨symbol.addrMapEntry,
      mem_symbolAddrMap.mpr ⟨symbol, before, after, rfl, henters, htable, hfirst⟩, rfl, hle,
      fun y hy hbelow => ?_, hends.imp (congrArg BitVec.toNat) id⟩
    obtain ⟨other, front, back, rfl, hother, hsplit, -⟩ := mem_symbolAddrMap.mp hy
    exact hlast other (hsplit ▸ List.mem_append_right front List.mem_cons_self) hother hbelow

theorem LastStarting.mem (h : LastStarting table symbol address) : symbol ∈ table := by
  obtain ⟨⟨before, after, rfl, -⟩, -⟩ := h
  exact List.mem_append_right _ List.mem_cons_self

theorem isNamed_of_entersAddrMap (h : symbol.entersAddrMap) : symbol.isNamed := by
  unfold SymbolEntry.entersAddrMap at h
  unfold SymbolEntry.isNamed
  exact decide_eq_true (of_decide_eq_true h).2

/-- The end of a range is above an address behind its start if the range covers it and does
not wrap. -/
theorem end_above_iff (hle : symbol.stValue.toNat ≤ address.toNat) :
    symbol.stValue + symbol.stSize > address ↔
      symbol.Covers address ∧ symbol.stValue.toNat + symbol.stSize.toNat < 2 ^ 64 := by
  unfold SymbolEntry.Covers
  rw [gt_iff_lt, BitVec.lt_def, BitVec.toNat_add]
  have := symbol.stValue.isLt
  have := symbol.stSize.isLt
  omega

/-- What is found is last to start, and covers the address or starts there. -/
theorem found_iff :
    getSymbolContainingAddress position table ⟨some position, address⟩ = some symbol ↔
      symbol.entersAddrMap ∧ LastStarting table symbol address ∧
        (symbol.stValue = address ∨
          symbol.Covers address ∧ symbol.stValue.toNat + symbol.stSize.toNat < 2 ^ 64) := by
  rw [getSymbolContainingAddress_eq_some_iff]
  refine and_congr_right fun _ => and_congr_right fun _ => ?_
  constructor
  · rintro ⟨hle, hends⟩
    exact hends.imp id (end_above_iff hle).mp
  · rintro (rfl | ⟨hcovers, hfits⟩)
    · exact ⟨le_rfl, .inl rfl⟩
    · exact ⟨hcovers.1, .inr ((end_above_iff hcovers.1).mpr ⟨hcovers, hfits⟩)⟩

/-- Nothing is found where no symbol starts or reaches. -/
theorem none_found
    (h : ∀ symbol ∈ table, symbol.stValue ≠ address ∧ ¬ symbol.Covers address) :
    getSymbolContainingAddress position table ⟨some position, address⟩ = none := by
  cases hfound : getSymbolContainingAddress position table ⟨some position, address⟩ with
  | none => rfl
  | some symbol =>
      obtain ⟨-, hlast, hends⟩ := found_iff.mp hfound
      obtain ⟨hstart, hcovers⟩ := h symbol hlast.mem
      rcases hends with heq | ⟨hin, -⟩
      · exact absurd heq hstart
      · exact absurd hin hcovers

end Searching

/-- A named symbol that covers the address is found exactly if the last start of the map up
to the address is that of one that covers it. -/
theorem findsCovering_iff (position : Nat) (table : List SymbolEntry) (address : Word) :
    FindsCovering position table address ↔ CoveredByLast table address := by
  constructor
  · rintro ⟨hfinds, -⟩
    by_cases hcovered : ∃ symbol ∈ table, symbol.isNamed ∧ symbol.Covers address
    · right
      obtain ⟨symbol, -, -, hcovers, hfound⟩ := hfinds hcovered
      obtain ⟨henters, hlast, hends⟩ := found_iff.mp hfound
      exact ⟨symbol, henters, hlast, hcovers, hends.imp id And.right⟩
    · left
      exact fun symbol hmem hnamed hcovers => hcovered ⟨symbol, hmem, hnamed, hcovers⟩
  · intro h
    refine ⟨?_, none_found⟩
    rintro ⟨covering, hmem, hnamed, hcovers⟩
    rcases h with hnone | ⟨symbol, henters, hlast, hin, hfits⟩
    · exact absurd hcovers (hnone covering hmem hnamed)
    · exact ⟨symbol, hlast.mem, isNamed_of_entersAddrMap henters, hin,
        found_iff.mpr ⟨henters, hlast, hfits.imp id fun hfits => ⟨hin, hfits⟩⟩⟩

/-- A label inside a function hides the function from the addresses behind the label. -/
theorem label_hides_function :
    ¬ FindsCovering 0 [⟨1, 2, 0x1000, 0x100⟩, ⟨9, 0, 0x1010, 0⟩] 0x1020 := by
  rintro ⟨hfinds, -⟩
  obtain ⟨symbol, -, -, -, hfound⟩ :=
    hfinds ⟨⟨1, 2, 0x1000, 0x100⟩, List.mem_cons_self, by decide, by decide⟩
  have hnone : getSymbolContainingAddress 0 [⟨1, 2, 0x1000, 0x100⟩, ⟨9, 0, 0x1010, 0⟩]
      ⟨some 0, 0x1020⟩ = none := by
    decide
  rw [hnone] at hfound
  cases hfound

end Gsdb
