/-
Numbers in texts: what `std::from_chars` matches, and what `to_integral` makes of its
result.  Of the two things that `from_chars` reports only the end of the match is looked
at, and that is the end of the text also when nothing was there to match and when the
number was out of range.
-/
import Gsdb.ByteMemory
import Mathlib.Data.List.TakeWhile

namespace Gsdb

open ByteMemory

/-- The bytes of a `std::string_view`. -/
abbrev Text := List Byte

def charByte (c : Char) : Byte := BitVec.ofNat 8 c.toNat

def ascii (s : String) : Text := s.toList.map charByte

/-- An integer type that a text is read as. -/
structure IntegerType where
  signed : Bool
  width : Nat
deriving DecidableEq, Repr

/-- The values of an integer type. -/
def IntegerType.Represents (I : IntegerType) (v : Int) : Prop :=
  if I.signed then -2 ^ (I.width - 1) ≤ v ∧ v < 2 ^ (I.width - 1) else 0 ≤ v ∧ v < 2 ^ I.width

instance (I : IntegerType) (v : Int) : Decidable (I.Represents v) := by
  unfold IntegerType.Represents
  infer_instance

/-- The value of a digit in a base up to 36. -/
def digitValue (base : Nat) (c : Byte) : Option Nat :=
  let value :=
    if charByte '0' ≤ c ∧ c ≤ charByte '9' then some (c - charByte '0').toNat
    else if charByte 'a' ≤ c ∧ c ≤ charByte 'z' then some (10 + (c - charByte 'a').toNat)
    else if charByte 'A' ≤ c ∧ c ≤ charByte 'Z' then some (10 + (c - charByte 'A').toNat)
    else none
  value.filter (· < base)

def isDigitOf (base : Nat) (c : Byte) : Bool := (digitValue base c).isSome

/-- The number that digits denote. -/
def magnitude (base : Nat) (digits : Text) : Nat :=
  digits.foldl (fun n c => base * n + (digitValue base c).getD 0) 0

inductive Errc where
  | ok | invalidArgument | resultOutOfRange
deriving DecidableEq, Repr

/-- `from_chars_result`, with the text from `ptr` on, and the variable afterwards. -/
structure FromCharsResult where
  rest : Text
  ec : Errc
  value : Int

/-- `std::from_chars`.  Without a match, and for a number that is out of range, the
variable is left alone; a match is passed over in either case. -/
def fromChars (I : IntegerType) (base : Nat) (text : Text) (ret : Int) : FromCharsResult :=
  let negative := I.signed ∧ text.head? = some (charByte '-')
  let body := if negative then text.drop 1 else text
  let digits := body.takeWhile (isDigitOf base)
  let rest := body.dropWhile (isDigitOf base)
  let value : Int := if negative then -magnitude base digits else magnitude base digits
  if digits = [] then ⟨text, .invalidArgument, ret⟩
  else if I.Represents value then ⟨rest, .ok, value⟩
  else ⟨rest, .resultOutOfRange, ret⟩

/-- The text behind the prefix that base sixteen allows. -/
def withoutPrefix (base : Nat) (text : Text) : Text :=
  if base = 16 ∧ 1 < text.length ∧ text[0]? = some (charByte '0') ∧ text[1]? = some (charByte 'x')
  then text.drop 2
  else text

/-- `to_integral`. -/
def toIntegral (I : IntegerType) (text : Text) (base : Nat) : Option Int :=
  let result := fromChars I base (withoutPrefix base text) 0
  if result.rest ≠ [] then none else some result.value

/-- A non-empty digit string, with an optional minus sign for signed types. -/
inductive Numeral (I : IntegerType) (base : Nat) : Text → Int → Prop where
  | plain (digits : Text) : digits ≠ [] → (∀ c ∈ digits, isDigitOf base c = true) →
      Numeral I base digits (magnitude base digits)
  | negated (digits : Text) : I.signed = true → digits ≠ [] →
      (∀ c ∈ digits, isDigitOf base c = true) →
      Numeral I base (charByte '-' :: digits) (-magnitude base digits)

/-- What a text denotes, which may have the prefix `0x` in base sixteen. -/
inductive Denotes (I : IntegerType) (base : Nat) : Text → Int → Prop where
  | bare (text : Text) (v : Int) : Numeral I base text v → Denotes I base text v
  | prefixed (text : Text) (v : Int) : base = 16 → Numeral I base text v →
      Denotes I base (charByte '0' :: charByte 'x' :: text) v

/-- A text is read as the number that it denotes, if it does and the type has it, and is
refused otherwise. -/
def ReadsExactly (I : IntegerType) (base : Nat) (text : Text) : Prop :=
  ∀ v, toIntegral I text base = some v ↔ Denotes I base text v ∧ I.Represents v

section Matching

variable {I : IntegerType} {base : Nat}

theorem isDigitOf_minus : isDigitOf base (charByte '-') = false := rfl

theorem isDigitOf_x : isDigitOf 16 (charByte 'x') = false := by decide

theorem takeWhile_of_all {p : Byte → Bool} {text : Text} (h : ∀ c ∈ text, p c = true) :
    text.takeWhile p = text ∧ text.dropWhile p = [] :=
  ⟨List.takeWhile_eq_self_iff.mpr h, List.dropWhile_eq_nil_iff.mpr h⟩

/-- All of a numeral is matched; its number is taken if the type has it. -/
theorem fromChars_of_numeral {text : Text} {v : Int} (h : Numeral I base text v) (ret : Int) :
    (fromChars I base text ret).rest = [] ∧
      (fromChars I base text ret).value = if I.Represents v then v else ret := by
  cases h with
  | plain _ hne hall =>
      have hminus : ¬ (I.signed = true ∧ text.head? = some (charByte '-')) := by
        rintro ⟨-, hhead⟩
        have hdigit := hall _ (List.mem_of_mem_head? hhead)
        rw [isDigitOf_minus] at hdigit
        cases hdigit
      obtain ⟨htake, hdrop⟩ := takeWhile_of_all hall
      simp only [fromChars, if_neg hminus, htake, hdrop, if_neg hne]
      split <;> exact ⟨rfl, rfl⟩
  | negated digits hsigned hne hall =>
      have hminus : I.signed = true ∧
          (charByte '-' :: digits).head? = some (charByte '-') := ⟨hsigned, rfl⟩
      obtain ⟨htake, hdrop⟩ := takeWhile_of_all hall
      simp only [fromChars, if_pos hminus, List.drop_succ_cons, List.drop_zero, htake, hdrop,
        if_neg hne]
      split <;> exact ⟨rfl, rfl⟩

/-- Nothing but a numeral is matched to the end. -/
theorem numeral_of_rest_eq_nil {text : Text} {ret : Int} (hne : text ≠ [])
    (h : (fromChars I base text ret).rest = []) : ∃ v, Numeral I base text v := by
  have hdigits : ∀ body : Text, body.dropWhile (isDigitOf base) = [] →
      ∀ c ∈ body, isDigitOf base c = true := fun body => List.dropWhile_eq_nil_iff.mp
  by_cases hminus : I.signed = true ∧ text.head? = some (charByte '-')
  · obtain ⟨hsigned, hhead⟩ := hminus
    obtain ⟨digits, rfl⟩ : ∃ digits, text = charByte '-' :: digits := by
      cases text with
      | nil => exact absurd rfl hne
      | cons c digits =>
          cases hhead
          exact ⟨digits, rfl⟩
    have hrest : digits.takeWhile (isDigitOf base) ≠ [] ∧
        digits.dropWhile (isDigitOf base) = [] := by
      simp only [fromChars, List.head?_cons, hsigned, and_self, if_true,
        List.drop_succ_cons, List.drop_zero] at h
      split at h
      · cases h
      · rename_i hmatched
        refine ⟨hmatched, ?_⟩
        split at h <;> exact h
    have hall := hdigits digits hrest.2
    have hsome : digits ≠ [] := by
      rintro rfl
      exact hrest.1 rfl
    exact ⟨_, .negated digits hsigned hsome hall⟩
  · have hrest : text.dropWhile (isDigitOf base) = [] := by
      simp only [fromChars, if_neg hminus] at h
      split at h
      · exact absurd h hne
      · split at h <;> exact h
    exact ⟨_, .plain text hne (hdigits text hrest)⟩

theorem Numeral.ne_nil {text : Text} {v : Int} (h : Numeral I base text v) : text ≠ [] := by
  cases h with
  | plain digits hne hall => exact hne
  | negated digits hsigned hne hall => exact List.cons_ne_nil _ _

theorem Numeral.unique {text : Text} {v v' : Int} (h : Numeral I base text v)
    (h' : Numeral I base text v') : v = v' := by
  cases h with
  | plain digits hne hall =>
      cases h' with
      | plain digits hne' hall' => rfl
      | negated digits hsigned hne' hall' =>
          have hdigit := hall _ List.mem_cons_self
          rw [isDigitOf_minus] at hdigit
          cases hdigit
  | negated digits hsigned hne hall =>
      cases h' with
      | plain digits hne' hall' =>
          have hdigit := hall' _ List.mem_cons_self
          rw [isDigitOf_minus] at hdigit
          cases hdigit
      | negated digits hsigned' hne' hall' => rfl

/-- A text denotes what is behind its prefix. -/
theorem denotes_iff {text : Text} {v : Int} :
    Denotes I base text v ↔ Numeral I base (withoutPrefix base text) v := by
  by_cases hprefix : ∃ body, base = 16 ∧ text = charByte '0' :: charByte 'x' :: body
  · obtain ⟨body, rfl, rfl⟩ := hprefix
    have hbody : withoutPrefix 16 (charByte '0' :: charByte 'x' :: body) = body := by
      simp [withoutPrefix]
    rw [hbody]
    constructor
    · intro h
      cases h with
      | bare _ _ hnumeral =>
          have hx : isDigitOf 16 (charByte 'x') = true := by
            cases hnumeral with
            | plain _ _ hall => exact hall _ (List.mem_cons_of_mem _ List.mem_cons_self)
          rw [isDigitOf_x] at hx
          cases hx
      | prefixed _ _ _ hnumeral => exact hnumeral
    · exact .prefixed body v rfl
  · have hnone : withoutPrefix base text = text := by
      rw [withoutPrefix, if_neg]
      rintro ⟨hbase, hlength, hzero, hx⟩
      refine hprefix ⟨text.drop 2, hbase, ?_⟩
      match text, hlength, hzero, hx with
      | a :: b :: body, _, hzero, hx =>
          cases hzero
          cases hx
          rfl
    rw [hnone]
    constructor
    · intro h
      cases h with
      | bare _ _ hnumeral => exact hnumeral
      | prefixed body _ hbase hnumeral => exact absurd ⟨body, hbase, rfl⟩ hprefix
    · exact .bare text v

end Matching

theorem represents_zero (I : IntegerType) : I.Represents 0 := by
  have hpos : ∀ n : Nat, (0 : Int) < 2 ^ n := fun n => Int.pow_pos (by decide)
  unfold IntegerType.Represents
  split
  · exact ⟨Int.neg_nonpos_of_nonneg (hpos _).le, hpos _⟩
  · exact ⟨Int.le_refl 0, hpos _⟩

/-- Whatever was read, the type has it. -/
theorem toIntegral_represents {text : Text} {v : Int} (h : toIntegral I text base = some v) :
    I.Represents v := by
  have hvalue : ∀ body, I.Represents (fromChars I base body 0).value := by
    intro body
    simp only [fromChars]
    split_ifs <;> first | exact represents_zero I | assumption
  unfold toIntegral at h
  dsimp only at h
  split at h
  · cases h
  · rw [← Option.some.inj h]
    exact hvalue _

/-- A text is read exactly if there is something behind its prefix and the number that it
denotes, if it denotes one, is in range. -/
theorem readsExactly_iff (I : IntegerType) (base : Nat) (text : Text) :
    ReadsExactly I base text ↔
      withoutPrefix base text ≠ [] ∧ ∀ v, Denotes I base text v → I.Represents v := by
  constructor
  · intro h
    refine ⟨fun hnil => ?_, fun v hdenotes => ?_⟩
    · have hread : toIntegral I text base = some 0 := by
        rw [toIntegral, hnil]
        simp [fromChars]
      have hnumeral := denotes_iff.mp ((h 0).mp hread).1
      exact hnumeral.ne_nil hnil
    · by_contra hrange
      obtain ⟨hrest, hvalue⟩ := fromChars_of_numeral (denotes_iff.mp hdenotes) 0
      rw [if_neg hrange] at hvalue
      have hread : toIntegral I text base = some 0 := by
        simp [toIntegral, hrest, hvalue]
      have hnumeral := denotes_iff.mp ((h 0).mp hread).1
      rw [(denotes_iff.mp hdenotes).unique hnumeral] at hrange
      exact hrange (represents_zero I)
  · rintro ⟨hne, hrange⟩ v
    by_cases hrest : (fromChars I base (withoutPrefix base text) 0).rest = []
    · obtain ⟨number, hnumeral⟩ := numeral_of_rest_eq_nil hne hrest
      have hrepresents := hrange number (denotes_iff.mpr hnumeral)
      have hread : toIntegral I text base = some number := by
        have hvalue := (fromChars_of_numeral hnumeral 0).2
        rw [if_pos hrepresents] at hvalue
        simp [toIntegral, hrest, hvalue]
      rw [hread]
      constructor
      · rintro h
        cases h
        exact ⟨denotes_iff.mpr hnumeral, hrepresents⟩
      · rintro ⟨hdenotes, -⟩
        rw [hnumeral.unique (denotes_iff.mp hdenotes)]
    · have hread : toIntegral I text base = none := by simp [toIntegral, hrest]
      rw [hread]
      refine iff_of_false (by simp) ?_
      rintro ⟨hdenotes, -⟩
      exact hrest (fromChars_of_numeral (denotes_iff.mp hdenotes) 0).1

/-- A number too large for its type is read as zero. -/
theorem outOfRange_reads_zero :
    ¬ ∀ (I : IntegerType) (base : Nat) (text : Text), base = 10 ∨ base = 16 →
      ReadsExactly I base text := by
  intro hall
  have hread : toIntegral ⟨false, 64⟩ (ascii "18446744073709551616") 10 = some 0 := by decide
  have hdenotes := ((hall _ 10 _ (.inl rfl) 0).mp hread).1
  have hnumeral := denotes_iff.mp hdenotes
  have hnumber : Numeral ⟨false, 64⟩ 10 (ascii "18446744073709551616")
      (magnitude 10 (ascii "18446744073709551616")) := .plain _ (by decide) (by decide)
  have hzero := hnumeral.unique hnumber
  have hvalue : magnitude 10 (ascii "18446744073709551616") = 2 ^ 64 := by decide
  rw [hvalue] at hzero
  cases hzero

end Gsdb
