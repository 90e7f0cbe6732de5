/-
Vectors of bytes in texts.  `parse_vector` walks over a text with a pointer and takes four
characters at a time for a byte, whatever they are: the view of them may reach past the end of
the text, and `to_integral` takes four digits as well as a prefix and two.
-/
import Gsdb.Evaluation

namespace Gsdb

open ByteMemory

/-- `*c`, where `c` is followed by the rest of the text and the null behind it. -/
def charAt (c : Text) : Except Failure Byte := inBounds c.head?

/-- `to_integral<std::byte>({c, 4}, 16)`.  Where the text ends within the view, a match up to
its end would be read on behind it. -/
def byteAt (c : Text) : Except Failure (Option Byte) :=
  let window := c.take 4
  if window.length < 4 ∧ (fromChars ⟨false, 8⟩ 16 (withoutPrefix 16 window) 0).rest = [] then
    .error (.undefined "read outside the buffer")
  else .ok ((toIntegral ⟨false, 8⟩ window 16).map (BitVec.ofInt 8))

/-- `byteAt(c).value()`. -/
def byteValue (c : Text) : Except Failure Byte := do
  match ← byteAt c with
  | some byte => pure byte
  | none => .error (.exception "bad_optional_access")

/-- The loop of `parse_vector(text)`. -/
def parseBytes : Nat → Text → Except Failure (List Byte × Text)
  | 0, _ => .error .schedule
  | rounds + 1, c => do
      let next ← charAt c
      if next = charByte ']' then pure ([], c)
      else do
        let byte ← byteValue c
        let separator ← charAt (c.drop 4)
        if separator = charByte ',' then do
          let (bytes, c) ← parseBytes rounds (c.drop 5)
          pure (byte :: bytes, c)
        else do
          require (separator = charByte ']') "Invalid text format!"
          let (bytes, c) ← parseBytes rounds (c.drop 4)
          pure (byte :: bytes, c)

/-- `parse_vector(text)`; the pointer is at the end of the text where only the null is left. -/
def parseVector (text : Text) : Except Failure (List Byte) := do
  let c := text ++ [0]
  let first ← charAt c
  require (first = charByte '[') "Invalid text format!"
  let (bytes, c) ← parseBytes (text.length + 1) (c.drop 1)
  require ((c.drop 1).length = 1) "Invalid text format!"
  pure bytes

/-- `bytes[i] = byte` for an array of a size. -/
def storeInArray (size i : Nat) : Except Failure PUnit :=
  if i < size then .ok ⟨⟩ else .error (.undefined "write outside the array")

/-- The loop of `parse_vector<N>(text)`, with the number of rounds that are left. -/
def parseGroups (size : Nat) : Nat → Nat → Text → Except Failure (List Byte × Text)
  | 0, _, c => .ok ([], c)
  | count + 1, i, c => do
      let byte ← byteValue c
      storeInArray size i
      let separator ← charAt (c.drop 4)
      require (separator = charByte ',') "Invalid format!"
      let (bytes, c) ← parseGroups size count (i + 1) (c.drop 5)
      pure (byte :: bytes, c)

/-- `parse_vector<N>(text)`. -/
def parseVectorN (size : Word) (text : Text) : Except Failure (List Byte) := do
  let c := text ++ [0]
  let first ← charAt c
  require (first = charByte '[') "Invalid format!"
  let (bytes, c) ← parseGroups size.toNat (size - 1).toNat 0 (c.drop 1)
  let last ← byteValue c
  storeInArray size.toNat (size - 1).toNat
  let bracket ← charAt (c.drop 4)
  require (bracket = charByte ']') "Invalid format!"
  require ((c.drop 5).length = 1) "Invalid format!"
  pure (bytes ++ [last])

/-- A byte as two digits behind a prefix. -/
inductive IsGroup : Text → Byte → Prop where
  | mk {high low : Byte} (hhigh : isDigitOf 16 high = true) (hlow : isDigitOf 16 low = true) :
      IsGroup [charByte '0', charByte 'x', high, low] (BitVec.ofNat 8 (magnitude 16 [high, low]))

/-- Bytes with commas in between. -/
inductive IsList : Text → List Byte → Prop where
  | single {group : Text} {byte : Byte} (hgroup : IsGroup group byte) : IsList group [byte]
  | cons {group others : Text} {byte : Byte} {bytes : List Byte} (hgroup : IsGroup group byte)
      (hothers : IsList others bytes) :
      IsList (group ++ charByte ',' :: others) (byte :: bytes)

/-- The grammar of vectors. -/
inductive IsVector : Text → List Byte → Prop where
  | empty : IsVector [charByte '[', charByte ']'] []
  | list {body : Text} {bytes : List Byte} (hbody : IsList body bytes) :
      IsVector (charByte '[' :: (body ++ [charByte ']'])) bytes

/-- Four digits. -/
def IsBare (group : Text) : Prop := group.length = 4 ∧ ∀ c ∈ group, isDigitOf 16 c = true

/-- What is taken for a byte. -/
def IsTaken (group : Text) : Prop := (∃ byte, IsGroup group byte) ∨ IsBare group

/-- Groups with a comma behind each. -/
def leading (groups : List Text) : Text := groups.flatMap fun group => group ++ [charByte ',']

/-- The texts that `parse_vector(text)` finds the punctuation of wrong: no bracket in front,
something else behind what it takes for a byte, or something behind the bracket. -/
inductive MispunctuatedVector : Text → Prop where
  | opening {text : Text} (h : text.head? ≠ some (charByte '[')) : MispunctuatedVector text
  | separator {groups : List Text} {group rest : Text} (hgroups : ∀ g ∈ groups, IsTaken g)
      (hgroup : IsTaken group) (hcomma : rest.head? ≠ some (charByte ','))
      (hbracket : rest.head? ≠ some (charByte ']')) :
      MispunctuatedVector (charByte '[' :: (leading groups ++ (group ++ rest)))
  | behindComma {groups : List Text} {rest : Text} (hgroups : ∀ g ∈ groups, IsTaken g)
      (hrest : rest ≠ []) :
      MispunctuatedVector (charByte '[' :: (leading groups ++ charByte ']' :: rest))
  | behindGroup {groups : List Text} {group rest : Text} (hgroups : ∀ g ∈ groups, IsTaken g)
      (hgroup : IsTaken group) (hrest : rest ≠ []) :
      MispunctuatedVector (charByte '[' :: (leading groups ++ (group ++ charByte ']' :: rest)))

/-- The texts that `parse_vector<N>(text)` finds the punctuation of wrong. -/
inductive MispunctuatedArray (size : Nat) : Text → Prop where
  | opening {text : Text} (h : text.head? ≠ some (charByte '[')) : MispunctuatedArray size text
  | separator {groups : List Text} {group rest : Text} (hgroups : ∀ g ∈ groups, IsTaken g)
      (hcount : groups.length + 1 < size) (hgroup : IsTaken group)
      (hcomma : rest.head? ≠ some (charByte ',')) :
      MispunctuatedArray size (charByte '[' :: (leading groups ++ (group ++ rest)))
  | closing {groups : List Text} {group rest : Text} (hgroups : ∀ g ∈ groups, IsTaken g)
      (hcount : groups.length + 1 = size) (hgroup : IsTaken group)
      (hrest : rest ≠ [charByte ']']) :
      MispunctuatedArray size (charByte '[' :: (leading groups ++ (group ++ rest)))

/-- A result is what a grammar says: the bytes of the texts in it, and a `gsdb::error` for the
others. -/
def Accepts (grammar : List Byte → Prop) (result : Except Failure (List Byte)) : Prop :=
  (∀ bytes, result = .ok bytes ↔ grammar bytes) ∧
    ((¬ ∃ bytes, grammar bytes) → ∃ what, result = .error (.error what))

section Groups

variable {c group rest : Text} {byte : Byte}

theorem IsTaken.length (h : IsTaken group) : group.length = 4 := by
  rcases h with ⟨byte, ⟨hhigh, hlow⟩⟩ | hbare
  · rfl
  · exact hbare.1

theorem digit_ne_null {digit : Byte} (h : isDigitOf 16 digit = true) : digit ≠ 0 := by
  rintro rfl
  cases h

theorem IsTaken.no_null (h : IsTaken group) : (0 : Byte) ∉ group := by
  intro hmem
  rcases h with ⟨byte, hgroup⟩ | hbare
  · cases hgroup with
    | @mk high low hhigh hlow =>
        have hnull : (0 : Byte) = high ∨ (0 : Byte) = low := by
          simpa [charByte] using hmem
        rcases hnull with hnull | hnull
        · exact digit_ne_null hhigh hnull.symm
        · exact digit_ne_null hlow hnull.symm
  · exact digit_ne_null (hbare.2 0 hmem) rfl

/-- What stands in front of a byte is no bracket. -/
theorem IsTaken.head_ne (h : IsTaken group) :
    ∃ first tail, group = first :: tail ∧ first ≠ charByte ']' := by
  rcases h with ⟨byte, ⟨hhigh, hlow⟩⟩ | ⟨hlength, hall⟩
  · exact ⟨_, _, rfl, by decide⟩
  · cases group with
    | nil => cases hlength
    | cons first tail =>
        refine ⟨first, tail, rfl, ?_⟩
        rintro rfl
        have hdigit := hall _ List.mem_cons_self
        cases hdigit

theorem withoutPrefix_bare (h : IsBare group) : withoutPrefix 16 group = group := by
  rw [withoutPrefix, if_neg]
  rintro ⟨-, -, -, hx⟩
  have hdigit := h.2 _ (List.mem_of_getElem? hx)
  rw [isDigitOf_x] at hdigit
  cases hdigit

/-- What is read from what is taken for a byte. -/
def groupByte (group : Text) : Byte := BitVec.ofInt 8 ((toIntegral ⟨false, 8⟩ group 16).getD 0)

theorem toIntegral_matched {value : Int} (h : toIntegral ⟨false, 8⟩ group 16 = some value) :
    (fromChars ⟨false, 8⟩ 16 (withoutPrefix 16 group) 0).rest = [] := by
  rw [toIntegral] at h
  by_contra hrest
  rw [if_pos hrest] at h
  cases h

theorem digits_of_matched {digits : Text} (hsome : digits ≠ [])
    (h : (fromChars ⟨false, 8⟩ 16 digits 0).rest = []) : ∀ c ∈ digits, isDigitOf 16 c = true := by
  obtain ⟨value, hnumeral⟩ := numeral_of_rest_eq_nil hsome h
  cases hnumeral with
  | plain _ _ hall => exact hall
  | negated _ hsigned => cases hsigned

/-- `to_integral` takes a prefix and two digits, or four digits. -/
theorem isTaken_of_toIntegral {value : Int} (hlength : group.length = 4)
    (h : toIntegral ⟨false, 8⟩ group 16 = some value) : IsTaken group := by
  have hmatched := toIntegral_matched h
  by_cases hprefix : group[0]? = some (charByte '0') ∧ group[1]? = some (charByte 'x')
  · left
    match group, hlength with
    | [first, second, high, low], _ =>
        obtain ⟨hfirst, hsecond⟩ := hprefix
        cases hfirst
        cases hsecond
        have hrest : withoutPrefix 16 [charByte '0', charByte 'x', high, low] = [high, low] := rfl
        rw [hrest] at hmatched
        have hall := digits_of_matched (List.cons_ne_nil _ _) hmatched
        exact ⟨_, .mk (hall high (by simp)) (hall low (by simp))⟩
  · right
    have hwhole : withoutPrefix 16 group = group := by
      rw [withoutPrefix, if_neg]
      rintro ⟨-, -, hfirst, hsecond⟩
      exact hprefix ⟨hfirst, hsecond⟩
    rw [hwhole] at hmatched
    have hsome : group ≠ [] := by
      rintro rfl
      cases hlength
    exact ⟨hlength, digits_of_matched hsome hmatched⟩

theorem digitValue_lt (base : Nat) (hbase : 0 < base) (digit : Byte) :
    (digitValue base digit).getD 0 < base := by
  cases hvalue : digitValue base digit with
  | none => exact hbase
  | some value => exact of_decide_eq_true (Option.filter_eq_some_iff.mp hvalue).2

/-- A prefix and two digits are read as the byte that they denote. -/
theorem toIntegral_group (h : IsGroup group byte) :
    toIntegral ⟨false, 8⟩ group 16 = some (byte.toNat : Int) := by
  cases h with
  | @mk high low hhigh hlow =>
      have hnumeral : Numeral ⟨false, 8⟩ 16 [high, low] (magnitude 16 [high, low]) := by
        refine .plain _ (List.cons_ne_nil _ _) fun c hc => ?_
        rcases List.mem_cons.mp hc with rfl | hc
        · exact hhigh
        · rw [List.mem_singleton.mp hc]
          exact hlow
      obtain ⟨hrest, hvalue⟩ := fromChars_of_numeral hnumeral 0
      have hsmall : magnitude 16 [high, low] < 256 := by
        have hfirst := digitValue_lt 16 (by decide) high
        have hsecond := digitValue_lt 16 (by decide) low
        simp only [magnitude, List.foldl_cons, List.foldl_nil]
        omega
      have hrepresents :
          IntegerType.Represents ⟨false, 8⟩ ((magnitude 16 [high, low] : Nat) : Int) := by
        refine ⟨by omega, ?_⟩
        change ((magnitude 16 [high, low] : Nat) : Int) < 2 ^ 8
        omega
      have hbare : withoutPrefix 16 [charByte '0', charByte 'x', high, low] = [high, low] := rfl
      rw [toIntegral, hbare, if_neg (not_not_intro hrest), hvalue, if_pos hrepresents,
        BitVec.toNat_ofNat, Nat.mod_eq_of_lt hsmall]

theorem groupByte_group (h : IsGroup group byte) : groupByte group = byte := by
  rw [groupByte, toIntegral_group h, Option.getD_some]
  simp

theorem isTaken_toIntegral (h : IsTaken group) :
    ∃ value, toIntegral ⟨false, 8⟩ group 16 = some value := by
  rcases h with ⟨byte, hgroup⟩ | hbare
  · exact ⟨_, toIntegral_group hgroup⟩
  · have hsome : group ≠ [] := by
      rintro rfl
      cases hbare.1
    obtain ⟨hrest, -⟩ :=
      fromChars_of_numeral (Numeral.plain (I := ⟨false, 8⟩) group hsome hbare.2) 0
    rw [toIntegral, withoutPrefix_bare hbare, if_neg (not_not_intro hrest)]
    exact ⟨_, rfl⟩

theorem byteValue_taken (h : IsTaken group) (rest : Text) :
    byteValue (group ++ rest) = .ok (groupByte group) := by
  obtain ⟨value, hvalue⟩ := isTaken_toIntegral h
  have hwindow : (group ++ rest).take 4 = group := by
    rw [← h.length, List.take_left]
  have hread : byteAt (group ++ rest) = .ok (some (groupByte group)) := by
    simp only [byteAt, hwindow, h.length, Nat.lt_irrefl, false_and, if_false, hvalue, groupByte]
    rfl
  rw [byteValue, hread]
  rfl

/-- The null behind a text ends every match. -/
theorem not_matched_null (text : Text) :
    (fromChars ⟨false, 8⟩ 16 (withoutPrefix 16 (text ++ [0])) 0).rest ≠ [] := by
  have hnull : (0 : Byte) ∈ withoutPrefix 16 (text ++ [0]) := by
    unfold withoutPrefix
    split
    · rename_i hprefix
      obtain ⟨-, -, hfirst, hsecond⟩ := hprefix
      match text with
      | [] => cases hfirst
      | [first] => cases hsecond
      | first :: second :: text => simp
    · simp
  intro hmatched
  have hdigit := digits_of_matched (List.ne_nil_of_mem hnull) hmatched 0 hnull
  exact digit_ne_null hdigit rfl

/-- What is taken for a byte is all inside the text. -/
theorem taken_inside {text rest : Text} (hgroup : IsTaken group)
    (h : text ++ [0] = group ++ rest) : ∃ tail, rest = tail ++ [0] ∧ text = group ++ tail := by
  rcases List.append_eq_append_iff.mp h with ⟨tail, hgroup', hrest⟩ | ⟨tail, htext, hrest⟩
  · cases tail with
    | nil => exact ⟨[], by simpa using hrest.symm, by simpa using hgroup'.symm⟩
    | cons first tail =>
        have hlast : (0 : Byte) ∈ group := by
          have hfirst : first = 0 := (List.cons.inj hrest).1.symm
          rw [hgroup', hfirst]
          simp
        exact absurd hlast hgroup.no_null
  · exact ⟨tail, hrest, htext⟩

/-- In a text four characters are taken for a byte, or an exception is thrown that is not one
of the debugger. -/
theorem byteValue_text (text : Text) :
    (∃ group rest, text = group ++ rest ∧ IsTaken group ∧
      byteValue (text ++ [0]) = .ok (groupByte group)) ∨
    byteValue (text ++ [0]) = .error (.exception "bad_optional_access") := by
  have hinside : ¬ (((text ++ [0]).take 4).length < 4 ∧
      (fromChars ⟨false, 8⟩ 16 (withoutPrefix 16 ((text ++ [0]).take 4)) 0).rest = []) := by
    rintro ⟨hshort, hmatched⟩
    rw [List.length_take] at hshort
    rw [List.take_of_length_le (by omega)] at hmatched
    exact not_matched_null text hmatched
  cases hvalue : toIntegral ⟨false, 8⟩ ((text ++ [0]).take 4) 16 with
  | none =>
      right
      rw [byteValue, byteAt]
      simp only [if_neg hinside, hvalue]
      rfl
  | some value =>
      left
      have hlength : ((text ++ [0]).take 4).length = 4 := by
        by_contra hne
        refine hinside ⟨?_, toIntegral_matched hvalue⟩
        rw [List.length_take] at hne ⊢
        omega
      have htaken := isTaken_of_toIntegral hlength hvalue
      obtain ⟨tail, -, htext⟩ := taken_inside htaken (List.take_append_drop 4 (text ++ [0])).symm
      refine ⟨_, tail, htext, htaken, ?_⟩
      have hread := byteValue_taken htaken ((text ++ [0]).drop 4)
      rwa [List.take_append_drop] at hread

end Groups

section Vectors

variable {c group rest text : Text} {bytes : List Byte} {groups : List Text} {byte : Byte}

theorem IsTaken.drop (h : IsTaken group) (rest : Text) :
    (group ++ rest).drop 4 = rest ∧ (group ++ rest).drop 5 = rest.drop 1 := by
  have hdrop : (group ++ rest).drop 4 = rest := by
    rw [← h.length, List.drop_left]
  have hnext : (group ++ rest).drop 5 = ((group ++ rest).drop 4).drop 1 := by
    rw [List.drop_drop]
  exact ⟨hdrop, by rw [hnext, hdrop]⟩

/-- A round that takes a byte, by what stands behind it. -/
theorem parseBytes_taken (hgroup : IsTaken group) (rest : Text) (rounds : Nat) (next : Byte) :
    parseBytes (rounds + 1) (group ++ next :: rest) =
      if next = charByte ',' then
        (parseBytes rounds rest).map fun out => (groupByte group :: out.1, out.2)
      else if next = charByte ']' then
        (parseBytes rounds (next :: rest)).map fun out => (groupByte group :: out.1, out.2)
      else .error (.error "Invalid text format!") := by
  obtain ⟨first, tail, hfirst, hne⟩ := hgroup.head_ne
  have hhead : charAt (group ++ next :: rest) = .ok first := by
    rw [hfirst]
    rfl
  obtain ⟨hdrop, hdrop'⟩ := hgroup.drop (next :: rest)
  rw [parseBytes, hhead, ok_bind, if_neg hne, byteValue_taken hgroup, ok_bind]
  simp only [hdrop, hdrop', charAt, List.head?_cons, inBounds_some, ok_bind, List.drop_succ_cons,
    List.drop_zero]
  by_cases hcomma : next = charByte ','
  · rw [if_pos hcomma, if_pos hcomma]
    cases parseBytes rounds rest <;> rfl
  · rw [if_neg hcomma, if_neg hcomma]
    by_cases hbracket : next = charByte ']'
    · rw [if_pos hbracket, require, if_pos hbracket]
      cases parseBytes rounds (next :: rest) <;> rfl
    · rw [if_neg hbracket, require, if_neg hbracket]
      rfl

theorem leading_cons (group : Text) (groups : List Text) (tail : Text) :
    leading (group :: groups) ++ tail = group ++ charByte ',' :: (leading groups ++ tail) := by
  simp [leading]

/-- The first character of a text that does not begin with a certain one; an empty text has the
null behind it. -/
theorem charAt_other (h : text.head? ≠ some byte) (hnull : (0 : Byte) ≠ byte) :
    ∃ first, charAt (text ++ [0]) = .ok first ∧ first ≠ byte := by
  cases text with
  | nil => exact ⟨0, rfl, hnull⟩
  | cons first text =>
      refine ⟨first, rfl, ?_⟩
      rintro rfl
      exact h rfl

theorem parseBytes_bracket (rounds : Nat) (rest : Text) :
    parseBytes (rounds + 1) (charByte ']' :: rest) = .ok ([], charByte ']' :: rest) := rfl

/-- Groups with commas behind them are passed over. -/
theorem parseBytes_leading (hgroups : ∀ g ∈ groups, IsTaken g) (rounds : Nat) (c : Text) :
    parseBytes (rounds + groups.length) (leading groups ++ c) =
      (parseBytes rounds c).map fun out => (groups.map groupByte ++ out.1, out.2) := by
  induction groups with
  | nil =>
      change parseBytes rounds c = (parseBytes rounds c).map fun out => (out.1, out.2)
      cases parseBytes rounds c <;> rfl
  | cons group groups ih =>
      have hothers := ih fun g hg => hgroups g (List.mem_cons_of_mem group hg)
      rw [leading_cons, List.length_cons, ← Nat.add_assoc,
        parseBytes_taken (hgroups group List.mem_cons_self), if_pos rfl, hothers]
      cases parseBytes rounds c <;> rfl

/-- How the loop of `parse_vector(text)` can end: at a bracket, at wrong punctuation, or at
something that it does not take for a byte. -/
def BytesEnd (text : Text) (result : Except Failure (List Byte × Text)) : Prop :=
  (∃ groups rest bytes, (∀ g ∈ groups, IsTaken g) ∧
    (text = leading groups ++ charByte ']' :: rest ∨
      ∃ group, IsTaken group ∧ text = leading groups ++ (group ++ charByte ']' :: rest)) ∧
    result = .ok (bytes, charByte ']' :: (rest ++ [0]))) ∨
  (∃ groups group rest, (∀ g ∈ groups, IsTaken g) ∧ IsTaken group ∧
    text = leading groups ++ (group ++ rest) ∧ rest.head? ≠ some (charByte ',') ∧
    rest.head? ≠ some (charByte ']') ∧ result = .error (.error "Invalid text format!")) ∨
  result = .error (.exception "bad_optional_access")

/-- A group with a comma behind it in front of the rest. -/
theorem BytesEnd.cons {result : Except Failure (List Byte × Text)} (hgroup : IsTaken group)
    (h : BytesEnd text result) : BytesEnd (group ++ charByte ',' :: text)
      (result.map fun out => (groupByte group :: out.1, out.2)) := by
  have hall : ∀ {groups : List Text}, (∀ g ∈ groups, IsTaken g) →
      ∀ g ∈ group :: groups, IsTaken g := fun hgroups => by simpa using ⟨hgroup, hgroups⟩
  rcases h with ⟨groups, tail, bytes, hgroups, hshape, rfl⟩ |
    ⟨groups, other, tail, hgroups, hother, rfl, hhead, hhead', rfl⟩ | rfl
  · left
    refine ⟨group :: groups, tail, groupByte group :: bytes, hall hgroups, ?_, rfl⟩
    rcases hshape with rfl | ⟨other, hother, rfl⟩
    · exact .inl (leading_cons _ _ _).symm
    · exact .inr ⟨other, hother, (leading_cons _ _ _).symm⟩
  · right
    left
    exact ⟨group :: groups, other, tail, hall hgroups, hother, (leading_cons _ _ _).symm, hhead,
      hhead', rfl⟩
  · right
    right
    rfl

theorem parseBytes_outcome (rounds : Nat) : ∀ text : Text, text.length < rounds →
    BytesEnd text (parseBytes rounds (text ++ [0])) := by
  induction rounds with
  | zero => intro text hlength; omega
  | succ rounds ih =>
      intro text hlength
      by_cases hstop : text.head? = some (charByte ']')
      · obtain ⟨rest, rfl⟩ := List.head?_eq_some_iff.mp hstop
        exact .inl ⟨[], rest, [], by simp, .inl rfl, rfl⟩
      rcases byteValue_text text with ⟨group, rest, rfl, hgroup, -⟩ | hthrown
      · cases rest with
        | nil =>
            refine .inr (.inl ⟨[], group, [], by simp, hgroup, rfl, by simp, by simp, ?_⟩)
            rw [List.append_assoc, List.nil_append, parseBytes_taken hgroup]
            rfl
        | cons next rest =>
            have hread := parseBytes_taken hgroup (rest ++ [0]) rounds next
            rw [List.append_assoc, List.cons_append]
            rw [List.length_append, List.length_cons, hgroup.length] at hlength
            by_cases hcomma : next = charByte ','
            · subst hcomma
              rw [hread, if_pos rfl]
              exact (ih rest (by omega)).cons hgroup
            · rw [if_neg hcomma] at hread
              by_cases hbracket : next = charByte ']'
              · subst hbracket
                obtain ⟨rounds, rfl⟩ : ∃ k, rounds = k + 1 := ⟨rounds - 1, by omega⟩
                rw [if_pos rfl, parseBytes_bracket] at hread
                exact .inl ⟨[], rest, [groupByte group], by simp, .inr ⟨group, hgroup, rfl⟩, hread⟩
              · rw [if_neg hbracket] at hread
                refine .inr (.inl ⟨[], group, next :: rest, by simp, hgroup, rfl, ?_, ?_, hread⟩)
                · simpa using hcomma
                · simpa using hbracket
      · right
        right
        obtain ⟨first, hfirst, hne⟩ := charAt_other hstop (by decide)
        rw [parseBytes, hfirst, ok_bind, if_neg hne, hthrown]
        rfl

theorem parseVector_opening (h : text.head? ≠ some (charByte '[')) :
    parseVector text = .error (.error "Invalid text format!") := by
  obtain ⟨first, hfirst, hne⟩ := charAt_other h (by decide)
  rw [parseVector, hfirst, ok_bind, require, if_neg hne]
  rfl

/-- What is left to do behind the bracket. -/
theorem parseVector_cons (text : Text) :
    parseVector (charByte '[' :: text) = (do
      let out ← parseBytes (text.length + 2) (text ++ [0])
      require ((out.2.drop 1).length = 1) "Invalid text format!"
      pure out.1) := rfl

theorem leading_length_le (groups : List Text) : groups.length ≤ (leading groups).length := by
  induction groups with
  | nil => exact Nat.le_refl 0
  | cons group groups ih =>
      simp only [leading, List.flatMap_cons, List.length_append, List.length_cons] at ih ⊢
      omega

/-- The parser at a bracket behind groups. -/
theorem parseVector_closed (hgroups : ∀ g ∈ groups, IsTaken g) (tail rest : Text)
    (bytes : List Byte) (htail : ∀ rounds, parseBytes (rounds + 2) (tail ++ [0]) =
      .ok (bytes, charByte ']' :: (rest ++ [0]))) :
    parseVector (charByte '[' :: (leading groups ++ tail)) =
      if rest = [] then .ok (groups.map groupByte ++ bytes)
      else .error (.error "Invalid text format!") := by
  have hlength := leading_length_le groups
  obtain ⟨rounds, hrounds⟩ : ∃ k, (leading groups ++ tail).length + 2 = k + 2 + groups.length := by
    refine ⟨(leading groups ++ tail).length - groups.length, ?_⟩
    rw [List.length_append]
    omega
  have hread : parseBytes ((leading groups ++ tail).length + 2) (leading groups ++ tail ++ [0]) =
      .ok (groups.map groupByte ++ bytes, charByte ']' :: (rest ++ [0])) := by
    rw [hrounds, List.append_assoc, parseBytes_leading hgroups, htail]
    rfl
  rw [parseVector_cons, hread, ok_bind, require]
  simp only [List.drop_succ_cons, List.drop_zero, List.length_append, List.length_singleton]
  by_cases hrest : rest = []
  · subst hrest
    rfl
  · have hmore : ¬ rest.length + 1 = 1 := by
      have hpos := List.length_pos_iff.mpr hrest
      omega
    rw [if_neg hmore, if_neg hrest]
    rfl

theorem parseVector_behindComma (hgroups : ∀ g ∈ groups, IsTaken g) :
    parseVector (charByte '[' :: (leading groups ++ charByte ']' :: rest)) =
      if rest = [] then .ok (groups.map groupByte)
      else .error (.error "Invalid text format!") := by
  have hread := parseVector_closed hgroups (charByte ']' :: rest) rest [] fun rounds => rfl
  rwa [List.append_nil] at hread

theorem parseVector_behindGroup (hgroups : ∀ g ∈ groups, IsTaken g) (hgroup : IsTaken group) :
    parseVector (charByte '[' :: (leading groups ++ (group ++ charByte ']' :: rest))) =
      if rest = [] then .ok (groups.map groupByte ++ [groupByte group])
      else .error (.error "Invalid text format!") := by
  refine parseVector_closed hgroups _ rest _ fun rounds => ?_
  rw [List.append_assoc, List.cons_append, parseBytes_taken hgroup, if_neg (by decide), if_pos rfl]
  rfl

theorem parseVector_separator (hgroups : ∀ g ∈ groups, IsTaken g) (hgroup : IsTaken group)
    (hcomma : rest.head? ≠ some (charByte ',')) (hbracket : rest.head? ≠ some (charByte ']')) :
    parseVector (charByte '[' :: (leading groups ++ (group ++ rest))) =
      .error (.error "Invalid text format!") := by
  have hlength := leading_length_le groups
  obtain ⟨rounds, hrounds⟩ :
      ∃ k, (leading groups ++ (group ++ rest)).length + 2 = k + 1 + groups.length := by
    refine ⟨(leading groups ++ (group ++ rest)).length + 1 - groups.length, ?_⟩
    rw [List.length_append]
    omega
  have hnext : ∃ next tail, rest ++ [0] = next :: tail ∧ next ≠ charByte ',' ∧
      next ≠ charByte ']' := by
    cases rest with
    | nil => exact ⟨0, [], rfl, by decide, by decide⟩
    | cons next rest =>
        exact ⟨next, rest ++ [0], rfl, by simpa using hcomma, by simpa using hbracket⟩
  obtain ⟨next, tail, htail, hcomma', hbracket'⟩ := hnext
  rw [parseVector_cons, hrounds, List.append_assoc, parseBytes_leading hgroups, List.append_assoc,
    htail, parseBytes_taken hgroup, if_neg hcomma', if_neg hbracket']
  rfl

/-- A list in the grammar, as groups with a comma behind all but the last. -/
theorem IsList.split (h : IsList text bytes) :
    ∃ groups group, (∀ g ∈ groups, IsTaken g) ∧ IsTaken group ∧ text = leading groups ++ group ∧
      bytes = groups.map groupByte ++ [groupByte group] := by
  induction h with
  | @single group byte hgroup =>
      exact ⟨[], group, by simp, .inl ⟨byte, hgroup⟩, rfl, by rw [groupByte_group hgroup]; rfl⟩
  | @cons group others byte bytes hgroup hothers ih =>
      obtain ⟨groups, last, hgroups, hlast, rfl, rfl⟩ := ih
      refine ⟨group :: groups, last, ?_, hlast, ?_, ?_⟩
      · simpa using ⟨Or.inl ⟨byte, hgroup⟩, hgroups⟩
      · exact (leading_cons _ _ _).symm
      · rw [List.map_cons, groupByte_group hgroup]
        rfl

/-- A text in the grammar is read as its bytes. -/
theorem parseVector_of_isVector (h : IsVector text bytes) : parseVector text = .ok bytes := by
  cases h with
  | empty => rfl
  | list hbody =>
      obtain ⟨groups, group, hgroups, hgroup, rfl, rfl⟩ := hbody.split
      rw [List.append_assoc]
      exact (parseVector_behindGroup hgroups hgroup).trans (if_pos rfl)

theorem parseVector_mispunctuated (h : MispunctuatedVector text) :
    parseVector text = .error (.error "Invalid text format!") := by
  cases h with
  | opening h => exact parseVector_opening h
  | separator hgroups hgroup hcomma hbracket =>
      exact parseVector_separator hgroups hgroup hcomma hbracket
  | behindComma hgroups hrest => exact (parseVector_behindComma hgroups).trans (if_neg hrest)
  | behindGroup hgroups hgroup hrest =>
      exact (parseVector_behindGroup hgroups hgroup).trans (if_neg hrest)

/-- Every result of `parse_vector(text)` is bytes, an error about the punctuation, or an exception
that is not one of the debugger. -/
theorem parseVector_outcome (text : Text) :
    (∃ bytes, parseVector text = .ok bytes) ∨ MispunctuatedVector text ∨
      parseVector text = .error (.exception "bad_optional_access") := by
  by_cases hopen : text.head? = some (charByte '[')
  · obtain ⟨text, rfl⟩ := List.head?_eq_some_iff.mp hopen
    rcases parseBytes_outcome (text.length + 2) text (by omega) with
      ⟨groups, rest, bytes, hgroups, rfl | ⟨group, hgroup, rfl⟩, -⟩ |
      ⟨groups, group, rest, hgroups, hgroup, rfl, hcomma, hbracket, -⟩ | hthrown
    · by_cases hrest : rest = []
      · exact .inl ⟨_, (parseVector_behindComma hgroups).trans (if_pos hrest)⟩
      · exact .inr (.inl (.behindComma hgroups hrest))
    · by_cases hrest : rest = []
      · exact .inl ⟨_, (parseVector_behindGroup hgroups hgroup).trans (if_pos hrest)⟩
      · exact .inr (.inl (.behindGroup hgroups hgroup hrest))
    · exact .inr (.inl (.separator hgroups hgroup hcomma hbracket))
    · right
      right
      rw [parseVector_cons, hthrown]
      rfl
  · exact .inr (.inl (.opening hopen))

/-- A parser that reads the texts of a grammar, and ends with an error exactly for some texts,
does what the grammar says for these and those. -/
theorem accepts_iff {grammar : List Byte → Prop} {result : Except Failure (List Byte)}
    {refused : Prop} (hread : ∀ bytes, grammar bytes → result = .ok bytes)
    (hrefused : refused ↔ ∃ what, result = .error (.error what)) :
    Accepts grammar result ↔ (∃ bytes, grammar bytes) ∨ refused := by
  constructor
  · intro h
    by_cases hin : ∃ bytes, grammar bytes
    · exact .inl hin
    · exact .inr (hrefused.mpr (h.2 hin))
  · rintro (⟨bytes, hin⟩ | hout)
    · have hresult := hread bytes hin
      refine ⟨fun other => ⟨fun hother => ?_, hread other⟩, fun hnone => absurd ⟨bytes, hin⟩ hnone⟩
      cases hresult.symm.trans hother
      exact hin
    · obtain ⟨what, hresult⟩ := hrefused.mp hout
      refine ⟨fun bytes => ⟨fun hok => ?_, hread bytes⟩, fun _ => ⟨what, hresult⟩⟩
      cases hresult.symm.trans hok

theorem mispunctuatedVector_iff :
    MispunctuatedVector text ↔ ∃ what, parseVector text = .error (.error what) := by
  constructor
  · intro h
    exact ⟨_, parseVector_mispunctuated h⟩
  · rintro ⟨what, herror⟩
    rcases parseVector_outcome text with ⟨bytes, hok⟩ | h | hthrown
    · cases herror.symm.trans hok
    · exact h
    · cases herror.symm.trans hthrown

end Vectors

section Arrays

variable {group rest text : Text} {bytes : List Byte} {groups : List Text} {size count i : Nat}

theorem storeInArray_of_lt (h : i < size) : storeInArray size i = .ok ⟨⟩ := if_pos h

theorem parseGroups_taken (hgroup : IsTaken group) (hstore : i < size) (next : Byte) :
    parseGroups size (count + 1) i (group ++ next :: rest) =
      if next = charByte ',' then
        (parseGroups size count (i + 1) rest).map fun out => (groupByte group :: out.1, out.2)
      else .error (.error "Invalid format!") := by
  obtain ⟨hdrop, hdrop'⟩ := hgroup.drop (next :: rest)
  rw [parseGroups, byteValue_taken hgroup, ok_bind, storeInArray_of_lt hstore, ok_bind]
  simp only [hdrop, hdrop', charAt, List.head?_cons, inBounds_some, ok_bind, List.drop_succ_cons,
    List.drop_zero]
  by_cases hcomma : next = charByte ','
  · rw [if_pos hcomma, require, if_pos hcomma]
    cases parseGroups size count (i + 1) rest <;> rfl
  · rw [if_neg hcomma, require, if_neg hcomma]
    rfl

theorem parseGroups_leading (hgroups : ∀ g ∈ groups, IsTaken g) :
    ∀ i, i + groups.length ≤ size → ∀ c, parseGroups size (count + groups.length) i
      (leading groups ++ c) = (parseGroups size count (i + groups.length) c).map
        fun out => (groups.map groupByte ++ out.1, out.2) := by
  induction groups with
  | nil =>
      intro i hsize c
      change parseGroups size count i c = (parseGroups size count i c).map fun out => (out.1, out.2)
      cases parseGroups size count i c <;> rfl
  | cons group groups ih =>
      intro i hsize c
      rw [List.length_cons] at hsize
      have hothers := ih (fun g hg => hgroups g (List.mem_cons_of_mem group hg)) (i + 1)
        (by omega) c
      have hplace : i + 1 + groups.length = i + (groups.length + 1) := by omega
      rw [leading_cons, List.length_cons, ← Nat.add_assoc,
        parseGroups_taken (hgroups group List.mem_cons_self) (by omega), if_pos rfl, hothers,
        hplace]
      cases parseGroups size count (i + (groups.length + 1)) c <;> rfl

/-- How the loop of `parse_vector<N>(text)` can end: behind so many groups, at a separator that
is none, or at something that it does not take for a byte. -/
def GroupsEnd (count : Nat) (text : Text) (result : Except Failure (List Byte × Text)) : Prop :=
  (∃ groups rest, (∀ g ∈ groups, IsTaken g) ∧ groups.length = count ∧
    text = leading groups ++ rest ∧ result = .ok (groups.map groupByte, rest ++ [0])) ∨
  (∃ groups group rest, (∀ g ∈ groups, IsTaken g) ∧ groups.length < count ∧ IsTaken group ∧
    text = leading groups ++ (group ++ rest) ∧ rest.head? ≠ some (charByte ',')) ∨
  result = .error (.exception "bad_optional_access")

theorem GroupsEnd.cons {result : Except Failure (List Byte × Text)} (hgroup : IsTaken group)
    (h : GroupsEnd count text result) : GroupsEnd (count + 1) (group ++ charByte ',' :: text)
      (result.map fun out => (groupByte group :: out.1, out.2)) := by
  have hall : ∀ {groups : List Text}, (∀ g ∈ groups, IsTaken g) →
      ∀ g ∈ group :: groups, IsTaken g := fun hgroups => by simpa using ⟨hgroup, hgroups⟩
  rcases h with ⟨groups, tail, hgroups, hcount, rfl, rfl⟩ |
    ⟨groups, other, tail, hgroups, hcount, hother, rfl, hhead⟩ | rfl
  · left
    exact ⟨group :: groups, tail, hall hgroups, congrArg (· + 1) hcount,
      (leading_cons _ _ _).symm, rfl⟩
  · right
    left
    exact ⟨group :: groups, other, tail, hall hgroups, Nat.succ_lt_succ hcount, hother,
      (leading_cons _ _ _).symm, hhead⟩
  · right
    right
    rfl

theorem parseGroups_outcome (size count : Nat) : ∀ (i : Nat) (text : Text), i + count ≤ size →
    GroupsEnd count text (parseGroups size count i (text ++ [0])) := by
  induction count with
  | zero =>
      intro i text hsize
      exact .inl ⟨[], text, by simp, rfl, rfl, rfl⟩
  | succ count ih =>
      intro i text hsize
      rcases byteValue_text text with ⟨group, rest, rfl, hgroup, -⟩ | hthrown
      · cases rest with
        | nil => exact .inr (.inl ⟨[], group, [], by simp, by simp, hgroup, rfl, by simp⟩)
        | cons next rest =>
            by_cases hcomma : next = charByte ','
            · subst hcomma
              rw [List.append_assoc, List.cons_append, parseGroups_taken hgroup (by omega),
                if_pos rfl]
              exact (ih (i + 1) rest (by omega)).cons hgroup
            · refine .inr (.inl ⟨[], group, next :: rest, by simp, by simp, hgroup, rfl, ?_⟩)
              simpa using hcomma
      · right
        right
        rw [parseGroups, hthrown]
        rfl

theorem parseVectorN_opening {size : Word} (h : text.head? ≠ some (charByte '[')) :
    parseVectorN size text = .error (.error "Invalid format!") := by
  obtain ⟨first, hfirst, hne⟩ := charAt_other h (by decide)
  rw [parseVectorN, hfirst, ok_bind, require, if_neg hne]
  rfl

/-- What is left to do behind the bracket. -/
theorem parseVectorN_cons (size : Word) (text : Text) :
    parseVectorN size (charByte '[' :: text) = (do
      let out ← parseGroups size.toNat (size - 1).toNat 0 (text ++ [0])
      let last ← byteValue out.2
      storeInArray size.toNat (size - 1).toNat
      let bracket ← charAt (out.2.drop 4)
      require (bracket = charByte ']') "Invalid format!"
      require ((out.2.drop 5).length = 1) "Invalid format!"
      pure (out.1 ++ [last])) := rfl

theorem lastIndex (size : Word) (hsize : size ≠ 0) : (size - 1).toNat = size.toNat - 1 ∧
    0 < size.toNat := by
  constructor <;> bv_omega

/-- An array without elements has no place for a byte. -/
theorem parseVectorN_zero (text : Text) :
    parseVectorN 0 (charByte '[' :: text) = .error (.undefined "write outside the array") ∨
      parseVectorN 0 (charByte '[' :: text) = .error (.exception "bad_optional_access") := by
  obtain ⟨count, hcount⟩ : ∃ k, ((0 : Word) - 1).toNat = k + 1 := ⟨2 ^ 64 - 2, rfl⟩
  rw [parseVectorN_cons, hcount, parseGroups]
  rcases byteValue_text text with ⟨group, rest, -, -, hread⟩ | hthrown
  · rw [hread]
    exact .inl rfl
  · rw [hthrown]
    exact .inr rfl

theorem parseVectorN_separator {size : Word} (hgroups : ∀ g ∈ groups, IsTaken g)
    (hcount : groups.length + 1 < size.toNat) (hgroup : IsTaken group)
    (hcomma : rest.head? ≠ some (charByte ',')) :
    parseVectorN size (charByte '[' :: (leading groups ++ (group ++ rest))) =
      .error (.error "Invalid format!") := by
  obtain ⟨hlast, -⟩ := lastIndex size (by rintro rfl; simp at hcount)
  obtain ⟨count, hleft⟩ : ∃ k, (size - 1).toNat = k + 1 + groups.length :=
    ⟨(size - 1).toNat - 1 - groups.length, by omega⟩
  have hnext : ∃ next tail, rest ++ [0] = next :: tail ∧ next ≠ charByte ',' := by
    cases rest with
    | nil => exact ⟨0, [], rfl, by decide⟩
    | cons next rest => exact ⟨next, rest ++ [0], rfl, by simpa using hcomma⟩
  obtain ⟨next, tail, htail, hne⟩ := hnext
  rw [parseVectorN_cons, hleft, List.append_assoc, parseGroups_leading hgroups 0 (by omega),
    List.append_assoc, htail, parseGroups_taken hgroup (by omega), if_neg hne]
  rfl

theorem parseVectorN_closing {size : Word} (hgroups : ∀ g ∈ groups, IsTaken g)
    (hcount : groups.length + 1 = size.toNat) (hgroup : IsTaken group) :
    parseVectorN size (charByte '[' :: (leading groups ++ (group ++ rest))) =
      if rest = [charByte ']'] then .ok (groups.map groupByte ++ [groupByte group])
      else .error (.error "Invalid format!") := by
  obtain ⟨hlast, hpos⟩ := lastIndex size (by rintro rfl; cases hcount)
  have hleft : (size - 1).toNat = 0 + groups.length := by omega
  obtain ⟨hdrop, hdrop'⟩ := hgroup.drop (rest ++ [0])
  rw [parseVectorN_cons, hleft, List.append_assoc, parseGroups_leading hgroups 0 (by omega)]
  simp only [parseGroups, Except.map, ok_bind, List.append_nil, List.append_assoc,
    byteValue_taken hgroup,
    storeInArray_of_lt (show 0 + groups.length < size.toNat by omega), hdrop, hdrop']
  cases rest with
  | nil => rfl
  | cons next rest =>
      simp only [charAt, List.cons_append, List.head?_cons, inBounds_some, ok_bind,
        List.drop_succ_cons, List.drop_zero, List.length_append, List.length_singleton]
      by_cases hbracket : next = charByte ']'
      · subst hbracket
        rw [require, if_pos rfl, ok_bind, require]
        cases rest with
        | nil => rfl
        | cons other rest =>
            rw [if_neg (by rw [List.length_cons]; omega), if_neg (by simp)]
            rfl
      · rw [require, if_neg hbracket, if_neg (by simp [hbracket])]
        rfl

theorem mispunctuatedArray_iff {size : Word} :
    MispunctuatedArray size.toNat text ↔
      ∃ what, parseVectorN size text = .error (.error what) := by
  constructor
  · intro h
    cases h with
    | opening h => exact ⟨_, parseVectorN_opening h⟩
    | separator hgroups hcount hgroup hcomma =>
        exact ⟨_, parseVectorN_separator hgroups hcount hgroup hcomma⟩
    | closing hgroups hcount hgroup hrest =>
        exact ⟨_, (parseVectorN_closing hgroups hcount hgroup).trans (if_neg hrest)⟩
  · rintro ⟨what, herror⟩
    by_cases hopen : text.head? = some (charByte '[')
    · obtain ⟨text, rfl⟩ := List.head?_eq_some_iff.mp hopen
      by_cases hsize : size = 0
      · subst hsize
        rcases parseVectorN_zero text with hthrown | hthrown
        · cases herror.symm.trans hthrown
        · cases herror.symm.trans hthrown
      obtain ⟨hlast, hpos⟩ := lastIndex size hsize
      rcases parseGroups_outcome size.toNat (size - 1).toNat 0 text (by omega) with
        ⟨groups, rest, hgroups, hcount, rfl, hparsed⟩ |
        ⟨groups, group, rest, hgroups, hcount, hgroup, rfl, hcomma⟩ | hthrown
      · rcases byteValue_text rest with ⟨group, tail, rfl, hgroup, -⟩ | hthrown
        · refine .closing hgroups (by omega) hgroup ?_
          rintro rfl
          rw [parseVectorN_closing hgroups (by omega) hgroup, if_pos rfl] at herror
          cases herror
        · rw [parseVectorN_cons, hparsed, ok_bind, hthrown] at herror
          cases herror
      · exact .separator hgroups (by omega) hgroup hcomma
      · rw [parseVectorN_cons, hthrown] at herror
        cases herror
    · exact .opening hopen

/-- A text in the grammar with as many bytes as the array has elements. -/
theorem parseVectorN_of_isVector {size : Word} (h : IsVector text bytes)
    (hsize : size ≠ 0) (hlength : bytes.length = size.toNat) :
    parseVectorN size text = .ok bytes := by
  cases h with
  | empty =>
      have hzero : size = 0 := BitVec.eq_of_toNat_eq hlength.symm
      exact absurd hzero hsize
  | list hbody =>
      obtain ⟨groups, group, hgroups, hgroup, rfl, rfl⟩ := hbody.split
      rw [List.length_append, List.length_map] at hlength
      rw [List.append_assoc]
      exact (parseVectorN_closing hgroups hlength hgroup).trans (if_pos rfl)

theorem IsVector.opening (h : IsVector text bytes) : ∃ rest, text = charByte '[' :: rest := by
  cases h with
  | empty => exact ⟨_, rfl⟩
  | list hbody => exact ⟨_, rfl⟩

/-- An array without elements is never read. -/
theorem acceptsZero_iff (text : Text) :
    Accepts (fun bytes => IsVector text bytes ∧ bytes.length = 0) (parseVectorN 0 text) ↔
      MispunctuatedArray 0 text := by
  have hnever : ∀ rest result, parseVectorN 0 (charByte '[' :: rest) = result →
      (∀ bytes, result ≠ .ok bytes) ∧ ∀ what, result ≠ .error (.error what) := by
    rintro rest result rfl
    rcases parseVectorN_zero rest with hthrown | hthrown <;> rw [hthrown] <;>
      exact ⟨fun bytes => by simp, fun what => by simp⟩
  constructor
  · intro h
    by_cases hin : ∃ bytes, IsVector text bytes ∧ bytes.length = 0
    · obtain ⟨bytes, hin⟩ := hin
      obtain ⟨rest, rfl⟩ := hin.1.opening
      exact absurd ((h.1 bytes).mpr hin) ((hnever rest _ rfl).1 bytes)
    · exact mispunctuatedArray_iff.mpr (h.2 hin)
  · intro h
    obtain ⟨what, herror⟩ : ∃ what, parseVectorN 0 text = .error (.error what) :=
      mispunctuatedArray_iff.mp h
    refine ⟨fun bytes => ⟨fun hok => ?_, fun hin => ?_⟩, fun _ => ⟨what, herror⟩⟩
    · cases herror.symm.trans hok
    · obtain ⟨rest, rfl⟩ := hin.1.opening
      exact absurd herror ((hnever rest _ rfl).2 what)

theorem IsList.prefixed (h : IsList text bytes) :
    ∃ rest, text = charByte '0' :: charByte 'x' :: rest := by
  cases h with
  | single hgroup =>
      cases hgroup
      exact ⟨_, rfl⟩
  | cons hgroup hothers =>
      cases hgroup
      exact ⟨_, rfl⟩

end Arrays

/-- The parsers do what the grammar says for the texts in it, and for those that they find the
punctuation of wrong; an array needs an element for that. -/
theorem acceptsVectors_iff (text : Text) :
    (Accepts (IsVector text) (parseVector text) ↔
      (∃ bytes, IsVector text bytes) ∨ MispunctuatedVector text) ∧
    ∀ size : Word, Accepts (fun bytes => IsVector text bytes ∧ bytes.length = size.toNat)
        (parseVectorN size text) ↔
      (size ≠ 0 ∧ ∃ bytes, IsVector text bytes ∧ bytes.length = size.toNat) ∨
        MispunctuatedArray size.toNat text := by
  refine ⟨accepts_iff (fun bytes => parseVector_of_isVector) mispunctuatedVector_iff,
    fun size => ?_⟩
  by_cases hsize : size = 0
  · subst hsize
    refine (acceptsZero_iff text).trans ⟨.inr, fun h => ?_⟩
    rcases h with ⟨hne, -⟩ | h
    · exact absurd rfl hne
    · exact h
  · refine (accepts_iff (fun bytes hin => parseVectorN_of_isVector hin.1 hsize hin.2)
      mispunctuatedArray_iff).trans ?_
    exact ⟨fun h => h.imp (fun hin => ⟨hsize, hin⟩) id, fun h => h.imp (fun hin => hin.2) id⟩

/-- Four digits without a prefix are read as a byte. -/
theorem bare_digits_read : ¬ ∀ text, Accepts (IsVector text) (parseVector text) := by
  intro hall
  have hread : parseVector (ascii "[0041]") = .ok [0x41] := by decide
  have hvector := ((hall (ascii "[0041]")).1 [0x41]).mp hread
  generalize htext : ascii "[0041]" = text at hvector
  cases hvector with
  | list hbody =>
      obtain ⟨rest, rfl⟩ := hbody.prefixed
      have hthird : (ascii "[0041]")[2]? = some (charByte 'x') := by
        rw [htext]
        rfl
      exact absurd hthird (by decide)

end Gsdb
