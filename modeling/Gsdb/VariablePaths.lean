/-
Which texts are paths into a variable, and which ones the loop of `resolve_indirect_name`
gets through.
-/
import Gsdb.IndirectNames

namespace Gsdb

open ByteMemory

/-- A name that ends before certain characters. -/
def IsName (stops name : Text) : Prop := name ≠ [] ∧ ∀ c ∈ name, c ∉ stops

/-- What follows the name of a variable: members, members of what pointers point to, and
indices, with nothing else between or behind them. -/
inductive IsTail : Text → List PathOperation → Prop where
  | done : IsTail [] []
  | member {name rest : Text} {ops : List PathOperation} (hname : IsName memberStops name)
      (hrest : IsTail rest ops) :
      IsTail (charByte '.' :: (name ++ rest)) (.readMember name :: ops)
  | arrow {name rest : Text} {ops : List PathOperation} (hname : IsName memberStops name)
      (hrest : IsTail rest ops) :
      IsTail (charByte '-' :: charByte '>' :: (name ++ rest))
        (.derefPointer :: .readMember name :: ops)
  | index {digits rest : Text} {ops : List PathOperation} (hsome : digits ≠ [])
      (hdigits : ∀ c ∈ digits, isDigitOf 10 c = true) (hrest : IsTail rest ops) :
      IsTail (charByte '[' :: (digits ++ charByte ']' :: rest))
        (.index (magnitude 10 digits) :: ops)

/-- A path into a variable. -/
def IsPath (text name : Text) (ops : List PathOperation) : Prop :=
  ∃ rest, text = name ++ rest ∧ IsName pathOperators name ∧ IsTail rest ops

/-- Indices that a `std::size_t` can be. -/
def InRange (ops : List PathOperation) : Prop := ∀ i, .index i ∈ ops → i < 2 ^ 64

/-- The name of the member that the loop takes behind an operator. -/
def memberName (text : Text) : Text := text.takeWhile (· ∉ memberStops)

/-- The texts that the loop gets through, and the operations it finds: it passes over
everything in front of an operator. -/
inductive Scans : Text → List PathOperation → Prop where
  | done {skipped : Text} (hskipped : ∀ c ∈ skipped, c ∉ pathOperators) : Scans skipped []
  | member {skipped rest : Text} {ops : List PathOperation}
      (hskipped : ∀ c ∈ skipped, c ∉ pathOperators) (hrest : Scans rest ops) :
      Scans (skipped ++ charByte '.' :: rest) (.readMember (memberName rest) :: ops)
  | arrow {skipped rest : Text} {ops : List PathOperation}
      (hskipped : ∀ c ∈ skipped, c ∉ pathOperators) (hrest : Scans rest ops) :
      Scans (skipped ++ charByte '-' :: charByte '>' :: rest)
        (.derefPointer :: .readMember (memberName rest) :: ops)
  | index {skipped number rest : Text} {i : Int} {ops : List PathOperation}
      (hskipped : ∀ c ∈ skipped, c ∉ pathOperators) (hnumber : charByte ']' ∉ number)
      (hindex : toIntegral ⟨false, 64⟩ number 10 = some i) (hrest : Scans rest ops) :
      Scans (skipped ++ charByte '[' :: (number ++ charByte ']' :: rest)) (.index i.toNat :: ops)

/-- A text that begins with an operator, or is empty: it names no variable. -/
def Unnamed (text : Text) : Prop := text.takeWhile (· ∉ pathOperators) = []

/-- Whatever variables there are, a text that is resolved is a path into one of them, and
the operations on its value are those of the path. -/
def ParsedExactly (text : Text) : Prop :=
  ∀ (lookup : VariableLookup) (env : ValueEnv) (m : Machine)
    (result : ResolvedName (TypedData × Text × List PathOperation)),
    (lookup.access env m).logged.resolveIndirectName text = .ok result →
    ∃ value name ops, result = ⟨some (value, name, ops), []⟩ ∧ IsPath text name ops

section Searching

variable {before middle rest stops : Text} {c : Byte}

theorem findFirstOf_append (hmiddle : ∀ x ∈ middle, x ∉ stops) (hc : c ∈ stops) :
    findFirstOf (before ++ (middle ++ c :: rest)) stops before.length =
      some (before.length + middle.length) := by
  have hnone : middle.findIdx? (· ∈ stops) = none :=
    List.findIdx?_eq_none_iff.mpr fun x hx => decide_eq_false (hmiddle x hx)
  rw [findFirstOf, List.drop_left, List.findIdx?_append, hnone, List.findIdx?_cons,
    if_pos (decide_eq_true hc)]
  simp

theorem findFirstOf_start (hmiddle : ∀ x ∈ middle, x ∉ stops) (hc : c ∈ stops) :
    findFirstOf (middle ++ c :: rest) stops 0 = some middle.length := by
  have hfirst := @findFirstOf_append [] middle rest stops c hmiddle hc
  rwa [List.nil_append, List.length_nil, Nat.zero_add] at hfirst

theorem findFirstOf_none {text : Text} {pos : Nat} (h : ∀ x ∈ text.drop pos, x ∉ stops) :
    findFirstOf text stops pos = none := by
  rw [findFirstOf, List.findIdx?_eq_none_iff.mpr fun x hx => decide_eq_false (h x hx)]
  rfl

/-- A text has an operator in it or not. -/
theorem exists_operator (text stops : Text) :
    (∀ x ∈ text, x ∉ stops) ∨ ∃ before c rest, text = before ++ c :: rest ∧
      (∀ x ∈ before, x ∉ stops) ∧ c ∈ stops := by
  induction text with
  | nil => exact .inl fun x hx => absurd hx List.not_mem_nil
  | cons first text ih =>
      by_cases hfirst : first ∈ stops
      · exact .inr ⟨[], first, text, rfl, fun x hx => absurd hx List.not_mem_nil, hfirst⟩
      · rcases ih with hnone | ⟨before, c, rest, rfl, hbefore, hc⟩
        · exact .inl (List.forall_mem_cons.mpr ⟨hfirst, hnone⟩)
        · exact .inr ⟨first :: before, c, rest, rfl,
            List.forall_mem_cons.mpr ⟨hfirst, hbefore⟩, hc⟩

theorem takeWhile_append_stop (hmiddle : ∀ x ∈ middle, x ∉ stops) (hc : c ∈ stops) :
    (middle ++ c :: rest).takeWhile (· ∉ stops) = middle := by
  rw [List.takeWhile_append_of_pos fun x hx => decide_eq_true (hmiddle x hx),
    List.takeWhile_cons_of_neg (by simp [hc]), List.append_nil]

theorem takeWhile_all {text : Text} (h : ∀ x ∈ text, x ∉ stops) :
    text.takeWhile (· ∉ stops) = text :=
  List.takeWhile_eq_self_iff.mpr fun x hx => decide_eq_true (h x hx)

/-- What is cut out up to one of some characters. -/
theorem substr_findFirstOf (text stops : Text) (pos : Nat) :
    substr text pos (findFirstOf text stops pos) = (text.drop pos).takeWhile (· ∉ stops) := by
  rw [findFirstOf]
  rcases exists_operator (text.drop pos) stops with hnone | ⟨before, c, rest, htext, hbefore, hc⟩
  · rw [List.findIdx?_eq_none_iff.mpr fun x hx => decide_eq_false (hnone x hx), takeWhile_all hnone]
    rfl
  · have hfirst : (before ++ c :: rest).findIdx? (· ∈ stops) = some before.length := by
      have hstart := @findFirstOf_start _ rest _ _ hbefore hc
      rw [findFirstOf, List.drop_zero] at hstart
      simpa using hstart
    rw [htext, hfirst, takeWhile_append_stop hbefore hc]
    change (text.drop pos).take (pos + before.length - pos) = before
    rw [htext, Nat.add_sub_cancel_left, List.take_left]

end Searching

section Steps

variable {D : Type} {access : Access D} {name before rest : Text} {opPos : Nat} {data : D}

theorem getElem?_before (before rest : Text) (c : Byte) :
    (before ++ c :: rest)[before.length]? = some c := by
  rw [List.getElem?_append_right (Nat.le_refl _), Nat.sub_self]
  rfl

theorem drop_behind (before rest : Text) (c : Byte) :
    (before ++ c :: rest).drop (before.length + 1) = rest := by
  rw [← List.drop_drop, List.drop_left]
  rfl

/-- The next stop is not a parenthesis. -/
theorem stop_ne_parenthesis {stops : Text} {start : Nat} (h : charByte '(' ∉ name) :
    (findFirstOf name stops start).bind (fun pos => name[pos]?) ≠ some (charByte '(') := by
  intro heq
  obtain ⟨pos, -, hthere⟩ := Option.bind_eq_some_iff.mp heq
  exact h (List.mem_of_getElem? hthere)

/-- A member is read, and the text goes on with its name. -/
theorem memberStep_eq (hparenthesis : charByte '(' ∉ name)
    (hrest : name.drop (opPos + 1) = rest) :
    access.memberStep name opPos data = (do
      let data ← access.readMember data (memberName rest)
      pure (.continues rest data)) := by
  rw [Access.memberStep, if_neg (stop_ne_parenthesis hparenthesis), substr_findFirstOf, hrest]
  rfl

theorem selectStep_member {op : Byte} (hop : name[opPos]? = some op)
    (hmember : op = charByte '.' ∨ op = charByte '>') :
    access.selectStep name opPos data = access.memberStep name opPos data := by
  rw [Access.selectStep, hop, Option.getD_some, if_pos hmember]

theorem pathStep_member (hname : name = before ++ charByte '.' :: rest)
    (hparenthesis : charByte '(' ∉ name) :
    access.pathStep name before.length data = (do
      let data ← access.readMember data (memberName rest)
      pure (.continues rest data)) := by
  have hop : name[before.length]? = some (charByte '.') := hname ▸ getElem?_before before rest _
  have hrest : name.drop (before.length + 1) = rest := hname ▸ drop_behind before rest _
  rw [Access.pathStep, hop, if_neg (by decide), selectStep_member hop (.inl rfl),
    memberStep_eq hparenthesis hrest]

theorem pathStep_arrow (hname : name = before ++ charByte '-' :: charByte '>' :: rest)
    (hparenthesis : charByte '(' ∉ name) :
    access.pathStep name before.length data = (do
      let data ← access.derefPointer data
      let data ← access.readMember data (memberName rest)
      pure (.continues rest data)) := by
  have hop : name[before.length]? = some (charByte '-') := hname ▸ getElem?_before before _ _
  have hsplit : name = (before ++ [charByte '-']) ++ charByte '>' :: rest := by
    rw [hname, List.append_assoc]
    rfl
  have hlength : (before ++ [charByte '-']).length = before.length + 1 := by
    rw [List.length_append, List.length_singleton]
  have hnext : name[before.length + 1]? = some (charByte '>') := by
    rw [hsplit, ← hlength]
    exact getElem?_before _ rest _
  have hrest : name.drop (before.length + 1 + 1) = rest := by
    rw [hsplit, ← hlength]
    exact drop_behind _ rest _
  rw [Access.pathStep, if_pos hop, if_neg (not_not_intro hnext)]
  simp only [selectStep_member hnext (.inr rfl), memberStep_eq hparenthesis hrest]

/-- A minus sign is half an arrow. -/
theorem pathStep_minus (hop : name[opPos]? = some (charByte '-'))
    (hnext : name[opPos + 1]? ≠ some (charByte '>')) :
    access.pathStep name opPos data = .error (.error "Invalid operator!") := by
  rw [Access.pathStep, if_pos hop, if_pos hnext]

theorem pathStep_bracket (hop : name[opPos]? = some (charByte '[')) :
    access.pathStep name opPos data = access.indexStep name opPos data := by
  rw [Access.pathStep, hop, if_neg (by decide), Access.selectStep, hop, Option.getD_some,
    if_neg (by decide), if_pos rfl]

theorem pathStep_index {number : Text}
    (hname : name = before ++ charByte '[' :: (number ++ charByte ']' :: rest))
    (hnumber : charByte ']' ∉ number) :
    access.pathStep name before.length data = access.indexWith number rest data := by
  have hop : name[before.length]? = some (charByte '[') := hname ▸ getElem?_before before _ _
  have hstop : ∀ c ∈ charByte '[' :: number, c ∉ [charByte ']'] := by
    intro c hmem heq
    rw [List.mem_singleton.mp heq] at hmem
    rcases List.mem_cons.mp hmem with hfirst | hlater
    · exact absurd hfirst (by decide)
    · exact hnumber hlater
  have hend : findFirstOf name [charByte ']'] before.length =
      some (before.length + (number.length + 1)) := by
    have hfound := @findFirstOf_append before _ rest _ _ hstop (List.mem_singleton_self _)
    rwa [List.cons_append, ← hname] at hfound
  have htext : substr name (before.length + 1) (some (before.length + (number.length + 1))) =
      number := by
    rw [substr, hname, drop_behind,
      show before.length + (number.length + 1) - (before.length + 1) = number.length by omega,
      List.take_left]
  have hrest : name.drop (before.length + (number.length + 1) + 1) = rest := by
    have hsplit : name = (before ++ charByte '[' :: number) ++ charByte ']' :: rest := by
      rw [hname, List.append_assoc]
      rfl
    rw [hsplit]
    have hdrop := drop_behind (before ++ charByte '[' :: number) rest (charByte ']')
    rwa [List.length_append, List.length_cons] at hdrop
  rw [pathStep_bracket hop, Access.indexStep, hend]
  dsimp only
  rw [htext, hrest]

theorem pathStep_unclosed (hop : name[opPos]? = some (charByte '['))
    (hopen : charByte ']' ∉ name.drop opPos) :
    access.pathStep name opPos data = .error (.error "Invalid []!") := by
  have hnone : findFirstOf name [charByte ']'] opPos = none :=
    findFirstOf_none fun x hx heq => hopen (List.mem_singleton.mp heq ▸ hx)
  rw [pathStep_bracket hop, Access.indexStep, hnone]

end Steps

section Following

variable {D : Type} {access : Access D} {text : Text} {ops : List PathOperation}

theorem followPath_continues {name rest : Text} {opPos rounds : Nat} {data : D}
    {next : Except Failure D} (h : access.pathStep name opPos data = (do
      let data ← next
      pure (.continues rest data))) :
    access.followPath (rounds + 1) name (some opPos) data =
      next >>= access.followPath rounds rest (findFirstOf rest pathOperators 0) := by
  rw [Access.followPath, h]
  cases next with
  | error failure => rfl
  | ok data => rfl

theorem followPath_fails {name : Text} {opPos rounds : Nat} {data : D} {failure : Failure}
    (h : access.pathStep name opPos data = .error failure) :
    access.followPath (rounds + 1) name (some opPos) data = .error failure := by
  rw [Access.followPath, h]
  rfl

theorem not_mem_behind {before rest : Text} {c x : Byte} (h : x ∉ before ++ c :: rest) :
    x ∉ rest :=
  fun hmem => h (List.mem_append_right _ (List.mem_cons_of_mem _ hmem))

/-- The operations of a text that can be scanned are applied, in order. -/
theorem Scans.followPath (h : Scans text ops) (hparenthesis : charByte '(' ∉ text) {rounds : Nat}
    (hrounds : text.length < rounds) (data : D) :
    access.followPath rounds text (findFirstOf text pathOperators 0) data =
      (access.applyAll ops data).map fun data => ⟨some data, []⟩ := by
  induction h generalizing rounds data with
  | @done skipped hskipped =>
      rw [findFirstOf_none (by rwa [List.drop_zero])]
      cases rounds <;> rfl
  | @member skipped rest ops hskipped _ ih =>
      obtain ⟨rounds, rfl⟩ := Nat.exists_eq_succ_of_ne_zero (Nat.ne_zero_of_lt hrounds)
      rw [List.length_append, List.length_cons] at hrounds
      rw [findFirstOf_start hskipped (by decide),
        followPath_continues (pathStep_member rfl hparenthesis), Access.applyAll, Access.apply]
      cases access.readMember data (memberName rest) with
      | error failure => rfl
      | ok data => exact ih (not_mem_behind hparenthesis) (by omega) data
  | @arrow skipped rest ops hskipped _ ih =>
      obtain ⟨rounds, rfl⟩ := Nat.exists_eq_succ_of_ne_zero (Nat.ne_zero_of_lt hrounds)
      rw [List.length_append, List.length_cons, List.length_cons] at hrounds
      have hrest : charByte '(' ∉ rest := fun hmem =>
        not_mem_behind hparenthesis (List.mem_cons_of_mem _ hmem)
      have hstep : access.pathStep (skipped ++ charByte '-' :: charByte '>' :: rest)
          skipped.length data = (do
            let data ← access.derefPointer data >>= fun target =>
              access.readMember target (memberName rest)
            pure (.continues rest data)) := by
        rw [pathStep_arrow rfl hparenthesis, bind_assoc]
      rw [findFirstOf_start hskipped (by decide), followPath_continues hstep, Access.applyAll,
        Access.apply]
      cases access.derefPointer data with
      | error failure => rfl
      | ok target =>
          rw [ok_bind, ok_bind, Access.applyAll, Access.apply]
          cases access.readMember target (memberName rest) with
          | error failure => rfl
          | ok data => exact ih hrest (by omega) data
  | @index skipped number rest i ops hskipped hnumber hindex _ ih =>
      obtain ⟨rounds, rfl⟩ := Nat.exists_eq_succ_of_ne_zero (Nat.ne_zero_of_lt hrounds)
      simp only [List.length_append, List.length_cons] at hrounds
      have hrest : charByte '(' ∉ rest := fun hmem =>
        not_mem_behind hparenthesis (List.mem_append_right _ (List.mem_cons_of_mem _ hmem))
      have hstep : access.pathStep (skipped ++ charByte '[' :: (number ++ charByte ']' :: rest))
          skipped.length data = (do
            let data ← access.index data i.toNat
            pure (.continues rest data)) := by
        rw [pathStep_index rfl hnumber, Access.indexWith, hindex]
      rw [findFirstOf_start hskipped (by decide), followPath_continues hstep, Access.applyAll,
        Access.apply]
      cases access.index data i.toNat with
      | error failure => rfl
      | ok data => exact ih hrest (by omega) data

theorem not_ok_of_fails {name : Text} {opPos rounds : Nat} {data : D} {failure : Failure}
    {result : ResolvedName D} (h : access.pathStep name opPos data = .error failure) :
    access.followPath (rounds + 1) name (some opPos) data ≠ .ok result := by
  rw [followPath_fails h]
  intro heq
  cases heq

/-- A loop that gets past a minus sign was at an arrow. -/
theorem arrow_of_followPath {skipped rest : Text} {rounds : Nat} {data : D}
    {result : ResolvedName D} (hparenthesis : charByte '(' ∉ skipped ++ charByte '-' :: rest)
    (h : access.followPath (rounds + 1) (skipped ++ charByte '-' :: rest) (some skipped.length)
      data = .ok result) :
    ∃ behind data', rest = charByte '>' :: behind ∧
      access.followPath rounds behind (findFirstOf behind pathOperators 0) data' = .ok result := by
  by_cases harrow : ∃ behind, rest = charByte '>' :: behind
  · obtain ⟨behind, rfl⟩ := harrow
    rw [Access.followPath, pathStep_arrow rfl hparenthesis] at h
    obtain ⟨step, hstep, hrest⟩ := bind_eq_ok.mp h
    obtain ⟨target, -, hread⟩ := bind_eq_ok.mp hstep
    obtain ⟨data', -, hcontinues⟩ := bind_eq_ok.mp hread
    cases hcontinues
    exact ⟨behind, data', rfl, hrest⟩
  · refine absurd h (not_ok_of_fails (pathStep_minus (getElem?_before skipped rest _) ?_))
    intro hnext
    rw [List.getElem?_append_right (Nat.le_add_right _ 1), Nat.add_sub_cancel_left,
      List.getElem?_cons_succ] at hnext
    cases rest with
    | nil => cases hnext
    | cons first behind => exact harrow ⟨behind, by rw [Option.some.inj hnext]⟩

/-- A loop that gets past an opening bracket was at a number in brackets. -/
theorem index_of_followPath {skipped rest : Text} {rounds : Nat} {data : D}
    {result : ResolvedName D}
    (h : access.followPath (rounds + 1) (skipped ++ charByte '[' :: rest) (some skipped.length)
      data = .ok result) :
    ∃ number behind i data', rest = number ++ charByte ']' :: behind ∧ charByte ']' ∉ number ∧
      toIntegral ⟨false, 64⟩ number 10 = some i ∧
      access.followPath rounds behind (findFirstOf behind pathOperators 0) data' = .ok result := by
  rcases exists_operator rest [charByte ']'] with hopen | ⟨number, c, behind, rfl, hnumber, hc⟩
  · refine absurd h (not_ok_of_fails (pathStep_unclosed (getElem?_before skipped rest _) ?_))
    rw [List.drop_left]
    intro hmem
    rcases List.mem_cons.mp hmem with hfirst | hlater
    · exact absurd hfirst (by decide)
    · exact hopen _ hlater (List.mem_singleton_self _)
  · obtain rfl := List.mem_singleton.mp hc
    have hclosed : charByte ']' ∉ number := fun hmem =>
      hnumber _ hmem (List.mem_singleton_self _)
    cases hindex : toIntegral ⟨false, 64⟩ number 10 with
    | none =>
        have hstep : access.pathStep
            (skipped ++ charByte '[' :: (number ++ charByte ']' :: behind))
            skipped.length data = .error (.error "Invalid index!") := by
          rw [pathStep_index rfl hclosed, Access.indexWith, hindex]
        exact absurd h (not_ok_of_fails hstep)
    | some i =>
        rw [Access.followPath, pathStep_index rfl hclosed, Access.indexWith, hindex] at h
        obtain ⟨step, hstep, hrest⟩ := bind_eq_ok.mp h
        obtain ⟨data', -, hcontinues⟩ := bind_eq_ok.mp hstep
        cases hcontinues
        exact ⟨number, behind, i, data', rfl, hclosed, hindex, hrest⟩

/-- Where the loop comes to an end, it has scanned its text. -/
theorem scans_of_followPath {rounds : Nat} {data : D} {result : ResolvedName D}
    (hparenthesis : charByte '(' ∉ text)
    (h : access.followPath rounds text (findFirstOf text pathOperators 0) data = .ok result) :
    ∃ ops, Scans text ops := by
  induction rounds generalizing text data with
  | zero =>
      rcases exists_operator text pathOperators with hnone | ⟨skipped, c, rest, rfl, hskipped, hc⟩
      · exact ⟨[], .done hnone⟩
      · rw [findFirstOf_start hskipped hc] at h
        cases h
  | succ rounds ih =>
      rcases exists_operator text pathOperators with hnone | ⟨skipped, c, rest, rfl, hskipped, hc⟩
      · exact ⟨[], .done hnone⟩
      rw [findFirstOf_start hskipped hc] at h
      have hcases : c = charByte '.' ∨ c = charByte '-' ∨ c = charByte '[' ∨ c = charByte '(' := by
        simpa [pathOperators, ascii] using hc
      have hbehind := not_mem_behind hparenthesis
      rcases hcases with rfl | rfl | rfl | rfl
      · rw [followPath_continues (pathStep_member rfl hparenthesis)] at h
        obtain ⟨data', -, hrest⟩ := bind_eq_ok.mp h
        obtain ⟨ops, hscans⟩ := ih hbehind hrest
        exact ⟨_, .member hskipped hscans⟩
      · obtain ⟨behind, data', rfl, hrest⟩ := arrow_of_followPath hparenthesis h
        obtain ⟨ops, hscans⟩ := ih (fun hmem => hbehind (List.mem_cons_of_mem _ hmem)) hrest
        exact ⟨_, .arrow hskipped hscans⟩
      · obtain ⟨number, behind, i, data', rfl, hclosed, hindex, hrest⟩ := index_of_followPath h
        obtain ⟨ops, hscans⟩ := ih (fun hmem =>
          hbehind (List.mem_append_right _ (List.mem_cons_of_mem _ hmem))) hrest
        exact ⟨_, .index hskipped hclosed hindex hscans⟩
      · exact absurd (List.mem_append_right _ List.mem_cons_self) hparenthesis

/-- A name without a call: the variable, and the path into it. -/
theorem resolveIndirectName_eq (hparenthesis : charByte '(' ∉ text) :
    access.resolveIndirectName text =
      access.initial (text.takeWhile (· ∉ pathOperators)) >>= access.followPath (text.length + 1)
        text (findFirstOf text pathOperators 0) := by
  rw [Access.resolveIndirectName, if_neg (stop_ne_parenthesis hparenthesis), substr_findFirstOf,
    List.drop_zero]

/-- The record of the operations is what was done. -/
theorem applyAll_logged (value : D × Text × List PathOperation) :
    access.logged.applyAll ops value = (access.applyAll ops value.1).map fun data =>
      (data, value.2.1, value.2.2 ++ ops) := by
  induction ops generalizing value with
  | nil =>
      obtain ⟨data, name, log⟩ := value
      rw [Access.applyAll, Access.applyAll, List.append_nil]
      rfl
  | cons op ops ih =>
      have hop : access.logged.apply op value = (access.apply op value.1).map fun data =>
          (data, value.2.1, value.2.2 ++ [op]) := by
        cases op with
        | derefPointer => exact (map_eq_pure_bind _ (access.derefPointer value.1)).symm
        | readMember name => exact (map_eq_pure_bind _ (access.readMember value.1 name)).symm
        | index i => exact (map_eq_pure_bind _ (access.index value.1 i)).symm
      rw [Access.applyAll, Access.applyAll, hop]
      cases access.apply op value.1 with
      | error failure => rfl
      | ok data =>
          change access.logged.applyAll ops (data, value.2.1, value.2.2 ++ [op]) = _
          rw [ih, List.append_assoc]
          rfl

/-- What resolving a name that can be scanned has done. -/
theorem Scans.resolve (h : Scans text ops) (hparenthesis : charByte '(' ∉ text) :
    access.logged.resolveIndirectName text = (do
      let data ← access.initial (text.takeWhile (· ∉ pathOperators))
      let data ← access.applyAll ops data
      pure ⟨some (data, text.takeWhile (· ∉ pathOperators), ops), []⟩) := by
  rw [resolveIndirectName_eq hparenthesis]
  change (access.initial _ >>= _) >>= _ = _
  cases access.initial (text.takeWhile (· ∉ pathOperators)) with
  | error failure => rfl
  | ok data =>
      change access.logged.followPath _ _ _ (data, _, []) = _
      rw [h.followPath hparenthesis (Nat.lt_succ_self _), applyAll_logged, ok_bind]
      cases access.applyAll ops data with
      | error failure => rfl
      | ok data => rfl

end Following

section Strict

variable {text name rest : Text} {ops : List PathOperation}

theorem operator_stops {c : Byte} (h : c ∈ pathOperators) : c ∈ memberStops := by
  have hall : ∀ c ∈ pathOperators, c ∈ memberStops := by decide
  exact hall c h

theorem IsTail.starts (h : IsTail rest ops) : rest = [] ∨ ∃ c behind, rest = c :: behind ∧
    c ∈ pathOperators := by
  cases h with
  | done => exact .inl rfl
  | member => exact .inr ⟨_, _, rfl, by decide⟩
  | arrow => exact .inr ⟨_, _, rfl, by decide⟩
  | index => exact .inr ⟨_, _, rfl, by decide⟩

/-- A name in front of a tail ends where the tail starts. -/
theorem takeWhile_name {stops : Text} (hname : ∀ c ∈ name, c ∉ stops)
    (hstops : ∀ c ∈ pathOperators, c ∈ stops) (h : IsTail rest ops) :
    (name ++ rest).takeWhile (· ∉ stops) = name := by
  rcases h.starts with rfl | ⟨c, behind, rfl, hc⟩
  · rw [List.append_nil, takeWhile_all hname]
  · exact takeWhile_append_stop hname (hstops c hc)

theorem toIntegral_digits {digits : Text} (hsome : digits ≠ [])
    (hdigits : ∀ c ∈ digits, isDigitOf 10 c = true) (hrange : magnitude 10 digits < 2 ^ 64) :
    toIntegral ⟨false, 64⟩ digits 10 = some ((magnitude 10 digits : Nat) : Int) := by
  have hnumeral : Numeral ⟨false, 64⟩ 10 digits (magnitude 10 digits) :=
    .plain digits hsome hdigits
  have hrepresents : IntegerType.Represents ⟨false, 64⟩ (magnitude 10 digits) :=
    ⟨Int.natCast_nonneg _, by exact_mod_cast hrange⟩
  obtain ⟨hrest, hvalue⟩ := fromChars_of_numeral hnumeral 0
  have hbare : withoutPrefix 10 digits = digits := if_neg fun h => absurd h.1 (by decide)
  rw [toIntegral, hbare, if_neg (not_not_intro hrest), hvalue, if_pos hrepresents]

/-- The loop finds the operations of a path. -/
theorem IsTail.scans (h : IsTail rest ops) (hrange : InRange ops) {skipped : Text}
    (hskipped : ∀ c ∈ skipped, c ∉ pathOperators) : Scans (skipped ++ rest) ops := by
  have hplain : ∀ {name : Text}, IsName memberStops name → ∀ c ∈ name, c ∉ pathOperators :=
    fun hname c hmem hop => hname.2 c hmem (operator_stops hop)
  induction h generalizing skipped with
  | done =>
      rw [List.append_nil]
      exact .done hskipped
  | @member name rest ops hname hrest ih =>
      have hlater := ih (fun i hmem => hrange i (List.mem_cons_of_mem _ hmem)) (hplain hname)
      have hscans := Scans.member hskipped hlater
      rwa [memberName, takeWhile_name hname.2 (fun _ => operator_stops) hrest] at hscans
  | @arrow name rest ops hname hrest ih =>
      have hlater := ih (fun i hmem => hrange i
        (List.mem_cons_of_mem _ (List.mem_cons_of_mem _ hmem))) (hplain hname)
      have hscans := Scans.arrow hskipped hlater
      rwa [memberName, takeWhile_name hname.2 (fun _ => operator_stops) hrest] at hscans
  | @index digits rest ops hsome hdigits hrest ih =>
      have hlater : Scans ([] ++ rest) ops := ih
        (fun i hmem => hrange i (List.mem_cons_of_mem _ hmem))
        (fun c hmem => absurd hmem List.not_mem_nil)
      have hclosed : charByte ']' ∉ digits := fun hmem =>
        absurd (hdigits _ hmem) (by decide)
      exact .index hskipped hclosed
        (toIntegral_digits hsome hdigits (hrange _ List.mem_cons_self)) hlater

/-- The indices that the loop finds are those that a `std::size_t` can be. -/
theorem Scans.inRange (h : Scans text ops) : InRange ops := by
  induction h with
  | done => exact fun i hmem => absurd hmem List.not_mem_nil
  | member _ _ ih =>
      intro i hmem
      rcases List.mem_cons.mp hmem with heq | hlater
      · cases heq
      · exact ih i hlater
  | arrow _ _ ih =>
      intro i hmem
      rcases List.mem_cons.mp hmem with heq | hlater
      · cases heq
      rcases List.mem_cons.mp hlater with heq | hlater
      · cases heq
      · exact ih i hlater
  | @index skipped number rest i ops _ _ hindex _ ih =>
      intro j hmem
      rcases List.mem_cons.mp hmem with heq | hlater
      · cases heq
        obtain ⟨hlow, hhigh⟩ := toIntegral_represents hindex
        change i < 2 ^ 64 at hhigh
        omega
      · exact ih j hlater

end Strict

section Values

/-- A type of eight bytes whose values some operations can be applied to: classes with one
member, and pointers, which are numbered by how much of the path is behind them. -/
def pathType : List PathOperation → Ty
  | [] => .base none .unsigned 8
  | .readMember name :: ops => .cls .structure_ none (some 8)
      (.member (pathType ops) ⟨some (nameString name), false, some 0, none, none, none, none, none⟩
        .nil)
  | .derefPointer :: ops => .pointer ops.length
  | .index _ :: ops => .pointer ops.length

/-- What the pointers along a path point to. -/
def pathEnv (path : List PathOperation) : ValueEnv where
  pointee := fun behind => .ok (pathType (path.drop (path.length - behind)))
  floatText := fun _ => ""
  doubleText := fun _ => ""
  longDoubleText := fun _ => ""
  rounds := 0

/-- Only one variable, wherever it is looked for. -/
def pathLookup (path : List PathOperation) : VariableLookup where
  findFunctions := fun _ => .ok []
  initial := fun name =>
    if name = [] then .error (.error "Variable not found!")
    else .ok ⟨List.replicate 8 0, .dwarf (pathType path), none⟩
  memberFunctions := fun _ _ => .ok []
  unnamed := ⟨_, if_pos rfl⟩

/-- A value that some operations can be applied to. -/
structure OnPath (ops : List PathOperation) (value : TypedData) : Prop where
  size : value.data.length = 8
  type : value.type = .dwarf (pathType ops)

theorem pathType_byteSize (ops : List PathOperation) : (pathType ops).byteSize = 8 := by
  cases ops with
  | nil => rfl
  | cons op ops => cases op <;> rfl

theorem pathEnv_pointee {path ops : List PathOperation} (h : ops <:+ path) :
    (pathEnv path).pointee ops.length = .ok (pathType ops) :=
  congrArg (fun rest => Except.ok (pathType rest)) (List.suffix_iff_eq_drop.mp h).symm

theorem pathRead (address : Word) : ∃ data, data.length = 8 ∧
    readMemory (Machine.atRest fun _ => 0) address 8 = .ok data := by
  have haccessible : MemoryAccessible (Machine.atRest fun _ => 0) :=
    ⟨rfl, fun _ => rfl, by decide⟩
  exact ⟨_, Memory.read_length _ _ _, haccessible.readMemory_eight address⟩

variable {path ops : List PathOperation} {op : PathOperation} {value : TypedData}

theorem OnPath.apply (h : OnPath (op :: ops) value) (hpath : ops <:+ path) :
    ∃ next, ((pathLookup path).access (pathEnv path) (Machine.atRest fun _ => 0)).apply op value =
      .ok next ∧ OnPath ops next := by
  obtain ⟨data, type, address⟩ := value
  obtain ⟨hsize, htype⟩ := h
  subst htype
  have hpointee := pathEnv_pointee hpath
  have hbytes : fromBytes 8 data = .ok data := by
    change data.length = 8 at hsize
    rw [fromBytes, if_pos hsize.ge, List.take_of_length_le hsize.le]
  cases op with
  | derefPointer =>
      obtain ⟨target, htarget, hread⟩ := pathRead (BitVec.ofNat 64 (ofLe data))
      refine ⟨⟨target, .dwarf (pathType ops), some (BitVec.ofNat 64 (ofLe data))⟩, ?_, htarget, rfl⟩
      change (fromBytes 8 data >>= fun bytes => (pathEnv path).pointee ops.length >>= fun pointee =>
        readMemory _ (BitVec.ofNat 64 (ofLe bytes)) pointee.byteSize >>= fun target =>
          pure (⟨target, .dwarf pointee, some (BitVec.ofNat 64 (ofLe bytes))⟩ : TypedData)) = _
      rw [hbytes, ok_bind, hpointee, ok_bind, pathType_byteSize, hread]
      rfl
  | readMember name =>
      have hdata : subdata data 0 (pathType ops).byteSize = .ok data := by
        change data.length = 8 at hsize
        rw [pathType_byteSize, subdata, if_pos (by omega), List.drop_zero,
          List.take_of_length_le hsize.le]
      refine ⟨⟨data, .dwarf (pathType ops), address.map (· + BitVec.ofNat 64 0)⟩, ?_, hsize, rfl⟩
      change (Children.firstNamed (nameString name) (.member (pathType ops)
        ⟨some (nameString name), false, some 0, none, none, none, none, none⟩ .nil) >>= fun child =>
          TypedData.memberOf _ child.1 child.2) = _
      have hnamed : Children.firstNamed (nameString name) (.member (pathType ops)
          ⟨some (nameString name), false, some 0, none, none, none, none, none⟩ .nil) =
          .ok (pathType ops,
            ⟨some (nameString name), false, some 0, none, none, none, none, none⟩) :=
        if_pos rfl
      rw [hnamed, ok_bind, TypedData.memberOf]
      change (subdata data 0 (pathType ops).byteSize >>= _) = _
      rw [hdata]
      rfl
  | index i =>
      obtain ⟨target, htarget, hread⟩ := pathRead
        (BitVec.ofNat 64 (ofLe data) + BitVec.ofNat 64 (i * 8))
      refine ⟨⟨target, .dwarf (pathType ops),
        some (BitVec.ofNat 64 (ofLe data) + BitVec.ofNat 64 (i * 8))⟩, ?_, htarget, rfl⟩
      change ((pathEnv path).pointee ops.length >>= fun element =>
        fromBytes 8 data >>= fun bytes =>
          readMemory _ (BitVec.ofNat 64 (ofLe bytes) + BitVec.ofNat 64 (i * element.byteSize))
            element.byteSize >>= fun target =>
              pure (⟨target, .dwarf element, some (BitVec.ofNat 64 (ofLe bytes) +
                BitVec.ofNat 64 (i * element.byteSize))⟩ : TypedData)) = _
      rw [hpointee, ok_bind, hbytes, ok_bind, pathType_byteSize, hread]
      rfl

theorem OnPath.applyAll (h : OnPath ops value) (hpath : ops <:+ path) :
    ∃ last, ((pathLookup path).access (pathEnv path) (Machine.atRest fun _ => 0)).applyAll ops
      value = .ok last := by
  induction ops generalizing value with
  | nil => exact ⟨value, rfl⟩
  | cons op ops ih =>
      have hrest : ops <:+ path := (List.suffix_cons op ops).trans hpath
      obtain ⟨next, hnext, honPath⟩ := h.apply hrest
      rw [Access.applyAll, hnext]
      exact ih honPath hrest

end Values

/-- A text without a call is parsed exactly if it is a path whose indices a `std::size_t`
can be, or names no variable, or the loop does not get through it. -/
theorem parsedExactly_iff {text : Text} (hparenthesis : charByte '(' ∉ text) :
    ParsedExactly text ↔ (∃ name ops, IsPath text name ops ∧ InRange ops) ∨ Unnamed text ∨
      ¬ ∃ ops, Scans text ops := by
  constructor
  · intro h
    by_cases hunnamed : Unnamed text
    · exact .inr (.inl hunnamed)
    by_cases hscans : ∃ ops, Scans text ops
    · obtain ⟨ops, hscans⟩ := hscans
      have hstart : OnPath ops ⟨List.replicate 8 0, .dwarf (pathType ops), none⟩ := ⟨rfl, rfl⟩
      obtain ⟨last, hlast⟩ := hstart.applyAll List.suffix_rfl
      have hinitial : ((pathLookup ops).access (pathEnv ops) (Machine.atRest fun _ => 0)).initial
          (text.takeWhile (· ∉ pathOperators)) =
          .ok ⟨List.replicate 8 0, .dwarf (pathType ops), none⟩ :=
        if_neg hunnamed
      obtain ⟨value, name, ops', hresult, hpath⟩ := h (pathLookup ops) (pathEnv ops)
        (Machine.atRest fun _ => 0) ⟨some (last, text.takeWhile (· ∉ pathOperators), ops), []⟩ (by
          rw [hscans.resolve hparenthesis, hinitial, ok_bind, hlast]
          rfl)
      cases hresult
      exact .inl ⟨_, ops, hpath, hscans.inRange⟩
    · exact .inr (.inr hscans)
  · intro h lookup env m result hresolve
    have hfollows := hresolve
    rw [resolveIndirectName_eq hparenthesis] at hfollows
    obtain ⟨start, hinitial, hfollow⟩ := bind_eq_ok.mp hfollows
    rcases h with ⟨name, ops, hpath, hrange⟩ | hunnamed | hscans
    · obtain ⟨rest, rfl, hname, htail⟩ := hpath
      have hscans := htail.scans hrange hname.2
      rw [hscans.resolve hparenthesis, takeWhile_name hname.2 (fun _ hc => hc) htail] at hresolve
      obtain ⟨data, -, happly⟩ := bind_eq_ok.mp hresolve
      obtain ⟨last, -, hresult⟩ := bind_eq_ok.mp happly
      cases hresult
      exact ⟨last, name, ops, rfl, rest, rfl, hname, htail⟩
    · obtain ⟨failure, hfails⟩ := lookup.unnamed
      rw [hunnamed] at hinitial
      obtain ⟨data, hdata, -⟩ := bind_eq_ok.mp hinitial
      cases hfails.symm.trans hdata
    · exact absurd (scans_of_followPath hparenthesis hfollow) hscans

namespace VariablePathsWitness

/-- The variable `a` points to numbers. -/
def lookup : VariableLookup where
  findFunctions := fun _ => .ok []
  initial := fun name =>
    if name = ascii "a" then .ok ⟨List.replicate 8 0, .dwarf (.pointer 0), none⟩
    else .error (.error "Variable not found!")
  memberFunctions := fun _ _ => .ok []
  unnamed := ⟨_, if_neg (by decide)⟩

def env : ValueEnv :=
  ⟨fun _ => .ok (.base (some "int") .signed 4), fun _ => "", fun _ => "", fun _ => "", 0⟩

def machine : Machine := .atRest fun _ => 7

theorem getLast_index {rest : Text} {i : Nat} (h : IsTail rest [.index i]) :
    rest.getLast? = some (charByte ']') := by
  cases h with
  | @index digits rest _ _ _ hrest =>
      cases hrest
      rw [← List.cons_append, List.getLast?_concat]

theorem path : IsPath (ascii "a[1]") (ascii "a") [.index 1] :=
  ⟨ascii "[1]", rfl, ⟨by decide, by decide⟩,
    @IsTail.index (ascii "1") [] [] (by decide) (by decide) .done⟩

end VariablePathsWitness

open VariablePathsWitness in
/-- What stands behind an index is passed over. -/
theorem text_behind_index_ignored :
    ¬ ∀ text : Text, charByte '(' ∉ text → ParsedExactly text := by
  intro hall
  have hparsed := hall (ascii "a[0]xyz") (by decide) lookup env machine
    ⟨some (⟨[7, 7, 7, 7], .dwarf (.base (some "int") .signed 4), some 0⟩, ascii "a",
      [.index 0]), []⟩ rfl
  obtain ⟨value, name, ops, hresult, rest, htext, hname, htail⟩ := hparsed
  cases hresult
  obtain rfl : rest = ascii "[0]xyz" := (List.cons.inj htext).2.symm
  exact absurd (getLast_index htail) (by decide)

open VariablePathsWitness in
theorem parsedExactly_iff_index : ParsedExactly (ascii "a[1]") := by
  refine (parsedExactly_iff (by decide)).mpr (.inl ⟨_, _, path, fun i hmem => ?_⟩)
  obtain rfl : i = 1 := PathOperation.index.inj (List.mem_singleton.mp hmem)
  decide

end Gsdb
