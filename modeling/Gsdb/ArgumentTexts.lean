/-
How the text between the parentheses of a call is cut into arguments, and what becomes of
a string literal among them.
-/
import Gsdb.CallAlignment

namespace Gsdb

open ByteMemory Effects Eff Debugger

/-- A number of at least one digit. -/
def IsDigits (text : Text) : Prop := text ≠ [] ∧ ∀ c ∈ text, isDigit c = true

/-- The exponent of a floating point literal, if it has one. -/
inductive IsExponent : Text → Prop where
  | none : IsExponent []
  | some {letter : Byte} {sign digits : Text} (hletter : letter ∈ ascii "eE")
      (hsign : sign ∈ [[], ascii "-", ascii "+"]) (hdigits : IsDigits digits) :
      IsExponent (letter :: (sign ++ digits))

def stringLiteral (contents : Text) : Text := charByte '"' :: (contents ++ [charByte '"'])

/-- The literals that an argument can be. -/
inductive IsLiteral : Text → Prop where
  | integer {sign digits : Text} (hsign : sign ∈ [[], ascii "-"]) (hdigits : IsDigits digits) :
      IsLiteral (sign ++ digits)
  | floatingPoint {sign whole fraction exponent : Text} (hsign : sign ∈ [[], ascii "-"])
      (hdigits : IsDigits (whole ++ fraction)) (hexponent : IsExponent exponent) :
      IsLiteral (sign ++ whole ++ charByte '.' :: (fraction ++ exponent))
  | boolean {text : Text} (htext : text ∈ [ascii "true", ascii "false"]) : IsLiteral text
  | character (c : Byte) : IsLiteral [charByte '\'', c, charByte '\'']
  | string {contents : Text} (hcontents : charByte '"' ∉ contents) :
      IsLiteral (stringLiteral contents)

/-- Arguments, with commas between them. -/
def joined : List Text → Text
  | [] => []
  | literal :: literals => literal ++ literals.flatMap fun other => charByte ',' :: other

/-- A call of a function. -/
def callText (name : Text) (literals : List Text) : Text :=
  name ++ charByte '(' :: (joined literals ++ [charByte ')'])

/-- Parse one text after the other. -/
def parseAll (env : Environment) (tid : Tid) : List Text → Debugger (List TypedData)
  | [] => pure []
  | text :: texts => do
      let arg ← parseArgument env tid text
      let args ← parseAll env tid texts
      pure (arg :: args)

/-- Copy a string into storage of the inferior, with a zero behind it, and hand out its
address. -/
def copyString (env : Environment) (contents : Text) : Debugger TypedData := do
  let ptr ← inferiorMalloc env (contents.length + 1)
  writeMemory ptr (contents ++ [0])
  pure ⟨toLe 8 ptr.toNat, .builtin .string, none⟩

/-- The literals in a call are what is parsed, in their order, and the strings among them
are copied. -/
structure LiteralsPassed (name : Text) (literals : List Text) : Prop where
  texts : expressionArguments (callText name literals) = literals
  parsed : ∀ (env : Environment) (tid : Tid), explicitArguments env tid
    ((callText name literals).drop (findFrom (callText name literals) '(' 0)) =
      parseAll env tid literals
  copied : ∀ contents, stringLiteral contents ∈ literals → ∀ (env : Environment) (tid : Tid),
    parseArgument env tid (stringLiteral contents) = copyString env contents

section Finding

variable {text before middle after : Text} {c : Char} {pos found : Nat}

/-- A character is found behind what does not contain it. -/
theorem findFrom_append (h : charByte c ∉ middle) :
    findFrom (before ++ (middle ++ charByte c :: after)) c before.length =
      before.length + middle.length := by
  have hmiddle : middle.findIdx? (· = charByte c) = none :=
    List.findIdx?_eq_none_iff.mpr fun x hx => decide_eq_false fun heq => h (heq ▸ hx)
  rw [findFrom, List.drop_left, List.findIdx?_append, hmiddle, List.findIdx?_cons,
    if_pos (decide_eq_true rfl)]
  simp

theorem findFrom_first (h : charByte c ∉ middle) :
    findFrom (middle ++ charByte c :: after) c 0 = middle.length :=
  (@findFrom_append [] middle after c h).trans (Nat.zero_add _)

theorem findFrom_none (h : charByte c ∉ text.drop pos) : findFrom text c pos = npos := by
  have hnone : (text.drop pos).findIdx? (· = charByte c) = none :=
    List.findIdx?_eq_none_iff.mpr fun x hx => decide_eq_false fun heq => h (heq ▸ hx)
  rw [findFrom, hnone]

/-- What was found is there, and nowhere before. -/
theorem findFrom_found (hfound : findFrom text c pos = found) (hne : found ≠ npos) :
    pos ≤ found ∧ text[found]? = some (charByte c) ∧
      charByte c ∉ (text.drop pos).take (found - pos) := by
  rw [findFrom] at hfound
  split at hfound
  · rename_i i hi
    obtain ⟨hlt, hthere, hbefore⟩ := List.findIdx?_eq_some_iff_getElem.mp hi
    subst hfound
    refine ⟨Nat.le_add_right pos i, ?_, ?_⟩
    · rw [← List.getElem?_drop, List.getElem?_eq_getElem hlt, of_decide_eq_true hthere]
    · rw [Nat.add_sub_cancel_left]
      intro hmem
      obtain ⟨j, hj, heq⟩ := List.mem_iff_getElem.mp hmem
      rw [List.length_take] at hj
      rw [List.getElem_take] at heq
      exact hbefore j (by omega) (decide_eq_true heq)
  · exact absurd hfound.symm hne

/-- What was not found in a text is not there. -/
theorem findFrom_npos (hlength : text.length ≤ npos) (h : findFrom text c pos = npos) :
    charByte c ∉ text.drop pos := by
  rw [findFrom] at h
  split at h
  · rename_i i hi
    obtain ⟨hlt, -⟩ := List.findIdx?_eq_some_iff_getElem.mp hi
    rw [List.length_drop] at hlt
    omega
  · rename_i hnone
    intro hmem
    exact of_decide_eq_false (List.findIdx?_eq_none_iff.mp hnone _ hmem) rfl

end Finding

theorem joined_cons (literal other : Text) (literals : List Text) :
    joined (literal :: other :: literals) =
      literal ++ charByte ',' :: joined (other :: literals) := by
  rw [joined, List.flatMap_cons, joined, List.cons_append]

theorem mem_joined {literals : List Text} {literal : Text} (h : literal ∈ literals) {c : Byte}
    (hc : c ∈ literal) : c ∈ joined literals := by
  cases literals with
  | nil => cases h
  | cons first rest =>
      rcases List.mem_cons.mp h with rfl | hrest
      · exact List.mem_append_left _ hc
      · exact List.mem_append_right _
          (List.mem_flatMap.mpr ⟨literal, hrest, List.mem_cons_of_mem _ hc⟩)

theorem mem_of_mem_joined {literals : List Text} {c : Byte} (h : c ∈ joined literals)
    (hc : c ≠ charByte ',') : ∃ literal ∈ literals, c ∈ literal := by
  cases literals with
  | nil => cases h
  | cons first rest =>
      rcases List.mem_append.mp h with hfirst | hrest
      · exact ⟨first, List.mem_cons_self, hfirst⟩
      · obtain ⟨literal, hmem, hthere⟩ := List.mem_flatMap.mp hrest
        rcases List.mem_cons.mp hthere with rfl | hthere
        · exact absurd rfl hc
        · exact ⟨literal, List.mem_cons_of_mem _ hmem, hthere⟩

section Splitting

variable {argString before : Text} {argsEnd rounds argsStart : Nat} {literals : List Text}

/-- Where the loop takes a text from. -/
theorem argumentTexts_cons (hmore : argsStart < argsEnd) :
    argumentTexts argString argsEnd (rounds + 1) argsStart =
      (argString.drop argsStart).take
        ((if findFrom argString ',' argsStart = npos then argsEnd
          else findFrom argString ',' argsStart) - argsStart) ::
      argumentTexts argString argsEnd rounds
        (((if findFrom argString ',' argsStart = npos then argsEnd
          else findFrom argString ',' argsStart) + 1) % 2 ^ 64) := by
  rw [argumentTexts, if_pos hmore]

theorem argumentTexts_done (hdone : argsEnd ≤ argsStart) :
    argumentTexts argString argsEnd rounds argsStart = [] := by
  cases rounds with
  | zero => rfl
  | succ rounds => rw [argumentTexts, if_neg (Nat.not_lt.mpr hdone)]

theorem joined_behind (before literal other tail : Text) (literals : List Text) :
    before ++ (joined (literal :: other :: literals) ++ tail) =
      (before ++ (literal ++ [charByte ','])) ++ (joined (other :: literals) ++ tail) := by
  rw [joined_cons]
  simp only [List.append_assoc, List.cons_append, List.nil_append]

/-- The loop goes on behind the comma. -/
theorem behind_comma {literal : Text} (h : before.length + literal.length + 1 < 2 ^ 64) :
    (before ++ (literal ++ [charByte ','])).length =
      (before.length + literal.length + 1) % 2 ^ 64 := by
  rw [Nat.mod_eq_of_lt h]
  simp only [List.length_append, List.length_singleton]
  omega

/-- Texts without commas are cut apart at the commas between them. -/
theorem argumentTexts_joined (hstring : argString = before ++ (joined literals ++ [charByte ')']))
    (hlength : argString.length < npos) (hend : argsEnd + 1 = argString.length)
    (hnonempty : ∀ literal ∈ literals, literal ≠ [])
    (hcommas : ∀ literal ∈ literals, charByte ',' ∉ literal)
    (hrounds : literals.length ≤ rounds) :
    argumentTexts argString argsEnd rounds before.length = literals := by
  induction literals generalizing before rounds with
  | nil =>
      rw [hstring, joined, List.nil_append, List.length_append, List.length_singleton] at hend
      exact argumentTexts_done (Nat.le_of_succ_le_succ hend.le)
  | cons literal literals ih =>
      obtain ⟨rounds, rfl⟩ := Nat.exists_eq_succ_of_ne_zero (Nat.ne_zero_of_lt hrounds)
      have hpositive := List.length_pos_iff.mpr (hnonempty literal List.mem_cons_self)
      have hown := hcommas literal List.mem_cons_self
      have hnpos : npos < 2 ^ 64 := by decide
      cases literals with
      | nil =>
          rw [joined, List.flatMap_nil, List.append_nil] at hstring
          have hlast : findFrom argString ',' before.length = npos := by
            refine findFrom_none ?_
            rw [hstring, List.drop_left, List.mem_append, List.mem_singleton]
            rintro (hmem | heq)
            · exact hown hmem
            · exact absurd heq (by decide)
          have hcount : argsEnd = before.length + literal.length := by
            rw [hstring] at hend
            simp only [List.length_append, List.length_singleton] at hend
            omega
          rw [Nat.succ_eq_add_one, argumentTexts_cons (by omega), if_pos hlast,
            argumentTexts_done]
          · rw [hstring, hcount, List.drop_left, Nat.add_sub_cancel_left, List.take_left]
          · rw [Nat.mod_eq_of_lt (by omega)]
            exact Nat.le_succ argsEnd
      | cons other literals =>
          have hrest := hstring.trans (joined_behind before literal other _ literals)
          rw [joined_cons, List.append_assoc, List.cons_append] at hstring
          have hfound : findFrom argString ',' before.length =
              before.length + literal.length := by
            rw [hstring]
            exact findFrom_append hown
          have hcount : before.length + literal.length + 1 < argString.length := by
            rw [hstring]
            simp only [List.length_append, List.length_cons, List.length_nil]
            omega
          have hne : before.length + literal.length ≠ npos := by omega
          have hnext := ih hrest (fun text hmem => hnonempty text (List.mem_cons_of_mem _ hmem))
            (fun text hmem => hcommas text (List.mem_cons_of_mem _ hmem))
            (Nat.le_of_succ_le_succ hrounds)
          rw [Nat.succ_eq_add_one, argumentTexts_cons (by omega), hfound, if_neg hne,
            ← behind_comma (by omega), hnext, hstring, List.drop_left, Nat.add_sub_cancel_left,
              List.take_left]

/-- No text that the loop takes has a comma in it. -/
theorem argumentTexts_no_comma (hlength : argString.length ≤ npos) :
    ∀ text ∈ argumentTexts argString argsEnd rounds argsStart, charByte ',' ∉ text := by
  induction rounds generalizing argsStart with
  | zero =>
      intro text hmem
      cases hmem
  | succ rounds ih =>
      intro text hmem
      by_cases hmore : argsStart < argsEnd
      · rw [argumentTexts_cons hmore] at hmem
        rcases List.mem_cons.mp hmem with rfl | hrest
        · split
          · rename_i hnone
            exact fun hcomma => findFrom_npos hlength hnone (List.mem_of_mem_take hcomma)
          · rename_i hfound
            exact (findFrom_found rfl hfound).2.2
        · exact ih text hrest
      · rw [argumentTexts_done (Nat.not_lt.mp hmore)] at hmem
        cases hmem

/-- If the texts that the loop takes are those between the commas, the parenthesis it goes
to is the last one. -/
theorem argumentTexts_end (hstring : argString = before ++ (joined literals ++ [charByte ')']))
    (hlength : argString.length < npos) (hsome : literals ≠ [])
    (hnonempty : ∀ literal ∈ literals, literal ≠ [])
    (htexts : argumentTexts argString argsEnd rounds before.length = literals) :
    argString.length ≤ argsEnd + 1 := by
  induction literals generalizing before rounds with
  | nil => exact absurd rfl hsome
  | cons literal literals ih =>
      cases rounds with
      | zero => cases htexts
      | succ rounds =>
      by_cases hmore : before.length < argsEnd
      swap
      · rw [argumentTexts_done (Nat.not_lt.mp hmore)] at htexts
        cases htexts
      have hpositive := List.length_pos_iff.mpr (hnonempty literal List.mem_cons_self)
      have hcount : argString.length =
          before.length + (joined (literal :: literals)).length + 1 := by
        rw [hstring, List.length_append, List.length_append, List.length_singleton]
        omega
      have hnpos : npos < 2 ^ 64 := by decide
      rw [argumentTexts_cons hmore] at htexts
      obtain ⟨htext, hrest⟩ := List.cons.inj htexts
      have htaken := congrArg List.length htext
      rw [List.length_take, List.length_drop] at htaken
      by_cases hfound : findFrom argString ',' before.length = npos
      · rw [if_pos hfound] at htaken
        cases literals with
        | nil =>
            rw [joined, List.flatMap_nil, List.append_nil] at hcount
            omega
        | cons other literals =>
            refine absurd ?_ (findFrom_npos hlength.le hfound)
            rw [hstring, List.drop_left, joined_cons]
            simp
      · obtain ⟨hle, hthere, -⟩ := findFrom_found rfl hfound
        have hinside := (List.getElem?_eq_some_iff.mp hthere).1
        rw [if_neg hfound] at htaken hrest
        generalize findFrom argString ',' before.length = found at *
        obtain rfl : found = before.length + literal.length := by omega
        cases literals with
        | nil =>
            rw [hstring, joined, List.flatMap_nil, List.append_nil,
              List.getElem?_append_right (Nat.le_add_right _ _), Nat.add_sub_cancel_left,
              List.getElem?_append_right (Nat.le_refl _), Nat.sub_self] at hthere
            exact absurd (Option.some.inj hthere) (by decide)
        | cons other literals =>
            rw [← behind_comma (by omega)] at hrest
            exact ih (hstring.trans (joined_behind before literal other _ literals))
              (List.cons_ne_nil _ _)
              (fun text hmem => hnonempty text (List.mem_cons_of_mem _ hmem)) hrest

/-- The texts that the loop takes are what it parses. -/
theorem collectFrom_eq_parseAll (env : Environment) (tid : Tid)
    (hend : argsEnd ≤ argString.length) (hlength : argString.length < npos)
    (hpositive : 0 < rounds) (hrounds : argsEnd < argsStart + rounds) :
    collectFrom env tid argString argsEnd rounds argsStart =
      parseAll env tid (argumentTexts argString argsEnd rounds argsStart) := by
  induction rounds generalizing argsStart with
  | zero => cases hpositive
  | succ rounds ih =>
      by_cases hmore : argsStart < argsEnd
      · rw [argumentTexts_cons hmore, parseAll, collectFrom, if_pos hmore]
        have hcomma : argsStart ≤ (if findFrom argString ',' argsStart = npos then argsEnd
              else findFrom argString ',' argsStart) ∧
            (if findFrom argString ',' argsStart = npos then argsEnd
              else findFrom argString ',' argsStart) ≤ argString.length := by
          split
          · exact ⟨hmore.le, hend⟩
          · rename_i hfound
            obtain ⟨hle, hthere, -⟩ := findFrom_found rfl hfound
            exact ⟨hle, (List.getElem?_eq_some_iff.mp hthere).1.le⟩
        dsimp only
        generalize (if findFrom argString ',' argsStart = npos then argsEnd
          else findFrom argString ',' argsStart) = commaPos at hcomma ⊢
        have hnpos : npos < 2 ^ 64 := by decide
        rw [if_neg (by omega), Nat.mod_eq_of_lt (show commaPos + 1 < 2 ^ 64 by omega),
          ih (by omega) (by omega)]
      · rw [argumentTexts_done (Nat.not_lt.mp hmore), collectFrom, if_neg hmore, parseAll]

end Splitting

section Literals

variable {name contents : Text} {literals : List Text}

theorem IsLiteral.ne_nil {text : Text} (h : IsLiteral text) : text ≠ [] := by
  cases h with
  | integer _ hdigits => exact List.append_ne_nil_of_right_ne_nil _ hdigits.1
  | floatingPoint => exact List.append_ne_nil_of_right_ne_nil _ (List.cons_ne_nil _ _)
  | boolean htext =>
      rcases List.mem_pair.mp htext with rfl | rfl <;> decide
  | character c => exact List.cons_ne_nil _ _
  | string => exact List.cons_ne_nil _ _

/-- A string literal with something in it is copied. -/
theorem parseArgument_string (hcontents : contents ≠ []) (env : Environment) (tid : Tid) :
    parseArgument env tid (stringLiteral contents) = copyString env contents := by
  have hlength : (stringLiteral contents).length = contents.length + 2 := by
    rw [stringLiteral, List.length_cons, List.length_append, List.length_singleton]
  have hliteral : IsStringLiteral (stringLiteral contents) := by
    have hpositive := List.length_pos_iff.mpr hcontents
    refine ⟨by omega, rfl, ?_⟩
    rw [stringLiteral, ← List.cons_append, List.getLast?_concat]
  have htext : ((stringLiteral contents).drop 1).take ((stringLiteral contents).length - 2) =
      contents := by
    rw [hlength, stringLiteral, List.drop_one, List.tail_cons, Nat.add_sub_cancel, List.take_left]
  rw [parseArgument_literal hliteral, htext, hlength, copyString]
  rfl

/-- Where the arguments of a call start. -/
theorem callText_arguments (hname : charByte '(' ∉ name) :
    (callText name literals).drop (findFrom (callText name literals) '(' 0) =
      charByte '(' :: (joined literals ++ [charByte ')']) := by
  rw [callText, findFrom_first hname, List.drop_left]

theorem length_le_joined (h : ∀ literal ∈ literals, literal ≠ []) :
    literals.length ≤ (joined literals).length := by
  induction literals with
  | nil => exact Nat.le_refl 0
  | cons literal literals ih =>
      have hpositive := List.length_pos_iff.mpr (h literal List.mem_cons_self)
      have hrest := ih fun other hmem => h other (List.mem_cons_of_mem _ hmem)
      cases literals with
      | nil =>
          rw [joined, List.flatMap_nil, List.append_nil]
          exact hpositive
      | cons other literals =>
          rw [joined_cons]
          simp only [List.length_append, List.length_cons] at hrest ⊢
          omega

/-- The empty string literal is taken for the name of a variable. -/
theorem emptyString_not_copied :
    ¬ ∀ (env : Environment) (tid : Tid),
      parseArgument env tid (stringLiteral []) = copyString env [] := by
  intro h
  let env : Environment := { CallAlignmentWitness.environment with mallocAddress := fun _ => none }
  have hsame := congrArg Prod.fst (congrFun (h env 2) (CallAlignmentWitness.machine 0x8000))
  have hlooked : (parseArgument env 2 (stringLiteral []) (CallAlignmentWitness.machine 0x8000)).1 =
      .error (.exception "out_of_range") := rfl
  have hcopied : (copyString env [] (CallAlignmentWitness.machine 0x8000)).1 =
      .error (.error "malloc not found!") := rfl
  rw [hlooked, hcopied] at hsame
  cases hsame

/-- If the arguments end where the first parenthesis is, no literal has one. -/
theorem no_parenthesis {argString : Text}
    (hstring : argString = [charByte '('] ++ (joined literals ++ [charByte ')']))
    (hlength : argString.length < npos)
    (hend : argString.length ≤ findFrom argString ')' 0 + 1) :
    ∀ literal ∈ literals, charByte ')' ∉ literal := by
  intro literal hmem hthere
  have hjoined : charByte ')' ∈ joined literals := mem_joined hmem hthere
  have hcount : argString.length = (joined literals).length + 2 := by
    rw [hstring, List.length_append, List.length_append, List.length_singleton,
      List.length_singleton]
    omega
  by_cases hfound : findFrom argString ')' 0 = npos
  · refine findFrom_npos hlength.le hfound ?_
    rw [hstring, List.drop_zero]
    exact List.mem_append_right _ (List.mem_append_left _ hjoined)
  · obtain ⟨-, hat, hbefore⟩ := findFrom_found rfl hfound
    have hinside := (List.getElem?_eq_some_iff.mp hat).1
    refine hbefore ?_
    rw [List.drop_zero, Nat.sub_zero,
      show findFrom argString ')' 0 = ([charByte '('] ++ joined literals).length by
        rw [List.length_append, List.length_singleton]
        omega,
      hstring, ← List.append_assoc, List.take_left]
    exact List.mem_append_right _ hjoined

/-- The literals of a call are what is parsed, and the strings among them are copied,
exactly if no literal has a comma or a closing parenthesis in it and none is the empty
string. -/
theorem literalsPassed_iff (hname : charByte '(' ∉ name)
    (hliterals : ∀ literal ∈ literals, IsLiteral literal)
    (hlength : (callText name literals).length < npos) :
    LiteralsPassed name literals ↔ ∀ literal ∈ literals,
      charByte ',' ∉ literal ∧ charByte ')' ∉ literal ∧ literal ≠ stringLiteral [] := by
  have hnonempty : ∀ literal ∈ literals, literal ≠ [] := fun literal hmem =>
    (hliterals literal hmem).ne_nil
  have harguments : (callText name literals).drop (findFrom (callText name literals) '(' 0) =
      charByte '(' :: (joined literals ++ [charByte ')']) :=
    callText_arguments hname
  generalize hstring : charByte '(' :: (joined literals ++ [charByte ')']) = argString at harguments
  have hstring' : argString = [charByte '('] ++ (joined literals ++ [charByte ')']) := hstring.symm
  have hshort : argString.length < npos := by
    rw [← harguments, List.length_drop]
    omega
  have hexpression : expressionArguments (callText name literals) =
      argumentTexts argString (findFrom argString ')' 0) (argString.length + 2)
        [charByte '('].length := by
    rw [expressionArguments, harguments]
    rfl
  constructor
  · intro h
    have htexts := hexpression.symm.trans h.texts
    have hcommas : ∀ text ∈ argumentTexts argString (findFrom argString ')' 0)
        (argString.length + 2) [charByte '('].length, charByte ',' ∉ text :=
      argumentTexts_no_comma hshort.le
    rw [htexts] at hcommas
    intro literal hmem
    have hend := argumentTexts_end hstring' hshort (List.ne_nil_of_mem hmem) hnonempty htexts
    refine ⟨hcommas literal hmem, no_parenthesis hstring' hshort hend literal hmem, ?_⟩
    rintro rfl
    exact emptyString_not_copied (h.copied [] hmem)
  · intro h
    have hparenthesis : findFrom argString ')' 0 = (charByte '(' :: joined literals).length := by
      rw [hstring', ← List.append_assoc]
      refine findFrom_first ?_
      rw [List.mem_append, List.mem_singleton]
      rintro (hopening | hmem)
      · exact absurd hopening (by decide)
      · obtain ⟨literal, hliteral, hthere⟩ := mem_of_mem_joined hmem (by decide)
        exact (h literal hliteral).2.1 hthere
    have hcount : argString.length = (charByte '(' :: joined literals).length + 1 := by
      rw [hstring']
      simp only [List.length_append, List.length_cons, List.length_nil]
      omega
    have htexts : argumentTexts argString (findFrom argString ')' 0) (argString.length + 2)
        [charByte '('].length = literals := by
      refine argumentTexts_joined hstring' hshort (by omega) hnonempty
        (fun literal hmem => (h literal hmem).1) ?_
      have hjoined := length_le_joined hnonempty
      rw [hcount, List.length_cons]
      omega
    refine ⟨hexpression.trans htexts, fun env tid => ?_, fun contents hmem env tid => ?_⟩
    · rw [harguments, explicitArguments, collectFrom_eq_parseAll env tid (by omega) hshort
        (Nat.succ_pos _) (by omega)]
      exact congrArg (parseAll env tid) htexts
    · refine parseArgument_string ?_ env tid
      rintro rfl
      exact (h _ hmem).2.2 rfl

end Literals

namespace ArgumentTextsWitness

def commaCall : Text := callText (ascii "f") [stringLiteral (ascii "a,b")]

theorem comma_cut : expressionArguments commaCall = [ascii "\"a", ascii "b\""] := by
  decide

theorem number_literal : ∀ literal ∈ [ascii "1"], IsLiteral literal := by
  intro literal hmem
  rw [List.mem_singleton.mp hmem]
  exact @IsLiteral.integer [] (ascii "1") (by decide) ⟨by decide, by decide⟩

end ArgumentTextsWitness

open ArgumentTextsWitness in
/-- A comma in a string literal cuts it in two. -/
theorem comma_in_string_cut :
    ¬ ∀ (name : Text) (literals : List Text), charByte '(' ∉ name →
      (∀ literal ∈ literals, IsLiteral literal) → (callText name literals).length < npos →
      LiteralsPassed name literals := by
  intro hall
  have hliteral : ∀ literal ∈ [stringLiteral (ascii "a,b")], IsLiteral literal := by
    intro literal hmem
    rw [List.mem_singleton.mp hmem]
    exact .string (by decide)
  have hpassed := hall (ascii "f") _ (by decide) hliteral (by decide)
  exact absurd (comma_cut.symm.trans hpassed.texts) (by decide)

open ArgumentTextsWitness in
theorem literalsPassed_iff_one :
    LiteralsPassed (ascii "f") [ascii "1"] ↔ ∀ literal ∈ [ascii "1"],
      charByte ',' ∉ literal ∧ charByte ')' ∉ literal ∧ literal ≠ stringLiteral [] :=
  literalsPassed_iff (by decide) number_literal (by decide)

end Gsdb
