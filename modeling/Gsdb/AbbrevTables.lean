/-
Abbreviation tables.  A declaration is its code, a tag, a flag and the specifications of its
attributes, and the code zero alone ends a table; `parse_abbrev_table` looks at the code only
when it has read a whole declaration.
-/
import Gsdb.AttributeForms

namespace Gsdb

open ByteMemory ByteCursor

/-- The inner loop of `parse_abbrev_table`; every round reads two numbers. -/
def parseAttrSpecs : Nat → Cursor → Except Failure (List AttrSpec × Cursor)
  | 0, _ => .error (.undefined "read outside the buffer")
  | rounds + 1, cur => do
      let (attr, cur) ← inBounds cur.uleb128
      let (form, cur) ← inBounds cur.uleb128
      if attr ≠ 0 then do
        let (specs, cur) ← parseAttrSpecs rounds cur
        pure (⟨attr, .ofCode form⟩ :: specs, cur)
      else pure ([], cur)

/-- What a round of `parse_abbrev_table` reads behind the code. -/
def parseAbbrev (code : Word) (cur : Cursor) : Except Failure (Abbrev × Cursor) := do
  let (tag, cur) ← inBounds cur.uleb128
  let (hasChildren, cur) ← inBounds cur.u8
  let (attrSpecs, cur) ← parseAttrSpecs (cur.rest.length + 1) cur
  pure (⟨code, tag, hasChildren ≠ 0, attrSpecs⟩, cur)

/-- `std::unordered_map::emplace`: a code that is present keeps its entry. -/
def emplaceAbbrev (table : List Abbrev) (entry : Abbrev) : List Abbrev :=
  if table.any fun other => other.code = entry.code then table else table ++ [entry]

/-- The loop of `parse_abbrev_table`; every round reads a number. -/
def parseAbbrevs : Nat → Cursor → List Abbrev → Except Failure (List Abbrev × Cursor)
  | 0, _, _ => .error (.undefined "read outside the buffer")
  | rounds + 1, cur, table => do
      let (code, cur) ← inBounds cur.uleb128
      let (entry, cur) ← parseAbbrev code cur
      if code ≠ 0 then parseAbbrevs rounds cur (emplaceAbbrev table entry)
      else pure (table, cur)

/-- `parse_abbrev_table`, with the cursor as the loop leaves it. -/
def parseAbbrevTableTo (debugAbbrev : List Byte) (offset : Nat) :
    Except Failure (List Abbrev × Cursor) :=
  parseAbbrevs (debugAbbrev.length + 1) ⟨debugAbbrev, offset⟩ []

/-- `parse_abbrev_table`. -/
def parseAbbrevTable (debugAbbrev : List Byte) (offset : Nat) : Except Failure (List Abbrev) := do
  let (table, _) ← parseAbbrevTableTo debugAbbrev offset
  pure table

/-- Specifications one after the other, and the one without a name that ends them. -/
inductive EncodesSpecs : List AttrSpec → List Byte → Prop where
  | stop {name code : List Byte} {form : Word} (hname : IsUleb name 0) (hcode : IsUleb code form) :
      EncodesSpecs [] (name ++ code)
  | spec {name code rest : List Byte} {attr form : Word} {specs : List AttrSpec}
      (hname : IsUleb name attr) (hattr : attr ≠ 0) (hcode : IsUleb code form)
      (hrest : EncodesSpecs specs rest) :
      EncodesSpecs (⟨attr, .ofCode form⟩ :: specs) (name ++ (code ++ rest))

/-- A declaration behind its code. -/
inductive EncodesAbbrev : Abbrev → List Byte → Prop where
  | mk {code tag : Word} {flag : Byte} {specs : List AttrSpec} {first rest : List Byte}
      (htag : IsUleb first tag) (hspecs : EncodesSpecs specs rest) :
      EncodesAbbrev ⟨code, tag, flag ≠ 0, specs⟩ (first ++ flag :: rest)

/-- Declarations one after the other, and the code zero. -/
inductive EncodesTable : List Abbrev → List Byte → Prop where
  | stop {code : List Byte} (hcode : IsUleb code 0) : EncodesTable [] code
  | entry {entry : Abbrev} {entries : List Abbrev} {code bytes rest : List Byte}
      (hcode : IsUleb code entry.code) (hsome : entry.code ≠ 0)
      (hentry : EncodesAbbrev entry bytes) (hrest : EncodesTable entries rest) :
      EncodesTable (entry :: entries) (code ++ (bytes ++ rest))

section Reading

variable {cur next : Cursor} {bytes after : List Byte} {value : Word}

theorem IsUleb.length_pos (h : IsUleb bytes value) : 0 < bytes.length :=
  lebSize_pos h.lebSize

/-- What is read as a number stands there. -/
theorem isUleb_of_uleb128 (h : cur.uleb128 = some (value, next)) :
    ∃ bytes, cur.rest = bytes ++ next.rest ∧ IsUleb bytes value ∧
      next = cur.advance bytes.length := by
  obtain ⟨⟨res, shift, last, count⟩, hloop, hout⟩ := Option.map_eq_some_iff.mp h
  obtain ⟨n, hsize, hnext⟩ := Cursor.uleb128_eq_some h
  cases hout
  have hcount : count = n := by
    have hpos := congrArg Cursor.pos hnext
    simpa using hpos
  subst hcount
  have hlength : (cur.rest.take count).length = count := by
    rw [List.length_take]
    exact Nat.min_eq_left (lebSize_le_length hsize)
  refine ⟨cur.rest.take count, ?_, ?_, by rw [hlength]⟩
  · rw [Cursor.rest_advance, List.take_append_drop]
  · have htake := lebLoop_take hloop
    rw [IsUleb, Cursor.uleb128]
    change (lebLoop 0 0 (cur.rest.take count)).map _ = _
    rw [htake, Option.map_some, hlength]
    simp [Cursor.advance]

theorem EncodesSpecs.length_pos {specs : List AttrSpec} (h : EncodesSpecs specs bytes) :
    specs.length < bytes.length := by
  induction h with
  | stop hname hcode =>
      have hpos := hname.length_pos
      rw [List.length_append, List.length_nil]
      omega
  | spec hname hattr hcode hrest ih =>
      have hpos := hname.length_pos
      rw [List.length_append, List.length_append, List.length_cons]
      omega

theorem parseAttrSpecs_encoded {specs : List AttrSpec} (h : EncodesSpecs specs bytes) :
    ∀ {rounds : Nat} {cur : Cursor}, cur.rest = bytes ++ after → specs.length < rounds →
      parseAttrSpecs rounds cur = .ok (specs, cur.advance bytes.length) := by
  induction h with
  | @stop name code form hname hcode =>
      intro rounds cur hcur hrounds
      obtain ⟨rounds, rfl⟩ : ∃ k, rounds = k + 1 := ⟨rounds - 1, by omega⟩
      rw [List.append_assoc] at hcur
      have hform := hcode.uleb128 (rest_advance_append hcur)
      rw [parseAttrSpecs, hname.uleb128 hcur, inBounds_some, ok_bind]
      simp only [hform, inBounds_some, ok_bind, Cursor.advance_advance, List.length_append]
      rfl
  | @spec name code rest attr form specs hname hattr hcode hrest ih =>
      intro rounds cur hcur hrounds
      rw [List.length_cons] at hrounds
      obtain ⟨rounds, rfl⟩ : ∃ k, rounds = k + 1 := ⟨rounds - 1, by omega⟩
      rw [List.append_assoc, List.append_assoc] at hcur
      have hbehind := rest_advance_append hcur
      have hform := hcode.uleb128 hbehind
      have hothers := ih (rest_advance_append hbehind) (by omega : specs.length < rounds)
      rw [parseAttrSpecs, hname.uleb128 hcur, inBounds_some, ok_bind]
      simp only [hform, inBounds_some, ok_bind, if_pos hattr, hothers]
      rw [List.length_append, List.length_append, ← Cursor.advance_advance,
        ← Cursor.advance_advance]
      rfl

theorem encodesSpecs_of_parse {rounds : Nat} : ∀ {cur next : Cursor} {specs : List AttrSpec},
    parseAttrSpecs rounds cur = .ok (specs, next) →
    ∃ bytes, cur.rest = bytes ++ next.rest ∧ EncodesSpecs specs bytes ∧
      next = cur.advance bytes.length := by
  induction rounds with
  | zero => intro cur next specs h; cases h
  | succ rounds ih =>
      intro cur next specs h
      obtain ⟨⟨attr, cur'⟩, hattr, h⟩ := bind_eq_ok.mp h
      obtain ⟨⟨form, cur''⟩, hform, h⟩ := bind_eq_ok.mp h
      obtain ⟨name, hname, hnameLeb, rfl⟩ := isUleb_of_uleb128 (inBounds_eq_ok.mp hattr)
      obtain ⟨code, hcode, hcodeLeb, rfl⟩ := isUleb_of_uleb128 (inBounds_eq_ok.mp hform)
      simp only at h
      by_cases hsome : attr ≠ 0
      · rw [if_pos hsome] at h
        obtain ⟨⟨others, last⟩, hothers, h⟩ := bind_eq_ok.mp h
        cases h
        obtain ⟨rest, hrest, hspecs, rfl⟩ := ih hothers
        refine ⟨name ++ (code ++ rest), ?_, .spec hnameLeb hsome hcodeLeb hspecs, ?_⟩
        · rw [hname, hcode, hrest, List.append_assoc, List.append_assoc]
        · rw [List.length_append, List.length_append, ← Cursor.advance_advance,
            ← Cursor.advance_advance]
      · rw [if_neg hsome] at h
        cases h
        have hzero : attr = 0 := not_not.mp hsome
        subst hzero
        refine ⟨name ++ code, ?_, .stop hnameLeb hcodeLeb, ?_⟩
        · rw [hname, hcode, List.append_assoc]
        · rw [Cursor.advance_advance, List.length_append]

/-- A declaration is read behind its code. -/
theorem parseAbbrev_encoded {entry : Abbrev} (h : EncodesAbbrev entry bytes)
    (hcur : cur.rest = bytes ++ after) :
    parseAbbrev entry.code cur = .ok (entry, cur.advance bytes.length) := by
  cases h with
  | @mk code tag flag specs first rest htag hspecs =>
      rw [List.append_assoc, List.cons_append] at hcur
      have hbehind := rest_advance_append hcur
      have hflag := Cursor.u8_of_cons hbehind
      have hrest : ((cur.advance first.length).advance 1).rest = rest ++ after := by
        rw [Cursor.rest_advance, hbehind]
        rfl
      have hroom : specs.length < ((cur.advance first.length).advance 1).rest.length + 1 := by
        have hlength := hspecs.length_pos
        rw [hrest, List.length_append]
        omega
      have hread := parseAttrSpecs_encoded hspecs hrest hroom
      rw [parseAbbrev, htag.uleb128 hcur, inBounds_some, ok_bind]
      simp only [hflag, inBounds_some, ok_bind, hread]
      rw [List.length_append, List.length_cons, Nat.add_comm rest.length,
        ← Cursor.advance_advance, ← Cursor.advance_advance]
      rfl

theorem encodesAbbrev_of_parse {code : Word} {entry : Abbrev}
    (h : parseAbbrev code cur = .ok (entry, next)) :
    ∃ bytes, cur.rest = bytes ++ next.rest ∧ EncodesAbbrev entry bytes ∧
      next = cur.advance bytes.length ∧ 0 < bytes.length := by
  obtain ⟨⟨tag, cur'⟩, htag, h⟩ := bind_eq_ok.mp h
  obtain ⟨⟨flag, cur''⟩, hflag, h⟩ := bind_eq_ok.mp h
  obtain ⟨⟨specs, last⟩, hspecs, h⟩ := bind_eq_ok.mp h
  cases h
  obtain ⟨first, hfirst, hfirstLeb, rfl⟩ := isUleb_of_uleb128 (inBounds_eq_ok.mp htag)
  obtain ⟨hbehind, rfl⟩ := Cursor.u8_eq_some (inBounds_eq_ok.mp hflag)
  obtain ⟨rest, hrest, hencodes, rfl⟩ := encodesSpecs_of_parse hspecs
  refine ⟨first ++ flag :: rest, ?_, .mk hfirstLeb hencodes, ?_, ?_⟩
  · rw [hfirst, hbehind, hrest, List.append_assoc, List.cons_append]
  · rw [List.length_append, List.length_cons, Nat.add_comm rest.length,
      ← Cursor.advance_advance, ← Cursor.advance_advance]
  · rw [List.length_append, List.length_cons]
    omega

/-- A code that no earlier entry has is added to the table. -/
theorem emplaceAbbrev_fresh {table : List Abbrev} {entry : Abbrev}
    (h : entry.code ∉ table.map (·.code)) : emplaceAbbrev table entry = table ++ [entry] := by
  rw [emplaceAbbrev, if_neg]
  rw [List.any_eq_true]
  rintro ⟨other, hmem, hcode⟩
  exact h (of_decide_eq_true hcode ▸ List.mem_map_of_mem hmem)

/-- Up to its terminator a table is read entry by entry; then comes a declaration with the code
zero. -/
theorem parseAbbrevs_encoded {entries : List Abbrev} (h : EncodesTable entries bytes) :
    ∀ {rounds : Nat} {cur : Cursor} (table : List Abbrev), cur.rest = bytes ++ after →
      ((table ++ entries).map (·.code)).Nodup → entries.length < rounds →
      parseAbbrevs rounds cur table =
        (parseAbbrev 0 (cur.advance bytes.length)).map fun out => (table ++ entries, out.2) := by
  induction h with
  | @stop code hcode =>
      intro rounds cur table hcur hcodes hrounds
      obtain ⟨rounds, rfl⟩ : ∃ k, rounds = k + 1 := ⟨rounds - 1, by omega⟩
      rw [parseAbbrevs, hcode.uleb128 hcur, inBounds_some, ok_bind, List.append_nil]
      cases hread : parseAbbrev 0 (cur.advance code.length) with
      | error failure =>
          simp only [hread]
          rfl
      | ok out =>
          simp only [hread]
          rfl
  | @entry entry entries code bytes rest hcode hsome hentry hrest ih =>
      intro rounds cur table hcur hcodes hrounds
      rw [List.length_cons] at hrounds
      obtain ⟨rounds, rfl⟩ : ∃ k, rounds = k + 1 := ⟨rounds - 1, by omega⟩
      rw [List.append_assoc, List.append_assoc] at hcur
      have hbehind := rest_advance_append hcur
      have hread := parseAbbrev_encoded hentry hbehind
      have hfresh : entry.code ∉ table.map (·.code) := by
        rw [List.map_append, List.map_cons, List.nodup_append] at hcodes
        intro hmem
        exact hcodes.2.2 _ hmem _ List.mem_cons_self rfl
      have hcodes' : ((table ++ [entry] ++ entries).map (·.code)).Nodup := by
        rwa [List.append_assoc, List.singleton_append]
      have hothers := ih (table ++ [entry]) (rest_advance_append hbehind) hcodes'
        (by omega : entries.length < rounds)
      rw [parseAbbrevs, hcode.uleb128 hcur, inBounds_some, ok_bind]
      simp only [hread, ok_bind, if_pos hsome, emplaceAbbrev_fresh hfresh, hothers]
      rw [List.length_append, List.length_append, ← Cursor.advance_advance,
        ← Cursor.advance_advance, List.append_assoc, List.singleton_append]

theorem EncodesTable.length_lt {entries : List Abbrev} (h : EncodesTable entries bytes) :
    entries.length < bytes.length := by
  induction h with
  | stop hcode => exact hcode.length_pos
  | entry hcode hsome hentry hrest ih =>
      have hpos := hcode.length_pos
      rw [List.length_append, List.length_append, List.length_cons]
      omega

end Reading

/-- A table is returned, and no byte behind its terminator was read. -/
def ReadsTable (debugAbbrev : List Byte) (offset stop : Nat) (entries : List Abbrev) : Prop :=
  ∃ cur, parseAbbrevTableTo debugAbbrev offset = .ok (entries, cur) ∧ cur.pos ≤ stop

/-- What stands behind a terminator can be read as a declaration. -/
def DeclarationFollows (after : List Byte) : Prop :=
  ∃ entry bytes rest, EncodesAbbrev entry bytes ∧ after = bytes ++ rest

/-- A declaration is parsed behind any code exactly if one follows. -/
theorem parseAbbrev_isOk_iff {code : Nat} {cur : Cursor} :
    (∃ out, parseAbbrev code cur = .ok out) ↔ DeclarationFollows cur.rest := by
  constructor
  · rintro ⟨out, hparsed⟩
    obtain ⟨bytes, hrest, hencodes, -, -⟩ := encodesAbbrev_of_parse hparsed
    exact ⟨_, _, _, hencodes, hrest⟩
  · rintro ⟨entry, bytes, rest, hencodes, hrest⟩
    -- the code stands before the declaration, so the same bytes encode it under any code
    cases hencodes with
    | @mk _ tag flag specs first rest' htag hspecs =>
        have hcode : EncodesAbbrev ⟨code, tag, flag ≠ 0, specs⟩ (first ++ flag :: rest') :=
          .mk htag hspecs
        exact ⟨_, parseAbbrev_encoded hcode hrest⟩

/-- No table is read up to its terminator alone: what follows is read as a declaration, and the
entries are returned exactly if that is possible. -/
theorem abbrevTable_read {entries : List Abbrev} {bytes : List Byte}
    (htable : EncodesTable entries bytes) (hcodes : (entries.map (·.code)).Nodup)
    (before after : List Byte) :
    ¬ ReadsTable (before ++ (bytes ++ after)) before.length (before.length + bytes.length) entries ∧
    (parseAbbrevTable (before ++ (bytes ++ after)) before.length = .ok entries ↔
      DeclarationFollows after) := by
  have hcur : (Cursor.mk (before ++ (bytes ++ after)) before.length).rest = bytes ++ after :=
    List.drop_left
  have hrounds : entries.length < (before ++ (bytes ++ after)).length + 1 := by
    have hlength := htable.length_lt
    simp only [List.length_append]
    omega
  have hread : parseAbbrevTableTo (before ++ (bytes ++ after)) before.length = _ :=
    parseAbbrevs_encoded htable [] hcur hcodes hrounds
  have hbehind := rest_advance_append hcur
  generalize hcursor : (Cursor.mk (before ++ (bytes ++ after)) before.length).advance bytes.length =
    cur at hread hbehind
  have hpos : cur.pos = before.length + bytes.length := by
    rw [← hcursor]
    rfl
  constructor
  · rintro ⟨last, htable, hstop⟩
    rw [hread] at htable
    cases hparsed : parseAbbrev 0 cur with
    | error failure =>
        rw [hparsed] at htable
        cases htable
    | ok out =>
        obtain ⟨bytes', -, -, hnext, hlength⟩ := encodesAbbrev_of_parse hparsed
        rw [hparsed] at htable
        cases htable
        rw [hnext, Cursor.advance_pos, hpos] at hstop
        omega
  · rw [parseAbbrevTable, hread, ← hbehind, ← @parseAbbrev_isOk_iff 0]
    cases parseAbbrev 0 cur with
    | error failure => exact iff_of_false (by rintro ⟨⟩) (by rintro ⟨out, ⟨⟩⟩)
    | ok out => exact iff_of_true rfl ⟨out, rfl⟩

namespace AbbrevTablesWitness

/-- A unit with a name. -/
def unitEntry : Abbrev := ⟨1, 0x11, true, [⟨0x03, .string⟩]⟩

/-- The declaration of the unit and the code zero. -/
def table : List Byte := [1] ++ (([0x11] ++ 1 :: ([3] ++ ([8] ++ ([0] ++ [0])))) ++ [0])

theorem table_encodes : EncodesTable [unitEntry] table := by
  have hnull : IsUleb [0] 0 := rfl
  have hname : IsUleb [3] 0x03 := rfl
  have hform : IsUleb [8] 0x08 := rfl
  have htag : IsUleb [0x11] 0x11 := rfl
  have hcode : IsUleb [1] 1 := rfl
  have hspecs : EncodesSpecs [⟨0x03, .string⟩] ([3] ++ ([8] ++ ([0] ++ [0]))) :=
    .spec hname (by decide) hform (.stop hnull hnull)
  have hunit : EncodesAbbrev ⟨1, 0x11, decide ((1 : Byte) ≠ 0), [⟨0x03, .string⟩]⟩
      ([0x11] ++ 1 :: ([3] ++ ([8] ++ ([0] ++ [0])))) := .mk htag hspecs
  exact .entry hcode (by decide) hunit (.stop hnull)

end AbbrevTablesWitness

open AbbrevTablesWitness in
/-- The last table of the section is not returned. -/
theorem lastTable_not_returned :
    ¬ ∀ (entries : List Abbrev) (bytes before after : List Byte), EncodesTable entries bytes →
      (entries.map (·.code)).Nodup →
      ReadsTable (before ++ (bytes ++ after)) before.length (before.length + bytes.length)
        entries := by
  intro hall
  obtain ⟨cur, hread, -⟩ := hall [unitEntry] table [] [] table_encodes (by decide)
  have hfails : parseAbbrevTableTo table 0 = .error (.undefined "read outside the buffer") := by
    decide
  exact absurd (hfails.symm.trans hread) (by simp)

open AbbrevTablesWitness in
theorem abbrevTable_read_last :
    ¬ ReadsTable ([] ++ (table ++ [])) 0 (0 + table.length) [unitEntry] ∧
    (parseAbbrevTable ([] ++ (table ++ [])) 0 = .ok [unitEntry] ↔ DeclarationFollows []) :=
  abbrevTable_read table_encodes (by decide) [] []

end Gsdb
