/-
Reading the auxiliary vector.  The loop of `process::get_auxv` looks only at the last id
it read.  A read that fails leaves the id as it is, so the loop ends where the vector has
its null entry and hardly anywhere else.  Streams come first: a read that finds too little
fills the front of its buffer and fails the stream, and a failed stream leaves the buffer alone.
-/
import Gsdb.ProcessMemory

namespace InputStream

variable {α : Type}

/-- What is still to be read, and whether a read has failed. -/
structure Stream (α : Type) where
  rest : List α
  failed : Bool
deriving DecidableEq, Repr

/-- Read as much as a buffer holds: the buffer afterwards, and the stream. -/
def Stream.read (stream : Stream α) (buffer : List α) : List α × Stream α :=
  if stream.failed then (buffer, stream)
  else if buffer.length ≤ stream.rest.length then
    (stream.rest.take buffer.length, ⟨stream.rest.drop buffer.length, false⟩)
  else (stream.rest ++ buffer.drop stream.rest.length, ⟨[], true⟩)

section Reading

variable {stream : Stream α} {buffer items after : List α}

theorem read_failed (h : stream.failed = true) : stream.read buffer = (buffer, stream) := by
  rw [Stream.read, if_pos h]

theorem read_full (h : items.length = buffer.length) :
    Stream.read ⟨items ++ after, false⟩ buffer = (items, ⟨after, false⟩) := by
  rw [Stream.read, if_neg Bool.false_ne_true, if_pos (by rw [List.length_append]; omega), ← h,
    List.take_left, List.drop_left]

theorem read_short (h : items.length < buffer.length) :
    Stream.read ⟨items, false⟩ buffer = (items ++ buffer.drop items.length, ⟨[], true⟩) := by
  rw [Stream.read, if_neg Bool.false_ne_true, if_neg (Nat.not_le_of_lt h)]

end Reading

end InputStream

namespace Gsdb

open ByteMemory InputStream

/-- The map that is returned; its keys are of type `int`. -/
abbrev Auxv := BitVec 32 → Option Word

/-- An id as a key. -/
def auxvKey (id : Word) : BitVec 32 := id.setWidth 32

/-- Read a variable of eight bytes. -/
def readWord (stream : Stream Byte) (into : Word) : Word × Stream Byte :=
  let (bytes, stream) := stream.read (toLe 8 into.toNat)
  (BitVec.ofNat 64 (ofLe bytes), stream)

/-- The variables of `process::get_auxv`. -/
structure AuxvReader where
  stream : Stream Byte
  id : Word
  value : Word
  ret : Auxv

def AuxvReader.readId (reader : AuxvReader) : AuxvReader :=
  let (id, stream) := readWord reader.stream reader.id
  { reader with id := id, stream := stream }

def AuxvReader.readValue (reader : AuxvReader) : AuxvReader :=
  let (value, stream) := readWord reader.stream reader.value
  { reader with value := value, stream := stream }

/-- `ret[id] = value`. -/
def AuxvReader.store (reader : AuxvReader) : AuxvReader :=
  { reader with ret := Function.update reader.ret (auxvKey reader.id) (some reader.value) }

def atNull : Word := 0

/-- The loop of `process::get_auxv`, each round from its test on. -/
def getAuxvLoop : Nat → AuxvReader → Except Failure Auxv
  | 0, _ => .error (.undefined "endless loop")
  | rounds + 1, reader =>
      if reader.id = atNull then .ok reader.ret
      else getAuxvLoop rounds reader.readValue.store.readId

/-- `process::get_auxv`.  A file that cannot be opened is a stream that has failed; the variables
are not initialized, so they hold any id and value at first. -/
def getAuxv (rounds : Nat) (file : Option (List Byte)) (id value : Word) : Except Failure Auxv :=
  let auxv : Stream Byte :=
    match file with
    | some bytes => ⟨bytes, false⟩
    | none => ⟨[], true⟩
  getAuxvLoop rounds (AuxvReader.mk auxv id value fun _ => none).readId

/-- The bytes of some pairs of an id and a value. -/
def auxvBytes (pairs : List (Word × Word)) : List Byte :=
  pairs.flatMap fun pair => toLe 8 pair.1.toNat ++ toLe 8 pair.2.toNat

/-- No pair is the null entry. -/
def NoNull (pairs : List (Word × Word)) : Prop := ∀ pair ∈ pairs, pair.1 ≠ atNull

/-- A vector of pairs that its null entry ends. -/
def EndsInNull (contents : List Byte) (pairs : List (Word × Word)) : Prop :=
  NoNull pairs ∧ ∃ after, contents = auxvBytes pairs ++ (toLe 8 atNull.toNat ++ after)

/-- The value of the last pair whose id satisfies a predicate. -/
def lastValue (pairs : List (Word × Word)) (p : Word → Bool) : Option Word :=
  (pairs.reverse.find? fun pair => p pair.1).map (·.2)

/-- Reading terminates, and of a vector that its null entry ends each id is mapped to its last
value. -/
def ReadsAuxv (file : Option (List Byte)) (id value : Word) : Prop :=
  ∃ rounds ret, getAuxv rounds file id value = .ok ret ∧
    ∀ pairs, EndsInNull (file.getD []) pairs → ∀ pair ∈ pairs,
      ret (auxvKey pair.1) = lastValue pairs (· = pair.1)

/-- The last id that was read before a vector was cut off. -/
def lastId (pairs : List (Word × Word)) (id : Word) : Word := (pairs.getLast?.map (·.1)).getD id

/-- A vector that is cut off inside an id, or in front of it, where the bytes that were read and
those that the last id left behind are all zero. -/
def CutToNull (contents : List Byte) (id : Word) : Prop :=
  ∃ pairs cut, NoNull pairs ∧ contents = auxvBytes pairs ++ cut ∧ cut.length < 8 ∧
    ofLe (cut ++ (toLe 8 (lastId pairs id).toNat).drop cut.length) = 0

/-- No id loses its last value to another one with the same key. -/
def KeysApart (pairs : List (Word × Word)) : Prop :=
  ∀ pair ∈ pairs, lastValue pairs (auxvKey · = auxvKey pair.1) = lastValue pairs (· = pair.1)

section Rounds

variable {reader : AuxvReader} {rounds : Nat} {pairs : List (Word × Word)} {id value : Word}
  {ret : Auxv}

theorem getAuxvLoop_mono {ret' : Auxv} (more : Nat) (h : getAuxvLoop rounds reader = .ok ret') :
    getAuxvLoop (rounds + more) reader = .ok ret' := by
  induction rounds generalizing reader with
  | zero => cases h
  | succ rounds ih =>
      rw [Nat.succ_add]
      by_cases hnull : reader.id = atNull
      · rw [getAuxvLoop, if_pos hnull] at h ⊢
        exact h
      · rw [getAuxvLoop, if_neg hnull] at h ⊢
        exact ih h

theorem getAuxvLoop_inj {rounds' : Nat} {ret' : Auxv} (h : getAuxvLoop rounds reader = .ok ret)
    (h' : getAuxvLoop rounds' reader = .ok ret') : ret = ret' := by
  have hmore := getAuxvLoop_mono rounds' h
  have hmore' := getAuxvLoop_mono rounds h'
  rw [Nat.add_comm] at hmore'
  exact Except.ok.inj (hmore.symm.trans hmore')

theorem ofNat_toLe_word (word : Word) :
    BitVec.ofNat 64 (ofLe (toLe 8 word.toNat)) = word := by
  simp only [ofLe_toLe, show 256 ^ 8 = 2 ^ 64 from rfl, Nat.mod_eq_of_lt word.isLt,
    BitVec.ofNat_toNat, BitVec.setWidth_eq]

/-- A word is read where it stands. -/
theorem readWord_full (into word : Word) (after : List Byte) :
    readWord ⟨toLe 8 word.toNat ++ after, false⟩ into = (word, ⟨after, false⟩) := by
  have hread : Stream.read ⟨toLe 8 word.toNat ++ after, false⟩ (toLe 8 into.toNat) =
      (toLe 8 word.toNat, ⟨after, false⟩) := read_full (by rw [toLe_length, toLe_length])
  rw [readWord, hread]
  simp only [ofNat_toLe_word]

theorem readWord_failed (stream : Stream Byte) (h : stream.failed = true) (into : Word) :
    readWord stream into = (into, stream) := by
  rw [readWord, read_failed h]
  simp only [ofNat_toLe_word]

theorem readWord_short {cut : List Byte} (h : cut.length < 8) (into : Word) :
    readWord ⟨cut, false⟩ into =
      (BitVec.ofNat 64 (ofLe (cut ++ (toLe 8 into.toNat).drop cut.length)), ⟨[], true⟩) := by
  rw [readWord, read_short (by rw [toLe_length]; exact h)]

/-- On a failed stream every round is the same. -/
theorem getAuxvLoop_failed (reader : AuxvReader) (hfailed : reader.stream.failed = true)
    (hid : reader.id ≠ atNull) (rounds : Nat) :
    getAuxvLoop rounds reader = .error (.undefined "endless loop") := by
  induction rounds generalizing reader with
  | zero => rfl
  | succ rounds ih =>
      have hvalue : reader.readValue = reader := by
        rw [AuxvReader.readValue, readWord_failed _ hfailed]
      have hnext : reader.store.readId = reader.store := by
        rw [AuxvReader.readId, readWord_failed reader.store.stream hfailed]
      rw [getAuxvLoop, if_neg hid, hvalue, hnext]
      exact ih reader.store hfailed hid

theorem getAuxvLoop_null (rounds : Nat) (after : List Byte)
    (hreader : reader.stream = ⟨toLe 8 atNull.toNat ++ after, false⟩) :
    getAuxvLoop (rounds + 1) reader.readId = .ok reader.ret := by
  rw [AuxvReader.readId, hreader, readWord_full, getAuxvLoop, if_pos rfl]

/-- A pair is read and stored. -/
theorem getAuxvLoop_pair {pair : Word × Word} (hpair : pair.1 ≠ atNull) (more : List Byte)
    (hreader : reader.stream = ⟨toLe 8 pair.1.toNat ++ (toLe 8 pair.2.toNat ++ more), false⟩) :
    getAuxvLoop (rounds + 1) reader.readId = getAuxvLoop rounds
      (AuxvReader.mk ⟨more, false⟩ pair.1 pair.2
        (Function.update reader.ret (auxvKey pair.1) (some pair.2))).readId := by
  have hid : reader.readId =
      ⟨⟨toLe 8 pair.2.toNat ++ more, false⟩, pair.1, reader.value, reader.ret⟩ := by
    rw [AuxvReader.readId, hreader, readWord_full]
  have hvalue : reader.readId.readValue = ⟨⟨more, false⟩, pair.1, pair.2, reader.ret⟩ := by
    rw [hid, AuxvReader.readValue, readWord_full]
  rw [getAuxvLoop, if_neg (by rw [hid]; exact hpair), hvalue]
  rfl

/-- Pairs that are stored one after the other. -/
def storeAll (pairs : List (Word × Word)) (ret : Auxv) : Auxv :=
  pairs.foldl (fun ret pair => Function.update ret (auxvKey pair.1) (some pair.2)) ret

theorem lastId_cons (pair : Word × Word) : lastId (pair :: pairs) id = lastId pairs pair.1 := by
  rw [lastId, lastId, List.getLast?_cons]
  cases pairs.getLast? <;> rfl

theorem auxvBytes_cons (pair : Word × Word) (more : List Byte) :
    auxvBytes (pair :: pairs) ++ more =
      toLe 8 pair.1.toNat ++ (toLe 8 pair.2.toNat ++ (auxvBytes pairs ++ more)) := by
  rw [auxvBytes, List.flatMap_cons, List.append_assoc, List.append_assoc]
  rfl

/-- All pairs in front are read. -/
theorem getAuxvLoop_pairs (hpairs : NoNull pairs) (more : List Byte) :
    ∃ value', ∀ rounds, getAuxvLoop (pairs.length + rounds)
        (AuxvReader.mk ⟨auxvBytes pairs ++ more, false⟩ id value ret).readId =
      getAuxvLoop rounds
        (AuxvReader.mk ⟨more, false⟩ (lastId pairs id) value' (storeAll pairs ret)).readId := by
  induction pairs generalizing id value ret with
  | nil =>
      refine ⟨value, fun rounds => ?_⟩
      rw [List.length_nil, Nat.zero_add]
      rfl
  | cons pair pairs ih =>
      obtain ⟨value', hrest⟩ := @ih pair.1 pair.2
        (Function.update ret (auxvKey pair.1) (some pair.2))
        (fun other hmem => hpairs other (List.mem_cons_of_mem _ hmem))
      refine ⟨value', fun rounds => ?_⟩
      rw [List.length_cons, Nat.succ_add,
        getAuxvLoop_pair (hpairs pair List.mem_cons_self) (auxvBytes pairs ++ more)
          (congrArg (Stream.mk · false) (auxvBytes_cons pair more)), hrest, lastId_cons]
      rfl

theorem lastValue_append (pair : Word × Word) (p : Word → Bool) :
    lastValue (pairs ++ [pair]) p = if p pair.1 then some pair.2 else lastValue pairs p := by
  rw [lastValue, List.reverse_append, List.reverse_singleton, List.singleton_append,
    List.find?_cons]
  cases p pair.1 <;> rfl

/-- Each key is mapped to the value that was stored last. -/
theorem storeAll_apply (pairs : List (Word × Word)) (key : BitVec 32) :
    storeAll pairs (fun _ => none) key = lastValue pairs (auxvKey · = key) := by
  induction pairs using List.reverseRecOn with
  | nil => rfl
  | append_singleton pairs pair ih =>
      rw [storeAll, List.foldl_append, lastValue_append]
      change Function.update (storeAll pairs fun _ => none) (auxvKey pair.1) (some pair.2) key = _
      by_cases hkey : auxvKey pair.1 = key
      · rw [if_pos (decide_eq_true hkey), ← hkey, Function.update_self]
      · rw [if_neg (by simpa using hkey), Function.update_of_ne (Ne.symm hkey), ih]

/-- Behind a read of an id that was cut off, the loop ends at once or never. -/
theorem getAuxvLoop_cut (reader : AuxvReader) {cut : List Byte} (hcut : cut.length < 8)
    (hreader : reader.stream = ⟨cut, false⟩) :
    (∃ rounds ret', getAuxvLoop rounds reader.readId = .ok ret') ↔
      ofLe (cut ++ (toLe 8 reader.id.toNat).drop cut.length) = 0 := by
  have hlt := ofLe_lt (cut ++ (toLe 8 reader.id.toNat).drop cut.length)
  rw [List.length_append, List.length_drop, toLe_length, Nat.add_sub_cancel' hcut.le,
    show 256 ^ 8 = 2 ^ 64 from rfl] at hlt
  have hread : reader.readId = ⟨⟨[], true⟩,
      BitVec.ofNat 64 (ofLe (cut ++ (toLe 8 reader.id.toNat).drop cut.length)), reader.value,
      reader.ret⟩ := by
    rw [AuxvReader.readId, hreader, readWord_short hcut]
  have hzero : BitVec.ofNat 64 (ofLe (cut ++ (toLe 8 reader.id.toNat).drop cut.length)) = atNull ↔
      ofLe (cut ++ (toLe 8 reader.id.toNat).drop cut.length) = 0 := by
    rw [← BitVec.toNat_inj, BitVec.toNat_ofNat, Nat.mod_eq_of_lt hlt]
    rfl
  rw [hread, ← hzero]
  constructor
  · rintro ⟨rounds, ret', hloop⟩
    by_contra hid
    rw [getAuxvLoop_failed _ (by rfl) hid] at hloop
    cases hloop
  · intro hid
    exact ⟨1, reader.ret, if_pos hid⟩

/-- A vector that is cut off inside a value is never read to an end. -/
theorem getAuxvLoop_cutValue {word : Word} (hword : word ≠ atNull) {cut : List Byte}
    (hcut : cut.length < 8) (hreader : reader.stream = ⟨toLe 8 word.toNat ++ cut, false⟩)
    (rounds : Nat) : getAuxvLoop rounds reader.readId = .error (.undefined "endless loop") := by
  cases rounds with
  | zero => rfl
  | succ rounds =>
      have hid : reader.readId = ⟨⟨cut, false⟩, word, reader.value, reader.ret⟩ := by
        rw [AuxvReader.readId, hreader, readWord_full]
      have hvalue : reader.readId.readValue.stream.failed = true ∧
          reader.readId.readValue.id = word := by
        rw [hid, AuxvReader.readValue, readWord_short hcut]
        exact ⟨rfl, rfl⟩
      have hnext : reader.readId.readValue.store.readId = reader.readId.readValue.store := by
        rw [AuxvReader.readId, readWord_failed reader.readId.readValue.store.stream hvalue.1]
      rw [getAuxvLoop, if_neg (by rw [hid]; exact hword), hnext]
      exact getAuxvLoop_failed reader.readId.readValue.store hvalue.1 (hvalue.2 ▸ hword) rounds

end Rounds

/-- A word stands in front of eight bytes or more. -/
theorem exists_word_front {contents : List Byte} (h : 8 ≤ contents.length) :
    ∃ word : Word, contents = toLe 8 word.toNat ++ contents.drop 8 := by
  have hfirst : toLe 8 (BitVec.ofNat 64 (ofLe (contents.take 8))).toNat = contents.take 8 :=
    toNat_ofNat_ofLe (by rw [List.length_take]; omega)
  exact ⟨_, by rw [hfirst, List.take_append_drop]⟩

/-- What stands behind the pairs in front of a vector's end. -/
theorem auxv_shape (contents : List Byte) : ∃ pairs rest, NoNull pairs ∧
    contents = auxvBytes pairs ++ rest ∧
    (rest.length < 8 ∨ (∃ after, rest = toLe 8 atNull.toNat ++ after) ∨
      ∃ word cut, word ≠ atNull ∧ cut.length < 8 ∧ rest = toLe 8 word.toNat ++ cut) := by
  induction hlength : contents.length using Nat.strongRecOn generalizing contents with
  | ind length ih =>
      have hnone : NoNull [] := by simp [NoNull]
      by_cases hshort : contents.length < 8
      · exact ⟨[], contents, hnone, rfl, .inl hshort⟩
      obtain ⟨word, hsplit⟩ := exists_word_front (by omega : 8 ≤ contents.length)
      by_cases hnull : word = atNull
      · subst hnull
        exact ⟨[], contents, hnone, rfl, .inr (.inl ⟨_, hsplit⟩)⟩
      by_cases hcut : (contents.drop 8).length < 8
      · exact ⟨[], contents, hnone, rfl, .inr (.inr ⟨word, _, hnull, hcut, hsplit⟩)⟩
      obtain ⟨value, hsecond⟩ := exists_word_front (Nat.le_of_not_lt hcut)
      rw [List.drop_drop] at hsecond
      obtain ⟨pairs, rest, hpairs, hrest, hend⟩ :=
        ih (contents.drop 16).length (by rw [List.length_drop]; omega) (contents.drop 16) rfl
      refine ⟨(word, value) :: pairs, rest, ?_, ?_, hend⟩
      · intro pair hmem
        rcases List.mem_cons.mp hmem with rfl | hmem
        · exact hnull
        · exact hpairs pair hmem
      · rw [auxvBytes_cons, ← hrest, ← hsecond]
        exact hsplit

section Vectors

variable {file : Option (List Byte)} {id value : Word}

/-- What cannot be opened is read like an empty file. -/
theorem getAuxv_getD (rounds : Nat) (file : Option (List Byte)) (id value : Word) :
    getAuxv rounds file id value =
      getAuxvLoop rounds
        (AuxvReader.mk ⟨file.getD [], false⟩ id value fun _ => none).readId := by
  cases file with
  | some contents => rfl
  | none =>
      have hfailed : (AuxvReader.mk ⟨[], true⟩ id value fun _ => none).readId =
          ⟨⟨[], true⟩, id, value, fun _ => none⟩ := by
        rw [AuxvReader.readId, readWord_failed _ rfl]
      have hempty : (AuxvReader.mk ⟨[], false⟩ id value fun _ => none).readId =
          ⟨⟨[], true⟩, id, value, fun _ => none⟩ := by
        rw [AuxvReader.readId, readWord_short (by decide)]
        simp only [List.nil_append, List.length_nil, List.drop_zero, ofNat_toLe_word]
      exact congrArg (getAuxvLoop rounds) (hfailed.trans hempty.symm)

/-- A vector that its null entry ends is read up to there. -/
theorem EndsInNull.reads {pairs : List (Word × Word)} (h : EndsInNull (file.getD []) pairs) :
    getAuxv (pairs.length + 1) file id value = .ok (storeAll pairs fun _ => none) := by
  obtain ⟨hpairs, after, hcontents⟩ := h
  rw [getAuxv_getD, hcontents]
  obtain ⟨value', hrun⟩ := @getAuxvLoop_pairs pairs id value (fun _ => none) hpairs
    (toLe 8 atNull.toNat ++ after)
  rw [hrun]
  exact getAuxvLoop_null 0 after rfl

theorem getAuxv_terminates_iff :
    (∃ rounds ret, getAuxv rounds file id value = .ok ret) ↔
      (∃ pairs, EndsInNull (file.getD []) pairs) ∨ CutToNull (file.getD []) id := by
  constructor
  · rintro ⟨rounds, ret, hrun⟩
    obtain ⟨pairs, rest, hpairs, hcontents, hend⟩ := auxv_shape (file.getD [])
    rw [getAuxv_getD, hcontents] at hrun
    obtain ⟨value', hrest⟩ := @getAuxvLoop_pairs pairs id value (fun _ => none) hpairs rest
    have hmore := getAuxvLoop_mono pairs.length hrun
    rw [Nat.add_comm, hrest] at hmore
    rcases hend with hcut | ⟨after, rfl⟩ | ⟨word, cut, hword, hcut, rfl⟩
    · exact .inr ⟨pairs, rest, hpairs, hcontents, hcut,
        (getAuxvLoop_cut _ hcut (by rfl)).mp ⟨rounds, ret, hmore⟩⟩
    · exact .inl ⟨pairs, hpairs, after, hcontents⟩
    · rw [getAuxvLoop_cutValue hword hcut (by rfl)] at hmore
      cases hmore
  · rintro (⟨pairs, hnull⟩ | ⟨pairs, cut, hpairs, hcontents, hcut, hzero⟩)
    · exact ⟨_, _, hnull.reads⟩
    · simp only [getAuxv_getD, hcontents]
      obtain ⟨value', hrun⟩ := @getAuxvLoop_pairs pairs id value (fun _ => none) hpairs cut
      have hread : AuxvReader.stream ⟨⟨cut, false⟩, lastId pairs id, value',
          storeAll pairs fun _ => none⟩ = ⟨cut, false⟩ := rfl
      obtain ⟨rounds, ret, hend⟩ := (getAuxvLoop_cut _ hcut hread).mpr hzero
      exact ⟨pairs.length + rounds, ret, (hrun rounds).trans hend⟩

end Vectors

/-- The auxiliary vector is read exactly if its null entry ends it, or a cut leaves zeros in the id,
and no key is overwritten for another id. -/
theorem readsAuxv_iff (file : Option (List Byte)) (id value : Word) :
    ReadsAuxv file id value ↔
      ((∃ pairs, EndsInNull (file.getD []) pairs) ∨ CutToNull (file.getD []) id) ∧
        ∀ pairs, EndsInNull (file.getD []) pairs → KeysApart pairs := by
  constructor
  · rintro ⟨rounds, ret, hrun, hmapped⟩
    refine ⟨getAuxv_terminates_iff.mp ⟨rounds, ret, hrun⟩, fun pairs hnull pair hmem => ?_⟩
    have hread := @EndsInNull.reads file id value pairs hnull
    rw [getAuxv_getD] at hrun hread
    obtain rfl := getAuxvLoop_inj hrun hread
    rw [← hmapped pairs hnull pair hmem, storeAll_apply]
  · rintro ⟨hends, hapart⟩
    obtain ⟨rounds, ret, hrun⟩ := (@getAuxv_terminates_iff file id value).mpr hends
    refine ⟨rounds, ret, hrun, fun pairs hnull pair hmem => ?_⟩
    have hread := @EndsInNull.reads file id value pairs hnull
    rw [getAuxv_getD] at hrun hread
    obtain rfl := getAuxvLoop_inj hrun hread
    rw [storeAll_apply]
    exact hapart pairs hnull pair hmem

/-- A vector that is cut off behind its first pair is read for ever. -/
theorem cutVector_not_read : ¬ ∀ (file : Option (List Byte)) (id value : Word),
    ReadsAuxv file id value := by
  intro hall
  obtain ⟨rounds, ret, hrun, -⟩ := hall (some (auxvBytes [(33, 7)] ++ [])) 0 0
  rw [getAuxv_getD, Option.getD_some] at hrun
  have hpair : NoNull [(33, 7)] := by
    intro pair hmem
    rw [List.mem_singleton.mp hmem]
    decide
  obtain ⟨value', hpairs⟩ := @getAuxvLoop_pairs [(33, 7)] 0 0 (fun _ => none) hpair []
  have hmore := getAuxvLoop_mono 1 hrun
  rw [Nat.add_comm] at hmore
  have hread : AuxvReader.stream ⟨⟨[], false⟩, lastId [(33, 7)] 0, value',
      storeAll [(33, 7)] fun _ => none⟩ = ⟨[], false⟩ := rfl
  have hzero : ofLe ([] ++ (toLe 8 (lastId [(33, 7)] 0).toNat).drop 0) = 0 :=
    (getAuxvLoop_cut _ (by decide) hread).mp ⟨rounds, ret, (hpairs rounds).symm.trans hmore⟩
  have hlast : lastId [(33, 7)] 0 = 33 := rfl
  rw [hlast] at hzero
  exact absurd hzero (by decide)

end Gsdb
