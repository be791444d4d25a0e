import Mathlib.Data.Finset.Card
import Mathlib.Data.Finset.Range
import TM2C.Common

/-!
# Reader-writer entries of the lock table

`SSHT_BIT_OPTS` selects one of two encodings of the locks held on an address: a
counter with one byte per reader (`include/ssht.h`), or a 64-bit reader bitmap
(`include/rw_entry_ssht.h`).  The bucket code is the same text for both up to
the operations collected in `RwEntry`; `LawfulRwEntry` states what the two
encodings have in common, and where they differ: the byte array counts, so a
reader may be added and dropped only once (`exact`), while the bitmap forgives
repetitions.

The operations are those of the macros: a new entry, adding and dropping a reader, setting and
clearing the writer, and the questions that the code asks an entry.  The laws say what the
questions answer after each operation, for valid entries.  `ByteEntry.Counted` is validity for the
byte array, that `nr` is the number of the flags set, and it is why `exact` stands before the
laws on readers: to add a flag that is set, or to drop one that is not, makes the count wrong.
`idBound` is the number of nodes that an encoding can tell apart, and no id below it reads as
0xFF.
-/

namespace TM2C

def SSHT_NO_WRITER : Nat := 0xFF

/-- `MAX_READERS` of the byte array: `TM2C_MAX_PROCS`, `MAX_PROCS` of the settings. -/
def MAX_READERS : Nat := 256

/-- The operations on an entry that the bucket code uses under both settings. -/
class RwEntry (E : Type) where
  new : E
  writer : E → Nat
  -- `e->writer = w`, an assignment to a `uint8_t`
  setWriter : E → Nat → E
  -- the reader flags, as `contention_manager_war` is given them
  isReader : E → Nat → Bool
  -- the read lock of a slot taken anew
  addReader : E → Nat → E
  -- the read lock of a slot that already has the address; `none` when nothing is logged
  addReaderFound : E → Nat → Option E
  dropReader : E → Nat → E
  -- the condition under which a writer is arbitrated against the readers
  hasOtherReaders : E → Nat → Bool
  isEmpty : E → Bool

/-! ### The byte array -/

/-- `ssht_rw_entry_t` without `BIT_OPTS`; `nr` and `writer` are `uint8_t`. -/
structure ByteEntry where
  nr : Nat
  reader : Nat → Bool
  writer : Nat

/-- `e->nr++; e->reader[id] = 1;` -/
def ByteEntry.addReader (e : ByteEntry) (id : Nat) : ByteEntry :=
  { e with nr := (e.nr + 1) % 256, reader := Function.update e.reader id true }

/-- `entry->reader[id] = 0; entry->nr--;` -/
def ByteEntry.dropReader (e : ByteEntry) (id : Nat) : ByteEntry :=
  { e with nr := (e.nr + 255) % 256, reader := Function.update e.reader id false }

instance : RwEntry ByteEntry where
  new := ⟨0, fun _ => false, SSHT_NO_WRITER⟩
  writer e := e.writer
  setWriter e w := { e with writer := w % 256 }
  isReader e id := e.reader id
  addReader e id := e.addReader id
  addReaderFound e id := if e.reader id then none else some (e.addReader id)
  dropReader e id := e.dropReader id
  hasOtherReaders e id := decide (1 < e.nr) || (e.nr == 1 && !e.reader id)
  isEmpty e := e.nr == 0 && e.writer == SSHT_NO_WRITER

/-! ### The bitmap -/

/-- `ssht_rw_entry_t` of `rw_entry_ssht.h`. -/
structure BitEntry where
  readers : BitVec 64
  writer : Nat
deriving DecidableEq, Repr

def NO_READERS : BitVec 64 := 0

def rwEntrySshtIsMember (rwe : BitEntry) (id : Nat) : Bool :=
  (rwe.readers >>> id) &&& 1#64 == 1#64

def rwEntrySshtSet (rwe : BitEntry) (id : Nat) : BitEntry :=
  { rwe with readers := rwe.readers ||| (1#64 <<< id) }

def rwEntrySshtUnset (rwe : BitEntry) (id : Nat) : BitEntry :=
  { rwe with readers := rwe.readers &&& ~~~(1#64 <<< id) }

def rwEntrySshtIsEmpty (rwe : BitEntry) : Bool :=
  rwe.readers == NO_READERS && rwe.writer == SSHT_NO_WRITER

def rwEntrySshtHasReaders (rwe : BitEntry) : Bool := rwe.readers != NO_READERS

def rwEntrySshtIsUniqueReader (rwe : BitEntry) (id : Nat) : Bool :=
  (rwEntrySshtSet ⟨NO_READERS, SSHT_NO_WRITER⟩ id).readers == rwe.readers

/-- `readers[i]` after the `i`-th turn of the loop, whose `convert` is `readers >> i`. -/
def rwEntrySshtFetchReaders (rwe : BitEntry) (i : Nat) : Bool := rwEntrySshtIsMember rwe i

instance : RwEntry BitEntry where
  new := ⟨NO_READERS, SSHT_NO_WRITER⟩
  writer rwe := rwe.writer
  setWriter rwe w := { rwe with writer := w % 256 }
  isReader rwe id := rwEntrySshtFetchReaders rwe id
  addReader rwe id := rwEntrySshtSet rwe id
  addReaderFound rwe id := some (rwEntrySshtSet rwe id)
  dropReader rwe id := rwEntrySshtUnset rwe id
  hasOtherReaders rwe id := rwEntrySshtHasReaders rwe && !rwEntrySshtIsUniqueReader rwe id
  isEmpty rwe := rwEntrySshtIsEmpty rwe

/-! ### What both encodings guarantee -/

open RwEntry

/-- `Valid` is what the encoding needs to be read correctly; node ids are below
`idBound`.  When `exact` holds a reader is added only when it is absent and
dropped only when it is present. -/
class LawfulRwEntry (E : Type) extends RwEntry E where
  idBound : Nat
  exact : Bool
  Valid : E → Prop
  idBound_le : idBound ≤ SSHT_NO_WRITER
  valid_new : Valid (RwEntry.new : E)
  writer_new : writer (RwEntry.new : E) = SSHT_NO_WRITER
  isReader_new : ∀ m, isReader (RwEntry.new : E) m = false
  reader_lt : ∀ {e m}, Valid e → isReader e m = true → m < idBound
  valid_setWriter : ∀ {e w}, Valid e → Valid (setWriter e w)
  writer_setWriter : ∀ {e w}, writer (setWriter e w) = w % 256
  isReader_setWriter : ∀ {e w m}, isReader (setWriter e w) m = isReader e m
  valid_addReader : ∀ {e n}, Valid e → n < idBound → (exact = true → isReader e n = false) →
    Valid (addReader e n)
  writer_addReader : ∀ {e n}, writer (addReader e n) = writer e
  isReader_addReader : ∀ {e n m}, n < idBound →
    isReader (addReader e n) m = (decide (m = n) || isReader e m)
  addReaderFound_none : ∀ {e n}, addReaderFound e n = none → exact = true ∧ isReader e n = true
  addReaderFound_some : ∀ {e e' n}, addReaderFound e n = some e' →
    e' = addReader e n ∧ (exact = true → isReader e n = false)
  valid_dropReader : ∀ {e n}, Valid e → n < idBound → (exact = true → isReader e n = true) →
    Valid (dropReader e n)
  writer_dropReader : ∀ {e n}, writer (dropReader e n) = writer e
  isReader_dropReader : ∀ {e n m}, n < idBound →
    isReader (dropReader e n) m = (decide (m ≠ n) && isReader e m)
  hasOtherReaders_iff : ∀ {e n}, Valid e → n < idBound →
    (hasOtherReaders e n = true ↔ ∃ m, m ≠ n ∧ isReader e m = true)
  isEmpty_iff : ∀ {e}, Valid e →
    (isEmpty e = true ↔ writer e = SSHT_NO_WRITER ∧ ∀ m, isReader e m = false)

/-- The reader flags of a byte-array entry that are set. -/
def ByteEntry.readerSet (e : ByteEntry) : Finset Nat :=
  (Finset.range MAX_READERS).filter fun m => e.reader m = true

/-- The counter counts the flags, and only nodes below 255 have one. -/
structure ByteEntry.Counted (e : ByteEntry) : Prop where
  nr_eq : e.nr = e.readerSet.card
  reader_lt : ∀ m, e.reader m = true → m < SSHT_NO_WRITER

theorem ByteEntry.Counted.card_lt {e : ByteEntry} (h : e.Counted) : e.readerSet.card < 256 := by
  have hsub : e.readerSet ⊆ Finset.range SSHT_NO_WRITER := by
    intro m hm
    exact Finset.mem_range.mpr (h.reader_lt m (Finset.mem_filter.mp hm).2)
  have hcard := Finset.card_le_card hsub
  rw [Finset.card_range] at hcard
  unfold SSHT_NO_WRITER at hcard
  omega

theorem ByteEntry.readerSet_addReader {e : ByteEntry} {n : Nat} (hn : n < MAX_READERS) :
    (e.addReader n).readerSet = insert n e.readerSet := by
  ext m
  simp only [ByteEntry.readerSet, ByteEntry.addReader, Finset.mem_filter, Finset.mem_range,
    Finset.mem_insert, Function.update_apply]
  by_cases hmn : m = n
  · subst hmn
    simp [hn]
  · simp [hmn]

theorem ByteEntry.readerSet_dropReader (e : ByteEntry) (n : Nat) :
    (e.dropReader n).readerSet = e.readerSet.erase n := by
  ext m
  simp only [ByteEntry.readerSet, ByteEntry.dropReader, Finset.mem_filter, Finset.mem_range,
    Finset.mem_erase, Function.update_apply]
  by_cases hmn : m = n
  · subst hmn
    simp
  · simp [hmn]

theorem ByteEntry.Counted.mem_readerSet {e : ByteEntry} (h : e.Counted) {m : Nat} :
    m ∈ e.readerSet ↔ e.reader m = true := by
  simp only [ByteEntry.readerSet, Finset.mem_filter, Finset.mem_range, and_iff_right_iff_imp]
  intro hm
  have := h.reader_lt m hm
  unfold SSHT_NO_WRITER at this
  unfold MAX_READERS
  omega

theorem ByteEntry.Counted.addReader {e : ByteEntry} {n : Nat} (h : e.Counted)
    (hn : n < SSHT_NO_WRITER) (hfree : e.reader n = false) : (e.addReader n).Counted := by
  have hmem : n ∉ e.readerSet := by
    rw [h.mem_readerSet, hfree]
    simp
  have hset : (e.addReader n).readerSet = insert n e.readerSet :=
    ByteEntry.readerSet_addReader (by unfold SSHT_NO_WRITER at hn; unfold MAX_READERS; omega)
  have hlt : ∀ m, (e.addReader n).reader m = true → m < SSHT_NO_WRITER := by
    intro m hm
    simp only [ByteEntry.addReader, Function.update_apply] at hm
    by_cases hmn : m = n
    · exact hmn ▸ hn
    · rw [if_neg hmn] at hm
      exact h.reader_lt m hm
  refine ⟨?_, hlt⟩
  have hcard : (insert n e.readerSet).card = e.readerSet.card + 1 :=
    Finset.card_insert_of_notMem hmem
  -- 255 ids fit the counter: the new set is one of ids below 255 again
  have hbound : (insert n e.readerSet).card < 256 := by
    have hsub : insert n e.readerSet ⊆ Finset.range SSHT_NO_WRITER := by
      intro m hm
      rw [← hset] at hm
      exact Finset.mem_range.mpr (hlt m (Finset.mem_filter.mp hm).2)
    have hle := Finset.card_le_card hsub
    rw [Finset.card_range] at hle
    unfold SSHT_NO_WRITER at hle
    omega
  rw [hset, hcard]
  rw [hcard] at hbound
  simp only [ByteEntry.addReader, h.nr_eq]
  exact Nat.mod_eq_of_lt hbound

theorem ByteEntry.Counted.dropReader {e : ByteEntry} {n : Nat} (h : e.Counted)
    (hheld : e.reader n = true) : (e.dropReader n).Counted := by
  have hmem : n ∈ e.readerSet := h.mem_readerSet.mpr hheld
  refine ⟨?_, ?_⟩
  · have hpos : 0 < e.readerSet.card := Finset.card_pos.mpr ⟨n, hmem⟩
    have hlt := h.card_lt
    rw [ByteEntry.readerSet_dropReader, Finset.card_erase_of_mem hmem]
    simp only [ByteEntry.dropReader, h.nr_eq]
    omega
  · intro m hm
    simp only [ByteEntry.dropReader, Function.update_apply] at hm
    by_cases hmn : m = n
    · rw [if_pos hmn] at hm
      simp at hm
    · rw [if_neg hmn] at hm
      exact h.reader_lt m hm

theorem ByteEntry.Counted.hasOtherReaders_iff {e : ByteEntry} (h : e.Counted) (n : Nat) :
    hasOtherReaders e n = true ↔ ∃ m, m ≠ n ∧ e.reader m = true := by
  have hdef : hasOtherReaders e n = (decide (1 < e.nr) || (e.nr == 1 && !e.reader n)) := rfl
  rw [hdef, Bool.or_eq_true, Bool.and_eq_true, decide_eq_true_eq, beq_iff_eq,
    Bool.not_eq_true', h.nr_eq]
  constructor
  · rintro (hmany | ⟨hone, hnot⟩)
    · obtain ⟨m, hm, hmn⟩ := Finset.exists_mem_ne hmany n
      exact ⟨m, hmn, h.mem_readerSet.mp hm⟩
    · obtain ⟨m, hm⟩ := Finset.card_eq_one.mp hone
      have hread : e.reader m = true := h.mem_readerSet.mp (by rw [hm]; simp)
      refine ⟨m, ?_, hread⟩
      rintro rfl
      rw [hread] at hnot
      simp at hnot
  · rintro ⟨m, hmn, hread⟩
    have hm : m ∈ e.readerSet := h.mem_readerSet.mpr hread
    by_cases hn : e.reader n = true
    · left
      exact Finset.one_lt_card.mpr ⟨m, hm, n, h.mem_readerSet.mpr hn, hmn⟩
    · have hpos : 0 < e.readerSet.card := Finset.card_pos.mpr ⟨m, hm⟩
      have hn' : e.reader n = false := by simpa using hn
      by_cases hone : e.readerSet.card = 1
      · exact Or.inr ⟨hone, hn'⟩
      · left
        omega

theorem ByteEntry.Counted.isEmpty_iff {e : ByteEntry} (h : e.Counted) :
    isEmpty e = true ↔ e.writer = SSHT_NO_WRITER ∧ ∀ m, e.reader m = false := by
  have hdef : isEmpty e = (e.nr == 0 && e.writer == SSHT_NO_WRITER) := rfl
  rw [hdef, Bool.and_eq_true, beq_iff_eq, beq_iff_eq, h.nr_eq, Finset.card_eq_zero]
  constructor
  · rintro ⟨hnr, hw⟩
    refine ⟨hw, ?_⟩
    intro m
    by_contra hm
    have hmem : m ∈ e.readerSet := h.mem_readerSet.mpr (by simpa using hm)
    rw [hnr] at hmem
    simp at hmem
  · rintro ⟨hw, hnone⟩
    refine ⟨?_, hw⟩
    rw [Finset.eq_empty_iff_forall_notMem]
    intro m hm
    have := h.mem_readerSet.mp hm
    rw [hnone m] at this
    simp at this

instance : LawfulRwEntry ByteEntry where
  idBound := SSHT_NO_WRITER
  exact := true
  Valid := ByteEntry.Counted
  idBound_le := Nat.le_refl _
  valid_new := ⟨by simp [RwEntry.new, ByteEntry.readerSet], by simp [RwEntry.new]⟩
  writer_new := rfl
  isReader_new _ := rfl
  reader_lt h hm := h.reader_lt _ hm
  valid_setWriter h := ⟨h.nr_eq, h.reader_lt⟩
  writer_setWriter := rfl
  isReader_setWriter := rfl
  valid_addReader h hn hfree := h.addReader hn (hfree rfl)
  writer_addReader := rfl
  isReader_addReader {e n m} _ := by
    by_cases hmn : m = n <;>
      simp [RwEntry.isReader, RwEntry.addReader, ByteEntry.addReader, hmn]
  addReaderFound_none {e n} h := by
    by_cases hr : e.reader n = true
    · exact ⟨rfl, hr⟩
    · simp [RwEntry.addReaderFound, hr] at h
  addReaderFound_some {e e' n} h := by
    by_cases hr : e.reader n = true
    · simp [RwEntry.addReaderFound, hr] at h
    · have hr' : e.reader n = false := by simpa using hr
      simp only [RwEntry.addReaderFound, hr', Bool.false_eq_true, if_false,
        Option.some.injEq] at h
      exact ⟨h.symm, fun _ => hr'⟩
  valid_dropReader h _ hheld := h.dropReader (hheld rfl)
  writer_dropReader := rfl
  isReader_dropReader {e n m} _ := by
    by_cases hmn : m = n <;>
      simp [RwEntry.isReader, RwEntry.dropReader, ByteEntry.dropReader, hmn]
  hasOtherReaders_iff h _ := h.hasOtherReaders_iff _
  isEmpty_iff h := h.isEmpty_iff

/-! ### The bitmap is lawful -/

theorem rwEntrySshtIsMember_eq (rwe : BitEntry) (id : Nat) :
    rwEntrySshtIsMember rwe id = rwe.readers.getLsbD id := by
  have hbit : (rwe.readers >>> id) &&& 1#64 = if rwe.readers.getLsbD id then 1#64 else 0#64 := by
    ext i hi
    by_cases hi0 : i = 0
    · subst hi0
      cases h : rwe.readers.getLsbD id <;> simp [h]
    · cases h : rwe.readers.getLsbD id <;> simp [hi0]
  unfold rwEntrySshtIsMember
  rw [hbit]
  cases rwe.readers.getLsbD id <;> decide

theorem getLsbD_one_shiftLeft {n m : Nat} (hn : n < 64) :
    (1#64 <<< n).getLsbD m = decide (m = n) := by
  by_cases hmn : m = n
  · subst hmn
    simp [hn]
  · by_cases hlt : m < n
    · simp [hmn, hlt]
    · have hne : m - n ≠ 0 := by omega
      simp [hmn, hne]

instance : LawfulRwEntry BitEntry where
  idBound := 64
  exact := false
  Valid _ := True
  idBound_le := by decide
  valid_new := trivial
  writer_new := rfl
  isReader_new m := by
    simp [RwEntry.isReader, RwEntry.new, rwEntrySshtFetchReaders, rwEntrySshtIsMember_eq,
      NO_READERS]
  reader_lt {e m} _ hm := by
    simp only [RwEntry.isReader, rwEntrySshtFetchReaders, rwEntrySshtIsMember_eq] at hm
    by_contra hge
    rw [BitVec.getLsbD_of_ge _ _ (by omega)] at hm
    simp at hm
  valid_setWriter _ := trivial
  writer_setWriter := rfl
  isReader_setWriter := rfl
  valid_addReader _ _ _ := trivial
  writer_addReader := rfl
  isReader_addReader {e n m} hn := by
    simp only [RwEntry.isReader, RwEntry.addReader, rwEntrySshtFetchReaders,
      rwEntrySshtIsMember_eq, rwEntrySshtSet, BitVec.getLsbD_or, getLsbD_one_shiftLeft hn]
    exact Bool.or_comm _ _
  addReaderFound_none h := by simp [RwEntry.addReaderFound] at h
  addReaderFound_some {e e' n} h := by
    simp only [RwEntry.addReaderFound, Option.some.injEq] at h
    exact ⟨h.symm, fun h => by simp at h⟩
  valid_dropReader _ _ _ := trivial
  writer_dropReader := rfl
  isReader_dropReader {e n m} hn := by
    simp only [RwEntry.isReader, RwEntry.dropReader, rwEntrySshtFetchReaders,
      rwEntrySshtIsMember_eq, rwEntrySshtUnset, BitVec.getLsbD_and, BitVec.getLsbD_not,
      getLsbD_one_shiftLeft hn]
    by_cases hm : m < 64
    · by_cases hmn : m = n <;> simp [hm, hmn]
    · rw [BitVec.getLsbD_of_ge _ _ (by omega)]
      simp
  hasOtherReaders_iff {e n} _ hn := by
    simp only [RwEntry.hasOtherReaders, RwEntry.isReader, rwEntrySshtFetchReaders,
      rwEntrySshtIsMember_eq, rwEntrySshtHasReaders, rwEntrySshtIsUniqueReader, rwEntrySshtSet,
      Bool.and_eq_true, bne_iff_ne, Bool.not_eq_true', beq_eq_false_iff_ne]
    constructor
    · rintro ⟨hsome, hother⟩
      by_contra hnone
      have hnone' : ∀ m, m ≠ n → e.readers.getLsbD m = false := by
        intro m hmn
        by_contra hm
        exact hnone ⟨m, hmn, by simpa using hm⟩
      by_cases hself : e.readers.getLsbD n = true
      · apply hother
        apply BitVec.eq_of_getLsbD_eq
        intro i _
        rw [BitVec.getLsbD_or, getLsbD_one_shiftLeft hn]
        by_cases hin : i = n
        · subst hin
          simp [hself]
        · simp [hin, hnone' i hin, NO_READERS]
      · apply hsome
        apply BitVec.eq_of_getLsbD_eq
        intro i _
        by_cases hin : i = n
        · subst hin
          simpa [NO_READERS] using hself
        · simp [hnone' i hin, NO_READERS]
    · rintro ⟨m, hmn, hm⟩
      constructor
      · intro hzero
        rw [hzero] at hm
        simp [NO_READERS] at hm
      · intro heq
        rw [← heq, BitVec.getLsbD_or, getLsbD_one_shiftLeft hn] at hm
        simp [NO_READERS, hmn] at hm
  isEmpty_iff {e} _ := by
    simp only [RwEntry.isEmpty, RwEntry.writer, RwEntry.isReader, rwEntrySshtFetchReaders,
      rwEntrySshtIsMember_eq, rwEntrySshtIsEmpty, Bool.and_eq_true, beq_iff_eq]
    constructor
    · rintro ⟨hr, hw⟩
      exact ⟨hw, fun m => by simp [hr, NO_READERS]⟩
    · rintro ⟨hw, hnone⟩
      refine ⟨?_, hw⟩
      apply BitVec.eq_of_getLsbD_eq
      intro i _
      rw [hnone i]
      simp [NO_READERS]

end TM2C
