import TM2C.Insertion
import TM2C.PgasMemory
import TM2C.ReleaseAll
import TM2C.System

/-!
# The timestamps of GREEDY

With `GREEDY_GLOBAL_TS` a transaction draws its `start_ts` from a global counter and
keeps it until it commits.  A service node stores the `start_ts` of the first message
that finds no timestamp of its sender, and forgets it with a `RMV_NODE` and with a
refusal.  Application nodes, service nodes and the messages between them are modelled
here, with every message of `dsl_service` but the statistics.  The locks that a node
has in a table belong to the transaction whose `start_ts` is stored as long as no
request is sent on top of what an earlier transaction left behind.

The system has the tables themselves, with ghost fields for what the statements are about: for
each lock the `start_ts` of the transaction whose request entered it, and for each number the
node that drew it.  Three things hold of a run.  A drawn number is one node's (`Drawn`).  What a
node has in flight fits what it is doing (`Pending`): one question at a time, behind releases
only, and the stored timestamp followed by the messages on their way comes out at the number that
the node believes the service node has.  And every lock in a table was entered under the timestamp
that is stored for its node (`Tables`).

The step lemma is split by who moves.  `MovesOnly` and `Pending.send` are for application nodes,
whose moves touch no table; `Pending.handled` and the lemmas on insertion and deletion are for a
service node, whose moves change the accounts of the sender alone.  `insertion_grants` describes a
request that is granted, victim by victim.  What is said of arbitration then follows in every
state of such a run, and the second run of the last section shows what happens when a request is
sent on top of an earlier transaction's locks.
-/

namespace TM2C

open RwEntry LawfulRwEntry Transition

/-! ### The locks in a table -/

section Marks

variable {E : Type} [LawfulRwEntry E] {t : Ssht E} {n : Nat}

/-- The node has a lock in the slot. -/
def Marks {E : Type} [RwEntry E] (t : Ssht E) (p : SlotPtr) (n : Nat) : RW → Prop
  | .read => ∃ sl, t.slot? p = some sl ∧ isReader sl.entry n = true
  | .write => ∃ sl, t.slot? p = some sl ∧ writer sl.entry = n

theorem Marks.lockCount_pos {p : SlotPtr} {k : RW} (h : Marks t p n k) : 0 < t.lockCount p n := by
  cases k with
  | read =>
    obtain ⟨sl, hslot, hread⟩ := h
    rw [Ssht.lockCount_of_slot hslot, entryLocks_pos_iff]
    exact Or.inl hread
  | write =>
    obtain ⟨sl, hslot, hw⟩ := h
    rw [Ssht.lockCount_of_slot hslot, entryLocks_pos_iff]
    exact Or.inr hw

theorem Absent.not_marks (h : Absent t n) (p : SlotPtr) (k : RW) : ¬ Marks t p n k := by
  intro hmark
  have hpos := hmark.lockCount_pos
  rw [h.locks p] at hpos
  exact Nat.lt_irrefl 0 hpos

theorem marks_of_slot {t' : Ssht E} {p : SlotPtr} {k : RW}
    (hslot : ∀ sl', t'.slot? p = some sl' → ∃ sl, t.slot? p = some sl ∧
      (isReader sl'.entry n = true → isReader sl.entry n = true) ∧
      (writer sl'.entry = n → writer sl.entry = n))
    (h : Marks t' p n k) : Marks t p n k := by
  cases k with
  | read =>
    obtain ⟨sl', hsl', hread⟩ := h
    obtain ⟨sl, hsl, hreader, -⟩ := hslot sl' hsl'
    exact ⟨sl, hsl, hreader hread⟩
  | write =>
    obtain ⟨sl', hsl', hw⟩ := h
    obtain ⟨sl, hsl, -, hwriter⟩ := hslot sl' hsl'
    exact ⟨sl, hsl, hwriter hw⟩

theorem marks_sshtNew (hn : n < idBound E) (p : SlotPtr) (k : RW) :
    ¬ Marks (sshtNew : Ssht E) p n k :=
  (absent_sshtNew hn).not_marks p k

theorem marks_deleteNode (hn : n < idBound E) {m : Nat} (hm : m < idBound E) {p : SlotPtr} {k : RW}
    (h : Marks (tm2cHtDeleteNode t m) p n k) : Marks t p n k := by
  refine marks_of_slot ?_ h
  intro sl' hsl'
  obtain ⟨sl, hsl, hstripped⟩ := stripped_deleteNode hm hsl'
  refine ⟨sl, hsl, ?_, ?_⟩
  · intro hread
    by_cases hnm : n = m
    · subst hnm
      exact hstripped.reader_self hread
    · rwa [hstripped.reader n hnm] at hread
  · intro hw
    rcases hstripped.writer with hsame | ⟨-, hno⟩
    · exact hsame ▸ hw
    · exact absurd (hw.symm.trans hno) (ne_noWriter hn)

theorem marks_bucketAlloc (hn : n < idBound E) (bu : Nat) {p : SlotPtr} {k : RW}
    (h : Marks (bucketAlloc t bu).1 p n k) : Marks t p n k := by
  cases k with
  | read =>
    obtain ⟨sl, hsl, hread⟩ := h
    rcases slot_bucketAlloc hsl with hold | rfl
    · exact ⟨sl, hold, hread⟩
    · rw [isReader_new] at hread
      cases hread
  | write =>
    obtain ⟨sl, hsl, hw⟩ := h
    rcases slot_bucketAlloc hsl with hold | rfl
    · exact ⟨sl, hold, hw⟩
    · exact absurd (hw.symm.trans writer_new) (ne_noWriter hn)

/-- A slot is changed. -/
theorem marks_modifySlot {p q : SlotPtr} {f : Slot E → Slot E} {k : RW}
    (h : Marks (t.modifySlot p f) q n k) :
    Marks t q n k ∨ ∃ sl, q = p ∧ t.slot? p = some sl ∧
      match k with
      | .read => isReader (f sl).entry n = true
      | .write => writer (f sl).entry = n := by
  cases k with
  | read =>
    obtain ⟨sl', hsl', hread⟩ := h
    rcases Ssht.of_slot?_modifySlot hsl' with hold | ⟨sl, rfl, hold, rfl⟩
    · exact Or.inl ⟨sl', hold, hread⟩
    · exact Or.inr ⟨sl, rfl, hold, hread⟩
  | write =>
    obtain ⟨sl', hsl', hw⟩ := h
    rcases Ssht.of_slot?_modifySlot hsl' with hold | ⟨sl, rfl, hold, rfl⟩
    · exact Or.inl ⟨sl', hold, hw⟩
    · exact Or.inr ⟨sl, rfl, hold, hw⟩

theorem marks_addReader {id : Nat} (hid : id < idBound E) {p q : SlotPtr} {addr : Nat} {k : RW}
    (h : Marks (t.modifySlot p fun sl => ⟨addr, addReader sl.entry id⟩) q n k) :
    Marks t q n k ∨ (q = p ∧ n = id ∧ k = .read) := by
  rcases marks_modifySlot h with hold | ⟨sl, rfl, hslot, hnew⟩
  · exact Or.inl hold
  · cases k with
    | read =>
      simp only [isReader_addReader hid, Bool.or_eq_true, decide_eq_true_eq] at hnew
      rcases hnew with rfl | hread
      · exact Or.inr ⟨rfl, rfl, rfl⟩
      · exact Or.inl ⟨sl, hslot, hread⟩
    | write =>
      simp only [writer_addReader] at hnew
      exact Or.inl ⟨sl, hslot, hnew⟩

theorem marks_markReader {id : Nat} (hid : id < idBound E) {p q : SlotPtr} {addr : Nat} {k : RW}
    (h : Marks (markReader t p id addr) q n k) : Marks t q n k ∨ (q = p ∧ n = id ∧ k = .read) := by
  apply marks_addReader hid
  cases k <;> exact h

theorem marks_markWriter {id : Nat} (hid : id < idBound E) {p q : SlotPtr} {addr : Nat} {k : RW}
    (h : Marks (markWriter t p id addr) q n k) :
    Marks t q n k ∨ (q = p ∧ n = id ∧ k = .write) := by
  have hmodify : Marks (t.modifySlot p fun sl => ⟨addr, setWriter sl.entry id⟩) q n k := by
    cases k <;> exact h
  rcases marks_modifySlot hmodify with hold | ⟨sl, rfl, hslot, hnew⟩
  · exact Or.inl hold
  · cases k with
    | read =>
      simp only [isReader_setWriter] at hnew
      exact Or.inl ⟨sl, hslot, hnew⟩
    | write =>
      simp only [writer_setWriter_of_lt hid] at hnew
      exact Or.inr ⟨rfl, hnew.symm, rfl⟩

theorem marks_markReaderFound {id : Nat} (hid : id < idBound E) {p q : SlotPtr} {addr : Nat}
    {k : RW} (h : Marks (markReaderFound t p id addr) q n k) :
    Marks t q n k ∨ (q = p ∧ n = id ∧ k = .read) := by
  rcases markReaderFound_eq t p id addr with ⟨-, heq⟩ | ⟨sl, -, ⟨-, heq⟩ | ⟨-, heq⟩⟩
  · exact Or.inl (heq ▸ h)
  · rw [heq] at h
    rcases marks_modifySlot h with hold | ⟨sl', rfl, hslot', hnew⟩
    · exact Or.inl hold
    · left
      cases k <;> exact ⟨sl', hslot', hnew⟩
  · rw [heq] at h
    exact marks_markReader hid h

/-- An entered lock is the only new one. -/
theorem marks_enterLock (hn : n < idBound E) {id : Nat} (hid : id < idBound E) {bu addr : Nat}
    {slot : Option SlotPtr} {rw k : RW} {q : SlotPtr}
    (h : Marks (enterLock t bu slot id addr rw) q n k) :
    Marks t q n k ∨ (q = slot.getD (bucketAlloc t bu).2 ∧ n = id ∧ k = rw) := by
  cases slot with
  | none =>
    have halloc : ∀ k, Marks (bucketAlloc t bu).1 q n k → Marks t q n k :=
      fun k hk => marks_bucketAlloc hn bu hk
    cases rw with
    | read => exact (marks_markReader hid h).imp_left (halloc k)
    | write => exact (marks_markWriter hid h).imp_left (halloc k)
  | some p =>
    cases rw with
    | read => exact marks_markReaderFound hid h
    | write => exact marks_markWriter hid h

theorem marks_abortDefenders {cfg : Config} (hn : n < idBound E) {vs : List Nat}
    (hvs : ∀ v ∈ vs, v < idBound E) {s : Dsl E} {conflict : Conflict} {p : SlotPtr} {k : RW}
    (h : Marks (vs.foldl (fun s v => abortDefender cfg s v conflict) s).ht p n k) :
    Marks s.ht p n k := by
  induction vs generalizing s with
  | nil => exact h
  | cons v vs ih =>
    have hrest := ih (fun w hw => hvs w (List.mem_cons_of_mem v hw)) h
    unfold abortDefender at hrest
    split at hrest
    · exact hrest
    · exact marks_deleteNode hn (hvs v List.mem_cons_self) hrest

/-! ### Early releases -/

theorem count_sshtLogSetRemove {l : List SlotPtr} {j : Nat} {p : SlotPtr} (hj : l[j]? = some p)
    (q : SlotPtr) : (sshtLogSetRemove l j).count q + (if p = q then 1 else 0) = l.count q := by
  obtain ⟨hlt, hp⟩ := List.getElem?_eq_some_iff.mp hj
  rcases List.eq_nil_or_concat l with rfl | ⟨pre, last, rfl⟩
  · cases hlt
  · simp only [List.concat_eq_append] at hlt hp ⊢
    rw [List.length_append, List.length_singleton] at hlt
    have hremove : sshtLogSetRemove (pre ++ [last]) j = ((pre ++ [last]).set j last).dropLast := by
      simp only [sshtLogSetRemove, List.getLast?_concat]
    rw [hremove, List.count_append, List.count_singleton]
    by_cases hlast : j < pre.length
    · -- the last pointer takes the place of the removed one
      rw [List.set_append_left _ _ hlast, List.dropLast_concat, List.count_set hlast]
      rw [List.getElem_append_left hlast] at hp
      have hmem : 0 < pre.count pre[j] := List.count_pos_iff.mpr (List.getElem_mem hlast)
      subst hp
      simp only [beq_iff_eq]
      by_cases hq : pre[j] = q
      · subst hq
        simp only [if_true]
        omega
      · simp only [if_neg hq]
        omega
    · obtain rfl : j = pre.length := by omega
      rw [List.set_append_right _ _ (Nat.le_refl _)]
      simp only [Nat.sub_self, List.set_cons_zero, List.dropLast_concat]
      simp only [List.getElem_concat_length] at hp
      subst hp
      simp only [beq_iff_eq]

theorem marks_removeMark {id : Nat} (hid : id < idBound E) (hn : n < idBound E) {p q : SlotPtr}
    {rw k : RW} (h : Marks (t.modifySlot p (removeMark id rw)) q n k) : Marks t q n k := by
  rcases marks_modifySlot h with hold | ⟨sl, rfl, hslot, hnew⟩
  · exact hold
  · by_cases hw : writer sl.entry = id
    · cases rw <;> cases k <;>
        simp only [removeMark, writer_dropReader, isReader_dropReader hid, if_pos hw,
          isReader_setWriter, writer_setWriter_noWriter, Bool.and_eq_true] at hnew
      · exact ⟨sl, hslot, hnew.2⟩
      · exact ⟨sl, hslot, hnew⟩
      · exact ⟨sl, hslot, hnew⟩
      · exact absurd hnew.symm (ne_noWriter hn)
    · cases rw <;> cases k <;>
        simp only [removeMark, writer_dropReader, isReader_dropReader hid, if_neg hw,
          Bool.and_eq_true] at hnew
      · exact ⟨sl, hslot, hnew.2⟩
      · exact ⟨sl, hslot, hnew⟩
      · exact ⟨sl, hslot, hnew⟩
      · exact ⟨sl, hslot, hnew⟩

theorem marks_delete (hn : n < idBound E) {id : Nat} (hid : id < idBound E) {addr : Nat}
    {rw k : RW} {q : SlotPtr} (h : Marks (tm2cHtDelete t id addr rw) q n k) : Marks t q n k := by
  rcases sshtRemove_eq t id addr rw with ⟨-, heq⟩ | ⟨j, p, sl, -, -, -, heq⟩
  · rwa [heq] at h
  · rw [heq] at h
    apply marks_removeMark hid hn
    cases k <;> exact h

theorem entryLocks_removeMark (hn : n < idBound E) {rw : RW} {sl : Slot E}
    (hheld : 0 < entryLocks sl.entry n →
      match rw with
      | .read => isReader sl.entry n = true
      | .write => writer sl.entry = n) :
    entryLocks (removeMark n rw sl).entry n ≤ entryLocks sl.entry n - 1 := by
  rcases Nat.eq_zero_or_pos (entryLocks sl.entry n) with hzero | hpos
  · obtain ⟨hread, hw⟩ := entryLocks_eq_zero_iff.mp hzero
    rw [hzero, Nat.le_zero, entryLocks_eq_zero_iff]
    cases rw <;> simp [removeMark, isReader_dropReader hn, writer_dropReader, hread, hw]
  · have hmark := hheld hpos
    cases rw with
    | read =>
      have hread : isReader sl.entry n = true := hmark
      simp [removeMark, entryLocks, isReader_dropReader hn, writer_dropReader, hread]
    | write =>
      have hw : writer sl.entry = n := hmark
      simp [removeMark, entryLocks, isReader_setWriter, writer_setWriter_noWriter, hw,
        Ne.symm (ne_noWriter hn)]

/-- An early release that leaves the slot fewer locks of the node than it had log entries
keeps the log in order. -/
theorem tidy_delete_of (hn : n < idBound E) (h : Tidy n t) {addr : Nat} {rw : RW}
    (hcover : ∀ p sl, p ∈ t.logs n → t.slot? p = some sl → sl.addr = addr →
      entryLocks (removeMark n rw sl).entry n < (t.logs n).count p) :
    Tidy n (tm2cHtDelete t n addr rw) := by
  rcases sshtRemove_eq t n addr rw with ⟨-, heq⟩ | ⟨j, p, sl, hj, hslot, haddr, heq⟩
  · rwa [heq]
  · have hlocks := hcover p sl (List.mem_of_getElem? hj) hslot haddr
    have hslots : ∀ q, (tm2cHtDelete t n addr rw).slot? q =
        (t.modifySlot p (removeMark n rw)).slot? q := by
      intro q
      rw [heq]
      rfl
    refine ⟨?_, ?_, ?_⟩
    · -- one entry of the log goes, and the slot is the only one that loses locks
      intro q
      have hcount := count_sshtLogSetRemove hj q
      have hold := h.covered q
      rw [Ssht.lockCount_congr (hslots q)]
      have hlogs : (tm2cHtDelete t n addr rw).logs n = sshtLogSetRemove (t.logs n) j := by
        rw [heq]
        exact Function.update_self ..
      rw [hlogs]
      by_cases hq : q = p
      · subst hq
        rw [Ssht.lockCount_of_slot (Ssht.slot?_modifySlot_self hslot _)]
        rw [if_pos rfl] at hcount
        omega
      · rw [Ssht.lockCount_congr (Ssht.slot?_modifySlot_of_ne hq _)]
        rw [if_neg (Ne.symm hq)] at hcount
        omega
    · intro q sl' hq
      rw [hslots] at hq
      rcases Ssht.of_slot?_modifySlot hq with hold | ⟨sl, -, hold, rfl⟩
      · exact h.writer_lt q sl' hold
      · cases rw with
        | read =>
          simp only [removeMark, writer_dropReader]
          exact h.writer_lt p sl hold
        | write =>
          simp only [removeMark]
          split
          · exact Or.inl (writer_setWriter_noWriter _)
          · exact h.writer_lt p sl hold
    · intro q sl' m hq hread
      rw [hslots] at hq
      rcases Ssht.of_slot?_modifySlot hq with hold | ⟨sl, -, hold, rfl⟩
      · exact h.reader_lt q sl' m hold hread
      · apply h.reader_lt p sl m hold
        cases rw with
        | read =>
          simp only [removeMark, isReader_dropReader hn] at hread
          exact (Bool.and_eq_true_iff.mp hread).2
        | write =>
          simp only [removeMark] at hread
          split at hread
          · rwa [isReader_setWriter] at hread
          · exact hread

/-- The early release of a lock that the node has, or where it has none, keeps the log
in order. -/
theorem tidy_delete_self (hn : n < idBound E) (h : Tidy n t) {addr : Nat} {rw : RW}
    (hheld : ∀ p sl k, t.slot? p = some sl → sl.addr = addr → Marks t p n k → Marks t p n rw) :
    Tidy n (tm2cHtDelete t n addr rw) := by
  apply tidy_delete_of hn h
  intro p sl hp hslot haddr
  have hlogged : 0 < (t.logs n).count p := List.count_pos_iff.mpr hp
  have hcovered := h.covered p
  rw [Ssht.lockCount_of_slot hslot] at hcovered
  have hlocks : entryLocks (removeMark n rw sl).entry n ≤ entryLocks sl.entry n - 1 := by
    apply entryLocks_removeMark hn
    intro hpos
    have hmark : Marks t p n rw := by
      rcases entryLocks_pos_iff.mp hpos with hread | hw
      · exact hheld p sl .read hslot haddr ⟨sl, hslot, hread⟩
      · exact hheld p sl .write hslot haddr ⟨sl, hslot, hw⟩
    cases rw with
    | read =>
      obtain ⟨sl', hsl', hread⟩ := hmark
      obtain rfl := Option.some.inj (hslot.symm.trans hsl')
      exact hread
    | write =>
      obtain ⟨sl', hsl', hw⟩ := hmark
      obtain rfl := Option.some.inj (hslot.symm.trans hsl')
      exact hw
  omega

end Marks

/-! ### Messages at a service node -/

/-- The lock that a message requests. -/
def requestKind (cfg : Config) (req : Req) : Option RW :=
  match req.type with
  | .load => some .read
  | .store => some .write
  | .storeInc => if cfg.pgas then some .write else none
  | _ => none

/-- The reply tells of a conflict. -/
def refuses (reply : Option Reply) : Bool := reply.any fun r => decide (r.response ≠ .noConflict)

/-- The node has a lock that a request is arbitrated against: it writes the address, or
it reads an address that nobody else writes. -/
def Contests {E : Type} [RwEntry E] (cfg : Config) (t : Ssht E) (id addr : Nat) (rw : RW)
    (p : SlotPtr) (n : Nat) (k : RW) : Prop :=
  ∃ i sl, bucketFind (t.bucket (bucketOf cfg.pgas addr)) addr = some (i, sl) ∧
    p = (bucketOf cfg.pgas addr, i) ∧
    match rw, k with
    | .read, .write => writer sl.entry = n ∧ n ≠ SSHT_NO_WRITER
    | .write, .write => writer sl.entry = n ∧ n ≠ SSHT_NO_WRITER ∧ n ≠ id
    | .write, .read => (writer sl.entry = SSHT_NO_WRITER ∨ writer sl.entry = id) ∧
        hasOtherReaders sl.entry id = true ∧ isReader sl.entry n = true ∧ n ≠ id
    | .read, .read => False

/-- The slot in which a granted request enters its lock. -/
def entersAt {E : Type} [RwEntry E] (cfg : Config) (s : Dsl E) (id addr : Nat) (rw : RW) :
    Option SlotPtr :=
  match insertion cfg s.timestamp s.ht id addr rw with
  | .refuse _ => none
  | .grant slot reason victims =>
    some (slot.getD (bucketAlloc (victims.foldl (fun s v => abortDefender cfg s v reason) s).ht
      (bucketOf cfg.pgas addr)).2)

section Arbitration

variable {E : Type} [LawfulRwEntry E] {cfg : Config} {s : Dsl E} {id addr : Nat} {rw : RW}

theorem requestKind_cases {req : Req} (h : requestKind cfg req = some rw) :
    (req.type = .load ∧ rw = .read) ∨ (req.type = .store ∧ rw = .write) ∨
      (req.type = .storeInc ∧ cfg.pgas = true ∧ rw = .write) := by
  unfold requestKind at h
  cases htype : req.type with
  | load =>
    rw [htype, Option.some.injEq] at h
    exact Or.inl ⟨rfl, h.symm⟩
  | store =>
    rw [htype, Option.some.injEq] at h
    exact Or.inr (Or.inl ⟨rfl, h.symm⟩)
  | storeInc =>
    simp only [htype] at h
    split at h
    · rename_i hpgas
      exact Or.inr (Or.inr ⟨rfl, hpgas, (Option.some.inj h).symm⟩)
    · cases h
  | rmvNode | loadRls | storeFinish | loadNontx | storeNontx | unknown =>
    rw [htype] at h
    cases h

theorem Contests.marks {p : SlotPtr} {n : Nat} {k : RW} (h : Contests cfg s.ht id addr rw p n k) :
    Marks s.ht p n k := by
  obtain ⟨i, sl, hfind, rfl, hmark⟩ := h
  have hslot : s.ht.slot? (bucketOf cfg.pgas addr, i) = some sl := (bucketFind_eq_some hfind).1
  cases rw <;> cases k
  · cases hmark
  · exact ⟨sl, hslot, hmark.1⟩
  · exact ⟨sl, hslot, hmark.2.2.1⟩
  · exact ⟨sl, hslot, hmark.1⟩

theorem Contests.lt_idBound {m : Nat} (htidy : Tidy m s.ht) {p : SlotPtr} {n : Nat} {k : RW}
    (h : Contests cfg s.ht id addr rw p n k) : n < idBound E := by
  obtain ⟨i, sl, hfind, rfl, hmark⟩ := h
  have hslot : s.ht.slot? (bucketOf cfg.pgas addr, i) = some sl := (bucketFind_eq_some hfind).1
  have hwriter : ∀ n, writer sl.entry = n → n ≠ SSHT_NO_WRITER → n < idBound E := by
    rintro n rfl hne
    exact (htidy.writer_lt _ sl hslot).resolve_left hne
  cases rw <;> cases k
  · cases hmark
  · exact hwriter n hmark.1 hmark.2
  · exact htidy.reader_lt _ sl n hslot hmark.2.2.1
  · exact hwriter n hmark.1 hmark.2.1

theorem attackSlotWriter_grants {timestamp : Nat → Nat} {p : SlotPtr} {w : Nat}
    {conflict : Conflict} (hreal : cfg.cm.isReal = true) :
    (∃ slot reason victims, attackSlotWriter cfg timestamp p id w conflict =
      .grant slot reason victims) ↔ Precedes timestamp id w := by
  unfold attackSlotWriter
  by_cases hprec : Precedes timestamp id w
  · rw [if_pos ⟨hreal, hprec⟩]
    exact iff_of_true ⟨_, _, _, rfl⟩ hprec
  · rw [if_neg (mt And.right hprec)]
    refine iff_of_false ?_ hprec
    rintro ⟨slot, reason, victims, hgrant⟩
    cases hgrant

/-- **Arbitration.**  A request is granted if it precedes every node that contests it. -/
theorem insertion_grants (hreal : cfg.cm.isReal = true)
    (hreaders : ∀ p sl n, s.ht.slot? p = some sl → isReader sl.entry n = true → n < cfg.numUes) :
    (∃ slot reason victims, insertion cfg s.timestamp s.ht id addr rw =
      .grant slot reason victims) ↔
      ∀ p n k, Contests cfg s.ht id addr rw p n k → Precedes s.timestamp id n := by
  cases hfind : bucketFind (s.ht.bucket (bucketOf cfg.pgas addr)) addr with
  | none =>
    -- no slot has the address: nobody contests it, and it gets a new slot
    have hgrant : ∃ slot reason victims, insertion cfg s.timestamp s.ht id addr rw =
        .grant slot reason victims := by
      cases rw <;> simp [insertion, insertionR, insertionW, hfind]
    refine iff_of_true hgrant ?_
    rintro p n k ⟨i, sl, hsome, -⟩
    rw [hfind] at hsome
    cases hsome
  | some found =>
    obtain ⟨i, sl⟩ := found
    have hslot : s.ht.slot? (bucketOf cfg.pgas addr, i) = some sl := (bucketFind_eq_some hfind).1
    have hcontests : ∀ p n k, Contests cfg s.ht id addr rw p n k ↔
        p = (bucketOf cfg.pgas addr, i) ∧
        match rw, k with
        | .read, .write => writer sl.entry = n ∧ n ≠ SSHT_NO_WRITER
        | .write, .write => writer sl.entry = n ∧ n ≠ SSHT_NO_WRITER ∧ n ≠ id
        | .write, .read => (writer sl.entry = SSHT_NO_WRITER ∨ writer sl.entry = id) ∧
            hasOtherReaders sl.entry id = true ∧ isReader sl.entry n = true ∧ n ≠ id
        | .read, .read => False := by
      intro p n k
      constructor
      · rintro ⟨j, sl', hsome, hp, hmark⟩
        obtain ⟨rfl, rfl⟩ := Prod.mk.inj (Option.some.inj (hfind.symm.trans hsome))
        exact ⟨hp, hmark⟩
      · rintro ⟨hp, hmark⟩
        exact ⟨i, sl, hfind, hp, hmark⟩
    simp only [hcontests]
    cases rw with
    | read =>
      -- a reader is contested by the writer, also where that is the sender itself
      simp only [insertion, insertionR, hfind]
      by_cases hw : writer sl.entry ≠ SSHT_NO_WRITER
      · simp only [if_pos hw, attackSlotWriter_grants hreal]
        constructor
        · rintro hprec p n k ⟨-, hmark⟩
          cases k with
          | read => cases hmark
          | write => exact hmark.1 ▸ hprec
        · intro hall
          exact hall _ (writer sl.entry) .write ⟨rfl, rfl, hw⟩
      · simp only [if_neg hw]
        refine iff_of_true ⟨_, _, _, rfl⟩ ?_
        rintro p n k ⟨-, hmark⟩
        cases k with
        | read => cases hmark
        | write => exact absurd (hmark.1 ▸ hmark.2) hw
    | write =>
      -- a writer is contested by another writer, and by the other readers where there is none
      simp only [insertion, insertionW, hfind]
      by_cases hw : writer sl.entry ≠ SSHT_NO_WRITER ∧ writer sl.entry ≠ id
      · simp only [if_pos hw, attackSlotWriter_grants hreal]
        constructor
        · rintro hprec p n k ⟨-, hmark⟩
          cases k with
          | read => exact absurd hw (fun hw => hmark.1.elim hw.1 hw.2)
          | write => exact hmark.1 ▸ hprec
        · intro hall
          exact hall _ (writer sl.entry) .write ⟨rfl, rfl, hw.1, hw.2⟩
      · have hnobody : ∀ n, ¬ (writer sl.entry = n ∧ n ≠ SSHT_NO_WRITER ∧ n ≠ id) := by
          rintro n ⟨rfl, hwriter⟩
          exact hw hwriter
        have hfree : writer sl.entry = SSHT_NO_WRITER ∨ writer sl.entry = id := by
          by_contra hne
          exact hw (not_or.mp hne)
        simp only [if_neg hw]
        by_cases hothers : hasOtherReaders sl.entry id = true
        · -- all of the readers have to be younger
          simp only [if_pos hothers]
          by_cases hall : ∀ n ∈ (List.range cfg.numUes).filter fun n =>
              isReader sl.entry n && decide (n ≠ id), Precedes s.timestamp id n
          · rw [if_pos (And.intro hreal hall)]
            refine iff_of_true ⟨_, _, _, rfl⟩ ?_
            rintro p n k ⟨-, hmark⟩
            cases k with
            | read =>
              obtain ⟨-, -, hread, hne⟩ := hmark
              apply hall
              rw [List.mem_filter, List.mem_range]
              exact ⟨hreaders _ sl n hslot hread, by simp [hread, hne]⟩
            | write => exact absurd hmark (hnobody n)
          · rw [if_neg (mt And.right hall)]
            refine iff_of_false ?_ ?_
            · rintro ⟨slot, reason, victims, hgrant⟩
              cases hgrant
            · intro hprec
              apply hall
              intro n hn
              obtain ⟨-, hn⟩ := List.mem_filter.mp hn
              obtain ⟨hread, hne⟩ := Bool.and_eq_true_iff.mp hn
              exact hprec _ n .read ⟨rfl, hfree, hothers, hread, of_decide_eq_true hne⟩
        · simp only [if_neg hothers]
          refine iff_of_true ⟨_, _, _, rfl⟩ ?_
          rintro p n k ⟨-, hmark⟩
          cases k with
          | read => exact absurd hmark.2.1 hothers
          | write => exact absurd hmark (hnobody n)

theorem victim_lt_idBound {n : Nat} (htidy : Tidy n s.ht) {slot : Option SlotPtr}
    {reason : Conflict} {victims : List Nat}
    (h : insertion cfg s.timestamp s.ht id addr rw = .grant slot reason victims) {v : Nat}
    (hv : v ∈ victims) : v < idBound E := by
  have hattack : ∀ i sl c, bucketFind (s.ht.bucket (bucketOf cfg.pgas addr)) addr = some (i, sl) →
      writer sl.entry ≠ SSHT_NO_WRITER →
      attackSlotWriter cfg s.timestamp (bucketOf cfg.pgas addr, i) id (writer sl.entry) c =
        .grant slot reason victims → v < idBound E := by
    intro i sl c hfind hw h
    unfold attackSlotWriter at h
    split at h
    · cases h
      rw [List.mem_singleton] at hv
      subst hv
      have hslot := (bucketFind_eq_some hfind).1
      exact (htidy.writer_lt (bucketOf cfg.pgas addr, i) sl hslot).resolve_left hw
    · cases h
  cases rw with
  | read =>
    simp only [insertion, insertionR] at h
    split at h
    · rename_i i sl hfind
      split at h
      · rename_i hw
        exact hattack i sl _ hfind hw h
      · cases h
        cases hv
    · cases h
      cases hv
  | write =>
    simp only [insertion, insertionW] at h
    split at h
    · rename_i i sl hfind
      split at h
      · rename_i hw
        exact hattack i sl _ hfind hw.1 h
      · split at h
        · split at h
          · cases h
            obtain ⟨-, hread⟩ := List.mem_filter.mp hv
            exact htidy.reader_lt (bucketOf cfg.pgas addr, i) sl v (bucketFind_eq_some hfind).1
              (Bool.and_eq_true_iff.mp hread).1
          · cases h
        · cases h
          cases hv
    · cases h
      cases hv

theorem granted_iff (hreal : cfg.cm.isReal = true)
    (hreaders : ∀ p sl n, s.ht.slot? p = some sl → isReader sl.entry n = true → n < cfg.numUes) :
    (tm2cHtInsert cfg s id addr rw).1 = .noConflict ↔
      ∀ p n k, Contests cfg s.ht id addr rw p n k → Precedes s.timestamp id n := by
  rw [← insertion_grants hreal hreaders, tm2cHtInsert_eq]
  cases hins : insertion cfg s.timestamp s.ht id addr rw with
  | refuse conflict =>
    refine iff_of_false ?_ ?_
    · exact insertion_refuse_ne hins
    · rintro ⟨slot, reason, victims, hgrant⟩
      cases hgrant
  | grant slot reason victims => exact iff_of_true rfl ⟨slot, reason, victims, rfl⟩

end Arbitration

section Messages

variable {E : Type} [LawfulRwEntry E] {cfg : Config} {n sender : Nat}

theorem timestamp_abortDefenders (vs : List Nat) (s : Dsl E) (conflict : Conflict) :
    (vs.foldl (fun s v => abortDefender cfg s v conflict) s).timestamp = s.timestamp := by
  induction vs generalizing s with
  | nil => rfl
  | cons v vs ih =>
    rw [List.foldl_cons, ih]
    unfold abortDefender
    split <;> rfl

theorem timestamp_tm2cHtInsert (s : Dsl E) (id addr : Nat) (rw : RW) :
    (tm2cHtInsert cfg s id addr rw).2.timestamp = s.timestamp := by
  rw [tm2cHtInsert_eq]
  cases insertion cfg s.timestamp s.ht id addr rw with
  | refuse conflict => rfl
  | grant slot reason victims => exact timestamp_abortDefenders victims s reason

theorem marks_tm2cHtInsert (hn : n < idBound E) {id : Nat} (hid : id < idBound E) {s : Dsl E}
    (htidy : Tidy n s.ht) {addr : Nat} {rw k : RW} {q : SlotPtr}
    (h : Marks (tm2cHtInsert cfg s id addr rw).2.ht q n k) :
    Marks s.ht q n k ∨ (entersAt cfg s id addr rw = some q ∧ n = id ∧ k = rw) := by
  rw [tm2cHtInsert_eq] at h
  unfold entersAt
  cases hins : insertion cfg s.timestamp s.ht id addr rw with
  | refuse conflict =>
    rw [hins] at h
    exact Or.inl h
  | grant slot reason victims =>
    rw [hins] at h
    have hvictims : ∀ v ∈ victims, v < idBound E := fun v hv => victim_lt_idBound htidy hins hv
    rcases marks_enterLock hn hid h with hold | ⟨rfl, rfl, rfl⟩
    · exact Or.inl (marks_abortDefenders hn hvictims hold)
    · exact Or.inr ⟨rfl, rfl, rfl⟩

theorem updateTimestamp_greedy (hcm : cfg.cm = .greedy true) (now txMetadata : Nat)
    (timestamp : Nat → Nat) :
    updateTimestamp cfg now sender txMetadata timestamp = Function.update timestamp sender
      (if timestamp sender = 0 then txMetadata else timestamp sender) := by
  simp only [updateTimestamp, hcm]
  split
  · rfl
  · exact (Function.update_eq_self sender timestamp).symm

omit [LawfulRwEntry E] in
theorem timestamp_emptyWriteSet (s : Dsl E) :
    (emptyWriteSet cfg s sender).timestamp = s.timestamp := by
  unfold emptyWriteSet
  split <;> rfl

theorem timestamp_refuse (hcm : cfg.cm = .greedy true) (s : Dsl E) :
    (refuse cfg s sender).timestamp = Function.update s.timestamp sender 0 := by
  simp only [refuse, timestamp_emptyWriteSet, forgetTimestamp, hcm]

/-- The `switch` forgets the timestamp of a sender that it releases or refuses. -/
theorem timestamp_dslSwitch (hcm : cfg.cm = .greedy true) (s : Dsl E) (req : Req) :
    (dslSwitch cfg s sender req).1.timestamp =
      if req.type = .rmvNode ∨ refuses (dslSwitch cfg s sender req).2 = true then
        Function.update s.timestamp sender 0
      else s.timestamp := by
  have hinsert : ∀ rw, (tm2cHtInsert cfg s sender req.address rw).2.timestamp = s.timestamp :=
    timestamp_tm2cHtInsert s sender req.address
  cases htype : req.type with
  | load =>
    simp only [dslSwitch, htype, handleLoad, tryLoad, refuses, Option.any_some]
    by_cases hc : (tm2cHtInsert cfg s sender req.address .read).1 = .noConflict
    · simp [hc, hinsert]
    · simp [hc, timestamp_refuse hcm, hinsert]
  | store =>
    simp only [dslSwitch, htype, handleStore, tryStore, refuses, Option.any_some]
    by_cases hc : (tm2cHtInsert cfg s sender req.address .write).1 = .noConflict
    · by_cases hpgas : cfg.pgas = true
      · simp [hc, hpgas, bufferWrite, hinsert]
      · simp [hc, hpgas, hinsert]
    · simp [hc, timestamp_refuse hcm, hinsert]
  | storeInc =>
    simp only [dslSwitch, htype]
    by_cases hpgas : cfg.pgas = true
    · simp only [if_pos hpgas, handleStoreInc, tryStore, refuses, Option.any_some]
      by_cases hc : (tm2cHtInsert cfg s sender req.address .write).1 = .noConflict
      · simp [hc, bufferWrite, hinsert]
      · simp [hc, timestamp_refuse hcm, hinsert]
    · simp [hpgas, refuses, unknownReply]
  | rmvNode =>
    simp only [dslSwitch, htype, handleRmvNode, forgetTimestamp, hcm, timestamp_emptyWriteSet,
      true_or, if_true]
    split <;> rfl
  | loadRls => simp [dslSwitch, htype, refuses]
  | storeFinish => simp [dslSwitch, htype, refuses]
  | loadNontx =>
    by_cases hpgas : cfg.pgas = true <;> simp [dslSwitch, htype, refuses, hpgas, unknownReply]
  | storeNontx =>
    by_cases hpgas : cfg.pgas = true <;> simp [dslSwitch, htype, refuses, hpgas, unknownReply]
  | unknown => simp [dslSwitch, htype, refuses, unknownReply]

/-- The lock that an early release gives up. -/
def earlyKind (req : Req) : Option RW :=
  match req.type with
  | .loadRls => some .read
  | .storeFinish => some .write
  | _ => none

theorem requestKind_of_refuses {s : Dsl E} {req : Req}
    (h : refuses (dslSwitch cfg s sender req).2 = true) : ∃ rw, requestKind cfg req = some rw := by
  unfold requestKind
  cases htype : req.type with
  | load => exact ⟨.read, rfl⟩
  | store => exact ⟨.write, rfl⟩
  | storeInc =>
    by_cases hpgas : cfg.pgas = true
    · exact ⟨.write, if_pos hpgas⟩
    · simp [dslSwitch, htype, hpgas, refuses, unknownReply] at h
  | rmvNode => simp [dslSwitch, htype, handleRmvNode, refuses] at h
  | loadRls | storeFinish | unknown => simp [dslSwitch, htype, refuses, unknownReply] at h
  | loadNontx | storeNontx =>
    by_cases hpgas : cfg.pgas = true <;>
      simp [dslSwitch, htype, hpgas, refuses, unknownReply] at h

theorem ht_dslSwitch_of_none {s : Dsl E} {req : Req} (hkind : requestKind cfg req = none)
    (hearly : earlyKind req = none) (hrmv : req.type ≠ .rmvNode) :
    (dslSwitch cfg s sender req).1.ht = s.ht := by
  unfold requestKind at hkind
  unfold earlyKind at hearly
  cases htype : req.type with
  | load | store =>
    rw [htype] at hkind
    cases hkind
  | storeInc =>
    by_cases hpgas : cfg.pgas = true
    · simp [htype, hpgas] at hkind
    · simp [dslSwitch, htype, hpgas]
  | rmvNode => exact absurd htype hrmv
  | loadRls | storeFinish =>
    rw [htype] at hearly
    cases hearly
  | loadNontx | storeNontx =>
    by_cases hpgas : cfg.pgas = true <;> simp [dslSwitch, htype, hpgas]
  | unknown => simp [dslSwitch, htype]

theorem ht_dslSwitch_early {s : Dsl E} {req : Req} {rw : RW} (hearly : earlyKind req = some rw) :
    (dslSwitch cfg s sender req).1.ht = tm2cHtDelete s.ht sender req.address rw := by
  unfold earlyKind at hearly
  cases htype : req.type with
  | loadRls | storeFinish =>
    rw [htype] at hearly
    cases hearly
    simp only [dslSwitch, htype]
  | load | store | storeInc | rmvNode | loadNontx | storeNontx | unknown =>
    rw [htype] at hearly
    cases hearly

/-- A message brings no lock but the one that it requests. -/
theorem marks_dslSwitch (hn : n < idBound E) (hs : sender < idBound E) {s : Dsl E}
    (htidy : Tidy n s.ht) {req : Req} {k : RW} {q : SlotPtr}
    (h : Marks (dslSwitch cfg s sender req).1.ht q n k) :
    Marks s.ht q n k ∨ ∃ rw, requestKind cfg req = some rw ∧
      entersAt cfg s sender req.address rw = some q ∧ n = sender ∧ k = rw := by
  cases hkind : requestKind cfg req with
  | some rw =>
    obtain ⟨reply, -, -, hno, hok⟩ := dslSwitch_insert cfg s sender (requestKind_cases hkind)
    have hinsert : Marks (tm2cHtInsert cfg s sender req.address rw).2.ht q n k := by
      by_cases hreply : reply.response = .noConflict
      · rwa [hok hreply] at h
      · rw [hno hreply] at h
        exact marks_deleteNode hn hs h
    rcases marks_tm2cHtInsert hn hs htidy hinsert with hold | ⟨hq, hid, hk⟩
    · exact Or.inl hold
    · exact Or.inr ⟨rw, rfl, hq, hid, hk⟩
  | none =>
    left
    cases hearly : earlyKind req with
    | some rw =>
      rw [ht_dslSwitch_early hearly] at h
      exact marks_delete hn hs h
    | none =>
      by_cases hrmv : req.type = .rmvNode
      · simp only [dslSwitch, hrmv, ht_handleRmvNode] at h
        exact marks_deleteNode hn hs h
      · rwa [ht_dslSwitch_of_none hkind hearly hrmv] at h

/-- A sender that is released or refused has no lock left. -/
theorem not_marks_dslService (hs : sender < idBound E) {now : Nat} {s : Dsl E}
    (htidy : Tidy sender s.ht) {req : Req}
    (hends : req.type = .rmvNode ∨ refuses (dslService cfg now s sender req).2 = true)
    (q : SlotPtr) (k : RW) : ¬ Marks (dslService cfg now s sender req).1.ht q sender k := by
  rcases hends with hrmv | hrefused
  · exact (absent_rmvNode cfg hs now htidy hrmv).not_marks q k
  · obtain ⟨rw, hkind⟩ := requestKind_of_refuses hrefused
    cases hreply : (dslService cfg now s sender req).2 with
    | none =>
      rw [hreply] at hrefused
      cases hrefused
    | some reply =>
      rw [hreply] at hrefused
      have hno : reply.response ≠ .noConflict := by simpa [refuses] using hrefused
      exact (absent_refused cfg hs now htidy (requestKind_cases hkind) hreply hno).not_marks q k

/-- A node that releases a lock early has it, or has no lock on the address. -/
def ReleasesOwn {E : Type} [RwEntry E] (t : Ssht E) (sender : Nat) (req : Req) : Prop :=
  ∀ rw, earlyKind req = some rw → ∀ p sl k, t.slot? p = some sl → sl.addr = req.address →
    Marks t p sender k → Marks t p sender rw

theorem tidy_dslService (hn : n < idBound E) (hs : sender < idBound E) (now : Nat) {s : Dsl E}
    (htidy : Tidy n s.ht) {req : Req} (howns : ReleasesOwn s.ht sender req) :
    Tidy n (dslService cfg now s sender req).1.ht := by
  by_cases hself : sender = n
  · subst hself
    cases hearly : earlyKind req with
    | some rw =>
      have hht : (dslService cfg now s sender req).1.ht =
          tm2cHtDelete s.ht sender req.address rw := ht_dslSwitch_early hearly
      rw [hht]
      exact tidy_delete_self hs htidy (howns rw hearly)
    | none =>
      apply (spares_dslService cfg hn hs now s _).tidy htidy
      intro _
      constructor
      · intro htype
        simp [earlyKind, htype] at hearly
      · intro htype
        simp [earlyKind, htype] at hearly
  · exact (spares_dslService cfg hn hs now s (fun heq => absurd heq hself)).tidy htidy

end Messages

/-! ### Application nodes -/

inductive GreedyPhase where
  -- outside transactions
  | idle
  -- between `TX_START` and the commit macro
  | running
  -- a request was refused, before `TX_ABORT`
  | refused
  -- in `tm2c_rpc_rls_all(conflict)`, waiting for the service nodes
  | rlsAll (conflict : Conflict)
deriving DecidableEq, Repr

structure GreedyNode where
  -- `tm2c_tx->start_ts`
  startTs : Nat
  phase : GreedyPhase
  -- the service node whose reply is awaited, and whether it is a transaction that waits
  awaits : Option (Nat × Bool)
  nodesContacted : Nat → Nat

/-- The nodes, what is in flight between them, and two histories: `firstTs v d` is the
`start_ts` of the first message that node `v` sent to service node `d` since the last
`RMV_NODE` to it and the last refusal by it, and 0 where there is none;
`entered d p n rw` is the `start_ts` of the transaction for which `n` entered its lock in
the slot.  `startedBy` tells which node drew a `start_ts`. -/
structure GreedySystem (E : Type) where
  node : Nat → GreedyNode
  dsl : Nat → Dsl E
  abortFlags : Nat → Conflict
  channel : Nat → Nat → List Req
  reply : Nat → Option Conflict
  -- `*greedy_global_ts`
  globalTs : Nat
  firstTs : Nat → Nat → Nat
  entered : Nat → SlotPtr → Nat → RW → Nat
  startedBy : Nat → Nat

inductive GreedyEvent where
  -- `TX_START`, for the first time
  | txStart (v : Nat)
  -- `tm2c_rpc_load`, `tm2c_rpc_store` and `tm2c_rpc_store_inc`
  | request (v : Nat) (type : ReqType) (address : Nat) (value : BitVec 64)
  | notxLoad (v address : Nat) (words : BitVec 64)
  | notxStore (v address : Nat) (value : BitVec 64)
  -- `tm2c_rpc_load_rls` and `tm2c_rpc_store_rls`
  | release (v : Nat) (rw : RW) (address : Nat)
  -- `tm2c_rpc_recvb`
  | recvb (v : Nat)
  -- `tm2c_rpc_rls_all`, from a commit macro or from `TX_ABORT`
  | rlsAll (v : Nat) (conflict : Conflict)
  -- `tm2c_rpc_is_processed`
  | processed (v seq : Nat)
  | released (v : Nat)
  -- one turn of `dsl_service`
  | handle (d v now : Nat)
  -- an application node writes its abort flag
  | abortFlag (v : Nat) (flag : Conflict)

/-- The address that is put into a message. -/
def internAddr (cfg : Config) (address : Nat) : Nat :=
  if cfg.pgas then internOffset address else address

def releaseType : RW → ReqType
  | .read => .loadRls
  | .write => .storeFinish

/-- A commit ends the transaction, an abort starts it anew with the same `start_ts`. -/
def afterRlsAll (conflict : Conflict) : GreedyPhase :=
  if conflict = .noConflict then .idle else .running

/-! ### What an application node has in flight -/

section Channels

/-- What a message makes of the timestamp of its sender, unless it is refused. -/
def stampedBy (timestamp : Nat) (req : Req) : Nat :=
  if req.type = .rmvNode then 0 else if timestamp = 0 then req.txMetadata else timestamp

/-- The messages with a reply. -/
def asks (cfg : Config) (req : Req) : Bool :=
  match req.type with
  | .load | .store | .storeInc | .loadNontx | .unknown => true
  | .storeNontx => !cfg.pgas
  | .loadRls | .storeFinish | .rmvNode => false

theorem isSome_dslSwitch {E : Type} [RwEntry E] (cfg : Config) (s : Dsl E) (sender : Nat)
    (req : Req) : (dslSwitch cfg s sender req).2.isSome = asks cfg req := by
  unfold asks
  cases htype : req.type with
  | load | store | rmvNode | loadRls | storeFinish | unknown =>
    simp [dslSwitch, htype, handleLoad, handleStore, handleRmvNode]
  | storeInc | loadNontx | storeNontx =>
    by_cases hpgas : cfg.pgas = true <;> simp [dslSwitch, htype, hpgas, handleStoreInc]

theorem asks_of_requestKind {cfg : Config} {req : Req} (h : (requestKind cfg req).isSome) :
    asks cfg req = true := by
  obtain ⟨rw, hkind⟩ := Option.isSome_iff_exists.mp h
  rcases requestKind_cases hkind with ⟨htype, -⟩ | ⟨htype, -⟩ | ⟨htype, -⟩ <;>
    simp [asks, htype]

/-- The node is in a transaction. -/
def GreedyNode.InTx (n : GreedyNode) : Prop :=
  n.phase ≠ .idle ∨ ∃ d, n.awaits = some (d, true)

/-- The messages of a node `n` with id `v` that are in flight, a reply to it, and its
timestamps at the service nodes. -/
structure Pending (cfg : Config) (v : Nat) (n : GreedyNode) (channel : Nat → List Req)
    (reply : Option Conflict) (firstTs timestamp : Nat → Nat) : Prop where
  settled : ∀ d, (channel d).foldl stampedBy (timestamp d) = firstTs d
  asked : ∀ d req, req ∈ channel d → asks cfg req = true →
    n.awaits = some (d, (requestKind cfg req).isSome) ∧ reply = none ∧
      ∃ earlier, channel d = earlier ++ [req] ∧ ∀ r ∈ earlier, asks cfg r = false
  requests : ∀ d req, req ∈ channel d → (requestKind cfg req).isSome →
    req.txMetadata = n.startTs ∧ firstTs d = n.startTs ∧ n.startTs ≠ 0
  replied : n.awaits = none → reply = none
  started : n.InTx → n.startTs ≠ 0 ∧ v < cfg.numUes
  exists_node : ∀ d, channel d ≠ [] → v < cfg.numUes

variable {cfg : Config} {v : Nat} {n : GreedyNode} {channel : Nat → List Req}
  {reply : Option Conflict} {firstTs timestamp : Nat → Nat}

/-- While nothing is awaited, or the reply is there, no question is in flight. -/
theorem Pending.not_asked (h : Pending cfg v n channel reply firstTs timestamp)
    (hfree : n.awaits = none ∨ reply ≠ none) {d : Nat} {req : Req} (hreq : req ∈ channel d) :
    asks cfg req = false := by
  by_contra hasks
  obtain ⟨hawaits, hnone, -⟩ := h.asked d req hreq (Bool.eq_true_of_not_eq_false hasks)
  rcases hfree with hfree | hreply
  · rw [hfree] at hawaits
    cases hawaits
  · exact hreply hnone

theorem not_asks_requestKind {req : Req} (h : asks cfg req = false) :
    ¬ (requestKind cfg req).isSome := by
  intro hkind
  have hasks := asks_of_requestKind hkind
  rw [h] at hasks
  cases hasks

/-- The node changes and nothing is in flight that depends on it. -/
theorem Pending.setNode (h : Pending cfg v n channel reply firstTs timestamp)
    (hfree : n.awaits = none ∨ reply ≠ none) {n' : GreedyNode} {reply' : Option Conflict}
    (hreply : n'.awaits = none → reply' = none)
    (hstarted : n'.InTx → n'.startTs ≠ 0 ∧ v < cfg.numUes) :
    Pending cfg v n' channel reply' firstTs timestamp where
  settled := h.settled
  asked := by
    intro d req hreq hasks
    rw [h.not_asked hfree hreq] at hasks
    cases hasks
  requests := by
    intro d req hreq hkind
    exact absurd hkind (not_asks_requestKind (h.not_asked hfree hreq))
  replied := hreply
  started := hstarted
  exists_node := h.exists_node

/-- The node changes and awaits what it awaited. -/
theorem Pending.congr (h : Pending cfg v n channel reply firstTs timestamp) {n' : GreedyNode}
    (hawaits : n'.awaits = n.awaits) (hstartTs : n'.startTs = n.startTs)
    (hphase : n.phase ≠ .idle) : Pending cfg v n' channel reply firstTs timestamp where
  settled := h.settled
  asked := by
    rw [hawaits]
    exact h.asked
  requests := by
    rw [hstartTs]
    exact h.requests
  replied := by
    rw [hawaits]
    exact h.replied
  started := by
    rw [hstartTs]
    exact fun _ => h.started (Or.inl hphase)
  exists_node := h.exists_node

/-- A message is sent. -/
theorem Pending.send (h : Pending cfg v n channel reply firstTs timestamp)
    (hfree : n.awaits = none) (hv : v < cfg.numUes) {d : Nat} {req : Req}
    (hmetadata : req.txMetadata = n.startTs) (hrmv : req.type ≠ .rmvNode)
    (hfirst : (requestKind cfg req).isSome →
      (firstTs d = 0 ∨ firstTs d = n.startTs) ∧ n.startTs ≠ 0)
    {n' : GreedyNode} (hstartTs : n'.startTs = n.startTs)
    (hawaits : n'.awaits = if asks cfg req then some (d, (requestKind cfg req).isSome) else none)
    (hphase : n'.phase = n.phase) :
    Pending cfg v n' (Function.update channel d (channel d ++ [req])) reply
      (Function.update firstTs d (if firstTs d = 0 then n.startTs else firstTs d)) timestamp := by
  have hcases : ∀ e r, r ∈ Function.update channel d (channel d ++ [req]) e →
      r ∈ channel e ∨ (e = d ∧ r = req) := by
    intro e r hr
    by_cases he : e = d
    · subst he
      rw [Function.update_self, List.mem_append, List.mem_singleton] at hr
      exact hr.imp_right fun heq => ⟨rfl, heq⟩
    · rw [Function.update_of_ne he] at hr
      exact Or.inl hr
  constructor
  case settled =>
    -- the timestamp that the service node is going to have
    intro e
    by_cases he : e = d
    · subst he
      rw [Function.update_self, Function.update_self, List.foldl_concat, h.settled e]
      simp only [stampedBy, if_neg hrmv, hmetadata]
    · rw [Function.update_of_ne he, Function.update_of_ne he]
      exact h.settled e
  case asked =>
    -- the node awaited nothing, so no older message asks for an answer
    intro e r hr hasks
    rcases hcases e r hr with hold | ⟨rfl, rfl⟩
    · rw [h.not_asked (Or.inl hfree) hold] at hasks
      cases hasks
    · rw [if_pos hasks] at hawaits
      refine ⟨hawaits, h.replied hfree, channel e, Function.update_self .., ?_⟩
      intro r hr
      exact h.not_asked (Or.inl hfree) hr
  case requests =>
    intro e r hr hkind
    rcases hcases e r hr with hold | ⟨rfl, rfl⟩
    · exact absurd hkind (not_asks_requestKind (h.not_asked (Or.inl hfree) hold))
    · obtain ⟨hfirst, hne⟩ := hfirst hkind
      rw [hstartTs, Function.update_self]
      refine ⟨hmetadata, ?_, hne⟩
      rcases hfirst with hzero | hsame
      · rw [if_pos hzero]
      · rw [hsame, if_neg hne]
  case replied =>
    intro _
    exact h.replied hfree
  case started =>
    intro htx
    rw [hstartTs]
    rcases htx with hidle | ⟨e, hawaits'⟩
    · exact h.started (Or.inl (hphase ▸ hidle))
    · rw [hawaits] at hawaits'
      split at hawaits'
      · obtain ⟨-, hkind⟩ := Prod.mk.inj (Option.some.inj hawaits')
        exact ⟨(hfirst hkind).2, hv⟩
      · cases hawaits'
  case exists_node =>
    intro e _
    exact hv

/-- `RMV_NODE` is sent to some service nodes. -/
theorem Pending.sendRmvNodes (h : Pending cfg v n channel reply firstTs timestamp)
    (hfree : n.awaits = none) (hphase : n.phase ≠ .idle) {P : Nat → Prop} [DecidablePred P]
    {req : Req} (hrmv : req.type = .rmvNode) {n' : GreedyNode} (hstartTs : n'.startTs = n.startTs) :
    Pending cfg v n' (fun d => if P d then channel d ++ [req] else channel d) reply
      (fun d => if P d then 0 else firstTs d) timestamp := by
  have hno : asks cfg req = false := by simp [asks, hrmv]
  have hnone : ∀ d r, r ∈ (if P d then channel d ++ [req] else channel d) →
      asks cfg r = false := by
    intro d r hr
    split at hr
    · rcases List.mem_append.mp hr with hold | hnew
      · exact h.not_asked (Or.inl hfree) hold
      · rw [List.mem_singleton] at hnew
        exact hnew ▸ hno
    · exact h.not_asked (Or.inl hfree) hr
  constructor
  case settled =>
    intro d
    by_cases hP : P d
    · simp only [if_pos hP, List.foldl_concat, stampedBy, if_pos hrmv]
    · simp only [if_neg hP]
      exact h.settled d
  case asked =>
    intro d r hr hasks
    rw [hnone d r hr] at hasks
    cases hasks
  case requests =>
    intro d r hr hkind
    exact absurd hkind (not_asks_requestKind (hnone d r hr))
  case replied =>
    intro _
    exact h.replied hfree
  case started =>
    intro _
    rw [hstartTs]
    exact h.started (Or.inl hphase)
  case exists_node =>
    intro _ _
    exact (h.started (Or.inl hphase)).2

/-- A question is the last message. -/
theorem Pending.last (h : Pending cfg v n channel reply firstTs timestamp) {d : Nat} {req : Req}
    {rest : List Req} (hchannel : channel d = req :: rest) (hasks : asks cfg req = true) :
    rest = [] := by
  obtain ⟨-, -, earlier, heq, hno⟩ := h.asked d req (hchannel ▸ List.mem_cons_self) hasks
  rw [hchannel] at heq
  cases earlier with
  | nil => exact (List.cons.inj heq).2
  | cons r earlier =>
    obtain ⟨rfl, -⟩ := List.cons.inj heq
    rw [hno req List.mem_cons_self] at hasks
    cases hasks

/-- The oldest message is handled. -/
theorem Pending.handled (h : Pending cfg v n channel reply firstTs timestamp) {d : Nat} {req : Req}
    {rest : List Req} (hchannel : channel d = req :: rest) (refused : Bool)
    (hrefused : refused = true → (requestKind cfg req).isSome)
    {reply' : Option Conflict} (hreply : asks cfg req = false → reply' = reply)
    {firstTs' timestamp' : Nat → Nat}
    (hfirst : ∀ e, firstTs' e = if e = d ∧ refused = true then 0 else firstTs e)
    (htimestamp : ∀ e, timestamp' e = if e = d then
      (if refused = true then 0 else stampedBy (timestamp d) req) else timestamp e) :
    Pending cfg v n (Function.update channel d rest) reply' firstTs' timestamp' := by
  have hmem : ∀ e r, r ∈ Function.update channel d rest e → r ∈ channel e := by
    intro e r hr
    by_cases he : e = d
    · subst he
      rw [Function.update_self] at hr
      exact hchannel ▸ List.mem_cons_of_mem req hr
    · rwa [Function.update_of_ne he] at hr
  -- when a question is handled no other one is in flight
  have halone : asks cfg req = true → ∀ e r, r ∈ Function.update channel d rest e →
      asks cfg r = false := by
    intro hasks e r hr
    by_contra hno
    have hr' := hmem e r hr
    obtain ⟨hawaits, -⟩ := h.asked d req (hchannel ▸ List.mem_cons_self) hasks
    obtain ⟨hawaits', -⟩ := h.asked e r hr' (Bool.eq_true_of_not_eq_false hno)
    obtain rfl : d = e := (Prod.mk.inj (Option.some.inj (hawaits.symm.trans hawaits'))).1
    rw [h.last hchannel hasks, Function.update_self] at hr
    cases hr
  have hgranted : asks cfg req = false → refused = false := by
    intro hno
    by_contra hr
    exact not_asks_requestKind hno (hrefused (Bool.eq_true_of_not_eq_false hr))
  constructor
  case settled =>
    -- the message has had its effect on the timestamp; a refusal forgets it
    intro e
    rw [hfirst, htimestamp]
    by_cases he : e = d
    · subst he
      have hold := h.settled e
      rw [hchannel, List.foldl_cons] at hold
      rw [Function.update_self, if_pos rfl]
      cases refused with
      | true =>
        rw [h.last hchannel (asks_of_requestKind (hrefused rfl))]
        simp
      | false => simpa using hold
    · rw [Function.update_of_ne he, if_neg he, if_neg (mt And.left he)]
      exact h.settled e
  case asked =>
    -- the messages that are left are the last ones of what there was
    intro e r hr hasks
    by_cases hask : asks cfg req = true
    · rw [halone hask e r hr] at hasks
      cases hasks
    · have hno := Bool.eq_false_of_not_eq_true hask
      obtain ⟨hawaits, hnone, earlier, heq, hearlier⟩ := h.asked e r (hmem e r hr) hasks
      refine ⟨hawaits, (hreply hno).trans hnone, ?_⟩
      by_cases he : e = d
      · subst he
        rw [Function.update_self] at hr ⊢
        rw [hchannel] at heq
        cases earlier with
        | nil =>
          obtain ⟨-, rfl⟩ := List.cons.inj heq
          cases hr
        | cons first earlier =>
          obtain ⟨-, rfl⟩ := List.cons.inj heq
          exact ⟨earlier, rfl, fun r hr => hearlier r (List.mem_cons_of_mem first hr)⟩
      · rw [Function.update_of_ne he]
        exact ⟨earlier, heq, hearlier⟩
  case requests =>
    intro e r hr hkind
    obtain ⟨hmetadata, hsame, hne⟩ := h.requests e r (hmem e r hr) hkind
    refine ⟨hmetadata, ?_, hne⟩
    by_cases hask : asks cfg req = true
    · exact absurd hkind (not_asks_requestKind (halone hask e r hr))
    · rw [hfirst, hgranted (Bool.eq_false_of_not_eq_true hask)]
      simpa using hsame
  case replied =>
    intro hawaits
    by_cases hask : asks cfg req = true
    · have hnone := h.not_asked (Or.inl hawaits) (hchannel ▸ List.mem_cons_self : req ∈ channel d)
      rw [hask] at hnone
      cases hnone
    · exact (hreply (Bool.eq_false_of_not_eq_true hask)).trans (h.replied hawaits)
  case started => exact h.started
  case exists_node =>
    intro e he
    by_cases hed : e = d
    · subst hed
      exact h.exists_node e (by rw [hchannel]; exact List.cons_ne_nil req rest)
    · rw [Function.update_of_ne hed] at he
      exact h.exists_node e he

end Channels

namespace GreedySystem

section Steps

variable {E : Type}

def setNode (s : GreedySystem E) (v : Nat) (n : GreedyNode) : GreedySystem E :=
  { s with node := Function.update s.node v n }

@[simp] theorem node_setNode (s : GreedySystem E) (v : Nat) (n : GreedyNode) :
    (s.setNode v n).node v = n := Function.update_self ..

theorem setNode_self (s : GreedySystem E) (v : Nat) : s.setNode v (s.node v) = s := by
  unfold setNode
  rw [Function.update_eq_self]

/-- `tm2c_rpc_sendb`, `tm2c_rpc_sendbr` and `tm2c_rpc_sendbv`. -/
def sendb (s : GreedySystem E) (v d : Nat) (type : ReqType) (address : Nat) (value : BitVec 64) :
    GreedySystem E :=
  { s with
    channel := setAt s.channel v d
      (s.channel v d ++ [⟨type, address, value, (s.node v).startTs⟩])
    firstTs := setAt s.firstTs v d
      (if s.firstTs v d = 0 then (s.node v).startTs else s.firstTs v d) }

/-- Where `tm2c_rpc_rls_all` sends a `RMV_NODE`. -/
def Releases (cl : Cluster) (s : GreedySystem E) (v d : Nat) : Prop :=
  d < cl.numDslNodes ∧ (s.node v).nodesContacted d > 0

instance (cl : Cluster) (s : GreedySystem E) (v d : Nat) : Decidable (s.Releases cl v d) := by
  unfold Releases
  infer_instance

def sendRmvNodes (cl : Cluster) (s : GreedySystem E) (v : Nat) (conflict : Conflict) :
    GreedySystem E :=
  { s with
    channel := fun w d =>
      if w = v ∧ s.Releases cl v d then
        s.channel w d ++ [⟨.rmvNode, 0, conflict.response, (s.node v).startTs⟩]
      else s.channel w d
    firstTs := fun w d => if w = v ∧ s.Releases cl v d then 0 else s.firstTs w d }

variable [RwEntry E]

def init : GreedySystem E where
  node _ := ⟨0, .idle, none, fun _ => 0⟩
  dsl _ := dslInit
  abortFlags _ := .noConflict
  channel _ _ := []
  reply _ := none
  globalTs := 0
  firstTs _ _ := 0
  entered _ _ _ _ := 0
  startedBy _ := 0

/-- A service node with the abort flags that it shares with everybody. -/
def service (s : GreedySystem E) (d : Nat) : Dsl E := { s.dsl d with abortFlags := s.abortFlags }

/-- The slot in which the message enters a lock. -/
def entersBy (cl : Cluster) (s : GreedySystem E) (d v now : Nat) (req : Req) :
    Option (SlotPtr × RW) :=
  (requestKind cl.cfg req).bind fun rw =>
    (entersAt cl.cfg (stamped cl.cfg now (s.service d) v req) v req.address rw).map fun p => (p, rw)

/-- Service node `d` handles the oldest message of node `v`. -/
def handle (cl : Cluster) (s : GreedySystem E) (d v now : Nat) (req : Req) (rest : List Req) :
    GreedySystem E :=
  let r := dslService cl.cfg now (s.service d) v req
  { s with
    dsl := Function.update s.dsl d r.1
    abortFlags := r.1.abortFlags
    channel := setAt s.channel v d rest
    reply :=
      match r.2 with
      | some reply => Function.update s.reply v (some reply.response)
      | none => s.reply
    firstTs := if refuses r.2 then setAt s.firstTs v d 0 else s.firstTs
    entered :=
      match s.entersBy cl d v now req with
      | some (p, rw) => fun d' p' n k =>
        if d' = d ∧ p' = p ∧ n = v ∧ k = rw then (s.node v).startTs else s.entered d' p' n k
      | none => s.entered }

/-- Requests are sent in a transaction, other messages also outside of one, and nothing is
sent while a reply is awaited or in `tm2c_rpc_rls_all`. -/
def step (cl : Cluster) (s : GreedySystem E) : GreedyEvent → Option (GreedySystem E)
  | .txStart v =>
    let n := s.node v
    if v < cl.cfg.numUes ∧ n.phase = .idle ∧ n.awaits = none then
      let ts := (s.globalTs + 1) % 2 ^ 64
      some { s.setNode v { n with startTs := ts, phase := .running } with
        globalTs := ts
        startedBy := Function.update s.startedBy ts v }
    else none
  | .request v type address value =>
    let n := s.node v
    let d := cl.responsibleNode address
    if n.phase = .running ∧ n.awaits = none ∧
        (type = .load ∨ type = .store ∨ (type = .storeInc ∧ cl.cfg.pgas = true)) then
      some ((s.sendb v d type (internAddr cl.cfg address) value).setNode v { n with
        awaits := some (d, true)
        nodesContacted :=
          Function.update n.nodesContacted d ((n.nodesContacted d + 1) % 2 ^ 16) })
    else none
  | .notxLoad v address words =>
    let n := s.node v
    let d := cl.responsibleNode address
    if v < cl.cfg.numUes ∧ (n.phase = .idle ∨ n.phase = .running) ∧ n.awaits = none ∧
        cl.cfg.pgas = true then
      some ((s.sendb v d .loadNontx (internAddr cl.cfg address) words).setNode v
        { n with awaits := some (d, false) })
    else none
  | .notxStore v address value =>
    let n := s.node v
    if v < cl.cfg.numUes ∧ (n.phase = .idle ∨ n.phase = .running) ∧ n.awaits = none ∧
        cl.cfg.pgas = true then
      some (s.sendb v (cl.responsibleNode address) .storeNontx (internAddr cl.cfg address) value)
    else none
  | .release v rw address =>
    let n := s.node v
    let d := cl.responsibleNode address
    if v < cl.cfg.numUes ∧ (n.phase = .idle ∨ n.phase = .running) ∧ n.awaits = none then
      some ((s.sendb v d (releaseType rw) (internAddr cl.cfg address) 0).setNode v { n with
        nodesContacted :=
          Function.update n.nodesContacted d ((n.nodesContacted d + (2 ^ 16 - 1)) % 2 ^ 16) })
    else none
  | .recvb v =>
    let n := s.node v
    match n.awaits, s.reply v with
    | some (d, tx), some response =>
      let s' := { s with reply := Function.update s.reply v none }
      if tx = true ∧ response ≠ .noConflict then
        some (s'.setNode v { n with
          phase := .refused
          awaits := none
          nodesContacted := Function.update n.nodesContacted d 0 })
      else some (s'.setNode v { n with awaits := none })
    | _, _ => none
  | .rlsAll v conflict =>
    let n := s.node v
    if (n.phase = .running ∨ (n.phase = .refused ∧ conflict ≠ .noConflict)) ∧
        n.awaits = none then
      if cl.cfg.pgas then
        some ((s.sendRmvNodes cl v conflict).setNode v { n with phase := .rlsAll conflict })
      else
        some ((s.sendRmvNodes cl v conflict).setNode v { n with
          phase := afterRlsAll conflict
          nodesContacted := fun d => if d < cl.numDslNodes then 0 else n.nodesContacted d })
    else none
  | .processed v seq =>
    let n := s.node v
    match n.phase with
    | .rlsAll _ =>
      if seq < cl.numDslNodes ∧ s.channel v seq = [] then
        some (s.setNode v { n with nodesContacted := Function.update n.nodesContacted seq 0 })
      else none
    | _ => none
  | .released v =>
    let n := s.node v
    match n.phase with
    | .rlsAll conflict =>
      if ∀ seq < cl.numDslNodes, n.nodesContacted seq = 0 then
        some (s.setNode v { n with phase := afterRlsAll conflict })
      else none
    | _ => none
  | .handle d v now =>
    match s.channel v d with
    | [] => none
    | req :: rest => some (s.handle cl d v now req rest)
  | .abortFlag v flag =>
    some { s with abortFlags := Function.update s.abortFlags v flag }

/-- The requests that service nodes are about to handle are arbitrated right: the
timestamps are those of the transactions that contend, and the older one wins. -/
def PrioritiesRight (cl : Cluster) (s : GreedySystem E) : Prop :=
  ∀ v d now req rest rw, s.channel v d = req :: rest → requestKind cl.cfg req = some rw →
    let dsl := stamped cl.cfg now (s.service d) v req
    dsl.timestamp v = (s.node v).startTs ∧
      (∀ p n k, Contests cl.cfg dsl.ht v req.address rw p n k →
        dsl.timestamp n = s.entered d p n k) ∧
      ((tm2cHtInsert cl.cfg dsl v req.address rw).1 = .noConflict ↔
        ∀ p n k, Contests cl.cfg dsl.ht v req.address rw p n k →
          (s.node v).startTs < s.entered d p n k)

/-- A node requests locks where it left no message of an earlier transaction, releases
early only what it has, and the counter does not overflow. -/
def LeavesNothing (cl : Cluster) (s : GreedySystem E) : GreedyEvent → Prop
  | .txStart _ => s.globalTs + 1 < 2 ^ 64
  | .request v _ address _ => s.firstTs v (cl.responsibleNode address) = 0 ∨
      s.firstTs v (cl.responsibleNode address) = (s.node v).startTs
  | .handle d v _ => ∀ req rest, s.channel v d = req :: rest → ReleasesOwn (s.dsl d).ht v req
  | _ => True

end Steps

/-! ### Runs -/

section Runs

variable {E : Type} [LawfulRwEntry E] {cl : Cluster} {s s' : GreedySystem E}

/-- The `start_ts` was drawn by the node, if it is one. -/
def DrawnBy (s : GreedySystem E) (v ts : Nat) : Prop :=
  ts = 0 ∨ (ts ≤ s.globalTs ∧ s.startedBy ts = v)

/-- Every lock belongs to the transaction whose timestamp is stored. -/
structure Tables (cl : Cluster) (s : GreedySystem E) : Prop where
  tidy : ∀ d n, n < idBound E → Tidy n (s.dsl d).ht
  marks : ∀ d p n k, n < idBound E → Marks (s.dsl d).ht p n k →
    n < cl.cfg.numUes ∧ (s.dsl d).timestamp n = s.entered d p n k ∧ (s.dsl d).timestamp n ≠ 0

/-- No two nodes have the same `start_ts`. -/
structure Drawn (s : GreedySystem E) : Prop where
  started : ∀ v, s.DrawnBy v (s.node v).startTs
  sent : ∀ v d req, req ∈ s.channel v d → s.DrawnBy v req.txMetadata
  stored : ∀ d v, s.DrawnBy v ((s.dsl d).timestamp v)

structure Sound (cl : Cluster) (s : GreedySystem E) : Prop where
  tables : s.Tables cl
  drawn : s.Drawn
  pending : ∀ v, Pending cl.cfg v (s.node v) (s.channel v) (s.reply v) (s.firstTs v)
    fun d => (s.dsl d).timestamp v

theorem sound_init : (init : GreedySystem E).Sound cl where
  tables :=
    { tidy := fun _ _ hn => tidy_sshtNew hn
      marks := fun _ p n k hn h => absurd h (marks_sshtNew hn p k) }
  drawn :=
    { started := fun _ => Or.inl rfl
      sent := fun _ _ _ h => by cases h
      stored := fun _ _ => Or.inl rfl }
  pending v :=
    { settled := fun _ => rfl
      asked := fun _ _ h => by cases h
      requests := fun _ _ h => by cases h
      replied := fun _ => rfl
      started := by
        rintro (h | ⟨d, h⟩)
        · exact absurd rfl h
        · cases h
      exists_node := fun _ h => absurd rfl h }

/-- A request is handled under the timestamp of its transaction. -/
theorem Sound.requester (h : s.Sound cl) (hcm : cl.cfg.cm = .greedy true) {v d : Nat} (now : Nat)
    {req : Req} {rest : List Req} {rw : RW} (hchannel : s.channel v d = req :: rest)
    (hkind : requestKind cl.cfg req = some rw) :
    (stamped cl.cfg now (s.service d) v req).timestamp v = (s.node v).startTs ∧
      (s.node v).startTs ≠ 0 := by
  have hmem : req ∈ s.channel v d := hchannel ▸ List.mem_cons_self
  have hsome : (requestKind cl.cfg req).isSome := by rw [hkind]; rfl
  obtain ⟨-, hfirst, hne⟩ := (h.pending v).requests d req hmem hsome
  have hsettled := (h.pending v).settled d
  rw [hchannel, (h.pending v).last hchannel (asks_of_requestKind hsome)] at hsettled
  have hrmv : req.type ≠ .rmvNode := by
    intro hrmv
    simp [requestKind, hrmv] at hkind
  simp only [List.foldl_cons, List.foldl_nil, stampedBy, if_neg hrmv] at hsettled
  refine ⟨?_, hne⟩
  simp only [stamped, updateTimestamp_greedy hcm, Function.update_self, service]
  rw [hsettled, hfirst]

omit [LawfulRwEntry E] in
theorem stamped_of_ne (hcm : cl.cfg.cm = .greedy true) (d now : Nat) {v n : Nat} (hne : n ≠ v)
    (req : Req) : (stamped cl.cfg now (s.service d) v req).timestamp n = (s.dsl d).timestamp n := by
  simp only [stamped, updateTimestamp_greedy hcm, Function.update_of_ne hne, service]

omit [LawfulRwEntry E] in
/-- A timestamp that is there stays. -/
theorem stamped_of_ne_zero (hcm : cl.cfg.cm = .greedy true) (d now v : Nat) {n : Nat}
    (hnz : (s.dsl d).timestamp n ≠ 0) (req : Req) :
    (stamped cl.cfg now (s.service d) v req).timestamp n = (s.dsl d).timestamp n := by
  by_cases hne : n = v
  · subst hne
    simp only [stamped, updateTimestamp_greedy hcm, Function.update_self, service, if_neg hnz]
  · exact stamped_of_ne hcm d now hne req

/-- What the invariants say about requests that are about to be handled. -/
theorem Sound.prioritiesRight (h : s.Sound cl) (hcm : cl.cfg.cm = .greedy true)
    (hbound : cl.cfg.numUes ≤ idBound E) : s.PrioritiesRight cl := by
  intro v d now req rest rw hchannel hkind
  obtain ⟨hself, hne⟩ := h.requester hcm now hchannel hkind
  have hv : v < cl.cfg.numUes :=
    (h.pending v).exists_node d (by rw [hchannel]; exact List.cons_ne_nil req rest)
  have htidy : Tidy v (s.dsl d).ht := h.tables.tidy d v (Nat.lt_of_lt_of_le hv hbound)
  have hcontests : ∀ p n k,
      Contests cl.cfg (stamped cl.cfg now (s.service d) v req).ht v req.address rw p n k →
        (stamped cl.cfg now (s.service d) v req).timestamp n = s.entered d p n k ∧
          (s.dsl d).timestamp n ≠ 0 := by
    intro p n k hcontest
    obtain ⟨-, hentered, hnz⟩ := h.tables.marks d p n k (hcontest.lt_idBound htidy) hcontest.marks
    exact ⟨(stamped_of_ne_zero hcm d now v hnz req).trans hentered, hnz⟩
  refine ⟨hself, fun p n k hcontest => (hcontests p n k hcontest).1, ?_⟩
  rw [granted_iff (by rw [hcm]; rfl) ?_]
  · constructor
    · intro hall p n k hcontest
      obtain ⟨hentered, hnz⟩ := hcontests p n k hcontest
      have hprec := hall p n k hcontest
      unfold Precedes at hprec
      rw [hself, hentered] at hprec
      rcases hprec with hlt | ⟨heq, hid⟩
      · exact hlt
      · -- equal timestamps are of one node
        have hsame : v = n := by
          by_contra hvn
          rw [← hentered, stamped_of_ne hcm d now (Ne.symm hvn) req] at heq
          have hdrawn := (h.drawn.started v).resolve_left hne
          have hdrawn' := (h.drawn.stored d n).resolve_left hnz
          rw [heq] at hdrawn
          exact hvn (hdrawn.2.symm.trans hdrawn'.2)
        exact absurd hid (hsame ▸ Nat.lt_irrefl v)
    · intro hall p n k hcontest
      left
      rw [hself, (hcontests p n k hcontest).1]
      exact hall p n k hcontest
  · intro p sl n hslot hread
    exact (h.tables.marks d p n .read (htidy.reader_lt p sl n hslot hread)
      ⟨sl, hslot, hread⟩).1

/-- Only the application node `v` moves. -/
structure MovesOnly (v : Nat) (s s' : GreedySystem E) : Prop where
  dsl : s'.dsl = s.dsl
  entered : s'.entered = s.entered
  node : ∀ w, w ≠ v → s'.node w = s.node w
  channel : ∀ w, w ≠ v → s'.channel w = s.channel w
  reply : ∀ w, w ≠ v → s'.reply w = s.reply w
  firstTs : ∀ w, w ≠ v → s'.firstTs w = s.firstTs w

omit [LawfulRwEntry E] in
theorem Drawn.of_movesOnly {v : Nat} (h : s.Drawn) (hmove : MovesOnly v s s')
    (hmono : ∀ w ts, s.DrawnBy w ts → s'.DrawnBy w ts)
    (hstarted : s'.DrawnBy v (s'.node v).startTs)
    (hsent : ∀ d req, req ∈ s'.channel v d →
      req ∈ s.channel v d ∨ req.txMetadata = (s'.node v).startTs) : s'.Drawn where
  started := by
    intro w
    by_cases hw : w = v
    · exact hw ▸ hstarted
    · rw [hmove.node w hw]
      exact hmono w _ (h.started w)
  sent := by
    intro w d req hreq
    by_cases hw : w = v
    · subst hw
      rcases hsent d req hreq with hold | hnew
      · exact hmono w _ (h.sent w d req hold)
      · rw [hnew]
        exact hstarted
    · rw [hmove.channel w hw] at hreq
      exact hmono w _ (h.sent w d req hreq)
  stored := by
    intro d w
    rw [hmove.dsl]
    exact hmono w _ (h.stored d w)

theorem Sound.of_movesOnly {v : Nat} (h : s.Sound cl) (hmove : MovesOnly v s s')
    (hdrawn : s'.Drawn)
    (hpending : Pending cl.cfg v (s'.node v) (s'.channel v) (s'.reply v) (s'.firstTs v)
      fun d => (s.dsl d).timestamp v) : s'.Sound cl where
  tables :=
    { tidy := by
        intro d n hn
        rw [hmove.dsl]
        exact h.tables.tidy d n hn
      marks := by
        intro d p n k hn hmark
        rw [hmove.dsl] at hmark ⊢
        rw [hmove.entered]
        exact h.tables.marks d p n k hn hmark }
  drawn := hdrawn
  pending := by
    intro w
    rw [hmove.dsl]
    by_cases hw : w = v
    · exact hw ▸ hpending
    · rw [hmove.node w hw, hmove.channel w hw, hmove.reply w hw, hmove.firstTs w hw]
      exact h.pending w

/-- A node changes and awaits what it awaited. -/
theorem Sound.setNode {v : Nat} (h : s.Sound cl) {n' : GreedyNode}
    (hawaits : n'.awaits = (s.node v).awaits) (hstartTs : n'.startTs = (s.node v).startTs)
    (hphase : (s.node v).phase ≠ .idle) : (s.setNode v n').Sound cl := by
  have hmove : MovesOnly v s (s.setNode v n') := by
    refine ⟨rfl, rfl, ?_, fun _ _ => rfl, fun _ _ => rfl, fun _ _ => rfl⟩
    intro w hw
    exact Function.update_of_ne hw ..
  apply h.of_movesOnly hmove
  · apply h.drawn.of_movesOnly hmove (fun _ _ h => h)
    · rw [node_setNode, hstartTs]
      exact h.drawn.started v
    · intro d req hreq
      exact Or.inl hreq
  · rw [node_setNode]
    exact (h.pending v).congr hawaits hstartTs hphase

/-- A reply is received. -/
theorem Sound.recvb {v : Nat} (h : s.Sound cl) (hreply : s.reply v ≠ none) {n' : GreedyNode}
    (hstartTs : n'.startTs = (s.node v).startTs)
    (hstarted : n'.InTx → (s.node v).InTx) :
    (({ s with reply := Function.update s.reply v none } : GreedySystem E).setNode v n').Sound
      cl := by
  have hmove : MovesOnly v s
      (({ s with reply := Function.update s.reply v none } : GreedySystem E).setNode v n') := by
    refine ⟨rfl, rfl, ?_, fun _ _ => rfl, ?_, fun _ _ => rfl⟩
    · intro w hw
      exact Function.update_of_ne hw ..
    · intro w hw
      exact Function.update_of_ne hw ..
  apply h.of_movesOnly hmove
  · apply h.drawn.of_movesOnly hmove (fun _ _ h => h)
    · rw [node_setNode, hstartTs]
      exact h.drawn.started v
    · intro d req hreq
      exact Or.inl hreq
  · rw [node_setNode]
    apply (h.pending v).setNode (Or.inr hreply)
    · intro _
      exact Function.update_self ..
    · intro hphase
      rw [hstartTs]
      exact (h.pending v).started (hstarted hphase)

/-- A message is sent. -/
theorem Sound.sendb {v d : Nat} (h : s.Sound cl) (hfree : (s.node v).awaits = none)
    (hv : v < cl.cfg.numUes) {type : ReqType} (address : Nat) (value : BitVec 64)
    (hrmv : type ≠ .rmvNode)
    (hfirst : type = .load ∨ type = .store ∨ type = .storeInc →
      (s.firstTs v d = 0 ∨ s.firstTs v d = (s.node v).startTs) ∧ (s.node v).startTs ≠ 0)
    {n' : GreedyNode} (hstartTs : n'.startTs = (s.node v).startTs)
    (hawaits : n'.awaits = if asks cl.cfg ⟨type, address, value, (s.node v).startTs⟩ then
      some (d, (requestKind cl.cfg ⟨type, address, value, (s.node v).startTs⟩).isSome) else none)
    (hphase : n'.phase = (s.node v).phase) :
    ((s.sendb v d type address value).setNode v n').Sound cl := by
  have hmove : MovesOnly v s ((s.sendb v d type address value).setNode v n') := by
    refine ⟨rfl, rfl, ?_, ?_, fun _ _ => rfl, ?_⟩
    · intro w hw
      exact Function.update_of_ne hw ..
    · intro w hw
      exact setAt_of_ne _ hw d _
    · intro w hw
      exact setAt_of_ne _ hw d _
  have hnode : ((s.sendb v d type address value).setNode v n').node v = n' := node_setNode ..
  have hchannel : ((s.sendb v d type address value).setNode v n').channel v =
      Function.update (s.channel v) d
        (s.channel v d ++ [⟨type, address, value, (s.node v).startTs⟩]) := setAt_self ..
  have hfirstTs : ((s.sendb v d type address value).setNode v n').firstTs v =
      Function.update (s.firstTs v) d
        (if s.firstTs v d = 0 then (s.node v).startTs else s.firstTs v d) := setAt_self ..
  apply h.of_movesOnly hmove
  · apply h.drawn.of_movesOnly hmove (fun _ _ h => h)
    · rw [hnode, hstartTs]
      exact h.drawn.started v
    · intro e req hreq
      rw [hchannel] at hreq
      rw [hnode, hstartTs]
      by_cases he : e = d
      · subst he
        rw [Function.update_self, List.mem_append, List.mem_singleton] at hreq
        exact hreq.imp_right fun heq => by rw [heq]
      · rw [Function.update_of_ne he] at hreq
        exact Or.inl hreq
  · rw [hnode, hchannel, hfirstTs]
    apply (h.pending v).send hfree hv rfl hrmv _ hstartTs hawaits hphase
    intro hkind
    apply hfirst
    obtain ⟨rw, hkind⟩ := Option.isSome_iff_exists.mp hkind
    rcases requestKind_cases hkind with ⟨htype, -⟩ | ⟨htype, -⟩ | ⟨htype, -⟩
    · exact Or.inl htype
    · exact Or.inr (Or.inl htype)
    · exact Or.inr (Or.inr htype)

/-- `RMV_NODE` is sent to the contacted service nodes. -/
theorem Sound.sendRmvNodes {v : Nat} (h : s.Sound cl) (hfree : (s.node v).awaits = none)
    (hphase : (s.node v).phase ≠ .idle) (conflict : Conflict) {n' : GreedyNode}
    (hstartTs : n'.startTs = (s.node v).startTs) :
    ((s.sendRmvNodes cl v conflict).setNode v n').Sound cl := by
  have hmove : MovesOnly v s ((s.sendRmvNodes cl v conflict).setNode v n') := by
    refine ⟨rfl, rfl, ?_, ?_, fun _ _ => rfl, ?_⟩
    · intro w hw
      exact Function.update_of_ne hw ..
    · intro w hw
      funext d
      exact if_neg (mt And.left hw)
    · intro w hw
      funext d
      exact if_neg (mt And.left hw)
  have hnode : ((s.sendRmvNodes cl v conflict).setNode v n').node v = n' := node_setNode ..
  have hchannel : ((s.sendRmvNodes cl v conflict).setNode v n').channel v = fun d =>
      if s.Releases cl v d then
        s.channel v d ++ [⟨.rmvNode, 0, conflict.response, (s.node v).startTs⟩]
      else s.channel v d := by
    funext d
    simp only [GreedySystem.setNode, GreedySystem.sendRmvNodes, true_and]
  have hfirstTs : ((s.sendRmvNodes cl v conflict).setNode v n').firstTs v = fun d =>
      if s.Releases cl v d then 0 else s.firstTs v d := by
    funext d
    simp only [GreedySystem.setNode, GreedySystem.sendRmvNodes, true_and]
  apply h.of_movesOnly hmove
  · apply h.drawn.of_movesOnly hmove (fun _ _ h => h)
    · rw [hnode, hstartTs]
      exact h.drawn.started v
    · intro d req hreq
      rw [hchannel] at hreq
      rw [hnode, hstartTs]
      simp only at hreq
      split at hreq
      · rw [List.mem_append, List.mem_singleton] at hreq
        exact hreq.imp_right fun heq => by rw [heq]
      · exact Or.inl hreq
  · rw [hnode, hchannel, hfirstTs]
    exact (h.pending v).sendRmvNodes hfree hphase rfl hstartTs

section Handle

variable {d v now : Nat} {req : Req} {rest : List Req}

theorem dsl_handle (e : Nat) : (s.handle cl d v now req rest).dsl e =
    if e = d then (dslService cl.cfg now (s.service d) v req).1 else s.dsl e := by
  simp only [handle, Function.update_apply]

/-- The timestamps after the message. -/
theorem timestamp_handle (hcm : cl.cfg.cm = .greedy true) (e w : Nat) :
    ((s.handle cl d v now req rest).dsl e).timestamp w =
      if e = d ∧ w = v then
        if refuses (dslService cl.cfg now (s.service d) v req).2 = true then 0
        else stampedBy ((s.dsl d).timestamp v) req
      else (s.dsl e).timestamp w := by
  rw [dsl_handle]
  by_cases he : e = d
  · subst he
    have hswitch : (dslService cl.cfg now (s.service e) v req).1.timestamp =
        if req.type = .rmvNode ∨ refuses (dslService cl.cfg now (s.service e) v req).2 = true then
          Function.update (stamped cl.cfg now (s.service e) v req).timestamp v 0
        else (stamped cl.cfg now (s.service e) v req).timestamp :=
      timestamp_dslSwitch hcm (stamped cl.cfg now (s.service e) v req) req
    rw [if_pos rfl, hswitch]
    by_cases hw : w = v
    · subst hw
      simp only [and_self, if_true]
      by_cases hrefused : refuses (dslService cl.cfg now (s.service e) w req).2 = true
      · rw [if_pos (Or.inr hrefused), if_pos hrefused, Function.update_self]
      · rw [if_neg hrefused]
        by_cases hrmv : req.type = .rmvNode
        · rw [if_pos (Or.inl hrmv), Function.update_self, stampedBy, if_pos hrmv]
        · rw [if_neg (not_or.mpr ⟨hrmv, hrefused⟩), stampedBy, if_neg hrmv]
          simp only [stamped, updateTimestamp_greedy hcm, Function.update_self, service]
    · rw [if_neg (mt And.right hw)]
      split
      · rw [Function.update_of_ne hw]
        exact stamped_of_ne hcm e now hw req
      · exact stamped_of_ne hcm e now hw req
  · rw [if_neg he, if_neg (mt And.left he)]

/-- The lock entered by a request is entered for its transaction. -/
theorem entered_handle (e : Nat) (p : SlotPtr) (n : Nat) (k : RW) :
    (s.handle cl d v now req rest).entered e p n k =
      if e = d ∧ n = v ∧ s.entersBy cl d v now req = some (p, k) then (s.node v).startTs
      else s.entered e p n k := by
  unfold handle
  cases henters : s.entersBy cl d v now req with
  | none => simp
  | some r =>
    obtain ⟨q, rw⟩ := r
    simp only [Option.some.injEq, Prod.mk.injEq]
    by_cases hcond : e = d ∧ p = q ∧ n = v ∧ k = rw
    · obtain ⟨rfl, rfl, rfl, rfl⟩ := hcond
      simp
    · rw [if_neg hcond, if_neg]
      rintro ⟨he, hn, hq, hk⟩
      exact hcond ⟨he, hq.symm, hn, hk.symm⟩

theorem Tables.handle (h : s.Sound cl) (hcm : cl.cfg.cm = .greedy true)
    (hbound : cl.cfg.numUes ≤ idBound E) (hchannel : s.channel v d = req :: rest)
    (howns : ReleasesOwn (s.dsl d).ht v req) :
    (s.handle cl d v now req rest).Tables cl := by
  have hnumUes : v < cl.cfg.numUes :=
    (h.pending v).exists_node d (by rw [hchannel]; exact List.cons_ne_nil req rest)
  have hv : v < idBound E := Nat.lt_of_lt_of_le hnumUes hbound
  have htidy : ∀ n, n < idBound E → Tidy n (s.service d).ht :=
    fun n hn => h.tables.tidy d n hn
  constructor
  case tidy =>
    intro e n hn
    rw [dsl_handle]
    split
    · exact tidy_dslService hn hv now (htidy n hn) howns
    · exact h.tables.tidy e n hn
  case marks =>
    intro e p n k hn hmark
    rw [timestamp_handle hcm, entered_handle]
    rw [dsl_handle] at hmark
    by_cases he : e = d
    · subst he
      rw [if_pos rfl] at hmark
      have hnew := marks_dslSwitch hn hv (s := stamped cl.cfg now (s.service e) v req)
        (htidy n hn) hmark
      by_cases hnv : n = v
      · -- a lock of the sender is an old one, or it was entered by this request
        subst hnv
        have hkeeps : ¬ (req.type = .rmvNode ∨
            refuses (dslService cl.cfg now (s.service e) n req).2 = true) :=
          fun hends => not_marks_dslService hn (htidy n hn) hends p k hmark
        rw [not_or] at hkeeps
        simp only [true_and, and_self, if_true, if_neg hkeeps.2, stampedBy, if_neg hkeeps.1]
        refine ⟨hnumUes, ?_⟩
        by_cases henters : s.entersBy cl e n now req = some (p, k)
        · rw [if_pos henters]
          obtain ⟨rw, hkind, -⟩ := Option.bind_eq_some_iff.mp henters
          obtain ⟨hself, hne⟩ := h.requester hcm now hchannel hkind
          simp only [stamped, updateTimestamp_greedy hcm, Function.update_self, service] at hself
          rw [hself]
          exact ⟨rfl, hne⟩
        · rw [if_neg henters]
          rcases hnew with hold | ⟨rw, hkind, hat, -, rfl⟩
          · obtain ⟨-, hentered, hnz⟩ := h.tables.marks e p n k hn hold
            rw [if_neg hnz]
            exact ⟨hentered, hnz⟩
          · refine absurd ?_ henters
            simp only [GreedySystem.entersBy, hkind, Option.bind_some, hat, Option.map_some]
      · rw [if_neg (mt And.right hnv), if_neg (fun hc => hnv hc.2.1)]
        rcases hnew with hold | ⟨-, -, -, heq, -⟩
        · exact h.tables.marks e p n k hn hold
        · exact absurd heq hnv
    · rw [if_neg he] at hmark
      rw [if_neg (mt And.left he), if_neg (mt And.left he)]
      exact h.tables.marks e p n k hn hmark

theorem channel_handle (w : Nat) : (s.handle cl d v now req rest).channel w =
    if w = v then Function.update (s.channel v) d rest else s.channel w := by
  by_cases hw : w = v
  · subst hw
    rw [if_pos rfl]
    exact setAt_self ..
  · rw [if_neg hw]
    exact setAt_of_ne _ hw d rest

theorem Drawn.handle (h : s.Sound cl) (hcm : cl.cfg.cm = .greedy true)
    (hchannel : s.channel v d = req :: rest) : (s.handle cl d v now req rest).Drawn where
  started := h.drawn.started
  sent := by
    intro w e r hr
    apply h.drawn.sent w e
    rw [channel_handle] at hr
    by_cases hw : w = v
    · subst hw
      rw [if_pos rfl] at hr
      by_cases he : e = d
      · subst he
        rw [Function.update_self] at hr
        exact hchannel ▸ List.mem_cons_of_mem req hr
      · rwa [Function.update_of_ne he] at hr
    · rwa [if_neg hw] at hr
  stored := by
    intro e w
    rw [timestamp_handle hcm]
    split
    · rename_i hself
      obtain ⟨rfl, rfl⟩ := hself
      split
      · exact Or.inl rfl
      · unfold stampedBy
        split
        · exact Or.inl rfl
        · split
          · exact h.drawn.sent w e req (hchannel ▸ List.mem_cons_self)
          · exact h.drawn.stored e w
    · exact h.drawn.stored e w

theorem reply_handle_of_ne {w : Nat} (hw : w ≠ v) :
    (s.handle cl d v now req rest).reply w = s.reply w := by
  simp only [GreedySystem.handle]
  cases (dslService cl.cfg now (s.service d) v req).2 with
  | none => rfl
  | some reply => exact Function.update_of_ne hw ..

theorem firstTs_handle (w e : Nat) : (s.handle cl d v now req rest).firstTs w e =
    if w = v ∧ e = d ∧ refuses (dslService cl.cfg now (s.service d) v req).2 = true then 0
    else s.firstTs w e := by
  simp only [GreedySystem.handle]
  by_cases hrefused : refuses (dslService cl.cfg now (s.service d) v req).2 = true
  · simp only [hrefused, if_true, and_true, setAt]
  · simp only [hrefused, and_false, Bool.false_eq_true, if_false]

theorem Sound.handle (h : s.Sound cl) (hcm : cl.cfg.cm = .greedy true)
    (hbound : cl.cfg.numUes ≤ idBound E) (hchannel : s.channel v d = req :: rest)
    (howns : ReleasesOwn (s.dsl d).ht v req) : (s.handle cl d v now req rest).Sound cl where
  tables := Tables.handle h hcm hbound hchannel howns
  drawn := Drawn.handle h hcm hchannel
  pending := by
    intro w
    by_cases hw : w = v
    · subst hw
      rw [channel_handle, if_pos rfl]
      apply (h.pending w).handled hchannel
        (refuses (dslService cl.cfg now (s.service d) w req).2)
      · intro hrefused
        obtain ⟨rw, hkind⟩ := requestKind_of_refuses hrefused
        rw [hkind]
        rfl
      · intro hno
        have hnone : (dslService cl.cfg now (s.service d) w req).2 = none := by
          rw [← Option.not_isSome_iff_eq_none]
          have hsome := isSome_dslSwitch cl.cfg (stamped cl.cfg now (s.service d) w req) w req
          rw [hno] at hsome
          exact Bool.eq_false_iff.mp hsome
        simp only [GreedySystem.handle, hnone]
      · intro e
        rw [firstTs_handle]
        simp only [true_and]
      · intro e
        simp only [timestamp_handle hcm, and_true]
    · rw [channel_handle, if_neg hw, reply_handle_of_ne hw]
      have hfirst : (s.handle cl d v now req rest).firstTs w = s.firstTs w := by
        funext e
        rw [firstTs_handle, if_neg (mt And.left hw)]
      have htimestamp : (fun e => ((s.handle cl d v now req rest).dsl e).timestamp w) =
          fun e => (s.dsl e).timestamp w := by
        funext e
        rw [timestamp_handle hcm, if_neg (mt And.right hw)]
      rw [hfirst, htimestamp]
      exact h.pending w

end Handle

/-- A transaction starts with a `start_ts` that nobody has. -/
theorem Sound.txStart {v : Nat} (h : s.Sound cl) (hguard : s.globalTs + 1 < 2 ^ 64)
    (hstep : step cl s (.txStart v) = some s') : s'.Sound cl := by
  have hmod : (s.globalTs + 1) % 2 ^ 64 = s.globalTs + 1 := Nat.mod_eq_of_lt hguard
  simp only [step, hmod] at hstep
  split at hstep
  · rename_i hcond
    obtain ⟨hv, -, hfree⟩ := hcond
    obtain rfl := Option.some.inj hstep
    have hmove : MovesOnly v s { s.setNode v { s.node v with
        startTs := s.globalTs + 1, phase := .running } with
        globalTs := s.globalTs + 1
        startedBy := Function.update s.startedBy (s.globalTs + 1) v } := by
      refine ⟨rfl, rfl, ?_, fun _ _ => rfl, fun _ _ => rfl, fun _ _ => rfl⟩
      intro w hw
      exact Function.update_of_ne hw ..
    apply h.of_movesOnly hmove
    · apply h.drawn.of_movesOnly hmove
      · intro w ts hts
        rcases hts with hzero | ⟨hle, hby⟩
        · exact Or.inl hzero
        · right
          refine ⟨Nat.le_succ_of_le hle, ?_⟩
          have hne : ts ≠ s.globalTs + 1 := by omega
          simp only [Function.update_of_ne hne]
          exact hby
      · right
        simp only [node_setNode]
        exact ⟨Nat.le_refl _, Function.update_self ..⟩
      · intro d req hreq
        exact Or.inl hreq
    · simp only [node_setNode]
      apply (h.pending v).setNode (Or.inl hfree)
      · intro _
        exact (h.pending v).replied hfree
      · intro _
        exact ⟨Nat.succ_ne_zero _, hv⟩
  · cases hstep

/-- A request goes out with the `start_ts` of the transaction, which is what the service node has
stored or is going to store. -/
theorem Sound.request {v : Nat} {type : ReqType} {address : Nat} {value : BitVec 64}
    (h : s.Sound cl) (hguard : s.LeavesNothing cl (.request v type address value))
    (hstep : step cl s (.request v type address value) = some s') : s'.Sound cl := by
  simp only [step] at hstep
  split at hstep
  · rename_i hcond
    obtain ⟨hphase, hfree, htype⟩ := hcond
    obtain rfl := Option.some.inj hstep
    have hidle : (s.node v).phase ≠ .idle := by
      rw [hphase]
      decide
    obtain ⟨hne, hv⟩ := (h.pending v).started (Or.inl hidle)
    have hkind : (requestKind cl.cfg
        ⟨type, internAddr cl.cfg address, value, (s.node v).startTs⟩).isSome := by
      rcases htype with rfl | rfl | ⟨rfl, hpgas⟩
      · rfl
      · rfl
      · simp [requestKind, hpgas]
    refine h.sendb hfree hv (internAddr cl.cfg address) value ?_ (fun _ => ⟨hguard, hne⟩) rfl ?_
      rfl
    · rcases htype with rfl | rfl | ⟨rfl, -⟩ <;> decide
    · rw [if_pos (asks_of_requestKind hkind), hkind]
  · cases hstep

/-- The answer is taken; a refusal ends the attempt. -/
theorem Sound.received {v : Nat} (h : s.Sound cl) (hstep : step cl s (.recvb v) = some s') :
    s'.Sound cl := by
  simp only [step] at hstep
  split at hstep
  · rename_i d tx response hawaits hreply
    have hsome : s.reply v ≠ none := by
      rw [hreply]
      exact Option.some_ne_none response
    split at hstep
    · -- a refused request: the node stays in its transaction and aborts
      rename_i hcond
      obtain rfl := Option.some.inj hstep
      refine h.recvb hsome rfl ?_
      intro _
      exact Or.inr ⟨d, hcond.1 ▸ hawaits⟩
    · -- anything else leaves the phase as it is
      obtain rfl := Option.some.inj hstep
      refine h.recvb hsome rfl ?_
      rintro (hphase | ⟨e, hnone⟩)
      · exact Or.inl hphase
      · cases hnone
  · cases hstep

/-- By cases on what happens: only the start of a transaction and the messages touch what `Sound`
says. -/
theorem Sound.step (h : s.Sound cl) (hcm : cl.cfg.cm = .greedy true)
    (hbound : cl.cfg.numUes ≤ idBound E) {e : GreedyEvent} (hguard : s.LeavesNothing cl e)
    (hstep : GreedySystem.step cl s e = some s') : s'.Sound cl := by
  cases e with
  | txStart v => exact h.txStart hguard hstep
  | request v type address value => exact h.request hguard hstep
  -- outside of transactions the messages are no requests, so nothing is asked of `start_ts`
  | notxLoad v address words =>
    simp only [GreedySystem.step] at hstep
    split at hstep
    · rename_i hcond
      obtain ⟨hv, -, hfree, -⟩ := hcond
      obtain rfl := Option.some.inj hstep
      refine h.sendb hfree hv (internAddr cl.cfg address) words (by decide) ?_ rfl rfl rfl
      rintro (hc | hc | hc) <;> cases hc
    · cases hstep
  | notxStore v address value =>
    simp only [GreedySystem.step] at hstep
    split at hstep
    · rename_i hcond
      obtain ⟨hv, -, hfree, hpgas⟩ := hcond
      obtain rfl := Option.some.inj hstep
      rw [← setNode_self (s.sendb v (cl.responsibleNode address) .storeNontx
        (internAddr cl.cfg address) value) v]
      refine h.sendb hfree hv (internAddr cl.cfg address) value (by decide) ?_ rfl ?_ rfl
      · rintro (hc | hc | hc) <;> cases hc
      · simp only [asks, hpgas, Bool.not_true, Bool.false_eq_true, if_false]
        exact hfree
    · cases hstep
  | release v rw address =>
    simp only [GreedySystem.step] at hstep
    split at hstep
    · rename_i hcond
      obtain ⟨hv, -, hfree⟩ := hcond
      obtain rfl := Option.some.inj hstep
      refine h.sendb hfree hv (internAddr cl.cfg address) 0 ?_ ?_ rfl ?_ rfl
      · cases rw <;> decide
      · cases rw <;> rintro (hc | hc | hc) <;> cases hc
      · cases rw <;> simpa [asks, releaseType] using hfree
    · cases hstep
  | recvb v => exact h.received hstep
  -- a commit and an abort send the same messages
  | rlsAll v conflict =>
    simp only [GreedySystem.step] at hstep
    split at hstep
    · rename_i hcond
      obtain ⟨hphase, hfree⟩ := hcond
      have hidle : (s.node v).phase ≠ .idle := by
        rcases hphase with hphase | ⟨hphase, -⟩ <;> rw [hphase] <;> decide
      split at hstep
      · obtain rfl := Option.some.inj hstep
        exact h.sendRmvNodes hfree hidle conflict rfl
      · obtain rfl := Option.some.inj hstep
        exact h.sendRmvNodes hfree hidle conflict rfl
    · cases hstep
  -- the node waits for the others and changes nothing but its phase
  | processed v seq =>
    simp only [GreedySystem.step] at hstep
    split at hstep
    · rename_i conflict hphase
      split at hstep
      · obtain rfl := Option.some.inj hstep
        refine h.setNode rfl rfl ?_
        rw [hphase]
        exact fun hc => by cases hc
      · cases hstep
    · cases hstep
  | released v =>
    simp only [GreedySystem.step] at hstep
    split at hstep
    · rename_i conflict hphase
      split at hstep
      · obtain rfl := Option.some.inj hstep
        refine h.setNode rfl rfl ?_
        rw [hphase]
        exact fun hc => by cases hc
      · cases hstep
    · cases hstep
  | handle d v now =>
    simp only [GreedySystem.step] at hstep
    split at hstep
    · cases hstep
    · rename_i req rest hchannel
      obtain rfl := Option.some.inj hstep
      exact h.handle hcm hbound hchannel (hguard req rest hchannel)
  | abortFlag v flag =>
    obtain rfl := Option.some.inj hstep
    exact ⟨⟨h.tables.tidy, h.tables.marks⟩, ⟨h.drawn.started, h.drawn.sent, h.drawn.stored⟩,
      h.pending⟩

theorem Sound.run (hcm : cl.cfg.cm = .greedy true) (hbound : cl.cfg.numUes ≤ idBound E)
    {es : List GreedyEvent}
    (hrun : Exec (restrict (LeavesNothing cl) (partialGraph (GreedySystem.step cl))) init es s) :
    s.Sound cl :=
  hrun.invariant (Sound cl) (fun _ _ _ h hstep => h.step hcm hbound hstep.1 hstep.2) sound_init

/-- **The priorities are those of the transactions.** -/
theorem priorities_right (cl : Cluster) (hcm : cl.cfg.cm = .greedy true)
    (hbound : cl.cfg.numUes ≤ idBound E) (es : List GreedyEvent) (s : GreedySystem E)
    (hrun : Exec (restrict (LeavesNothing cl) (partialGraph (step cl))) init es s) :
    s.PrioritiesRight cl :=
  (Sound.run hcm hbound hrun).prioritiesRight hcm hbound

end Runs

/-! ### Two runs -/

def greedyCluster : Cluster := ⟨⟨.greedy true, true, false, 4⟩, 1, fun _ => 0⟩

/-- The guard of `LeavesNothing`, without early releases. -/
def leavesNothing (cl : Cluster) (s : GreedySystem BitEntry) : GreedyEvent → Bool
  | .txStart _ => decide (s.globalTs + 1 < 2 ^ 64)
  | .request v _ address _ => decide (s.firstTs v (cl.responsibleNode address) = 0) ||
      decide (s.firstTs v (cl.responsibleNode address) = (s.node v).startTs)
  | .handle d v _ => (s.channel v d).all fun req => (earlyKind req).isNone
  | _ => true

theorem leavesNothing_sound {cl : Cluster} {s : GreedySystem BitEntry} {e : GreedyEvent}
    (h : leavesNothing cl s e = true) : s.LeavesNothing cl e := by
  cases e with
  | txStart v =>
    change s.globalTs + 1 < 2 ^ 64
    exact of_decide_eq_true h
  | request v type address value =>
    rcases Bool.or_eq_true_iff.mp h with hzero | hsame
    · exact Or.inl (of_decide_eq_true hzero)
    · exact Or.inr (of_decide_eq_true hsame)
  | handle d v now =>
    intro req rest hchannel rw hearly
    have hnone := List.all_eq_true.mp h req (hchannel ▸ List.mem_cons_self)
    rw [hearly] at hnone
    cases hnone
  | notxLoad | notxStore | release | recvb | rlsAll | processed | released | abortFlag => trivial

/-- Node 1 asks for what node 2 writes; its transaction is the older one. -/
def olderRun : List GreedyEvent :=
  [.txStart 1, .txStart 2, .request 2 .store 64 7, .handle 0 2 0, .recvb 2, .request 1 .load 64 1]

theorem priorities_right_olderRun :
    ∃ s : GreedySystem BitEntry,
      Exec (restrict (LeavesNothing greedyCluster) (partialGraph (step greedyCluster))) init
        olderRun s ∧ s.channel 1 0 ≠ [] ∧ s.PrioritiesRight greedyCluster := by
  let C (s : GreedySystem BitEntry) (e : GreedyEvent) : Prop :=
    leavesNothing greedyCluster s e = true
  have hsome : ∃ s, olderRun.foldlM (guarded C (step greedyCluster)) init = some s ∧
      s.channel 1 0 ≠ [] :=
    ⟨(olderRun.foldlM (guarded C (step greedyCluster)) init).get (by decide +kernel),
      (Option.some_get _).symm, by decide +kernel⟩
  obtain ⟨s, hsome, hchannel⟩ := hsome
  have hguarded : Exec (restrict (LeavesNothing greedyCluster)
      (partialGraph (step greedyCluster))) init olderRun s :=
    (exec_guarded_iff.mpr hsome).mono fun _ _ _ h => ⟨leavesNothing_sound h.1, h.2⟩
  exact ⟨s, hguarded, hchannel,
    priorities_right greedyCluster rfl (by decide) olderRun s hguarded⟩

/-- Node 1 commits, reads a word outside of transactions, and starts a transaction that
asks for what node 2 has been writing in an older one. -/
def staleRun : List GreedyEvent :=
  [.txStart 1, .rlsAll 1 .noConflict, .released 1, .notxLoad 1 128 1, .handle 0 1 0, .recvb 1,
    .txStart 2, .request 2 .store 64 7, .handle 0 2 0, .recvb 2,
    .txStart 1, .request 1 .load 64 1]

/-- The younger transaction is arbitrated under the `start_ts` of the one before it, and
wins. -/
theorem stale_priority :
    ∃ s : GreedySystem BitEntry,
      Exec (partialGraph (step greedyCluster)) init staleRun s ∧
      (s.node 1).startTs = 3 ∧ s.entered 0 (0, 0) 2 .write = 2 ∧
      (s.dsl 0).timestamp 1 = 1 ∧
      (tm2cHtInsert greedyCluster.cfg (s.service 0) 1 64 .read).1 = .noConflict ∧
      ¬ s.PrioritiesRight greedyCluster := by
  refine ⟨(staleRun.foldlM (step greedyCluster) init).get (by decide +kernel),
    exec_partialGraph_iff.mpr (Option.some_get _).symm, by decide +kernel, by decide +kernel,
    by decide +kernel, by decide +kernel, ?_⟩
  intro hright
  have hself := (hright 1 0 0 ⟨.load, 64, 1, 3⟩ [] .read (by decide +kernel) rfl).1
  revert hself
  decide +kernel

end GreedySystem

end TM2C
