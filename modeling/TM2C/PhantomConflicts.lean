import TM2C.Insertion
import TM2C.MutualExclusion

/-!
# Conflicts with nobody

A request that the lock table refuses should be in the way of another node that
holds a lock.  Every writer field and every reader flag of the table was granted
and not released since (`Traced`), so the insertion of a lock meets the locks of
the living only; but a LOAD meets the sender's own write lock, too, and with the
byte array a counter that went wrong stands for readers that do not exist.

`Inserts` lists the outcomes of `tm2c_ht_insert` for a table of either encoding: refused because
of the slot that was found, entered in a free slot, or entered in the slot found after deleting
victims.  It is stated with and without PGAS, where victims keep their locks, and for all
contention managers, and the later modules on tables take an insertion apart by it.

`Traced` is an invariant of runs with a list of grants beside the state.  With the byte array it
needs that log entries and locks match, which a STORE that meets its sender's own write lock or
overwrites another one undoes; that is the condition `KeepsCounters`, on the state and the
message.  Given `Traced`, a refusal is analysed at its slot: whoever is named there has a grant
that is still in the list, and the only one it can be without a conflict is the sender itself.
Hence the equivalence, in which nothing is asked of runs with the bitmap.
-/

namespace TM2C

open RwEntry LawfulRwEntry Transition

/-! ### What an insertion does -/

section Insertion

variable {E : Type} [LawfulRwEntry E] {cfg : Config}

/-- The locks of a slot on which a request is refused. -/
def Blocked (e : E) (id : Nat) : RW → Prop
  | .read => writer e ≠ SSHT_NO_WRITER
  | .write => (writer e ≠ SSHT_NO_WRITER ∧ writer e ≠ id) ∨ ∃ m, m ≠ id ∧ isReader e m = true

/-- The table once the victims of a request are aborted. -/
def abortedTable (cfg : Config) (t : Ssht E) (victims : List Nat) : Ssht E :=
  if cfg.pgas then t else deleteNodes t victims

/-- The outcomes of `tm2c_ht_insert`. -/
inductive Inserts (cfg : Config) (s : Dsl E) (id addr : Nat) (rw : RW) : Conflict × Dsl E → Prop
  | refused {i : Nat} {sl : Slot E} {conflict : Conflict} :
      bucketFind (s.ht.bucket (bucketOf cfg.pgas addr)) addr = some (i, sl) →
      Blocked sl.entry id rw → conflict ≠ .noConflict → Inserts cfg s id addr rw (conflict, s)
  | free {s' : Dsl E} :
      bucketFind (s.ht.bucket (bucketOf cfg.pgas addr)) addr = none →
      s'.ht = markFree (bucketAlloc s.ht (bucketOf cfg.pgas addr)).1
        (bucketAlloc s.ht (bucketOf cfg.pgas addr)).2 id addr rw →
      Inserts cfg s id addr rw (.noConflict, s')
  | found {i : Nat} {sl : Slot E} (victims : List Nat) {s' : Dsl E} :
      bucketFind (s.ht.bucket (bucketOf cfg.pgas addr)) addr = some (i, sl) →
      (∀ v ∈ victims, v < idBound E) →
      (writer sl.entry ≠ SSHT_NO_WRITER → writer sl.entry ≠ id →
        writer sl.entry ∈ victims ∧ cfg.cm.isReal = true ∧
          Precedes s.timestamp id (writer sl.entry)) →
      s'.ht = markFound (abortedTable cfg s.ht victims) (bucketOf cfg.pgas addr, i) id addr rw →
      Inserts cfg s id addr rw (.noConflict, s')

theorem ht_abortDefenders (cfg : Config) (s : Dsl E) (victims : List Nat) (conflict : Conflict) :
    (victims.foldl (fun s v => abortDefender cfg s v conflict) s).ht =
      abortedTable cfg s.ht victims := by
  unfold abortedTable
  by_cases hpgas : cfg.pgas = true
  · rw [if_pos hpgas]
    induction victims generalizing s with
    | nil => rfl
    | cons v victims ih =>
      rw [List.foldl_cons, ih]
      simp only [abortDefender, if_pos hpgas]
  · rw [if_neg hpgas]
    exact (ht_foldl_abortDefender _ (Or.inl (Bool.eq_false_of_not_eq_true hpgas)) s conflict).1

/-- The slots keep the ids of their locks in range. -/
def SlotsValid (t : Ssht E) : Prop :=
  ∀ p sl, t.slot? p = some sl → Valid sl.entry ∧
    (writer sl.entry = SSHT_NO_WRITER ∨ writer sl.entry < idBound E)

/-- A request that wins against the writer has the writer for a victim. -/
theorem inserts_attackSlotWriter {s : Dsl E} {id addr i : Nat} {sl : Slot E} (rw : RW)
    (conflict : Conflict) (hconflict : conflict ≠ .noConflict)
    (hfind : bucketFind (s.ht.bucket (bucketOf cfg.pgas addr)) addr = some (i, sl))
    (hblocked : Blocked sl.entry id rw) (hlt : writer sl.entry < idBound E) :
    Inserts cfg s id addr rw
      ((attackSlotWriter cfg s.timestamp (bucketOf cfg.pgas addr, i) id (writer sl.entry)
        conflict).carryOut cfg s id addr rw) := by
  unfold attackSlotWriter
  split
  · rename_i hwon
    refine Inserts.found [writer sl.entry] hfind ?_ ?_ ?_
    · intro v hv
      rw [List.mem_singleton] at hv
      exact hv ▸ hlt
    · intro _ _
      exact ⟨List.mem_singleton_self _, hwon⟩
    · exact congrArg (fun t => markFound t _ id addr rw)
        (ht_abortDefenders cfg s [writer sl.entry] conflict)
  · exact Inserts.refused hfind hblocked hconflict

theorem tm2cHtInsert_inserts {s : Dsl E} (h : SlotsValid s.ht) {id : Nat} (hid : id < idBound E)
    (addr : Nat) (rw : RW) : Inserts cfg s id addr rw (tm2cHtInsert cfg s id addr rw) := by
  rw [tm2cHtInsert_eq]
  cases rw with
  | read =>
    simp only [insertion, insertionR]
    cases hfind : bucketFind (s.ht.bucket (bucketOf cfg.pgas addr)) addr with
    | none => exact Inserts.free hfind rfl
    | some r =>
      obtain ⟨i, sl⟩ := r
      have hslot : s.ht.slot? (bucketOf cfg.pgas addr, i) = some sl := (bucketFind_eq_some hfind).1
      obtain ⟨-, hlt⟩ := h _ sl hslot
      by_cases hw : writer sl.entry ≠ SSHT_NO_WRITER
      · simp only [if_pos hw]
        exact inserts_attackSlotWriter .read _ (by decide) hfind hw (hlt.resolve_left hw)
      · simp only [if_neg hw]
        refine Inserts.found [] hfind (fun v hv => by cases hv) (fun hc => absurd hc hw) ?_
        exact congrArg (fun t => markReaderFound t _ id addr)
          (ht_abortDefenders cfg s [] .readAfterWrite)
  | write =>
    simp only [insertion, insertionW]
    cases hfind : bucketFind (s.ht.bucket (bucketOf cfg.pgas addr)) addr with
    | none => exact Inserts.free hfind rfl
    | some r =>
      obtain ⟨i, sl⟩ := r
      have hslot : s.ht.slot? (bucketOf cfg.pgas addr, i) = some sl := (bucketFind_eq_some hfind).1
      obtain ⟨hvalid, hlt⟩ := h _ sl hslot
      by_cases hother : writer sl.entry ≠ SSHT_NO_WRITER ∧ writer sl.entry ≠ id
      · simp only [if_pos hother]
        exact inserts_attackSlotWriter .write _ (by decide) hfind (Or.inl hother)
          (hlt.resolve_left hother.1)
      · simp only [if_neg hother]
        have hfound : ∀ victims : List Nat, (∀ v ∈ victims, v < idBound E) →
            Inserts cfg s id addr .write ((Insertion.grant (some (bucketOf cfg.pgas addr, i))
              .writeAfterRead victims).carryOut cfg s id addr .write) := by
          intro victims hvictims
          refine Inserts.found victims hfind hvictims (fun hw hne => absurd ⟨hw, hne⟩ hother) ?_
          exact congrArg (fun t => markWriter t _ id addr)
            (ht_abortDefenders cfg s victims .writeAfterRead)
        by_cases hothers : hasOtherReaders sl.entry id = true
        · simp only [if_pos hothers]
          split
          · apply hfound
            intro v hv
            exact reader_lt hvalid (Bool.and_eq_true_iff.mp (List.mem_filter.mp hv).2).1
          · exact Inserts.refused hfind (Or.inr ((hasOtherReaders_iff hvalid hid).mp hothers))
              (by decide)
        · simp only [if_neg hothers]
          exact hfound [] fun v hv => by cases hv

end Insertion

/-! ### Locks come from grants -/

section Traced

variable {E : Type} [LawfulRwEntry E]

/-- The locks of a slot were granted on its address, and a free slot has none. -/
structure SlotTraced (grants : List Grant) (sl : Slot E) : Prop where
  valid : Valid sl.entry
  writer_lt : writer sl.entry = SSHT_NO_WRITER ∨ writer sl.entry < idBound E
  free : sl.addr = 0 → Empty sl.entry
  written : writer sl.entry ≠ SSHT_NO_WRITER → ⟨writer sl.entry, sl.addr, .write⟩ ∈ grants
  read : ∀ m, isReader sl.entry m = true → ⟨m, sl.addr, .read⟩ ∈ grants

/-- Every lock was granted; every lock is covered by a log entry, and with the byte
array every log entry covers a lock. -/
structure Traced (t : Ssht E) (grants : List Grant) : Prop where
  slot : ∀ p sl, t.slot? p = some sl → SlotTraced grants sl
  covered : Covered t
  counted : ∀ n p, n < idBound E → exact E = true → (t.logs n).count p ≤ t.lockCount p n

variable {t : Ssht E} {grants : List Grant}

theorem slotTraced_new : SlotTraced grants (⟨0, RwEntry.new⟩ : Slot E) where
  valid := valid_new
  writer_lt := Or.inl writer_new
  free _ := ⟨writer_new, isReader_new⟩
  written h := absurd writer_new h
  read m hm := by
    have hno : isReader (RwEntry.new : E) m = false := isReader_new m
    exact absurd hm (by rw [hno]; decide)

theorem traced_sshtNew : Traced (sshtNew : Ssht E) [] where
  slot _ _ hp := slot?_sshtNew hp ▸ slotTraced_new
  covered := (accounted_sshtNew false).covered
  counted := (accounted_sshtNew false).counted

theorem SlotTraced.mono {sl : Slot E} (h : SlotTraced grants sl) {grants' : List Grant}
    (hsub : ∀ g ∈ grants, g ∈ grants') : SlotTraced grants' sl where
  valid := h.valid
  writer_lt := h.writer_lt
  free := h.free
  written hw := hsub _ (h.written hw)
  read m hm := hsub _ (h.read m hm)

theorem Traced.mono (h : Traced t grants) {grants' : List Grant}
    (hsub : ∀ g ∈ grants, g ∈ grants') : Traced t grants' where
  slot p sl hp := (h.slot p sl hp).mono hsub
  covered := h.covered
  counted := h.counted

theorem Traced.slotsValid (h : Traced t grants) : SlotsValid t := by
  intro p sl hp
  exact ⟨(h.slot p sl hp).valid, (h.slot p sl hp).writer_lt⟩

/-- A node with an empty log has no lock, so that its grants need not be kept. -/
theorem Traced.filter (h : Traced t grants) :
    Traced t (grants.filter fun g => !(t.logs g.node).isEmpty) where
  slot p sl hp := by
    have hslot := h.slot p sl hp
    have hlogged : ∀ n, n < idBound E → 0 < entryLocks sl.entry n →
        (!(t.logs n).isEmpty) = true := by
      intro n hn hpos
      have hcount := h.covered n p hn
      rw [Ssht.lockCount_of_slot hp] at hcount
      have hmem : p ∈ t.logs n := List.count_pos_iff.mp (Nat.lt_of_lt_of_le hpos hcount)
      simpa using List.ne_nil_of_mem hmem
    refine ⟨hslot.valid, hslot.writer_lt, hslot.free, ?_, ?_⟩
    · intro hw
      have hlt := hslot.writer_lt.resolve_left hw
      exact List.mem_filter.mpr ⟨hslot.written hw,
        hlogged _ hlt (entryLocks_pos_iff.mpr (Or.inr rfl))⟩
    · intro m hm
      have hlt := reader_lt hslot.valid hm
      exact List.mem_filter.mpr ⟨hslot.read m hm,
        hlogged _ hlt (entryLocks_pos_iff.mpr (Or.inl hm))⟩
  covered := h.covered
  counted := h.counted

/-! What the operations do to the locks of a slot. -/

theorem SlotTraced.removed {n : Nat} {sl sl' : Slot E} (h : SlotTraced grants sl)
    (hremoved : Removed n sl sl') : SlotTraced grants sl' := by
  have hreader : ∀ m, isReader sl'.entry m = true → isReader sl.entry m = true := by
    intro m hm
    by_cases hmn : m = n
    · rw [hmn] at hm ⊢
      exact hremoved.reader_self hm
    · rwa [hremoved.reader m hmn] at hm
  refine ⟨hremoved.valid, ?_, ?_, ?_, ?_⟩
  · obtain hw | ⟨-, hno⟩ := hremoved.writer
    · rw [hw]
      exact h.writer_lt
    · exact Or.inl hno
  · intro hzero
    obtain haddr | hempty := hremoved.freed
    · exact hremoved.toStripped.empty (h.free (haddr.symm.trans hzero))
    · exact hempty
  · intro hno
    obtain hw | ⟨-, hno'⟩ := hremoved.writer
    · obtain haddr | hempty := hremoved.freed
      · rw [hw] at hno ⊢
        rw [haddr]
        exact h.written hno
      · exact absurd hempty.1 hno
    · exact absurd hno' hno
  · intro m hm
    obtain haddr | hempty := hremoved.freed
    · rw [haddr]
      exact h.read m (hreader m hm)
    · rw [hempty.2 m] at hm
      cases hm

theorem SlotTraced.addReader {sl : Slot E} (h : SlotTraced grants sl) {addr n : Nat}
    (haddr : sl.addr = 0 ∨ sl.addr = addr) (hne : addr ≠ 0) (hn : n < idBound E)
    (hfree : exact E = true → isReader sl.entry n = false) :
    SlotTraced (grants ++ [⟨n, addr, .read⟩]) (⟨addr, RwEntry.addReader sl.entry n⟩ : Slot E) := by
  refine ⟨valid_addReader h.valid hn hfree, ?_, fun hzero => absurd hzero hne, ?_, ?_⟩
  · rw [writer_addReader]
    exact h.writer_lt
  · intro hw
    rw [writer_addReader] at hw ⊢
    obtain hzero | rfl := haddr
    · exact absurd (h.free hzero).1 hw
    · exact List.mem_append_left _ (h.written hw)
  · intro m hm
    rw [isReader_addReader hn, Bool.or_eq_true, decide_eq_true_eq] at hm
    obtain rfl | hm := hm
    · exact List.mem_append_right _ (List.mem_singleton_self _)
    · obtain hzero | rfl := haddr
      · rw [(h.free hzero).2 m] at hm
        cases hm
      · exact List.mem_append_left _ (h.read m hm)

theorem SlotTraced.setWriter {sl : Slot E} (h : SlotTraced grants sl) {addr n : Nat}
    (haddr : sl.addr = 0 ∨ sl.addr = addr) (hne : addr ≠ 0) (hn : n < idBound E) :
    SlotTraced (grants ++ [⟨n, addr, .write⟩]) (⟨addr, RwEntry.setWriter sl.entry n⟩ : Slot E) := by
  refine ⟨valid_setWriter h.valid, ?_, fun hzero => absurd hzero hne, ?_, ?_⟩
  · rw [writer_setWriter_of_lt hn]
    exact Or.inr hn
  · intro _
    rw [writer_setWriter_of_lt hn]
    exact List.mem_append_right _ (List.mem_singleton_self _)
  · intro m hm
    rw [isReader_setWriter] at hm
    obtain hzero | rfl := haddr
    · rw [(h.free hzero).2 m] at hm
      cases hm
    · exact List.mem_append_left _ (h.read m hm)

/-! What the operations do to the table. -/

theorem Traced.bucketAlloc (h : Traced t grants) (bu : Nat) :
    Traced (bucketAlloc t bu).1 grants where
  slot p sl hp := by
    obtain hold | rfl := slot_bucketAlloc hp
    · exact h.slot p sl hold
    · exact slotTraced_new
  covered := h.covered.bucketAlloc bu
  counted n p hn hexact := by
    rw [(bucketAlloc_spec t bu).1, lockCount_bucketAlloc t bu p hn]
    exact h.counted n p hn hexact

theorem Traced.removed_iterate (h : Traced t grants) {n : Nat} (hn : n < idBound E) {p : SlotPtr}
    {sl : Slot E} (hp : t.slot? p = some sl) :
    Removed n sl ((sshtBucketRemoveIndex n)^[(t.logs n).count p] sl) := by
  refine TM2C.removed_iterate hn (h.slot p sl hp).valid _ ?_
  intro hexact
  have hcount := h.counted n p hn hexact
  rwa [Ssht.lockCount_of_slot hp] at hcount

theorem Traced.deleteNode (h : Traced t grants) {n : Nat} (hn : n < idBound E) :
    Traced (tm2cHtDeleteNode t n) grants where
  slot p sl' hp := by
    rw [slot?_deleteNode] at hp
    obtain ⟨sl, hold, rfl⟩ := Option.map_eq_some_iff.mp hp
    exact (h.slot p sl hold).removed (h.removed_iterate hn hold)
  covered := h.covered.deleteNode hn
  counted m p hm hexact := by
    rw [logs_deleteNode]
    by_cases hmn : m = n
    · rw [if_pos hmn]
      exact Nat.zero_le _
    · rw [if_neg hmn, lockCount_deleteNode_of_ne hn hmn hm]
      exact h.counted m p hm hexact

/-- What is left of a slot when victims are deleted: the writer is none of them. -/
structure Spared (victims : List Nat) (sl sl' : Slot E) : Prop where
  addr : sl'.addr = 0 ∨ sl'.addr = sl.addr
  writer : writer sl'.entry = SSHT_NO_WRITER ∨
    (writer sl'.entry = writer sl.entry ∧ writer sl.entry ∉ victims)

theorem Traced.deleteNodes (h : Traced t grants) {victims : List Nat}
    (hlt : ∀ v ∈ victims, v < idBound E) {p : SlotPtr} {sl : Slot E} (hp : t.slot? p = some sl) :
    Traced (deleteNodes t victims) grants ∧
      ∃ sl', (deleteNodes t victims).slot? p = some sl' ∧ Spared victims sl sl' := by
  induction victims generalizing t sl with
  | nil => exact ⟨h, sl, hp, Or.inr rfl, Or.inr ⟨rfl, List.not_mem_nil⟩⟩
  | cons v victims ih =>
    have hv : v < idBound E := hlt v List.mem_cons_self
    have hremoved := h.removed_iterate hv hp
    have hgone : entryLocks ((sshtBucketRemoveIndex v)^[(t.logs v).count p] sl).entry v = 0 := by
      have hcount := h.covered v p hv
      rw [Ssht.lockCount_of_slot hp] at hcount
      rw [entryLocks_iterate_remove hv]
      omega
    have hp' : (tm2cHtDeleteNode t v).slot? p =
        some ((sshtBucketRemoveIndex v)^[(t.logs v).count p] sl) := by
      rw [slot?_deleteNode, hp, Option.map_some]
    obtain ⟨htraced, sl', hslot, hspared⟩ := ih (h.deleteNode hv)
      (fun w hw => hlt w (List.mem_cons_of_mem v hw)) hp'
    refine ⟨htraced, sl', hslot, ?_, ?_⟩
    · obtain hzero | haddr := hspared.addr
      · exact Or.inl hzero
      · exact haddr ▸ hremoved.addr.symm
    · obtain hno | ⟨hw, hnot⟩ := hspared.writer
      · exact Or.inl hno
      · obtain hw' | ⟨-, hno⟩ := hremoved.writer
        · refine Or.inr ⟨hw.trans hw', ?_⟩
          rw [hw'] at hnot
          rw [List.mem_cons, not_or]
          exact ⟨fun hself => (entryLocks_eq_zero_iff.mp hgone).2 (hw'.trans hself), hnot⟩
        · exact Or.inl (hw.trans hno)

theorem Traced.enter (h : Traced t grants) {p : SlotPtr} {sl : Slot E} (hp : t.slot? p = some sl)
    {n : Nat} {f : Slot E → Slot E} {g : Grant} (hslot : SlotTraced (grants ++ [g]) (f sl))
    (hself : entryLocks (f sl).entry n ≤ entryLocks sl.entry n + 1)
    (hothers : ∀ m, m < idBound E → m ≠ n → entryLocks (f sl).entry m ≤ entryLocks sl.entry m)
    (hexact : exact E = true → entryLocks sl.entry n + 1 ≤ entryLocks (f sl).entry n ∧
      ∀ m, m < idBound E → m ≠ n → entryLocks sl.entry m ≤ entryLocks (f sl).entry m) :
    Traced (sshtLogSetInsert (t.modifySlot p f) n p) (grants ++ [g]) where
  slot q sl' hq := by
    by_cases hqp : q = p
    · subst hqp
      rw [slot?_sshtLogSetInsert, Ssht.slot?_modifySlot_self hp, Option.some.injEq] at hq
      exact hq ▸ hslot
    · rw [slot?_sshtLogSetInsert, Ssht.slot?_modifySlot_of_ne hqp] at hq
      exact (h.slot q sl' hq).mono fun g hg => List.mem_append_left _ hg
  covered := h.covered.enter hp hself hothers
  counted m q hm hex :=
    counted_enter hp (h.counted m q hm hex) (hexact hex).1 ((hexact hex).2 m hm)

theorem Traced.markReader (h : Traced t grants) {p : SlotPtr} {sl : Slot E} {addr n : Nat}
    (hp : t.slot? p = some sl) (haddr : sl.addr = 0 ∨ sl.addr = addr) (hne : addr ≠ 0)
    (hn : n < idBound E) (hfree : exact E = true → isReader sl.entry n = false) :
    Traced (markReader t p n addr) (grants ++ [⟨n, addr, .read⟩]) := by
  have hlocks : ∀ m, entryLocks (RwEntry.addReader sl.entry n) m =
      if m = n then 1 + (decide (writer sl.entry = n)).toNat else entryLocks sl.entry m :=
    fun m => entryLocks_addReader hn
  refine h.enter hp ((h.slot p sl hp).addReader haddr hne hn hfree) ?_ ?_ ?_
  · rw [hlocks, if_pos rfl]
    unfold entryLocks
    omega
  · intro m _ hmn
    rw [hlocks, if_neg hmn]
  · intro hexact
    refine ⟨?_, ?_⟩
    · rw [hlocks, if_pos rfl]
      unfold entryLocks
      rw [hfree hexact, Bool.toNat_false]
      omega
    · intro m _ hmn
      rw [hlocks, if_neg hmn]

theorem Traced.markReaderFound (h : Traced t grants) {p : SlotPtr} {sl : Slot E} {addr n : Nat}
    (hp : t.slot? p = some sl) (haddr : sl.addr = 0 ∨ sl.addr = addr) (hne : addr ≠ 0)
    (hn : n < idBound E) :
    Traced (markReaderFound t p n addr) (grants ++ [⟨n, addr, .read⟩]) := by
  obtain ⟨hsame, -⟩ | ⟨hmark, hfree⟩ := markReaderFound_cases hp haddr
    fun hzero => ((h.slot p sl hp).free hzero).2 n
  · rw [hsame]
    exact h.mono fun g hg => List.mem_append_left _ hg
  · rw [hmark]
    exact h.markReader hp haddr hne hn hfree

/-- With the byte array a writer must not be overwritten, not even by itself. -/
theorem Traced.markWriter (h : Traced t grants) {p : SlotPtr} {sl : Slot E} {addr n : Nat}
    (hp : t.slot? p = some sl) (haddr : sl.addr = 0 ∨ sl.addr = addr) (hne : addr ≠ 0)
    (hn : n < idBound E) (hfree : exact E = true → writer sl.entry = SSHT_NO_WRITER) :
    Traced (markWriter t p n addr) (grants ++ [⟨n, addr, .write⟩]) := by
  have hlocks : ∀ m, entryLocks (RwEntry.setWriter sl.entry n) m =
      (isReader sl.entry m).toNat + (decide (n = m)).toNat :=
    fun m => entryLocks_setWriter hn
  refine h.enter hp ((h.slot p sl hp).setWriter haddr hne hn) ?_ ?_ ?_
  · rw [hlocks]
    unfold entryLocks
    simp
  · intro m _ hmn
    have hnm : n ≠ m := fun heq => hmn heq.symm
    rw [hlocks]
    unfold entryLocks
    simp [hnm]
  · intro hexact
    have hwriter : ∀ m, m < idBound E → writer sl.entry ≠ m := by
      intro m hm
      rw [hfree hexact]
      exact (ne_noWriter hm).symm
    refine ⟨?_, ?_⟩
    · rw [hlocks]
      unfold entryLocks
      simp [hwriter n hn]
    · intro m hm _
      rw [hlocks]
      unfold entryLocks
      simp [hwriter m hm]

end Traced

/-! ### Runs -/

section Runs

variable {E : Type} [LawfulRwEntry E] {cfg : Config}

/-- With the byte array a STORE meets no writer: not the sender itself, and in the
PGAS build, where the victim's field would be overwritten, none that it kills. -/
def KeepsCounters (cfg : Config) (s : Serviced E) : DslEvent → Prop
  | .message now sender req => exact E = true → req.type = .store →
      ∀ w ∈ (s.dsl.ht.lockMap cfg.pgas).writer req.address, w ≠ sender ∧
        (cfg.pgas = true → cfg.cm.isReal = true →
          ¬ Precedes (updateTimestamp cfg now sender req.txMetadata s.dsl.timestamp) sender w)
  | .abortFlag _ _ => True

instance (cfg : Config) (s : Serviced E) : DecidablePred (KeepsCounters cfg s)
  | .message now sender req =>
    inferInstanceAs (Decidable (exact E = true → req.type = .store →
      ∀ w ∈ (s.dsl.ht.lockMap cfg.pgas).writer req.address, w ≠ sender ∧
        (cfg.pgas = true → cfg.cm.isReal = true →
          ¬ Precedes (updateTimestamp cfg now sender req.txMetadata s.dsl.timestamp) sender w)))
  | .abortFlag _ _ => inferInstanceAs (Decidable True)

/-- A node other than `n` was granted a lock on the address that the request cannot
share, has not released it since, and has it in the table. -/
def HeldByAnother (pgas : Bool) (s : Serviced E) (n addr : Nat) (rw : RW) : Prop :=
  ∃ g ∈ s.grants, g.node ≠ n ∧ g.address = addr ∧ (rw = .read → g.rw = .write) ∧
    HoldsAs (s.dsl.ht.lockMap pgas) addr g.node g.rw

/-- Whatever the timestamps are when the request comes, it is refused only where
another node holds a lock. -/
def NoPhantom (cfg : Config) (s : Serviced E) (n addr : Nat) (rw : RW) : Prop :=
  ∀ timestamp, (tm2cHtInsert cfg { s.dsl with timestamp := timestamp } n addr rw).1 ≠ .noConflict →
    HeldByAnother cfg.pgas s n addr rw

/-- A granted request leaves its lock and its grant. -/
theorem Traced.granted {s : Dsl E} {grants : List Grant} (h : Traced s.ht grants) {id addr : Nat}
    {rw : RW} (hid : id < idBound E) (hne : addr ≠ 0)
    (hkeeps : exact E = true → rw = .write → ∀ w ∈ (s.ht.lockMap cfg.pgas).writer addr, w ≠ id ∧
      (cfg.pgas = true → cfg.cm.isReal = true → ¬ Precedes s.timestamp id w))
    {s' : Dsl E} (hinserts : Inserts cfg s id addr rw (.noConflict, s')) :
    Traced s'.ht (grants ++ [⟨id, addr, rw⟩]) := by
  cases hinserts with
  | refused _ _ hno => exact absurd rfl hno
  | free hfind hht =>
    obtain ⟨-, ⟨sl, hslot, hzero⟩, -⟩ := bucketAlloc_spec s.ht (bucketOf cfg.pgas addr)
    have hempty := ((h.bucketAlloc _).slot _ sl hslot).free hzero
    rw [hht]
    cases rw with
    | read => exact (h.bucketAlloc _).markReader hslot (Or.inl hzero) hne hid fun _ => hempty.2 id
    | write => exact (h.bucketAlloc _).markWriter hslot (Or.inl hzero) hne hid fun _ => hempty.1
  | found victims hfind hlt hkilled hht =>
    rename_i i sl
    obtain ⟨hslot, haddr⟩ := bucketFind_eq_some hfind
    have hp : s.ht.slot? (bucketOf cfg.pgas addr, i) = some sl := hslot
    -- the slot that is marked, and its writer
    have hmarked : Traced (abortedTable cfg s.ht victims) grants ∧
        ∃ sl', (abortedTable cfg s.ht victims).slot? (bucketOf cfg.pgas addr, i) = some sl' ∧
          (sl'.addr = 0 ∨ sl'.addr = sl.addr) ∧
          (writer sl'.entry = SSHT_NO_WRITER ∨ (writer sl'.entry = writer sl.entry ∧
            (cfg.pgas = false → writer sl.entry ∉ victims))) := by
      unfold abortedTable
      by_cases hpgas : cfg.pgas = true
      · rw [if_pos hpgas]
        exact ⟨h, sl, hp, Or.inr rfl, Or.inr ⟨rfl, fun hc => by simp [hpgas] at hc⟩⟩
      · rw [if_neg hpgas]
        obtain ⟨htraced, sl', hslot', hspared⟩ := h.deleteNodes hlt hp
        exact ⟨htraced, sl', hslot', hspared.addr,
          hspared.writer.imp_right fun hw => ⟨hw.1, fun _ => hw.2⟩⟩
    obtain ⟨htraced, sl', hslot', haddr', hwriter'⟩ := hmarked
    rw [haddr] at haddr'
    rw [hht]
    cases rw with
    | read => exact htraced.markReaderFound hslot' haddr' hne hid
    | write =>
      refine htraced.markWriter hslot' haddr' hne hid ?_
      intro hexact
      obtain hno | ⟨hw, hspared⟩ := hwriter'
      · exact hno
      · -- a writer that is still there would have been overwritten
        by_contra hno
        rw [hw] at hno
        have hmem : writer sl.entry ∈ (s.ht.lockMap cfg.pgas).writer addr :=
          (Ssht.lockMap_of_found hfind).1.trans (entryWriter_eq_some.mpr ⟨rfl, hno⟩)
        obtain ⟨hne', hlost⟩ := hkeeps hexact rfl _ hmem
        obtain ⟨hvictim, hreal, hwon⟩ := hkilled hno hne'
        by_cases hpgas : cfg.pgas = true
        · exact hlost hpgas hreal hwon
        · exact hspared (Bool.eq_false_of_not_eq_true hpgas) hvictim

theorem grantOf_of_granted {s : Dsl E} {now sender : Nat} {req : Req} {reply : Reply} {rw : RW}
    (htype : (req.type = .load ∧ rw = .read) ∨ (req.type = .store ∧ rw = .write))
    (hreply : (dslService cfg now s sender req).2 = some reply)
    (hok : reply.response = .noConflict) :
    grantOf sender req (some reply) = [⟨sender, req.address, rw⟩] := by
  have htransactional : req.isTransactional :=
    htype.elim (fun h => Or.inl h.1) fun h => Or.inr (Or.inl h.1)
  obtain ⟨type, address, value, response⟩ := reply
  simp only at hok
  subst hok
  obtain ⟨hload, hr⟩ | ⟨hstore, hr⟩ := reply_kind htransactional hreply
  · simp only at hr
    obtain ⟨-, rfl⟩ | ⟨hstore, -⟩ := htype
    · rw [hr]
      rfl
    · rw [hstore] at hload
      cases hload
  · simp only at hr
    obtain ⟨hload, -⟩ | ⟨-, rfl⟩ := htype
    · rw [hload] at hstore
      cases hstore
    · rw [hr]
      rfl

theorem Traced.step {s : Serviced E} (h : Traced s.dsl.ht s.grants) {e : DslEvent}
    (hfrom : FromApplication cfg (idBound E) e) (hkeeps : KeepsCounters cfg s e) :
    Traced (serve cfg s e).dsl.ht (serve cfg s e).grants := by
  cases e with
  | abortFlag node flag => exact Traced.filter (t := s.dsl.ht) h
  | message now sender req =>
    obtain ⟨htype, hid, -, haddr⟩ := hfrom
    let s₁ : Dsl E :=
      { s.dsl with timestamp := updateTimestamp cfg now sender req.txMetadata s.dsl.timestamp }
    -- the grants of the run are those of the new table
    have hserve : ∀ grants : List Grant, (∀ g ∈ grants, g ∈ s.grants ++
          grantOf sender req (dslSwitch cfg s₁ sender req).2) →
        Traced (dslSwitch cfg s₁ sender req).1.ht grants →
        Traced (serve cfg s (.message now sender req)).dsl.ht
          (serve cfg s (.message now sender req)).grants := by
      intro grants hsub htraced
      refine (htraced.mono hsub).filter.mono ?_
      intro g hg
      obtain ⟨hmem, hlog⟩ := List.mem_filter.mp hg
      obtain hold | hnew := List.mem_append.mp hmem
      · exact List.mem_append_left _ (List.mem_filter.mpr ⟨hold, hlog⟩)
      · exact List.mem_append_right _ hnew
    -- a request for a lock adds its grant, or clears the sender's
    have hrequest : ∀ rw : RW, (req.type = .load ∧ rw = .read) ∨
          (req.type = .store ∧ rw = .write) →
        Traced (serve cfg s (.message now sender req)).dsl.ht
          (serve cfg s (.message now sender req)).grants := by
      intro rw hrw
      have hne : req.address ≠ 0 := haddr (by
        rcases hrw with ⟨ht, -⟩ | ⟨ht, -⟩ <;> rw [ht] <;> decide)
      obtain ⟨reply, hreply, hresponse, hrefused, hgranted⟩ :=
        dslSwitch_insert cfg s₁ sender (hrw.imp_right Or.inl)
      have hinserts : Inserts cfg s₁ sender req.address rw
          (tm2cHtInsert cfg s₁ sender req.address rw) :=
        tm2cHtInsert_inserts (s := s₁) h.slotsValid hid req.address rw
      rcases hr : tm2cHtInsert cfg s₁ sender req.address rw with ⟨conflict, s'⟩
      rw [hr] at hresponse hrefused hgranted hinserts
      by_cases hok : conflict = .noConflict
      · subst hok
        rw [hreply, grantOf_of_granted (s := s.dsl) hrw hreply hresponse] at hserve
        refine hserve _ (fun g hg => hg) ?_
        rw [hgranted hresponse]
        refine Traced.granted (s := s₁) h hid hne ?_ hinserts
        intro hexact hwrite
        obtain ⟨-, hread⟩ | ⟨hstore, -⟩ := hrw
        · rw [hread] at hwrite
          cases hwrite
        · exact hkeeps hexact hstore
      · have hsame : s' = s₁ := by
          cases hinserts with
          | refused => rfl
          | free => exact absurd rfl hok
          | found => exact absurd rfl hok
        refine hserve s.grants (fun g hg => List.mem_append_left _ hg) ?_
        rw [hrefused (hresponse ▸ hok), hsame]
        exact Traced.deleteNode (t := s.dsl.ht) h hid
    rcases htype with ht | ht | ht
    · exact hrequest .read (Or.inl ⟨ht, rfl⟩)
    · exact hrequest .write (Or.inr ⟨ht, rfl⟩)
    · refine hserve s.grants (fun g hg => List.mem_append_left _ hg) ?_
      simp only [dslSwitch, ht, ht_handleRmvNode]
      exact Traced.deleteNode (t := s.dsl.ht) h hid

theorem Traced.run {es : List DslEvent} {s : Serviced E}
    (hes : ∀ e ∈ es, FromApplication cfg (idBound E) e)
    (hexec : Exec (restrict (KeepsCounters cfg) (graph (serve cfg))) servicedInit es s) :
    Traced s.dsl.ht s.grants := by
  refine (hexec.restrict_of_forall hes).invariant (fun s => Traced s.dsl.ht s.grants) ?_
    traced_sshtNew
  rintro s e t hs ⟨hfrom, hkeeps, rfl⟩
  exact hs.step hfrom hkeeps

/-- The found slot of a refused request names a holder, and it is another node but
where a LOAD meets the sender's own write lock. -/
theorem Traced.heldByAnother {s : Serviced E} (h : Traced s.dsl.ht s.grants) {n addr i : Nat}
    {rw : RW} {sl : Slot E}
    (hfind : bucketFind (s.dsl.ht.bucket (bucketOf cfg.pgas addr)) addr = some (i, sl))
    (hblocked : Blocked sl.entry n rw)
    (hother : ¬ (rw = .read ∧ (s.dsl.ht.lockMap cfg.pgas).writer addr = some n)) :
    HeldByAnother cfg.pgas s n addr rw := by
  obtain ⟨hslot, haddr⟩ := bucketFind_eq_some hfind
  have htraced : SlotTraced s.grants sl := h.slot (bucketOf cfg.pgas addr, i) sl hslot
  obtain ⟨hwriter, hreader⟩ := Ssht.lockMap_of_found hfind
  have hwritten : writer sl.entry ≠ SSHT_NO_WRITER → writer sl.entry ≠ n →
      HeldByAnother cfg.pgas s n addr rw := by
    intro hno hne
    refine ⟨_, htraced.written hno, hne, haddr, fun _ => rfl, ?_⟩
    exact hwriter.trans (entryWriter_eq_some.mpr ⟨rfl, hno⟩)
  cases rw with
  | read =>
    refine hwritten hblocked ?_
    intro hself
    exact hother ⟨rfl, hwriter.trans (entryWriter_eq_some.mpr ⟨hself, hself ▸ hblocked⟩)⟩
  | write =>
    obtain ⟨hno, hne⟩ | ⟨m, hmn, hm⟩ := hblocked
    · exact hwritten hno hne
    · refine ⟨_, htraced.read m hm, hmn, haddr, (fun hc => by cases hc), ?_⟩
      exact (congrFun hreader m).trans hm

/-- The insertion of a read lock does not look at who the writer is. -/
theorem read_own_write_refused {s : Dsl E} {n addr : Nat}
    (hself : (s.ht.lockMap cfg.pgas).writer addr = some n) :
    (tm2cHtInsert cfg s n addr .read).1 = .readAfterWrite := by
  obtain ⟨⟨i, sl⟩, hfind, hentry⟩ := Option.bind_eq_some_iff.mp hself
  obtain ⟨hw, hno⟩ := entryWriter_eq_some.mp hentry
  simp only at hw
  change (bucketInsertR cfg s (bucketOf cfg.pgas addr) n addr).1 = .readAfterWrite
  unfold bucketInsertR
  simp only [hfind, hw, if_pos hno, contentionManagerRawWaw_eq,
    if_neg (precedes_irrefl s.timestamp n)]
  split <;> rfl

/-- **Conflicts with nobody.**  In every state of a run that keeps the counters of the
byte array, and in every state of every run with the bitmap, a refused request is in
the way of another node's lock, except a LOAD of what the sender itself writes. -/
theorem noPhantom_iff (cfg : Config) (es : List DslEvent) (s : Serviced E)
    (hes : ∀ e ∈ es, FromApplication cfg (idBound E) e)
    (hexec : Exec (restrict (KeepsCounters cfg) (graph (serve cfg))) servicedInit es s)
    (n addr : Nat) (hn : n < idBound E) (rw : RW) :
    NoPhantom cfg s n addr rw ↔
      ¬ (rw = .read ∧ (s.dsl.ht.lockMap cfg.pgas).writer addr = some n) := by
  have htraced : Traced s.dsl.ht s.grants := Traced.run hes hexec
  constructor
  · rintro hno ⟨rfl, hself⟩
    have hrefused : (tm2cHtInsert cfg { s.dsl with timestamp := s.dsl.timestamp } n addr .read).1 =
        .readAfterWrite := read_own_write_refused hself
    obtain ⟨g, -, hne, -, hwrite, hholds⟩ := hno s.dsl.timestamp (by rw [hrefused]; decide)
    rw [hwrite rfl] at hholds
    exact hne (Option.some.inj (Eq.trans (Eq.symm hholds) hself))
  · intro hother timestamp hrefused
    let s₁ : Dsl E := { s.dsl with timestamp := timestamp }
    have hinserts : Inserts cfg s₁ n addr rw (tm2cHtInsert cfg s₁ n addr rw) :=
      tm2cHtInsert_inserts (s := s₁) htraced.slotsValid hn addr rw
    rcases hr : tm2cHtInsert cfg s₁ n addr rw with ⟨conflict, s'⟩
    change (tm2cHtInsert cfg s₁ n addr rw).1 ≠ .noConflict at hrefused
    rw [hr] at hinserts hrefused
    cases hinserts with
    | refused hfind hblocked => exact htraced.heldByAnother hfind hblocked hother
    | free => exact absurd rfl hrefused
    | found => exact absurd rfl hrefused

end Runs

/-- Two writers in turn, and a reader that upgrades. -/
def busyRun : List DslEvent :=
  [.message 0 1 { type := .store, address := 64 },
   .message 0 2 { type := .load, address := 72 },
   .message 0 2 { type := .store, address := 72 },
   .message 0 3 { type := .store, address := 64 },
   .message 0 1 { type := .rmvNode, address := 0 },
   .message 0 3 { type := .load, address := 64 }]

def noCmConfig : Config := ⟨.nocm, true, false, 4⟩

theorem noPhantom_iff_busyRun :
    (∀ n, n < 4 → ∀ rw, NoPhantom noCmConfig
        (busyRun.foldl (serve noCmConfig) (servicedInit : Serviced ByteEntry)) n 72 rw ↔
      ¬ (rw = .read ∧ 2 = n)) ∧
    ∀ n, n < 4 → ∀ rw, NoPhantom noCmConfig
        (busyRun.foldl (serve noCmConfig) (servicedInit : Serviced BitEntry)) n 72 rw ↔
      ¬ (rw = .read ∧ 2 = n) := by
  have hbyte : Exec (restrict (KeepsCounters noCmConfig) (graph (serve noCmConfig)))
      (servicedInit : Serviced ByteEntry) busyRun (busyRun.foldl (serve noCmConfig) servicedInit) :=
    Exec.cons ⟨by decide +kernel, rfl⟩ (Exec.cons ⟨by decide +kernel, rfl⟩
      (Exec.cons ⟨by decide +kernel, rfl⟩ (Exec.cons ⟨by decide +kernel, rfl⟩
        (Exec.cons ⟨by decide +kernel, rfl⟩ (Exec.cons ⟨by decide +kernel, rfl⟩
          (Exec.nil _))))))
  have hbit : Exec (restrict (KeepsCounters noCmConfig) (graph (serve noCmConfig)))
      (servicedInit : Serviced BitEntry) busyRun (busyRun.foldl (serve noCmConfig) servicedInit) :=
    Exec.cons ⟨by decide +kernel, rfl⟩ (Exec.cons ⟨by decide +kernel, rfl⟩
      (Exec.cons ⟨by decide +kernel, rfl⟩ (Exec.cons ⟨by decide +kernel, rfl⟩
        (Exec.cons ⟨by decide +kernel, rfl⟩ (Exec.cons ⟨by decide +kernel, rfl⟩
          (Exec.nil _))))))
  have hwbyte : ((busyRun.foldl (serve noCmConfig)
      (servicedInit : Serviced ByteEntry)).dsl.ht.lockMap noCmConfig.pgas).writer 72 = some 2 := by
    decide +kernel
  have hwbit : ((busyRun.foldl (serve noCmConfig)
      (servicedInit : Serviced BitEntry)).dsl.ht.lockMap noCmConfig.pgas).writer 72 = some 2 := by
    decide +kernel
  constructor
  · intro n hn rw
    have hiff := noPhantom_iff noCmConfig busyRun _ (by decide) hbyte n 72
      (Nat.lt_trans hn (by decide)) rw
    rwa [hwbyte, Option.some.injEq] at hiff
  · intro n hn rw
    have hiff := noPhantom_iff noCmConfig busyRun _ (by decide) hbit n 72
      (Nat.lt_trans hn (by decide)) rw
    rwa [hwbit, Option.some.injEq] at hiff

/-- A node stores, and would load the same address: nobody else has come near. -/
def ownWriteRun : List DslEvent := [.message 0 1 { type := .store, address := 64 }]

/-- A node stores twice and releases, and another one stores once and releases. -/
def storeTwiceReleased : List DslEvent :=
  [.message 0 1 { type := .store, address := 64 },
   .message 0 1 { type := .store, address := 64 },
   .message 0 1 { type := .rmvNode, address := 0 },
   .message 0 2 { type := .store, address := 64 },
   .message 0 2 { type := .rmvNode, address := 0 }]

/-- The LOAD of a node that wrote the address itself is refused under both encodings;
and the byte array refuses a STORE to an address that nobody holds. -/
theorem phantom_conflicts :
    (∀ e ∈ ownWriteRun ++ storeTwiceReleased, FromApplication noCmConfig 64 e) ∧
    ¬ NoPhantom noCmConfig
      (ownWriteRun.foldl (serve noCmConfig) (servicedInit : Serviced ByteEntry)) 1 64 .read ∧
    ¬ NoPhantom noCmConfig
      (ownWriteRun.foldl (serve noCmConfig) (servicedInit : Serviced BitEntry)) 1 64 .read ∧
    (storeTwiceReleased.foldl (serve noCmConfig)
      (servicedInit : Serviced ByteEntry)).grants = [] ∧
    ¬ NoPhantom noCmConfig (storeTwiceReleased.foldl (serve noCmConfig)
      (servicedInit : Serviced ByteEntry)) 3 64 .write := by
  have hown : ∀ E [LawfulRwEntry E], ((ownWriteRun.foldl (serve noCmConfig)
        (servicedInit : Serviced E)).dsl.ht.lockMap true).writer 64 = some 1 →
      ¬ NoPhantom noCmConfig
        (ownWriteRun.foldl (serve noCmConfig) (servicedInit : Serviced E)) 1 64 .read := by
    intro E _ hself hno
    obtain ⟨g, -, hne, -, hwrite, hholds⟩ := hno (fun _ => 0) (by
      rw [read_own_write_refused hself]
      decide)
    rw [hwrite rfl] at hholds
    exact hne (Option.some.inj (Eq.trans (Eq.symm hholds) hself))
  have hgrants : (storeTwiceReleased.foldl (serve noCmConfig)
      (servicedInit : Serviced ByteEntry)).grants = [] := by
    decide +kernel
  refine ⟨by decide, hown ByteEntry (by decide +kernel), hown BitEntry (by decide +kernel),
    hgrants, ?_⟩
  intro hno
  obtain ⟨g, hg, -⟩ := hno (fun _ => 0) (by decide +kernel)
  rw [hgrants] at hg
  cases hg

end TM2C
