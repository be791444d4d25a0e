import TM2C.SshtAccounting
import TM2C.LockTable

/-!
# Releasing at the end of an attempt

`src/tm2c_app.c`: an application node counts its requests to each service node in
`nodes_contacted` and sends `RMV_NODE` at the end of an attempt where the counter
is not zero.  The counter is an `unsigned short`.  As long as no service node
granted a positive multiple of `2 ^ 16` requests, a node between two attempts has
no lock anywhere, whatever the other nodes do.

The module has two halves.  The first is about one table and one node: `Tidy n` says that the log
of node `n` covers its locks, and `Spares` that a step keeps this and does not put a lock of `n`
where none was, unless `n` is the sender.  Every operation of the table spares every node, so that
the deletion of a node by its log is complete at any time.

The second half is an application node among the service nodes, whose other clients may do
anything.  A ghost counter has the number of requests granted since the last refusal;
`nodes_contacted` is its remainder by `2 ^ 16`, in every state.  So the release is sent to every
service node that granted something if and only if no such number is a positive multiple of `2 ^
16`, and `ReleaseDue` carries, through runs in which that holds, that wherever the node is
mentioned its release is still to come or on its way.  The last section runs the 65536 loads.
-/

namespace TM2C

open RwEntry LawfulRwEntry Transition

/-! ### What a message does to the locks of one node -/

section Tidy

variable {E : Type} [LawfulRwEntry E] {n sender : Nat} {t t' : Ssht E}

/-- The log of node `n` covers its locks, and all locks belong to node ids. -/
structure Tidy (n : Nat) (t : Ssht E) : Prop where
  covered : ∀ p, t.lockCount p n ≤ (t.logs n).count p
  writer_lt : ∀ p sl, t.slot? p = some sl →
    writer sl.entry = SSHT_NO_WRITER ∨ writer sl.entry < idBound E
  reader_lt : ∀ p sl m, t.slot? p = some sl → isReader sl.entry m = true → m < idBound E

/-- A step that node `n` survives: its log still covers its locks, and where it
was not mentioned it still is not, unless it is the sender. -/
structure Spares (n sender : Nat) (t t' : Ssht E) : Prop where
  tidy : Tidy n t → Tidy n t'
  absent : Tidy n t → sender ≠ n → Absent t n → Absent t' n

theorem Spares.refl (n sender : Nat) (t : Ssht E) : Spares n sender t t :=
  ⟨fun h => h, fun _ _ h => h⟩

theorem Spares.trans {t'' : Ssht E} (h : Spares n sender t t') (h' : Spares n sender t' t'') :
    Spares n sender t t'' :=
  ⟨fun ht => h'.tidy (h.tidy ht), fun ht hne ha => h'.absent (h.tidy ht) hne (h.absent ht hne ha)⟩

theorem tidy_sshtNew (hn : n < idBound E) : Tidy n (sshtNew : Ssht E) where
  covered p := (accounted_sshtNew true).covered n p hn
  writer_lt := (accounted_sshtNew true).writer_lt
  reader_lt p sl m hp hread := by
    rw [slot?_sshtNew hp, isReader_new] at hread
    cases hread

theorem absent_sshtNew (hn : n < idBound E) : Absent (sshtNew : Ssht E) n :=
  ⟨rfl, fun p => lockCount_sshtNew hn p⟩

/-- A node that is deleted, by itself or by the contention manager, is not
mentioned afterwards. -/
theorem Tidy.absent_deleteNode (h : Tidy n t) (hn : n < idBound E) :
    Absent (tm2cHtDeleteNode t n) n := by
  refine ⟨logs_deleteNode_self t n, ?_⟩
  intro p
  rw [lockCount_deleteNode_self hn]
  have := h.covered p
  omega

theorem spares_deleteNode (hn : n < idBound E) {m : Nat} (hm : m < idBound E) :
    Spares n sender t (tm2cHtDeleteNode t m) := by
  constructor
  · intro h
    refine ⟨?_, ?_, ?_⟩
    · intro p
      by_cases hnm : n = m
      · subst hnm
        rw [(h.absent_deleteNode hn).locks p]
        exact Nat.zero_le _
      · rw [lockCount_deleteNode_of_ne hm hnm hn, logs_deleteNode, if_neg hnm]
        exact h.covered p
    · intro p sl' hp
      obtain ⟨sl, hold, hstripped⟩ := stripped_deleteNode hm hp
      rcases hstripped.writer with hw | ⟨-, hw⟩
      · rw [hw]
        exact h.writer_lt p sl hold
      · exact Or.inl hw
    · intro p sl' k hp hread
      obtain ⟨sl, hold, hstripped⟩ := stripped_deleteNode hm hp
      by_cases hk : k = m
      · exact hk ▸ hm
      · rw [hstripped.reader k hk] at hread
        exact h.reader_lt p sl k hold hread
  · intro h _ ha
    by_cases hnm : n = m
    · exact hnm ▸ h.absent_deleteNode hn
    · refine ⟨?_, ?_⟩
      · rw [logs_deleteNode, if_neg hnm]
        exact ha.logs
      · intro p
        rw [lockCount_deleteNode_of_ne hm hnm hn]
        exact ha.locks p

theorem spares_bucketAlloc (hn : n < idBound E) (bu : Nat) :
    Spares n sender t (bucketAlloc t bu).1 := by
  constructor
  · intro h
    refine ⟨?_, ?_, ?_⟩
    · intro p
      rw [lockCount_bucketAlloc t bu p hn, (bucketAlloc_spec t bu).1]
      exact h.covered p
    · intro p sl hp
      rcases slot_bucketAlloc hp with hold | rfl
      · exact h.writer_lt p sl hold
      · exact Or.inl writer_new
    · intro p sl m hp hread
      rcases slot_bucketAlloc hp with hold | rfl
      · exact h.reader_lt p sl m hold hread
      · rw [isReader_new] at hread
        cases hread
  · intro _ _ ha
    refine ⟨?_, ?_⟩
    · rw [(bucketAlloc_spec t bu).1]
      exact ha.logs
    · intro p
      rw [lockCount_bucketAlloc t bu p hn]
      exact ha.locks p

/-- A lock of the sender is entered in a slot and in the sender's log. -/
theorem spares_enter {p : SlotPtr} {sl : Slot E} (hp : t.slot? p = some sl) {f : Slot E → Slot E}
    (hself : entryLocks (f sl).entry sender ≤ entryLocks sl.entry sender + 1)
    (hothers : n ≠ sender → entryLocks (f sl).entry n ≤ entryLocks sl.entry n)
    (hwriter : writer (f sl).entry = writer sl.entry ∨ writer (f sl).entry < idBound E)
    (hreader : ∀ m, isReader (f sl).entry m = true → isReader sl.entry m = true ∨ m < idBound E) :
    Spares n sender t (sshtLogSetInsert (t.modifySlot p f) sender p) := by
  have hslot : ∀ q sl', (sshtLogSetInsert (t.modifySlot p f) sender p).slot? q = some sl' →
      sl' = f sl ∨ t.slot? q = some sl' := by
    intro q sl' hq
    rw [slot?_sshtLogSetInsert] at hq
    by_cases hqp : q = p
    · subst hqp
      rw [Ssht.slot?_modifySlot_self hp, Option.some.injEq] at hq
      exact Or.inl hq.symm
    · rw [Ssht.slot?_modifySlot_of_ne hqp] at hq
      exact Or.inr hq
  constructor
  · -- the log has an entry more for the lock that the slot may have more
    intro h
    refine ⟨?_, ?_, ?_⟩
    · intro q
      rw [count_logs_sshtLogSetInsert, Ssht.logs_modifySlot, lockCount_enter hp]
      have hold := h.covered q
      by_cases hq : q = p
      · subst hq
        rw [Ssht.lockCount_of_slot hp] at hold
        rw [if_pos rfl]
        by_cases hns : n = sender
        · subst hns
          simp only [and_self, if_true]
          omega
        · have := hothers hns
          omega
      · rw [if_neg hq]
        omega
    · intro q sl' hq
      rcases hslot q sl' hq with rfl | hold
      · rcases hwriter with hw | hw
        · rw [hw]
          exact h.writer_lt p sl hp
        · exact Or.inr hw
      · exact h.writer_lt q sl' hold
    · intro q sl' m hq hread
      rcases hslot q sl' hq with rfl | hold
      · rcases hreader m hread with hr | hr
        · exact h.reader_lt p sl m hp hr
        · exact hr
      · exact h.reader_lt q sl' m hold hread
  · -- a node without locks gets none from another's request
    intro _ hne ha
    refine ⟨?_, ?_⟩
    · rw [logs_sshtLogSetInsert, Ssht.logs_modifySlot, if_neg (Ne.symm hne)]
      exact ha.logs
    · intro q
      rw [lockCount_enter hp]
      by_cases hq : q = p
      · have hold := ha.locks p
        rw [Ssht.lockCount_of_slot hp] at hold
        have := hothers (Ne.symm hne)
        rw [if_pos hq]
        omega
      · rw [if_neg hq]
        exact ha.locks q

theorem spares_markReader (hs : sender < idBound E) {p : SlotPtr} {sl : Slot E} (addr : Nat)
    (hp : t.slot? p = some sl) : Spares n sender t (markReader t p sender addr) := by
  have hlocks : ∀ m, entryLocks (addReader sl.entry sender) m =
      if m = sender then 1 + (decide (writer sl.entry = sender)).toNat
      else entryLocks sl.entry m := fun m => entryLocks_addReader hs
  refine spares_enter hp ?_ ?_ (Or.inl writer_addReader) ?_
  · rw [hlocks, if_pos rfl]
    unfold entryLocks
    omega
  · intro hne
    rw [hlocks, if_neg hne]
  · intro m hread
    simp only [isReader_addReader hs, Bool.or_eq_true, decide_eq_true_eq] at hread
    rcases hread with rfl | hread
    · exact Or.inr hs
    · exact Or.inl hread

/-- A slot is changed, and no lock comes or goes. -/
theorem spares_modifySlot {p : SlotPtr} {f : Slot E → Slot E}
    (hf : ∀ sl, t.slot? p = some sl → entryLocks (f sl).entry n = entryLocks sl.entry n ∧
      (writer (f sl).entry = writer sl.entry ∨ writer (f sl).entry = SSHT_NO_WRITER) ∧
      ∀ m, isReader (f sl).entry m = true → isReader sl.entry m = true) :
    Spares n sender t (t.modifySlot p f) := by
  have hcount : ∀ q, (t.modifySlot p f).lockCount q n = t.lockCount q n := by
    intro q
    by_cases hq : q = p
    · subst hq
      cases hslot : t.slot? q with
      | none => simp only [Ssht.lockCount, Ssht.slot?_modifySlot, hslot, Option.map_none, if_true]
      | some sl =>
        rw [Ssht.lockCount_of_slot (Ssht.slot?_modifySlot_self hslot f),
          Ssht.lockCount_of_slot hslot]
        exact (hf sl hslot).1
    · exact Ssht.lockCount_congr (Ssht.slot?_modifySlot_of_ne hq f) n
  constructor
  · intro h
    refine ⟨?_, ?_, ?_⟩
    · intro q
      rw [hcount, Ssht.logs_modifySlot]
      exact h.covered q
    · intro q sl' hq
      rcases Ssht.of_slot?_modifySlot hq with hold | ⟨sl, -, hold, rfl⟩
      · exact h.writer_lt q sl' hold
      · rcases (hf sl hold).2.1 with hw | hw
        · rw [hw]
          exact h.writer_lt p sl hold
        · exact Or.inl hw
    · intro q sl' m hq hread
      rcases Ssht.of_slot?_modifySlot hq with hold | ⟨sl, -, hold, rfl⟩
      · exact h.reader_lt q sl' m hold hread
      · exact h.reader_lt p sl m hold ((hf sl hold).2.2 m hread)
  · intro _ _ ha
    refine ⟨?_, fun q => (hcount q).trans (ha.locks q)⟩
    rw [Ssht.logs_modifySlot]
    exact ha.logs

theorem spares_log (p : SlotPtr) : Spares n sender t (sshtLogSetInsert t sender p) := by
  constructor
  · intro h
    refine ⟨?_, h.writer_lt, h.reader_lt⟩
    intro q
    rw [count_logs_sshtLogSetInsert]
    exact Nat.le_add_right_of_le (h.covered q)
  · intro _ hne ha
    refine ⟨?_, ha.locks⟩
    rw [logs_sshtLogSetInsert, if_neg (Ne.symm hne)]
    exact ha.logs

theorem spares_markWriter (hs : sender < idBound E) (p : SlotPtr) (addr : Nat) :
    Spares n sender t (markWriter t p sender addr) := by
  cases hp : t.slot? p with
  | none =>
    refine Spares.trans (spares_modifySlot ?_) (spares_log p)
    intro sl hsl
    rw [hp] at hsl
    cases hsl
  | some sl =>
    have hlocks : ∀ m, entryLocks (setWriter sl.entry sender) m =
        (isReader sl.entry m).toNat + (decide (sender = m)).toNat := by
      exact fun m => entryLocks_setWriter hs
    refine spares_enter hp ?_ ?_ (Or.inr ?_) ?_
    · rw [hlocks]
      unfold entryLocks
      simp
    · intro hne
      rw [hlocks]
      simp [entryLocks, Ne.symm hne]
    · rw [writer_setWriter_of_lt hs]
      exact hs
    · intro m hread
      rw [isReader_setWriter] at hread
      exact Or.inl hread

theorem spares_markReaderFound (hs : sender < idBound E) (p : SlotPtr) (addr : Nat) :
    Spares n sender t (markReaderFound t p sender addr) := by
  rcases markReaderFound_eq t p sender addr with ⟨-, heq⟩ | ⟨sl, hslot, ⟨-, heq⟩ | ⟨-, heq⟩⟩
  · rw [heq]
    exact Spares.refl n sender t
  · rw [heq]
    exact spares_modifySlot fun sl _ => ⟨rfl, Or.inl rfl, fun _ h => h⟩
  · rw [heq]
    exact spares_markReader hs addr hslot

/-- An early release leaves the locks of other nodes. -/
theorem entryLocks_removeMark_of_ne (hs : sender < idBound E) (rw : RW) (sl : Slot E)
    (hne : n ≠ sender) (hn : n < idBound E) :
    entryLocks (removeMark sender rw sl).entry n = entryLocks sl.entry n := by
  cases rw with
  | read => simp [removeMark, entryLocks, isReader_dropReader hs, writer_dropReader, hne]
  | write =>
    by_cases hw : writer sl.entry = sender
    · simp [removeMark, entryLocks, isReader_setWriter, writer_setWriter_noWriter, hw,
        Ne.symm hne, Ne.symm (ne_noWriter hn)]
    · simp [removeMark, hw]

/-- The early release of one lock by another node. -/
theorem spares_delete (hn : n < idBound E) (hs : sender < idBound E) (hne : n ≠ sender)
    (addr : Nat) (rw : RW) : Spares n sender t (tm2cHtDelete t sender addr rw) := by
  have hlog : ∀ (t : Ssht E) (log : List SlotPtr),
      Spares n sender t { t with logs := Function.update t.logs sender log } := by
    intro t log
    have hlogs : Function.update t.logs sender log n = t.logs n := Function.update_of_ne hne ..
    constructor
    · intro h
      refine ⟨?_, h.writer_lt, h.reader_lt⟩
      intro p
      have hold := h.covered p
      rwa [← hlogs] at hold
    · intro _ _ ha
      exact ⟨hlogs.trans ha.logs, ha.locks⟩
  rcases sshtRemove_eq t sender addr rw with ⟨-, heq⟩ | ⟨j, p, -, -, -, -, heq⟩
  · rw [heq]
    exact Spares.refl n sender t
  · rw [heq]
    refine Spares.trans ?_ (hlog (t.modifySlot p (removeMark sender rw)) _)
    refine spares_modifySlot ?_
    intro sl _
    refine ⟨entryLocks_removeMark_of_ne hs rw sl hne hn, ?_⟩
    unfold removeMark
    cases rw with
    | read =>
      refine ⟨Or.inl writer_dropReader, fun m hread => ?_⟩
      simp only [isReader_dropReader hs, Bool.and_eq_true] at hread
      exact hread.2
    | write =>
      by_cases hw : writer sl.entry = sender
      · simp only [if_pos hw]
        refine ⟨Or.inr (writer_setWriter_noWriter _), fun m hread => ?_⟩
        rwa [isReader_setWriter] at hread
      · simp [hw]

end Tidy

section Messages

variable {E : Type} [LawfulRwEntry E] (cfg : Config) {n : Nat}

theorem spares_abortDefender (hn : n < idBound E) {sender : Nat} (s : Dsl E) {v : Nat}
    (hv : v < idBound E) (conflict : Conflict) :
    Spares n sender s.ht (abortDefender cfg s v conflict).ht := by
  unfold abortDefender
  split
  · exact Spares.refl n sender s.ht
  · exact spares_deleteNode hn hv

theorem spares_abortDefenders (hn : n < idBound E) {sender : Nat} {vs : List Nat}
    (hvs : ∀ v ∈ vs, v < idBound E) (s : Dsl E) (conflict : Conflict) :
    Spares n sender s.ht (vs.foldl (fun s v => abortDefender cfg s v conflict) s).ht := by
  induction vs generalizing s with
  | nil => exact Spares.refl n sender s.ht
  | cons v vs ih =>
    exact (spares_abortDefender cfg hn s (hvs v List.mem_cons_self) conflict).trans
      (ih (fun w hw => hvs w (List.mem_cons_of_mem v hw)) _)

theorem Spares.of_tidy {sender : Nat} {t t' : Ssht E} (h : Tidy n t → Spares n sender t t') :
    Spares n sender t t' :=
  ⟨fun ht => (h ht).tidy ht, fun ht => (h ht).absent ht⟩

theorem spares_contentionManagerRawWaw (hn : n < idBound E) (sender : Nat) (s : Dsl E) {w : Nat}
    (hw : w < idBound E) (conflict : Conflict) :
    Spares n sender s.ht (contentionManagerRawWaw cfg s sender w conflict).2.ht := by
  rw [contentionManagerRawWaw_eq]
  split
  · exact spares_abortDefender cfg hn s hw conflict
  · exact Spares.refl n sender s.ht

theorem spares_contentionManagerWar (hn : n < idBound E) (sender : Nat) (s : Dsl E)
    {defenders : Nat → Bool} (hd : ∀ m, defenders m = true → m < idBound E) (conflict : Conflict) :
    Spares n sender s.ht (contentionManagerWar cfg s sender defenders conflict).2.ht := by
  rw [contentionManagerWar_eq]
  split
  · refine spares_abortDefenders cfg hn ?_ s conflict
    intro v hv
    obtain ⟨-, hv⟩ := List.mem_filter.mp hv
    exact hd v (Bool.and_eq_true_iff.mp hv).1
  · exact Spares.refl n sender s.ht

theorem spares_bucketInsertR (hn : n < idBound E) {sender : Nat} (hs : sender < idBound E)
    (s : Dsl E) (bu addr : Nat) :
    Spares n sender s.ht (bucketInsertR cfg s bu sender addr).2.ht := by
  apply Spares.of_tidy
  intro htidy
  unfold bucketInsertR
  cases hfind : bucketFind (s.ht.bucket bu) addr with
  | none =>
    obtain ⟨sl, hslot, -⟩ := (bucketAlloc_spec s.ht bu).2.1
    exact (spares_bucketAlloc hn bu).trans (spares_markReader hs addr hslot)
  | some found =>
    obtain ⟨i, sl⟩ := found
    have hslot : s.ht.slot? (bu, i) = some sl := (bucketFind_eq_some hfind).1
    by_cases hno : writer sl.entry = SSHT_NO_WRITER
    · simp only [hno, ne_eq, not_true_eq_false, if_false]
      exact spares_markReaderFound hs (bu, i) addr
    · have hw : writer sl.entry < idBound E := (htidy.writer_lt _ sl hslot).resolve_left hno
      simp only [ne_eq, hno, not_false_eq_true, if_true]
      by_cases hreal : cfg.cm.isReal = true
      · have hcm := spares_contentionManagerRawWaw cfg hn sender s hw
          .readAfterWrite
        simp only [if_pos hreal]
        split
        · exact hcm.trans (spares_markReaderFound hs (bu, i) addr)
        · exact hcm
      · simp only [if_neg hreal]
        exact Spares.refl n sender s.ht

theorem spares_bucketInsertW (hn : n < idBound E) {sender : Nat} (hs : sender < idBound E)
    (s : Dsl E) (bu addr : Nat) :
    Spares n sender s.ht (bucketInsertW cfg s bu sender addr).2.ht := by
  apply Spares.of_tidy
  intro htidy
  unfold bucketInsertW
  cases hfind : bucketFind (s.ht.bucket bu) addr with
  | none => exact (spares_bucketAlloc hn bu).trans (spares_markWriter hs _ addr)
  | some found =>
    obtain ⟨i, sl⟩ := found
    have hslot : s.ht.slot? (bu, i) = some sl := (bucketFind_eq_some hfind).1
    by_cases hwriter : writer sl.entry ≠ SSHT_NO_WRITER ∧ writer sl.entry ≠ sender
    · have hw : writer sl.entry < idBound E :=
        (htidy.writer_lt _ sl hslot).resolve_left hwriter.1
      simp only [if_pos hwriter]
      by_cases hreal : cfg.cm.isReal = true
      · have hcm := spares_contentionManagerRawWaw cfg hn sender s hw
          .writeAfterWrite
        simp only [if_pos hreal]
        split
        · exact hcm.trans (spares_markWriter hs (bu, i) addr)
        · exact hcm
      · simp only [if_neg hreal]
        exact Spares.refl n sender s.ht
    · simp only [if_neg hwriter]
      by_cases hothers : hasOtherReaders sl.entry sender = true
      · simp only [if_pos hothers]
        by_cases hreal : cfg.cm.isReal = true
        · have hcm := spares_contentionManagerWar cfg hn sender s
            (fun m hm => htidy.reader_lt _ sl m hslot hm) .writeAfterRead
          simp only [if_pos hreal]
          split
          · exact hcm.trans (spares_markWriter hs (bu, i) addr)
          · exact hcm
        · simp only [if_neg hreal]
          exact Spares.refl n sender s.ht
      · simp only [if_neg hothers]
        exact spares_markWriter hs (bu, i) addr

theorem spares_tm2cHtInsert (hn : n < idBound E) {sender : Nat} (hs : sender < idBound E)
    (s : Dsl E) (address : Nat) (rw : RW) :
    Spares n sender s.ht (tm2cHtInsert cfg s sender address rw).2.ht := by
  cases rw with
  | read => exact spares_bucketInsertR cfg hn hs s _ address
  | write => exact spares_bucketInsertW cfg hn hs s _ address

/-- A message, if it is not an early release of node `n` itself. -/
theorem spares_dslService (hn : n < idBound E) {sender : Nat} (hs : sender < idBound E)
    (now : Nat) (s : Dsl E) {req : Req}
    (hearly : sender = n → req.type ≠ .loadRls ∧ req.type ≠ .storeFinish) :
    Spares n sender s.ht (dslService cfg now s sender req).1.ht := by
  let s₁ : Dsl E :=
    { s with timestamp := updateTimestamp cfg now sender req.txMetadata s.timestamp }
  change Spares n sender s₁.ht (dslSwitch cfg s₁ sender req).1.ht
  have hinsert : ∀ rw : RW, ((req.type = .load ∧ rw = .read) ∨ (req.type = .store ∧ rw = .write) ∨
      (req.type = .storeInc ∧ cfg.pgas = true ∧ rw = .write)) →
      Spares n sender s₁.ht (dslSwitch cfg s₁ sender req).1.ht := by
    intro rw hrw
    have hspares := spares_tm2cHtInsert cfg hn hs s₁ req.address rw
    obtain ⟨reply, -, -, hno, hok⟩ := dslSwitch_insert cfg s₁ sender hrw
    by_cases hreply : reply.response = .noConflict
    · rw [hok hreply]
      exact hspares
    · rw [hno hreply]
      exact hspares.trans (spares_deleteNode hn hs)
  cases htype : req.type with
  | load => exact hinsert .read (Or.inl ⟨htype, rfl⟩)
  | store => exact hinsert .write (Or.inr (Or.inl ⟨htype, rfl⟩))
  | storeInc =>
    by_cases hpgas : cfg.pgas = true
    · exact hinsert .write (Or.inr (Or.inr ⟨htype, hpgas, rfl⟩))
    · simp only [dslSwitch, htype, if_neg hpgas]
      exact Spares.refl n sender s₁.ht
  | rmvNode =>
    simp only [dslSwitch, htype, ht_handleRmvNode]
    exact spares_deleteNode hn hs
  | loadRls =>
    simp only [dslSwitch, htype]
    exact spares_delete hn hs (fun h => (hearly h.symm).1 htype) req.address .read
  | storeFinish =>
    simp only [dslSwitch, htype]
    exact spares_delete hn hs (fun h => (hearly h.symm).2 htype) req.address .write
  | loadNontx =>
    simp only [dslSwitch, htype]
    split <;> exact Spares.refl n sender s₁.ht
  | storeNontx =>
    simp only [dslSwitch, htype]
    split <;> exact Spares.refl n sender s₁.ht
  | unknown =>
    simp only [dslSwitch, htype]
    exact Spares.refl n sender s₁.ht

/-- `RMV_NODE` leaves nothing of its sender. -/
theorem absent_rmvNode (hn : n < idBound E) (now : Nat) {s : Dsl E} (h : Tidy n s.ht) {req : Req}
    (htype : req.type = .rmvNode) : Absent (dslService cfg now s n req).1.ht n := by
  simp only [dslService, dslSwitch, htype, ht_handleRmvNode]
  exact h.absent_deleteNode hn

/-- So does a refusal. -/
theorem absent_refused (hn : n < idBound E) (now : Nat) {s : Dsl E} (h : Tidy n s.ht) {req : Req}
    {rw : RW} (htype : (req.type = .load ∧ rw = .read) ∨ (req.type = .store ∧ rw = .write) ∨
      (req.type = .storeInc ∧ cfg.pgas = true ∧ rw = .write)) {reply : Reply}
    (hreply : (dslService cfg now s n req).2 = some reply)
    (hrefused : reply.response ≠ .noConflict) :
    Absent (dslService cfg now s n req).1.ht n := by
  let s₁ : Dsl E :=
    { s with timestamp := updateTimestamp cfg now n req.txMetadata s.timestamp }
  obtain ⟨reply', hreply', -, hno, -⟩ := dslSwitch_insert cfg s₁ n htype
  have hsame : reply' = reply := Option.some.inj (hreply'.symm.trans hreply)
  subst hsame
  have hht : (dslService cfg now s n req).1.ht = _ := hno hrefused
  rw [hht]
  exact ((spares_tm2cHtInsert cfg hn hn s₁ req.address rw).tidy h).absent_deleteNode hn

end Messages

/-! ### An application node among others -/

/-- An application node, the service nodes, and the messages of the node that are in
flight to each of them.  `granted` counts, for each service node, the requests that
it granted in the attempt since it last refused one. -/
structure AppNode (E : Type) where
  nodesContacted : Nat → Nat
  dsl : Nat → Dsl E
  inFlight : Nat → List Req
  granted : Nat → Nat

inductive AppEvent where
  -- `tm2c_rpc_load`, `tm2c_rpc_store` and `tm2c_rpc_store_inc`, with the reply
  | request (seq now : Nat) (req : Req)
  -- `tm2c_rpc_rls_all(conflict)`
  | rlsAll (conflict : BitVec 64) (txMetadata : Nat)
  -- the service node handles the oldest message in flight to it
  | handle (seq now : Nat)
  -- what happens at the service node apart from the messages of the node
  | other (seq : Nat) (e : DslEvent)

def appInit {E : Type} [RwEntry E] : AppNode E where
  nodesContacted _ := 0
  dsl _ := dslInit
  inFlight _ := []
  granted _ := 0

/-- A request of the tm interface. -/
def isRequest (cfg : Config) (req : Req) : Bool :=
  match req.type with
  | .load | .store => true
  | .storeInc => cfg.pgas
  | _ => false

/-- `nodes_contacted[seq]++`, and `= 0` when the response is a conflict. -/
def contact (nodesContacted : Nat → Nat) (seq : Nat) (response : Conflict) : Nat → Nat :=
  Function.update nodesContacted seq
    (if response ≠ .noConflict then 0 else (nodesContacted seq + 1) % 2 ^ 16)

/-- The service nodes are those below `numDslNodes`; a request waits for its reply, and messages
to one service node are handled in order. -/
def appStep {E : Type} [RwEntry E] (cfg : Config) (numDslNodes n : Nat) (s : AppNode E) :
    AppEvent → Option (AppNode E)
  | .request seq now req =>
    if seq < numDslNodes ∧ s.inFlight seq = [] ∧ isRequest cfg req = true then
      let r := dslService cfg now (s.dsl seq) n req
      r.2.map fun reply =>
        { s with
          nodesContacted := contact s.nodesContacted seq reply.response
          dsl := Function.update s.dsl seq r.1
          granted := Function.update s.granted seq
            (if reply.response ≠ .noConflict then 0 else s.granted seq + 1) }
    else none
  | .rlsAll conflict txMetadata =>
    some { s with
      nodesContacted := fun seq => if seq < numDslNodes then 0 else s.nodesContacted seq
      inFlight := fun seq =>
        if seq < numDslNodes ∧ s.nodesContacted seq > 0 then
          s.inFlight seq ++ [⟨.rmvNode, 0, conflict, txMetadata⟩]
        else s.inFlight seq
      granted := fun _ => 0 }
  | .handle seq now =>
    match s.inFlight seq with
    | [] => none
    | req :: rest =>
      some { s with
        dsl := Function.update s.dsl seq (dslService cfg now (s.dsl seq) n req).1
        inFlight := Function.update s.inFlight seq rest }
  | .other seq e => some { s with dsl := Function.update s.dsl seq (dslStep cfg (s.dsl seq) e).1 }

/-- The other nodes may send anything under their own ids. -/
def FromOther (bound n : Nat) : AppEvent → Prop
  | .other _ (.message _ sender _) => sender ≠ n ∧ sender < bound
  | _ => True

instance (bound n : Nat) (e : AppEvent) : Decidable (FromOther bound n e) := by
  unfold FromOther
  split <;> infer_instance

/-- What `tm2c_rpc_rls_all` should do: send `RMV_NODE` wherever requests were granted. -/
def ReleasesGranted {E : Type} [RwEntry E] (cfg : Config) (numDslNodes n : Nat) (s : AppNode E) :
    Prop :=
  ∀ conflict txMetadata s', appStep cfg numDslNodes n s (.rlsAll conflict txMetadata) = some s' →
    ∀ seq < numDslNodes, 0 < s.granted seq →
      s'.inFlight seq = s.inFlight seq ++ [⟨.rmvNode, 0, conflict, txMetadata⟩]

/-- No service node granted a positive multiple of `2 ^ 16` requests. -/
def CountsShort {E : Type} (numDslNodes : Nat) (s : AppNode E) : Prop :=
  ∀ seq < numDslNodes, s.granted seq % 2 ^ 16 = 0 → s.granted seq = 0

/-- The steps that release only in states with short counts. -/
def ReleasesShort {E : Type} (numDslNodes : Nat) (s : AppNode E) : AppEvent → Prop
  | .rlsAll _ _ => CountsShort numDslNodes s
  | _ => True

section Run

variable {E : Type} [LawfulRwEntry E] {cfg : Config} {numDslNodes n : Nat}

/-- The counter is the count, in sixteen bits. -/
def CounterRight (numDslNodes : Nat) (s : AppNode E) : Prop :=
  ∀ seq < numDslNodes, s.nodesContacted seq = s.granted seq % 2 ^ 16

theorem CounterRight.step {s s' : AppNode E} (h : CounterRight numDslNodes s) {e : AppEvent}
    (hstep : appStep cfg numDslNodes n s e = some s') : CounterRight numDslNodes s' := by
  cases e with
  | request seq now req =>
    simp only [appStep] at hstep
    split at hstep
    · obtain ⟨reply, -, rfl⟩ := Option.map_eq_some_iff.mp hstep
      intro d hd
      have hold := h d hd
      by_cases hseq : d = seq
      · subst hseq
        simp only [contact, Function.update_self]
        by_cases hno : reply.response ≠ .noConflict
        · rw [if_pos hno, if_pos hno]
          rfl
        · rw [if_neg hno, if_neg hno]
          omega
      · simp only [contact, Function.update_of_ne hseq]
        exact hold
    · cases hstep
  | rlsAll conflict txMetadata =>
    obtain rfl := Option.some.inj hstep
    intro d hd
    simp only [if_pos hd]
    rfl
  | handle seq now =>
    simp only [appStep] at hstep
    split at hstep
    · cases hstep
    · obtain rfl := Option.some.inj hstep
      exact h
  | other seq e =>
    obtain rfl := Option.some.inj hstep
    exact h

theorem counterRight_run {es : List AppEvent} {s : AppNode E}
    (hexec : Exec (partialGraph (appStep cfg numDslNodes n)) appInit es s) :
    CounterRight numDslNodes s :=
  hexec.invariant (CounterRight numDslNodes) (fun _ _ _ hs hstep => hs.step hstep)
    (fun _ _ => rfl)

/-- Where the node is mentioned in a table it will release, or its release is on the way. -/
structure ReleaseDue (numDslNodes n : Nat) (s : AppNode E) : Prop where
  tidy : ∀ seq, Tidy n (s.dsl seq).ht
  due : ∀ seq, Absent (s.dsl seq).ht n ∨ 0 < s.granted seq ∨ s.inFlight seq ≠ []
  releases : ∀ seq, ∀ req ∈ s.inFlight seq, req.type = .rmvNode
  outside : ∀ seq, numDslNodes ≤ seq → s.granted seq = 0

theorem releaseDue_appInit (hn : n < idBound E) :
    ReleaseDue numDslNodes n (appInit : AppNode E) where
  tidy _ := tidy_sshtNew hn
  due _ := Or.inl (absent_sshtNew hn)
  releases _ _ h := by cases h
  outside _ _ := rfl

theorem isRequest_kind {req : Req} (h : isRequest cfg req = true) :
    ∃ rw : RW, (req.type = .load ∧ rw = .read) ∨ (req.type = .store ∧ rw = .write) ∨
      (req.type = .storeInc ∧ cfg.pgas = true ∧ rw = .write) := by
  unfold isRequest at h
  cases htype : req.type with
  | load => exact ⟨.read, Or.inl ⟨rfl, rfl⟩⟩
  | store => exact ⟨.write, Or.inr (Or.inl ⟨rfl, rfl⟩)⟩
  | storeInc =>
    rw [htype] at h
    exact ⟨.write, Or.inr (Or.inr ⟨rfl, h, rfl⟩)⟩
  | rmvNode | loadRls | storeFinish | loadNontx | storeNontx | unknown =>
    rw [htype] at h
    cases h

theorem not_early_of_isRequest {req : Req} (h : isRequest cfg req = true) :
    req.type ≠ .loadRls ∧ req.type ≠ .storeFinish := by
  obtain ⟨rw, htype⟩ := isRequest_kind h
  rcases htype with ⟨htype, -⟩ | ⟨htype, -⟩ | ⟨htype, -⟩ <;> rw [htype] <;> decide

theorem ReleaseDue.request (hn : n < idBound E) {s s' : AppNode E}
    (h : ReleaseDue numDslNodes n s) {seq now : Nat} {req : Req}
    (hstep : appStep cfg numDslNodes n s (.request seq now req) = some s') :
    ReleaseDue numDslNodes n s' := by
  simp only [appStep] at hstep
  split at hstep
  · rename_i hcond
    obtain ⟨hseq, -, hreq⟩ := hcond
    obtain ⟨reply, hreply, rfl⟩ := Option.map_eq_some_iff.mp hstep
    obtain ⟨rw, htype⟩ := isRequest_kind hreq
    refine ⟨?_, ?_, h.releases, ?_⟩
    · intro d
      by_cases hd : d = seq
      · subst hd
        simp only [Function.update_self]
        exact (spares_dslService cfg hn hn now (s.dsl d)
          (fun _ => not_early_of_isRequest hreq)).tidy (h.tidy d)
      · simp only [Function.update_of_ne hd]
        exact h.tidy d
    · intro d
      by_cases hd : d = seq
      · subst hd
        simp only [Function.update_self]
        by_cases hno : reply.response ≠ .noConflict
        · exact Or.inl (absent_refused cfg hn now (h.tidy d) htype hreply hno)
        · rw [if_neg hno]
          exact Or.inr (Or.inl (Nat.succ_pos _))
      · simp only [Function.update_of_ne hd]
        exact h.due d
    · intro d hd
      have hne : d ≠ seq := by omega
      simp only [Function.update_of_ne hne]
      exact h.outside d hd
  · cases hstep

theorem ReleaseDue.rlsAll {s s' : AppNode E} (h : ReleaseDue numDslNodes n s)
    (hcounter : CounterRight numDslNodes s) (hshort : CountsShort numDslNodes s)
    {conflict : BitVec 64} {txMetadata : Nat}
    (hstep : appStep cfg numDslNodes n s (.rlsAll conflict txMetadata) = some s') :
    ReleaseDue numDslNodes n s' := by
  obtain rfl := Option.some.inj hstep
  refine ⟨h.tidy, ?_, ?_, fun _ _ => rfl⟩
  · intro d
    by_cases hsent : d < numDslNodes ∧ s.nodesContacted d > 0
    · right
      right
      simp only [if_pos hsent]
      simp
    · -- nothing was granted there
      have hzero : s.granted d = 0 := by
        by_cases hd : d < numDslNodes
        · refine hshort d hd ?_
          have := hcounter d hd
          omega
        · exact h.outside d (by omega)
      simp only [if_neg hsent]
      rcases h.due d with habsent | hgranted | hflight
      · exact Or.inl habsent
      · omega
      · exact Or.inr (Or.inr hflight)
  · intro d req hreq
    by_cases hsent : d < numDslNodes ∧ s.nodesContacted d > 0
    · simp only [if_pos hsent, List.mem_append, List.mem_singleton] at hreq
      rcases hreq with hold | rfl
      · exact h.releases d req hold
      · rfl
    · simp only [if_neg hsent] at hreq
      exact h.releases d req hreq

theorem ReleaseDue.handle (hn : n < idBound E) {s s' : AppNode E}
    (h : ReleaseDue numDslNodes n s) {seq now : Nat}
    (hstep : appStep cfg numDslNodes n s (.handle seq now) = some s') :
    ReleaseDue numDslNodes n s' := by
  simp only [appStep] at hstep
  split at hstep
  · cases hstep
  · rename_i req rest hflight
    obtain rfl := Option.some.inj hstep
    have htype : req.type = .rmvNode := h.releases seq req (by rw [hflight]; simp)
    refine ⟨?_, ?_, ?_, h.outside⟩
    · intro d
      by_cases hd : d = seq
      · subst hd
        simp only [Function.update_self]
        refine (spares_dslService cfg hn hn now (s.dsl d) fun _ => ?_).tidy (h.tidy d)
        rw [htype]
        decide
      · simp only [Function.update_of_ne hd]
        exact h.tidy d
    · intro d
      by_cases hd : d = seq
      · subst hd
        simp only [Function.update_self]
        exact Or.inl (absent_rmvNode cfg hn now (h.tidy d) htype)
      · simp only [Function.update_of_ne hd]
        exact h.due d
    · intro d r hr
      by_cases hd : d = seq
      · subst hd
        simp only [Function.update_self] at hr
        exact h.releases d r (by rw [hflight]; exact List.mem_cons_of_mem _ hr)
      · simp only [Function.update_of_ne hd] at hr
        exact h.releases d r hr

theorem ReleaseDue.other (hn : n < idBound E) {s s' : AppNode E}
    (h : ReleaseDue numDslNodes n s) {seq : Nat} {e : DslEvent}
    (hfrom : FromOther (idBound E) n (.other seq e))
    (hstep : appStep cfg numDslNodes n s (.other seq e) = some s') :
    ReleaseDue numDslNodes n s' := by
  obtain rfl := Option.some.inj hstep
  have hspares : (Tidy n (s.dsl seq).ht → Tidy n (dslStep cfg (s.dsl seq) e).1.ht) ∧
      (Absent (s.dsl seq).ht n → Absent (dslStep cfg (s.dsl seq) e).1.ht n) := by
    cases e with
    | abortFlag node flag => exact ⟨fun h => h, fun h => h⟩
    | message now sender req =>
      obtain ⟨hne, hs⟩ := hfrom
      have hspares : Spares n sender (s.dsl seq).ht
          (dslService cfg now (s.dsl seq) sender req).1.ht :=
        spares_dslService cfg hn hs now (s.dsl seq) fun hc => absurd hc hne
      exact ⟨hspares.tidy, hspares.absent (h.tidy seq) hne⟩
  refine ⟨?_, ?_, h.releases, h.outside⟩
  · intro d
    by_cases hd : d = seq
    · subst hd
      simp only [Function.update_self]
      exact hspares.1 (h.tidy d)
    · simp only [Function.update_of_ne hd]
      exact h.tidy d
  · intro d
    by_cases hd : d = seq
    · subst hd
      simp only [Function.update_self]
      rcases h.due d with habsent | hrest
      · exact Or.inl (hspares.2 habsent)
      · exact Or.inr hrest
    · simp only [Function.update_of_ne hd]
      exact h.due d

theorem ReleaseDue.step (hn : n < idBound E) {s s' : AppNode E}
    (h : ReleaseDue numDslNodes n s) (hcounter : CounterRight numDslNodes s) {e : AppEvent}
    (hfrom : FromOther (idBound E) n e) (hshort : ReleasesShort numDslNodes s e)
    (hstep : appStep cfg numDslNodes n s e = some s') : ReleaseDue numDslNodes n s' := by
  cases e with
  | request seq now req => exact h.request hn hstep
  | rlsAll conflict txMetadata => exact h.rlsAll hcounter hshort hstep
  | handle seq now => exact h.handle hn hstep
  | other seq e => exact h.other hn hfrom hstep

/-- `tm2c_rpc_rls_all` releases wherever requests were granted exactly when no count
is a positive multiple of `2 ^ 16`. -/
theorem releasesGranted_iff {s : AppNode E} (hcounter : CounterRight numDslNodes s) :
    ReleasesGranted cfg numDslNodes n s ↔ CountsShort numDslNodes s := by
  constructor
  · intro h seq hseq hmod
    by_contra hne
    have hsent := h 0 0 _ rfl seq hseq (Nat.pos_of_ne_zero hne)
    have hzero : ¬ (seq < numDslNodes ∧ s.nodesContacted seq > 0) := by
      have := hcounter seq hseq
      omega
    simp only [if_neg hzero] at hsent
    simp at hsent
  · intro h conflict txMetadata s' hstep seq hseq hpos
    obtain rfl := Option.some.inj hstep
    have hcount : seq < numDslNodes ∧ s.nodesContacted seq > 0 := by
      refine ⟨hseq, ?_⟩
      have := hcounter seq hseq
      have := h seq hseq
      omega
    simp only [if_pos hcount]

/-- **No lock outlives its attempt.**  In every run the release at the end of an
attempt reaches all service nodes that granted requests exactly when none granted a
positive multiple of `2 ^ 16`; and in a run whose releases are all of this kind, a
node that has no request granted and no message in flight has no lock. -/
theorem noLockOutlivesAttempt (cfg : Config) (numDslNodes n : Nat) (hn : n < idBound E)
    (es : List AppEvent) (s : AppNode E)
    (hexec : Exec (partialGraph (appStep cfg numDslNodes n)) appInit es s) :
    (ReleasesGranted cfg numDslNodes n s ↔ CountsShort numDslNodes s) ∧
    (Exec (restrict (ReleasesShort numDslNodes) (partialGraph (appStep cfg numDslNodes n)))
        appInit es s → (∀ e ∈ es, FromOther (idBound E) n e) →
      ∀ seq, s.granted seq = 0 → s.inFlight seq = [] → Absent (s.dsl seq).ht n) := by
  refine ⟨releasesGranted_iff (counterRight_run hexec), ?_⟩
  intro hshort hfrom seq hgranted hflight
  have hinv : CounterRight numDslNodes s ∧ ReleaseDue numDslNodes n s := by
    refine (hshort.restrict_of_forall hfrom).invariant
      (fun s => CounterRight numDslNodes s ∧ ReleaseDue numDslNodes n s) ?_
      ⟨fun _ _ => rfl, releaseDue_appInit hn⟩
    rintro s e t ⟨hcounter, hdue⟩ ⟨hfrom, hshort, hstep⟩
    exact ⟨hcounter.step hstep, hdue.step hn hcounter hfrom hshort hstep⟩
  rcases hinv.2.due seq with habsent | hpos | hne
  · exact habsent
  · omega
  · exact absurd hflight hne

end Run

def attemptConfig : Config := ⟨.wholly, false, false, 4⟩

/-- A load and a store, the release, and its handling. -/
def shortAttempt : List AppEvent :=
  [.request 0 0 { type := .load, address := 64 }, .request 0 0 { type := .store, address := 72 },
   .rlsAll 0 0, .handle 0 0]

theorem noLockOutlivesAttempt_shortAttempt :
    ∃ s s' : AppNode ByteEntry,
      Exec (partialGraph (appStep attemptConfig 1 2)) appInit (shortAttempt.take 2) s ∧
      ReleasesGranted attemptConfig 1 2 s ∧
      Exec (partialGraph (appStep attemptConfig 1 2)) appInit shortAttempt s' ∧
      Absent (s'.dsl 0).ht 2 := by
  have hid : 2 < idBound ByteEntry := by decide
  have hrequests : ∃ s : AppNode ByteEntry,
      Exec (partialGraph (appStep attemptConfig 1 2)) appInit (shortAttempt.take 2) s ∧
      CountsShort 1 s :=
    ⟨_, Exec.cons rfl (Exec.cons rfl (Exec.nil _)), by unfold CountsShort; decide +kernel⟩
  have hattempt : ∃ s : AppNode ByteEntry,
      Exec (restrict (ReleasesShort 1) (partialGraph (appStep attemptConfig 1 2))) appInit
        shortAttempt s ∧ s.granted 0 = 0 ∧ s.inFlight 0 = [] := by
    refine ⟨_, Exec.cons ⟨trivial, rfl⟩ (Exec.cons ⟨trivial, rfl⟩ (Exec.cons ⟨?_, rfl⟩
      (Exec.cons ⟨trivial, rfl⟩ (Exec.nil _)))), rfl, rfl⟩
    unfold ReleasesShort CountsShort
    decide +kernel
  obtain ⟨s, hexec, hshort⟩ := hrequests
  obtain ⟨s', hexec', hgranted, hflight⟩ := hattempt
  refine ⟨s, s', hexec, ?_, hexec'.of_restrict, ?_⟩
  · exact (noLockOutlivesAttempt attemptConfig 1 2 hid _ s hexec).1.mpr hshort
  · exact (noLockOutlivesAttempt attemptConfig 1 2 hid _ s' hexec'.of_restrict).2 hexec'
      (by decide) 0 hgranted hflight

/-! ### Sixty-five thousand loads -/

section Wrap

variable {E : Type} [LawfulRwEntry E] (cfg : Config) {n : Nat}

/-- Nobody writes, and node `n` has read something. -/
structure OnlyRead (n : Nat) (t : Ssht E) : Prop where
  unwritten : ∀ p sl, t.slot? p = some sl → writer sl.entry = SSHT_NO_WRITER
  logged : t.logs n ≠ []

theorem OnlyRead.markReader {t : Ssht E} (h : ∀ p sl, t.slot? p = some sl →
    writer sl.entry = SSHT_NO_WRITER) (p : SlotPtr) (addr : Nat) :
    OnlyRead n (markReader t p n addr) := by
  refine ⟨?_, ?_⟩
  · intro q sl' hq
    simp only [TM2C.markReader, slot?_sshtLogSetInsert, Ssht.slot?_modifySlot] at hq
    split at hq
    · obtain ⟨sl, hsl, rfl⟩ := Option.map_eq_some_iff.mp hq
      rw [writer_addReader]
      exact h q sl hsl
    · exact h q sl' hq
  · simp [TM2C.markReader, logs_sshtLogSetInsert]

theorem OnlyRead.markReaderFound {t : Ssht E} (h : OnlyRead n t) (p : SlotPtr) (addr : Nat) :
    OnlyRead n (markReaderFound t p n addr) := by
  rcases markReaderFound_eq t p n addr with ⟨-, heq⟩ | ⟨sl, -, ⟨-, heq⟩ | ⟨-, heq⟩⟩
  · rw [heq]
    exact h
  · rw [heq]
    refine ⟨?_, h.logged⟩
    intro q sl' hq
    rcases Ssht.of_slot?_modifySlot hq with hold | ⟨sl₀, rfl, hsl, rfl⟩
    · exact h.unwritten q sl' hold
    · exact h.unwritten q sl₀ hsl
  · rw [heq]
    exact OnlyRead.markReader h.unwritten p addr

/-- Where nobody writes every load is granted. -/
theorem OnlyRead.load (now : Nat) {s : Dsl E} (h : OnlyRead n s.ht) {req : Req}
    (htype : req.type = .load) :
    ∃ reply, (dslService cfg now s n req).2 = some reply ∧ reply.response = .noConflict ∧
      OnlyRead n (dslService cfg now s n req).1.ht := by
  let s₁ : Dsl E :=
    { s with timestamp := updateTimestamp cfg now n req.txMetadata s.timestamp }
  have hinsert : (tm2cHtInsert cfg s₁ n req.address .read).1 = .noConflict ∧
      OnlyRead n (tm2cHtInsert cfg s₁ n req.address .read).2.ht := by
    simp only [tm2cHtInsert, bucketInsertR]
    cases hfind : bucketFind (s₁.ht.bucket (bucketOf cfg.pgas req.address)) req.address with
    | none =>
      refine ⟨rfl, OnlyRead.markReader ?_ _ _⟩
      intro p sl hp
      rcases slot_bucketAlloc hp with hold | rfl
      · exact h.unwritten p sl hold
      · exact writer_new
    | some found =>
      obtain ⟨i, sl⟩ := found
      have hslot : s₁.ht.slot? (bucketOf cfg.pgas req.address, i) = some sl :=
        (bucketFind_eq_some hfind).1
      have hno := h.unwritten _ sl hslot
      simp only [hno, ne_eq, not_true_eq_false, if_false]
      exact ⟨trivial, h.markReaderFound _ _⟩
  have hload : (req.type = .load ∧ RW.read = .read) ∨ (req.type = .store ∧ RW.read = .write) ∨
      (req.type = .storeInc ∧ cfg.pgas = true ∧ RW.read = .write) := Or.inl ⟨htype, rfl⟩
  obtain ⟨reply, hreply, hresponse, -, hok⟩ := dslSwitch_insert cfg s₁ n hload
  rw [hinsert.1] at hresponse
  have hht : (dslService cfg now s n req).1.ht = _ := hok hresponse
  exact ⟨reply, hreply, hresponse, hht ▸ hinsert.2⟩

theorem OnlyRead.loads {req : Req} (htype : req.type = .load) (k : Nat) {s : AppNode E}
    (h : OnlyRead n (s.dsl 0).ht) (hflight : s.inFlight 0 = []) :
    ∃ s', Exec (partialGraph (appStep cfg 1 n)) s (List.replicate k (.request 0 0 req)) s' ∧
      OnlyRead n (s'.dsl 0).ht ∧ s'.inFlight 0 = [] ∧ s'.granted 0 = s.granted 0 + k := by
  induction k generalizing s with
  | zero => exact ⟨s, Exec.nil s, h, hflight, rfl⟩
  | succ k ih =>
    obtain ⟨reply, hreply, hresponse, h'⟩ := h.load cfg 0 htype
    have hrequest : isRequest cfg req = true := by
      unfold isRequest
      rw [htype]
    have hstep : appStep cfg 1 n s (.request 0 0 req) =
        some ⟨contact s.nodesContacted 0 reply.response,
          Function.update s.dsl 0 (dslService cfg 0 (s.dsl 0) n req).1, s.inFlight,
          Function.update s.granted 0 (s.granted 0 + 1)⟩ := by
      simp [appStep, hreply, hresponse, hrequest, hflight]
    obtain ⟨s', hexec, hread, hflight', hgranted⟩ := ih (s := ⟨contact s.nodesContacted 0
      reply.response, Function.update s.dsl 0 (dslService cfg 0 (s.dsl 0) n req).1, s.inFlight,
      Function.update s.granted 0 (s.granted 0 + 1)⟩) (by simpa using h') hflight
    refine ⟨s', Exec.cons hstep hexec, hread, hflight', ?_⟩
    simp only [hgranted, Function.update_self]
    omega

end Wrap

def firstLoad : Req := { type := .load, address := 64 }

/-- After `2 ^ 16` granted loads the counter is zero, nothing is sent, and the lock stays. -/
theorem wrapped_counter_keeps_lock :
    ∃ s s' : AppNode ByteEntry,
      Exec (partialGraph (appStep attemptConfig 1 2)) appInit
        (List.replicate (2 ^ 16) (.request 0 0 firstLoad)) s ∧
      ¬ ReleasesGranted attemptConfig 1 2 s ∧
      appStep attemptConfig 1 2 s (.rlsAll 0 0) = some s' ∧
      s'.inFlight 0 = [] ∧ ¬ Absent (s'.dsl 0).ht 2 := by
  let s₁ : AppNode ByteEntry := ⟨contact (fun _ => 0) 0 .noConflict,
    Function.update (fun _ => dslInit) 0 (dslService attemptConfig 0 dslInit 2 firstLoad).1,
    fun _ => [], Function.update (fun _ => 0) 0 1⟩
  have hfirst : appStep attemptConfig 1 2 appInit (.request 0 0 firstLoad) = some s₁ := rfl
  have hread : OnlyRead 2 (s₁.dsl 0).ht := by
    refine OnlyRead.markReader ?_ (bucketOf false 64, 0) 64
    intro p sl hp
    have hnew : (sshtNew : Ssht ByteEntry).slot? p = some sl := hp
    rw [slot?_sshtNew hnew, writer_new]
  have hload : firstLoad.type = .load := rfl
  obtain ⟨s, hexec, hread, hflight, hgranted⟩ :=
    OnlyRead.loads attemptConfig hload (2 ^ 16 - 1) (s := s₁) hread rfl
  have hrun : Exec (partialGraph (appStep attemptConfig 1 2)) appInit
      (List.replicate (2 ^ 16) (.request 0 0 firstLoad)) s := by
    rw [show (2 : Nat) ^ 16 = 2 ^ 16 - 1 + 1 by norm_num, List.replicate_succ]
    exact Exec.cons hfirst hexec
  have hone : s₁.granted 0 = 1 := rfl
  have hcount : s.granted 0 = 2 ^ 16 := by
    rw [hone] at hgranted
    omega
  have hcounter := counterRight_run hrun 0 (Nat.zero_lt_one)
  rw [hcount, Nat.mod_self] at hcounter
  refine ⟨s, _, hrun, ?_, rfl, ?_, ?_⟩
  · rw [releasesGranted_iff (counterRight_run hrun)]
    intro hshort
    have := hshort 0 Nat.zero_lt_one (by rw [hcount, Nat.mod_self])
    rw [hcount] at this
    exact absurd this (by norm_num)
  · simp only [hcounter, gt_iff_lt, Nat.lt_irrefl, and_false, if_false]
    exact hflight
  · intro habsent
    exact hread.logged habsent.logs

end TM2C
