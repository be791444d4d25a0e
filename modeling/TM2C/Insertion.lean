import TM2C.LockTable

/-!
# The parts of an insertion

`tm2c_ht_insert` decides on a request, aborts the victims one after the other, and
enters the lock.  The parts are named here: between two of them other nodes move.

`insertion` is the decision, a function of the table and the timestamps alone: refuse with a
conflict, or grant, in the slot that the scan found or in a new one, after aborting a list of
victims.  `carryOut` does what was decided in one go, and `tm2cHtInsert_eq` says that the code is
the one after the other.  It is proved along the branches of `bucket_insert_r` and
`bucket_insert_w`; all theorems that speak of single steps between the decision and the lock, or
that only ask for which requests the answer is no, start from `insertion`.

The last section is on the log.  Deleting the victims leaves the log of the requester as it is,
since it is none of them, so the room that it needs for the new entry is there from the
beginning.
-/

namespace TM2C

open RwEntry

/-- What `bucket_insert_r` and `bucket_insert_w` make of a request: it is refused, or
the nodes in its way are aborted with a reason and the lock is entered, in the slot
that was found or in a new one. -/
inductive Insertion where
  | refuse (conflict : Conflict)
  | grant (slot : Option SlotPtr) (reason : Conflict) (victims : List Nat)

variable {E : Type} [RwEntry E]

/-- Attack the writer of a slot. -/
def attackSlotWriter (cfg : Config) (timestamp : Nat → Nat) (p : SlotPtr) (id writer : Nat)
    (conflict : Conflict) : Insertion :=
  if cfg.cm.isReal = true ∧ Precedes timestamp id writer then .grant (some p) conflict [writer]
  else .refuse conflict

def insertionR (cfg : Config) (timestamp : Nat → Nat) (t : Ssht E) (bu id addr : Nat) :
    Insertion :=
  match bucketFind (t.bucket bu) addr with
  | some (i, sl) =>
    if writer sl.entry ≠ SSHT_NO_WRITER then
      attackSlotWriter cfg timestamp (bu, i) id (writer sl.entry) .readAfterWrite
    else .grant (some (bu, i)) .readAfterWrite []
  | none => .grant none .readAfterWrite []

def insertionW (cfg : Config) (timestamp : Nat → Nat) (t : Ssht E) (bu id addr : Nat) :
    Insertion :=
  match bucketFind (t.bucket bu) addr with
  | some (i, sl) =>
    if writer sl.entry ≠ SSHT_NO_WRITER ∧ writer sl.entry ≠ id then
      attackSlotWriter cfg timestamp (bu, i) id (writer sl.entry) .writeAfterWrite
    else if hasOtherReaders sl.entry id then
      let others := (List.range cfg.numUes).filter fun n =>
        isReader sl.entry n && decide (n ≠ id)
      if cfg.cm.isReal = true ∧ ∀ n ∈ others, Precedes timestamp id n then
        .grant (some (bu, i)) .writeAfterRead others
      else .refuse .writeAfterRead
    else .grant (some (bu, i)) .writeAfterRead []
  | none => .grant none .writeAfterRead []

def insertion (cfg : Config) (timestamp : Nat → Nat) (t : Ssht E) (id addr : Nat) :
    RW → Insertion
  | .read => insertionR cfg timestamp t (bucketOf cfg.pgas addr) id addr
  | .write => insertionW cfg timestamp t (bucketOf cfg.pgas addr) id addr

def markFound (t : Ssht E) (p : SlotPtr) (id addr : Nat) : RW → Ssht E
  | .read => markReaderFound t p id addr
  | .write => markWriter t p id addr

def markFree (t : Ssht E) (p : SlotPtr) (id addr : Nat) : RW → Ssht E
  | .read => markReader t p id addr
  | .write => markWriter t p id addr

/-- The lock is entered in the slot that was found, whatever has become of it, or in a
free one of the bucket. -/
def enterLock (t : Ssht E) (bu : Nat) (slot : Option SlotPtr) (id addr : Nat) (rw : RW) :
    Ssht E :=
  match slot with
  | some p => markFound t p id addr rw
  | none => markFree (bucketAlloc t bu).1 (bucketAlloc t bu).2 id addr rw

/-- What is done about an insertion, without anybody else moving. -/
def Insertion.carryOut (cfg : Config) (s : Dsl E) (id addr : Nat) (rw : RW) :
    Insertion → Conflict × Dsl E
  | .refuse conflict => (conflict, s)
  | .grant slot reason victims =>
    let s' := victims.foldl (fun s v => abortDefender cfg s v reason) s
    (.noConflict, { s' with ht := enterLock s'.ht (bucketOf cfg.pgas addr) slot id addr rw })

section Parts

variable {cfg : Config} {s : Dsl E} {id addr : Nat}

theorem carryOut_attackSlotWriter (rw : RW) (p : SlotPtr) (w : Nat) (conflict : Conflict) :
    (attackSlotWriter cfg s.timestamp p id w conflict).carryOut cfg s id addr rw =
      if cfg.cm.isReal = true then
        if (contentionManagerRawWaw cfg s id w conflict).1 = true then
          (.noConflict, { (contentionManagerRawWaw cfg s id w conflict).2 with
            ht := markFound (contentionManagerRawWaw cfg s id w conflict).2.ht p id addr rw })
        else (conflict, (contentionManagerRawWaw cfg s id w conflict).2)
      else (conflict, s) := by
  unfold attackSlotWriter
  rw [contentionManagerRawWaw_eq]
  by_cases hreal : cfg.cm.isReal = true
  · by_cases hwon : Precedes s.timestamp id w
    · rw [if_pos ⟨hreal, hwon⟩, if_pos hreal, if_pos hwon]
      rfl
    · rw [if_neg (fun hc => hwon hc.2), if_pos hreal, if_neg hwon]
      rfl
  · rw [if_neg (fun hc => hreal hc.1), if_neg hreal]
    rfl

/-- **The insertion is the sum of its parts.** -/
theorem tm2cHtInsert_eq (cfg : Config) (s : Dsl E) (id addr : Nat) (rw : RW) :
    tm2cHtInsert cfg s id addr rw =
      (insertion cfg s.timestamp s.ht id addr rw).carryOut cfg s id addr rw := by
  cases rw with
  | read =>
    change bucketInsertR cfg s (bucketOf cfg.pgas addr) id addr =
      (insertionR cfg s.timestamp s.ht (bucketOf cfg.pgas addr) id addr).carryOut cfg s id addr _
    unfold bucketInsertR insertionR
    cases hfind : bucketFind (s.ht.bucket (bucketOf cfg.pgas addr)) addr with
    | none => rfl
    | some r =>
      obtain ⟨i, sl⟩ := r
      by_cases hw : writer sl.entry ≠ SSHT_NO_WRITER
      · simp only [if_pos hw, carryOut_attackSlotWriter]
        rfl
      · simp only [if_neg hw]
        rfl
  | write =>
    change bucketInsertW cfg s (bucketOf cfg.pgas addr) id addr =
      (insertionW cfg s.timestamp s.ht (bucketOf cfg.pgas addr) id addr).carryOut cfg s id addr _
    unfold bucketInsertW insertionW
    cases hfind : bucketFind (s.ht.bucket (bucketOf cfg.pgas addr)) addr with
    | none => rfl
    | some r =>
      obtain ⟨i, sl⟩ := r
      by_cases hother : writer sl.entry ≠ SSHT_NO_WRITER ∧ writer sl.entry ≠ id
      · simp only [if_pos hother, carryOut_attackSlotWriter]
        rfl
      · simp only [if_neg hother]
        by_cases hothers : hasOtherReaders sl.entry id = true
        · simp only [if_pos hothers, contentionManagerWar_eq]
          by_cases hreal : cfg.cm.isReal = true
          · by_cases hwon : ∀ n ∈ (List.range cfg.numUes).filter fun n =>
                isReader sl.entry n && decide (n ≠ id), Precedes s.timestamp id n
            · rw [if_pos hreal, if_pos hwon, if_pos (And.intro hreal hwon)]
              rfl
            · rw [if_pos hreal, if_neg hwon, if_neg (mt And.right hwon)]
              rfl
          · rw [if_neg hreal, if_neg (mt And.left hreal)]
            rfl
        · simp only [if_neg hothers]
          rfl

/-- A reason is a conflict that the abort flags of transactions know. -/
def Conflict.isReason (c : Conflict) : Prop :=
  c = .readAfterWrite ∨ c = .writeAfterRead ∨ c = .writeAfterWrite

theorem insertion_reason {timestamp : Nat → Nat} {t : Ssht E} {rw : RW} {slot : Option SlotPtr}
    {reason : Conflict} {victims : List Nat}
    (h : insertion cfg timestamp t id addr rw = .grant slot reason victims) : reason.isReason := by
  have hattack : ∀ p w conflict, conflict.isReason →
      attackSlotWriter cfg timestamp p id w conflict = .grant slot reason victims →
      reason.isReason := by
    intro p w conflict hconflict h
    unfold attackSlotWriter at h
    split at h
    · cases h
      exact hconflict
    · cases h
  cases rw with
  | read =>
    simp only [insertion, insertionR] at h
    split at h
    · split at h
      · exact hattack _ _ _ (Or.inl rfl) h
      · cases h
        exact Or.inl rfl
    · cases h
      exact Or.inl rfl
  | write =>
    simp only [insertion, insertionW] at h
    split at h
    · split at h
      · exact hattack _ _ _ (Or.inr (Or.inr rfl)) h
      · split at h
        · split at h
          · cases h
            exact Or.inr (Or.inl rfl)
          · cases h
        · cases h
          exact Or.inr (Or.inl rfl)
    · cases h
      exact Or.inr (Or.inl rfl)

/-- Nobody is aborted at its own request. -/
theorem requester_notMem_victims {timestamp : Nat → Nat} {t : Ssht E} {rw : RW}
    {slot : Option SlotPtr} {reason : Conflict} {victims : List Nat}
    (h : insertion cfg timestamp t id addr rw = .grant slot reason victims) : id ∉ victims := by
  have hattack : ∀ p w conflict,
      attackSlotWriter cfg timestamp p id w conflict = .grant slot reason victims →
      id ∉ victims := by
    intro p w conflict h hmem
    unfold attackSlotWriter at h
    split at h
    · rename_i hwon
      cases h
      obtain rfl := List.mem_singleton.mp hmem
      exact precedes_irrefl timestamp id hwon.2
    · cases h
  cases rw with
  | read =>
    simp only [insertion, insertionR] at h
    split at h
    · split at h
      · exact hattack _ _ _ h
      · cases h
        exact List.not_mem_nil
    · cases h
      exact List.not_mem_nil
  | write =>
    simp only [insertion, insertionW] at h
    split at h
    · split at h
      · exact hattack _ _ _ h
      · split at h
        · split at h
          · cases h
            intro hmem
            simpa using (List.mem_filter.mp hmem).2
          · cases h
        · cases h
          exact List.not_mem_nil
    · cases h
      exact List.not_mem_nil

/-- A refusal names its conflict. -/
theorem insertion_refuse_ne {timestamp : Nat → Nat} {t : Ssht E} {rw : RW} {conflict : Conflict}
    (h : insertion cfg timestamp t id addr rw = .refuse conflict) : conflict ≠ .noConflict := by
  have hattack : ∀ p w reason, reason ≠ .noConflict →
      attackSlotWriter cfg timestamp p id w reason = .refuse conflict →
      conflict ≠ .noConflict := by
    intro p w reason hreason h
    unfold attackSlotWriter at h
    split at h
    · cases h
    · cases h
      exact hreason
  cases rw with
  | read =>
    simp only [insertion, insertionR] at h
    split at h
    · split at h
      · exact hattack _ _ _ (fun hc => by cases hc) h
      · cases h
    · cases h
  | write =>
    simp only [insertion, insertionW] at h
    split at h
    · split at h
      · exact hattack _ _ _ (fun hc => by cases hc) h
      · split at h
        · split at h
          · cases h
          · cases h
            exact fun hc => by cases hc
        · cases h
    · cases h

/-- In the PGAS build a victim loses its buffered writes and keeps its locks. -/
theorem foldl_abortDefender_pgas (hpgas : cfg.pgas = true) {victims : List Nat}
    (hid : id ∉ victims) (reason : Conflict) :
    (victims.foldl (fun s v => abortDefender cfg s v reason) s).ht = s.ht ∧
      (victims.foldl (fun s v => abortDefender cfg s v reason) s).writeSets id =
        s.writeSets id := by
  induction victims generalizing s with
  | nil => exact ⟨rfl, rfl⟩
  | cons v victims ih =>
    obtain ⟨hne, hid⟩ := not_or.mp (mt List.mem_cons.mpr hid)
    obtain ⟨hht, hwriteSet⟩ := ih (s := abortDefender cfg s v reason) hid
    rw [List.foldl_cons, hht, hwriteSet, abortDefender, if_pos hpgas]
    exact ⟨rfl, Function.update_of_ne hne ..⟩

omit [RwEntry E] in
theorem length_logs_markSlot (t : Ssht E) (p : SlotPtr) (f : Slot E → Slot E) :
    ((sshtLogSetInsert (t.modifySlot p f) id p).logs id).length = (t.logs id).length + 1 := by
  rw [logs_sshtLogSetInsert, if_pos rfl, List.length_append, List.length_singleton,
    Ssht.logs_modifySlot]

/-- A write lock is logged each time. -/
theorem length_logs_enterLock_write (t : Ssht E) (bu : Nat) (slot : Option SlotPtr) :
    ((enterLock t bu slot id addr .write).logs id).length = (t.logs id).length + 1 := by
  cases slot with
  | none =>
    rw [← (bucketAlloc_spec t bu).1]
    exact length_logs_markSlot _ _ _
  | some p => exact length_logs_markSlot _ _ _

end Parts

/-! ### The log of the requester -/

section Log

variable {E : Type} [LawfulRwEntry E] {cfg : Config} {s : Dsl E} {id addr : Nat}

theorem logs_foldl_abortDefender {victims : List Nat} (hid : id ∉ victims) (reason : Conflict) :
    (victims.foldl (fun s v => abortDefender cfg s v reason) s).ht.logs id = s.ht.logs id := by
  induction victims generalizing s with
  | nil => rfl
  | cons v victims ih =>
    obtain ⟨hne, hid⟩ := not_or.mp (mt List.mem_cons.mpr hid)
    rw [List.foldl_cons, ih hid]
    unfold abortDefender
    split
    · rfl
    · exact (logs_deleteNode s.ht v id).trans (if_neg hne)

theorem length_logs_enterLock (t : Ssht E) (bu : Nat) (slot : Option SlotPtr) (rw : RW) :
    ((enterLock t bu slot id addr rw).logs id).length ≤ (t.logs id).length + 1 := by
  cases slot with
  | none =>
    rw [← (bucketAlloc_spec t bu).1]
    cases rw <;> exact (length_logs_markSlot _ _ _).le
  | some p =>
    cases rw with
    | read =>
      obtain ⟨-, heq⟩ | ⟨sl, -, ⟨-, heq⟩ | ⟨-, heq⟩⟩ := markReaderFound_eq t p id addr
      · rw [enterLock, markFound, heq]
        exact Nat.le_succ _
      · rw [enterLock, markFound, heq, Ssht.logs_modifySlot]
        exact Nat.le_succ _
      · rw [enterLock, markFound, heq]
        exact (length_logs_markSlot _ _ _).le
    | write => exact (length_logs_markSlot _ _ _).le

/-- A request makes at most one entry in the log of its sender. -/
theorem length_logs_tm2cHtInsert (cfg : Config) (s : Dsl E) (id addr : Nat) (rw : RW) :
    ((tm2cHtInsert cfg s id addr rw).2.ht.logs id).length ≤ (s.ht.logs id).length + 1 := by
  rw [tm2cHtInsert_eq]
  cases hinsertion : insertion cfg s.timestamp s.ht id addr rw with
  | refuse conflict => exact Nat.le_succ _
  | grant slot reason victims =>
    have hlogs : (victims.foldl (fun s v => abortDefender cfg s v reason) s).ht.logs id =
        s.ht.logs id := logs_foldl_abortDefender (requester_notMem_victims hinsertion) reason
    rw [← hlogs]
    exact length_logs_enterLock _ _ slot rw

end Log

end TM2C
