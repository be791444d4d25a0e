import TM2C.GreedyTimestamps
import TM2C.PhantomConflicts

/-!
# Early releases

`LOAD_RLS` and `STORE_FINISH` name an address, and `ssht_remove` looks for it in the
sender's log, where read and write locks look the same.  A node that has only the
other lock there, entered once, loses the log entry of that lock: the lock stays, and
its `RMV_NODE` does not find it.  Where that never happens an early release is exact.

The log of a node has an entry for each lock that it entered, and a pointer to its slot.
`ssht_remove` goes through the log, takes the first entry whose slot has the address, and lets go
of the lock that the message names; it does not see for which of the two locks the entry was
made.  `Kept` is what every message keeps as long as this does no harm: each address has one slot,
in its bucket, and the log of every node covers its locks.

`TouchesOnlyNamed` says what an early release should do, as a frame condition: the named lock of
the sender goes, and no other lock, of whomever, and the later `RMV_NODE` still deletes
everything.  It holds of the next early release if and only if that release spares the other lock,
in every state of a run whose earlier releases did; the run lemma for `Kept` carries all nine
kinds of messages.
-/

namespace TM2C

open RwEntry LawfulRwEntry Transition

/-- The lock that a release of the given kind does not name. -/
def RW.other : RW → RW
  | .read => .write
  | .write => .read

/-- The number of entries in the log of a node that point at slots of the address. -/
def Ssht.logged {E : Type} (t : Ssht E) (n a : Nat) : Nat :=
  (t.logs n).countP fun p => (t.slot? p).any fun sl => sl.addr == a

/-- A node that has only the other lock on the address entered it more than once. -/
def SparesOther {E : Type} [RwEntry E] (pgas : Bool) (t : Ssht E) (n a : Nat) (rw : RW) : Prop :=
  HoldsAs (t.lockMap pgas) a n rw.other →
    HoldsAs (t.lockMap pgas) a n rw ∨ 1 < t.logged n a

/-- An early release of the message spares the other lock. -/
def ReleasesNamed {E : Type} [RwEntry E] (cfg : Config) (s : Dsl E) : DslEvent → Prop
  | .message _ sender req => ∀ rw ∈ earlyKind req, SparesOther cfg.pgas s.ht sender req.address rw
  | .abortFlag _ _ => True

/-- Any message of a node; requests and early releases name an address. -/
def FromNode (bound : Nat) : DslEvent → Prop
  | .message _ sender req => sender < bound ∧ (req.type ≠ .rmvNode → req.address ≠ 0)
  | .abortFlag _ _ => True

instance (locks : LockMap Nat Nat) (a n : Nat) : (rw : RW) → Decidable (HoldsAs locks a n rw)
  | .read => inferInstanceAs (Decidable (locks.reader a n = true))
  | .write => inferInstanceAs (Decidable (locks.writer a = some n))

instance {E : Type} [RwEntry E] (cfg : Config) (s : Dsl E) :
    (e : DslEvent) → Decidable (ReleasesNamed cfg s e)
  | .message _ sender req =>
    inferInstanceAs (Decidable (∀ rw ∈ earlyKind req,
      (HoldsAs (s.ht.lockMap cfg.pgas) req.address sender rw.other →
        HoldsAs (s.ht.lockMap cfg.pgas) req.address sender rw ∨
          1 < s.ht.logged sender req.address)))
  | .abortFlag _ _ => inferInstanceAs (Decidable True)

instance (bound : Nat) : (e : DslEvent) → Decidable (FromNode bound e)
  | .message _ sender req =>
    inferInstanceAs (Decidable (sender < bound ∧ (req.type ≠ .rmvNode → req.address ≠ 0)))
  | .abortFlag _ _ => inferInstanceAs (Decidable True)

/-! ### Addresses stay in their places -/

section Placed

variable {E : Type} [LawfulRwEntry E] {pgas : Bool} {t : Ssht E} {n : Nat}

/-- The lock is in the entry. -/
def EntryHolds {E : Type} [RwEntry E] (e : E) (n : Nat) : RW → Prop
  | .read => isReader e n = true
  | .write => writer e = n

omit [LawfulRwEntry E] in
theorem bucketFind_modifySlot {f : Slot E → Slot E} {p : SlotPtr}
    (haddr : ∀ sl, t.slot? p = some sl → (f sl).addr = sl.addr) (bu a : Nat) :
    bucketFind ((t.modifySlot p f).bucket bu) a =
      (bucketFind (t.bucket bu) a).map fun r => (r.1, if (bu, r.1) = p then f r.2 else r.2) := by
  have hslots : ∀ i, ((t.modifySlot p f).bucket bu)[i]? =
      ((t.bucket bu)[i]?).map fun sl => if (bu, i) = p then f sl else sl := by
    intro i
    have hslot := Ssht.slot?_modifySlot t p (bu, i) f
    change ((t.modifySlot p f).bucket bu)[i]? = _ at hslot
    rw [hslot]
    by_cases hp : (bu, i) = p
    · simp only [if_pos hp]
      rfl
    · simp only [if_neg hp]
      exact Option.map_id'.symm
  have hmap : ((t.modifySlot p f).bucket bu).map Slot.addr = (t.bucket bu).map Slot.addr := by
    apply List.ext_getElem?
    intro i
    rw [List.getElem?_map, List.getElem?_map, hslots, Option.map_map]
    cases hsl : (t.bucket bu)[i]? with
    | none => rfl
    | some sl =>
      simp only [Option.map_some, Function.comp_apply, Option.some.injEq]
      by_cases hp : (bu, i) = p
      · rw [if_pos hp]
        exact haddr sl (hp ▸ hsl)
      · rw [if_neg hp]
  have hfind : ∀ chain : List (Slot E), (chain.findIdx? fun sl => sl.addr == a) =
      (chain.map Slot.addr).findIdx? fun b => b == a := by
    intro chain
    rw [List.findIdx?_map]
    rfl
  unfold bucketFind
  rw [hfind, hmap, ← hfind]
  cases (t.bucket bu).findIdx? fun sl => sl.addr == a with
  | none => rfl
  | some i =>
    simp only [Option.bind_some, hslots, Option.map_map]
    cases (t.bucket bu)[i]? <;> rfl

omit [LawfulRwEntry E] in
theorem Placed.modifySlot (h : Placed pgas t) {f : Slot E → Slot E} {p : SlotPtr}
    (haddr : ∀ sl, t.slot? p = some sl → (f sl).addr = sl.addr) :
    Placed pgas (t.modifySlot p f) := by
  have hslot : ∀ q sl', (t.modifySlot p f).slot? q = some sl' →
      ∃ sl, t.slot? q = some sl ∧ sl'.addr = sl.addr := by
    intro q sl' hq
    rcases Ssht.of_slot?_modifySlot hq with hold | ⟨sl, rfl, hold, rfl⟩
    · exact ⟨sl', hold, rfl⟩
    · exact ⟨sl, hold, haddr sl hold⟩
  refine ⟨?_, ?_⟩
  · intro q sl' hq hne
    obtain ⟨sl, hold, heq⟩ := hslot q sl' hq
    rw [heq] at hne ⊢
    exact h.home q sl hold hne
  · intro q r sl₁ sl₂ hq hr hne heq
    obtain ⟨sl₁', hold₁, heq₁⟩ := hslot q sl₁ hq
    obtain ⟨sl₂', hold₂, heq₂⟩ := hslot r sl₂ hr
    exact h.unique q r sl₁' sl₂' hold₁ hold₂ (heq₁ ▸ hne) (heq₁ ▸ heq₂ ▸ heq)

omit [LawfulRwEntry E] in
/-- An early release leaves the address in the slot. -/
theorem addr_removeMark [RwEntry E] (id : Nat) (rw : RW) (sl : Slot E) :
    (removeMark id rw sl).addr = sl.addr := by
  cases rw with
  | read => rfl
  | write =>
    simp only [removeMark]
    split <;> rfl

/-- The slot of an address shows its locks. -/
theorem Placed.holdsAs_iff (h : Placed pgas t) {p : SlotPtr} {sl : Slot E}
    (hp : t.slot? p = some sl) (hne : sl.addr ≠ 0) (hn : n < idBound E) (k : RW) :
    HoldsAs (t.lockMap pgas) sl.addr n k ↔ EntryHolds sl.entry n k := by
  have hfind : ∃ i, bucketFind (t.bucket (bucketOf pgas sl.addr)) sl.addr = some (i, sl) := by
    cases hr : bucketFind (t.bucket (bucketOf pgas sl.addr)) sl.addr with
    | none => exact absurd rfl (h.not_found hne hr hp)
    | some r =>
      obtain ⟨i, sl'⟩ := r
      obtain ⟨hslot, haddr⟩ := bucketFind_eq_some hr
      have hslot' : t.slot? (bucketOf pgas sl.addr, i) = some sl' := hslot
      have hq := h.unique p (bucketOf pgas sl.addr, i) sl sl' hp hslot' hne haddr.symm
      rw [← hq, hp, Option.some.injEq] at hslot'
      exact ⟨i, by rw [hslot']⟩
  obtain ⟨i, hfind⟩ := hfind
  obtain ⟨hwriter, hreader⟩ := Ssht.lockMap_of_found hfind
  cases k with
  | read => simp only [HoldsAs, hreader, EntryHolds]
  | write =>
    simp only [HoldsAs, hwriter, entryWriter_eq_some, EntryHolds]
    exact and_iff_left (ne_noWriter hn)

omit [LawfulRwEntry E] in
/-- A lock of the map is in a slot. -/
theorem exists_slot_of_holdsAs [RwEntry E] {a : Nat} {k : RW}
    (h : HoldsAs (t.lockMap pgas) a n k) :
    ∃ p sl, t.slot? p = some sl ∧ sl.addr = a ∧ EntryHolds sl.entry n k := by
  cases k with
  | read =>
    obtain ⟨⟨i, sl⟩, hfind, hread⟩ := (Option.any_eq_true _ _).mp h
    obtain ⟨hslot, haddr⟩ := bucketFind_eq_some hfind
    exact ⟨(bucketOf pgas a, i), sl, hslot, haddr, hread⟩
  | write =>
    obtain ⟨⟨i, sl⟩, hfind, hwriter⟩ := Option.bind_eq_some_iff.mp h
    obtain ⟨hslot, haddr⟩ := bucketFind_eq_some hfind
    exact ⟨(bucketOf pgas a, i), sl, hslot, haddr, (entryWriter_eq_some.mp hwriter).1⟩

theorem EntryHolds.pos {e : E} {k : RW} (h : EntryHolds e n k) : 0 < entryLocks e n := by
  cases k with
  | read => exact entryLocks_pos_iff.mpr (Or.inl h)
  | write => exact entryLocks_pos_iff.mpr (Or.inr h)

/-- A node that the table does not mention holds nothing. -/
theorem Absent.not_holdsAs (h : Absent t n) (a : Nat) (k : RW) :
    ¬ HoldsAs (t.lockMap pgas) a n k := by
  intro hholds
  obtain ⟨p, sl, hslot, -, hentry⟩ := exists_slot_of_holdsAs hholds
  have hzero := h.locks p
  rw [Ssht.lockCount_of_slot hslot] at hzero
  exact absurd hentry.pos (by omega)

/-- Deleting a node leaves the slot of an address usable for that address, whatever the
counters say. -/
theorem SlotFor.deleted {p : SlotPtr} {sl : Slot E} {addr : Nat}
    (hfor : SlotFor pgas t p sl addr) (hn : n < idBound E) :
    ∃ sl', SlotFor pgas (tm2cHtDeleteNode t n) p sl' addr := by
  have hslot : (tm2cHtDeleteNode t n).slot? p =
      some ((sshtBucketRemoveIndex n)^[(t.logs n).count p] sl) := by
    rw [slot?_deleteNode, hfor.slot]
    rfl
  refine ⟨_, hslot, hfor.addr_ne, hfor.home, ?_, ?_⟩
  · rcases (stripped_iterate hn sl ((t.logs n).count p)).addr with haddr | hzero
    · rw [haddr]
      exact hfor.addr_eq
    · exact Or.inl hzero
  · intro q sl'' hq hqaddr
    obtain ⟨sl₀, hold, hstripped⟩ := stripped_deleteNode hn hq
    have hne : sl''.addr ≠ 0 := hqaddr ▸ hfor.addr_ne
    exact hfor.only q sl₀ hold (hstripped.addr_of_ne hne ▸ hqaddr)

theorem Placed.deleteNodes (h : Placed pgas t) {vs : List Nat} (hvs : ∀ v ∈ vs, v < idBound E) :
    Placed pgas (TM2C.deleteNodes t vs) := by
  induction vs generalizing t with
  | nil => exact h
  | cons v vs ih =>
    exact ih (h.deleteNode (hvs v List.mem_cons_self)) fun w hw => hvs w (List.mem_cons_of_mem v hw)

theorem SlotFor.deletedNodes {p : SlotPtr} {sl : Slot E} {addr : Nat}
    (hfor : SlotFor pgas t p sl addr) {vs : List Nat} (hvs : ∀ v ∈ vs, v < idBound E) :
    ∃ sl', SlotFor pgas (TM2C.deleteNodes t vs) p sl' addr := by
  induction vs generalizing t sl with
  | nil => exact ⟨sl, hfor⟩
  | cons v vs ih =>
    obtain ⟨sl', hfor'⟩ := hfor.deleted (hvs v List.mem_cons_self)
    exact ih hfor' fun w hw => hvs w (List.mem_cons_of_mem v hw)

omit [LawfulRwEntry E] in
theorem Placed.markFound [RwEntry E] (h : Placed pgas t) {p : SlotPtr} {sl : Slot E} {addr : Nat}
    (hfor : SlotFor pgas t p sl addr) (id : Nat) (rw : RW) :
    Placed pgas (TM2C.markFound t p id addr rw) := by
  cases rw with
  | write => exact h.enter hfor rfl id
  | read =>
    simp only [TM2C.markFound, markReaderFound, hfor.slot]
    cases addReaderFound sl.entry id with
    | none =>
      have hentered := h.enter hfor (f := fun sl => { sl with addr := addr }) rfl id
      exact ⟨hentered.home, hentered.unique⟩
    | some e => exact h.enter hfor (f := fun _ => ⟨addr, e⟩) rfl id

end Placed

/-! ### What every message keeps -/

section Kept

variable {E : Type} [LawfulRwEntry E] {cfg : Config} {n sender : Nat}

/-- Addresses are in their places, and the logs cover the locks. -/
structure Kept (pgas : Bool) (t : Ssht E) : Prop extends Placed pgas t where
  tidy : ∀ n, n < idBound E → Tidy n t

/-- A lock is entered in the slot that was found or in a new one; nobody is aborted for
a new one. -/
theorem insertion_slot {s : Dsl E} {id addr : Nat} {rw : RW} {slot : Option SlotPtr}
    {reason : Conflict} {victims : List Nat}
    (h : insertion cfg s.timestamp s.ht id addr rw = .grant slot reason victims) :
    (slot = none ∧ victims = [] ∧
      bucketFind (s.ht.bucket (bucketOf cfg.pgas addr)) addr = none) ∨
    ∃ i sl, slot = some (bucketOf cfg.pgas addr, i) ∧
      bucketFind (s.ht.bucket (bucketOf cfg.pgas addr)) addr = some (i, sl) := by
  cases hfind : bucketFind (s.ht.bucket (bucketOf cfg.pgas addr)) addr with
  | none =>
    left
    cases rw <;> simp only [insertion, insertionR, insertionW, hfind] at h <;> cases h <;>
      exact ⟨rfl, rfl, rfl⟩
  | some r =>
    obtain ⟨i, sl⟩ := r
    right
    refine ⟨i, sl, ?_, rfl⟩
    have hattack : ∀ w c, attackSlotWriter cfg s.timestamp (bucketOf cfg.pgas addr, i) id w c =
        .grant slot reason victims → slot = some (bucketOf cfg.pgas addr, i) := by
      intro w c hattack
      unfold attackSlotWriter at hattack
      split at hattack <;> cases hattack
      rfl
    cases rw with
    | read =>
      simp only [insertion, insertionR, hfind] at h
      split at h
      · exact hattack _ _ h
      · cases h
        rfl
    | write =>
      simp only [insertion, insertionW, hfind] at h
      split at h
      · exact hattack _ _ h
      · split at h
        · split at h <;> cases h
          rfl
        · cases h
          rfl

theorem placed_tm2cHtInsert {s : Dsl E} (h : Placed cfg.pgas s.ht) (htidy : Tidy n s.ht)
    {id addr : Nat} (haddr : addr ≠ 0) (rw : RW) :
    Placed cfg.pgas (tm2cHtInsert cfg s id addr rw).2.ht := by
  rw [tm2cHtInsert_eq]
  cases hins : insertion cfg s.timestamp s.ht id addr rw with
  | refuse conflict => exact h
  | grant slot reason victims =>
    simp only [Insertion.carryOut, ht_abortDefenders]
    rcases insertion_slot hins with ⟨rfl, rfl, hfind⟩ | ⟨i, sl, rfl, hfind⟩
    · have habort : abortedTable cfg s.ht [] = s.ht := by
        unfold abortedTable
        split <;> rfl
      rw [habort]
      obtain ⟨sl, -, hfor⟩ := h.slotFor_alloc haddr hfind
      cases rw with
      | read => exact (h.bucketAlloc _).enter hfor rfl id
      | write => exact (h.bucketAlloc _).enter hfor rfl id
    · have hfor := h.slotFor_found haddr hfind
      unfold abortedTable
      split
      · exact h.markFound hfor id rw
      · have hvictims : ∀ v ∈ victims, v < idBound E :=
          fun v hv => victim_lt_idBound htidy hins hv
        obtain ⟨sl', hfor'⟩ := hfor.deletedNodes hvictims
        exact (h.deleteNodes hvictims).markFound hfor' id rw

/-- The slots after an early release. -/
theorem placed_delete {pgas : Bool} {t : Ssht E} (h : Placed pgas t) (id addr : Nat) (rw : RW) :
    Placed pgas (tm2cHtDelete t id addr rw) := by
  rcases sshtRemove_eq t id addr rw with ⟨-, heq⟩ | ⟨j, p, sl, -, -, -, heq⟩
  · rwa [heq]
  · rw [heq]
    have hplaced : Placed pgas (t.modifySlot p (removeMark id rw)) :=
      h.modifySlot fun sl _ => addr_removeMark id rw sl
    exact ⟨hplaced.home, hplaced.unique⟩

theorem placed_dslService (hs : sender < idBound E) (now : Nat) {s : Dsl E}
    (h : Placed cfg.pgas s.ht) (htidy : Tidy sender s.ht) {req : Req}
    (haddr : req.type ≠ .rmvNode → req.address ≠ 0) :
    Placed cfg.pgas (dslService cfg now s sender req).1.ht := by
  change Placed cfg.pgas (dslSwitch cfg (stamped cfg now s sender req) sender req).1.ht
  cases hkind : requestKind cfg req with
  | some rw =>
    have hne : req.address ≠ 0 := by
      apply haddr
      intro hrmv
      simp [requestKind, hrmv] at hkind
    have hinsert : Placed cfg.pgas
        (tm2cHtInsert cfg (stamped cfg now s sender req) sender req.address rw).2.ht :=
      placed_tm2cHtInsert (s := stamped cfg now s sender req) h htidy hne rw
    obtain ⟨reply, -, -, hno, hok⟩ :=
      dslSwitch_insert cfg (stamped cfg now s sender req) sender (requestKind_cases hkind)
    by_cases hreply : reply.response = .noConflict
    · rwa [hok hreply]
    · rw [hno hreply]
      exact hinsert.deleteNode hs
  | none =>
    cases hearly : earlyKind req with
    | some rw =>
      rw [ht_dslSwitch_early hearly]
      exact placed_delete h sender req.address rw
    | none =>
      by_cases hrmv : req.type = .rmvNode
      · simp only [dslSwitch, hrmv, ht_handleRmvNode]
        exact Placed.deleteNode h hs
      · rwa [ht_dslSwitch_of_none hkind hearly hrmv]

/-- The locks of a node that are left in a slot after its early release. -/
theorem entryLocks_removeMark_le (hn : n < idBound E) (rw : RW) (sl : Slot E) :
    entryLocks (removeMark n rw sl).entry n ≤ entryLocks sl.entry n := by
  cases rw with
  | read =>
    simp [removeMark, entryLocks, isReader_dropReader hn, writer_dropReader]
  | write =>
    simp only [removeMark]
    split
    · simp [entryLocks, isReader_setWriter, writer_setWriter_noWriter, Ne.symm (ne_noWriter hn)]
    · exact Nat.le_refl _

omit [LawfulRwEntry E] in
/-- A node's log entries for an address are those for its slot. -/
theorem logged_eq_count {pgas : Bool} {t : Ssht E} (h : Placed pgas t) {p : SlotPtr} {sl : Slot E}
    (hp : t.slot? p = some sl) (hne : sl.addr ≠ 0) (n : Nat) :
    t.logged n sl.addr = (t.logs n).count p := by
  unfold Ssht.logged
  rw [List.count_eq_countP]
  apply List.countP_congr
  intro q _
  rw [Option.any_eq_true, beq_iff_eq]
  constructor
  · rintro ⟨sl', hq, haddr⟩
    exact (h.unique p q sl sl' hp hq hne (beq_iff_eq.mp haddr).symm).symm
  · rintro rfl
    exact ⟨sl, hp, beq_self_eq_true _⟩

/-- An early release that spares the other lock keeps the sender's log in order. -/
theorem tidy_delete (hn : n < idBound E) {pgas : Bool} {t : Ssht E} (h : Kept pgas t)
    {addr : Nat} (haddr : addr ≠ 0) {rw : RW} (hspares : SparesOther pgas t n addr rw) :
    Tidy n (tm2cHtDelete t n addr rw) := by
  have htidy := h.tidy n hn
  apply tidy_delete_of hn htidy
  rintro p sl hp hslot rfl
  have hlogged : 0 < (t.logs n).count p := List.count_pos_iff.mpr hp
  have hcovered := htidy.covered p
  rw [Ssht.lockCount_of_slot hslot] at hcovered
  have hholds := fun k => h.holdsAs_iff hslot haddr hn k
  have hle := entryLocks_removeMark_le hn rw sl
  by_cases hnamed : EntryHolds sl.entry n rw
  · have hless : entryLocks (removeMark n rw sl).entry n ≤ entryLocks sl.entry n - 1 := by
      apply entryLocks_removeMark hn
      intro _
      cases rw <;> exact hnamed
    omega
  · by_cases hother : EntryHolds sl.entry n rw.other
    · have hmany := (hspares ((hholds _).mpr hother)).resolve_left (mt (hholds _).mp hnamed)
      rw [logged_eq_count h.toPlaced hslot haddr] at hmany
      have hone : entryLocks sl.entry n ≤ 1 := by
        cases rw with
        | read =>
          have hread : isReader sl.entry n = false := by simpa [EntryHolds] using hnamed
          simp only [entryLocks, hread, Bool.toNat_false, Nat.zero_add]
          exact Bool.toNat_le _
        | write =>
          have hwriter : writer sl.entry ≠ n := hnamed
          simp only [entryLocks, hwriter, decide_false, Bool.toNat_false, Nat.add_zero]
          exact Bool.toNat_le _
      omega
    · have hnone : entryLocks sl.entry n = 0 := by
        rw [entryLocks_eq_zero_iff]
        cases rw with
        | read => exact ⟨by simpa [EntryHolds] using hnamed, hother⟩
        | write => exact ⟨by simpa [EntryHolds, RW.other] using hother, hnamed⟩
      omega

/-- **The step.** -/
theorem Kept.step {s : Dsl E} (h : Kept cfg.pgas s.ht) {e : DslEvent}
    (hfrom : FromNode (idBound E) e) (hnamed : ReleasesNamed cfg s e) :
    Kept cfg.pgas (dslStep cfg s e).1.ht := by
  cases e with
  | abortFlag node flag => exact ⟨h.toPlaced, h.tidy⟩
  | message now sender req =>
    obtain ⟨hs, haddr⟩ := hfrom
    refine ⟨placed_dslService hs now h.toPlaced (h.tidy sender hs) haddr, ?_⟩
    intro n hn
    by_cases hself : sender = n
    · subst hself
      cases hearly : earlyKind req with
      | some rw =>
        have hne : req.address ≠ 0 := by
          apply haddr
          intro hrmv
          simp [earlyKind, hrmv] at hearly
        have hht : (dslStep cfg s (.message now sender req)).1.ht =
            tm2cHtDelete s.ht sender req.address rw := ht_dslSwitch_early hearly
        rw [hht]
        exact tidy_delete hs h hne (hnamed rw hearly)
      | none =>
        apply (spares_dslService cfg hs hs now s _).tidy (h.tidy sender hs)
        intro _
        constructor
        · intro htype
          simp [earlyKind, htype] at hearly
        · intro htype
          simp [earlyKind, htype] at hearly
    · exact (spares_dslService cfg hn hs now s fun heq => absurd heq hself).tidy (h.tidy n hn)

theorem kept_init : Kept cfg.pgas (dslInit : Dsl E).ht where
  toPlaced := placed_sshtNew cfg.pgas
  tidy _ hn := tidy_sshtNew hn

/-- The steps of a service node whose early releases spare the other locks. -/
def namedStep (cfg : Config) : Dsl E → DslEvent → Dsl E → Prop :=
  restrict (ReleasesNamed cfg) (graph fun s e => (dslStep cfg s e).1)

theorem Kept.run {es : List DslEvent} {s t : Dsl E} (hes : ∀ e ∈ es, FromNode (idBound E) e)
    (hexec : Exec (namedStep cfg) s es t) (h : Kept cfg.pgas s.ht) : Kept cfg.pgas t.ht := by
  refine (hexec.restrict_of_forall hes).invariant (fun s => Kept cfg.pgas s.ht) ?_ h
  rintro s e t hs ⟨hfrom, hnamed, rfl⟩
  exact hs.step hfrom hnamed

end Kept

/-! ### The named lock and no other -/

section Named

variable {E : Type} [LawfulRwEntry E] {cfg : Config} {n : Nat}

/-- The early release removes the named lock and no other lock of anybody; and what the
sender still has goes with its `RMV_NODE`, whatever comes in between. -/
structure TouchesOnlyNamed {E : Type} [LawfulRwEntry E] (cfg : Config) (s : Dsl E) (now n : Nat)
    (req : Req) (rw : RW) : Prop where
  removed : ¬ HoldsAs ((dslService cfg now s n req).1.ht.lockMap cfg.pgas) req.address n rw
  frame : ∀ b m k, (b, m, k) ≠ (req.address, n, rw) →
    (HoldsAs ((dslService cfg now s n req).1.ht.lockMap cfg.pgas) b m k ↔
      HoldsAs (s.ht.lockMap cfg.pgas) b m k)
  later : ∀ es t, (∀ e ∈ es, FromNode (idBound E) e) →
    Exec (namedStep cfg) (dslService cfg now s n req).1 es t →
    ∀ now' rmv, rmv.type = .rmvNode → ∀ b k,
      ¬ HoldsAs ((dslService cfg now' t n rmv).1.ht.lockMap cfg.pgas) b n k

/-- What `ssht_remove` does to the locks of the slot it finds. -/
theorem entryHolds_removeMark (hn : n < idBound E) (rw : RW) (sl : Slot E) {m : Nat} {k : RW}
    (hm : m = SSHT_NO_WRITER → k ≠ .write) :
    EntryHolds (removeMark n rw sl).entry m k ↔
      EntryHolds sl.entry m k ∧ ¬ (m = n ∧ k = rw) := by
  cases rw with
  | read =>
    cases k with
    | read => simp [removeMark, EntryHolds, isReader_dropReader hn, and_comm]
    | write => simp [removeMark, EntryHolds, writer_dropReader]
  | write =>
    simp only [removeMark]
    cases k with
    | read =>
      split <;> simp [EntryHolds, isReader_setWriter]
    | write =>
      have hne : SSHT_NO_WRITER ≠ m := fun heq => hm heq.symm rfl
      by_cases hw : writer sl.entry = n
      · simp only [if_pos hw, EntryHolds, writer_setWriter_noWriter, hne, false_iff, not_and,
          not_not, and_true]
        intro hwm
        exact hwm.symm.trans hw
      · simp only [if_neg hw, EntryHolds, and_true]
        constructor
        · intro hwm
          exact ⟨hwm, fun heq => hw (hwm.trans heq)⟩
        · exact And.left

/-- The lock map after the slot of an address was changed by an early release. -/
theorem holdsAs_modifySlot {pgas : Bool} {t : Ssht E} (h : Placed pgas t) (hn : n < idBound E)
    {p : SlotPtr} {sl : Slot E} (hp : t.slot? p = some sl) (hne : sl.addr ≠ 0) (rw : RW)
    (b m : Nat) (k : RW) :
    HoldsAs ((t.modifySlot p (removeMark n rw)).lockMap pgas) b m k ↔
      HoldsAs (t.lockMap pgas) b m k ∧ (b, m, k) ≠ (sl.addr, n, rw) := by
  have haddr : ∀ sl', t.slot? p = some sl' → (removeMark n rw sl').addr = sl'.addr :=
    fun sl' _ => addr_removeMark n rw sl'
  have hfind := bucketFind_modifySlot haddr (bucketOf pgas b) b
  cases hr : bucketFind (t.bucket (bucketOf pgas b)) b with
  | none =>
    rw [hr, Option.map_none] at hfind
    cases k <;> simp [HoldsAs, Ssht.lockMap, hr, hfind]
  | some r =>
    obtain ⟨i, sl'⟩ := r
    obtain ⟨hslot, hb⟩ := bucketFind_eq_some hr
    have hslot' : t.slot? (bucketOf pgas b, i) = some sl' := hslot
    simp only [hr, Option.map_some] at hfind
    by_cases hq : (bucketOf pgas b, i) = p
    · rw [hq, hp, Option.some.injEq] at hslot'
      subst hslot'
      rw [if_pos hq] at hfind
      cases k with
      | read =>
        have hiff := entryHolds_removeMark (m := m) (k := .read) hn rw sl (fun _ => by decide)
        simp only [EntryHolds] at hiff
        simp only [HoldsAs, Ssht.lockMap, hr, hfind, Option.any_some, hiff, hb, ne_eq,
          Prod.mk.injEq, true_and]
      | write =>
        simp only [HoldsAs, Ssht.lockMap, hr, hfind, Option.bind_some, entryWriter_eq_some]
        by_cases hm : m = SSHT_NO_WRITER
        · simp [hm]
        · have hiff := entryHolds_removeMark (m := m) (k := .write) hn rw sl
            (fun heq => absurd heq hm)
          simp only [EntryHolds] at hiff
          simp only [hiff, hb, ne_eq, Prod.mk.injEq, true_and, hm, not_false_eq_true, and_true]
    · rw [if_neg hq] at hfind
      have hother : b ≠ sl.addr := by
        intro heq
        exact hq (h.unique _ p sl' sl hslot' hp (by rw [hb, heq]; exact hne) (hb.trans heq))
      cases k <;> simp [HoldsAs, Ssht.lockMap, hr, hfind, hother]

/-- The lock map after an early release that finds the locks in the log. -/
theorem holdsAs_delete {pgas : Bool} {t : Ssht E} (h : Kept pgas t) (hn : n < idBound E)
    {addr : Nat} (hne : addr ≠ 0) (rw : RW) (b m : Nat) (k : RW) :
    HoldsAs ((tm2cHtDelete t n addr rw).lockMap pgas) b m k ↔
      HoldsAs (t.lockMap pgas) b m k ∧ (b, m, k) ≠ (addr, n, rw) := by
  rcases sshtRemove_eq t n addr rw with ⟨hnone, heq⟩ | ⟨j, p, sl, hj, hslot, rfl, heq⟩
  · -- the log covers the locks: there is none on the address
    rw [heq]
    refine ⟨fun hholds => ⟨hholds, ?_⟩, And.left⟩
    rintro ⟨⟩
    obtain ⟨p, sl, hslot, haddr, hentry⟩ := exists_slot_of_holdsAs hholds
    have hcovered := (h.tidy n hn).covered p
    rw [Ssht.lockCount_of_slot hslot] at hcovered
    have hlogged : p ∈ t.logs n :=
      List.count_pos_iff.mp (Nat.lt_of_lt_of_le hentry.pos hcovered)
    exact hnone p hlogged sl hslot haddr
  · rw [heq]
    exact holdsAs_modifySlot h.toPlaced hn hslot hne rw b m k

/-- The log entry of the only lock, which is the other one, is dropped, and the lock is
out of the reach of a `RMV_NODE`. -/
theorem stranded {pgas : Bool} {t : Ssht E} (h : Kept pgas t) (hn : n < idBound E)
    {addr : Nat} (hne : addr ≠ 0) {rw : RW} (hspares : ¬ SparesOther pgas t n addr rw) :
    HoldsAs ((tm2cHtDeleteNode (tm2cHtDelete t n addr rw) n).lockMap pgas) addr n rw.other := by
  unfold SparesOther at hspares
  push Not at hspares
  obtain ⟨hother, hnamed, honce⟩ := hspares
  have hplaced := (placed_delete h.toPlaced n addr rw).deleteNode hn
  obtain ⟨p, sl, hslot, rfl, hentry⟩ := exists_slot_of_holdsAs hother
  have hcovered := (h.tidy n hn).covered p
  have hpos := hentry.pos
  rw [Ssht.lockCount_of_slot hslot] at hcovered
  rw [logged_eq_count h.toPlaced hslot hne] at honce
  have hmem : p ∈ t.logs n := List.count_pos_iff.mp (by omega)
  rcases sshtRemove_eq t n sl.addr rw with ⟨hnone, -⟩ | ⟨j, q, sl', hj, hq, haddr, heq⟩
  · exact absurd rfl (hnone p hmem sl hslot)
  · have hqp : q = p := h.unique q p sl' sl hq hslot (haddr ▸ hne) haddr
    subst hqp
    have hcount := count_sshtLogSetRemove hj q
    rw [if_pos rfl] at hcount
    have hslot' : (tm2cHtDeleteNode (tm2cHtDelete t n sl.addr rw) n).slot? q =
        some (removeMark n rw sl) := by
      have hlog : ((tm2cHtDelete t n sl.addr rw).logs n).count q = 0 := by
        rw [heq]
        simp only [Function.update_self]
        omega
      have hmodified : (tm2cHtDelete t n sl.addr rw).slot? q = some (removeMark n rw sl) := by
        rw [heq]
        exact Ssht.slot?_modifySlot_self hslot _
      rw [slot?_deleteNode, hlog, hmodified]
      rfl
    have haddr' := addr_removeMark n rw sl
    have hkept := (entryHolds_removeMark hn rw sl (fun heq _ => ne_noWriter hn heq)).mpr
      ⟨hentry, fun hc => by cases rw <;> cases hc.2⟩
    have hiff := hplaced.holdsAs_iff hslot' (haddr' ▸ hne) hn rw.other
    rw [haddr'] at hiff
    exact hiff.mpr hkept

/-- **Early releases.**  In every state of a run in which early releases spare the other
lock of their sender, an early release touches the lock it names and no other, if and
only if it spares the other lock, too. -/
theorem touchesOnlyNamed_iff (cfg : Config) (es : List DslEvent) (s : Dsl E)
    (hes : ∀ e ∈ es, FromNode (idBound E) e) (hexec : Exec (namedStep cfg) dslInit es s)
    (now n : Nat) (hn : n < idBound E) (req : Req) (rw : RW) (hearly : earlyKind req = some rw)
    (haddr : req.address ≠ 0) :
    TouchesOnlyNamed cfg s now n req rw ↔ SparesOther cfg.pgas s.ht n req.address rw := by
  have hkept : Kept cfg.pgas s.ht := Kept.run hes hexec kept_init
  have hht : (dslService cfg now s n req).1.ht = tm2cHtDelete s.ht n req.address rw :=
    ht_dslSwitch_early hearly
  constructor
  · intro htouches
    by_contra hspares
    have hstranded := stranded hkept hn haddr hspares
    have hgone := htouches.later [] _ (fun e he => by cases he) (Exec.nil _) now
      { type := .rmvNode, address := 0 } rfl req.address rw.other
    apply hgone
    simp only [dslService, dslSwitch, ht_handleRmvNode]
    rw [← hht] at hstranded
    exact hstranded
  · intro hspares
    have hholds := holdsAs_delete hkept hn haddr rw
    refine ⟨?_, ?_, ?_⟩
    · rw [hht, hholds]
      exact fun hc => hc.2 rfl
    · intro b m k hne
      rw [hht, hholds]
      exact and_iff_left hne
    · intro fs t hfs hexec' now' rmv hrmv b k
      have hfrom : FromNode (idBound E) (.message now n req) := ⟨hn, fun _ => haddr⟩
      have hnamed : ReleasesNamed cfg s (.message now n req) := by
        intro rw' hrw'
        obtain rfl := Option.some.inj (hearly.symm.trans hrw')
        exact hspares
      have hafter : Kept cfg.pgas t.ht := Kept.run hfs hexec' (hkept.step hfrom hnamed)
      exact (absent_rmvNode cfg hn now' (hafter.tidy n hn) hrmv).not_holdsAs b k

end Named

/-- Node 1 upgrades and releases both locks early; node 2 reads, and releases what it never
had. -/
def earlyRun : List DslEvent :=
  [.message 0 1 { type := .load, address := 64 },
   .message 0 1 { type := .store, address := 64 },
   .message 0 1 { type := .storeFinish, address := 64 },
   .message 0 2 { type := .load, address := 64 },
   .message 0 1 { type := .loadRls, address := 64 },
   .message 0 2 { type := .loadRls, address := 72 }]

def earlyConfig : Config := ⟨.nocm, false, false, 4⟩

/-- Node 2 releases its read lock, and STORE_FINISH from it would strand that lock. -/
theorem touchesOnlyNamed_iff_earlyRun :
    TouchesOnlyNamed earlyConfig (earlyRun.foldl (fun s e => (dslStep earlyConfig s e).1)
      (dslInit : Dsl ByteEntry)) 0 2 { type := .loadRls, address := 64 } .read ∧
    ¬ TouchesOnlyNamed earlyConfig (earlyRun.foldl (fun s e => (dslStep earlyConfig s e).1)
      (dslInit : Dsl BitEntry)) 0 2 { type := .storeFinish, address := 64 } .write := by
  have hbyte : Exec (namedStep earlyConfig) (dslInit : Dsl ByteEntry) earlyRun
      (earlyRun.foldl (fun s e => (dslStep earlyConfig s e).1) dslInit) :=
    Exec.cons ⟨by decide +kernel, rfl⟩ (Exec.cons ⟨by decide +kernel, rfl⟩
      (Exec.cons ⟨by decide +kernel, rfl⟩ (Exec.cons ⟨by decide +kernel, rfl⟩
        (Exec.cons ⟨by decide +kernel, rfl⟩ (Exec.cons ⟨by decide +kernel, rfl⟩
          (Exec.nil _))))))
  have hbit : Exec (namedStep earlyConfig) (dslInit : Dsl BitEntry) earlyRun
      (earlyRun.foldl (fun s e => (dslStep earlyConfig s e).1) dslInit) :=
    Exec.cons ⟨by decide +kernel, rfl⟩ (Exec.cons ⟨by decide +kernel, rfl⟩
      (Exec.cons ⟨by decide +kernel, rfl⟩ (Exec.cons ⟨by decide +kernel, rfl⟩
        (Exec.cons ⟨by decide +kernel, rfl⟩ (Exec.cons ⟨by decide +kernel, rfl⟩
          (Exec.nil _))))))
  constructor
  · refine (touchesOnlyNamed_iff earlyConfig earlyRun _ (by decide) hbyte 0 2 (by decide) _ _ rfl
      (by decide)).mpr ?_
    unfold SparesOther
    decide +kernel
  · refine mt (touchesOnlyNamed_iff earlyConfig earlyRun _ (by decide) hbit 0 2 (by decide) _ _ rfl
      (by decide)).mp ?_
    unfold SparesOther
    decide +kernel

def loadedOnce : List DslEvent := [.message 0 1 { type := .load, address := 64 }]

/-- STORE_FINISH from a node that only reads the address drops the log entry of its read
lock, and no RMV_NODE removes that lock any more. -/
theorem early_release_strands_other_lock :
    ¬ TouchesOnlyNamed earlyConfig (loadedOnce.foldl (fun s e => (dslStep earlyConfig s e).1)
      (dslInit : Dsl ByteEntry)) 0 1 { type := .storeFinish, address := 64 } .write ∧
    ¬ TouchesOnlyNamed earlyConfig (loadedOnce.foldl (fun s e => (dslStep earlyConfig s e).1)
      (dslInit : Dsl BitEntry)) 0 1 { type := .storeFinish, address := 64 } .write := by
  constructor
  · intro h
    have hgone := h.later [] _ (fun e he => by cases he) (Exec.nil _) 0
      { type := .rmvNode, address := 0 } rfl 64 .read
    revert hgone
    decide +kernel
  · intro h
    have hgone := h.later [] _ (fun e he => by cases he) (Exec.nil _) 0
      { type := .rmvNode, address := 0 } rfl 64 .read
    revert hgone
    decide +kernel

end TM2C
