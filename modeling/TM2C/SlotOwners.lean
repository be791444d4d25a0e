import Mathlib.Data.Finset.Card
import TM2C.EarlyRelease

/-!
# Occupied slots have owners

A slot is freed by `ssht_bucket_remove_index` when its entry becomes empty;
`ssht_remove` empties an entry and leaves the address in the slot.  As long as no
early release takes the last lock of an address (and no counter of the byte array
goes wrong) a slot with an address has an owner, and a chain grows with the number of
addresses that are locked at the same time.

`OwnedTable` joins what the earlier modules say of tables in such runs (`Kept`, and `Traced` with
some list of grants) to the statement on owners.  A slot gets an owner with its address, when a
lock is entered.  It loses an owner when a lock goes: the deletion of a node frees the slots that
it leaves empty, and an early release does not, so `KeepsOwners` asks of the message that another
lock is left on the address.

A chain gets another group of slots only when no slot of it is free (`ChainsGrow`).  At that
moment all its slots have addresses, all of them have owners, and the addresses are different, so
their number is bounded by the number of addresses that are locked at one time.  The bound on the
length of the chain follows along the run, and the exactness of the condition is about the next
early release.
-/

namespace TM2C

open RwEntry LawfulRwEntry Transition

/-- The entry has a writer or a reader. -/
def Owned {E : Type} [RwEntry E] (e : E) : Prop :=
  writer e ≠ SSHT_NO_WRITER ∨ ∃ m, isReader e m = true

/-- Every slot with an address has an owner. -/
def SlotsOwned {E : Type} [RwEntry E] (t : Ssht E) : Prop :=
  ∀ p sl, t.slot? p = some sl → sl.addr ≠ 0 → Owned sl.entry

/-- No set of addresses that are locked at the same time has more than `M` members. -/
def LockedAtMost (locks : LockMap Nat Nat) (M : Nat) : Prop :=
  ∀ A : Finset Nat, (∀ a ∈ A, ∃ n, locks.Holds a n) → A.card ≤ M

/-- A message of one of the five kinds. -/
def IsLockMessage : DslEvent → Prop
  | .message _ _ req => req.isTransactional ∨ (earlyKind req).isSome = true
  | .abortFlag _ _ => True

/-- A release names a lock that the sender holds. -/
def ReleasesHeld {E : Type} [RwEntry E] (cfg : Config) (s : Dsl E) : DslEvent → Prop
  | .message _ sender req =>
    ∀ rw ∈ earlyKind req, HoldsAs (s.ht.lockMap cfg.pgas) req.address sender rw
  | .abortFlag _ _ => True

/-- The address has another lock than the named one. -/
def LeavesLock (locks : LockMap Nat Nat) (a n : Nat) (rw : RW) : Prop :=
  ∃ m k, (m, k) ≠ (n, rw) ∧ HoldsAs locks a m k

/-- No early release takes the last lock of its address. -/
def LeavesOwner {E : Type} [RwEntry E] (cfg : Config) (s : Dsl E) : DslEvent → Prop
  | .message _ sender req =>
    ∀ rw ∈ earlyKind req, LeavesLock (s.ht.lockMap cfg.pgas) req.address sender rw
  | .abortFlag _ _ => True

instance : (e : DslEvent) → Decidable (IsLockMessage e)
  | .message _ _ req =>
    inferInstanceAs (Decidable (req.isTransactional ∨ (earlyKind req).isSome = true))
  | .abortFlag _ _ => inferInstanceAs (Decidable True)

instance {E : Type} [RwEntry E] (cfg : Config) (s : Dsl E) :
    (e : DslEvent) → Decidable (ReleasesHeld cfg s e)
  | .message _ sender req =>
    inferInstanceAs (Decidable (∀ rw ∈ earlyKind req,
      HoldsAs (s.ht.lockMap cfg.pgas) req.address sender rw))
  | .abortFlag _ _ => inferInstanceAs (Decidable True)

/-! ### Slots and their owners -/

section Owners

variable {E : Type} [LawfulRwEntry E] {pgas : Bool} {t : Ssht E} {n : Nat}

theorem owned_of_not_isEmpty {e : E} (hvalid : Valid e) (h : isEmpty e ≠ true) : Owned e := by
  rw [Ne, isEmpty_iff hvalid] at h
  by_contra hno
  unfold Owned at hno
  push Not at hno
  exact h ⟨hno.1, fun m => by simpa using hno.2 m⟩

omit [LawfulRwEntry E] in
theorem EntryHolds.owned [RwEntry E] {e : E} {k : RW} (h : EntryHolds e n k)
    (hne : n ≠ SSHT_NO_WRITER) : Owned e := by
  cases k with
  | read => exact Or.inr ⟨n, h⟩
  | write =>
    left
    intro hno
    exact hne (Eq.trans (Eq.symm h) hno)

theorem Owned.exists_holds {e : E} (h : Owned e) (hvalid : Valid e)
    (hlt : writer e = SSHT_NO_WRITER ∨ writer e < idBound E) :
    ∃ m k, m < idBound E ∧ EntryHolds e m k := by
  rcases h with hw | ⟨m, hread⟩
  · exact ⟨writer e, .write, hlt.resolve_left hw, rfl⟩
  · exact ⟨m, .read, reader_lt hvalid hread, hread⟩

/-- A removal that does not free the slot leaves an owner. -/
theorem owned_iterate (hn : n < idBound E) {sl : Slot E} (hvalid : Valid sl.entry) (k : Nat)
    (hheld : exact E = true → k ≤ entryLocks sl.entry n) (howned : sl.addr ≠ 0 → Owned sl.entry)
    (hne : ((sshtBucketRemoveIndex n)^[k] sl).addr ≠ 0) :
    Owned ((sshtBucketRemoveIndex n)^[k] sl).entry := by
  cases k with
  | zero => exact howned hne
  | succ k =>
    have hvalid' := (removed_iterate hn hvalid (k + 1) hheld).valid
    rw [Function.iterate_succ_apply'] at hne hvalid' ⊢
    apply owned_of_not_isEmpty hvalid'
    intro hempty
    apply hne
    change (if isEmpty (sshtBucketRemoveIndex n ((sshtBucketRemoveIndex n)^[k] sl)).entry then 0
      else ((sshtBucketRemoveIndex n)^[k] sl).addr) = 0
    rw [if_pos hempty]

theorem SlotsOwned.deleteNode (h : SlotsOwned t) {grants : List Grant} (htraced : Traced t grants)
    (hn : n < idBound E) : SlotsOwned (tm2cHtDeleteNode t n) := by
  intro p sl' hp hne
  rw [slot?_deleteNode] at hp
  obtain ⟨sl, hold, rfl⟩ := Option.map_eq_some_iff.mp hp
  refine owned_iterate hn (htraced.slot p sl hold).valid _ ?_ (h p sl hold) hne
  intro hexact
  have hcount := htraced.counted n p hn hexact
  rwa [Ssht.lockCount_of_slot hold] at hcount

theorem SlotsOwned.deleteNodes (h : SlotsOwned t) {grants : List Grant}
    (htraced : Traced t grants) {vs : List Nat} (hvs : ∀ v ∈ vs, v < idBound E) :
    SlotsOwned (deleteNodes t vs) := by
  induction vs generalizing t with
  | nil => exact h
  | cons v vs ih =>
    have hv := hvs v List.mem_cons_self
    exact ih (h.deleteNode htraced hv) (htraced.deleteNode hv)
      fun w hw => hvs w (List.mem_cons_of_mem v hw)

theorem SlotsOwned.bucketAlloc (h : SlotsOwned t) (bu : Nat) :
    SlotsOwned (bucketAlloc t bu).1 := by
  intro p sl hp hne
  rcases slot_bucketAlloc hp with hold | rfl
  · exact h p sl hold hne
  · exact absurd rfl hne

omit [LawfulRwEntry E] in
theorem SlotsOwned.modifySlot [RwEntry E] (h : SlotsOwned t) {p : SlotPtr} {f : Slot E → Slot E}
    (hf : ∀ sl, t.slot? p = some sl → (f sl).addr ≠ 0 → Owned (f sl).entry) :
    SlotsOwned (t.modifySlot p f) := by
  intro q sl' hq hne
  rcases Ssht.of_slot?_modifySlot hq with hold | ⟨sl, rfl, hold, rfl⟩
  · exact h q sl' hold hne
  · exact hf sl hold hne

theorem owned_addReader (hn : n < idBound E) (e : E) : Owned (addReader e n) :=
  Or.inr ⟨n, by simp [isReader_addReader hn]⟩

theorem owned_setWriter (hn : n < idBound E) (e : E) : Owned (setWriter e n) := by
  left
  rw [writer_setWriter_of_lt hn]
  exact ne_noWriter hn

theorem SlotsOwned.markFree (h : SlotsOwned t) (hn : n < idBound E) (p : SlotPtr) (addr : Nat)
    (rw : RW) : SlotsOwned (markFree t p n addr rw) := by
  cases rw with
  | read =>
    exact h.modifySlot (f := fun sl => ⟨addr, addReader sl.entry n⟩)
      fun sl _ _ => owned_addReader hn sl.entry
  | write =>
    exact h.modifySlot (f := fun sl => ⟨addr, setWriter sl.entry n⟩)
      fun sl _ _ => owned_setWriter hn sl.entry

theorem SlotsOwned.markFound (h : SlotsOwned t) (hn : n < idBound E) (p : SlotPtr) (addr : Nat)
    (rw : RW) : SlotsOwned (markFound t p n addr rw) := by
  cases rw with
  | write => exact h.markFree hn p addr .write
  | read =>
    change SlotsOwned (markReaderFound t p n addr)
    rcases markReaderFound_eq t p n addr with ⟨-, heq⟩ | ⟨sl, hslot, ⟨⟨-, hread⟩, heq⟩ | ⟨-, heq⟩⟩
    · rw [heq]
      exact h
    · rw [heq]
      apply h.modifySlot
      intro sl' hsl' _
      obtain rfl := Option.some.inj (hslot.symm.trans hsl')
      exact Or.inr ⟨n, hread⟩
    · rw [heq]
      exact h.markFree hn p addr .read

end Owners

/-! ### Early releases of held locks -/

section Release

variable {E : Type} [LawfulRwEntry E] {pgas : Bool} {t : Ssht E} {n : Nat}

theorem entryLocks_le_removeMark (hn : n < idBound E) (rw : RW) (sl : Slot E) :
    entryLocks sl.entry n ≤ entryLocks (removeMark n rw sl).entry n + 1 := by
  cases rw with
  | read =>
    simp only [removeMark, entryLocks, isReader_dropReader hn, writer_dropReader]
    have := Bool.toNat_le (isReader sl.entry n)
    omega
  | write =>
    simp only [removeMark]
    split
    · simp only [entryLocks, isReader_setWriter]
      have := Bool.toNat_le (decide (writer sl.entry = n))
      omega
    · omega

theorem SlotTraced.removeMark {grants : List Grant} {sl : Slot E} (h : SlotTraced grants sl)
    (hn : n < idBound E) (hne : sl.addr ≠ 0) {rw : RW} (hheld : EntryHolds sl.entry n rw) :
    SlotTraced grants (TM2C.removeMark n rw sl) := by
  have haddr := addr_removeMark n rw sl
  cases rw with
  | read =>
    refine ⟨valid_dropReader h.valid hn fun _ => hheld, ?_, fun hzero => absurd hzero hne, ?_, ?_⟩
    · simp only [TM2C.removeMark, writer_dropReader]
      exact h.writer_lt
    · simp only [TM2C.removeMark, writer_dropReader]
      exact h.written
    · intro m hm
      simp only [TM2C.removeMark, isReader_dropReader hn, Bool.and_eq_true] at hm
      exact h.read m hm.2
  | write =>
    have hw : writer sl.entry = n := hheld
    simp only [TM2C.removeMark, if_pos hw] at haddr ⊢
    refine ⟨valid_setWriter h.valid, Or.inl (writer_setWriter_noWriter _),
      fun hzero => absurd hzero hne, fun hno => absurd (writer_setWriter_noWriter _) hno, ?_⟩
    intro m hm
    rw [isReader_setWriter] at hm
    exact h.read m hm

theorem Traced.delete {grants : List Grant} (h : Traced t grants) (hkept : Kept pgas t)
    (hkept' : Kept pgas (tm2cHtDelete t n addr rw)) (hn : n < idBound E) (haddr : addr ≠ 0)
    (hheld : HoldsAs (t.lockMap pgas) addr n rw) :
    Traced (tm2cHtDelete t n addr rw) grants := by
  rcases sshtRemove_eq t n addr rw with ⟨-, heq⟩ | ⟨j, p, sl, hj, hslot, rfl, heq⟩
  · rwa [heq]
  · have hentry := (hkept.holdsAs_iff hslot haddr hn rw).mp hheld
    have hslots : ∀ q, (tm2cHtDelete t n sl.addr rw).slot? q =
        (t.modifySlot p (removeMark n rw)).slot? q := by
      intro q
      rw [heq]
      rfl
    refine ⟨?_, fun m q hm => (hkept'.tidy m hm).covered q, ?_⟩
    · intro q sl' hq
      rw [hslots] at hq
      rcases Ssht.of_slot?_modifySlot hq with hold | ⟨sl', rfl, hold, rfl⟩
      · exact h.slot q sl' hold
      · obtain rfl := Option.some.inj (hslot.symm.trans hold)
        exact (h.slot q sl hold).removeMark hn haddr hentry
    · intro m q hm hexact
      have hcounted := h.counted m q hm hexact
      rw [Ssht.lockCount_congr (hslots q)]
      by_cases hmn : m = n
      · subst hmn
        have hlog : (tm2cHtDelete t m sl.addr rw).logs m = sshtLogSetRemove (t.logs m) j := by
          rw [heq]
          exact Function.update_self ..
        have hcount := count_sshtLogSetRemove hj q
        rw [hlog]
        by_cases hqp : q = p
        · subst hqp
          rw [if_pos rfl] at hcount
          rw [Ssht.lockCount_of_slot hslot] at hcounted
          rw [Ssht.lockCount_of_slot (Ssht.slot?_modifySlot_self hslot _)]
          have hle := entryLocks_le_removeMark hn rw sl
          omega
        · rw [if_neg (Ne.symm hqp)] at hcount
          rw [Ssht.lockCount_congr (Ssht.slot?_modifySlot_of_ne hqp _)]
          omega
      · have hlog : (tm2cHtDelete t n sl.addr rw).logs m = t.logs m := by
          rw [heq]
          exact Function.update_of_ne hmn ..
        rw [hlog]
        by_cases hqp : q = p
        · subst hqp
          rw [Ssht.lockCount_of_slot hslot] at hcounted
          rw [Ssht.lockCount_of_slot (Ssht.slot?_modifySlot_self hslot _),
            entryLocks_removeMark_of_ne hn rw sl hmn hm]
          exact hcounted
        · rw [Ssht.lockCount_congr (Ssht.slot?_modifySlot_of_ne hqp _)]
          exact hcounted

end Release

/-! ### Chains -/

section Chains

variable {E : Type} [RwEntry E] {t : Ssht E}

/-- The slots of a chain that have an address. -/
def Ssht.occupied {E : Type} (t : Ssht E) (bu : Nat) : Nat :=
  (t.bucket bu).countP fun sl => sl.addr != 0

/-- The chains have their lengths, or one was full and got another group of slots, with
one address more. -/
def ChainsGrow {E : Type} (t t' : Ssht E) : Prop :=
  ∀ bu, (t'.bucket bu).length = (t.bucket bu).length ∨
    ((t'.bucket bu).length = (t.bucket bu).length + ADDR_PER_CL ∧
      (t.bucket bu).length < t'.occupied bu)

omit [RwEntry E] in
theorem length_modifySlot (t : Ssht E) (p : SlotPtr) (f : Slot E → Slot E) (bu : Nat) :
    ((t.modifySlot p f).bucket bu).length = (t.bucket bu).length := by
  simp only [Ssht.modifySlot, Function.update_apply]
  split
  · rename_i hbu
    rw [List.length_modify, hbu]
  · rfl

theorem length_deleteNode (t : Ssht E) (n bu : Nat) :
    ((tm2cHtDeleteNode t n).bucket bu).length = (t.bucket bu).length := by
  change (((t.logs n).foldl (fun t p => t.modifySlot p (sshtBucketRemoveIndex n)) t).bucket
    bu).length = _
  generalize t.logs n = l
  induction l generalizing t with
  | nil => rfl
  | cons p l ih => rw [List.foldl_cons, ih, length_modifySlot]

theorem length_deleteNodes {E : Type} [LawfulRwEntry E] (t : Ssht E) (vs : List Nat) (bu : Nat) :
    ((deleteNodes t vs).bucket bu).length = (t.bucket bu).length := by
  induction vs generalizing t with
  | nil => rfl
  | cons v vs ih => exact (ih (tm2cHtDeleteNode t v)).trans (length_deleteNode t v bu)

theorem length_markFound (t : Ssht E) (p : SlotPtr) (id addr : Nat) (rw : RW) (bu : Nat) :
    ((markFound t p id addr rw).bucket bu).length = (t.bucket bu).length := by
  cases rw with
  | write => exact length_modifySlot t p _ bu
  | read =>
    simp only [markFound, markReaderFound]
    cases t.slot? p with
    | none => rfl
    | some sl =>
      cases hadd : addReaderFound sl.entry id with
      | none =>
        simp only [hadd]
        exact length_modifySlot t p _ bu
      | some e =>
        simp only [hadd]
        exact length_modifySlot t p _ bu

theorem length_delete (t : Ssht E) (id addr : Nat) (rw : RW) (bu : Nat) :
    ((tm2cHtDelete t id addr rw).bucket bu).length = (t.bucket bu).length := by
  rcases sshtRemove_eq t id addr rw with ⟨-, heq⟩ | ⟨j, p, sl, -, -, -, heq⟩
  · rw [heq]
  · rw [heq]
    exact length_modifySlot t p _ bu

/-- A group is added to a full chain, and its first slot is taken. -/
theorem chainsGrow_markFree (t : Ssht E) (bu : Nat) {id addr : Nat} (haddr : addr ≠ 0) (rw : RW) :
    ChainsGrow t (markFree (bucketAlloc t bu).1 (bucketAlloc t bu).2 id addr rw) := by
  obtain ⟨f, hf, hmark⟩ : ∃ f : Slot E → Slot E, (∀ sl, (f sl).addr = addr) ∧
      (markFree (bucketAlloc t bu).1 (bucketAlloc t bu).2 id addr rw).bucket =
        ((bucketAlloc t bu).1.modifySlot (bucketAlloc t bu).2 f).bucket := by
    cases rw with
    | read => exact ⟨fun sl => ⟨addr, addReader sl.entry id⟩, fun _ => rfl, rfl⟩
    | write => exact ⟨fun sl => ⟨addr, setWriter sl.entry id⟩, fun _ => rfl, rfl⟩
  intro b
  have hlength := length_modifySlot (bucketAlloc t bu).1 (bucketAlloc t bu).2 f b
  unfold Ssht.occupied
  rw [hmark, hlength]
  cases hfind : bucketFind (t.bucket bu) 0 with
  | some r =>
    left
    simp only [bucketAlloc, hfind]
  | none =>
    simp only [bucketAlloc, hfind]
    by_cases hb : b = bu
    · subst hb
      right
      have hfull : ∀ sl ∈ t.bucket b, (sl.addr != 0) = true := by
        intro sl hsl
        rw [bne_iff_ne]
        exact bucketFind_eq_none hfind sl hsl
      have hcount := List.countP_eq_length.mpr hfull
      refine ⟨?_, ?_⟩
      · rw [Function.update_self, List.length_append]
        rfl
      · simp only [Ssht.modifySlot, Function.update_self, sshtBucketNew, ADDR_PER_CL]
        rw [List.modify_eq_take_cons_drop (by simp), List.take_left, List.countP_append,
          List.countP_cons_of_pos (by rw [hf, bne_iff_ne]; exact haddr), hcount]
        omega
    · left
      rw [Function.update_of_ne hb]

end Chains

/-! ### Every message -/

section Steps

variable {E : Type} [LawfulRwEntry E] {cfg : Config}

/-- Addresses, logs, counters and owners are right. -/
structure OwnedTable (pgas : Bool) (t : Ssht E) : Prop extends Kept pgas t where
  traced : ∃ grants, Traced t grants
  owned : SlotsOwned t

/-- The condition on a message: no early release takes the last lock of its address, and
with the byte array a STORE meets no writer that it would enter a second time or
overwrite. -/
def KeepsOwners {E : Type} [LawfulRwEntry E] (cfg : Config) (s : Dsl E) (e : DslEvent) : Prop :=
  LeavesOwner cfg s e ∧ KeepsCounters cfg ⟨s, []⟩ e

omit [LawfulRwEntry E] in
theorem ChainsGrow.of_length {t t' : Ssht E}
    (h : ∀ bu, (t'.bucket bu).length = (t.bucket bu).length) : ChainsGrow t t' :=
  fun bu => Or.inl (h bu)

theorem length_abortedTable (t : Ssht E) (victims : List Nat) (bu : Nat) :
    ((abortedTable cfg t victims).bucket bu).length = (t.bucket bu).length := by
  unfold abortedTable
  split
  · rfl
  · exact length_deleteNodes t victims bu

/-- What an insertion leaves, granted or refused. -/
theorem OwnedTable.inserts {s : Dsl E} (h : OwnedTable cfg.pgas s.ht) {id addr : Nat} {rw : RW}
    (hid : id < idBound E) (haddr : addr ≠ 0) {r : Conflict × Dsl E}
    (hinserts : Inserts cfg s id addr rw r) :
    (r.1 ≠ .noConflict ∧ r.2 = s) ∨
      (r.1 = .noConflict ∧ SlotsOwned r.2.ht ∧ ChainsGrow s.ht r.2.ht) := by
  obtain ⟨grants, htraced⟩ := h.traced
  cases hinserts with
  | refused _ _ hno => exact Or.inl ⟨hno, rfl⟩
  | free hfind hht =>
    refine Or.inr ⟨rfl, ?_, ?_⟩
    · rw [hht]
      exact (h.owned.bucketAlloc _).markFree hid _ addr rw
    · rw [hht]
      exact chainsGrow_markFree s.ht _ haddr rw
  | found victims hfind hlt _ hht =>
    refine Or.inr ⟨rfl, ?_, ?_⟩
    · rw [hht]
      refine SlotsOwned.markFound ?_ hid _ addr rw
      unfold abortedTable
      split
      · exact h.owned
      · exact h.owned.deleteNodes htraced hlt
    · rw [hht]
      apply ChainsGrow.of_length
      intro bu
      rw [length_markFound, length_abortedTable]

/-- The lock that is left on the address owns its slot. -/
theorem OwnedTable.delete {pgas : Bool} {t : Ssht E} (h : OwnedTable pgas t) {n addr : Nat}
    (hn : n < idBound E) (haddr : addr ≠ 0) {rw : RW}
    (hleaves : LeavesLock (t.lockMap pgas) addr n rw) :
    SlotsOwned (tm2cHtDelete t n addr rw) := by
  obtain ⟨grants, htraced⟩ := h.traced
  obtain ⟨m, k, hother, hholds⟩ := hleaves
  have hholds' : HoldsAs ((tm2cHtDelete t n addr rw).lockMap pgas) addr m k := by
    rw [holdsAs_delete h.toKept hn haddr]
    refine ⟨hholds, ?_⟩
    intro heq
    cases heq
    exact hother rfl
  obtain ⟨q, sl', hq, hqaddr, hentry⟩ := exists_slot_of_holdsAs hholds'
  have hplaced := placed_delete h.toPlaced n addr rw
  have howner : Owned sl'.entry := by
    cases k with
    | read => exact Or.inr ⟨m, hentry⟩
    | write =>
      left
      obtain ⟨⟨i, sl₀⟩, -, hwriter⟩ := Option.bind_eq_some_iff.mp hholds
      have hm : m ≠ SSHT_NO_WRITER := (entryWriter_eq_some.mp hwriter).2
      intro hno
      exact hm (Eq.trans (Eq.symm hentry) hno)
  intro p sl hp hne
  by_cases hsame : sl.addr = addr
  · have hpq : p = q := hplaced.unique p q sl sl' hp hq hne (hsame.trans hqaddr.symm)
    subst hpq
    obtain rfl := Option.some.inj (hp.symm.trans hq)
    exact howner
  · rcases sshtRemove_eq t n addr rw with ⟨-, heq⟩ | ⟨j, r, sl₁, -, hr, hraddr, heq⟩
    · rw [heq] at hp
      exact h.owned p sl hp hne
    · rw [heq] at hp
      rcases Ssht.of_slot?_modifySlot (t := t) hp with hold | ⟨sl₂, rfl, hold, rfl⟩
      · exact h.owned p sl hold hne
      · obtain rfl := Option.some.inj (hr.symm.trans hold)
        exact absurd ((addr_removeMark n rw sl₁).trans hraddr) hsame

theorem releasesNamed_of_held {s : Dsl E} {e : DslEvent} (h : ReleasesHeld cfg s e) :
    ReleasesNamed cfg s e := by
  cases e with
  | abortFlag node flag => trivial
  | message now sender req => exact fun rw hrw _ => Or.inl (h rw hrw)

/-- **The step.** -/
theorem OwnedTable.step {s : Dsl E} (h : OwnedTable cfg.pgas s.ht) {e : DslEvent}
    (hfrom : FromNode (idBound E) e) (hlocks : IsLockMessage e) (hheld : ReleasesHeld cfg s e)
    (hkeeps : KeepsOwners cfg s e) :
    OwnedTable cfg.pgas (dslStep cfg s e).1.ht ∧ ChainsGrow s.ht (dslStep cfg s e).1.ht := by
  have hkept := h.toKept.step hfrom (releasesNamed_of_held hheld)
  obtain ⟨hleaves, hcounters⟩ := hkeeps
  obtain ⟨grants, htraced⟩ := h.traced
  cases e with
  | abortFlag node flag => exact ⟨⟨hkept, ⟨grants, htraced⟩, h.owned⟩, fun bu => Or.inl rfl⟩
  | message now sender req =>
    obtain ⟨hid, haddr⟩ := hfrom
    let s₁ : Dsl E := stamped cfg now s sender req
    suffices hsuff : (∃ grants, Traced (dslSwitch cfg s₁ sender req).1.ht grants) ∧
        SlotsOwned (dslSwitch cfg s₁ sender req).1.ht ∧
        ChainsGrow s.ht (dslSwitch cfg s₁ sender req).1.ht from
      ⟨⟨hkept, hsuff.1, hsuff.2.1⟩, hsuff.2.2⟩
    -- a request for a lock, refused or granted
    have hrequest : ∀ rw : RW, (req.type = .load ∧ rw = .read) ∨
          (req.type = .store ∧ rw = .write) →
        (∃ grants, Traced (dslSwitch cfg s₁ sender req).1.ht grants) ∧
        SlotsOwned (dslSwitch cfg s₁ sender req).1.ht ∧
        ChainsGrow s.ht (dslSwitch cfg s₁ sender req).1.ht := by
      intro rw hrw
      have hne : req.address ≠ 0 := haddr (by
        rcases hrw with ⟨ht, -⟩ | ⟨ht, -⟩ <;> rw [ht] <;> decide)
      obtain ⟨reply, -, hresponse, hrefused, hgranted⟩ :=
        dslSwitch_insert cfg s₁ sender (hrw.imp_right Or.inl)
      have hinserts : Inserts cfg s₁ sender req.address rw
          (tm2cHtInsert cfg s₁ sender req.address rw) :=
        tm2cHtInsert_inserts (s := s₁) htraced.slotsValid hid req.address rw
      have hafter := OwnedTable.inserts (s := s₁) h hid hne hinserts
      rcases hr : tm2cHtInsert cfg s₁ sender req.address rw with ⟨conflict, s'⟩
      rw [hr] at hresponse hrefused hgranted hinserts hafter
      rcases hafter with ⟨hno, hsame⟩ | ⟨hok, howned, hgrow⟩
      · -- refused: the sender's locks are deleted, the slots stay where they are
        simp only at hno hsame
        rw [hrefused (hresponse ▸ hno), hsame]
        exact ⟨⟨grants, Traced.deleteNode (t := s.ht) htraced hid⟩,
          SlotsOwned.deleteNode (t := s.ht) h.owned htraced hid,
          ChainsGrow.of_length (length_deleteNode s.ht sender)⟩
      · -- granted: one lock more, and at most one bucket more
        simp only at hok
        subst hok
        rw [hgranted hresponse]
        refine ⟨⟨_, Traced.granted (s := s₁) htraced hid hne ?_ hinserts⟩, howned, hgrow⟩
        intro hexact hwrite
        obtain ⟨-, hread⟩ | ⟨hstore, -⟩ := hrw
        · rw [hread] at hwrite
          cases hwrite
        · exact hcounters hexact hstore
    rcases hlocks with (ht | ht | ht) | hearly
    · exact hrequest .read (Or.inl ⟨ht, rfl⟩)
    · exact hrequest .write (Or.inr ⟨ht, rfl⟩)
    · simp only [dslSwitch, ht, ht_handleRmvNode]
      exact ⟨⟨grants, Traced.deleteNode (t := s.ht) htraced hid⟩,
        SlotsOwned.deleteNode (t := s.ht) h.owned htraced hid,
        ChainsGrow.of_length (length_deleteNode s.ht sender)⟩
    · -- an early release frees one slot at most
      obtain ⟨rw, hrw⟩ := Option.isSome_iff_exists.mp hearly
      have hne : req.address ≠ 0 := by
        apply haddr
        intro hrmv
        simp [earlyKind, hrmv] at hrw
      have hht : (dslSwitch cfg s₁ sender req).1.ht = tm2cHtDelete s.ht sender req.address rw :=
        ht_dslSwitch_early hrw
      have hkept' : Kept cfg.pgas (dslSwitch cfg s₁ sender req).1.ht := hkept
      rw [hht] at hkept' ⊢
      exact ⟨⟨grants, htraced.delete h.toKept hkept' hid hne (hheld rw hrw)⟩,
        h.delete hid hne (hleaves rw hrw), ChainsGrow.of_length (length_delete s.ht _ _ _)⟩

end Steps

/-! ### Runs -/

section Runs

variable {E : Type} [LawfulRwEntry E] {cfg : Config}

theorem ownedTable_init (pgas : Bool) : OwnedTable pgas (sshtNew : Ssht E) where
  toPlaced := placed_sshtNew pgas
  tidy _ hn := tidy_sshtNew hn
  traced := ⟨[], traced_sshtNew⟩
  owned p sl hp hne := by
    rw [slot?_sshtNew hp] at hne
    exact absurd rfl hne

/-- Owners hold locks that the lock map shows. -/
theorem OwnedTable.exists_holds {pgas : Bool} {t : Ssht E} (h : OwnedTable pgas t) {p : SlotPtr}
    {sl : Slot E} (hp : t.slot? p = some sl) (hne : sl.addr ≠ 0) :
    ∃ n, (t.lockMap pgas).Holds sl.addr n := by
  obtain ⟨grants, htraced⟩ := h.traced
  have hslot := htraced.slot p sl hp
  obtain ⟨m, k, hm, hentry⟩ := (h.owned p sl hp hne).exists_holds hslot.valid hslot.writer_lt
  exact ⟨m, ((h.holdsAs_iff hp hne hm k).mpr hentry).holds⟩

/-- The occupied slots of a chain have different addresses, and all of them are locked. -/
theorem OwnedTable.occupied_le {pgas : Bool} {t : Ssht E} (h : OwnedTable pgas t) {M : Nat}
    (hM : LockedAtMost (t.lockMap pgas) M) (bu : Nat) : t.occupied bu ≤ M := by
  have hdistinct : (t.bucket bu).Pairwise fun sl sl' => sl.addr ≠ 0 → sl.addr ≠ sl'.addr := by
    rw [List.pairwise_iff_getElem]
    intro i j hi hj hij hne heq
    have hpi : t.slot? (bu, i) = some (t.bucket bu)[i] := List.getElem?_eq_getElem hi
    have hpj : t.slot? (bu, j) = some (t.bucket bu)[j] := List.getElem?_eq_getElem hj
    have hsame := h.unique _ _ _ _ hpi hpj hne heq
    cases hsame
    exact Nat.lt_irrefl _ hij
  let used := (t.bucket bu).filter fun sl => sl.addr != 0
  have hused : ∀ sl ∈ used, sl ∈ t.bucket bu ∧ sl.addr ≠ 0 := by
    intro sl hsl
    obtain ⟨hmem, hne⟩ := List.mem_filter.mp hsl
    exact ⟨hmem, bne_iff_ne.mp hne⟩
  have hnodup : (used.map Slot.addr).Nodup := by
    apply List.pairwise_map.mpr
    refine (hdistinct.filter _).imp_of_mem ?_
    intro sl sl' hsl _ himp
    exact himp (hused sl hsl).2
  have hcard : t.occupied bu = (used.map Slot.addr).toFinset.card := by
    rw [List.toFinset_card_of_nodup hnodup, List.length_map, Ssht.occupied,
      List.countP_eq_length_filter]
  rw [hcard]
  apply hM
  intro a ha
  obtain ⟨sl, hsl, rfl⟩ := List.mem_map.mp (List.mem_toFinset.mp ha)
  obtain ⟨hmem, hne⟩ := hused sl hsl
  obtain ⟨i, hi⟩ := List.mem_iff_getElem?.mp hmem
  exact h.exists_holds (p := (bu, i)) hi hne

/-- The steps of a service node whose early releases name held locks and which meet the
condition. -/
def ownerStep (cfg : Config) : Dsl E → DslEvent → Dsl E → Prop :=
  restrict (fun s e => ReleasesHeld cfg s e ∧ KeepsOwners cfg s e)
    (graph fun s e => (dslStep cfg s e).1)

theorem OwnedTable.run {es : List DslEvent} {s : Dsl E}
    (hes : ∀ e ∈ es, FromNode (idBound E) e ∧ IsLockMessage e)
    (hexec : Exec (ownerStep cfg) dslInit es s) : OwnedTable cfg.pgas s.ht := by
  refine (hexec.restrict_of_forall hes).invariant (fun s => OwnedTable cfg.pgas s.ht) ?_
    (ownedTable_init cfg.pgas)
  rintro s e t hs ⟨⟨hfrom, hlocks⟩, ⟨hheld, hkeeps⟩, rfl⟩
  exact (hs.step hfrom hlocks hheld hkeeps).1

/-- A chain has its first group, or it is covered by addresses locked at one time. -/
theorem length_chain_le {es : List DslEvent} {s : Dsl E}
    (hes : ∀ e ∈ es, FromNode (idBound E) e ∧ IsLockMessage e)
    (hexec : Exec (ownerStep cfg) dslInit es s) {M : Nat}
    (hM : ∀ fs, fs <+: es → LockedAtMost
      ((fs.foldl (fun s e => (dslStep cfg s e).1) (dslInit : Dsl E)).ht.lockMap cfg.pgas) M)
    (bu : Nat) : (s.ht.bucket bu).length = ADDR_PER_CL ∨
      (s.ht.bucket bu).length < M + ADDR_PER_CL := by
  have hguarded := (Exec.restrict_of_prefixes
    (P := fun s : Dsl E => LockedAtMost (s.ht.lockMap cfg.pgas) M) hexec hM).restrict_of_forall hes
  refine (hguarded.invariant (fun s => OwnedTable cfg.pgas s.ht ∧ ∀ bu,
    (s.ht.bucket bu).length = ADDR_PER_CL ∨ (s.ht.bucket bu).length < M + ADDR_PER_CL) ?_
    ⟨ownedTable_init cfg.pgas, fun bu => Or.inl rfl⟩).2 bu
  rintro s e t ⟨hs, hlength⟩ ⟨⟨hfrom, hlocks⟩, ⟨⟨hheld, hkeeps⟩, hlocked⟩, rfl⟩
  obtain ⟨howned, hgrow⟩ := hs.step hfrom hlocks hheld hkeeps
  refine ⟨howned, ?_⟩
  intro b
  rcases hgrow b with hsame | ⟨hmore, hfull⟩
  · rw [hsame]
    exact hlength b
  · right
    have hle := howned.occupied_le hlocked b
    calc _ = (s.ht.bucket b).length + ADDR_PER_CL := hmore
      _ < M + ADDR_PER_CL := by omega

/-- The last lock of an address leaves its slot without an owner. -/
theorem OwnedTable.owned_delete_iff {pgas : Bool} {t : Ssht E} (h : OwnedTable pgas t)
    {n addr : Nat} (hn : n < idBound E) (haddr : addr ≠ 0) {rw : RW}
    (hkept' : Kept pgas (tm2cHtDelete t n addr rw))
    (hheld : HoldsAs (t.lockMap pgas) addr n rw) :
    SlotsOwned (tm2cHtDelete t n addr rw) ↔ LeavesLock (t.lockMap pgas) addr n rw := by
  refine ⟨?_, h.delete hn haddr⟩
  intro howned
  obtain ⟨grants, htraced⟩ := h.traced
  have htraced' := htraced.delete h.toKept hkept' hn haddr hheld
  obtain ⟨p, sl, hslot, hsladdr, -⟩ := exists_slot_of_holdsAs hheld
  have hafter : ∃ sl', (tm2cHtDelete t n addr rw).slot? p = some sl' ∧ sl'.addr = addr := by
    rcases sshtRemove_eq t n addr rw with ⟨-, heq⟩ | ⟨j, q, sl₁, -, hq, hqaddr, heq⟩
    · rw [heq]
      exact ⟨sl, hslot, hsladdr⟩
    · have hpq : q = p := h.unique q p sl₁ sl hq hslot (hqaddr ▸ haddr)
        (hqaddr.trans hsladdr.symm)
      subst hpq
      obtain rfl := Option.some.inj (hslot.symm.trans hq)
      rw [heq]
      exact ⟨removeMark n rw sl, Ssht.slot?_modifySlot_self hslot _,
        (addr_removeMark n rw sl).trans hsladdr⟩
  obtain ⟨sl', hslot', rfl⟩ := hafter
  have htr := htraced'.slot p sl' hslot'
  obtain ⟨m, k, hm, hentry⟩ := (howned p sl' hslot' haddr).exists_holds htr.valid htr.writer_lt
  have hholds := (hkept'.holdsAs_iff hslot' haddr hm k).mpr hentry
  rw [holdsAs_delete h.toKept hn haddr] at hholds
  refine ⟨m, k, ?_, hholds.1⟩
  intro heq
  cases heq
  exact hholds.2 rfl

/-- **Occupied slots have owners.**  In every state of a run in which every release names
a held lock and no early release takes the last lock of its address: every slot with an
address has an owner, so that a table without locks is free, and a chain is as long as
the most addresses locked at one time need; and the next early release of a held lock
keeps it so, if and only if it leaves a lock on its address. -/
theorem slots_have_owners (cfg : Config) (es : List DslEvent) (s : Dsl E)
    (hes : ∀ e ∈ es, FromNode (idBound E) e ∧ IsLockMessage e)
    (hexec : Exec (ownerStep cfg) dslInit es s) :
    SlotsOwned s.ht ∧
    ((∀ a n, ¬ (s.ht.lockMap cfg.pgas).Holds a n) →
      ∀ p sl, s.ht.slot? p = some sl → sl.addr = 0) ∧
    (∀ M, (∀ fs, fs <+: es → LockedAtMost
        ((fs.foldl (fun s e => (dslStep cfg s e).1) (dslInit : Dsl E)).ht.lockMap cfg.pgas) M) →
      ∀ bu, (s.ht.bucket bu).length = ADDR_PER_CL ∨
        (s.ht.bucket bu).length < M + ADDR_PER_CL) ∧
    (∀ now n req rw, n < idBound E → earlyKind req = some rw → req.address ≠ 0 →
      HoldsAs (s.ht.lockMap cfg.pgas) req.address n rw →
      (SlotsOwned (dslService cfg now s n req).1.ht ↔
        LeavesLock (s.ht.lockMap cfg.pgas) req.address n rw)) := by
  have howned := OwnedTable.run hes hexec
  refine ⟨howned.owned, ?_, fun M hM bu => length_chain_le hes hexec hM bu, ?_⟩
  · intro hnone p sl hp
    by_contra hne
    obtain ⟨n, hholds⟩ := howned.exists_holds hp hne
    exact hnone _ _ hholds
  · intro now n req rw hn hearly haddr hheld
    have hfrom : FromNode (idBound E) (.message now n req) := ⟨hn, fun _ => haddr⟩
    have hnamed : ReleasesNamed cfg s (.message now n req) := by
      apply releasesNamed_of_held
      intro rw' hrw'
      obtain rfl := Option.some.inj (hearly.symm.trans hrw')
      exact hheld
    have hkept' : Kept cfg.pgas (dslService cfg now s n req).1.ht :=
      howned.toKept.step hfrom hnamed
    have hht : (dslService cfg now s n req).1.ht = tm2cHtDelete s.ht n req.address rw :=
      ht_dslSwitch_early hearly
    rw [hht] at hkept' ⊢
    exact howned.owned_delete_iff hn haddr hkept' hheld

end Runs

/-- Two readers, one of which releases early. -/
def sharedRun : List DslEvent :=
  [.message 0 1 { type := .load, address := 64 },
   .message 0 2 { type := .load, address := 64 },
   .message 0 1 { type := .loadRls, address := 64 },
   .message 0 2 { type := .rmvNode, address := 0 }]

theorem slots_have_owners_sharedRun :
    SlotsOwned (sharedRun.foldl (fun s e => (dslStep earlyConfig s e).1)
      (dslInit : Dsl ByteEntry)).ht ∧
    SlotsOwned (sharedRun.foldl (fun s e => (dslStep earlyConfig s e).1)
      (dslInit : Dsl BitEntry)).ht := by
  have hes : ∀ e ∈ sharedRun, FromNode 64 e ∧ IsLockMessage e := by decide
  have hes' : ∀ e ∈ sharedRun, FromNode SSHT_NO_WRITER e ∧ IsLockMessage e := by decide
  have hbyte : Exec (ownerStep earlyConfig) (dslInit : Dsl ByteEntry) sharedRun
      (sharedRun.foldl (fun s e => (dslStep earlyConfig s e).1) dslInit) :=
    Exec.cons ⟨⟨by decide +kernel, nofun, by decide +kernel⟩, rfl⟩
      (Exec.cons ⟨⟨by decide +kernel, nofun, by decide +kernel⟩, rfl⟩
        (Exec.cons ⟨⟨by decide +kernel, fun rw hrw => ⟨2, .read, by simp, by
            cases hrw
            decide +kernel⟩, by decide +kernel⟩, rfl⟩
          (Exec.cons ⟨⟨by decide +kernel, nofun, by decide +kernel⟩, rfl⟩ (Exec.nil _))))
  have hbit : Exec (ownerStep earlyConfig) (dslInit : Dsl BitEntry) sharedRun
      (sharedRun.foldl (fun s e => (dslStep earlyConfig s e).1) dslInit) :=
    Exec.cons ⟨⟨by decide +kernel, nofun, by decide +kernel⟩, rfl⟩
      (Exec.cons ⟨⟨by decide +kernel, nofun, by decide +kernel⟩, rfl⟩
        (Exec.cons ⟨⟨by decide +kernel, fun rw hrw => ⟨2, .read, by simp, by
            cases hrw
            decide +kernel⟩, by decide +kernel⟩, rfl⟩
          (Exec.cons ⟨⟨by decide +kernel, nofun, by decide +kernel⟩, rfl⟩ (Exec.nil _))))
  exact ⟨(slots_have_owners earlyConfig sharedRun _ hes' hbyte).1,
    (slots_have_owners earlyConfig sharedRun _ hes hbit).1⟩

/-- A node reads an address and releases it early. -/
def readReleased : List DslEvent :=
  [.message 0 1 { type := .load, address := 64 },
   .message 0 1 { type := .loadRls, address := 64 }]

/-- The address stays in its slot when nobody holds a lock any more. -/
theorem early_release_keeps_slot :
    (∀ e ∈ readReleased, FromNode 64 e ∧ IsLockMessage e) ∧
    ¬ SlotsOwned (readReleased.foldl (fun s e => (dslStep earlyConfig s e).1)
      (dslInit : Dsl ByteEntry)).ht ∧
    ¬ SlotsOwned (readReleased.foldl (fun s e => (dslStep earlyConfig s e).1)
      (dslInit : Dsl BitEntry)).ht := by
  refine ⟨by decide, ?_, ?_⟩
  · intro howned
    have hslot : (readReleased.foldl (fun s e => (dslStep earlyConfig s e).1)
        (dslInit : Dsl ByteEntry)).ht.slot? (bucketOf false 64, 0) =
        some ⟨64, ⟨0, Function.update (Function.update (fun _ => false) 1 true) 1 false, 255⟩⟩ := by
      rfl
    rcases howned _ _ hslot (by decide) with hw | ⟨m, hread⟩
    · exact hw rfl
    · by_cases hm : m = 1 <;> simp [RwEntry.isReader, hm] at hread
  · intro howned
    have hslot : (readReleased.foldl (fun s e => (dslStep earlyConfig s e).1)
        (dslInit : Dsl BitEntry)).ht.slot? (bucketOf false 64, 0) = some ⟨64, ⟨0, 255⟩⟩ := by
      rfl
    rcases howned _ _ hslot (by decide) with hw | ⟨m, hread⟩
    · exact hw rfl
    · simp [RwEntry.isReader, rwEntrySshtFetchReaders, rwEntrySshtIsMember] at hread

end TM2C
