import TM2C.SshtAccounting
import TM2C.LockService

/-!
# The lock table implements a lock map

Outside the PGAS build one turn of the service loop on the table of slots and
logs is one turn of the abstract service on the lock map that the table stands
for (`dslService_refines`).  With the byte array this needs that a node never
stores twice to an address it has not released; the bitmap needs nothing.  The
two mutual exclusion results follow from the refinement and from the abstract
invariant.

The lock map of a table (`Ssht.lockMap`) looks an address up in its bucket, as the code does, and
reads the writer and the readers off the entry.  That it is well behaved is due to `Accounted`,
the representation invariant: one slot for each address, in its bucket, free slots empty, and for
every lock as many log entries as the entry counts.  Each table operation has one lemma that says
what it is on lock maps, from `lockMap_markReader` to `lockMap_deleteNode`, and `lockMap_enter`
says once for all of them that an address with another slot is not affected.

`Carries` describes an insertion by its verdict.  The scan of `bucket_insert_r` and
`bucket_insert_w` sees the same writer and readers as the verdict, and `abort_defender` on the
table is the release of the victim on the lock map; both halves are also needed by the PGAS
build, so they are said for either bucket function.  A message is then handled by cases on its
type.
-/

namespace TM2C

open RwEntry LawfulRwEntry

/-! ### The lock map of a table -/

section View

variable {E : Type} [RwEntry E]

def entryWriter (e : E) : Option Nat :=
  if writer e = SSHT_NO_WRITER then none else some (writer e)

def Ssht.lockMap (pgas : Bool) (t : Ssht E) : LockMap Nat Nat where
  writer a := (bucketFind (t.bucket (bucketOf pgas a)) a).bind fun r => entryWriter r.2.entry
  reader a n := (bucketFind (t.bucket (bucketOf pgas a)) a).any fun r => isReader r.2.entry n

theorem entryWriter_eq_some {e : E} {w : Nat} :
    entryWriter e = some w ↔ writer e = w ∧ w ≠ SSHT_NO_WRITER := by
  unfold entryWriter
  by_cases h : writer e = SSHT_NO_WRITER
  · rw [if_pos h]
    constructor
    · intro hnone
      cases hnone
    · rintro ⟨rfl, hw⟩
      exact absurd h hw
  · rw [if_neg h, Option.some.injEq]
    constructor
    · rintro rfl
      exact ⟨rfl, h⟩
    · exact And.left

theorem entryWriter_eq_none {e : E} : entryWriter e = none ↔ writer e = SSHT_NO_WRITER := by
  unfold entryWriter
  by_cases h : writer e = SSHT_NO_WRITER <;> simp [h]

end View

section Represented

variable {E : Type} [LawfulRwEntry E] {pgas : Bool} {t : Ssht E}

theorem Ssht.lockMap_of_notFound {addr : Nat}
    (hfind : bucketFind (t.bucket (bucketOf pgas addr)) addr = none) :
    (t.lockMap pgas).writer addr = none ∧ (t.lockMap pgas).reader addr = fun _ => false := by
  refine ⟨?_, ?_⟩
  · simp only [Ssht.lockMap, hfind, Option.bind_none]
  · funext n
    simp only [Ssht.lockMap, hfind, Option.any_none]

theorem Ssht.lockMap_of_found {addr i : Nat} {sl : Slot E}
    (hfind : bucketFind (t.bucket (bucketOf pgas addr)) addr = some (i, sl)) :
    (t.lockMap pgas).writer addr = entryWriter sl.entry ∧
      (t.lockMap pgas).reader addr = isReader sl.entry := by
  refine ⟨?_, ?_⟩
  · simp only [Ssht.lockMap, hfind, Option.bind_some]
  · funext n
    simp only [Ssht.lockMap, hfind, Option.any_some]

/-- The slot of an address shows its locks, whether it has the address yet or is free. -/
theorem SlotFor.lockMap_eq (h : Accounted pgas t) {p : SlotPtr} {sl : Slot E} {addr : Nat}
    (hfor : SlotFor pgas t p sl addr) :
    (t.lockMap pgas).writer addr = entryWriter sl.entry ∧
      ∀ n, (t.lockMap pgas).reader addr n = isReader sl.entry n := by
  simp only [Ssht.lockMap]
  cases hfind : bucketFind (t.bucket (bucketOf pgas addr)) addr with
  | some r =>
    obtain ⟨i, sl'⟩ := r
    have hfor' := h.slotFor_found hfor.addr_ne hfind
    have hp := hfor.only _ _ hfor'.slot (bucketFind_eq_some hfind).2
    have hsl : sl' = sl := by
      have hslot := hfor'.slot
      rw [hp, hfor.slot, Option.some.injEq] at hslot
      exact hslot.symm
    subst hsl
    exact ⟨rfl, fun n => rfl⟩
  | none =>
    have hzero : sl.addr = 0 := by
      rcases hfor.addr_eq with hzero | heq
      · exact hzero
      · exact absurd heq (h.not_found hfor.addr_ne hfind hfor.slot)
    obtain ⟨hw, hr⟩ := h.free p sl hfor.slot hzero
    exact ⟨(entryWriter_eq_none.mpr hw).symm, fun n => (hr n).symm⟩

theorem writer_lockMap_eq_some (h : Accounted pgas t) {a w : Nat} :
    (t.lockMap pgas).writer a = some w ↔
      ∃ p sl, t.slot? p = some sl ∧ sl.addr = a ∧ writer sl.entry = w ∧ w ≠ SSHT_NO_WRITER := by
  constructor
  · intro hw
    obtain ⟨⟨i, sl⟩, hfind, hwriter⟩ := Option.bind_eq_some_iff.mp hw
    obtain ⟨hslot, haddr⟩ := bucketFind_eq_some hfind
    obtain ⟨hw, hne⟩ := entryWriter_eq_some.mp hwriter
    exact ⟨(bucketOf pgas a, i), sl, hslot, haddr, hw, hne⟩
  · rintro ⟨p, sl, hslot, rfl, hw, hne⟩
    have haddr : sl.addr ≠ 0 := by
      intro hzero
      rw [(h.free p sl hslot hzero).1] at hw
      exact hne hw.symm
    have hfor : SlotFor pgas t p sl sl.addr := by
      refine ⟨hslot, haddr, h.home p sl hslot haddr, Or.inr rfl, ?_⟩
      intro q sl' hq hqaddr
      exact h.unique q p sl' sl hq hslot (hqaddr ▸ haddr) hqaddr
    rw [(hfor.lockMap_eq h).1]
    exact entryWriter_eq_some.mpr ⟨hw, hne⟩

theorem reader_lockMap_eq_true (h : Accounted pgas t) {a n : Nat} :
    (t.lockMap pgas).reader a n = true ↔
      ∃ p sl, t.slot? p = some sl ∧ sl.addr = a ∧ isReader sl.entry n = true := by
  constructor
  · intro hr
    obtain ⟨⟨i, sl⟩, hfind, hread⟩ := (Option.any_eq_true _ _).mp hr
    obtain ⟨hslot, haddr⟩ := bucketFind_eq_some hfind
    exact ⟨(bucketOf pgas a, i), sl, hslot, haddr, hread⟩
  · rintro ⟨p, sl, hslot, rfl, hread⟩
    have haddr : sl.addr ≠ 0 := by
      intro hzero
      rw [(h.free p sl hslot hzero).2 n] at hread
      cases hread
    have hfor : SlotFor pgas t p sl sl.addr := by
      refine ⟨hslot, haddr, h.home p sl hslot haddr, Or.inr rfl, ?_⟩
      intro q sl' hq hqaddr
      exact h.unique q p sl' sl hq hslot (hqaddr ▸ haddr) hqaddr
    rw [(hfor.lockMap_eq h).2]
    exact hread

theorem lockMap_sshtNew (pgas : Bool) : (sshtNew : Ssht E).lockMap pgas = LockMap.empty := by
  have h := accounted_sshtNew (E := E) pgas
  apply LockMap.ext
  · funext a
    apply Option.eq_none_iff_forall_ne_some.mpr
    intro w hw
    obtain ⟨p, sl, hslot, -, rfl, hne⟩ := (writer_lockMap_eq_some h).mp hw
    rw [slot?_sshtNew hslot] at hne
    exact hne writer_new
  · funext a n
    rw [LockMap.reader_empty, ← Bool.not_eq_true]
    intro hr
    obtain ⟨p, sl, hslot, -, hread⟩ := (reader_lockMap_eq_true h).mp hr
    rw [slot?_sshtNew hslot, isReader_new] at hread
    cases hread

/-- Only nodes with an id below the bound of the encoding hold locks. -/
theorem Accounted.lt_idBound (h : Accounted pgas t) {a n : Nat}
    (hn : (t.lockMap pgas).Holds a n) : n < idBound E := by
  rcases hn with hw | hr
  · obtain ⟨p, sl, hslot, -, rfl, hne⟩ := (writer_lockMap_eq_some h).mp hw
    rcases h.writer_lt p sl hslot with hno | hlt
    · exact absurd hno hne
    · exact hlt
  · obtain ⟨p, sl, hslot, -, hread⟩ := (reader_lockMap_eq_true h).mp hr
    exact reader_lt (h.valid p sl hslot) hread

theorem Accounted.holds_of_lockCount (h : Accounted pgas t) {n : Nat} (hn : n < idBound E)
    {p : SlotPtr} (hpos : 0 < t.lockCount p n) : ∃ a, (t.lockMap pgas).Holds a n := by
  cases hslot : t.slot? p with
  | none =>
    simp only [Ssht.lockCount, hslot] at hpos
    exact absurd hpos (Nat.lt_irrefl 0)
  | some sl =>
    rw [Ssht.lockCount_of_slot hslot] at hpos
    rcases entryLocks_pos_iff.mp hpos with hr | hw
    · exact ⟨sl.addr, Or.inr ((reader_lockMap_eq_true h).mpr ⟨p, sl, hslot, rfl, hr⟩)⟩
    · exact ⟨sl.addr, Or.inl ((writer_lockMap_eq_some h).mpr
        ⟨p, sl, hslot, rfl, hw, ne_noWriter hn⟩)⟩

/-- A node without locks has an empty log. -/
theorem Accounted.absent (h : Accounted pgas t) {n : Nat} (hn : n < idBound E)
    (hnone : ∀ a, ¬ (t.lockMap pgas).Holds a n) : Absent t n := by
  have hzero : ∀ p, t.lockCount p n = 0 := by
    intro p
    by_contra hne
    obtain ⟨a, ha⟩ := h.holds_of_lockCount hn (Nat.pos_of_ne_zero hne)
    exact hnone a ha
  refine ⟨?_, hzero⟩
  by_contra hne
  obtain ⟨p, hp⟩ := List.exists_mem_of_ne_nil _ hne
  have hpos := h.pointed n p hn (List.count_pos_iff.mpr hp)
  rw [hzero p] at hpos
  exact Nat.lt_irrefl 0 hpos

/-! ### The table operations on the lock map -/

theorem writer_lockMap_deleteNode (h : Accounted pgas t) {n : Nat} (hn : n < idBound E)
    (a w : Nat) : ((tm2cHtDeleteNode t n).lockMap pgas).writer a = some w ↔
      (t.lockMap pgas).writer a = some w ∧ w ≠ n := by
  rw [writer_lockMap_eq_some (h.deleteNode hn), writer_lockMap_eq_some h]
  constructor
  · rintro ⟨p, sl', hslot', haddr, hw, hne⟩
    obtain ⟨sl, hslot, hremoved, hzero⟩ := h.exists_of_deleteNode hn hslot'
    have hw' : writer sl.entry = w := by
      rcases hremoved.writer with heq | ⟨-, hno⟩
      · rw [← heq, hw]
      · exact absurd (hw.symm.trans hno) hne
    refine ⟨⟨p, sl, hslot, ?_, hw', hne⟩, ?_⟩
    · rcases hremoved.freed with heq | hempty
      · rw [← heq, haddr]
      · exact absurd (hw.symm.trans hempty.1) hne
    · rintro rfl
      exact (entryLocks_eq_zero_iff.mp hzero).2 hw
  · rintro ⟨⟨p, sl, hslot, haddr, hw, hne⟩, hwn⟩
    obtain ⟨sl', hslot', hremoved, -⟩ := h.removed_deleteNode hn hslot
    have hw' : writer sl'.entry = w := by
      rcases hremoved.writer with heq | ⟨hself, -⟩
      · rw [heq, hw]
      · exact absurd (hw.symm.trans hself) hwn
    refine ⟨p, sl', hslot', ?_, hw', hne⟩
    rcases hremoved.freed with heq | hempty
    · rw [heq, haddr]
    · exact absurd (hw'.symm.trans hempty.1) hne

theorem reader_lockMap_deleteNode (h : Accounted pgas t) {n : Nat} (hn : n < idBound E)
    (a k : Nat) : ((tm2cHtDeleteNode t n).lockMap pgas).reader a k = true ↔
      (t.lockMap pgas).reader a k = true ∧ k ≠ n := by
  rw [reader_lockMap_eq_true (h.deleteNode hn), reader_lockMap_eq_true h]
  constructor
  · rintro ⟨p, sl', hslot', haddr, hread⟩
    obtain ⟨sl, hslot, hremoved, hzero⟩ := h.exists_of_deleteNode hn hslot'
    have hkn : k ≠ n := by
      rintro rfl
      rw [(entryLocks_eq_zero_iff.mp hzero).1] at hread
      cases hread
    refine ⟨⟨p, sl, hslot, ?_, ?_⟩, hkn⟩
    · rcases hremoved.freed with heq | hempty
      · rw [← heq, haddr]
      · rw [hempty.2 k] at hread
        cases hread
    · rw [← hremoved.reader k hkn, hread]
  · rintro ⟨⟨p, sl, hslot, haddr, hread⟩, hkn⟩
    obtain ⟨sl', hslot', hremoved, -⟩ := h.removed_deleteNode hn hslot
    have hread' : isReader sl'.entry k = true := by
      rw [hremoved.reader k hkn, hread]
    refine ⟨p, sl', hslot', ?_, hread'⟩
    rcases hremoved.freed with heq | hempty
    · rw [heq, haddr]
    · rw [hempty.2 k] at hread'
      cases hread'

/-- Deleting a node by its log is releasing everything that it holds. -/
theorem lockMap_deleteNode (h : Accounted pgas t) {n : Nat} (hn : n < idBound E) :
    (tm2cHtDeleteNode t n).lockMap pgas = (t.lockMap pgas).release n := by
  apply LockMap.ext
  · funext a
    apply Option.ext
    intro w
    rw [writer_lockMap_deleteNode h hn, LockMap.writer_release_eq_some]
  · funext a k
    rw [Bool.eq_iff_iff, reader_lockMap_deleteNode h hn, LockMap.reader_release_eq_true]

def deleteNodes (t : Ssht E) (vs : List Nat) : Ssht E := vs.foldl tm2cHtDeleteNode t

theorem deleteNodes_spec (h : Accounted pgas t) {vs : List Nat} (hvs : ∀ v ∈ vs, v < idBound E)
    {p : SlotPtr} {sl : Slot E} {addr : Nat} (hfor : SlotFor pgas t p sl addr) :
    Accounted pgas (deleteNodes t vs) ∧
    (deleteNodes t vs).lockMap pgas = (t.lockMap pgas).releaseAll vs ∧
    ∃ sl', SlotFor pgas (deleteNodes t vs) p sl' addr := by
  induction vs generalizing t sl with
  | nil => exact ⟨h, rfl, sl, hfor⟩
  | cons v vs ih =>
    have hv : v < idBound E := hvs v List.mem_cons_self
    obtain ⟨sl', hfor', -⟩ := hfor.deleteNode h hv
    rcases ih (h.deleteNode hv) (fun w hw => hvs w (List.mem_cons_of_mem v hw)) hfor' with
      ⟨hacc, hmap, hslot⟩
    refine ⟨hacc, ?_, hslot⟩
    rw [LockMap.releaseAll_cons, ← lockMap_deleteNode h hv]
    exact hmap

theorem Accounted.deleteNodes (h : Accounted pgas t) {vs : List Nat}
    (hvs : ∀ v ∈ vs, v < idBound E) : Accounted pgas (deleteNodes t vs) := by
  induction vs generalizing t with
  | nil => exact h
  | cons v vs ih =>
    exact ih (h.deleteNode (hvs v List.mem_cons_self))
      fun w hw => hvs w (List.mem_cons_of_mem v hw)

theorem lockMap_bucketAlloc (h : Accounted pgas t) (bu : Nat) :
    (bucketAlloc t bu).1.lockMap pgas = t.lockMap pgas := by
  have h' := h.bucketAlloc bu
  have hnew : ∀ p sl, t.slot? p = some sl → (bucketAlloc t bu).1.slot? p = some sl := by
    intro p sl hp
    rcases (bucketAlloc_spec t bu).2.2.2 p with hsame | ⟨hnone, -⟩
    · rw [hsame, hp]
    · rw [hp] at hnone
      cases hnone
  apply LockMap.ext
  · funext a
    apply Option.ext
    intro w
    rw [writer_lockMap_eq_some h', writer_lockMap_eq_some h]
    constructor
    · rintro ⟨p, sl, hslot, haddr, hw, hne⟩
      rcases slot_bucketAlloc hslot with hslot | rfl
      · exact ⟨p, sl, hslot, haddr, hw, hne⟩
      · exact absurd (hw.symm.trans writer_new) hne
    · rintro ⟨p, sl, hslot, hrest⟩
      exact ⟨p, sl, hnew p sl hslot, hrest⟩
  · funext a n
    rw [Bool.eq_iff_iff, reader_lockMap_eq_true h', reader_lockMap_eq_true h]
    constructor
    · rintro ⟨p, sl, hslot, haddr, hread⟩
      rcases slot_bucketAlloc hslot with hslot | rfl
      · exact ⟨p, sl, hslot, haddr, hread⟩
      · rw [isReader_new] at hread
        cases hread
    · rintro ⟨p, sl, hslot, hrest⟩
      exact ⟨p, sl, hnew p sl hslot, hrest⟩

/-- What entering a lock in the slot of an address does to the lock map: nothing
at the other addresses. -/
theorem lockMap_enter (h : Accounted pgas t) {p : SlotPtr} {sl : Slot E} {addr n : Nat}
    (hfor : SlotFor pgas t p sl addr) {f : Slot E → Slot E} (haddr : (f sl).addr = addr)
    (h' : Accounted pgas (sshtLogSetInsert (t.modifySlot p f) n p)) :
    (∀ a, ((sshtLogSetInsert (t.modifySlot p f) n p).lockMap pgas).writer a =
      if a = addr then entryWriter (f sl).entry else (t.lockMap pgas).writer a) ∧
    ∀ a k, ((sshtLogSetInsert (t.modifySlot p f) n p).lockMap pgas).reader a k =
      if a = addr then isReader (f sl).entry k else (t.lockMap pgas).reader a k := by
  have hat : (sshtLogSetInsert (t.modifySlot p f) n p).slot? p = some (f sl) :=
    Ssht.slot?_modifySlot_self hfor.slot f
  have helse : ∀ q, q ≠ p → (sshtLogSetInsert (t.modifySlot p f) n p).slot? q = t.slot? q :=
    fun q hq => Ssht.slot?_modifySlot_of_ne hq f
  have hfor' : SlotFor pgas (sshtLogSetInsert (t.modifySlot p f) n p) p (f sl) addr := by
    refine ⟨hat, hfor.addr_ne, hfor.home, Or.inr haddr, ?_⟩
    intro q sl' hq hqaddr
    exact h'.unique q p sl' (f sl) hq hat (hqaddr ▸ hfor.addr_ne) (hqaddr.trans haddr.symm)
  have hmap := hfor'.lockMap_eq h'
  -- an address that is not `addr` is in another slot, if it is in one
  constructor
  · intro a
    by_cases ha : a = addr
    · rw [if_pos ha, ha]
      exact hmap.1
    · rw [if_neg ha]
      apply Option.ext
      intro w
      rw [writer_lockMap_eq_some h', writer_lockMap_eq_some h]
      constructor
      · rintro ⟨q, sl', hslot, hqaddr, hrest⟩
        have hqp : q ≠ p := by
          rintro rfl
          rw [hat, Option.some.injEq] at hslot
          exact ha (by rw [← hqaddr, ← hslot, haddr])
        exact ⟨q, sl', helse q hqp ▸ hslot, hqaddr, hrest⟩
      · rintro ⟨q, sl', hslot, hqaddr, hw, hne⟩
        have hqp : q ≠ p := by
          rintro rfl
          rw [hfor.slot, Option.some.injEq] at hslot
          subst hslot
          -- the slot was free, and a free slot has no lock
          rcases hfor.addr_eq with hzero | heq
          · exact hne (hw.symm.trans (h.free q sl hfor.slot hzero).1)
          · exact ha (hqaddr.symm.trans heq)
        exact ⟨q, sl', (helse q hqp).trans hslot, hqaddr, hw, hne⟩
  · intro a k
    by_cases ha : a = addr
    · rw [if_pos ha, ha]
      exact hmap.2 k
    · rw [if_neg ha, Bool.eq_iff_iff, reader_lockMap_eq_true h', reader_lockMap_eq_true h]
      constructor
      · rintro ⟨q, sl', hslot, hqaddr, hrest⟩
        have hqp : q ≠ p := by
          rintro rfl
          rw [hat, Option.some.injEq] at hslot
          exact ha (by rw [← hqaddr, ← hslot, haddr])
        exact ⟨q, sl', helse q hqp ▸ hslot, hqaddr, hrest⟩
      · rintro ⟨q, sl', hslot, hqaddr, hread⟩
        have hqp : q ≠ p := by
          rintro rfl
          rw [hfor.slot, Option.some.injEq] at hslot
          subst hslot
          rcases hfor.addr_eq with hzero | heq
          · rw [(h.free q sl hfor.slot hzero).2 k] at hread
            cases hread
          · exact ha (hqaddr.symm.trans heq)
        exact ⟨q, sl', (helse q hqp).trans hslot, hqaddr, hread⟩

theorem lockMap_markReader (h : Accounted pgas t) {p : SlotPtr} {sl : Slot E} {addr n : Nat}
    (hfor : SlotFor pgas t p sl addr) (hn : n < idBound E)
    (hfree : exact E = true → isReader sl.entry n = false) :
    (markReader t p n addr).lockMap pgas = (t.lockMap pgas).acquireRead addr n := by
  have hmap := hfor.lockMap_eq h
  rcases lockMap_enter (n := n) h hfor (f := fun sl => ⟨addr, addReader sl.entry n⟩) rfl
    (h.markReader hfor hn hfree) with ⟨hwriter, hreader⟩
  apply LockMap.ext
  · funext a
    refine (hwriter a).trans ?_
    by_cases ha : a = addr
    · rw [if_pos ha, LockMap.writer_acquireRead, ha, hmap.1]
      unfold entryWriter
      rw [writer_addReader]
    · rw [if_neg ha]
      rfl
  · funext a k
    refine (hreader a k).trans ?_
    by_cases ha : a = addr
    · rw [if_pos ha, ha, isReader_addReader hn]
      simp [LockMap.acquireRead, hmap.2 k]
    · rw [if_neg ha]
      simp [LockMap.acquireRead, ha]

theorem lockMap_markReaderFound (h : Accounted pgas t) {p : SlotPtr} {sl : Slot E} {addr n : Nat}
    (hfor : SlotFor pgas t p sl addr) (hn : n < idBound E) :
    (markReaderFound t p n addr).lockMap pgas = (t.lockMap pgas).acquireRead addr n := by
  rcases markReaderFound_cases hfor.slot hfor.addr_eq
      fun hzero => (h.free p sl hfor.slot hzero).2 n with
    ⟨hsame, -, -, hread⟩ | ⟨hmark, hfree⟩
  · -- the node reads the address already
    rw [hsame]
    apply LockMap.ext
    · rfl
    · funext a k
      rw [Bool.eq_iff_iff, LockMap.reader_acquireRead_eq_true]
      constructor
      · exact Or.inr
      · rintro (⟨rfl, rfl⟩ | hk)
        · rw [(hfor.lockMap_eq h).2]
          exact hread
        · exact hk
  · rw [hmark]
    exact lockMap_markReader h hfor hn hfree

theorem lockMap_markWriter (h : Accounted pgas t) {p : SlotPtr} {sl : Slot E} {addr n : Nat}
    (hfor : SlotFor pgas t p sl addr) (hn : n < idBound E)
    (hwriter : writer sl.entry = SSHT_NO_WRITER ∨ writer sl.entry = n)
    (hfree : exact E = true → writer sl.entry ≠ n) :
    (markWriter t p n addr).lockMap pgas = (t.lockMap pgas).acquireWrite addr n := by
  have hmap := hfor.lockMap_eq h
  rcases lockMap_enter (n := n) h hfor (f := fun sl => ⟨addr, setWriter sl.entry n⟩) rfl
    (h.markWriter hfor hn hwriter hfree) with ⟨hw, hr⟩
  apply LockMap.ext
  · funext a
    refine (hw a).trans ?_
    rw [LockMap.writer_acquireWrite]
    by_cases ha : a = addr
    · rw [if_pos ha, if_pos ha]
      exact entryWriter_eq_some.mpr ⟨writer_setWriter_of_lt hn, ne_noWriter hn⟩
    · rw [if_neg ha, if_neg ha]
  · funext a k
    refine (hr a k).trans ?_
    rw [LockMap.reader_acquireWrite]
    by_cases ha : a = addr
    · rw [if_pos ha, ha, isReader_setWriter, hmap.2]
    · rw [if_neg ha]

end Represented

/-! ### The contention manager -/

section Contention

variable {E : Type} [RwEntry E] {cfg : Config}

theorem contentionManagerRawWaw_eq (s : Dsl E) (id w : Nat) (conflict : Conflict) :
    contentionManagerRawWaw cfg s id w conflict =
      if Precedes s.timestamp id w then (true, abortDefender cfg s w conflict)
      else (false, s) := rfl

theorem contentionManagerWar_eq (s : Dsl E) (id : Nat) (readers : Nat → Bool)
    (conflict : Conflict) :
    contentionManagerWar cfg s id readers conflict =
      if ∀ n ∈ (List.range cfg.numUes).filter fun n => readers n && decide (n ≠ id),
        Precedes s.timestamp id n
      then (true, ((List.range cfg.numUes).filter fun n => readers n && decide (n ≠ id)).foldl
        (fun s v => abortDefender cfg s v conflict) s)
      else (false, s) := by
  have hlost : ((List.range cfg.numUes).any fun n => readers n &&
      (decide (s.timestamp id > s.timestamp n) ||
        (s.timestamp id == s.timestamp n && decide (n < id)))) = true ↔
      ¬ ∀ n ∈ (List.range cfg.numUes).filter fun n => readers n && decide (n ≠ id),
        Precedes s.timestamp id n := by
    simp only [List.any_eq_true, List.mem_range, List.mem_filter, Bool.and_eq_true,
      Bool.or_eq_true, decide_eq_true_eq, beq_iff_eq, Precedes]
    constructor
    · rintro ⟨n, hlt, hread, hprec⟩ hall
      have hne : n ≠ id := by
        rintro rfl
        omega
      have := hall n ⟨hlt, hread, hne⟩
      omega
    · intro hnot
      by_contra hnone
      apply hnot
      rintro n ⟨hlt, hread, hne⟩
      by_contra hprec
      exact hnone ⟨n, hlt, hread, by omega⟩
  unfold contentionManagerWar
  by_cases hall : ∀ n ∈ (List.range cfg.numUes).filter fun n => readers n && decide (n ≠ id),
      Precedes s.timestamp id n
  · rw [if_pos hall, if_neg (fun h => hlost.mp h hall)]
  · rw [if_neg hall, if_pos (hlost.mpr hall)]

end Contention

/-! ### Requests -/

section Requests

variable {E : Type} [LawfulRwEntry E] {cfg : Config} {pgas : Bool}

theorem ht_foldl_abortDefender (vs : List Nat) (hclean : cfg.pgas = false ∨ vs = [])
    (s : Dsl E) (conflict : Conflict) :
    (vs.foldl (fun s v => abortDefender cfg s v conflict) s).ht = deleteNodes s.ht vs ∧
      (vs.foldl (fun s v => abortDefender cfg s v conflict) s).timestamp = s.timestamp := by
  induction vs generalizing s with
  | nil => exact ⟨rfl, rfl⟩
  | cons v vs ih =>
    have hpgas : cfg.pgas = false := hclean.resolve_right (List.cons_ne_nil v vs)
    have hstep : (abortDefender cfg s v conflict).ht = tm2cHtDeleteNode s.ht v ∧
        (abortDefender cfg s v conflict).timestamp = s.timestamp := by
      simp [abortDefender, hpgas]
    obtain ⟨hht, hts⟩ := ih (Or.inl hpgas) (abortDefender cfg s v conflict)
    rw [List.foldl_cons, hht, hts, hstep.1, hstep.2]
    exact ⟨rfl, rfl⟩

/-- A victim has its locks deleted at once, unless in the PGAS build. -/
theorem pgas_of_real (hclean : cfg.pgas = false ∨ cfg.cm.isReal = false)
    (hreal : cfg.cm.isReal = true) : cfg.pgas = false := by
  rcases hclean with hpgas | hweak
  · exact hpgas
  · rw [hweak] at hreal
    cases hreal

/-- The slot of an address that the scan found, after the victims are deleted. -/
theorem markFound_spec {t : Ssht E} (h : Accounted pgas t) {p : SlotPtr} {sl : Slot E}
    {id addr : Nat} (rw : RW) (vs : List Nat) (hfor : SlotFor pgas t p sl addr)
    (hid : id < idBound E) (hvs : ∀ v ∈ vs, v < idBound E)
    (hwriter : rw = .write → ∀ w, ((t.lockMap pgas).releaseAll vs).writer addr = some w → w = id)
    (hfree : exact E = true → rw = .write → (t.lockMap pgas).writer addr ≠ some id) :
    let t' := match rw with
      | .read => markReaderFound (deleteNodes t vs) p id addr
      | .write => markWriter (deleteNodes t vs) p id addr
    Accounted pgas t' ∧ t'.lockMap pgas = acquire ((t.lockMap pgas).releaseAll vs) id addr rw := by
  obtain ⟨h', hmap, sl', hfor'⟩ := deleteNodes_spec h hvs hfor
  cases rw with
  | read =>
    exact ⟨h'.markReaderFound hfor' hid, by rw [lockMap_markReaderFound h' hfor' hid, hmap]; rfl⟩
  | write =>
    have hentry : (((t.lockMap pgas).releaseAll vs)).writer addr = entryWriter sl'.entry := by
      rw [← hmap]
      exact (hfor'.lockMap_eq h').1
    have hwriter' : writer sl'.entry = SSHT_NO_WRITER ∨ writer sl'.entry = id := by
      cases hw : entryWriter sl'.entry with
      | none => exact Or.inl (entryWriter_eq_none.mp hw)
      | some w =>
        rw [hw] at hentry
        exact Or.inr ((entryWriter_eq_some.mp hw).1.trans (hwriter rfl w hentry))
    have hfree' : exact E = true → writer sl'.entry ≠ id := by
      intro hexact heq
      have hw : entryWriter sl'.entry = some id := entryWriter_eq_some.mpr ⟨heq, ne_noWriter hid⟩
      rw [hw] at hentry
      exact hfree hexact rfl (LockMap.writer_releaseAll_eq_some.mp hentry).1
    refine ⟨h'.markWriter hfor' hid hwriter' hfree', ?_⟩
    rw [lockMap_markWriter h' hfor' hid hwriter' hfree', hmap]
    rfl

/-- The slot that is taken for an address without one. -/
theorem markAlloc_spec {t : Ssht E} (h : Accounted pgas t) {id addr : Nat} (rw : RW)
    (haddr : addr ≠ 0)
    (hfind : bucketFind (t.bucket (bucketOf pgas addr)) addr = none) (hid : id < idBound E) :
    let r := bucketAlloc t (bucketOf pgas addr)
    let t' := match rw with
      | .read => markReader r.1 r.2 id addr
      | .write => markWriter r.1 r.2 id addr
    Accounted pgas t' ∧ t'.lockMap pgas = acquire (t.lockMap pgas) id addr rw := by
  obtain ⟨sl, hzero, hfor⟩ := h.slotFor_alloc haddr hfind
  have h' := h.bucketAlloc (bucketOf pgas addr)
  obtain ⟨hw, hr⟩ := h'.free _ sl hfor.slot hzero
  have hmap := lockMap_bucketAlloc h (bucketOf pgas addr)
  cases rw with
  | read =>
    refine ⟨h'.markReader hfor hid fun _ => hr id, ?_⟩
    rw [lockMap_markReader h' hfor hid fun _ => hr id, hmap]
    rfl
  | write =>
    have hne : writer sl.entry ≠ id := by
      rw [hw]
      exact fun h => ne_noWriter hid h.symm
    refine ⟨h'.markWriter hfor hid (Or.inl hw) fun _ => hne, ?_⟩
    rw [lockMap_markWriter h' hfor hid (Or.inl hw) fun _ => hne, hmap]
    rfl

/-- What a request does to the table is what its verdict says. -/
def Carries (pgas : Bool) (s : Dsl E) (id addr : Nat) (rw : RW) (v : Verdict)
    (r : Conflict × Dsl E) : Prop :=
  match v with
  | .refuse conflict => r = (conflict, s)
  | .grant victims =>
    r.1 = .noConflict ∧ Accounted pgas r.2.ht ∧ r.2.timestamp = s.timestamp ∧
      r.2.ht.lockMap pgas = acquire ((s.ht.lockMap pgas).releaseAll victims) id addr rw

theorem carries_bucketInsertR (hclean : cfg.pgas = false ∨ cfg.cm.isReal = false) {s : Dsl E}
    {id addr : Nat} (h : Accounted pgas s.ht) (hid : id < idBound E) (haddr : addr ≠ 0) :
    Carries pgas s id addr .read
      (verdict cfg s.timestamp (s.ht.lockMap pgas) id addr .read)
      (bucketInsertR cfg s (bucketOf pgas addr) id addr) := by
  unfold bucketInsertR
  cases hfind : bucketFind (s.ht.bucket (bucketOf pgas addr)) addr with
  | none =>
    simp only [verdict, (Ssht.lockMap_of_notFound hfind).1]
    obtain ⟨hacc, hmap⟩ := markAlloc_spec h .read haddr hfind hid
    exact ⟨rfl, hacc, rfl, hmap⟩
  | some r =>
    obtain ⟨i, sl⟩ := r
    have hfor := h.slotFor_found haddr hfind
    have hmapw := (hfor.lockMap_eq h).1
    simp only [verdict, hmapw, ne_eq, ite_not]
    by_cases hno : writer sl.entry = SSHT_NO_WRITER
    · rw [entryWriter_eq_none.mpr hno, if_pos hno]
      rcases markFound_spec h .read [] hfor hid (by simp) (fun hrw => by cases hrw)
        (fun _ hrw => by cases hrw) with ⟨hacc, hmap⟩
      exact ⟨rfl, hacc, rfl, hmap⟩
    · have hsome : entryWriter sl.entry = some (writer sl.entry) :=
        entryWriter_eq_some.mpr ⟨rfl, hno⟩
      rw [hsome, if_neg hno]
      simp only [attackWriter]
      by_cases hreal : cfg.cm.isReal = true
      · rw [if_pos hreal, contentionManagerRawWaw_eq]
        by_cases hprec : Precedes s.timestamp id (writer sl.entry)
        · rw [if_pos hprec, if_pos ⟨hreal, hprec⟩]
          have hv : writer sl.entry < idBound E := by
            rcases h.writer_lt _ sl hfor.slot with hw | hw
            · exact absurd hw hno
            · exact hw
          rcases markFound_spec h .read [writer sl.entry] hfor hid
            (by simpa using hv) (fun hrw => by cases hrw) (fun _ hrw => by cases hrw) with
            ⟨hacc, hmap⟩
          have habort := ht_foldl_abortDefender [writer sl.entry]
            (Or.inl (pgas_of_real hclean hreal)) s .readAfterWrite
          simp only [List.foldl_cons, List.foldl_nil] at habort
          refine ⟨rfl, ?_, habort.2, ?_⟩
          · simp only [if_true, habort.1]
            exact hacc
          · simp only [if_true, habort.1]
            exact hmap
        · rw [if_neg hprec, if_neg (fun hc => hprec hc.2)]
          rfl
      · rw [if_neg hreal, if_neg (fun hc => hreal hc.1)]
        rfl

/-! The slot of a write request that the scan found. -/

section Found

variable {s : Dsl E} {id addr : Nat} {p : SlotPtr} {sl : Slot E}

theorem victim_lt (h : Accounted pgas s.ht) (hfor : SlotFor pgas s.ht p sl addr) {v : Nat}
    (hv : (v = writer sl.entry ∧ v ≠ SSHT_NO_WRITER) ∨ isReader sl.entry v = true) :
    v < idBound E := by
  obtain ⟨rfl, hno⟩ | hread := hv
  · obtain hw | hw := h.writer_lt _ sl hfor.slot
    · exact absurd hw hno
    · exact hw
  · exact reader_lt (h.valid _ sl hfor.slot) hread

theorem verdict_write_found (h : Accounted pgas s.ht) (hfor : SlotFor pgas s.ht p sl addr) :
    verdict cfg s.timestamp (s.ht.lockMap pgas) id addr .write =
      if writer sl.entry ≠ SSHT_NO_WRITER ∧ writer sl.entry ≠ id then
        attackWriter cfg s.timestamp id (writer sl.entry) .writeAfterWrite
      else attackReaders cfg s.timestamp id (isReader sl.entry) .writeAfterRead := by
  obtain ⟨hwriter, hreader⟩ := hfor.lockMap_eq h
  have hreader' : (s.ht.lockMap pgas).reader addr = isReader sl.entry := funext hreader
  simp only [verdict, hwriter, hreader']
  by_cases hno : writer sl.entry = SSHT_NO_WRITER
  · rw [entryWriter_eq_none.mpr hno, if_neg (fun hc => hc.1 hno)]
  · rw [entryWriter_eq_some.mpr ⟨rfl, hno⟩]
    by_cases hself : writer sl.entry = id
    · simp [hself]
    · simp [hno, hself]

/-- The readers that the code looks for are the readers below `numUes`. -/
theorem hasOtherReaders_iff_others (h : Accounted pgas s.ht)
    (hbound : Bounded cfg (s.ht.lockMap pgas)) (hid : id < idBound E)
    (hfor : SlotFor pgas s.ht p sl addr) :
    hasOtherReaders sl.entry id = true ↔
      ((List.range cfg.numUes).filter fun n => isReader sl.entry n && decide (n ≠ id)) ≠ [] := by
  rw [hasOtherReaders_iff (h.valid _ sl hfor.slot) hid]
  constructor
  · rintro ⟨m, hm, hread⟩
    apply List.ne_nil_of_mem (a := m)
    rw [List.mem_filter, List.mem_range]
    refine ⟨hbound addr m (Or.inr ?_), by simp [hm, hread]⟩
    rw [(hfor.lockMap_eq h).2 m, hread]
  · intro hne
    obtain ⟨m, hm⟩ := List.exists_mem_of_ne_nil _ hne
    have hm' := (List.mem_filter.mp hm).2
    rw [Bool.and_eq_true, decide_eq_true_eq] at hm'
    exact ⟨m, hm'.2, hm'.1⟩

/-- The victims are aborted and deleted before the writer is entered. -/
theorem carries_markWriter {vs : List Nat} (hclean : cfg.pgas = false ∨ vs = [])
    (h : Accounted pgas s.ht) (hid : id < idBound E)
    (hfree : exact E = true → (s.ht.lockMap pgas).writer addr ≠ some id)
    (hfor : SlotFor pgas s.ht p sl addr) (hvs : ∀ v ∈ vs, v < idBound E)
    (hv : verdict cfg s.timestamp (s.ht.lockMap pgas) id addr .write = .grant vs)
    (conflict : Conflict) :
    Carries pgas s id addr .write (.grant vs)
      (.noConflict, { vs.foldl (fun s v => abortDefender cfg s v conflict) s with
        ht := markWriter (vs.foldl (fun s v => abortDefender cfg s v conflict) s).ht p id
          addr }) := by
  obtain ⟨hacc, hmap⟩ := markFound_spec h .write vs hfor hid hvs
    (fun _ w hw => (writer_of_granted hv hw).2) (fun hexact _ => hfree hexact)
  obtain ⟨hht, hts⟩ := ht_foldl_abortDefender _ hclean s conflict
  refine ⟨rfl, ?_, hts, ?_⟩
  · rw [hht]
    exact hacc
  · rw [hht]
    exact hmap

/-- A write request where nobody else writes. -/
theorem carries_attackReaders (hclean : cfg.pgas = false ∨ cfg.cm.isReal = false)
    (h : Accounted pgas s.ht) (hbound : Bounded cfg (s.ht.lockMap pgas)) (hid : id < idBound E)
    (hfree : exact E = true → (s.ht.lockMap pgas).writer addr ≠ some id)
    (hfor : SlotFor pgas s.ht p sl addr)
    (hverdict : verdict cfg s.timestamp (s.ht.lockMap pgas) id addr .write =
      attackReaders cfg s.timestamp id (isReader sl.entry) .writeAfterRead) :
    Carries pgas s id addr .write
      (attackReaders cfg s.timestamp id (isReader sl.entry) .writeAfterRead)
      (if hasOtherReaders sl.entry id = true then
        if cfg.cm.isReal = true then
          if (contentionManagerWar cfg s id (isReader sl.entry) .writeAfterRead).1 = true then
            (.noConflict,
              { (contentionManagerWar cfg s id (isReader sl.entry) .writeAfterRead).2 with
                ht := markWriter
                  (contentionManagerWar cfg s id (isReader sl.entry) .writeAfterRead).2.ht
                  p id addr })
          else (.writeAfterRead,
            (contentionManagerWar cfg s id (isReader sl.entry) .writeAfterRead).2)
        else (.writeAfterRead, s)
      else (.noConflict, { s with ht := markWriter s.ht p id addr })) := by
  have hothers := hasOtherReaders_iff_others h hbound hid hfor
  have hlt : ∀ v ∈ (List.range cfg.numUes).filter
      (fun n => isReader sl.entry n && decide (n ≠ id)), v < idBound E := by
    intro v hv
    have hread := (List.mem_filter.mp hv).2
    exact victim_lt h hfor (Or.inr (Bool.and_eq_true_iff.mp hread).1)
  rw [contentionManagerWar_eq]
  by_cases hnil :
      ((List.range cfg.numUes).filter fun n => isReader sl.entry n && decide (n ≠ id)) = []
  · have hattack : attackReaders cfg s.timestamp id (isReader sl.entry) .writeAfterRead =
        .grant [] := by
      rw [attackReaders_eq_grant]
      exact ⟨hnil.symm, fun hne => absurd rfl hne⟩
    rw [hattack, if_neg (fun hc => hothers.mp hc hnil)]
    exact carries_markWriter (Or.inr rfl) h hid hfree hfor (by simp) (hverdict.trans hattack)
      .writeAfterRead
  rw [if_pos (hothers.mpr hnil)]
  by_cases hreal : cfg.cm.isReal = true
  · rw [if_pos hreal]
    by_cases hall : ∀ n ∈ (List.range cfg.numUes).filter
        (fun n => isReader sl.entry n && decide (n ≠ id)), Precedes s.timestamp id n
    · have hattack : attackReaders cfg s.timestamp id (isReader sl.entry) .writeAfterRead =
          .grant ((List.range cfg.numUes).filter
            fun n => isReader sl.entry n && decide (n ≠ id)) := by
        rw [attackReaders_eq_grant]
        exact ⟨rfl, fun _ => ⟨hreal, hall⟩⟩
      rw [hattack, if_pos hall]
      exact carries_markWriter (Or.inl (pgas_of_real hclean hreal)) h hid hfree hfor hlt
        (hverdict.trans hattack) .writeAfterRead
    · simp only [attackReaders, if_neg hnil, if_neg (fun hc => hall (And.right hc)), if_neg hall]
      rfl
  · simp only [attackReaders, if_neg hnil, if_neg (fun hc => hreal (And.left hc)), if_neg hreal]
    rfl

/-- A write request where another node writes. -/
theorem carries_attackWriter (hclean : cfg.pgas = false ∨ cfg.cm.isReal = false)
    (h : Accounted pgas s.ht) (hid : id < idBound E)
    (hfree : exact E = true → (s.ht.lockMap pgas).writer addr ≠ some id)
    (hfor : SlotFor pgas s.ht p sl addr) (hno : writer sl.entry ≠ SSHT_NO_WRITER)
    (hverdict : verdict cfg s.timestamp (s.ht.lockMap pgas) id addr .write =
      attackWriter cfg s.timestamp id (writer sl.entry) .writeAfterWrite) :
    Carries pgas s id addr .write
      (attackWriter cfg s.timestamp id (writer sl.entry) .writeAfterWrite)
      (if cfg.cm.isReal = true then
        if (contentionManagerRawWaw cfg s id (writer sl.entry) .writeAfterWrite).1 = true then
          (.noConflict,
            { (contentionManagerRawWaw cfg s id (writer sl.entry) .writeAfterWrite).2 with
              ht := markWriter
                (contentionManagerRawWaw cfg s id (writer sl.entry) .writeAfterWrite).2.ht
                p id addr })
        else (.writeAfterWrite,
          (contentionManagerRawWaw cfg s id (writer sl.entry) .writeAfterWrite).2)
      else (.writeAfterWrite, s)) := by
  rw [contentionManagerRawWaw_eq]
  by_cases hreal : cfg.cm.isReal = true
  · rw [if_pos hreal]
    by_cases hprec : Precedes s.timestamp id (writer sl.entry)
    · have hattack : attackWriter cfg s.timestamp id (writer sl.entry) .writeAfterWrite =
          .grant [writer sl.entry] := if_pos ⟨hreal, hprec⟩
      rw [hattack, if_pos hprec]
      have hlt : ∀ v ∈ [writer sl.entry], v < idBound E := by
        intro v hv
        rw [List.mem_singleton] at hv
        exact victim_lt h hfor (Or.inl ⟨hv, hv ▸ hno⟩)
      exact carries_markWriter (Or.inl (pgas_of_real hclean hreal)) h hid hfree hfor hlt
        (hverdict.trans hattack) .writeAfterWrite
    · rw [if_neg hprec, attackWriter, if_neg (fun hc => hprec hc.2)]
      rfl
  · rw [if_neg hreal, attackWriter, if_neg (fun hc => hreal hc.1)]
    rfl

end Found

theorem carries_bucketInsertW (hclean : cfg.pgas = false ∨ cfg.cm.isReal = false) {s : Dsl E}
    {id addr : Nat} (h : Accounted pgas s.ht) (hbound : Bounded cfg (s.ht.lockMap pgas))
    (hid : id < idBound E)
    (haddr : addr ≠ 0) (hfree : exact E = true → (s.ht.lockMap pgas).writer addr ≠ some id) :
    Carries pgas s id addr .write
      (verdict cfg s.timestamp (s.ht.lockMap pgas) id addr .write)
      (bucketInsertW cfg s (bucketOf pgas addr) id addr) := by
  unfold bucketInsertW
  cases hfind : bucketFind (s.ht.bucket (bucketOf pgas addr)) addr with
  | none =>
    obtain ⟨hw, hr⟩ := Ssht.lockMap_of_notFound hfind
    have hnone : attackReaders cfg s.timestamp id (fun _ => false) .writeAfterRead = .grant [] := by
      simp [attackReaders]
    simp only [verdict, hw, hr, hnone]
    obtain ⟨hacc, hmap⟩ := markAlloc_spec h .write haddr hfind hid
    exact ⟨rfl, hacc, rfl, hmap⟩
  | some r =>
    obtain ⟨i, sl⟩ := r
    have hfor := h.slotFor_found haddr hfind
    have hverdict : verdict cfg s.timestamp (s.ht.lockMap pgas) id addr .write = _ :=
      verdict_write_found h hfor
    by_cases hother : writer sl.entry ≠ SSHT_NO_WRITER ∧ writer sl.entry ≠ id
    · rw [if_pos hother] at hverdict
      simp only [if_pos hother]
      rw [hverdict]
      exact carries_attackWriter hclean h hid hfree hfor hother.1 hverdict
    · rw [if_neg hother] at hverdict
      simp only [if_neg hother]
      rw [hverdict]
      exact carries_attackReaders hclean h hbound hid hfree hfor hverdict

end Requests

/-! ### Messages -/

section Messages

variable {E : Type} [LawfulRwEntry E] {cfg : Config}

/-- The state of the service node as the abstract service sees it. -/
def Dsl.abstraction (s : Dsl E) : LockService := ⟨s.ht.lockMap false, s.timestamp⟩

/-- A message that the table can take: the ids are in range, and with the byte
array the sender does not store again to an address it writes already. -/
structure Admissible (cfg : Config) (s : Dsl E) (sender : Nat) (req : Req) : Prop where
  transactional : req.isTransactional
  sender_lt : sender < idBound E
  sender_lt_numUes : sender < cfg.numUes
  address_ne : req.type ≠ .rmvNode → req.address ≠ 0
  store_once : exact E = true → req.type = .store →
    (s.ht.lockMap false).writer req.address ≠ some sender

theorem carries_tm2cHtInsert {pgas : Bool} (hpgas : cfg.pgas = pgas)
    (hclean : cfg.pgas = false ∨ cfg.cm.isReal = false) {s : Dsl E} {id addr : Nat} (rw : RW)
    (h : Accounted pgas s.ht) (hbound : Bounded cfg (s.ht.lockMap pgas)) (hid : id < idBound E)
    (haddr : addr ≠ 0)
    (hfree : exact E = true → rw = .write → (s.ht.lockMap pgas).writer addr ≠ some id) :
    Carries pgas s id addr rw (verdict cfg s.timestamp (s.ht.lockMap pgas) id addr rw)
      (tm2cHtInsert cfg s id addr rw) := by
  unfold tm2cHtInsert
  rw [hpgas]
  cases rw with
  | read => exact carries_bucketInsertR hclean h hid haddr
  | write => exact carries_bucketInsertW hclean h hbound hid haddr fun he => hfree he rfl

theorem refuse_eq (hpgas : cfg.pgas = false) (s : Dsl E) (sender : Nat) :
    (refuse cfg s sender).ht = tm2cHtDeleteNode s.ht sender ∧
      (refuse cfg s sender).timestamp =
        match cfg.cm with
        | .greedy _ => Function.update s.timestamp sender 0
        | _ => s.timestamp := by
  unfold refuse emptyWriteSet forgetTimestamp
  rw [hpgas]
  cases cfg.cm <;> exact ⟨rfl, rfl⟩

/-- A request as the service loop finishes it: `r` is the result of the insertion. -/
theorem serveRequest_of_carries (hpgas : cfg.pgas = false) {s : Dsl E} {id addr : Nat} {rw : RW}
    (h : Accounted false s.ht) (hid : id < idBound E) {r : Conflict × Dsl E}
    (hcarries : Carries false s id addr rw
      (verdict cfg s.timestamp (s.ht.lockMap false) id addr rw) r) :
    let s' := if r.1 ≠ .noConflict then refuse cfg r.2 id else r.2
    Accounted false s'.ht ∧
      s'.abstraction = (serveRequest cfg s.abstraction id addr rw).1 ∧
      r.1 = (serveRequest cfg s.abstraction id addr rw).2 := by
  intro s'
  cases hv : verdict cfg s.timestamp (s.ht.lockMap false) id addr rw with
  | refuse conflict =>
    rw [hv] at hcarries
    have hr : r = (conflict, s) := hcarries
    subst hr
    have hrefused : s' = refuse cfg s id := if_pos (refuse_ne_noConflict hv)
    have hserve : serveRequest cfg s.abstraction id addr rw =
        (serveRelease cfg s.abstraction id, conflict) := serveRequest_of_refuse hv
    obtain ⟨hht, hts⟩ := refuse_eq hpgas s id
    have hlocks : (refuse cfg s id).ht.lockMap false = (s.ht.lockMap false).release id := by
      rw [hht, lockMap_deleteNode h hid]
    rw [hrefused, hserve]
    exact ⟨hht ▸ h.deleteNode hid, congrArg₂ LockService.mk hlocks hts, rfl⟩
  | grant victims =>
    rw [hv] at hcarries
    obtain ⟨hok, hacc, hts, hmap⟩ := hcarries
    have hgranted : s' = r.2 := if_neg (not_not.mpr hok)
    have hserve : serveRequest cfg s.abstraction id addr rw =
        ({ s.abstraction with
          locks := acquire (s.abstraction.locks.releaseAll victims) id addr rw }, .noConflict) :=
      serveRequest_of_grant hv
    rw [hgranted, hserve]
    exact ⟨hacc, congrArg₂ LockService.mk hmap hts, hok⟩

/-- A request is refused, and then its sender is deleted, or it is granted as its
verdict says. -/
theorem dslSwitch_request (hpgas : cfg.pgas = false) {s : Dsl E} {sender : Nat} {req : Req}
    {rw : RW} (hrw : (req.type = .load ∧ rw = .read) ∨ (req.type = .store ∧ rw = .write))
    (h : Accounted false s.ht) (hbound : Bounded cfg (s.ht.lockMap false))
    (hreq : Admissible cfg s sender req) :
    (∃ r, (dslSwitch cfg s sender req).2 = some r ∧ r.response ≠ .noConflict ∧
      (dslSwitch cfg s sender req).1.ht = tm2cHtDeleteNode s.ht sender) ∨
    ∃ r victims, (dslSwitch cfg s sender req).2 = some r ∧ r.response = .noConflict ∧
      verdict cfg s.timestamp (s.ht.lockMap false) sender req.address rw = .grant victims ∧
      (dslSwitch cfg s sender req).1.ht.lockMap false =
        acquire ((s.ht.lockMap false).releaseAll victims) sender req.address rw := by
  have hinsert : Carries false s sender req.address rw
      (verdict cfg s.timestamp (s.ht.lockMap false) sender req.address rw)
      (tm2cHtInsert cfg s sender req.address rw) := by
    refine carries_tm2cHtInsert hpgas (Or.inl hpgas) rw h hbound hreq.sender_lt
      (hreq.address_ne ?_) ?_
    · rcases hrw with ⟨htype, -⟩ | ⟨htype, -⟩ <;> rw [htype] <;> decide
    · intro he hw
      rcases hrw with ⟨-, hr⟩ | ⟨htype, -⟩
      · rw [hr] at hw
        cases hw
      · exact hreq.store_once he htype
  have hswitch : ∃ r, (dslSwitch cfg s sender req).2 = some r ∧
      r.response = (tm2cHtInsert cfg s sender req.address rw).1 ∧
      (dslSwitch cfg s sender req).1 =
        if (tm2cHtInsert cfg s sender req.address rw).1 ≠ .noConflict then
          refuse cfg (tm2cHtInsert cfg s sender req.address rw).2 sender
        else (tm2cHtInsert cfg s sender req.address rw).2 := by
    unfold dslSwitch
    rcases hrw with ⟨htype, rfl⟩ | ⟨htype, rfl⟩
    · simp only [htype, handleLoad, tryLoad]
      exact ⟨_, rfl, rfl, rfl⟩
    · simp only [htype, handleStore, tryStore, hpgas, Bool.false_eq_true, if_false]
      exact ⟨_, rfl, rfl, trivial⟩
  obtain ⟨r, hreply, hresponse, hstate⟩ := hswitch
  cases hv : verdict cfg s.timestamp (s.ht.lockMap false) sender req.address rw with
  | refuse conflict =>
    rw [hv] at hinsert
    have hr : tm2cHtInsert cfg s sender req.address rw = (conflict, s) := hinsert
    have hne := refuse_ne_noConflict hv
    rw [hr] at hresponse hstate
    rw [if_pos hne] at hstate
    refine Or.inl ⟨r, hreply, ?_, ?_⟩
    · rw [hresponse]
      exact hne
    · rw [hstate, (refuse_eq hpgas s sender).1]
  | grant victims =>
    rw [hv] at hinsert
    obtain ⟨hok, -, -, hmap⟩ := hinsert
    rw [if_neg (not_not.mpr hok)] at hstate
    exact Or.inr ⟨r, victims, hreply, hresponse.trans hok, rfl, by rw [hstate, hmap]⟩

theorem dslSwitch_refines (hpgas : cfg.pgas = false) {s : Dsl E} {sender : Nat} {req : Req}
    (h : Accounted false s.ht) (hbound : Bounded cfg (s.ht.lockMap false))
    (hreq : Admissible cfg s sender req) :
    Accounted false (dslSwitch cfg s sender req).1.ht ∧
      (dslSwitch cfg s sender req).1.abstraction = (lockSwitch cfg s.abstraction sender req).1 ∧
      (dslSwitch cfg s sender req).2.map Reply.response =
        (lockSwitch cfg s.abstraction sender req).2 := by
  unfold dslSwitch lockSwitch
  rcases hreq.transactional with htype | htype | htype
  · have hcarries := carries_tm2cHtInsert hpgas (Or.inl hpgas) .read h hbound
      hreq.sender_lt (hreq.address_ne (by rw [htype]; decide)) (fun _ hrw => by cases hrw)
    obtain ⟨hacc, hstate, hreply⟩ := serveRequest_of_carries hpgas h hreq.sender_lt hcarries
    simp only [htype, handleLoad, tryLoad, Option.map_some]
    exact ⟨hacc, hstate, congrArg some hreply⟩
  · have hcarries := carries_tm2cHtInsert hpgas (Or.inl hpgas) .write h hbound
      hreq.sender_lt (hreq.address_ne (by rw [htype]; decide))
      (fun he _ => hreq.store_once he htype)
    obtain ⟨hacc, hstate, hreply⟩ := serveRequest_of_carries hpgas h hreq.sender_lt hcarries
    simp only [htype, handleStore, tryStore, hpgas, Bool.false_eq_true, if_false, Option.map_some]
    exact ⟨hacc, hstate, congrArg some hreply⟩
  · have hmap := lockMap_deleteNode h hreq.sender_lt
    have hacc := h.deleteNode hreq.sender_lt
    simp only [htype, handleRmvNode, hpgas, Bool.false_eq_true, false_and, if_false,
      emptyWriteSet, serveRelease, Option.map_none, and_true]
    unfold forgetTimestamp
    cases cfg.cm <;> simp only [Dsl.abstraction, hmap, and_true] <;> exact hacc

/-- **One turn of the service loop refines one turn of the abstract service.** -/
theorem dslService_refines (hpgas : cfg.pgas = false) {s : Dsl E} (now : Nat) {sender : Nat}
    {req : Req} (h : Accounted false s.ht) (hbound : Bounded cfg (s.ht.lockMap false))
    (hreq : Admissible cfg s sender req) :
    Accounted false (dslService cfg now s sender req).1.ht ∧
      (dslService cfg now s sender req).1.abstraction =
        (lockService cfg now s.abstraction sender req).1 ∧
      (dslService cfg now s sender req).2.map Reply.response =
        (lockService cfg now s.abstraction sender req).2 := by
  let s' : Dsl E :=
    { s with timestamp := updateTimestamp cfg now sender req.txMetadata s.timestamp }
  have hreq' : Admissible cfg s' sender req :=
    ⟨hreq.transactional, hreq.sender_lt, hreq.sender_lt_numUes, hreq.address_ne, hreq.store_once⟩
  exact dslSwitch_refines (s := s') hpgas h hbound hreq'

end Messages

end TM2C
