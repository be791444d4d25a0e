import Mathlib.Data.List.Count
import Mathlib.Logic.Function.Iterate
import TM2C.Ssht

/-!
# The lock table accounts for its locks

Every lock of a node on a slot is covered by entries of the node's log that
point at the slot, and the log is all that `tm2c_ht_delete_node` looks at.
`Covered` is that one fact; it survives even where a counter of the byte array
goes wrong.  `Accounted` is the full representation invariant: chains without
duplicate addresses, free slots without locks, and logs without stale pointers.

Locks are counted: `lockCount` is the number of locks that a node has on a slot, none, one or
two, and a removal lowers it by one if it was positive (`Removed`).  Since the deletion of a node
makes one removal for each log entry, it takes `lockCount` to zero wherever the log has at least
as many entries, which is `Covered`, and it leaves other nodes alone; this is `deleteNode` in one
lemma, also for several nodes one after the other.

`Accounted` adds the conditions that make a table a function from addresses to locks.  `SlotFor`
is the slot that a request for an address gets, found or free, and what is entered there is
described once for all four operations that enter something.  The lemmas for entering and removing
are stated slot by slot and put together field by field.
-/

namespace TM2C

open RwEntry LawfulRwEntry

/-! ### Reading slots -/

section Slots

variable {E : Type}

theorem Ssht.slot?_modifySlot (t : Ssht E) (p q : SlotPtr) (f : Slot E → Slot E) :
    (t.modifySlot p f).slot? q = if q = p then (t.slot? q).map f else t.slot? q := by
  obtain ⟨b, i⟩ := p
  obtain ⟨c, j⟩ := q
  simp only [Ssht.slot?, Ssht.modifySlot, Function.update_apply, Prod.mk.injEq]
  by_cases hbucket : c = b
  · subst hbucket
    rw [if_pos rfl, List.getElem?_modify]
    by_cases hindex : j = i
    · subst hindex
      simp
    · have hindex' : i ≠ j := fun h => hindex h.symm
      simp [hindex, hindex']
  · simp [hbucket]

theorem Ssht.slot?_modifySlot_self {t : Ssht E} {p : SlotPtr} {sl : Slot E}
    (hp : t.slot? p = some sl) (f : Slot E → Slot E) :
    (t.modifySlot p f).slot? p = some (f sl) := by
  rw [Ssht.slot?_modifySlot, if_pos rfl, hp]
  rfl

theorem Ssht.slot?_modifySlot_of_ne {t : Ssht E} {p q : SlotPtr} (hne : q ≠ p)
    (f : Slot E → Slot E) : (t.modifySlot p f).slot? q = t.slot? q := by
  rw [Ssht.slot?_modifySlot, if_neg hne]

/-- A slot of the changed table was there before, and only the one at `p` was changed. -/
theorem Ssht.of_slot?_modifySlot {t : Ssht E} {p q : SlotPtr} {f : Slot E → Slot E} {sl' : Slot E}
    (h : (t.modifySlot p f).slot? q = some sl') :
    t.slot? q = some sl' ∨ ∃ sl, q = p ∧ t.slot? p = some sl ∧ sl' = f sl := by
  rw [Ssht.slot?_modifySlot] at h
  by_cases hq : q = p
  · subst hq
    rw [if_pos rfl] at h
    obtain ⟨sl, hsl, rfl⟩ := Option.map_eq_some_iff.mp h
    exact Or.inr ⟨sl, rfl, hsl, rfl⟩
  · rw [if_neg hq] at h
    exact Or.inl h

@[simp] theorem Ssht.logs_modifySlot (t : Ssht E) (p : SlotPtr) (f : Slot E → Slot E) :
    (t.modifySlot p f).logs = t.logs := rfl

/-- Only the value of `f` at the slot that is there matters. -/
theorem Ssht.modifySlot_congr {t : Ssht E} {p : SlotPtr} {sl : Slot E}
    (hp : t.slot? p = some sl) {f g : Slot E → Slot E} (hfg : f sl = g sl) :
    t.modifySlot p f = t.modifySlot p g := by
  have hchain : (t.bucket p.1).modify p.2 f = (t.bucket p.1).modify p.2 g := by
    apply List.ext_getElem?
    intro j
    rw [List.getElem?_modify, List.getElem?_modify]
    by_cases hj : p.2 = j
    · subst hj
      have hget : (t.bucket p.1)[p.2]? = some sl := hp
      simp [hget, hfg]
    · simp [hj]
  unfold Ssht.modifySlot
  rw [hchain]

theorem Ssht.modifySlot_eq_self {t : Ssht E} {p : SlotPtr} {sl : Slot E}
    (hp : t.slot? p = some sl) {f : Slot E → Slot E} (hf : f sl = sl) :
    t.modifySlot p f = t := by
  rw [Ssht.modifySlot_congr hp (g := id) hf]
  have hchain : (t.bucket p.1).modify p.2 id = t.bucket p.1 := by
    apply List.ext_getElem?
    intro j
    rw [List.getElem?_modify]
    simp
  unfold Ssht.modifySlot
  rw [hchain, Function.update_eq_self]

@[simp] theorem slot?_sshtLogSetInsert (t : Ssht E) (id : Nat) (p q : SlotPtr) :
    (sshtLogSetInsert t id p).slot? q = t.slot? q := rfl

theorem logs_sshtLogSetInsert (t : Ssht E) (id n : Nat) (p : SlotPtr) :
    (sshtLogSetInsert t id p).logs n = if n = id then t.logs id ++ [p] else t.logs n := by
  simp [sshtLogSetInsert, Function.update_apply]

theorem count_logs_sshtLogSetInsert (t : Ssht E) (id n : Nat) (p q : SlotPtr) :
    ((sshtLogSetInsert t id p).logs n).count q =
      (t.logs n).count q + if n = id ∧ q = p then 1 else 0 := by
  rw [logs_sshtLogSetInsert]
  by_cases hn : n = id
  · subst hn
    rw [if_pos rfl, List.count_append, List.count_cons, List.count_nil]
    by_cases hq : q = p
    · subst hq
      simp
    · have hq' : p ≠ q := fun h => hq h.symm
      simp [hq, hq']
  · simp [hn]

theorem bucketFind_eq_some {chain : List (Slot E)} {addr i : Nat} {sl : Slot E}
    (h : bucketFind chain addr = some (i, sl)) : chain[i]? = some sl ∧ sl.addr = addr := by
  unfold bucketFind at h
  obtain ⟨j, hfind, hj⟩ := Option.bind_eq_some_iff.mp h
  obtain ⟨sl', hget, heq⟩ := Option.map_eq_some_iff.mp hj
  cases heq
  obtain ⟨hlt, haddr, -⟩ := List.findIdx?_eq_some_iff_getElem.mp hfind
  rw [List.getElem?_eq_getElem hlt, Option.some.injEq] at hget
  rw [hget] at haddr
  exact ⟨by rw [List.getElem?_eq_getElem hlt, hget], by simpa using haddr⟩

theorem bucketFind_eq_none {chain : List (Slot E)} {addr : Nat}
    (h : bucketFind chain addr = none) : ∀ sl ∈ chain, sl.addr ≠ addr := by
  unfold bucketFind at h
  cases hfind : chain.findIdx? fun sl => sl.addr == addr with
  | none =>
    intro sl hsl
    simpa using List.findIdx?_eq_none_iff.mp hfind sl hsl
  | some j =>
    rw [hfind, Option.bind_some, Option.map_eq_none_iff] at h
    obtain ⟨hlt, -⟩ := List.findIdx?_eq_some_iff_getElem.mp hfind
    rw [List.getElem?_eq_getElem hlt] at h
    cases h

variable [RwEntry E]

/-- `bucketAlloc` returns a free slot, and all it may do to the table is to add
slots that were never used. -/
theorem bucketAlloc_spec (t : Ssht E) (bu : Nat) :
    (bucketAlloc t bu).1.logs = t.logs ∧
    (∃ sl, (bucketAlloc t bu).1.slot? (bucketAlloc t bu).2 = some sl ∧ sl.addr = 0) ∧
    (bucketAlloc t bu).2.1 = bu ∧
    ∀ p, (bucketAlloc t bu).1.slot? p = t.slot? p ∨
      (t.slot? p = none ∧ (bucketAlloc t bu).1.slot? p = some ⟨0, RwEntry.new⟩) := by
  unfold bucketAlloc
  cases hfind : bucketFind (t.bucket bu) 0 with
  | some r =>
    obtain ⟨i, sl⟩ := r
    obtain ⟨hget, haddr⟩ := bucketFind_eq_some hfind
    exact ⟨rfl, ⟨sl, hget, haddr⟩, rfl, fun p => Or.inl rfl⟩
  | none =>
    have hnew : ∀ j, (t.bucket bu).length ≤ j → j < (t.bucket bu).length + ADDR_PER_CL →
        (t.bucket bu ++ (sshtBucketNew : List (Slot E)))[j]? = some ⟨0, RwEntry.new⟩ := by
      intro j hle hlt
      rw [List.getElem?_append_right hle, sshtBucketNew, List.getElem?_replicate,
        if_pos (by omega)]
    refine ⟨rfl, ⟨⟨0, RwEntry.new⟩, ?_, rfl⟩, rfl, ?_⟩
    · simp only [Ssht.slot?, Function.update_self]
      exact hnew _ (Nat.le_refl _) (by unfold ADDR_PER_CL; omega)
    · rintro ⟨b, j⟩
      simp only [Ssht.slot?, Function.update_apply]
      by_cases hb : b = bu
      · subst hb
        rw [if_pos rfl]
        by_cases hlt : j < (t.bucket b).length
        · left
          rw [List.getElem?_append_left hlt]
        · have hle : (t.bucket b).length ≤ j := Nat.le_of_not_lt hlt
          have hold : (t.bucket b)[j]? = none := List.getElem?_eq_none hle
          by_cases hlt' : j < (t.bucket b).length + ADDR_PER_CL
          · exact Or.inr ⟨hold, hnew j hle hlt'⟩
          · left
            rw [hold, List.getElem?_append_right hle, sshtBucketNew, List.getElem?_replicate,
              if_neg (by omega)]
      · left
        rw [if_neg hb]

end Slots

/-! ### Counting locks -/

/-- The number of locks, none to two, that a node holds in an entry. -/
def entryLocks {E : Type} [RwEntry E] (e : E) (n : Nat) : Nat :=
  (isReader e n).toNat + (decide (writer e = n)).toNat

def Ssht.lockCount {E : Type} [RwEntry E] (t : Ssht E) (p : SlotPtr) (n : Nat) : Nat :=
  match t.slot? p with
  | some sl => entryLocks sl.entry n
  | none => 0

section Counting

variable {E : Type} [RwEntry E]

theorem Ssht.lockCount_of_slot {t : Ssht E} {p : SlotPtr} {sl : Slot E}
    (h : t.slot? p = some sl) (n : Nat) : t.lockCount p n = entryLocks sl.entry n := by
  simp only [Ssht.lockCount, h]

theorem Ssht.lockCount_congr {t t' : Ssht E} {p : SlotPtr} (h : t.slot? p = t'.slot? p)
    (n : Nat) : t.lockCount p n = t'.lockCount p n := by
  simp only [Ssht.lockCount, h]

theorem lockCount_enter {t : Ssht E} {p : SlotPtr} {sl : Slot E} (hp : t.slot? p = some sl)
    (f : Slot E → Slot E) (n m : Nat) (q : SlotPtr) :
    (sshtLogSetInsert (t.modifySlot p f) n p).lockCount q m =
      if q = p then entryLocks (f sl).entry m else t.lockCount q m := by
  by_cases hq : q = p
  · subst hq
    have hat : (sshtLogSetInsert (t.modifySlot q f) n q).slot? q = some (f sl) :=
      Ssht.slot?_modifySlot_self hp f
    rw [if_pos rfl, Ssht.lockCount_of_slot hat]
  · have helse : (sshtLogSetInsert (t.modifySlot p f) n p).slot? q = t.slot? q :=
      Ssht.slot?_modifySlot_of_ne hq f
    rw [if_neg hq, Ssht.lockCount_congr helse]

theorem entryLocks_eq_zero_iff {e : E} {n : Nat} :
    entryLocks e n = 0 ↔ isReader e n = false ∧ writer e ≠ n := by
  unfold entryLocks
  cases isReader e n <;> by_cases hw : writer e = n <;> simp [hw]

theorem entryLocks_pos_iff {e : E} {n : Nat} :
    0 < entryLocks e n ↔ isReader e n = true ∨ writer e = n := by
  unfold entryLocks
  cases isReader e n <;> by_cases hw : writer e = n <;> simp [hw]

end Counting

section Entries

variable {E : Type} [LawfulRwEntry E]

theorem ne_noWriter {n : Nat} (hn : n < idBound E) : n ≠ SSHT_NO_WRITER := by
  have := idBound_le (E := E)
  omega

theorem writer_setWriter_of_lt {e : E} {n : Nat} (hn : n < idBound E) :
    writer (setWriter e n) = n := by
  have hle := idBound_le (E := E)
  unfold SSHT_NO_WRITER at hle
  rw [writer_setWriter, Nat.mod_eq_of_lt (by omega)]

theorem writer_setWriter_noWriter (e : E) :
    writer (setWriter e SSHT_NO_WRITER) = SSHT_NO_WRITER := by
  rw [writer_setWriter]
  rfl

theorem entryLocks_new {n : Nat} (hn : n < idBound E) : entryLocks (RwEntry.new : E) n = 0 := by
  rw [entryLocks_eq_zero_iff, isReader_new, writer_new]
  exact ⟨rfl, fun h => ne_noWriter hn h.symm⟩

theorem entryLocks_addReader {e : E} {n m : Nat} (hn : n < idBound E) :
    entryLocks (addReader e n) m =
      if m = n then 1 + (decide (writer e = n)).toNat else entryLocks e m := by
  unfold entryLocks
  rw [isReader_addReader hn, writer_addReader]
  by_cases hmn : m = n
  · subst hmn
    simp
  · simp [hmn]

theorem entryLocks_setWriter {e : E} {n m : Nat} (hn : n < idBound E) :
    entryLocks (setWriter e n) m = (isReader e m).toNat + (decide (n = m)).toNat := by
  unfold entryLocks
  rw [isReader_setWriter, writer_setWriter_of_lt hn]

end Entries

/-! ### One removal -/

section Remove

variable {E : Type} [LawfulRwEntry E] {n : Nat}

theorem writer_remove (sl : Slot E) :
    writer (sshtBucketRemoveIndex n sl).entry =
      if writer sl.entry = n then SSHT_NO_WRITER else writer sl.entry := by
  unfold sshtBucketRemoveIndex
  by_cases hw : writer sl.entry = n
  · simp only [if_pos hw]
    exact writer_setWriter_noWriter _
  · simp only [if_neg hw]
    exact writer_dropReader

theorem isReader_remove (hn : n < idBound E) (sl : Slot E) (m : Nat) :
    isReader (sshtBucketRemoveIndex n sl).entry m =
      ((decide (writer sl.entry = n) || decide (m ≠ n)) && isReader sl.entry m) := by
  unfold sshtBucketRemoveIndex
  by_cases hw : writer sl.entry = n
  · simp only [if_pos hw]
    rw [isReader_setWriter]
    simp [hw]
  · simp only [if_neg hw]
    rw [isReader_dropReader hn]
    simp [hw]

/-- A removal takes one lock, if there is one. -/
theorem entryLocks_remove_self (hn : n < idBound E) (sl : Slot E) :
    entryLocks (sshtBucketRemoveIndex n sl).entry n = entryLocks sl.entry n - 1 := by
  have hne : SSHT_NO_WRITER ≠ n := fun h => ne_noWriter hn h.symm
  unfold entryLocks
  rw [writer_remove, isReader_remove hn]
  by_cases hw : writer sl.entry = n
  · simp [hw, hne]
  · cases isReader sl.entry n <;> simp [hw]

theorem entryLocks_remove_of_ne (hn : n < idBound E) (sl : Slot E) {m : Nat} (hmn : m ≠ n)
    (hm : m < idBound E) :
    entryLocks (sshtBucketRemoveIndex n sl).entry m = entryLocks sl.entry m := by
  have hne : SSHT_NO_WRITER ≠ m := fun h => ne_noWriter hm h.symm
  unfold entryLocks
  rw [writer_remove, isReader_remove hn]
  by_cases hw : writer sl.entry = n
  · have hnm : n ≠ m := fun h => hmn h.symm
    simp [hw, hne, hnm]
  · simp [hw, hmn]

theorem entryLocks_iterate_remove (hn : n < idBound E) (sl : Slot E) (k : Nat) :
    entryLocks ((sshtBucketRemoveIndex n)^[k] sl).entry n = entryLocks sl.entry n - k := by
  induction k with
  | zero => rfl
  | succ k ih =>
    rw [Function.iterate_succ_apply', entryLocks_remove_self hn, ih]
    omega

theorem entryLocks_iterate_remove_of_ne (hn : n < idBound E) (sl : Slot E) (k : Nat) {m : Nat}
    (hmn : m ≠ n) (hm : m < idBound E) :
    entryLocks ((sshtBucketRemoveIndex n)^[k] sl).entry m = entryLocks sl.entry m := by
  induction k with
  | zero => rfl
  | succ k ih => rw [Function.iterate_succ_apply', entryLocks_remove_of_ne hn _ hmn hm, ih]

/-- What removals may do to a slot, whatever its counter says. -/
structure Stripped (n : Nat) (sl sl' : Slot E) : Prop where
  writer : writer sl'.entry = writer sl.entry ∨
    (writer sl.entry = n ∧ writer sl'.entry = SSHT_NO_WRITER)
  reader : ∀ m, m ≠ n → isReader sl'.entry m = isReader sl.entry m
  reader_self : isReader sl'.entry n = true → isReader sl.entry n = true
  addr : sl'.addr = sl.addr ∨ sl'.addr = 0

theorem stripped_refl (n : Nat) (sl : Slot E) : Stripped n sl sl :=
  ⟨Or.inl rfl, fun _ _ => rfl, id, Or.inl rfl⟩

theorem stripped_remove (hn : n < idBound E) (sl : Slot E) :
    Stripped n sl (sshtBucketRemoveIndex n sl) := by
  refine ⟨?_, ?_, ?_, ?_⟩
  · rw [writer_remove]
    by_cases hw : writer sl.entry = n
    · exact Or.inr ⟨hw, if_pos hw⟩
    · exact Or.inl (if_neg hw)
  · intro m hmn
    rw [isReader_remove hn]
    simp [hmn]
  · intro h
    rw [isReader_remove hn] at h
    exact (Bool.and_eq_true_iff.mp h).2
  · have haddr : (sshtBucketRemoveIndex n sl).addr =
        if isEmpty (sshtBucketRemoveIndex n sl).entry then 0 else sl.addr := rfl
    rw [haddr]
    by_cases hempty : isEmpty (sshtBucketRemoveIndex n sl).entry = true
    · exact Or.inr (if_pos hempty)
    · exact Or.inl (if_neg hempty)

theorem Stripped.trans {sl sl' sl'' : Slot E} (h : Stripped n sl sl')
    (h' : Stripped n sl' sl'') : Stripped n sl sl'' := by
  refine ⟨?_, ?_, fun hr => h.reader_self (h'.reader_self hr), ?_⟩
  · rcases h'.writer with hw' | ⟨hw', hnone'⟩
    · rw [hw']
      exact h.writer
    · rcases h.writer with hw | ⟨hw, hnone⟩
      · exact Or.inr ⟨hw ▸ hw', hnone'⟩
      · exact Or.inr ⟨hw, hnone'⟩
  · intro m hmn
    rw [h'.reader m hmn, h.reader m hmn]
  · rcases h'.addr with haddr' | hzero'
    · rw [haddr']
      exact h.addr
    · exact Or.inr hzero'

theorem stripped_iterate (hn : n < idBound E) (sl : Slot E) (k : Nat) :
    Stripped n sl ((sshtBucketRemoveIndex n)^[k] sl) := by
  induction k with
  | zero => exact stripped_refl n sl
  | succ k ih =>
    rw [Function.iterate_succ_apply']
    exact ih.trans (stripped_remove hn _)

/-- The entry shows no lock. -/
def Empty (e : E) : Prop := writer e = SSHT_NO_WRITER ∧ ∀ m, isReader e m = false

theorem Stripped.empty {sl sl' : Slot E} (h : Stripped n sl sl') (he : Empty sl.entry) :
    Empty sl'.entry := by
  refine ⟨?_, ?_⟩
  · rcases h.writer with hw | ⟨-, hw⟩
    · rw [hw, he.1]
    · exact hw
  · intro m
    by_cases hmn : m = n
    · subst hmn
      by_contra hm
      have := h.reader_self (by simpa using hm)
      rw [he.2 m] at this
      cases this
    · rw [h.reader m hmn, he.2 m]

/-- Where the counters are right, a slot that loses its address is empty. -/
structure Removed (n : Nat) (sl sl' : Slot E) : Prop extends Stripped n sl sl' where
  valid : Valid sl'.entry
  freed : sl'.addr = sl.addr ∨ Empty sl'.entry

theorem removed_remove (hn : n < idBound E) {sl : Slot E} (hvalid : Valid sl.entry)
    (hheld : exact E = true → 0 < entryLocks sl.entry n) :
    Removed n sl (sshtBucketRemoveIndex n sl) := by
  have hvalid' : Valid (sshtBucketRemoveIndex n sl).entry := by
    unfold sshtBucketRemoveIndex
    by_cases hw : writer sl.entry = n
    · simp only [if_pos hw]
      exact valid_setWriter hvalid
    · simp only [if_neg hw]
      refine valid_dropReader hvalid hn ?_
      intro hexact
      rcases entryLocks_pos_iff.mp (hheld hexact) with hr | hw'
      · exact hr
      · exact absurd hw' hw
  refine ⟨stripped_remove hn sl, hvalid', ?_⟩
  have haddr : (sshtBucketRemoveIndex n sl).addr =
      if isEmpty (sshtBucketRemoveIndex n sl).entry then 0 else sl.addr := rfl
  rw [haddr]
  by_cases hempty : isEmpty (sshtBucketRemoveIndex n sl).entry = true
  · exact Or.inr ((isEmpty_iff hvalid').mp hempty)
  · exact Or.inl (if_neg hempty)

theorem removed_iterate (hn : n < idBound E) {sl : Slot E} (hvalid : Valid sl.entry) (k : Nat)
    (hheld : exact E = true → k ≤ entryLocks sl.entry n) :
    Removed n sl ((sshtBucketRemoveIndex n)^[k] sl) := by
  induction k with
  | zero => exact ⟨stripped_refl n sl, hvalid, Or.inl rfl⟩
  | succ k ih =>
    have hk := ih fun hexact => Nat.le_of_succ_le (hheld hexact)
    rw [Function.iterate_succ_apply']
    have hstep : Removed n ((sshtBucketRemoveIndex n)^[k] sl)
        (sshtBucketRemoveIndex n ((sshtBucketRemoveIndex n)^[k] sl)) := by
      refine removed_remove hn hk.valid ?_
      intro hexact
      have := hheld hexact
      rw [entryLocks_iterate_remove hn]
      omega
    refine ⟨hk.toStripped.trans hstep.toStripped, hstep.valid, ?_⟩
    rcases hstep.freed with haddr | hempty
    · rcases hk.freed with haddr' | hempty
      · exact Or.inl (haddr.trans haddr')
      · -- an empty slot stays empty
        exact Or.inr (hstep.toStripped.empty hempty)
    · exact Or.inr hempty

end Remove

/-! ### Deleting a node -/

section Delete

variable {E : Type}

@[simp] theorem logs_foldl_modifySlot (l : List SlotPtr) (t : Ssht E) (f : Slot E → Slot E) :
    (l.foldl (fun t p => t.modifySlot p f) t).logs = t.logs := by
  induction l generalizing t with
  | nil => rfl
  | cons q l ih => rw [List.foldl_cons, ih, Ssht.logs_modifySlot]

/-- A slot is visited as often as the list points at it. -/
theorem slot?_foldl_modifySlot (l : List SlotPtr) (t : Ssht E) (f : Slot E → Slot E)
    (p : SlotPtr) :
    (l.foldl (fun t p => t.modifySlot p f) t).slot? p = (t.slot? p).map f^[l.count p] := by
  induction l generalizing t with
  | nil => simp
  | cons q l ih =>
    rw [List.foldl_cons, ih, List.count_cons, Ssht.slot?_modifySlot]
    by_cases hq : p = q
    · subst hq
      simp only [if_true, beq_self_eq_true, Option.map_map]
      rfl
    · have hq' : (q == p) = false := by
        rw [beq_eq_false_iff_ne]
        exact fun h => hq h.symm
      simp [hq, hq']

variable [RwEntry E]

theorem slot?_deleteNode (t : Ssht E) (n : Nat) (p : SlotPtr) :
    (tm2cHtDeleteNode t n).slot? p =
      (t.slot? p).map (sshtBucketRemoveIndex n)^[(t.logs n).count p] := by
  have h := slot?_foldl_modifySlot (t.logs n) t (sshtBucketRemoveIndex n) p
  exact h

theorem logs_deleteNode (t : Ssht E) (n m : Nat) :
    (tm2cHtDeleteNode t n).logs m = if m = n then [] else t.logs m := by
  unfold tm2cHtDeleteNode
  simp [Function.update_apply]

theorem logs_deleteNode_self (t : Ssht E) (n : Nat) : (tm2cHtDeleteNode t n).logs n = [] := by
  rw [logs_deleteNode, if_pos rfl]

end Delete

section Covered

variable {E : Type} [LawfulRwEntry E]

/-- Every lock of a node is covered by an entry of its log. -/
def Covered (t : Ssht E) : Prop :=
  ∀ n p, n < idBound E → t.lockCount p n ≤ (t.logs n).count p

/-- The node is mentioned nowhere: no flag, no writer field, no log entry. -/
structure Absent (t : Ssht E) (n : Nat) : Prop where
  logs : t.logs n = []
  locks : ∀ p, t.lockCount p n = 0

theorem lockCount_deleteNode_self {t : Ssht E} {n : Nat} (hn : n < idBound E)
    (p : SlotPtr) :
    (tm2cHtDeleteNode t n).lockCount p n = t.lockCount p n - (t.logs n).count p := by
  simp only [Ssht.lockCount, slot?_deleteNode]
  cases t.slot? p with
  | none => simp
  | some sl => exact entryLocks_iterate_remove hn sl _

theorem lockCount_deleteNode_of_ne {t : Ssht E} {n m : Nat} (hn : n < idBound E)
    (hmn : m ≠ n) (hm : m < idBound E) (p : SlotPtr) :
    (tm2cHtDeleteNode t n).lockCount p m = t.lockCount p m := by
  simp only [Ssht.lockCount, slot?_deleteNode]
  cases t.slot? p with
  | none => rfl
  | some sl => exact entryLocks_iterate_remove_of_ne hn sl _ hmn hm

/-- Coverage is what makes `tm2c_ht_delete_node` complete. -/
theorem Covered.absent_deleteNode {t : Ssht E} (h : Covered t) {n : Nat} (hn : n < idBound E) :
    Absent (tm2cHtDeleteNode t n) n := by
  refine ⟨logs_deleteNode_self t n, ?_⟩
  intro p
  rw [lockCount_deleteNode_self hn]
  have := h n p hn
  omega

theorem Covered.deleteNode {t : Ssht E} (h : Covered t) {n : Nat} (hn : n < idBound E) :
    Covered (tm2cHtDeleteNode t n) := by
  intro m p hm
  by_cases hmn : m = n
  · subst hmn
    rw [(h.absent_deleteNode hn).locks p]
    exact Nat.zero_le _
  · rw [lockCount_deleteNode_of_ne hn hmn hm, logs_deleteNode, if_neg hmn]
    exact h m p hm

theorem lockCount_bucketAlloc (t : Ssht E) (bu : Nat) (p : SlotPtr) {n : Nat}
    (hn : n < idBound E) : (bucketAlloc t bu).1.lockCount p n = t.lockCount p n := by
  rcases (bucketAlloc_spec t bu).2.2.2 p with hsame | ⟨hnone, hnew⟩
  · exact Ssht.lockCount_congr hsame n
  · rw [Ssht.lockCount_of_slot hnew, entryLocks_new hn]
    simp only [Ssht.lockCount, hnone]

theorem Covered.bucketAlloc {t : Ssht E} (h : Covered t) (bu : Nat) :
    Covered (bucketAlloc t bu).1 := by
  intro n p hn
  rw [lockCount_bucketAlloc t bu p hn, (bucketAlloc_spec t bu).1]
  exact h n p hn

/-- Entering a lock in a slot and its pointer in the log keeps the log complete,
whoever else loses a lock by it. -/
theorem Covered.enter {t : Ssht E} (h : Covered t) {p : SlotPtr} {sl : Slot E}
    (hp : t.slot? p = some sl) {n : Nat} {f : Slot E → Slot E}
    (hself : entryLocks (f sl).entry n ≤ entryLocks sl.entry n + 1)
    (hothers : ∀ m, m < idBound E → m ≠ n →
      entryLocks (f sl).entry m ≤ entryLocks sl.entry m) :
    Covered (sshtLogSetInsert (t.modifySlot p f) n p) := by
  intro m q hm
  rw [count_logs_sshtLogSetInsert, Ssht.logs_modifySlot, lockCount_enter hp]
  have hold := h m q hm
  by_cases hq : q = p
  · subst hq
    rw [Ssht.lockCount_of_slot hp] at hold
    rw [if_pos rfl]
    by_cases hmn : m = n
    · subst hmn
      simp only [and_self, if_true]
      omega
    · have := hothers m hm hmn
      omega
  · rw [if_neg hq]
    omega

end Covered

/-! ### The representation invariant -/

section Accounted

variable {E : Type} [LawfulRwEntry E]

/-- Addresses are in their buckets, and no address has two slots. -/
structure Placed (pgas : Bool) (t : Ssht E) : Prop where
  home : ∀ p sl, t.slot? p = some sl → sl.addr ≠ 0 → p.1 = bucketOf pgas sl.addr
  unique : ∀ p q sl sl', t.slot? p = some sl → t.slot? q = some sl' → sl.addr ≠ 0 →
    sl.addr = sl'.addr → p = q

/-- The representation invariant of the lock table. -/
structure Accounted (pgas : Bool) (t : Ssht E) : Prop extends Placed pgas t where
  valid : ∀ p sl, t.slot? p = some sl → Valid sl.entry
  writer_lt : ∀ p sl, t.slot? p = some sl →
    writer sl.entry = SSHT_NO_WRITER ∨ writer sl.entry < idBound E
  free : ∀ p sl, t.slot? p = some sl → sl.addr = 0 → Empty sl.entry
  covered : Covered t
  counted : ∀ n p, n < idBound E → exact E = true → (t.logs n).count p ≤ t.lockCount p n
  pointed : ∀ n p, n < idBound E → 0 < (t.logs n).count p → 0 < t.lockCount p n

variable {pgas : Bool} {t : Ssht E}

theorem slot?_sshtNew {p : SlotPtr} {sl : Slot E} (h : (sshtNew : Ssht E).slot? p = some sl) :
    sl = ⟨0, RwEntry.new⟩ := by
  simp only [Ssht.slot?, sshtNew, sshtBucketNew, List.getElem?_replicate] at h
  by_cases hp : p.2 < ADDR_PER_CL
  · rw [if_pos hp, Option.some.injEq] at h
    exact h.symm
  · rw [if_neg hp] at h
    cases h

theorem lockCount_sshtNew {n : Nat} (hn : n < idBound E) (p : SlotPtr) :
    (sshtNew : Ssht E).lockCount p n = 0 := by
  unfold Ssht.lockCount
  cases h : (sshtNew : Ssht E).slot? p with
  | none => rfl
  | some sl =>
    rw [slot?_sshtNew h]
    exact entryLocks_new hn

theorem placed_sshtNew (pgas : Bool) : Placed pgas (sshtNew : Ssht E) where
  home p sl h haddr := by
    rw [slot?_sshtNew h] at haddr
    exact absurd rfl haddr
  unique p q sl sl' h _ haddr _ := by
    rw [slot?_sshtNew h] at haddr
    exact absurd rfl haddr

theorem accounted_sshtNew (pgas : Bool) : Accounted pgas (sshtNew : Ssht E) where
  toPlaced := placed_sshtNew pgas
  valid p sl h := slot?_sshtNew h ▸ valid_new
  writer_lt p sl h := Or.inl (slot?_sshtNew h ▸ writer_new)
  free p sl h _ := slot?_sshtNew h ▸ ⟨writer_new, isReader_new⟩
  covered n p hn := by
    rw [lockCount_sshtNew hn]
    exact Nat.zero_le _
  counted n p _ _ := Nat.zero_le _
  pointed n p _ hpos := absurd hpos (Nat.lt_irrefl 0)

theorem stripped_deleteNode {n : Nat} (hn : n < idBound E) {p : SlotPtr} {sl' : Slot E}
    (hp : (tm2cHtDeleteNode t n).slot? p = some sl') :
    ∃ sl, t.slot? p = some sl ∧ Stripped n sl sl' := by
  rw [slot?_deleteNode] at hp
  obtain ⟨sl, hold, rfl⟩ := Option.map_eq_some_iff.mp hp
  exact ⟨sl, hold, stripped_iterate hn sl _⟩

theorem Stripped.addr_of_ne {n : Nat} {sl sl' : Slot E} (h : Stripped n sl sl')
    (haddr : sl'.addr ≠ 0) : sl'.addr = sl.addr := by
  rcases h.addr with heq | hzero
  · exact heq
  · exact absurd hzero haddr

theorem Placed.deleteNode (h : Placed pgas t) {n : Nat} (hn : n < idBound E) :
    Placed pgas (tm2cHtDeleteNode t n) where
  home p sl' hp haddr := by
    obtain ⟨sl, hold, hstripped⟩ := stripped_deleteNode hn hp
    have heq := hstripped.addr_of_ne haddr
    rw [heq]
    exact h.home p sl hold (heq ▸ haddr)
  unique p q sl₁ sl₂ hp hq haddr heq := by
    obtain ⟨sl₁', hold₁, hstripped₁⟩ := stripped_deleteNode hn hp
    obtain ⟨sl₂', hold₂, hstripped₂⟩ := stripped_deleteNode hn hq
    have haddr₂ : sl₂.addr ≠ 0 := heq ▸ haddr
    rw [hstripped₂.addr_of_ne haddr₂, hstripped₁.addr_of_ne haddr] at heq
    rw [hstripped₁.addr_of_ne haddr] at haddr
    exact h.unique p q sl₁' sl₂' hold₁ hold₂ haddr heq

/-- What `tm2c_ht_delete_node` leaves of a slot. -/
theorem Accounted.removed_deleteNode (h : Accounted pgas t) {n : Nat} (hn : n < idBound E)
    {p : SlotPtr} {sl : Slot E} (hp : t.slot? p = some sl) :
    ∃ sl', (tm2cHtDeleteNode t n).slot? p = some sl' ∧ Removed n sl sl' ∧
      entryLocks sl'.entry n = 0 := by
  refine ⟨_, ?_, removed_iterate hn (h.valid p sl hp) ((t.logs n).count p) ?_, ?_⟩
  · rw [slot?_deleteNode, hp, Option.map_some]
  · intro hexact
    have := h.counted n p hn hexact
    rwa [Ssht.lockCount_of_slot hp] at this
  · rw [entryLocks_iterate_remove hn]
    have := h.covered n p hn
    rw [Ssht.lockCount_of_slot hp] at this
    omega

theorem Accounted.exists_of_deleteNode (h : Accounted pgas t) {n : Nat} (hn : n < idBound E)
    {p : SlotPtr} {sl' : Slot E} (hp : (tm2cHtDeleteNode t n).slot? p = some sl') :
    ∃ sl, t.slot? p = some sl ∧ Removed n sl sl' ∧ entryLocks sl'.entry n = 0 := by
  cases hold : t.slot? p with
  | none =>
    rw [slot?_deleteNode, hold] at hp
    cases hp
  | some sl =>
    obtain ⟨sl'', hslot, hremoved, hzero⟩ := h.removed_deleteNode hn hold
    rw [hp, Option.some.injEq] at hslot
    exact ⟨sl, rfl, hslot ▸ hremoved, hslot ▸ hzero⟩

theorem Accounted.deleteNode (h : Accounted pgas t) {n : Nat} (hn : n < idBound E) :
    Accounted pgas (tm2cHtDeleteNode t n) where
  toPlaced := h.toPlaced.deleteNode hn
  valid p sl' hp := by
    obtain ⟨sl, -, hremoved, -⟩ := h.exists_of_deleteNode hn hp
    exact hremoved.valid
  writer_lt p sl' hp := by
    obtain ⟨sl, hold, hremoved, -⟩ := h.exists_of_deleteNode hn hp
    rcases hremoved.writer with hw | ⟨-, hw⟩
    · rw [hw]
      exact h.writer_lt p sl hold
    · exact Or.inl hw
  free p sl' hp haddr := by
    obtain ⟨sl, hold, hremoved, -⟩ := h.exists_of_deleteNode hn hp
    rcases hremoved.freed with heq | hempty
    · exact hremoved.toStripped.empty (h.free p sl hold (heq ▸ haddr))
    · exact hempty
  covered := h.covered.deleteNode hn
  counted m p hm hexact := by
    rw [logs_deleteNode]
    by_cases hmn : m = n
    · rw [if_pos hmn]
      exact Nat.zero_le _
    · rw [if_neg hmn, lockCount_deleteNode_of_ne hn hmn hm]
      exact h.counted m p hm hexact
  pointed m p hm hpos := by
    rw [logs_deleteNode] at hpos
    by_cases hmn : m = n
    · rw [if_pos hmn] at hpos
      exact absurd hpos (Nat.lt_irrefl 0)
    · rw [if_neg hmn] at hpos
      rw [lockCount_deleteNode_of_ne hn hmn hm]
      exact h.pointed m p hm hpos

theorem slot_bucketAlloc {bu : Nat} {p : SlotPtr} {sl : Slot E}
    (hp : (bucketAlloc t bu).1.slot? p = some sl) :
    t.slot? p = some sl ∨ sl = ⟨0, RwEntry.new⟩ := by
  rcases (bucketAlloc_spec t bu).2.2.2 p with hsame | ⟨-, hnew⟩
  · exact Or.inl (hsame ▸ hp)
  · rw [hp, Option.some.injEq] at hnew
    exact Or.inr hnew

theorem Placed.bucketAlloc (h : Placed pgas t) (bu : Nat) :
    Placed pgas (bucketAlloc t bu).1 where
  home p sl hp haddr := by
    rcases slot_bucketAlloc hp with hold | rfl
    · exact h.home p sl hold haddr
    · exact absurd rfl haddr
  unique p q sl sl' hp hq haddr heq := by
    rcases slot_bucketAlloc hp with hold | rfl
    · rcases slot_bucketAlloc hq with hold' | rfl
      · exact h.unique p q sl sl' hold hold' haddr heq
      · exact absurd heq haddr
    · exact absurd rfl haddr

theorem Accounted.bucketAlloc (h : Accounted pgas t) (bu : Nat) :
    Accounted pgas (bucketAlloc t bu).1 where
  toPlaced := h.toPlaced.bucketAlloc bu
  valid p sl hp := by
    rcases slot_bucketAlloc hp with hold | rfl
    · exact h.valid p sl hold
    · exact valid_new
  writer_lt p sl hp := by
    rcases slot_bucketAlloc hp with hold | rfl
    · exact h.writer_lt p sl hold
    · exact Or.inl writer_new
  free p sl hp haddr := by
    rcases slot_bucketAlloc hp with hold | rfl
    · exact h.free p sl hold haddr
    · exact ⟨writer_new, isReader_new⟩
  covered := h.covered.bucketAlloc bu
  counted n p hn hexact := by
    rw [(bucketAlloc_spec t bu).1, lockCount_bucketAlloc t bu p hn]
    exact h.counted n p hn hexact
  pointed n p hn hpos := by
    rw [(bucketAlloc_spec t bu).1] at hpos
    rw [lockCount_bucketAlloc t bu p hn]
    exact h.pointed n p hn hpos

/-- The slot of an address: the one that has it, or a free one when none has. -/
structure SlotFor (pgas : Bool) (t : Ssht E) (p : SlotPtr) (sl : Slot E) (addr : Nat) : Prop where
  slot : t.slot? p = some sl
  addr_ne : addr ≠ 0
  home : p.1 = bucketOf pgas addr
  addr_eq : sl.addr = 0 ∨ sl.addr = addr
  only : ∀ q sl', t.slot? q = some sl' → sl'.addr = addr → q = p

omit [LawfulRwEntry E] in
/-- The slots after a lock was entered in the slot of an address. -/
theorem SlotFor.enter_cases {p : SlotPtr} {sl : Slot E} {addr : Nat}
    (hfor : SlotFor pgas t p sl addr) (f : Slot E → Slot E) (n : Nat) {q : SlotPtr}
    {sl' : Slot E} (hq : (sshtLogSetInsert (t.modifySlot p f) n p).slot? q = some sl') :
    (q = p ∧ sl' = f sl) ∨ (q ≠ p ∧ t.slot? q = some sl') := by
  by_cases hqp : q = p
  · subst hqp
    rw [slot?_sshtLogSetInsert, Ssht.slot?_modifySlot_self hfor.slot, Option.some.injEq] at hq
    exact Or.inl ⟨rfl, hq.symm⟩
  · rw [slot?_sshtLogSetInsert, Ssht.slot?_modifySlot_of_ne hqp] at hq
    exact Or.inr ⟨hqp, hq⟩

omit [LawfulRwEntry E] in
theorem Placed.enter (h : Placed pgas t) {p : SlotPtr} {sl : Slot E} {addr : Nat}
    (hfor : SlotFor pgas t p sl addr) {f : Slot E → Slot E} (haddr : (f sl).addr = addr)
    (n : Nat) : Placed pgas (sshtLogSetInsert (t.modifySlot p f) n p) where
  home q sl' hq hne := by
    rcases hfor.enter_cases f n hq with ⟨rfl, rfl⟩ | ⟨-, hold⟩
    · rw [haddr]
      exact hfor.home
    · exact h.home q sl' hold hne
  unique q r sl₁ sl₂ hq hr hne heq := by
    rcases hfor.enter_cases f n hq with ⟨rfl, rfl⟩ | ⟨-, hold₁⟩
    · rcases hfor.enter_cases f n hr with ⟨rfl, -⟩ | ⟨-, hold₂⟩
      · rfl
      · exact (hfor.only r sl₂ hold₂ (heq.symm.trans haddr)).symm
    · rcases hfor.enter_cases f n hr with ⟨rfl, rfl⟩ | ⟨-, hold₂⟩
      · exact hfor.only q sl₁ hold₁ (heq.trans haddr)
      · exact h.unique q r sl₁ sl₂ hold₁ hold₂ hne heq

omit [LawfulRwEntry E] in
/-- A pointer entered in a log together with its lock stands for that lock. -/
theorem counted_enter [RwEntry E] {p : SlotPtr} {sl : Slot E} {n m : Nat} {q : SlotPtr}
    (hp : t.slot? p = some sl) {f : Slot E → Slot E}
    (hold : (t.logs m).count q ≤ t.lockCount q m)
    (hself : entryLocks sl.entry n + 1 ≤ entryLocks (f sl).entry n)
    (hothers : m ≠ n → entryLocks sl.entry m ≤ entryLocks (f sl).entry m) :
    ((sshtLogSetInsert (t.modifySlot p f) n p).logs m).count q ≤
      (sshtLogSetInsert (t.modifySlot p f) n p).lockCount q m := by
  rw [count_logs_sshtLogSetInsert, Ssht.logs_modifySlot, lockCount_enter hp]
  by_cases hqp : q = p
  · subst hqp
    rw [Ssht.lockCount_of_slot hp] at hold
    rw [if_pos rfl]
    by_cases hmn : m = n
    · subst hmn
      simp only [and_self, if_true]
      omega
    · rw [if_neg (fun hc => hmn hc.1)]
      exact hold.trans (hothers hmn)
  · rw [if_neg hqp, if_neg (fun hc => hqp hc.2)]
    exact hold

/-- Entering one lock more for a node in the slot of an address. -/
theorem Accounted.enter (h : Accounted pgas t) {p : SlotPtr} {sl : Slot E} {addr n : Nat}
    (hfor : SlotFor pgas t p sl addr) {f : Slot E → Slot E} (haddr : (f sl).addr = addr)
    (hvalid : Valid (f sl).entry)
    (hwriter : writer (f sl).entry = SSHT_NO_WRITER ∨ writer (f sl).entry < idBound E)
    (hself : entryLocks (f sl).entry n ≤ entryLocks sl.entry n + 1)
    (hpos : 0 < entryLocks (f sl).entry n)
    (hexact : exact E = true → entryLocks (f sl).entry n = entryLocks sl.entry n + 1)
    (hothers : ∀ m, m < idBound E → m ≠ n →
      entryLocks (f sl).entry m = entryLocks sl.entry m) :
    Accounted pgas (sshtLogSetInsert (t.modifySlot p f) n p) := by
  refine ⟨h.toPlaced.enter hfor haddr n, ?_, ?_, ?_, ?_, ?_, ?_⟩
  · intro q sl' hq
    rcases hfor.enter_cases f n hq with ⟨-, rfl⟩ | ⟨-, hold⟩
    · exact hvalid
    · exact h.valid q sl' hold
  · intro q sl' hq
    rcases hfor.enter_cases f n hq with ⟨-, rfl⟩ | ⟨-, hold⟩
    · exact hwriter
    · exact h.writer_lt q sl' hold
  · intro q sl' hq hzero
    rcases hfor.enter_cases f n hq with ⟨-, rfl⟩ | ⟨-, hold⟩
    · exact absurd (haddr.symm.trans hzero) hfor.addr_ne
    · exact h.free q sl' hold hzero
  · refine h.covered.enter hfor.slot hself ?_
    intro m hm hmn
    exact Nat.le_of_eq (hothers m hm hmn)
  · intro m q hm hex
    exact counted_enter hfor.slot (h.counted m q hm hex) (Nat.le_of_eq (hexact hex).symm)
      fun hmn => Nat.le_of_eq (hothers m hm hmn).symm
  · intro m q hm hq
    rw [count_logs_sshtLogSetInsert, Ssht.logs_modifySlot] at hq
    rw [lockCount_enter hfor.slot]
    by_cases hqp : q = p
    · subst hqp
      rw [if_pos rfl]
      by_cases hmn : m = n
      · rw [hmn]
        exact hpos
      · rw [if_neg (fun hc => hmn hc.1)] at hq
        have hold := h.pointed m q hm hq
        rw [Ssht.lockCount_of_slot hfor.slot] at hold
        rw [hothers m hm hmn]
        exact hold
    · rw [if_neg (fun hc => hqp hc.2)] at hq
      rw [if_neg hqp]
      exact h.pointed m q hm hq

theorem Accounted.markReader (h : Accounted pgas t) {p : SlotPtr} {sl : Slot E} {addr n : Nat}
    (hfor : SlotFor pgas t p sl addr) (hn : n < idBound E)
    (hfree : exact E = true → isReader sl.entry n = false) :
    Accounted pgas (markReader t p n addr) := by
  have hlocks : ∀ m, entryLocks (addReader sl.entry n) m =
      if m = n then 1 + (decide (writer sl.entry = n)).toNat else entryLocks sl.entry m :=
    fun m => entryLocks_addReader hn
  refine h.enter hfor rfl (valid_addReader (h.valid p sl hfor.slot) hn hfree) ?_ ?_ ?_ ?_ ?_
  · rw [writer_addReader]
    exact h.writer_lt p sl hfor.slot
  · rw [hlocks, if_pos rfl]
    unfold entryLocks
    omega
  · rw [hlocks, if_pos rfl]
    omega
  · intro hexact
    rw [hlocks, if_pos rfl]
    unfold entryLocks
    rw [hfree hexact, Bool.toNat_false, Nat.zero_add]
    exact Nat.add_comm _ _
  · intro m _ hmn
    rw [hlocks, if_neg hmn]

/-- What becomes of a read lock on a slot that was found: without a slot nothing, a reader
that is there already may be left alone, and the others are entered. -/
theorem markReaderFound_eq (t : Ssht E) (p : SlotPtr) (n addr : Nat) :
    (t.slot? p = none ∧ markReaderFound t p n addr = t) ∨
    ∃ sl, t.slot? p = some sl ∧
      (((exact E = true ∧ isReader sl.entry n = true) ∧
          markReaderFound t p n addr = t.modifySlot p fun sl => { sl with addr := addr }) ∨
        ((exact E = true → isReader sl.entry n = false) ∧
          markReaderFound t p n addr = markReader t p n addr)) := by
  unfold markReaderFound
  cases hslot : t.slot? p with
  | none => exact Or.inl ⟨rfl, rfl⟩
  | some sl =>
    refine Or.inr ⟨sl, rfl, ?_⟩
    cases hadd : addReaderFound sl.entry n with
    | none => exact Or.inl ⟨addReaderFound_none hadd, by simp only [hadd]⟩
    | some e =>
      obtain ⟨rfl, hexact⟩ := addReaderFound_some hadd
      refine Or.inr ⟨hexact, ?_⟩
      have hsame := Ssht.modifySlot_congr hslot (f := fun _ => ⟨addr, addReader sl.entry n⟩)
        (g := fun sl => ⟨addr, addReader sl.entry n⟩) rfl
      simp only [hadd, markReader]
      rw [hsame]

/-- A reader that is found already is either logged once more or left alone. -/
theorem markReaderFound_cases {p : SlotPtr} {sl : Slot E} {addr n : Nat}
    (hp : t.slot? p = some sl) (haddr : sl.addr = 0 ∨ sl.addr = addr)
    (hfree : sl.addr = 0 → isReader sl.entry n = false) :
    (markReaderFound t p n addr = t ∧ sl.addr = addr ∧
      exact E = true ∧ isReader sl.entry n = true) ∨
    (markReaderFound t p n addr = markReader t p n addr ∧
      (exact E = true → isReader sl.entry n = false)) := by
  rcases markReaderFound_eq t p n addr with ⟨hnone, -⟩ | ⟨sl', hslot, ⟨hread, heq⟩ | ⟨hexact, heq⟩⟩
  · rw [hp] at hnone
    cases hnone
  · obtain rfl := Option.some.inj (hp.symm.trans hslot)
    have haddr : sl.addr = addr := by
      rcases haddr with hzero | heq
      · rw [hfree hzero] at hread
        cases hread.2
      · exact heq
    refine Or.inl ⟨?_, haddr, hread⟩
    rw [heq]
    exact Ssht.modifySlot_eq_self (f := fun sl => { sl with addr := addr }) hp
      (by rw [← haddr])
  · obtain rfl := Option.some.inj (hp.symm.trans hslot)
    exact Or.inr ⟨heq, hexact⟩

theorem Accounted.markReaderFound (h : Accounted pgas t) {p : SlotPtr} {sl : Slot E}
    {addr n : Nat} (hfor : SlotFor pgas t p sl addr) (hn : n < idBound E) :
    Accounted pgas (markReaderFound t p n addr) := by
  rcases markReaderFound_cases hfor.slot hfor.addr_eq
      fun hzero => (h.free p sl hfor.slot hzero).2 n with
    ⟨hsame, -⟩ | ⟨hmark, hfree⟩
  · rw [hsame]
    exact h
  · rw [hmark]
    exact h.markReader hfor hn hfree

theorem Accounted.markWriter (h : Accounted pgas t) {p : SlotPtr} {sl : Slot E} {addr n : Nat}
    (hfor : SlotFor pgas t p sl addr) (hn : n < idBound E)
    (hwriter : writer sl.entry = SSHT_NO_WRITER ∨ writer sl.entry = n)
    (hfree : exact E = true → writer sl.entry ≠ n) :
    Accounted pgas (markWriter t p n addr) := by
  have hlocks : ∀ m, entryLocks (setWriter sl.entry n) m =
      (isReader sl.entry m).toNat + (decide (n = m)).toNat :=
    fun m => entryLocks_setWriter hn
  refine h.enter hfor rfl (valid_setWriter (h.valid p sl hfor.slot)) ?_ ?_ ?_ ?_ ?_
  · rw [writer_setWriter_of_lt hn]
    exact Or.inr hn
  · rw [hlocks]
    unfold entryLocks
    simp
  · rw [hlocks]
    simp
  · intro hexact
    rw [hlocks]
    unfold entryLocks
    simp [hfree hexact]
  · intro m hm hmn
    rw [hlocks]
    have hnm : n ≠ m := fun h => hmn h.symm
    have hwm : writer sl.entry ≠ m := by
      rcases hwriter with hw | hw
      · rw [hw]
        exact fun h => ne_noWriter hm h.symm
      · rw [hw]
        exact hnm
    simp [entryLocks, hnm, hwm]

omit [LawfulRwEntry E] in
/-- The slot that a scan for the address finds. -/
theorem Placed.slotFor_found (h : Placed pgas t) {addr i : Nat} {sl : Slot E}
    (haddr : addr ≠ 0)
    (hfind : bucketFind (t.bucket (bucketOf pgas addr)) addr = some (i, sl)) :
    SlotFor pgas t (bucketOf pgas addr, i) sl addr := by
  obtain ⟨hslot, heq⟩ := bucketFind_eq_some hfind
  have hp : t.slot? (bucketOf pgas addr, i) = some sl := hslot
  refine ⟨hp, haddr, rfl, Or.inr heq, ?_⟩
  intro q sl' hq hqaddr
  exact h.unique q (bucketOf pgas addr, i) sl' sl hq hp (hqaddr ▸ haddr) (hqaddr.trans heq.symm)

omit [LawfulRwEntry E] in
theorem Placed.not_found (h : Placed pgas t) {addr : Nat} (haddr : addr ≠ 0)
    (hfind : bucketFind (t.bucket (bucketOf pgas addr)) addr = none) {p : SlotPtr} {sl : Slot E}
    (hp : t.slot? p = some sl) : sl.addr ≠ addr := by
  intro heq
  have hhome := h.home p sl hp (heq ▸ haddr)
  rw [heq] at hhome
  have hmem : sl ∈ t.bucket (bucketOf pgas addr) := by
    rw [← hhome]
    exact List.mem_of_getElem? hp
  exact bucketFind_eq_none hfind sl hmem heq

/-- The slot that is taken when the scan finds none. -/
theorem Placed.slotFor_alloc (h : Placed pgas t) {addr : Nat} (haddr : addr ≠ 0)
    (hfind : bucketFind (t.bucket (bucketOf pgas addr)) addr = none) :
    ∃ sl, sl.addr = 0 ∧
      SlotFor pgas (TM2C.bucketAlloc t (bucketOf pgas addr)).1
        (TM2C.bucketAlloc t (bucketOf pgas addr)).2 sl addr := by
  obtain ⟨-, ⟨sl, hslot, hzero⟩, hbu, hslots⟩ := bucketAlloc_spec t (bucketOf pgas addr)
  refine ⟨sl, hzero, hslot, haddr, hbu, Or.inl hzero, ?_⟩
  intro q sl' hq hqaddr
  rcases hslots q with hsame | ⟨-, hnew⟩
  · exact absurd hqaddr (h.not_found haddr hfind (hsame ▸ hq))
  · rw [hq, Option.some.injEq] at hnew
    rw [hnew] at hqaddr
    exact absurd hqaddr.symm haddr

/-- Deleting a node leaves the slot of an address usable for that address. -/
theorem SlotFor.deleteNode (h : Accounted pgas t) {p : SlotPtr} {sl : Slot E} {addr n : Nat}
    (hfor : SlotFor pgas t p sl addr) (hn : n < idBound E) :
    ∃ sl', SlotFor pgas (tm2cHtDeleteNode t n) p sl' addr ∧ Removed n sl sl' ∧
      entryLocks sl'.entry n = 0 := by
  obtain ⟨sl', hslot, hremoved, hzero⟩ := h.removed_deleteNode hn hfor.slot
  refine ⟨sl', ⟨hslot, hfor.addr_ne, hfor.home, ?_, ?_⟩, hremoved, hzero⟩
  · by_cases haddr : sl'.addr = 0
    · exact Or.inl haddr
    · rw [hremoved.toStripped.addr_of_ne haddr]
      exact hfor.addr_eq
  · intro q sl'' hq hqaddr
    obtain ⟨sl₀, hold, hremoved₀, -⟩ := h.exists_of_deleteNode hn hq
    have hne : sl''.addr ≠ 0 := hqaddr ▸ hfor.addr_ne
    exact hfor.only q sl₀ hold (hremoved₀.toStripped.addr_of_ne hne ▸ hqaddr)

end Accounted

end TM2C
