import Mathlib.Data.List.Basic
import TM2C.TypedStores

/-!
# Deduplicating write sets

`write_set_update` and `write_set_pgas_update` of `src/tm2c_log.c` overwrite the value of an
address that has an entry; `write_set_insert` and `write_set_pgas_insert` always append.
Replayed onto a memory both leave the same, as long as the array of the appending one can
grow: the counters are `uint32_t`, and doubling the capacity `2 ^ 31` gives 0.

A build is a sequence of calls of one of the two, on an empty write set.  What the two families of
functions share is a `WriteBuffer`: a log with a capacity, an insertion that appends, an update
that sets the first entry with the address or appends, and a `persist` that writes the log in
order.  Everything is proved for these and applied twice, to the write sets of transactions, whose
entries have types, and to those of a PGAS service node, whose entries have none.

Setting the first entry keeps the log without repetitions, in the order of the first occurrences
and with the values of the last (`AppendLog.assignAll`).  Replaying both logs gives one memory,
because writes to different locations do not overlap and all writes to a location have one width.
The condition on lengths is exact: appending fails behind `2 ^ 31` writes (`build_insert_none`),
and updating, which has at most as many entries, never before that.
-/

namespace TM2C

/-- The search of an update: the entries after the first one at the address was set. -/
def setFirst {ε : Type} (address : ε → Nat) (setValue : ε → ε) (a : Nat) :
    List ε → Option (List ε)
  | [] => none
  | we :: rest =>
    if address we = a then some (setValue we :: rest)
    else (setFirst address setValue a rest).map fun rest => we :: rest

def writeEntrySetValue (we : WriteEntry) (value : BitVec 32) : WriteEntry := { we with i := value }

def writeSetUpdate (writeSet : WriteSet) (datatype : Datatype) (value : BitVec 32)
    (address : Nat) : Option WriteSet :=
  match setFirst WriteEntry.address (fun we => writeEntrySetValue we value) address
    writeSet.writeEntries with
  | some writeEntries => some { writeSet with writeEntries := writeEntries }
  | none => writeSetInsert writeSet datatype value address

def writeSetPgasUpdate (writeSet : WriteSetPgas) (value : BitVec 64) (address : Nat) :
    Option WriteSetPgas :=
  match setFirst WriteEntryPgas.address (fun we => { we with value := value }) address
    writeSet.writeEntries with
  | some writeEntries => some { writeSet with writeEntries := writeEntries }
  | none => writeSetPgasInsert writeSet value address

/-! ### The two builders -/

/-- One fixed type per address. -/
def insertAll (typeOf : Nat → Datatype) (writes : List (Nat × BitVec 32)) : Option WriteSet :=
  writes.foldlM (fun ws w => writeSetInsert ws (typeOf w.1) w.2 w.1) writeSetNew

def updateAll (typeOf : Nat → Datatype) (writes : List (Nat × BitVec 32)) : Option WriteSet :=
  writes.foldlM (fun ws w => writeSetUpdate ws (typeOf w.1) w.2 w.1) writeSetNew

def insertAllPgas (writes : List (Nat × BitVec 64)) : Option WriteSetPgas :=
  writes.foldlM (fun ws w => writeSetPgasInsert ws w.2 w.1) writeSetPgasNew

def updateAllPgas (writes : List (Nat × BitVec 64)) : Option WriteSetPgas :=
  writes.foldlM (fun ws w => writeSetPgasUpdate ws w.2 w.1) writeSetPgasNew

/-- Both write sets can be built; the updated one has every address once, in the order of
the first writes, and persisting the one or the other leaves the same memory. -/
def UpdateAgrees (platform : Platform) (mem : ByteMemory) (typeOf : Nat → Datatype)
    (writes : List (Nat × BitVec 32)) : Prop :=
  ∃ updated inserted, updateAll typeOf writes = some updated ∧
    insertAll typeOf writes = some inserted ∧
    (updated.writeEntries.map WriteEntry.address).Nodup ∧
    updated.writeEntries.map WriteEntry.address = (writes.map Prod.fst).eraseDups ∧
    writeSetPersist platform mem updated = writeSetPersist platform mem inserted

def UpdateAgreesPgas (mem : ByteMemory) (writes : List (Nat × BitVec 64)) : Prop :=
  ∃ updated inserted, updateAllPgas writes = some updated ∧
    insertAllPgas writes = some inserted ∧
    (updated.writeEntries.map WriteEntryPgas.address).Nodup ∧
    updated.writeEntries.map WriteEntryPgas.address = (writes.map Prod.fst).eraseDups ∧
    writeSetPgasPersist mem updated = writeSetPgasPersist mem inserted

/-! ### Setting the first entry -/

section SetFirst

variable {ε ν : Type} {address : ε → Nat} {setValue : ε → ε} {a : Nat} {entries : List ε}

theorem setFirst_of_notMem (h : a ∉ entries.map address) :
    setFirst address setValue a entries = none := by
  induction entries with
  | nil => rfl
  | cons we rest ih =>
    rw [List.map_cons, List.mem_cons, not_or] at h
    rw [setFirst, if_neg (Ne.symm h.1), ih h.2]
    rfl

theorem setFirst_of_mem (setValue : ε → ε) (binding : ε → Nat × ν) {v : ν}
    (haddr : ∀ we, (binding we).1 = address we)
    (hset : ∀ we, binding (setValue we) = (address we, v)) (h : a ∈ entries.map address) :
    ∃ entries', setFirst address setValue a entries = some entries' ∧
      entries'.map binding = AppendLog.assign (entries.map binding) a v := by
  induction entries with
  | nil => cases h
  | cons we rest ih =>
    rw [List.map_cons, AppendLog.assign, haddr]
    by_cases hwe : address we = a
    · refine ⟨setValue we :: rest, if_pos hwe, ?_⟩
      rw [if_pos hwe, List.map_cons, hset, hwe]
    · obtain ⟨rest', hrest, hlog⟩ := ih ((List.mem_cons.mp h).resolve_left (Ne.symm hwe))
      refine ⟨we :: rest', ?_, ?_⟩
      · rw [setFirst, if_neg hwe, hrest]
        rfl
      · rw [if_neg hwe, List.map_cons, hlog]

/-- What holds of every entry holds of the entries after one was set. -/
theorem setFirst_forall {P : ε → Prop} (hset : ∀ we, P we → P (setValue we))
    {entries' : List ε} (h : setFirst address setValue a entries = some entries')
    (hall : ∀ we ∈ entries, P we) : ∀ we ∈ entries', P we := by
  induction entries generalizing entries' with
  | nil => cases h
  | cons we rest ih =>
    obtain ⟨hwe, hrest⟩ := List.forall_mem_cons.mp hall
    unfold setFirst at h
    split at h
    · obtain rfl := Option.some.inj h
      exact List.forall_mem_cons.mpr ⟨hset we hwe, hrest⟩
    · obtain ⟨rest', hrest', rfl⟩ := Option.map_eq_some_iff.mp h
      exact List.forall_mem_cons.mpr ⟨hwe, ih hrest' hrest⟩

end SetFirst

/-! ### What both kinds of write sets have in common -/

/-- A write set as a log of bindings with a capacity.  `Typed` is what its entries need to
be replayed as bindings. -/
structure WriteBuffer (S V : Type) where
  new : S
  insert : S → Nat → V → Option S
  update : S → Nat → V → Option S
  persist : ByteMemory → S → ByteMemory
  log : S → List (Nat × V)
  size : S → Nat
  put : ByteMemory → Nat → V → ByteMemory
  Typed : S → Prop
  log_new : log new = []
  size_new : size new = 4
  typed_new : Typed new
  insert_none : ∀ {s a v}, writeSetEntry (log s).length (size s) = none → insert s a v = none
  insert_some : ∀ {s a v n}, writeSetEntry (log s).length (size s) = some n → Typed s →
    ∃ s', insert s a v = some s' ∧ log s' = log s ++ [(a, v)] ∧ size s' = n ∧ Typed s'
  update_mem : ∀ {s a v}, a ∈ (log s).map Prod.fst → Typed s →
    ∃ s', update s a v = some s' ∧ log s' = AppendLog.assign (log s) a v ∧
      size s' = size s ∧ Typed s'
  update_notMem : ∀ {s a v}, a ∉ (log s).map Prod.fst → update s a v = insert s a v
  persist_eq : ∀ {s}, Typed s → ∀ mem, persist mem s = AppendLog.replay put mem (log s)

namespace WriteBuffer

variable {S V : Type} (b : WriteBuffer S V)

/-- Build a write set with the one function or the other. -/
def build (add : S → Nat → V → Option S) (writes : List (Nat × V)) : Option S :=
  writes.foldlM (fun s w => add s w.1 w.2) b.new

/-- The log of a write set that was built, which has room for its entries. -/
structure Built (s : S) (bindings : List (Nat × V)) : Prop where
  log : b.log s = bindings
  room : Room bindings.length (b.size s)
  typed : b.Typed s

variable {b} {s : S} {writes bindings : List (Nat × V)} {a : Nat} {v : V}

theorem built_new : b.Built b.new [] where
  log := b.log_new
  room := b.size_new ▸ room_new
  typed := b.typed_new

theorem build_concat (add : S → Nat → V → Option S) (writes : List (Nat × V)) (w : Nat × V) :
    b.build add (writes ++ [w]) = (b.build add writes).bind fun s => add s w.1 w.2 := by
  unfold build
  rw [List.foldlM_append]
  exact bind_congr fun s => bind_pure (add s w.1 w.2)

theorem Built.insert (h : b.Built s bindings) (hlt : bindings.length < 2 ^ 31) :
    ∃ s', b.insert s a v = some s' ∧ b.Built s' (bindings ++ [(a, v)]) := by
  obtain ⟨hn, hroom⟩ := h.room.writeSetEntry hlt
  rw [← h.log] at hn hroom
  obtain ⟨s', hs', hlog, hsize, htyped⟩ := b.insert_some (a := a) (v := v) hn h.typed
  refine ⟨s', hs', ?_, ?_, htyped⟩
  · rw [hlog, h.log]
  · rw [List.length_append, hsize, ← h.log]
    exact hroom

theorem Built.update (h : b.Built s bindings) (hlt : bindings.length < 2 ^ 31) :
    ∃ s', b.update s a v = some s' ∧ b.Built s' (AppendLog.assign bindings a v) := by
  by_cases hmem : a ∈ bindings.map Prod.fst
  · have hmem' := hmem
    rw [← h.log] at hmem'
    obtain ⟨s', hs', hlog, hsize, htyped⟩ := b.update_mem (v := v) hmem' h.typed
    have hlen := congrArg List.length (AppendLog.keys_assign_of_mem hmem v)
    rw [List.length_map, List.length_map] at hlen
    refine ⟨s', hs', ?_, ?_, htyped⟩
    · rw [hlog, h.log]
    · rw [hlen, hsize]
      exact h.room
  · have hmem' := hmem
    rw [← h.log] at hmem'
    rw [b.update_notMem hmem', AppendLog.assign_of_notMem hmem]
    exact h.insert hlt

/-- Up to `2 ^ 31` writes both write sets can be built. -/
theorem build_insert (hle : writes.length ≤ 2 ^ 31) :
    ∃ s, b.build b.insert writes = some s ∧ b.Built s writes := by
  induction writes using List.reverseRecOn with
  | nil => exact ⟨b.new, rfl, built_new⟩
  | append_singleton writes w ih =>
    rw [List.length_append, List.length_singleton] at hle
    obtain ⟨s, hs, hbuilt⟩ := ih (by omega)
    rw [build_concat, hs]
    exact hbuilt.insert (by omega)

theorem build_update (hle : writes.length ≤ 2 ^ 31) :
    ∃ s, b.build b.update writes = some s ∧ b.Built s (AppendLog.assignAll writes) := by
  induction writes using List.reverseRecOn with
  | nil => exact ⟨b.new, rfl, built_new⟩
  | append_singleton writes w ih =>
    rw [List.length_append, List.length_singleton] at hle
    obtain ⟨s, hs, hbuilt⟩ := ih (by omega)
    have hshort := AppendLog.length_assignAll_le writes
    rw [build_concat, hs, AppendLog.assignAll_concat]
    exact hbuilt.update (by omega)

/-- The write behind the first `2 ^ 31` ones cannot be appended. -/
theorem build_insert_none (hlt : 2 ^ 31 < writes.length) : b.build b.insert writes = none := by
  obtain ⟨s, hs, hbuilt⟩ := build_insert (b := b) (List.length_take_le (2 ^ 31) writes)
  have hlen : (writes.take (2 ^ 31)).length = 2 ^ 31 := List.length_take_of_le (Nat.le_of_lt hlt)
  have hfull := hbuilt.room
  rw [hlen] at hfull
  have hnone : ∀ a v, b.insert s a v = none := by
    intro a v
    apply b.insert_none
    rw [hbuilt.log, hlen]
    exact hfull.writeSetEntry_full
  have hsplit : writes = writes.take (2 ^ 31) ++ writes[2 ^ 31] :: writes.drop (2 ^ 31 + 1) := by
    rw [List.getElem_cons_drop, List.take_append_drop]
  unfold build at hs ⊢
  rw [hsplit, List.foldlM_append, hs]
  exact congrArg (fun o => Option.bind o _) (hnone _ _)

/-- Both write sets can be built and agree, unless there are too many writes. -/
theorem agrees_iff (hput : AppendLog.Independent b.put (writes.map Prod.fst)) (mem : ByteMemory) :
    (∃ updated inserted, b.build b.update writes = some updated ∧
      b.build b.insert writes = some inserted ∧
      ((b.log updated).map Prod.fst).Nodup ∧
      (b.log updated).map Prod.fst = (writes.map Prod.fst).eraseDups ∧
      b.persist mem updated = b.persist mem inserted) ↔ writes.length ≤ 2 ^ 31 := by
  constructor
  · rintro ⟨-, inserted, -, hinserted, -⟩
    by_contra hlt
    rw [build_insert_none (Nat.lt_of_not_le hlt)] at hinserted
    cases hinserted
  · intro hle
    obtain ⟨updated, hupdated, hbuilt⟩ := build_update (b := b) hle
    obtain ⟨inserted, hinserted, hbuilt'⟩ := build_insert (b := b) hle
    refine ⟨updated, inserted, hupdated, hinserted, ?_, ?_, ?_⟩
    · rw [hbuilt.log]
      exact AppendLog.nodup_keys_assignAll writes
    · rw [hbuilt.log]
      exact AppendLog.keys_assignAll writes
    · rw [b.persist_eq hbuilt.typed, b.persist_eq hbuilt'.typed, hbuilt.log, hbuilt'.log]
      exact AppendLog.replay_assignAll hput mem

end WriteBuffer

/-! ### The write set of a transaction -/

section WriteSets

variable {platform : Platform} {typeOf : Nat → Datatype} {ws : WriteSet} {a : Nat}
  {v : BitVec 32}

/-- The entries have the types of their addresses. -/
def WriteSet.Typed (typeOf : Nat → Datatype) (ws : WriteSet) : Prop :=
  ∀ we ∈ ws.writeEntries, we.type = typeOf we.address

theorem WriteSet.keys_log (ws : WriteSet) :
    ws.log.map Prod.fst = ws.writeEntries.map WriteEntry.address := by
  unfold WriteSet.log
  rw [List.map_map]
  rfl

theorem writeSetInsert_some {n : Nat} (h : writeSetEntry ws.log.length ws.size = some n)
    (htyped : ws.Typed typeOf) :
    ∃ ws', writeSetInsert ws (typeOf a) v a = some ws' ∧ ws'.log = ws.log ++ [(a, v)] ∧
      ws'.size = n ∧ ws'.Typed typeOf := by
  unfold WriteSet.log at h
  rw [List.length_map] at h
  refine ⟨⟨ws.writeEntries ++ [⟨a, typeOf a, v⟩], n⟩, ?_, ?_, rfl, ?_⟩
  · unfold writeSetInsert
    rw [h]
    rfl
  · unfold WriteSet.log
    exact List.map_append
  · intro we hwe
    rcases List.mem_append.mp hwe with hwe | hwe
    · exact htyped we hwe
    · rw [List.mem_singleton.mp hwe]

theorem writeSetUpdate_mem (h : a ∈ ws.log.map Prod.fst) (htyped : ws.Typed typeOf) :
    ∃ ws', writeSetUpdate ws (typeOf a) v a = some ws' ∧
      ws'.log = AppendLog.assign ws.log a v ∧ ws'.size = ws.size ∧ ws'.Typed typeOf := by
  rw [WriteSet.keys_log] at h
  obtain ⟨entries, hset, hlog⟩ := setFirst_of_mem (fun we => writeEntrySetValue we v)
    (fun we => (we.address, we.i)) (fun _ => rfl) (fun _ => rfl) h
  refine ⟨⟨entries, ws.size⟩, ?_, hlog, rfl, ?_⟩
  · unfold writeSetUpdate
    rw [hset]
  · refine setFirst_forall (P := fun we : WriteEntry => we.type = typeOf we.address) ?_ hset htyped
    exact fun we hwe => hwe

def writeSetBuffer (platform : Platform) (typeOf : Nat → Datatype) :
    WriteBuffer WriteSet (BitVec 32) where
  new := writeSetNew
  insert ws a v := writeSetInsert ws (typeOf a) v a
  update ws a v := writeSetUpdate ws (typeOf a) v a
  persist := writeSetPersist platform
  log := WriteSet.log
  size := WriteSet.size
  put mem a v := writeEntryPersist platform mem ⟨a, typeOf a, v⟩
  Typed := WriteSet.Typed typeOf
  log_new := log_writeSetNew
  size_new := rfl
  typed_new we hwe := by cases hwe
  insert_none {ws a v} h := by
    unfold WriteSet.log at h
    rw [List.length_map] at h
    unfold writeSetInsert
    rw [h]
    rfl
  insert_some := writeSetInsert_some
  update_mem := writeSetUpdate_mem
  update_notMem {ws a v} h := by
    rw [WriteSet.keys_log] at h
    unfold writeSetUpdate
    rw [setFirst_of_notMem h]
  persist_eq {ws} htyped mem := by
    unfold writeSetPersist AppendLog.replay WriteSet.log
    rw [List.foldl_map]
    refine List.foldl_ext _ _ _ fun mem we hwe => ?_
    simp only [← htyped we hwe]

/-- The bytes that an entry is written to lie in its location. -/
theorem writeEntryPersist_eq_store (platform : Platform) (datatype : Datatype) :
    ∃ n ≤ datatype.width, ∀ v, ∃ w : BitVec (8 * n), ∀ mem a,
      writeEntryPersist platform mem ⟨a, datatype, v⟩ = ByteMemory.store n mem a w := by
  cases platform <;> cases datatype
  · exact ⟨4, Nat.le_refl 4, fun v => ⟨v, fun _ _ => rfl⟩⟩
  · exact ⟨4, by decide, fun v => ⟨v, fun _ _ => rfl⟩⟩
  · exact ⟨4, Nat.le_refl 4, fun v => ⟨v, fun _ _ => rfl⟩⟩
  · exact ⟨8, Nat.le_refl 8, fun v => ⟨v.signExtend 64, fun _ _ => rfl⟩⟩

theorem independent_writeSet {ks : List Nat}
    (hapart : ∀ a ∈ ks, ∀ b ∈ ks, a ≠ b →
      ByteMemory.Apart a (typeOf a).width b (typeOf b).width) :
    AppendLog.Independent (writeSetBuffer platform typeOf).put ks where
  comm := by
    intro a ha b hb hne mem v w
    obtain ⟨n, hn, hstore⟩ := writeEntryPersist_eq_store platform (typeOf a)
    obtain ⟨k, hk, hstore'⟩ := writeEntryPersist_eq_store platform (typeOf b)
    obtain ⟨x, hx⟩ := hstore v
    obtain ⟨y, hy⟩ := hstore' w
    have hwords : ByteMemory.Apart a n b k := by
      have hwide := hapart a ha b hb hne
      unfold ByteMemory.Apart at hwide ⊢
      omega
    simp only [writeSetBuffer, hx, hy]
    exact ByteMemory.store_comm mem x y hwords
  overwrite := by
    intro a _ mem v w
    obtain ⟨n, -, hstore⟩ := writeEntryPersist_eq_store platform (typeOf a)
    obtain ⟨x, hx⟩ := hstore v
    obtain ⟨y, hy⟩ := hstore w
    simp only [writeSetBuffer, hx, hy]
    exact ByteMemory.store_store mem a x y

end WriteSets

/-! ### The write sets of a PGAS service node -/

section PgasWriteSets

variable {ws : WriteSetPgas} {a : Nat} {v : BitVec 64}

def WriteSetPgas.log (ws : WriteSetPgas) : List (Nat × BitVec 64) :=
  ws.writeEntries.map fun we => (we.address, we.value)

theorem WriteSetPgas.keys_log (ws : WriteSetPgas) :
    ws.log.map Prod.fst = ws.writeEntries.map WriteEntryPgas.address := by
  unfold WriteSetPgas.log
  rw [List.map_map]
  rfl

theorem writeSetPgasInsert_some {n : Nat} (h : writeSetEntry ws.log.length ws.size = some n) :
    ∃ ws', writeSetPgasInsert ws v a = some ws' ∧ ws'.log = ws.log ++ [(a, v)] ∧
      ws'.size = n := by
  unfold WriteSetPgas.log at h
  rw [List.length_map] at h
  refine ⟨⟨ws.writeEntries ++ [⟨a, v⟩], n⟩, ?_, ?_, rfl⟩
  · unfold writeSetPgasInsert
    rw [h]
    rfl
  · unfold WriteSetPgas.log
    exact List.map_append

theorem writeSetPgasUpdate_mem (h : a ∈ ws.log.map Prod.fst) :
    ∃ ws', writeSetPgasUpdate ws v a = some ws' ∧
      ws'.log = AppendLog.assign ws.log a v ∧ ws'.size = ws.size := by
  rw [WriteSetPgas.keys_log] at h
  obtain ⟨entries, hset, hlog⟩ := setFirst_of_mem
    (fun we : WriteEntryPgas => { we with value := v }) (fun we => (we.address, we.value))
    (fun _ => rfl) (fun _ => rfl) h
  refine ⟨⟨entries, ws.size⟩, ?_, hlog, rfl⟩
  unfold writeSetPgasUpdate
  rw [hset]

def writeSetPgasBuffer : WriteBuffer WriteSetPgas (BitVec 64) where
  new := writeSetPgasNew
  insert ws a v := writeSetPgasInsert ws v a
  update ws a v := writeSetPgasUpdate ws v a
  persist := writeSetPgasPersist
  log := WriteSetPgas.log
  size := WriteSetPgas.size
  put := pgasDslWrite
  Typed _ := True
  log_new := rfl
  size_new := rfl
  typed_new := trivial
  insert_none {ws a v} h := by
    unfold WriteSetPgas.log at h
    rw [List.length_map] at h
    unfold writeSetPgasInsert
    rw [h]
    rfl
  insert_some h _ := by
    obtain ⟨ws', hws', hlog, hsize⟩ := writeSetPgasInsert_some h
    exact ⟨ws', hws', hlog, hsize, trivial⟩
  update_mem h _ := by
    obtain ⟨ws', hws', hlog, hsize⟩ := writeSetPgasUpdate_mem h
    exact ⟨ws', hws', hlog, hsize, trivial⟩
  update_notMem {ws a v} h := by
    rw [WriteSetPgas.keys_log] at h
    unfold writeSetPgasUpdate
    rw [setFirst_of_notMem h]
  persist_eq {ws} _ mem := by
    unfold writeSetPgasPersist AppendLog.replay WriteSetPgas.log
    rw [List.foldl_map]

theorem independent_writeSetPgas {ks : List Nat}
    (hapart : ∀ a ∈ ks, ∀ b ∈ ks, a ≠ b → ByteMemory.Apart a 8 b 8) :
    AppendLog.Independent writeSetPgasBuffer.put ks where
  comm a ha b hb hne mem v w :=
    ByteMemory.store_comm (n := 8) (k := 8) mem v w (hapart a ha b hb hne)
  overwrite a _ mem v w := ByteMemory.store_store (n := 8) mem a v w

end PgasWriteSets

/-! ### Updating and appending -/

/-- **Updating agrees with appending** for exactly the sequences of at most `2 ^ 31` writes,
whose locations do not overlap and have one type each. -/
theorem update_agrees_iff (platform : Platform) (mem : ByteMemory) (typeOf : Nat → Datatype)
    (writes : List (Nat × BitVec 32))
    (hapart : ∀ a ∈ writes.map Prod.fst, ∀ b ∈ writes.map Prod.fst, a ≠ b →
      ByteMemory.Apart a (typeOf a).width b (typeOf b).width)
    (pgasMem : ByteMemory) (pgasWrites : List (Nat × BitVec 64))
    (hpgas : ∀ a ∈ pgasWrites.map Prod.fst, ∀ b ∈ pgasWrites.map Prod.fst, a ≠ b →
      ByteMemory.Apart a 8 b 8) :
    (UpdateAgrees platform mem typeOf writes ↔ writes.length ≤ 2 ^ 31) ∧
    (UpdateAgreesPgas pgasMem pgasWrites ↔ pgasWrites.length ≤ 2 ^ 31) := by
  unfold UpdateAgrees UpdateAgreesPgas
  simp only [← WriteSet.keys_log, ← WriteSetPgas.keys_log]
  constructor
  · exact WriteBuffer.agrees_iff (b := writeSetBuffer platform typeOf)
      (independent_writeSet hapart) mem
  · exact WriteBuffer.agrees_iff (b := writeSetPgasBuffer) (independent_writeSetPgas hpgas) pgasMem

/-- Three writes to two locations of a transaction, and three to one word of a partition. -/
theorem update_agrees_iff_threeWrites :
    UpdateAgrees .niagara (fun _ => 0) (fun a => if a = 8 then .typeInt64 else .typeInt)
      [(8, 1), (16, 2), (8, 3)] ∧
    UpdateAgreesPgas (fun _ => 0) [(64, 1), (64, 2), (64, 3)] := by
  obtain ⟨hint, hpgas⟩ := update_agrees_iff .niagara (fun _ => 0)
    (fun a => if a = 8 then .typeInt64 else .typeInt) [(8, 1), (16, 2), (8, 3)] (by decide)
    (fun _ => 0) [(64, 1), (64, 2), (64, 3)] (by decide)
  exact ⟨hint.mpr (by decide), hpgas.mpr (by decide)⟩

/-- One location is written `2 ^ 31 + 1` times: one entry is enough for the updates, but the
appended entries have no room. -/
theorem update_outlives_insert :
    insertAll (fun _ => .typeInt) (List.replicate (2 ^ 31 + 1) (64, 7)) = none ∧
    ¬ UpdateAgrees .generic (fun _ => 0) (fun _ => .typeInt)
      (List.replicate (2 ^ 31 + 1) (64, 7)) := by
  have hnone : insertAll (fun _ => .typeInt) (List.replicate (2 ^ 31 + 1) (64, 7)) = none := by
    apply WriteBuffer.build_insert_none (b := writeSetBuffer .generic fun _ => .typeInt)
    rw [List.length_replicate]
    exact Nat.lt_succ_self _
  refine ⟨hnone, ?_⟩
  rintro ⟨-, inserted, -, hinserted, -⟩
  rw [hnone] at hinserted
  cases hinserted

end TM2C
