import TM2C.LockTable
import TM2C.ReadYourWrites

/-!
# Transactions of a single node in the PGAS build

`tx_load`, `TX_STORE` and `TX_LOAD_STORE` of `include/tm2c.h` with `PGAS`, the
requests of `src/tm2c_app.c` behind them, and the service node that answers, for
an application node that runs alone.  Loads read the memory of the service node
and not the buffered writes, and an increment is added to the value in memory,
so a transaction is sequential only where its accesses do not meet.

The proof follows the service node through the requests of a transaction.  Its state
after some accesses is a function of these accesses (`SoloState`): the table has the
locks of the addresses loaded and written and no others, the log has one entry for each
of them, and the write set has the buffered values.  From this it can be told which
request is refused, which one outgrows the log, and what the commit replays.  A second,
purely sequential part compares the replay with the execution step by step: both leave
the last value written to an address, so they agree where every last increment was
computed from the value that the address had at the start (`persisted_buffered_iff`).
-/

namespace TM2C

open RwEntry LawfulRwEntry

/-- `TX_LOAD(addr, 2)`, `TX_STORE(addr, v)`, and `TX_LOAD_STORE(addr, op, k)` with
`op(k)` as its increment, at an offset of the partition. -/
inductive PgasAccess where
  | txLoad (address : Nat)
  | txStore (address : Nat) (value : BitVec 64)
  | txLoadStore (address : Nat) (increment : BitVec 64)
deriving DecidableEq, Repr

def PgasAccess.address : PgasAccess → Nat
  | .txLoad address | .txStore address _ | .txLoadStore address _ => address

/-- The clock of the service node and the metadata that a message carries. -/
structure Clocks where
  now : Nat
  txMetadata : Nat
deriving DecidableEq, Repr

/-- The service node, and `nodes_contacted` of the application node for it. -/
structure PgasNode (E : Type) where
  dsl : Dsl E
  nodesContacted : Nat

section Definitions

variable {E : Type} [RwEntry E]

omit [RwEntry E] in
/-- The service node lives on: what the request entered in the arrays of its sender had room
there.  `ssht_log_set_entry` doubles the array of a log from 8 to `2 ^ 31` entries. -/
def Survives (before after : Dsl E) (id : Nat) : Prop :=
  (after.ht.logs id).length ≤ 2 ^ 31 ∧
  ((before.writeSets id).writeEntries.length < (after.writeSets id).writeEntries.length →
    (writeSetEntry (before.writeSets id).writeEntries.length
      (before.writeSets id).size).isSome = true)

instance (before after : Dsl E) (id : Nat) : Decidable (Survives before after id) :=
  inferInstanceAs (Decidable (_ ∧ (_ → _)))

/-- `tm2c_rpc_load`, `tm2c_rpc_store` and `tm2c_rpc_store_inc` with the abort of their caller,
which nobody answers when the service node has died. -/
def pgasRequest (cfg : Config) (id : Nat) (s : PgasNode E) (c : Clocks) (type : ReqType)
    (address : Nat) (value : BitVec 64) : Except Failure (PgasNode E × BitVec 64) := do
  txChkAborted cfg (s.dsl.abortFlags id)
  let r := dslService cfg c.now s.dsl id ⟨type, address, value, c.txMetadata⟩
  let reply ← orDie (if Survives s.dsl r.1 id then r.2 else none)
  rpcRequest reply.response
  return (⟨r.1, (s.nodesContacted + 1) % 2 ^ 16⟩, reply.value)

/-- One access; the list has the value a load returned. -/
def pgasAccess (cfg : Config) (id : Nat) (s : PgasNode E) (c : Clocks) :
    PgasAccess → Except Failure (PgasNode E × List (BitVec 64))
  | .txLoad address => do
    let r ← pgasRequest cfg id s c .load address 2
    return (r.1, [r.2])
  | .txStore address value => do
    let r ← pgasRequest cfg id s c .store address value
    return (r.1, [])
  | .txLoadStore address increment => do
    let r ← pgasRequest cfg id s c .storeInc address increment
    return (r.1, [])

def pgasAccesses (cfg : Config) (id : Nat) (s : PgasNode E) :
    List (PgasAccess × Clocks) → Except Failure (PgasNode E × List (BitVec 64))
  | [] => .ok (s, [])
  | (access, c) :: rest => do
    let r ← pgasAccess cfg id s c access
    let r' ← pgasAccesses cfg id r.1 rest
    return (r'.1, r.2 ++ r'.2)

/-- `TX_START` -/
def pgasStart (cfg : Config) (id : Nat) (s : PgasNode E) : PgasNode E :=
  if cfg.cm.isReal then
    { s with dsl := { s.dsl with
        abortFlags := Function.update s.dsl.abortFlags id .noConflict } }
  else s

/-- `tm2c_rpc_rls_all(NO_CONFLICT)` -/
def pgasRlsAll (cfg : Config) (id : Nat) (s : PgasNode E) (c : Clocks) : PgasNode E :=
  if s.nodesContacted > 0 then
    ⟨(dslService cfg c.now s.dsl id ⟨.rmvNode, 0, RESPONSE_NO_CONFLICT, c.txMetadata⟩).1, 0⟩
  else s

/-- `TX_COMMIT`: `TXPERSISTING`, the release, and `TXCOMPLETED`. -/
def pgasCommit (cfg : Config) (id : Nat) (s : PgasNode E) (c : Clocks) :
    Except Failure (PgasNode E) := do
  txChkAborted cfg (s.dsl.abortFlags id)
  let s := pgasRlsAll cfg id s c
  if cfg.cm.isReal then
    return { s with dsl := { s.dsl with
      abortFlags := Function.update s.dsl.abortFlags id .txCommitted } }
  else return s

/-- A transaction: its accesses, each with the clocks of its message, and the
clocks of the release. -/
structure PgasTx where
  accesses : List (PgasAccess × Clocks)
  commit : Clocks

def PgasTx.plain (tx : PgasTx) : List PgasAccess := tx.accesses.map Prod.fst

/-- A transaction attempt. -/
def pgasTx (cfg : Config) (id : Nat) (s : PgasNode E) (tx : PgasTx) :
    Except Failure (PgasNode E × List (BitVec 64)) := do
  let r ← pgasAccesses cfg id (pgasStart cfg id s) tx.accesses
  let s' ← pgasCommit cfg id r.1 tx.commit
  return (s', r.2)

/-- The transactions of a node, one after the other. -/
def pgasTxs (cfg : Config) (id : Nat) (s : PgasNode E) : List PgasTx → Except Failure (PgasNode E)
  | [] => .ok s
  | tx :: txs => do
    let r ← pgasTx cfg id s tx
    pgasTxs cfg id r.1 txs

/-- A node that has not sent anything, over any memory. -/
def pgasInit (mem : ByteMemory) : PgasNode E := ⟨{ dslInit with mem := mem }, 0⟩

end Definitions

/-! ### What the accesses should do -/

def seqAccess (mem : ByteMemory) : PgasAccess → ByteMemory × List (BitVec 64)
  | .txLoad address => (mem, [pgasDslRead mem address])
  | .txStore address value => (pgasDslWrite mem address value, [])
  | .txLoadStore address increment =>
    (pgasDslWrite mem address (pgasDslRead mem address + increment), [])

def seqAccesses (mem : ByteMemory) : List PgasAccess → ByteMemory × List (BitVec 64)
  | [] => (mem, [])
  | access :: rest =>
    let r := seqAccess mem access
    let r' := seqAccesses r.1 rest
    (r'.1, r.2 ++ r'.2)

/-- Every request is granted, every load returns the sequential value, and the
commit leaves the sequential memory. -/
def Sequential {E : Type} [RwEntry E] (cfg : Config) (id : Nat) (s : PgasNode E) (tx : PgasTx) :
    Prop :=
  ∃ s' values, pgasTx cfg id s tx = .ok (s', values) ∧
    (s'.dsl.mem, values) = seqAccesses s.dsl.mem tx.plain

/-- The addresses written, in order. -/
def written (accesses : List PgasAccess) : List Nat :=
  accesses.filterMap fun access =>
    match access with
    | .txLoad _ => none
    | .txStore address _ | .txLoadStore address _ => some address

/-- The addresses loaded, in order. -/
def loadedFrom (accesses : List PgasAccess) : List Nat :=
  accesses.filterMap fun access =>
    match access with
    | .txLoad address => some address
    | .txStore _ _ | .txLoadStore _ _ => none

/-- The entries that the locks of the accesses make in the log: the byte array notes a reader
of an address once, the bitmap each time. -/
def logged (E : Type) [LawfulRwEntry E] (accesses : List PgasAccess) : Nat :=
  (written accesses).length +
    if exact E = true then (loadedFrom accesses).toFinset.card else (loadedFrom accesses).length

def NoLoadAfterWrite (accesses : List PgasAccess) : Prop :=
  ∀ before address after, accesses = before ++ .txLoad address :: after → address ∉ written before

/-- An increment that is the last write of its address finds the initial value. -/
def IncrementsInitial (mem : ByteMemory) (accesses : List PgasAccess) : Prop :=
  ∀ before address increment after,
    accesses = before ++ .txLoadStore address increment :: after → address ∉ written after →
    pgasDslRead (seqAccesses mem before).1 address = pgasDslRead mem address

/-- The condition for a sequential transaction.  Where `nodes_contacted` has
wrapped to 0 nothing is persisted. -/
def SequentialWhen (E : Type) [LawfulRwEntry E] (mem : ByteMemory)
    (accesses : List PgasAccess) : Prop :=
  logged E accesses ≤ 2 ^ 31 ∧ NoLoadAfterWrite accesses ∧
  if accesses.length % 2 ^ 16 = 0 then (seqAccesses mem accesses).1 = mem
  else IncrementsInitial mem accesses

/-- A transaction that commits and leaves the lock table as it found it.  With
the byte array and no contention manager a second write to an address would
leave a counter that refuses later writes. -/
structure LeavesTable (E : Type) [LawfulRwEntry E] (cfg : Config) (accesses : List PgasAccess) :
    Prop where
  room : logged E accesses ≤ 2 ^ 31
  loads : NoLoadAfterWrite accesses
  released : accesses.length % 2 ^ 16 = 0 → accesses = []
  counted : cfg.cm.isReal = false → exact E = true → (written accesses).Nodup

/-! ### The table of a single node -/

/-- The lock table while node `id` runs a transaction that loaded `R` and wrote `W`. -/
structure SoloTable {E : Type} [LawfulRwEntry E] (cfg : Config) (id : Nat) (R W : List Nat)
    (t : Ssht E) : Prop where
  placed : Placed true t
  covered : Covered t
  others : ∀ p sl m, t.slot? p = some sl → m ≠ id → isReader sl.entry m = false
  writer : ∀ p sl, t.slot? p = some sl →
    RwEntry.writer sl.entry = SSHT_NO_WRITER ∨ RwEntry.writer sl.entry = id
  free : ∀ p sl, t.slot? p = some sl → sl.addr = 0 → Empty sl.entry
  written : ∀ p sl, t.slot? p = some sl → RwEntry.writer sl.entry = id → sl.addr ∈ W
  present : ∀ a ∈ W, ∃ p sl, t.slot? p = some sl ∧ sl.addr = a ∧ RwEntry.writer sl.entry = id
  reads : ∀ p sl, t.slot? p = some sl → isReader sl.entry id = true → sl.addr ∈ R
  marked : ∀ a ∈ R, ∃ p sl, t.slot? p = some sl ∧ sl.addr = a ∧ isReader sl.entry id = true
  logLength : (t.logs id).length =
    W.length + if exact E = true then R.toFinset.card else R.length
  valid : cfg.cm.isReal = false → ∀ p sl, t.slot? p = some sl → Valid sl.entry
  counted : cfg.cm.isReal = false → exact E = true → W.Nodup →
    ∀ p, (t.logs id).count p ≤ t.lockCount p id

section Table

variable {E : Type} [LawfulRwEntry E] {cfg : Config} {id : Nat} {R W : List Nat} {t : Ssht E}

theorem soloTable_sshtNew (cfg : Config) (id : Nat) (hid : id < idBound E) :
    SoloTable cfg id [] [] (sshtNew : Ssht E) where
  placed := placed_sshtNew true
  covered := (accounted_sshtNew true).covered
  others p sl m h _ := slot?_sshtNew h ▸ isReader_new m
  writer p sl h := Or.inl (slot?_sshtNew h ▸ writer_new)
  free p sl h _ := slot?_sshtNew h ▸ ⟨writer_new, isReader_new⟩
  written p sl h hw := by
    rw [slot?_sshtNew h, writer_new] at hw
    exact absurd hw.symm (ne_noWriter hid)
  present a ha := by cases ha
  reads p sl h hread := by
    rw [slot?_sshtNew h, isReader_new] at hread
    cases hread
  marked a ha := by cases ha
  logLength := by
    rw [List.toFinset_nil, Finset.card_empty, List.length_nil, ite_self]
    rfl
  valid _ p sl h := slot?_sshtNew h ▸ valid_new
  counted _ _ _ p := Nat.zero_le _

theorem SoloTable.bucketAlloc (h : SoloTable cfg id R W t) (hid : id < idBound E) (bu : Nat) :
    SoloTable cfg id R W (bucketAlloc t bu).1 where
  placed := h.placed.bucketAlloc bu
  covered := h.covered.bucketAlloc bu
  others p sl m hp hm := by
    rcases slot_bucketAlloc hp with hold | rfl
    · exact h.others p sl m hold hm
    · exact isReader_new m
  writer p sl hp := by
    rcases slot_bucketAlloc hp with hold | rfl
    · exact h.writer p sl hold
    · exact Or.inl writer_new
  free p sl hp haddr := by
    rcases slot_bucketAlloc hp with hold | rfl
    · exact h.free p sl hold haddr
    · exact ⟨writer_new, isReader_new⟩
  written p sl hp hw := by
    rcases slot_bucketAlloc hp with hold | rfl
    · exact h.written p sl hold hw
    · rw [writer_new] at hw
      exact absurd hw.symm (ne_noWriter hid)
  present a ha := by
    obtain ⟨p, sl, hp, hrest⟩ := h.present a ha
    refine ⟨p, sl, ?_, hrest⟩
    rcases (bucketAlloc_spec t bu).2.2.2 p with hsame | ⟨hnone, -⟩
    · rw [hsame, hp]
    · rw [hp] at hnone
      cases hnone
  reads p sl hp hread := by
    rcases slot_bucketAlloc hp with hold | rfl
    · exact h.reads p sl hold hread
    · rw [isReader_new] at hread
      cases hread
  marked a ha := by
    obtain ⟨p, sl, hp, hrest⟩ := h.marked a ha
    refine ⟨p, sl, ?_, hrest⟩
    rcases (bucketAlloc_spec t bu).2.2.2 p with hsame | ⟨hnone, -⟩
    · rw [hsame, hp]
    · rw [hp] at hnone
      cases hnone
  logLength := by
    rw [(bucketAlloc_spec t bu).1]
    exact h.logLength
  valid hweak p sl hp := by
    rcases slot_bucketAlloc hp with hold | rfl
    · exact h.valid hweak p sl hold
    · exact valid_new
  counted hweak hexact hnodup p := by
    rw [(bucketAlloc_spec t bu).1, lockCount_bucketAlloc t bu p hid]
    exact h.counted hweak hexact hnodup p

/-- An address that was not written has no writer. -/
theorem SoloTable.writer_ne (h : SoloTable cfg id R W t) (hid : id < idBound E) {p : SlotPtr}
    {sl : Slot E} {addr : Nat} (hfor : SlotFor true t p sl addr) (haddr : addr ∉ W) :
    RwEntry.writer sl.entry ≠ id := by
  intro hw
  have hmem := h.written p sl hfor.slot hw
  rcases hfor.addr_eq with hzero | heq
  · rw [(h.free p sl hfor.slot hzero).1] at hw
    exact ne_noWriter hid hw.symm
  · exact haddr (heq ▸ hmem)

/-- An address is read where its slot says so. -/
theorem SoloTable.reader_iff (h : SoloTable cfg id R W t) {p : SlotPtr} {sl : Slot E}
    {addr : Nat} (hfor : SlotFor true t p sl addr) : isReader sl.entry id = true ↔ addr ∈ R := by
  constructor
  · intro hread
    have hmem := h.reads p sl hfor.slot hread
    rcases hfor.addr_eq with hzero | heq
    · rw [(h.free p sl hfor.slot hzero).2 id] at hread
      cases hread
    · exact heq ▸ hmem
  · intro haddr
    obtain ⟨q, sl', hq, hqa, hread⟩ := h.marked addr haddr
    obtain rfl := hfor.only q sl' hq hqa
    obtain rfl := Option.some.inj (hfor.slot.symm.trans hq)
    exact hread

/-- The readers of a slot are kept when a lock is entered in it, with its address. -/
theorem SoloTable.marked_enter (h : SoloTable cfg id R W t) {p : SlotPtr} {sl new : Slot E}
    {addr : Nat} (hfor : SlotFor true t p sl addr) {t' : Ssht E}
    (hat : t'.slot? p = some new) (hother : ∀ q, q ≠ p → t'.slot? q = t.slot? q)
    (haddr : new.addr = addr)
    (hkept : isReader sl.entry id = true → isReader new.entry id = true) :
    ∀ a ∈ R, ∃ q sl', t'.slot? q = some sl' ∧ sl'.addr = a ∧ isReader sl'.entry id = true := by
  intro a ha
  obtain ⟨q, sl', hq, hqa, hread⟩ := h.marked a ha
  by_cases hqp : q = p
  · subst hqp
    obtain rfl := Option.some.inj (hfor.slot.symm.trans hq)
    refine ⟨q, new, hat, ?_, hkept hread⟩
    rcases hfor.addr_eq with hzero | heq
    · rw [(h.free q sl hfor.slot hzero).2 id] at hread
      cases hread
    · exact haddr.trans (heq.symm.trans hqa)
  · exact ⟨q, sl', (hother q hqp).trans hq, hqa, hread⟩

/-- The byte array does not note a reader twice. -/
theorem SoloTable.readAgain (h : SoloTable cfg id R W t) (hexact : exact E = true) {addr : Nat}
    (haddr : addr ∈ R) : SoloTable cfg id (R ++ [addr]) W t := by
  have hmem : ∀ a, a ∈ R ++ [addr] ↔ a ∈ R := by
    intro a
    rw [List.mem_append, List.mem_singleton]
    exact ⟨fun ha => ha.elim (fun hold => hold) (fun heq => heq ▸ haddr), Or.inl⟩
  refine { h with reads := ?_, marked := ?_, logLength := ?_ }
  · exact fun p sl hp hread => (hmem _).mpr (h.reads p sl hp hread)
  · exact fun a ha => h.marked a ((hmem a).mp ha)
  · have hset : (R ++ [addr]).toFinset = R.toFinset := by
      ext a
      rw [List.mem_toFinset, List.mem_toFinset, hmem]
    rw [h.logLength, if_pos hexact, if_pos hexact, hset]

/-- A read lock on the slot of an address. -/
theorem SoloTable.markReader (h : SoloTable cfg id R W t) (hid : id < idBound E) {p : SlotPtr}
    {sl : Slot E} {addr : Nat} (hfor : SlotFor true t p sl addr)
    (hfree : exact E = true → isReader sl.entry id = false) (haddr : addr ∉ W) :
    SoloTable cfg id (R ++ [addr]) W (markReader t p id addr) := by
  have hlocks : ∀ m, entryLocks (addReader sl.entry id) m =
      if m = id then 1 + (decide (RwEntry.writer sl.entry = id)).toNat
      else entryLocks sl.entry m := fun m => entryLocks_addReader hid
  have hcases : ∀ q sl', (TM2C.markReader t p id addr).slot? q = some sl' →
      (q = p ∧ sl' = ⟨addr, addReader sl.entry id⟩) ∨ (q ≠ p ∧ t.slot? q = some sl') :=
    fun q sl' => hfor.enter_cases (fun sl => ⟨addr, addReader sl.entry id⟩) id
  have hat : (TM2C.markReader t p id addr).slot? p = some ⟨addr, addReader sl.entry id⟩ :=
    Ssht.slot?_modifySlot_self hfor.slot _
  have hset : isReader (addReader sl.entry id) id = true := by
    rw [isReader_addReader hid, decide_eq_true rfl, Bool.true_or]
  have hnot := h.writer_ne hid hfor haddr
  constructor
  case placed => exact h.placed.enter hfor rfl id
  case covered =>
    refine h.covered.enter hfor.slot ?_ ?_
    · rw [hlocks, if_pos rfl]
      unfold entryLocks
      omega
    · intro m _ hm
      rw [hlocks, if_neg hm]
  case others =>
    intro q sl' m hq hm
    rcases hcases q sl' hq with ⟨-, rfl⟩ | ⟨-, hold⟩
    · simp [isReader_addReader hid, hm, h.others p sl m hfor.slot hm]
    · exact h.others q sl' m hold hm
  case writer =>
    intro q sl' hq
    rcases hcases q sl' hq with ⟨-, rfl⟩ | ⟨-, hold⟩
    · rw [writer_addReader]
      exact h.writer p sl hfor.slot
    · exact h.writer q sl' hold
  case free =>
    intro q sl' hq hzero
    rcases hcases q sl' hq with ⟨-, rfl⟩ | ⟨-, hold⟩
    · exact absurd hzero hfor.addr_ne
    · exact h.free q sl' hold hzero
  case written =>
    intro q sl' hq hw
    rcases hcases q sl' hq with ⟨-, rfl⟩ | ⟨-, hold⟩
    · rw [writer_addReader] at hw
      exact absurd hw hnot
    · exact h.written q sl' hold hw
  case present =>
    intro a ha
    obtain ⟨q, sl', hq, hqa, hw⟩ := h.present a ha
    -- the slot of a written address is another one
    have hqp : q ≠ p := by
      rintro rfl
      rw [hfor.slot, Option.some.injEq] at hq
      subst hq
      exact hnot hw
    exact ⟨q, sl', (Ssht.slot?_modifySlot_of_ne hqp _).trans hq, hqa, hw⟩
  case reads =>
    intro q sl' hq hread
    rcases hcases q sl' hq with ⟨-, rfl⟩ | ⟨-, hold⟩
    · simp
    · exact List.mem_append_left _ (h.reads q sl' hold hread)
  case marked =>
    intro a ha
    rcases List.mem_append.mp ha with ha | ha
    · exact h.marked_enter hfor hat (fun q hq => Ssht.slot?_modifySlot_of_ne hq _) rfl
        (fun _ => hset) a ha
    · rw [List.mem_singleton] at ha
      exact ⟨p, _, hat, ha.symm, hset⟩
  case logLength =>
    have hlogs : (TM2C.markReader t p id addr).logs id = t.logs id ++ [p] := by
      rw [TM2C.markReader, logs_sshtLogSetInsert, if_pos rfl, Ssht.logs_modifySlot]
    rw [hlogs, List.length_append, List.length_singleton, h.logLength, List.length_append,
      List.length_singleton]
    by_cases hexact : exact E = true
    · -- the bytes have one entry for each address read, the bits one for each read
      have hnew : addr ∉ R := by
        rw [← h.reader_iff hfor, hfree hexact]
        exact Bool.false_ne_true
      rw [if_pos hexact, if_pos hexact, List.toFinset_append, List.toFinset_cons,
        List.toFinset_nil, insert_empty_eq, Finset.union_comm, Finset.singleton_union,
        Finset.card_insert_of_notMem (by rwa [List.mem_toFinset])]
      omega
    · rw [if_neg hexact, if_neg hexact]
      omega
  case valid =>
    intro hweak q sl' hq
    rcases hcases q sl' hq with ⟨-, rfl⟩ | ⟨-, hold⟩
    · exact valid_addReader (h.valid hweak p sl hfor.slot) hid hfree
    · exact h.valid hweak q sl' hold
  case counted =>
    intro hweak hexact hnodup q
    refine counted_enter hfor.slot (h.counted hweak hexact hnodup q) ?_ fun hc => absurd rfl hc
    rw [hlocks, if_pos rfl]
    unfold entryLocks
    rw [hfree hexact, Bool.toNat_false]
    omega

/-- A write lock on the slot of an address. -/
theorem SoloTable.markWriter (h : SoloTable cfg id R W t) (hid : id < idBound E) {p : SlotPtr}
    {sl : Slot E} {addr : Nat} (hfor : SlotFor true t p sl addr) :
    SoloTable cfg id R (W ++ [addr]) (markWriter t p id addr) := by
  have hlocks : ∀ m, entryLocks (setWriter sl.entry id) m =
      (isReader sl.entry m).toNat + (decide (id = m)).toNat := fun m => entryLocks_setWriter hid
  have hcases : ∀ q sl', (TM2C.markWriter t p id addr).slot? q = some sl' →
      (q = p ∧ sl' = ⟨addr, setWriter sl.entry id⟩) ∨ (q ≠ p ∧ t.slot? q = some sl') :=
    fun q sl' => hfor.enter_cases (fun sl => ⟨addr, setWriter sl.entry id⟩) id
  have hat : (TM2C.markWriter t p id addr).slot? p = some ⟨addr, setWriter sl.entry id⟩ :=
    Ssht.slot?_modifySlot_self hfor.slot _
  constructor
  case placed => exact h.placed.enter hfor rfl id
  case covered =>
    refine h.covered.enter hfor.slot ?_ ?_
    · rw [hlocks]
      unfold entryLocks
      simp
    · intro m _ hm
      have hm' : id ≠ m := fun h => hm h.symm
      rw [hlocks]
      simp [entryLocks, hm']
  case others =>
    intro q sl' m hq hm
    rcases hcases q sl' hq with ⟨-, rfl⟩ | ⟨-, hold⟩
    · rw [isReader_setWriter]
      exact h.others p sl m hfor.slot hm
    · exact h.others q sl' m hold hm
  case writer =>
    intro q sl' hq
    rcases hcases q sl' hq with ⟨-, rfl⟩ | ⟨-, hold⟩
    · exact Or.inr (writer_setWriter_of_lt hid)
    · exact h.writer q sl' hold
  case free =>
    intro q sl' hq hzero
    rcases hcases q sl' hq with ⟨-, rfl⟩ | ⟨-, hold⟩
    · exact absurd hzero hfor.addr_ne
    · exact h.free q sl' hold hzero
  case written =>
    intro q sl' hq hw
    rcases hcases q sl' hq with ⟨-, rfl⟩ | ⟨-, hold⟩
    · simp
    · exact List.mem_append_left _ (h.written q sl' hold hw)
  case present =>
    intro a ha
    rcases List.mem_append.mp ha with ha | ha
    · obtain ⟨q, sl', hq, hqa, hw⟩ := h.present a ha
      by_cases hqp : q = p
      · subst hqp
        rw [hfor.slot, Option.some.injEq] at hq
        subst hq
        -- a slot with a writer is not free, so it has the address already
        have heq : sl.addr = addr := by
          rcases hfor.addr_eq with hzero | heq
          · rw [(h.free q sl hfor.slot hzero).1] at hw
            exact absurd hw.symm (ne_noWriter hid)
          · exact heq
        exact ⟨q, _, hat, heq.symm.trans hqa, writer_setWriter_of_lt hid⟩
      · exact ⟨q, sl', (Ssht.slot?_modifySlot_of_ne hqp _).trans hq, hqa, hw⟩
    · rw [List.mem_singleton] at ha
      exact ⟨p, _, hat, ha.symm, writer_setWriter_of_lt hid⟩
  case reads =>
    intro q sl' hq hread
    rcases hcases q sl' hq with ⟨-, rfl⟩ | ⟨-, hold⟩
    · rw [isReader_setWriter] at hread
      exact (h.reader_iff hfor).mp hread
    · exact h.reads q sl' hold hread
  case marked =>
    refine h.marked_enter hfor hat (fun q hq => Ssht.slot?_modifySlot_of_ne hq _) rfl ?_
    intro hread
    rw [isReader_setWriter]
    exact hread
  case logLength =>
    have hlogs : (TM2C.markWriter t p id addr).logs id = t.logs id ++ [p] := by
      rw [TM2C.markWriter, logs_sshtLogSetInsert, if_pos rfl, Ssht.logs_modifySlot]
    rw [hlogs, List.length_append, List.length_singleton, h.logLength, List.length_append,
      List.length_singleton]
    omega
  case valid =>
    intro hweak q sl' hq
    rcases hcases q sl' hq with ⟨-, rfl⟩ | ⟨-, hold⟩
    · exact valid_setWriter (h.valid hweak p sl hfor.slot)
    · exact h.valid hweak q sl' hold
  case counted =>
    intro hweak hexact hnodup q
    obtain ⟨hnodup', -, hdisj⟩ := List.nodup_append.mp hnodup
    have haddr : addr ∉ W := fun ha => hdisj addr ha addr (by simp) rfl
    have hnot := h.writer_ne hid hfor haddr
    refine counted_enter hfor.slot (h.counted hweak hexact hnodup' q) ?_ fun hc => absurd rfl hc
    rw [hlocks]
    unfold entryLocks
    simp only [hnot, decide_false, Bool.toNat_false, decide_true, Bool.toNat_true]
    omega

/-- The release takes everything back. -/
theorem SoloTable.deleteNode (h : SoloTable cfg id R W t) (hid : id < idBound E)
    (hnodup : cfg.cm.isReal = false → exact E = true → W.Nodup) :
    SoloTable cfg id [] [] (tm2cHtDeleteNode t id) := by
  have habsent := h.covered.absent_deleteNode hid
  have hempty : ∀ p sl, (tm2cHtDeleteNode t id).slot? p = some sl → Empty sl.entry := by
    intro p sl' hp
    have hzero := habsent.locks p
    rw [Ssht.lockCount_of_slot hp] at hzero
    obtain ⟨hread, hwrite⟩ := entryLocks_eq_zero_iff.mp hzero
    obtain ⟨sl, hold, hstripped⟩ := stripped_deleteNode hid hp
    constructor
    · rcases hstripped.writer with hw | ⟨-, hw⟩
      · rcases h.writer p sl hold with hno | hself
        · rw [hw, hno]
        · exact absurd (hw.trans hself) hwrite
      · exact hw
    · intro m
      by_cases hm : m = id
      · rw [hm]
        exact hread
      · rw [hstripped.reader m hm]
        exact h.others p sl m hold hm
  refine ⟨h.placed.deleteNode hid, h.covered.deleteNode hid, ?_, ?_, ?_, ?_, ?_, ?_, ?_, ?_,
    ?_, ?_⟩
  · intro p sl m hp _
    exact (hempty p sl hp).2 m
  · intro p sl hp
    exact Or.inl (hempty p sl hp).1
  · intro p sl hp _
    exact hempty p sl hp
  · intro p sl hp hw
    rw [(hempty p sl hp).1] at hw
    exact absurd hw.symm (ne_noWriter hid)
  · intro a ha
    cases ha
  · intro p sl hp hread
    rw [(hempty p sl hp).2 id] at hread
    cases hread
  · intro a ha
    cases ha
  · simp only [logs_deleteNode_self, List.toFinset_nil, Finset.card_empty, List.length_nil,
      ite_self]
  · intro hweak p sl' hp
    rw [slot?_deleteNode] at hp
    obtain ⟨sl, hold, rfl⟩ := Option.map_eq_some_iff.mp hp
    refine (removed_iterate hid (h.valid hweak p sl hold) _ ?_).valid
    intro hexact
    have := h.counted hweak hexact (hnodup hweak hexact) p
    rwa [Ssht.lockCount_of_slot hold] at this
  · intro _ _ _ p
    rw [logs_deleteNode_self]
    exact Nat.zero_le _

end Table

/-! ### Requests of a single node -/

section Requests

variable {E : Type} [LawfulRwEntry E] {cfg : Config} {id : Nat} {R W : List Nat}

theorem bucketInsertR_solo (hid : id < idBound E) {s : Dsl E} (h : SoloTable cfg id R W s.ht)
    {addr : Nat} (haddr : addr ≠ 0) (hW : addr ∉ W) :
    ∃ t, bucketInsertR cfg s (bucketOf true addr) id addr = (.noConflict, { s with ht := t }) ∧
      SoloTable cfg id (R ++ [addr]) W t := by
  unfold bucketInsertR
  cases hfind : bucketFind (s.ht.bucket (bucketOf true addr)) addr with
  | none =>
    obtain ⟨sl, hzero, hfor⟩ := h.placed.slotFor_alloc haddr hfind
    have h' := h.bucketAlloc hid (bucketOf true addr)
    exact ⟨_, rfl, h'.markReader hid hfor (fun _ => (h'.free _ sl hfor.slot hzero).2 id) hW⟩
  | some r =>
    obtain ⟨i, sl⟩ := r
    have hfor := h.placed.slotFor_found haddr hfind
    have heq : sl.addr = addr := (bucketFind_eq_some hfind).2
    have hno : RwEntry.writer sl.entry = SSHT_NO_WRITER := by
      rcases h.writer _ sl hfor.slot with hno | hself
      · exact hno
      · exact absurd (heq ▸ h.written _ sl hfor.slot hself) hW
    refine ⟨markReaderFound s.ht (bucketOf true addr, i) id addr, ?_, ?_⟩
    · simp only [hno, ne_eq, not_true_eq_false, if_false]
    · rcases markReaderFound_cases (n := id) hfor.slot hfor.addr_eq
        (fun hzero => absurd (heq.symm.trans hzero) haddr) with
        ⟨hsame, -, hexact, hread⟩ | ⟨hmark, hfree⟩
      · rw [hsame]
        exact h.readAgain hexact ((h.reader_iff hfor).mp hread)
      · rw [hmark]
        exact h.markReader hid hfor hfree hW

/-- A load of an address that the transaction wrote meets its own write lock. -/
theorem bucketInsertR_solo_refused (hid : id < idBound E) {s : Dsl E}
    (h : SoloTable cfg id R W s.ht) {addr : Nat} (haddr : addr ≠ 0) (hW : addr ∈ W) :
    (bucketInsertR cfg s (bucketOf true addr) id addr).1 = .readAfterWrite := by
  obtain ⟨p, sl, hp, heq, hw⟩ := h.present addr hW
  unfold bucketInsertR
  cases hfind : bucketFind (s.ht.bucket (bucketOf true addr)) addr with
  | none => exact absurd heq (h.placed.not_found haddr hfind hp)
  | some r =>
    obtain ⟨i, sl'⟩ := r
    have hfor := h.placed.slotFor_found haddr hfind
    have hpeq : p = (bucketOf true addr, i) := hfor.only p sl hp heq
    have hsl : sl' = sl := by
      have hslot := hfor.slot
      rw [← hpeq, hp, Option.some.injEq] at hslot
      exact hslot.symm
    subst hsl
    have hne : id ≠ SSHT_NO_WRITER := ne_noWriter hid
    simp only [hw]
    rw [contentionManagerRawWaw_eq, if_neg (precedes_irrefl s.timestamp id)]
    by_cases hreal : cfg.cm.isReal = true
    · simp [hne, hreal]
    · simp [hne, hreal]

theorem bucketInsertW_solo (hid : id < idBound E) {s : Dsl E} (h : SoloTable cfg id R W s.ht)
    {addr : Nat} (haddr : addr ≠ 0) :
    ∃ t, bucketInsertW cfg s (bucketOf true addr) id addr = (.noConflict, { s with ht := t }) ∧
      SoloTable cfg id R (W ++ [addr]) t := by
  unfold bucketInsertW
  cases hfind : bucketFind (s.ht.bucket (bucketOf true addr)) addr with
  | none =>
    obtain ⟨sl, -, hfor⟩ := h.placed.slotFor_alloc haddr hfind
    exact ⟨_, rfl, (h.bucketAlloc hid (bucketOf true addr)).markWriter hid hfor⟩
  | some r =>
    obtain ⟨i, sl⟩ := r
    have hfor := h.placed.slotFor_found haddr hfind
    refine ⟨markWriter s.ht (bucketOf true addr, i) id addr, ?_, h.markWriter hid hfor⟩
    have hown : ¬ (RwEntry.writer sl.entry ≠ SSHT_NO_WRITER ∧ RwEntry.writer sl.entry ≠ id) := by
      rintro ⟨hno, hself⟩
      rcases h.writer _ sl hfor.slot with hw | hw
      · exact hno hw
      · exact hself hw
    have hnobody : ((List.range cfg.numUes).filter
        fun n => isReader sl.entry n && decide (n ≠ id)) = [] := by
      rw [List.filter_eq_nil_iff]
      intro n _
      by_cases hn : n = id
      · simp [hn]
      · simp [h.others _ sl n hfor.slot hn]
    simp only [if_neg hown]
    by_cases hothers : hasOtherReaders sl.entry id = true
    · by_cases hreal : cfg.cm.isReal = true
      · -- whatever the counter says, there is no defender
        rw [contentionManagerWar_eq, hnobody]
        simp [hothers, hreal]
      · have hweak : cfg.cm.isReal = false := by simpa using hreal
        rcases (hasOtherReaders_iff (h.valid hweak _ sl hfor.slot) hid).mp hothers with
          ⟨m, hm, hread⟩
        rw [h.others _ sl m hfor.slot hm] at hread
        cases hread
    · simp [hothers]

end Requests

/-! ### A transaction of a single node -/

/-- What the accesses leave in the write set of the service node. -/
def buffered (mem : ByteMemory) (accesses : List PgasAccess) : List WriteEntryPgas :=
  accesses.filterMap fun access =>
    match access with
    | .txLoad _ => none
    | .txStore address value => some ⟨address, value⟩
    | .txLoadStore address increment => some ⟨address, pgasDslRead mem address + increment⟩

/-- What the loads return. -/
def loaded (mem : ByteMemory) (accesses : List PgasAccess) : List (BitVec 64) :=
  accesses.filterMap fun access =>
    match access with
    | .txLoad address => some (pgasDslRead mem address)
    | .txStore _ _ | .txLoadStore _ _ => none

theorem written_cons (access : PgasAccess) (accesses : List PgasAccess) :
    written (access :: accesses) = written [access] ++ written accesses :=
  List.filterMap_append (l := [access])

theorem buffered_cons (mem : ByteMemory) (access : PgasAccess) (accesses : List PgasAccess) :
    buffered mem (access :: accesses) = buffered mem [access] ++ buffered mem accesses :=
  List.filterMap_append (l := [access])

theorem written_append (accesses accesses' : List PgasAccess) :
    written (accesses ++ accesses') = written accesses ++ written accesses' :=
  List.filterMap_append

theorem loadedFrom_append (accesses accesses' : List PgasAccess) :
    loadedFrom (accesses ++ accesses') = loadedFrom accesses ++ loadedFrom accesses' :=
  List.filterMap_append

theorem buffered_append (mem : ByteMemory) (accesses accesses' : List PgasAccess) :
    buffered mem (accesses ++ accesses') = buffered mem accesses ++ buffered mem accesses' :=
  List.filterMap_append

theorem loaded_cons {mem : ByteMemory} (access : PgasAccess) (accesses : List PgasAccess) :
    loaded mem (access :: accesses) = loaded mem [access] ++ loaded mem accesses :=
  List.filterMap_append (l := [access])

/-- `write_set_pgas_persist` -/
def persisted (mem : ByteMemory) (log : List WriteEntryPgas) : ByteMemory :=
  log.foldl (fun mem we => pgasDslWrite mem we.address we.value) mem

theorem length_buffered (mem : ByteMemory) (accesses : List PgasAccess) :
    (buffered mem accesses).length = (written accesses).length := by
  induction accesses with
  | nil => rfl
  | cons access rest ih =>
    cases access with
    | txLoad address => exact ih
    | txStore address value => exact congrArg (· + 1) ih
    | txLoadStore address increment => exact congrArg (· + 1) ih

theorem length_written_le_logged (E : Type) [LawfulRwEntry E] (accesses : List PgasAccess) :
    (written accesses).length ≤ logged E accesses := Nat.le_add_right ..

/-- The log only grows. -/
theorem logged_le_append (E : Type) [LawfulRwEntry E] (accesses accesses' : List PgasAccess) :
    logged E accesses ≤ logged E (accesses ++ accesses') := by
  unfold logged
  rw [written_append, loadedFrom_append, List.length_append, List.length_append]
  have hset : (loadedFrom accesses).toFinset.card ≤
      (loadedFrom accesses ++ loadedFrom accesses').toFinset.card := by
    refine Finset.card_le_card fun address haddress => ?_
    rw [List.mem_toFinset] at haddress ⊢
    exact List.mem_append_left _ haddress
  split
  · omega
  · omega

/-- The service node after the accesses `done` of the transaction of node `id`. -/
structure SoloDsl {E : Type} [LawfulRwEntry E] (cfg : Config) (id : Nat) (mem : ByteMemory)
    (done : List PgasAccess) (s : Dsl E) : Prop where
  table : SoloTable cfg id (loadedFrom done) (written done) s.ht
  buffer : (s.writeSets id).writeEntries = buffered mem done
  mem : s.mem = mem
  flag : cfg.cm.isReal = true → s.abortFlags id = .noConflict

structure SoloState {E : Type} [LawfulRwEntry E] (cfg : Config) (id : Nat) (mem : ByteMemory)
    (done : List PgasAccess) (s : PgasNode E) : Prop extends SoloDsl cfg id mem done s.dsl where
  room : Room (s.dsl.writeSets id).writeEntries.length (s.dsl.writeSets id).size
  contacted : s.nodesContacted = done.length % 2 ^ 16

section Transactions

variable {E : Type} [LawfulRwEntry E] {cfg : Config} {id : Nat} {mem : ByteMemory}
  {done : List PgasAccess} {access : PgasAccess}

theorem txChkAborted_ok {flag : Conflict} (h : cfg.cm.isReal = true → flag = .noConflict) :
    txChkAborted cfg flag = .ok () := by
  unfold txChkAborted
  rw [if_neg (fun hc => hc.2 (h hc.1))]

/-- What a granted access does to the write set of its sender. -/
def BuffersAtMostOne (id : Nat) (before after : Dsl E) : Prop :=
  after.writeSets id = before.writeSets id ∨
  ∃ value address,
    after.writeSets id = writeSetPgasAppend (before.writeSets id) value address

/-- A buffered write is one entry of the log, so there is room for it where the log has. -/
theorem SoloState.room_served {s : PgasNode E} {dsl : Dsl E} (h : SoloState cfg id mem done s)
    (hdsl : SoloDsl cfg id mem (done ++ [access]) dsl) (hone : BuffersAtMostOne id s.dsl dsl)
    (hlogged : logged E (done ++ [access]) ≤ 2 ^ 31) :
    Room (dsl.writeSets id).writeEntries.length (dsl.writeSets id).size := by
  rcases hone with hsame | ⟨value, address, happend⟩
  · rw [hsame]
    exact h.room
  · have hlength : (dsl.writeSets id).writeEntries.length =
        (s.dsl.writeSets id).writeEntries.length + 1 := by
      rw [happend, writeSetPgasAppend, List.length_append, List.length_singleton]
    have hwritten := length_written_le_logged E (done ++ [access])
    rw [hdsl.buffer, length_buffered] at hlength
    rw [happend]
    exact (h.room.writeSetPgasInsert (by omega) value address).2

/-- The service node survives an access exactly when the log has room for its entries. -/
theorem SoloState.survives_iff {s : PgasNode E} {dsl : Dsl E} (h : SoloState cfg id mem done s)
    (hdsl : SoloDsl cfg id mem (done ++ [access]) dsl) :
    Survives s.dsl dsl id ↔ logged E (done ++ [access]) ≤ 2 ^ 31 := by
  have hlog : (dsl.ht.logs id).length = logged E (done ++ [access]) := hdsl.table.logLength
  constructor
  · rintro ⟨hle, -⟩
    rwa [hlog] at hle
  · intro hle
    refine ⟨hlog ▸ hle, ?_⟩
    intro hgrows
    rw [h.room.writeSetEntry_isSome_iff]
    have hwritten := length_written_le_logged E (done ++ [access])
    rw [hdsl.buffer, length_buffered] at hgrows
    omega

/-- A granted request and what its caller returns, or the death of the service node at it. -/
theorem pgasRequest_granted {s : PgasNode E} (h : SoloState cfg id mem done s) (c : Clocks)
    {type : ReqType} {address : Nat} {value : BitVec 64} {dsl : Dsl E} {reply : Reply}
    (hserve : dslService cfg c.now s.dsl id ⟨type, address, value, c.txMetadata⟩ =
      (dsl, some reply)) (hok : reply.response = .noConflict)
    (hdsl : SoloDsl cfg id mem (done ++ [access]) dsl) (hone : BuffersAtMostOne id s.dsl dsl)
    (f : BitVec 64 → List (BitVec 64)) :
    if logged E (done ++ [access]) ≤ 2 ^ 31 then
      ∃ s', (pgasRequest cfg id s c type address value >>= fun r => pure (r.1, f r.2)) =
          .ok (s', f reply.value) ∧
        SoloState cfg id mem (done ++ [access]) s'
    else ∃ e, (pgasRequest cfg id s c type address value >>= fun r => pure (r.1, f r.2)) =
      .error e := by
  by_cases hlogged : logged E (done ++ [access]) ≤ 2 ^ 31
  · have hlive := (h.survives_iff hdsl).mpr hlogged
    have hrequest : pgasRequest cfg id s c type address value =
        .ok (⟨dsl, (s.nodesContacted + 1) % 2 ^ 16⟩, reply.value) := by
      have hgranted : rpcRequest reply.response = .ok () := by
        rw [hok]
        rfl
      unfold pgasRequest
      rw [txChkAborted_ok h.flag]
      simp only [hserve, if_pos hlive, orDie]
      change (rpcRequest reply.response >>= _) = _
      rw [hgranted]
      rfl
    rw [if_pos hlogged, hrequest]
    refine ⟨⟨dsl, (s.nodesContacted + 1) % 2 ^ 16⟩, rfl, hdsl, h.room_served hdsl hone hlogged, ?_⟩
    have hk := h.contacted
    rw [List.length_append, List.length_singleton]
    simp only
    omega
  · have hdead : ¬ Survives s.dsl dsl id := mt (h.survives_iff hdsl).mp hlogged
    have hrequest : pgasRequest cfg id s c type address value = .error .died := by
      unfold pgasRequest
      rw [txChkAborted_ok h.flag]
      simp only [hserve, if_neg hdead]
      rfl
    rw [if_neg hlogged, hrequest]
    exact ⟨.died, rfl⟩

/-- A refused request aborts whatever becomes of the service node. -/
theorem pgasRequest_refused {s : PgasNode E} (h : SoloState cfg id mem done s) (c : Clocks)
    {type : ReqType} {address : Nat} {value : BitVec 64} {dsl : Dsl E} {reply : Reply}
    (hserve : dslService cfg c.now s.dsl id ⟨type, address, value, c.txMetadata⟩ =
      (dsl, some reply)) (hno : reply.response ≠ .noConflict) :
    ∃ e, pgasRequest cfg id s c type address value = .error e := by
  have hrefused : rpcRequest reply.response = .error (.aborted reply.response) := if_pos hno
  unfold pgasRequest
  rw [txChkAborted_ok h.flag]
  simp only [hserve]
  by_cases hlive : Survives s.dsl dsl id
  · rw [if_pos hlive]
    refine ⟨.aborted reply.response, ?_⟩
    change (rpcRequest reply.response >>= _) = _
    rw [hrefused]
    rfl
  · rw [if_neg hlive]
    exact ⟨.died, rfl⟩

theorem serve_load (hpgas : cfg.pgas = true) (hid : id < idBound E) {s : Dsl E}
    (h : SoloDsl cfg id mem done s) (c : Clocks) {address : Nat} (haddr : address ≠ 0)
    (hnew : address ∉ written done) :
    ∃ dsl, dslService cfg c.now s id ⟨.load, address, 2, c.txMetadata⟩ =
        (dsl, some ⟨.loadResponse, address, pgasDslRead mem address, .noConflict⟩) ∧
      SoloDsl cfg id mem (done ++ [.txLoad address]) dsl ∧ BuffersAtMostOne id s dsl := by
  let s₁ : Dsl E :=
    { s with timestamp := updateTimestamp cfg c.now id c.txMetadata s.timestamp }
  obtain ⟨t, hinsert, ht⟩ := bucketInsertR_solo hid (s := s₁) h.table haddr hnew
  refine ⟨{ s₁ with ht := t }, ?_, ⟨?_, ?_, h.mem, h.flag⟩, Or.inl rfl⟩
  · have hread : readWords s.mem 2 address = pgasDslRead mem address := by
      rw [h.mem]
      rfl
    have htry : tryLoad cfg s₁ id address = (.noConflict, { s₁ with ht := t }) := by
      simp only [tryLoad, tm2cHtInsert, hpgas]
      exact hinsert
    have hdef : dslService cfg c.now s id ⟨.load, address, 2, c.txMetadata⟩ =
        handleLoad cfg s₁ id ⟨.load, address, 2, c.txMetadata⟩ := rfl
    rw [hdef, handleLoad, htry]
    simp only [hpgas, if_true, ne_eq, not_true_eq_false, if_false]
    exact congrArg (fun v => (_, some (Reply.mk .loadResponse address v .noConflict))) hread
  · rw [loadedFrom_append, written_append]
    simpa [loadedFrom, written] using ht
  · rw [buffered_append]
    simpa [buffered] using h.buffer

theorem serve_load_refused (hpgas : cfg.pgas = true) (hid : id < idBound E) {s : Dsl E}
    (h : SoloDsl cfg id mem done s) (c : Clocks) {address : Nat} (haddr : address ≠ 0)
    (hold : address ∈ written done) :
    ∃ dsl reply, dslService cfg c.now s id ⟨.load, address, 2, c.txMetadata⟩ =
      (dsl, some reply) ∧ reply.response ≠ .noConflict := by
  let s₁ : Dsl E :=
    { s with timestamp := updateTimestamp cfg c.now id c.txMetadata s.timestamp }
  have hinsert := bucketInsertR_solo_refused hid (s := s₁) h.table haddr hold
  have htry : (tryLoad cfg s₁ id address).1 = .readAfterWrite := by
    simp only [tryLoad, tm2cHtInsert, hpgas]
    exact hinsert
  have hdef : dslService cfg c.now s id ⟨.load, address, 2, c.txMetadata⟩ =
      handleLoad cfg s₁ id ⟨.load, address, 2, c.txMetadata⟩ := rfl
  refine ⟨_, _, hdef, ?_⟩
  change (tryLoad cfg s₁ id address).1 ≠ .noConflict
  rw [htry]
  exact fun hc => by cases hc

/-- The lock of a write is granted, and whatever value is buffered then extends the log. -/
theorem SoloDsl.tryStore (hpgas : cfg.pgas = true) (hid : id < idBound E) {s : Dsl E}
    (h : SoloDsl cfg id mem done s) (access : PgasAccess) (timestamp : Nat → Nat) {address : Nat}
    (haddr : address ≠ 0) (hwrites : written [access] = [address])
    (hloads : loadedFrom [access] = []) :
    ∃ t, TM2C.tryStore cfg { s with timestamp := timestamp } id address =
        (.noConflict, { s with timestamp := timestamp, ht := t }) ∧
      ∀ value, buffered mem [access] = [⟨address, value⟩] →
        SoloDsl cfg id mem (done ++ [access])
          (bufferWrite { s with timestamp := timestamp, ht := t } id value address) ∧
        BuffersAtMostOne id s
          (bufferWrite { s with timestamp := timestamp, ht := t } id value address) := by
  let s₁ : Dsl E := { s with timestamp := timestamp }
  obtain ⟨t, hinsert, ht⟩ := bucketInsertW_solo hid (s := s₁) h.table haddr
  refine ⟨t, ?_, ?_⟩
  · simp only [TM2C.tryStore, tm2cHtInsert, hpgas]
    exact hinsert
  · intro value hvalue
    refine ⟨⟨?_, ?_, h.mem, h.flag⟩, Or.inr ⟨value, address, ?_⟩⟩
    · rw [loadedFrom_append, written_append, hwrites, hloads, List.append_nil]
      exact ht
    · rw [buffered_append, hvalue]
      simp only [bufferWrite, Function.update_self, writeSetPgasAppend, h.buffer]
    · simp only [bufferWrite, Function.update_self]

theorem serve_store (hpgas : cfg.pgas = true) (hid : id < idBound E) {s : Dsl E}
    (h : SoloDsl cfg id mem done s) (c : Clocks) {address : Nat} (haddr : address ≠ 0)
    (value : BitVec 64) :
    ∃ dsl, dslService cfg c.now s id ⟨.store, address, value, c.txMetadata⟩ =
        (dsl, some ⟨.storeResponse, address, 0, .noConflict⟩) ∧
      SoloDsl cfg id mem (done ++ [.txStore address value]) dsl ∧ BuffersAtMostOne id s dsl := by
  let s₁ : Dsl E :=
    { s with timestamp := updateTimestamp cfg c.now id c.txMetadata s.timestamp }
  obtain ⟨t, htry, hbuffered⟩ :=
    h.tryStore hpgas hid (.txStore address value) s₁.timestamp haddr rfl rfl
  refine ⟨bufferWrite { s₁ with ht := t } id value address, ?_, hbuffered value rfl⟩
  have hdef : dslService cfg c.now s id ⟨.store, address, value, c.txMetadata⟩ =
      handleStore cfg s₁ id ⟨.store, address, value, c.txMetadata⟩ := rfl
  rw [hdef, handleStore, htry]
  simp only [hpgas, if_true, ne_eq, not_true_eq_false, if_false]
  rfl

theorem serve_storeInc (hpgas : cfg.pgas = true) (hid : id < idBound E) {s : Dsl E}
    (h : SoloDsl cfg id mem done s) (c : Clocks) {address : Nat} (haddr : address ≠ 0)
    (increment : BitVec 64) :
    ∃ dsl, dslService cfg c.now s id ⟨.storeInc, address, increment, c.txMetadata⟩ =
        (dsl, some ⟨.storeResponse, address, 0, .noConflict⟩) ∧
      SoloDsl cfg id mem (done ++ [.txLoadStore address increment]) dsl ∧
      BuffersAtMostOne id s dsl := by
  let s₁ : Dsl E :=
    { s with timestamp := updateTimestamp cfg c.now id c.txMetadata s.timestamp }
  obtain ⟨t, htry, hbuffered⟩ :=
    h.tryStore hpgas hid (.txLoadStore address increment) s₁.timestamp haddr rfl rfl
  refine ⟨bufferWrite { s₁ with ht := t } id (pgasDslRead mem address + increment) address, ?_,
    hbuffered _ rfl⟩
  have hdef : dslService cfg c.now s id ⟨.storeInc, address, increment, c.txMetadata⟩ =
      handleStoreInc cfg s₁ id ⟨.storeInc, address, increment, c.txMetadata⟩ := by
    simp only [dslService, dslSwitch, hpgas, if_true]
    rfl
  rw [hdef, handleStoreInc, htry, ← h.mem]
  simp only [ne_eq, not_true_eq_false, if_false]
  rfl

/-- An access gets through where it is no load of a written address and the log has room. -/
theorem pgasAccess_solo (hpgas : cfg.pgas = true) (hid : id < idBound E) {s : PgasNode E}
    (h : SoloState cfg id mem done s) (access : PgasAccess) (c : Clocks)
    (haddr : access.address ≠ 0) :
    if (¬ ∃ address ∈ written done, access = .txLoad address) ∧
        logged E (done ++ [access]) ≤ 2 ^ 31 then
      ∃ s', pgasAccess cfg id s c access = .ok (s', loaded mem [access]) ∧
        SoloState cfg id mem (done ++ [access]) s'
    else ∃ e, pgasAccess cfg id s c access = .error e := by
  cases access with
  | txLoad address =>
    have haddr : address ≠ 0 := haddr
    by_cases hold : address ∈ written done
    · obtain ⟨dsl, reply, hserve, hno⟩ := serve_load_refused hpgas hid h.toSoloDsl c haddr hold
      obtain ⟨e, he⟩ := pgasRequest_refused h c hserve hno
      rw [if_neg (fun hc => hc.1 ⟨address, hold, rfl⟩)]
      refine ⟨e, ?_⟩
      change (pgasRequest cfg id s c .load address 2 >>= _) = _
      rw [he]
      rfl
    · have hfresh : ¬ ∃ a ∈ written done, PgasAccess.txLoad address = .txLoad a := by
        rintro ⟨a, ha, heq⟩
        cases heq
        exact hold ha
      obtain ⟨dsl, hserve, hdsl, hone⟩ := serve_load hpgas hid h.toSoloDsl c haddr hold
      simp only [hfresh, not_false_eq_true, true_and]
      exact pgasRequest_granted h c hserve rfl hdsl hone fun v => [v]
  | txStore address value =>
    have hfresh : ¬ ∃ a ∈ written done, PgasAccess.txStore address value = .txLoad a := by
      rintro ⟨a, -, heq⟩
      cases heq
    obtain ⟨dsl, hserve, hdsl, hone⟩ := serve_store hpgas hid h.toSoloDsl c haddr value
    simp only [hfresh, not_false_eq_true, true_and]
    exact pgasRequest_granted h c hserve rfl hdsl hone fun _ => []
  | txLoadStore address increment =>
    have hfresh : ¬ ∃ a ∈ written done, PgasAccess.txLoadStore address increment = .txLoad a := by
      rintro ⟨a, -, heq⟩
      cases heq
    obtain ⟨dsl, hserve, hdsl, hone⟩ := serve_storeInc hpgas hid h.toSoloDsl c haddr increment
    simp only [hfresh, not_false_eq_true, true_and]
    exact pgasRequest_granted h c hserve rfl hdsl hone fun _ => []

/-- No load of an address that was already in the write set or that an earlier access wrote. -/
def FreshLoads (W : List Nat) (accesses : List PgasAccess) : Prop :=
  ∀ before address after, accesses = before ++ .txLoad address :: after →
    address ∉ W ++ written before

theorem noLoadAfterWrite_iff {accesses : List PgasAccess} :
    NoLoadAfterWrite accesses ↔ FreshLoads [] accesses := Iff.rfl

theorem freshLoads_cons {W : List Nat} {access : PgasAccess} {accesses : List PgasAccess} :
    FreshLoads W (access :: accesses) ↔
      (¬ ∃ address ∈ W, access = .txLoad address) ∧
        FreshLoads (W ++ written [access]) accesses := by
  constructor
  · intro h
    refine ⟨?_, ?_⟩
    · rintro ⟨address, hW, rfl⟩
      exact h [] address accesses rfl (by simpa [written] using hW)
    · rintro before address after rfl
      have := h (access :: before) address after rfl
      rwa [written_cons, ← List.append_assoc] at this
  · rintro ⟨hhead, htail⟩ before address after heq
    cases before with
    | nil =>
      rw [List.nil_append, List.cons.injEq] at heq
      intro hW
      exact hhead ⟨address, by simpa [written] using hW, heq.1⟩
    | cons first before =>
      rw [List.cons_append, List.cons.injEq] at heq
      have := htail before address after heq.2
      rwa [heq.1, List.append_assoc, ← written_cons] at this

def decidableFreshLoads : (W : List Nat) → (accesses : List PgasAccess) →
    Decidable (FreshLoads W accesses)
  | _, [] => isTrue (by intro before address after heq; simp at heq)
  | W, access :: rest =>
    haveI := decidableFreshLoads (W ++ written [access]) rest
    decidable_of_iff ((¬ ∃ address ∈ W, access = .txLoad address) ∧
      FreshLoads (W ++ written [access]) rest) freshLoads_cons.symm

instance (accesses : List PgasAccess) : Decidable (NoLoadAfterWrite accesses) :=
  decidableFreshLoads [] accesses

theorem pgasAccesses_solo (hpgas : cfg.pgas = true) (hid : id < idBound E)
    {accesses : List (PgasAccess × Clocks)} (haddr : ∀ a ∈ accesses, a.1.address ≠ 0)
    {s : PgasNode E} (h : SoloState cfg id mem done s)
    (hfresh : FreshLoads (written done) (accesses.map Prod.fst))
    (hlogged : logged E (done ++ accesses.map Prod.fst) ≤ 2 ^ 31) :
    ∃ s', pgasAccesses cfg id s accesses = .ok (s', loaded mem (accesses.map Prod.fst)) ∧
      SoloState cfg id mem (done ++ accesses.map Prod.fst) s' := by
  induction accesses generalizing s done with
  | nil =>
    refine ⟨s, rfl, ?_⟩
    rw [List.map_nil, List.append_nil]
    exact h
  | cons first rest ih =>
    obtain ⟨access, c⟩ := first
    obtain ⟨hhead, htail⟩ := freshLoads_cons.mp hfresh
    rw [List.map_cons, List.append_cons] at hlogged
    have hone := pgasAccess_solo hpgas hid h access c (haddr _ List.mem_cons_self)
    rw [if_pos ⟨hhead, (logged_le_append E _ _).trans hlogged⟩] at hone
    obtain ⟨s₁, hs₁, h₁⟩ := hone
    rw [← written_append] at htail
    obtain ⟨s', hs', h'⟩ := ih (fun a ha => haddr a (List.mem_cons_of_mem _ ha)) h₁ htail hlogged
    refine ⟨s', ?_, ?_⟩
    · rw [List.map_cons, loaded_cons]
      simp only [pgasAccesses, hs₁]
      change (pgasAccesses cfg id s₁ rest >>= _) = _
      rw [hs']
      rfl
    · rw [List.map_cons, List.append_cons]
      exact h'

theorem pgasAccesses_refused (hpgas : cfg.pgas = true) (hid : id < idBound E)
    {accesses : List (PgasAccess × Clocks)} (haddr : ∀ a ∈ accesses, a.1.address ≠ 0)
    {s : PgasNode E} (h : SoloState cfg id mem done s) (hdone : logged E done ≤ 2 ^ 31)
    (hnot : ¬ (FreshLoads (written done) (accesses.map Prod.fst) ∧
      logged E (done ++ accesses.map Prod.fst) ≤ 2 ^ 31)) :
    ∃ e, pgasAccesses cfg id s accesses = .error e := by
  induction accesses generalizing s done with
  | nil =>
    refine absurd ⟨?_, ?_⟩ hnot
    · intro before address after heq
      simp at heq
    · rw [List.map_nil, List.append_nil]
      exact hdone
  | cons first rest ih =>
    obtain ⟨access, c⟩ := first
    have hone := pgasAccess_solo hpgas hid h access c (haddr _ List.mem_cons_self)
    by_cases hhead : (¬ ∃ address ∈ written done, access = .txLoad address) ∧
        logged E (done ++ [access]) ≤ 2 ^ 31
    · rw [if_pos hhead] at hone
      obtain ⟨s₁, hs₁, h₁⟩ := hone
      -- the head gets through, so what is wrong comes later
      have htail : ¬ (FreshLoads (written (done ++ [access])) (rest.map Prod.fst) ∧
          logged E (done ++ [access] ++ rest.map Prod.fst) ≤ 2 ^ 31) := by
        rintro ⟨hfresh, hlogged⟩
        rw [written_append] at hfresh
        rw [List.map_cons, List.append_cons] at hnot
        exact hnot ⟨freshLoads_cons.mpr ⟨hhead.1, hfresh⟩, hlogged⟩
      obtain ⟨e, he⟩ := ih (fun a ha => haddr a (List.mem_cons_of_mem _ ha)) h₁ hhead.2 htail
      refine ⟨e, ?_⟩
      simp only [pgasAccesses, hs₁]
      change (pgasAccesses cfg id s₁ rest >>= _) = _
      rw [he]
      rfl
    · rw [if_neg hhead] at hone
      obtain ⟨e, he⟩ := hone
      refine ⟨e, ?_⟩
      simp only [pgasAccesses, he]
      rfl

/-- Between two transactions: what `TX_START` leaves has no lock, no buffered write. -/
def Idle {E : Type} [LawfulRwEntry E] (cfg : Config) (id : Nat) (s : PgasNode E) : Prop :=
  SoloState cfg id s.dsl.mem [] (pgasStart cfg id s)

theorem idle_pgasInit (cfg : Config) (hid : id < idBound E) (mem : ByteMemory) :
    Idle cfg id (pgasInit mem : PgasNode E) := by
  unfold Idle pgasStart
  split
  · exact ⟨⟨soloTable_sshtNew cfg id hid, rfl, rfl, fun _ => Function.update_self ..⟩, room_new,
      rfl⟩
  · rename_i hweak
    exact ⟨⟨soloTable_sshtNew cfg id hid, rfl, rfl, fun hreal => absurd hreal hweak⟩, room_new,
      rfl⟩

/-- The release of a node that was contacted: the write set is persisted and
emptied, and the locks go. -/
theorem pgasRlsAll_contacted (hpgas : cfg.pgas = true) (id : Nat) {s : PgasNode E} (c : Clocks)
    (hcontacted : s.nodesContacted > 0) :
    ∃ ts, pgasRlsAll cfg id s c =
      ⟨⟨tm2cHtDeleteNode s.dsl.ht id, ts, s.dsl.abortFlags, s.dsl.reread,
        Function.update s.dsl.writeSets id (writeSetPgasEmpty (s.dsl.writeSets id)),
        writeSetPgasPersist s.dsl.mem (s.dsl.writeSets id)⟩, 0⟩ := by
  unfold pgasRlsAll
  rw [if_pos hcontacted]
  simp only [dslService, dslSwitch, handleRmvNode, hpgas, emptyWriteSet, if_true, and_self,
    forgetTimestamp]
  split
  · exact ⟨_, rfl⟩
  · exact ⟨_, rfl⟩

theorem mem_pgasRlsAll (hpgas : cfg.pgas = true) {s : PgasNode E}
    (h : SoloState cfg id mem done s) (c : Clocks) (hk : done.length % 2 ^ 16 ≠ 0) :
    (pgasRlsAll cfg id s c).dsl.mem = persisted mem (buffered mem done) := by
  obtain ⟨ts, hrls⟩ := pgasRlsAll_contacted hpgas id c (by rw [h.contacted]; omega)
  have hpersist : writeSetPgasPersist s.dsl.mem (s.dsl.writeSets id) =
      persisted s.dsl.mem (s.dsl.writeSets id).writeEntries := rfl
  rw [hrls, hpersist, h.mem, h.buffer]

theorem pgasRlsAll_solo (hpgas : cfg.pgas = true) (hid : id < idBound E) {s : PgasNode E}
    (h : SoloState cfg id mem done s) (c : Clocks) (hk : done.length % 2 ^ 16 ≠ 0)
    (hnodup : cfg.cm.isReal = false → exact E = true → (written done).Nodup) :
    SoloState cfg id (persisted mem (buffered mem done)) [] (pgasRlsAll cfg id s c) := by
  have hmem := mem_pgasRlsAll hpgas h c hk
  obtain ⟨ts, hrls⟩ := pgasRlsAll_contacted hpgas id c (by rw [h.contacted]; omega)
  have hempty : (pgasRlsAll cfg id s c).dsl.writeSets id =
      writeSetPgasEmpty (s.dsl.writeSets id) := by
    rw [hrls]
    exact Function.update_self ..
  refine ⟨⟨?_, ?_, hmem, ?_⟩, ?_, ?_⟩
  · rw [hrls]
    exact h.table.deleteNode hid hnodup
  · rw [hempty]
    rfl
  · rw [hrls]
    exact h.flag
  · rw [hempty]
    exact h.room.empty
  · rw [hrls]
    rfl

/-- Only a node with a nonzero `nodes_contacted` releases. -/
theorem pgasCommit_solo (hpgas : cfg.pgas = true) (hid : id < idBound E) {s : PgasNode E}
    (h : SoloState cfg id mem done s) (c : Clocks) :
    ∃ s', pgasCommit cfg id s c = .ok s' ∧
      s'.dsl.mem =
        (if done.length % 2 ^ 16 = 0 then mem else persisted mem (buffered mem done)) ∧
      ((done.length % 2 ^ 16 = 0 → done = []) →
        (cfg.cm.isReal = false → exact E = true → (written done).Nodup) → Idle cfg id s') := by
  have hcommit : ∃ s', pgasCommit cfg id s c = .ok s' ∧
      s'.dsl.mem = (pgasRlsAll cfg id s c).dsl.mem ∧
      (∀ mem', SoloState cfg id mem' [] (pgasRlsAll cfg id s c) →
        SoloState cfg id mem' [] (pgasStart cfg id s')) := by
    unfold pgasCommit
    rw [txChkAborted_ok h.flag]
    by_cases hreal : cfg.cm.isReal = true
    · refine ⟨_, if_pos hreal, rfl, ?_⟩
      intro mem' h'
      unfold pgasStart
      rw [if_pos hreal]
      exact ⟨⟨h'.table, h'.buffer, h'.mem, fun _ => Function.update_self ..⟩, h'.room,
        h'.contacted⟩
    · refine ⟨_, if_neg hreal, rfl, ?_⟩
      intro mem' h'
      unfold pgasStart
      rw [if_neg hreal]
      exact h'
  obtain ⟨s', hs', hmem, hidle⟩ := hcommit
  by_cases hk : done.length % 2 ^ 16 = 0
  · have hstay : pgasRlsAll cfg id s c = s := by
      unfold pgasRlsAll
      rw [if_neg (by rw [h.contacted]; omega)]
    rw [hstay] at hmem hidle
    refine ⟨s', hs', ?_, ?_⟩
    · rw [hmem, h.mem, if_pos hk]
    · intro hnone _
      obtain rfl := hnone hk
      rw [Idle, hmem, h.mem]
      exact hidle mem h
  · refine ⟨s', hs', ?_, ?_⟩
    · rw [if_neg hk, hmem]
      exact mem_pgasRlsAll hpgas h c hk
    · intro _ hnodup
      have h' := pgasRlsAll_solo hpgas hid h c hk hnodup
      rw [Idle, hmem, h'.mem]
      exact hidle _ h'

theorem pgasTx_solo (hpgas : cfg.pgas = true) (hid : id < idBound E) {s : PgasNode E}
    (h : Idle cfg id s) {tx : PgasTx} (haddr : ∀ a ∈ tx.accesses, a.1.address ≠ 0)
    (hroom : logged E tx.plain ≤ 2 ^ 31) (hloads : NoLoadAfterWrite tx.plain) :
    ∃ s', pgasTx cfg id s tx = .ok (s', loaded s.dsl.mem tx.plain) ∧
      s'.dsl.mem = (if tx.plain.length % 2 ^ 16 = 0 then s.dsl.mem
        else persisted s.dsl.mem (buffered s.dsl.mem tx.plain)) ∧
      (LeavesTable E cfg tx.plain → Idle cfg id s') := by
  obtain ⟨s₁, hs₁, h₁⟩ := pgasAccesses_solo hpgas hid haddr h hloads hroom
  obtain ⟨s', hs', hmem, hidle⟩ := pgasCommit_solo hpgas hid h₁ tx.commit
  rw [List.nil_append] at hmem hidle
  refine ⟨s', ?_, hmem, ?_⟩
  · simp only [pgasTx, hs₁]
    change (pgasCommit cfg id s₁ tx.commit >>= _) = _
    rw [hs']
    rfl
  · intro hleaves
    exact hidle hleaves.released hleaves.counted

theorem pgasTx_refused (hpgas : cfg.pgas = true) (hid : id < idBound E) {s : PgasNode E}
    (h : Idle cfg id s) {tx : PgasTx} (haddr : ∀ a ∈ tx.accesses, a.1.address ≠ 0)
    (hnot : ¬ (logged E tx.plain ≤ 2 ^ 31 ∧ NoLoadAfterWrite tx.plain)) :
    ∃ e, pgasTx cfg id s tx = .error e := by
  have hempty : logged E [] ≤ 2 ^ 31 := by
    unfold logged
    split
    · exact Nat.zero_le _
    · exact Nat.zero_le _
  obtain ⟨e, he⟩ := pgasAccesses_refused hpgas hid haddr h hempty
    (fun hboth => hnot ⟨hboth.2, noLoadAfterWrite_iff.mpr hboth.1⟩)
  refine ⟨e, ?_⟩
  simp only [pgasTx, he]
  rfl

/-- Transactions that leave the table as they found it all commit. -/
theorem pgasTxs_idle (hpgas : cfg.pgas = true) (hid : id < idBound E) {txs : List PgasTx}
    (haddr : ∀ tx ∈ txs, ∀ a ∈ tx.accesses, a.1.address ≠ 0)
    (hleaves : ∀ tx ∈ txs, LeavesTable E cfg tx.plain) {s : PgasNode E} (h : Idle cfg id s) :
    ∃ s', pgasTxs cfg id s txs = .ok s' ∧ Idle cfg id s' := by
  induction txs generalizing s with
  | nil => exact ⟨s, rfl, h⟩
  | cons tx txs ih =>
    have htx := hleaves tx List.mem_cons_self
    rcases pgasTx_solo hpgas hid h (haddr tx List.mem_cons_self) htx.room htx.loads with
      ⟨s₁, hs₁, -, hidle⟩
    rcases ih (fun t ht => haddr t (List.mem_cons_of_mem _ ht))
      (fun t ht => hleaves t (List.mem_cons_of_mem _ ht)) (hidle htx) with ⟨s', hs', h'⟩
    refine ⟨s', ?_, h'⟩
    simp only [pgasTxs, hs₁]
    exact hs'

end Transactions

/-! ### Sequential execution and the replay -/

section Replay

variable {mem : ByteMemory} {accesses : List PgasAccess}

/-- The accesses are to 8-byte words: two of them have the same address or no byte
in common. -/
def Words (accesses : List PgasAccess) : Prop :=
  ∀ a ∈ accesses, ∀ b ∈ accesses,
    a.address = b.address ∨ ByteMemory.Apart a.address 8 b.address 8

instance (accesses : List PgasAccess) : Decidable (Words accesses) :=
  inferInstanceAs (Decidable (∀ a ∈ accesses, ∀ b ∈ accesses,
    a.address = b.address ∨ ByteMemory.Apart a.address 8 b.address 8))

theorem read_pgasDslWrite_same (mem : ByteMemory) (address : Nat) (value : BitVec 64) :
    pgasDslRead (pgasDslWrite mem address value) address = value :=
  ByteMemory.load_store_same 8 mem address value

theorem read_pgasDslWrite_apart (mem : ByteMemory) {address address' : Nat} (value : BitVec 64)
    (h : ByteMemory.Apart address 8 address' 8) :
    pgasDslRead (pgasDslWrite mem address value) address' = pgasDslRead mem address' :=
  ByteMemory.load_store_apart (n := 8) (k := 8) mem value h

/-- The writes of the sequential execution. -/
def executed (mem : ByteMemory) : List PgasAccess → List WriteEntryPgas
  | [] => []
  | .txLoad _ :: rest => executed mem rest
  | .txStore address value :: rest =>
    ⟨address, value⟩ :: executed (pgasDslWrite mem address value) rest
  | .txLoadStore address increment :: rest =>
    ⟨address, pgasDslRead mem address + increment⟩ ::
      executed (pgasDslWrite mem address (pgasDslRead mem address + increment)) rest

theorem mem_seqAccesses (mem : ByteMemory) (accesses : List PgasAccess) :
    (seqAccesses mem accesses).1 = persisted mem (executed mem accesses) := by
  induction accesses generalizing mem with
  | nil => rfl
  | cons access rest ih =>
    cases access with
    | txLoad address => exact ih mem
    | txStore address value => exact ih _
    | txLoadStore address increment => exact ih _

theorem executed_append (mem : ByteMemory) (before after : List PgasAccess) :
    executed mem (before ++ after) =
      executed mem before ++ executed (seqAccesses mem before).1 after := by
  induction before generalizing mem with
  | nil => rfl
  | cons access rest ih =>
    cases access with
    | txLoad address => exact ih mem
    | txStore address value => exact congrArg (_ :: ·) (ih _)
    | txLoadStore address increment => exact congrArg (_ :: ·) (ih _)

theorem addresses_executed (mem : ByteMemory) (accesses : List PgasAccess) :
    (executed mem accesses).map WriteEntryPgas.address = written accesses := by
  induction accesses generalizing mem with
  | nil => rfl
  | cons access rest ih =>
    cases access with
    | txLoad address => exact ih mem
    | txStore address value => exact congrArg (address :: ·) (ih _)
    | txLoadStore address increment => exact congrArg (address :: ·) (ih _)

theorem addresses_buffered (mem : ByteMemory) (accesses : List PgasAccess) :
    (buffered mem accesses).map WriteEntryPgas.address = written accesses := by
  induction accesses with
  | nil => rfl
  | cons access rest ih =>
    cases access with
    | txLoad address => exact ih
    | txStore address value => exact congrArg (address :: ·) ih
    | txLoadStore address increment => exact congrArg (address :: ·) ih

theorem read_persisted_apart {address : Nat} {log : List WriteEntryPgas}
    (h : ∀ e ∈ log, ByteMemory.Apart e.address 8 address 8) (mem : ByteMemory) :
    pgasDslRead (persisted mem log) address = pgasDslRead mem address := by
  induction log generalizing mem with
  | nil => rfl
  | cons e log ih =>
    have hhead := read_pgasDslWrite_apart mem e.value (h e List.mem_cons_self)
    exact (ih (fun e' he' => h e' (List.mem_cons_of_mem _ he')) _).trans hhead

/-- The replay leaves the last value written to an address. -/
theorem read_persisted_last {log after : List WriteEntryPgas} {e : WriteEntryPgas}
    (h : ∀ e' ∈ after, ByteMemory.Apart e'.address 8 e.address 8) (mem : ByteMemory) :
    pgasDslRead (persisted mem (log ++ e :: after)) e.address = e.value := by
  have hsplit : persisted mem (log ++ e :: after) =
      persisted (pgasDslWrite (persisted mem log) e.address e.value) after := by
    simp [persisted]
  rw [hsplit, read_persisted_apart h, read_pgasDslWrite_same]

theorem persisted_outside {x : Nat} {log : List WriteEntryPgas}
    (h : ∀ e ∈ log, x < e.address ∨ e.address + 8 ≤ x) (mem : ByteMemory) :
    persisted mem log x = mem x := by
  induction log generalizing mem with
  | nil => rfl
  | cons e log ih =>
    have hhead : pgasDslWrite mem e.address e.value x = mem x :=
      ByteMemory.store_outside (n := 8) mem e.address e.value (h e List.mem_cons_self)
    exact (ih (fun e' he' => h e' (List.mem_cons_of_mem _ he')) _).trans hhead

/-- Two replays over the same addresses agree where these words agree. -/
theorem persisted_ext {log log' : List WriteEntryPgas}
    (haddr : log.map WriteEntryPgas.address = log'.map WriteEntryPgas.address)
    (h : ∀ address ∈ log.map WriteEntryPgas.address,
      pgasDslRead (persisted mem log) address = pgasDslRead (persisted mem log') address) :
    persisted mem log = persisted mem log' := by
  funext x
  by_cases hx : ∃ address ∈ log.map WriteEntryPgas.address, address ≤ x ∧ x < address + 8
  · obtain ⟨address, haddress, hin⟩ := hx
    exact ByteMemory.byte_of_load (n := 8) (h address haddress) hin
  · have houtside : ∀ address ∈ log.map WriteEntryPgas.address,
        x < address ∨ address + 8 ≤ x := by
      intro address haddress
      by_contra hc
      exact hx ⟨address, haddress, by omega⟩
    rw [persisted_outside (fun e he => houtside _ (List.mem_map_of_mem he)),
      persisted_outside (fun e he => houtside _ (haddr ▸ List.mem_map_of_mem he))]

theorem exists_last_write {address : Nat} (h : address ∈ written accesses) :
    ∃ before access after, accesses = before ++ access :: after ∧
      written [access] = [address] ∧ address ∉ written after := by
  induction accesses with
  | nil => cases h
  | cons access rest ih =>
    by_cases hrest : address ∈ written rest
    · obtain ⟨before, last, after, rfl, hlast, hafter⟩ := ih hrest
      exact ⟨access :: before, last, after, rfl, hlast, hafter⟩
    · refine ⟨[], access, rest, rfl, ?_, hrest⟩
      rw [written_cons, List.mem_append] at h
      have hhead := h.resolve_right hrest
      cases access with
      | txLoad _ => cases hhead
      | txStore _ _ => rw [List.mem_singleton.mp hhead]; rfl
      | txLoadStore _ _ => rw [List.mem_singleton.mp hhead]; rfl

theorem exists_of_mem_written {address : Nat} (h : address ∈ written accesses) :
    ∃ access ∈ accesses, access.address = address := by
  obtain ⟨access, hmem, hsome⟩ := List.mem_filterMap.mp h
  refine ⟨access, hmem, ?_⟩
  cases access with
  | txLoad _ => cases hsome
  | txStore _ _ => exact Option.some.inj hsome
  | txLoadStore _ _ => exact Option.some.inj hsome

/-- After the last write of an address the writes are elsewhere. -/
theorem apart_of_not_written {before after : List PgasAccess} {access : PgasAccess}
    (hwords : Words (before ++ access :: after)) (hafter : access.address ∉ written after)
    {log : List WriteEntryPgas} (hlog : log.map WriteEntryPgas.address = written after) :
    ∀ e ∈ log, ByteMemory.Apart e.address 8 access.address 8 := by
  intro e he
  have hwritten : e.address ∈ written after := hlog ▸ List.mem_map_of_mem he
  obtain ⟨other, hother, heq⟩ := exists_of_mem_written hwritten
  rcases hwords other (by simp [hother]) access (by simp) with hsame | hapart
  · exact absurd (hsame ▸ heq ▸ hwritten) hafter
  · rwa [heq] at hapart

theorem read_last_txStore (mem : ByteMemory) {before after : List PgasAccess} {address : Nat}
    {value : BitVec 64}
    (hwords : Words (before ++ .txStore address value :: after))
    (hafter : address ∉ written after) :
    pgasDslRead (persisted mem (executed mem (before ++ .txStore address value :: after)))
        address = value ∧
      pgasDslRead (persisted mem (buffered mem (before ++ .txStore address value :: after)))
        address = value := by
  rw [executed_append, buffered_append, buffered_cons]
  exact ⟨read_persisted_last (e := ⟨address, value⟩)
      (apart_of_not_written hwords hafter (addresses_executed _ after)) mem,
    read_persisted_last (e := ⟨address, value⟩)
      (apart_of_not_written hwords hafter (addresses_buffered mem after)) mem⟩

theorem read_last_txLoadStore (mem : ByteMemory) {before after : List PgasAccess} {address : Nat}
    {increment : BitVec 64} (hwords : Words (before ++ .txLoadStore address increment :: after))
    (hafter : address ∉ written after) :
    pgasDslRead (persisted mem (executed mem (before ++ .txLoadStore address increment :: after)))
        address = pgasDslRead (seqAccesses mem before).1 address + increment ∧
      pgasDslRead (persisted mem (buffered mem (before ++ .txLoadStore address increment :: after)))
        address = pgasDslRead mem address + increment := by
  rw [executed_append, buffered_append, buffered_cons]
  exact ⟨read_persisted_last
      (e := ⟨address, pgasDslRead (seqAccesses mem before).1 address + increment⟩)
      (apart_of_not_written hwords hafter (addresses_executed _ after)) mem,
    read_persisted_last (e := ⟨address, pgasDslRead mem address + increment⟩)
      (apart_of_not_written hwords hafter (addresses_buffered mem after)) mem⟩

/-- The replay of the buffered writes is the sequential execution exactly when the
last increments find initial values. -/
theorem persisted_buffered_iff (hwords : Words accesses) :
    persisted mem (buffered mem accesses) = (seqAccesses mem accesses).1 ↔
      IncrementsInitial mem accesses := by
  rw [mem_seqAccesses]
  constructor
  · rintro h before address increment after rfl hafter
    obtain ⟨hseq, hbuf⟩ := read_last_txLoadStore mem hwords hafter
    rw [h, hseq] at hbuf
    exact (BitVec.add_left_inj _).mp hbuf
  · intro hinitial
    apply persisted_ext
    · rw [addresses_buffered, addresses_executed]
    · intro address haddress
      rw [addresses_buffered] at haddress
      obtain ⟨before, access, after, rfl, hwrite, hafter⟩ := exists_last_write haddress
      cases access with
      | txLoad _ => cases hwrite
      | txStore a value =>
        obtain rfl : a = address := List.singleton_inj.mp hwrite
        obtain ⟨hseq, hbuf⟩ := read_last_txStore mem hwords hafter
        rw [hseq, hbuf]
      | txLoadStore a increment =>
        obtain rfl : a = address := List.singleton_inj.mp hwrite
        obtain ⟨hseq, hbuf⟩ := read_last_txLoadStore mem hwords hafter
        rw [hseq, hbuf, hinitial before a increment after rfl hafter]

theorem Words.tail {access : PgasAccess} (h : Words (access :: accesses)) : Words accesses :=
  fun a ha b hb => h a (List.mem_cons_of_mem _ ha) b (List.mem_cons_of_mem _ hb)

/-- Loads of unwritten addresses find the initial values. -/
theorem values_seqAccesses {mem' : ByteMemory} {W : List Nat} (hwords : Words accesses)
    (hfresh : FreshLoads W accesses)
    (hread : ∀ access ∈ accesses, access.address ∉ W →
      pgasDslRead mem' access.address = pgasDslRead mem access.address) :
    (seqAccesses mem' accesses).2 = loaded mem accesses := by
  induction accesses generalizing mem' W with
  | nil => rfl
  | cons access rest ih =>
    obtain ⟨hhead, htail⟩ := freshLoads_cons.mp hfresh
    -- a write keeps the words that are still unwritten
    have hwrite : ∀ value, written [access] = [access.address] →
        ∀ other ∈ rest, other.address ∉ W ++ written [access] →
        pgasDslRead (pgasDslWrite mem' access.address value) other.address =
          pgasDslRead mem other.address := by
      intro value hwritten other hother hnot
      rw [hwritten, List.mem_append, List.mem_singleton, not_or] at hnot
      rw [← hread other (List.mem_cons_of_mem _ hother) hnot.1]
      rcases hwords access List.mem_cons_self other (List.mem_cons_of_mem _ hother) with
        hsame | hapart
      · exact absurd hsame.symm hnot.2
      · exact read_pgasDslWrite_apart mem' value hapart
    cases access with
    | txLoad address =>
      have hvalue := hread (.txLoad address) List.mem_cons_self
        (fun hW => hhead ⟨address, hW, rfl⟩)
      have hrest := ih hwords.tail htail (fun other hother hnot =>
        hread other (List.mem_cons_of_mem _ hother) (by simpa [written] using hnot))
      rw [loaded_cons]
      exact congrArg₂ (fun v vs => [v] ++ vs) hvalue hrest
    | txStore address value => exact ih hwords.tail htail (hwrite value rfl)
    | txLoadStore address increment => exact ih hwords.tail htail (hwrite _ rfl)

end Replay

/-! ### The main result -/

section Main

variable {E : Type} [LawfulRwEntry E] {cfg : Config} {id : Nat}

theorem sequential_iff (hpgas : cfg.pgas = true) (hid : id < idBound E) {s : PgasNode E}
    (h : Idle cfg id s) {tx : PgasTx} (haddr : ∀ a ∈ tx.accesses, a.1.address ≠ 0)
    (hwords : Words tx.plain) :
    Sequential cfg id s tx ↔ SequentialWhen E s.dsl.mem tx.plain := by
  by_cases hgranted : logged E tx.plain ≤ 2 ^ 31 ∧ NoLoadAfterWrite tx.plain
  · obtain ⟨hroom, hloads⟩ := hgranted
    obtain ⟨s', hs', hmem, -⟩ := pgasTx_solo hpgas hid h haddr hroom hloads
    have hvalues : (seqAccesses s.dsl.mem tx.plain).2 = loaded s.dsl.mem tx.plain :=
      values_seqAccesses hwords (noLoadAfterWrite_iff.mp hloads) (fun _ _ _ => rfl)
    have hseq : Sequential cfg id s tx ↔ s'.dsl.mem = (seqAccesses s.dsl.mem tx.plain).1 := by
      constructor
      · rintro ⟨s₁, values, hs₁, hresult⟩
        rw [hs', Except.ok.injEq, Prod.mk.injEq] at hs₁
        rw [hs₁.1, ← hresult]
      · intro hmem'
        exact ⟨s', _, hs', Prod.ext hmem' hvalues.symm⟩
    rw [hseq, hmem, SequentialWhen, and_iff_right hroom, and_iff_right hloads]
    by_cases hk : tx.plain.length % 2 ^ 16 = 0
    · rw [if_pos hk, if_pos hk]
      exact eq_comm
    · rw [if_neg hk, if_neg hk]
      exact persisted_buffered_iff hwords
  · obtain ⟨e, he⟩ := pgasTx_refused hpgas hid h haddr hgranted
    constructor
    · rintro ⟨s', values, hs', -⟩
      rw [he] at hs'
      cases hs'
    · intro hwhen
      exact absurd ⟨hwhen.1, hwhen.2.1⟩ hgranted

/-- After transactions that leave the table as they found it, a transaction is
sequential under the condition and under no other. -/
theorem pgasTransaction_sequential_iff (cfg : Config) (hpgas : cfg.pgas = true) (id : Nat)
    (hid : id < idBound E) (mem : ByteMemory) (history : List PgasTx)
    (hhistory : ∀ tx ∈ history, ∀ a ∈ tx.accesses, a.1.address ≠ 0)
    (hleaves : ∀ tx ∈ history, LeavesTable E cfg tx.plain) (tx : PgasTx)
    (haddr : ∀ a ∈ tx.accesses, a.1.address ≠ 0) (hwords : Words tx.plain) :
    ∃ s : PgasNode E, pgasTxs cfg id (pgasInit mem) history = .ok s ∧
      (Sequential cfg id s tx ↔ SequentialWhen E s.dsl.mem tx.plain) := by
  obtain ⟨s, hs, hidle⟩ := pgasTxs_idle hpgas hid hhistory hleaves (idle_pgasInit cfg hid mem)
  exact ⟨s, hs, sequential_iff hpgas hid hidle haddr hwords⟩

def pgasConfig : Config := ⟨.wholly, true, false, 4⟩

/-- Accesses of one transaction, all at time 0. -/
def plainTx (accesses : List PgasAccess) : PgasTx :=
  ⟨accesses.map fun access => (access, ⟨0, 0⟩), ⟨0, 0⟩⟩

theorem pgasTransaction_sequential_loadsThenStore :
    ∃ s : PgasNode ByteEntry, pgasTxs pgasConfig 1 (pgasInit fun _ => 0)
        [plainTx [.txStore 64 7, .txLoadStore 72 1]] = .ok s ∧
      Sequential pgasConfig 1 s (plainTx [.txLoad 64, .txLoad 72, .txStore 64 8]) := by
  rcases pgasTransaction_sequential_iff (E := ByteEntry) pgasConfig rfl 1 (by decide)
    (fun _ => 0) [plainTx [.txStore 64 7, .txLoadStore 72 1]] (by decide)
    (by
      intro tx htx
      rw [List.mem_singleton.mp htx]
      exact ⟨by decide, by decide, by decide, by decide⟩)
    (plainTx [.txLoad 64, .txLoad 72, .txStore 64 8]) (by decide) (by decide)
    with ⟨s, hs, hiff⟩
  refine ⟨s, hs, hiff.mpr ⟨by decide, by decide, ?_⟩⟩
  rw [if_neg (by decide)]
  intro before address increment after heq
  have hmem : PgasAccess.txLoadStore address increment ∈
      (plainTx [.txLoad 64, .txLoad 72, .txStore 64 8]).plain := by
    rw [heq]
    simp
  simp [plainTx, PgasTx.plain] at hmem

/-- A load of a word that the transaction stored meets the transaction's own lock,
and of two increments of a word only one arrives. -/
theorem pgasTransaction_not_sequential :
    ¬ Sequential pgasConfig 1 (pgasInit fun _ => 0 : PgasNode ByteEntry)
        (plainTx [.txStore 64 7, .txLoad 64]) ∧
    ¬ Sequential pgasConfig 1 (pgasInit fun _ => 0 : PgasNode ByteEntry)
        (plainTx [.txLoadStore 64 1, .txLoadStore 64 1]) := by
  have hidle := idle_pgasInit (E := ByteEntry) pgasConfig (show 1 < idBound ByteEntry by decide)
    (fun _ => 0)
  constructor
  · intro hsequential
    have hwhen := (sequential_iff rfl (by decide) hidle (by decide) (by decide)).mp hsequential
    exact hwhen.2.1 [.txStore 64 7] 64 [] rfl (by decide)
  · intro hsequential
    have hwhen := (sequential_iff rfl (by decide) hidle (by decide) (by decide)).mp hsequential
    have hinitial := hwhen.2.2
    rw [if_neg (by decide)] at hinitial
    have hfound := hinitial [.txLoadStore 64 1] 64 1 [] rfl (by decide)
    revert hfound
    decide +kernel

end Main

end TM2C
