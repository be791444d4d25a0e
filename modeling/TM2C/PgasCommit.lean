import TM2C.Lib.Serial
import TM2C.LockTable
import TM2C.PgasMemory

/-!
# Atomic commits over several partitions

The PGAS build without preemption: each service node has a lock map, its partition and
the write sets of its senders, and a commit is one `RMV_NODE` to every service node that
was contacted, handled there at any time.  Between an application node and a service node
there is room for one message.  The transactions are serialisable in the order in which
they call `tm2c_rpc_rls_all(NO_CONFLICT)`: by then a transaction has all its locks, and
until its release is handled nobody looks at what it is about to write.  This takes that
`nodes_contacted` does not wrap and that locks on different words do not stand for the
same bytes.

This module has the definitions and what one service node does; `PgasSerial` has the theorem.  A
transaction is the list of its requests in order, `TxOp`s with a partition each, and
`Transaction.ReadsFrom` and `leave` make it a transaction in the sense of `Lib.Serial`.  A service
node is a `PgasService`, in which the table is a lock map; `Keeps` says of it that the locks and
the buffered writes of a node are those of the requests it was granted.  The last section shows
that nothing is lost by this: `dslService` over the table, from `DslService`, takes the same
steps as `PgasService.dslService` does over the lock map of the table, in whole runs
(`partition_run`).  The byte array needs there that a node does not write again to an address that
it has write-locked.
-/

namespace TM2C

open Transition

/-! ### A service node -/

structure PgasService where
  locks : LockMap Nat Nat
  writeSets : Nat → WriteSetPgas
  mem : ByteMemory

def pgasServiceNew : PgasService := ⟨LockMap.empty, fun _ => writeSetPgasNew, fun _ => 0⟩

/-- `try_load` and `try_store` on a lock map.  Without a contention manager a request that
is granted has no victims. -/
def tryLock (cfg : Config) (locks : LockMap Nat Nat) (id address : Nat) (rw : RW) :
    Conflict × LockMap Nat Nat :=
  match verdict cfg (fun _ => 0) locks id address rw with
  | .refuse conflict => (conflict, locks)
  | .grant _ => (.noConflict, acquire locks id address rw)

namespace PgasService

/-- What follows the reply to a refused request. -/
def refuse (s : PgasService) (sender : Nat) : PgasService :=
  { s with
    locks := s.locks.release sender
    writeSets := Function.update s.writeSets sender (writeSetPgasEmpty (s.writeSets sender)) }

/-- `write_set_pgas_insert(PGAS_write_sets[sender], ...)` of a node that lives on. -/
def bufferWrite (s : PgasService) (sender : Nat) (value : BitVec 64) (address : Nat) :
    PgasService :=
  { s with
    writeSets := Function.update s.writeSets sender
      (writeSetPgasAppend (s.writeSets sender) value address) }

def handleLoad (cfg : Config) (s : PgasService) (sender : Nat) (req : Req) :
    PgasService × Option Reply :=
  let (conflict, locks) := tryLock cfg s.locks sender req.address .read
  let s' := { s with locks := locks }
  (if conflict ≠ .noConflict then s'.refuse sender else s',
    some ⟨.loadResponse, req.address, readWords s.mem req.value req.address, conflict⟩)

def handleStore (cfg : Config) (s : PgasService) (sender : Nat) (req : Req) :
    PgasService × Option Reply :=
  let (conflict, locks) := tryLock cfg s.locks sender req.address .write
  let s' := { s with locks := locks }
  (if conflict ≠ .noConflict then s'.refuse sender
    else s'.bufferWrite sender req.value req.address,
    some ⟨.storeResponse, req.address, 0, conflict⟩)

def handleStoreInc (cfg : Config) (s : PgasService) (sender : Nat) (req : Req) :
    PgasService × Option Reply :=
  let (conflict, locks) := tryLock cfg s.locks sender req.address .write
  let s' := { s with locks := locks }
  (if conflict ≠ .noConflict then s'.refuse sender
    else s'.bufferWrite sender (pgasDslRead s.mem req.address + req.value) req.address,
    some ⟨.storeResponse, req.address, 0, conflict⟩)

def handleRmvNode (s : PgasService) (sender : Nat) (req : Req) : PgasService × Option Reply :=
  ({ locks := s.locks.release sender
     writeSets := Function.update s.writeSets sender (writeSetPgasEmpty (s.writeSets sender))
     mem :=
      if req.value = RESPONSE_NO_CONFLICT then writeSetPgasPersist s.mem (s.writeSets sender)
      else s.mem }, none)

/-- The messages of transactions; no others are sent here. -/
def dslService (cfg : Config) (s : PgasService) (sender : Nat) (req : Req) :
    PgasService × Option Reply :=
  match req.type with
  | .load => s.handleLoad cfg sender req
  | .store => s.handleStore cfg sender req
  | .storeInc => s.handleStoreInc cfg sender req
  | .rmvNode => s.handleRmvNode sender req
  | _ => (s, none)

end PgasService

/-! ### Transactions -/

/-- A request that was granted, with the value that a load returned, and the one to which
a `STORE_INC` added its increment. -/
inductive TxOp where
  | load (address : Nat) (numWords value : BitVec 64)
  | store (address : Nat) (value : BitVec 64)
  | storeInc (address : Nat) (increment base : BitVec 64)
deriving DecidableEq, Repr

/-- The request as it is granted over the memory. -/
def Req.txOp (req : Req) (mem : ByteMemory) : TxOp :=
  match req.type with
  | .store => .store req.address req.value
  | .storeInc => .storeInc req.address req.value (pgasDslRead mem req.address)
  | _ => .load req.address req.value (readWords mem req.value req.address)

namespace TxOp

def address : TxOp → Nat
  | .load address _ _ | .store address _ | .storeInc address _ _ => address

/-- The number of bytes. -/
def length : TxOp → Nat
  | .load _ numWords _ => if numWords = 1 then 4 else 8
  | .store _ _ | .storeInc _ _ _ => 8

def rw : TxOp → RW
  | .load _ _ _ => .read
  | .store _ _ | .storeInc _ _ _ => .write

/-- The value that the request saw is the one in memory. -/
def ReadsFrom (mem : ByteMemory) : TxOp → Prop
  | .load address numWords value => value = readWords mem numWords address
  | .store _ _ => True
  | .storeInc address _ base => base = pgasDslRead mem address

instance (mem : ByteMemory) : (op : TxOp) → Decidable (op.ReadsFrom mem)
  | .load _ _ _ => inferInstanceAs (Decidable (_ = _))
  | .store _ _ => inferInstanceAs (Decidable True)
  | .storeInc _ _ _ => inferInstanceAs (Decidable (_ = _))

def write (mem : ByteMemory) : TxOp → ByteMemory
  | .load _ _ _ => mem
  | .store address value => pgasDslWrite mem address value
  | .storeInc address increment base => pgasDslWrite mem address (base + increment)

/-- Two requests that have bytes in common, at least one of them a write. -/
def Clash (x y : TxOp) : Prop :=
  (x.rw = .write ∨ y.rw = .write) ∧ ¬ ByteMemory.Apart x.address x.length y.address y.length

instance (x y : TxOp) : Decidable (x.Clash y) :=
  inferInstanceAs (Decidable (_ ∧ _))

end TxOp

/-- The requests of a transaction, in order, each with its service node. -/
abbrev Transaction := List (Nat × TxOp)

namespace Transaction

/-- At most one write to an address, and no request for it afterwards. -/
def Tidy (t : Transaction) : Prop :=
  t.Pairwise fun p q => p.1 = q.1 → p.2.address = q.2.address → p.2.rw = .read

/-- Everything that the transaction read was in the partitions. -/
def ReadsFrom (mem : Nat → ByteMemory) (t : Transaction) : Prop :=
  ∀ p ∈ t, p.2.ReadsFrom (mem p.1)

/-- The partitions that the transaction leaves. -/
def leave (mem : Nat → ByteMemory) (t : Transaction) : Nat → ByteMemory :=
  t.foldl (fun mem p => Function.update mem p.1 (p.2.write (mem p.1))) mem

/-- The requests to one service node. -/
def opsAt (t : Transaction) (d : Nat) : List TxOp :=
  t.filterMap fun p => if p.1 = d then some p.2 else none

end Transaction

/-! ### The system -/

inductive PgasPhase where
  -- outside transactions
  | idle
  -- between `TX_START` and the commit macro
  | running
  -- in `tm2c_rpc_recvb`
  | waiting (d : Nat)
  -- a request was refused, before `TX_ABORT`
  | refused
  -- in `tm2c_rpc_rls_all(conflict)`, until its messages are processed
  | rlsAll (conflict : Conflict)
deriving DecidableEq, Repr

structure PgasAppNode where
  phase : PgasPhase
  nodesContacted : Nat → Nat

/-- The nodes, the message on its way from a node to a service node, the reply on its way
to a node, and histories: `held v d` are the requests of node `v` that service node `d`
granted since it last refused or released the node, `attempt v` those of the attempt that
is running and was not refused, and `committed` the transactions that committed. -/
structure PgasSystem where
  node : Nat → PgasAppNode
  service : Nat → PgasService
  buffer : Nat → Nat → Option Req
  reply : Nat → Option Conflict
  held : Nat → Nat → List TxOp
  attempt : Nat → Transaction
  committed : List Transaction

inductive PgasEvent where
  -- `TX_START`, for the first time
  | txStart (v : Nat)
  -- `tm2c_rpc_load`, `tm2c_rpc_store` and `tm2c_rpc_store_inc`
  | request (v : Nat) (type : ReqType) (address : Nat) (value : BitVec 64)
  -- `tm2c_rpc_recvb`
  | recvb (v : Nat)
  -- `tm2c_rpc_rls_all`, from a commit macro or from `TX_ABORT`
  | rlsAll (v : Nat) (conflict : Conflict)
  -- `tm2c_rpc_is_processed`
  | processed (v d : Nat)
  | released (v : Nat)
  -- one turn of `dsl_service`
  | handle (d v : Nat)

namespace PgasSystem

def init : PgasSystem where
  node _ := ⟨.idle, fun _ => 0⟩
  service _ := pgasServiceNew
  buffer _ _ := none
  reply _ := none
  held _ _ := []
  attempt _ := []
  committed := []

def setNode (s : PgasSystem) (v : Nat) (n : PgasAppNode) : PgasSystem :=
  { s with node := Function.update s.node v n }

/-- The `RMV_NODE` that `tm2c_rpc_rls_all` sends. -/
def rmvNode (conflict : Conflict) : Req := ⟨.rmvNode, 0, conflict.response, 0⟩

/-- Service node `d` handles the message of node `v`. -/
def handle (cfg : Config) (s : PgasSystem) (d v : Nat) (req : Req) : PgasSystem :=
  let r := (s.service d).dslService cfg v req
  let s' := { s with
    service := Function.update s.service d r.1
    buffer := setAt s.buffer v d none }
  match r.2 with
  | none => { s' with held := setAt s.held v d [] }
  | some reply =>
    if reply.response = .noConflict then
      let op := req.txOp (s.service d).mem
      { s' with
        reply := Function.update s.reply v (some reply.response)
        held := setAt s.held v d (s.held v d ++ [op])
        attempt := Function.update s.attempt v (s.attempt v ++ [(d, op)]) }
    else
      { s' with
        reply := Function.update s.reply v (some reply.response)
        held := setAt s.held v d []
        attempt := Function.update s.attempt v [] }

/-- A transaction that is refused a lock can only abort. -/
def step (cfg : Config) (numDslNodes : Nat) (s : PgasSystem) : PgasEvent → Option PgasSystem
  | .txStart v =>
    if v < cfg.numUes ∧ (s.node v).phase = .idle then
      some (s.setNode v { s.node v with phase := .running })
    else none
  | .request v type address value =>
    let n := s.node v
    let d := getResponsibleNode address
    if n.phase = .running ∧ d < numDslNodes ∧
        (type = .load ∨ type = .store ∨ type = .storeInc) then
      some { s.setNode v ⟨.waiting d,
          Function.update n.nodesContacted d ((n.nodesContacted d + 1) % 2 ^ 16)⟩ with
        buffer := setAt s.buffer v d (some ⟨type, internOffset address, value, 0⟩) }
    else none
  | .recvb v =>
    let n := s.node v
    match n.phase, s.reply v with
    | .waiting d, some response =>
      let s' := { s with reply := Function.update s.reply v none }
      if response ≠ .noConflict then
        some (s'.setNode v ⟨.refused, Function.update n.nodesContacted d 0⟩)
      else some (s'.setNode v { n with phase := .running })
    | _, _ => none
  | .rlsAll v conflict =>
    let n := s.node v
    if n.phase = .running ∨ (n.phase = .refused ∧ conflict ≠ .noConflict) then
      some { s.setNode v { n with phase := .rlsAll conflict } with
        buffer := fun w d =>
          if w = v ∧ d < numDslNodes ∧ n.nodesContacted d > 0 then some (rmvNode conflict)
          else s.buffer w d
        attempt := Function.update s.attempt v []
        committed :=
          if conflict = .noConflict then s.committed ++ [s.attempt v] else s.committed }
    else none
  | .processed v d =>
    let n := s.node v
    match n.phase with
    | .rlsAll _ =>
      if d < numDslNodes ∧ s.buffer v d = none then
        some (s.setNode v { n with nodesContacted := Function.update n.nodesContacted d 0 })
      else none
    | _ => none
  | .released v =>
    let n := s.node v
    match n.phase with
    | .rlsAll conflict =>
      if ∀ d < numDslNodes, n.nodesContacted d = 0 then
        some (s.setNode v
          { n with phase := if conflict = .noConflict then .idle else .running })
      else none
    | _ => none
  | .handle d v =>
    match s.buffer v d with
    | none => none
    | some req => some (s.handle cfg d v req)

/-! ### Atomicity -/

/-- The partitions after the committed transactions, in the order of their commits. -/
def logical (s : PgasSystem) : Nat → ByteMemory :=
  Serial.after Transaction.leave (fun _ _ => 0) s.committed

/-- A commit of the node is on its way to the service node. -/
def Commits (s : PgasSystem) (v d : Nat) : Prop := s.buffer v d = some (rmvNode .noConflict)

/-- The committed transactions have a serial order, and where no commit is on its way
the partitions are as the committed transactions alone left them. -/
structure Atomic (s : PgasSystem) : Prop where
  serialisable : Serial.Serialisable Transaction.ReadsFrom Transaction.leave (fun _ _ => 0)
    s.committed
  unchanged : ∀ d, (∀ v, ¬ s.Commits v d) → (s.service d).mem = s.logical d

/-- The counters count and the locks lock: in `tm2c_rpc_rls_all` no service node has
granted a positive multiple of `2 ^ 16` requests, and no request is granted that clashes
with what another node holds at a different address. -/
def CountsAndLocks (cfg : Config) (numDslNodes : Nat) (s : PgasSystem) : PgasEvent → Prop
  | .rlsAll v _ => ∀ d < numDslNodes, (s.held v d).length % 2 ^ 16 = 0 → s.held v d = []
  | .handle d v => ∀ req ∈ s.buffer v d, req.type ≠ .rmvNode →
      let op := req.txOp (s.service d).mem
      (tryLock cfg (s.service d).locks v req.address op.rw).1 = .noConflict →
        ∀ w < cfg.numUes, w ≠ v → ∀ x ∈ s.held w d, x.address ≠ op.address → ¬ op.Clash x
  | _ => True

instance (cfg : Config) (numDslNodes : Nat) (s : PgasSystem) (e : PgasEvent) :
    Decidable (s.CountsAndLocks cfg numDslNodes e) := by
  unfold CountsAndLocks
  cases e <;> infer_instance

end PgasSystem

/-! ### Bytes -/

section Bytes

namespace TxOp

/-- Requests see the bytes that they name. -/
theorem ReadsFrom.congr {mem mem' : ByteMemory} {op : TxOp} (h : op.ReadsFrom mem)
    (hbytes : ∀ k, k < op.length → mem (op.address + k) = mem' (op.address + k)) :
    op.ReadsFrom mem' := by
  have hload : ∀ n a, (∀ k, k < n → mem (a + k) = mem' (a + k)) →
      mem.load n a = mem'.load n a := by
    intro n a hn
    unfold ByteMemory.load
    rw [ByteMemory.loadNat_congr hn]
  cases op with
  | load a w value =>
    simp only [ReadsFrom, length, address, readWords, pgasDslRead, pgasDslRead32] at h hbytes ⊢
    by_cases hw : w = 1
    · simp only [if_pos hw] at h hbytes ⊢
      rw [h, hload 4 a hbytes]
    · simp only [if_neg hw] at h hbytes ⊢
      rw [h, hload 8 a hbytes]
  | store a value => trivial
  | storeInc a increment base =>
    simp only [ReadsFrom, length, address, pgasDslRead] at h hbytes ⊢
    rw [h, hload 8 a hbytes]

/-- The write covers the byte. -/
def Covers (op : TxOp) (x : Nat) : Prop := op.rw = .write ∧ op.address ≤ x ∧ x < op.address + 8

theorem write_outside {op : TxOp} {x : Nat} (h : ¬ op.Covers x) (mem : ByteMemory) :
    op.write mem x = mem x := by
  cases op with
  | load a w value => rfl
  | store a value =>
    apply ByteMemory.store_outside
    simp only [Covers, rw, address, true_and, not_and_or] at h
    omega
  | storeInc a increment base =>
    apply ByteMemory.store_outside
    simp only [Covers, rw, address, true_and, not_and_or] at h
    omega

theorem write_inside {op : TxOp} {x : Nat} (h : op.Covers x) (mem mem' : ByteMemory) :
    op.write mem x = op.write mem' x := by
  have hstore : ∀ a (v : BitVec 64), a ≤ x → x < a + 8 →
      mem.store 8 a v x = mem'.store 8 a v x := by
    intro a v hle hlt
    obtain ⟨k, rfl⟩ := Nat.exists_eq_add_of_le hle
    have hk : k < 8 := by omega
    have hbyte : ∀ m : ByteMemory, m.store 8 a v (a + k) = BitVec.ofNat 8 (v.toNat / 256 ^ k) :=
      fun m => ByteMemory.store_inside m a v hk
    rw [hbyte, hbyte]
  cases op with
  | load a w value => cases h.1
  | store a value => exact hstore a value h.2.1 h.2.2
  | storeInc a increment base => exact hstore a (base + increment) h.2.1 h.2.2

end TxOp

/-- The writes of several requests, in order. -/
def writes (mem : ByteMemory) (ops : List TxOp) : ByteMemory :=
  ops.foldl (fun mem op => op.write mem) mem

theorem writes_outside {ops : List TxOp} {x : Nat} (h : ∀ op ∈ ops, ¬ op.Covers x)
    (mem : ByteMemory) : writes mem ops x = mem x := by
  induction ops generalizing mem with
  | nil => rfl
  | cons op ops ih =>
    have hrest := ih (fun o ho => h o (List.mem_cons_of_mem op ho)) (op.write mem)
    exact hrest.trans (TxOp.write_outside (h op List.mem_cons_self) mem)

/-- What is written does not depend on what was there. -/
theorem writes_congr {ops : List TxOp} {x : Nat} {mem mem' : ByteMemory}
    (h : (∀ op ∈ ops, ¬ op.Covers x) → mem x = mem' x) : writes mem ops x = writes mem' ops x := by
  induction ops generalizing mem mem' with
  | nil => exact h (by simp)
  | cons op ops ih =>
    apply ih
    intro hrest
    by_cases hop : op.Covers x
    · exact TxOp.write_inside hop mem mem'
    · change op.write mem x = op.write mem' x
      rw [TxOp.write_outside hop, TxOp.write_outside hop]
      apply h
      intro o ho
      rcases List.mem_cons.mp ho with rfl | ho
      · exact hop
      · exact hrest o ho

/-- The entries of a write set. -/
def entries (ops : List TxOp) : List WriteEntryPgas :=
  ops.filterMap fun op =>
    match op with
    | .load _ _ _ => none
    | .store address value => some ⟨address, value⟩
    | .storeInc address increment base => some ⟨address, base + increment⟩

theorem writeSetPgasPersist_eq {ws : WriteSetPgas} {ops : List TxOp}
    (h : ws.writeEntries = entries ops) (mem : ByteMemory) :
    writeSetPgasPersist mem ws = writes mem ops := by
  unfold writeSetPgasPersist
  rw [h]
  clear h
  induction ops generalizing mem with
  | nil => rfl
  | cons op ops ih =>
    cases op with
    | load a w value => exact ih mem
    | store a value => exact ih (pgasDslWrite mem a value)
    | storeInc a increment base => exact ih (pgasDslWrite mem a (base + increment))

theorem Transaction.leave_eq (mem : Nat → ByteMemory) (t : Transaction) (d : Nat) :
    Transaction.leave mem t d = writes (mem d) (t.opsAt d) := by
  induction t generalizing mem with
  | nil => rfl
  | cons p t ih =>
    obtain ⟨e, op⟩ := p
    change Transaction.leave (Function.update mem e (op.write (mem e))) t d = _
    rw [ih]
    by_cases he : e = d
    · subst he
      rw [Function.update_self]
      simp only [Transaction.opsAt, List.filterMap_cons, if_true]
      rfl
    · rw [Function.update_of_ne (Ne.symm he)]
      simp only [Transaction.opsAt, List.filterMap_cons, if_neg he]

theorem Transaction.opsAt_concat (t : Transaction) (e d : Nat) (op : TxOp) :
    Transaction.opsAt (t ++ [(e, op)]) d = t.opsAt d ++ if e = d then [op] else [] := by
  simp only [Transaction.opsAt, List.filterMap_append, List.filterMap_cons, List.filterMap_nil]
  by_cases he : e = d
  · simp only [if_pos he]
  · simp only [if_neg he]

theorem Transaction.mem_opsAt {t : Transaction} {d : Nat} {op : TxOp} :
    op ∈ t.opsAt d ↔ (d, op) ∈ t := by
  simp only [Transaction.opsAt, List.mem_filterMap]
  constructor
  · rintro ⟨p, hp, hop⟩
    split at hop
    · rename_i heq
      obtain rfl := Option.some.inj hop
      exact heq ▸ hp
    · cases hop
  · intro h
    exact ⟨(d, op), h, if_pos rfl⟩

end Bytes

/-! ### What a service node keeps for its senders -/

section Service

variable {cfg : Config} {s : PgasService} {held : Nat → List TxOp} {v : Nat} {req : Req}

/-- A request of a transaction. -/
def Req.IsAccess (req : Req) : Prop :=
  req.type = .load ∨ req.type = .store ∨ req.type = .storeInc

theorem Req.address_txOp (req : Req) (mem : ByteMemory) :
    (req.txOp mem).address = req.address := by
  unfold Req.txOp
  split <;> rfl

theorem Req.readsFrom_txOp (req : Req) (mem : ByteMemory) : (req.txOp mem).ReadsFrom mem := by
  unfold Req.txOp
  split <;> first | rfl | trivial

theorem TxOp.not_clash_reads {x y : TxOp} (hx : x.rw = .read) (hy : y.rw = .read) :
    ¬ x.Clash y := by
  rintro ⟨hw | hw, -⟩
  · rw [hx] at hw
    cases hw
  · rw [hy] at hw
    cases hw

theorem TxOp.Clash.symm {x y : TxOp} (h : x.Clash y) : y.Clash x :=
  ⟨h.1.symm, fun hapart => h.2 hapart.symm⟩

/-- A write and a request that do not clash have no byte in common. -/
theorem TxOp.not_covers {x y : TxOp} (h : ¬ x.Clash y) {k : Nat} (hk : k < x.length) :
    ¬ y.Covers (x.address + k) := by
  rintro ⟨hw, hle, hlt⟩
  apply h
  refine ⟨Or.inr hw, ?_⟩
  have hlength : y.length = 8 := by
    cases y with
    | load a w value => cases hw
    | store a value => rfl
    | storeInc a increment base => rfl
  unfold ByteMemory.Apart
  omega

/-- Two writes that do not clash cover no byte both. -/
theorem TxOp.Covers.not_covers {x y : TxOp} {b : Nat} (hx : x.Covers b) (h : ¬ x.Clash y) :
    ¬ y.Covers b := by
  obtain ⟨hw, hle, hlt⟩ := hx
  have hlength : x.length = 8 := by
    cases x with
    | load a w value => cases hw
    | store a value => rfl
    | storeInc a increment base => rfl
  obtain ⟨k, rfl⟩ := Nat.exists_eq_add_of_le hle
  exact TxOp.not_covers h (by omega)

/-- The service node holds for its senders what the lists say. -/
structure PgasService.Keeps (cfg : Config) (s : PgasService) (held : Nat → List TxOp) : Prop where
  locked : ∀ w x, x ∈ held w → HoldsAs s.locks x.address w x.rw
  buffered : ∀ w, (s.writeSets w).writeEntries = entries (held w)
  apart : ∀ w u x y, w ≠ u → x ∈ held w → y ∈ held u → ¬ x.Clash y
  bounded : ∀ w, held w ≠ [] → w < cfg.numUes

theorem mem_update_nil {f : Nat → List TxOp} {w : Nat} {x : TxOp}
    (h : x ∈ Function.update f v [] w) : w ≠ v ∧ x ∈ f w := by
  by_cases hw : w = v
  · subst hw
    rw [Function.update_self] at h
    cases h
  · rw [Function.update_of_ne hw] at h
    exact ⟨hw, h⟩

theorem tryLock_fst {locks : LockMap Nat Nat} {id address : Nat} {rw : RW} :
    (tryLock cfg locks id address rw).1 = .noConflict ↔
      ∃ victims, verdict cfg (fun _ => 0) locks id address rw = .grant victims := by
  unfold tryLock
  cases h : verdict cfg (fun _ => 0) locks id address rw with
  | refuse conflict =>
    refine iff_of_false (refuse_ne_noConflict h) ?_
    rintro ⟨victims, hgrant⟩
    cases hgrant
  | grant victims => exact iff_of_true rfl ⟨victims, rfl⟩

theorem tryLock_eq_grant {locks : LockMap Nat Nat} {id address : Nat} {rw : RW}
    (h : (tryLock cfg locks id address rw).1 = .noConflict) :
    tryLock cfg locks id address rw = (.noConflict, acquire locks id address rw) := by
  obtain ⟨victims, hgrant⟩ := tryLock_fst.mp h
  simp only [tryLock, hgrant]

theorem tryLock_eq_refuse {locks : LockMap Nat Nat} {id address : Nat} {rw : RW}
    (h : (tryLock cfg locks id address rw).1 ≠ .noConflict) :
    ∃ conflict, conflict ≠ .noConflict ∧ tryLock cfg locks id address rw = (conflict, locks) := by
  unfold tryLock at h ⊢
  cases hv : verdict cfg (fun _ => 0) locks id address rw with
  | refuse conflict => exact ⟨conflict, refuse_ne_noConflict hv, rfl⟩
  | grant victims =>
    rw [hv] at h
    exact absurd rfl h

/-- Without preemption a request is granted where nobody else writes. -/
theorem writer_of_tryLock (hreal : cfg.cm.isReal = false) {locks : LockMap Nat Nat}
    {id address : Nat} {rw : RW} (h : (tryLock cfg locks id address rw).1 = .noConflict) {w : Nat}
    (hw : locks.writer address = some w) : w = id := by
  obtain ⟨victims, hgrant⟩ := tryLock_fst.mp h
  have hattack : ∀ conflict, attackWriter cfg (fun _ => 0) id w conflict ≠ .grant victims := by
    intro conflict hg
    have hcm := (attackWriter_eq_grant.mp hg).2.1
    rw [hreal] at hcm
    cases hcm
  cases rw with
  | read =>
    simp only [verdict, hw] at hgrant
    exact absurd hgrant (hattack _)
  | write =>
    by_contra hne
    simp only [verdict, hw, if_pos hne] at hgrant
    exact hattack _ hgrant

/-- Without preemption a write is granted where nobody else reads. -/
theorem reader_of_tryLock (hreal : cfg.cm.isReal = false) {locks : LockMap Nat Nat}
    {id address : Nat} (h : (tryLock cfg locks id address .write).1 = .noConflict) {w : Nat}
    (hw : w < cfg.numUes) (hne : w ≠ id) : locks.reader address w = false := by
  obtain ⟨victims, hgrant⟩ := tryLock_fst.mp h
  have hreaders : ∃ conflict, attackReaders cfg (fun _ => 0) id (locks.reader address) conflict =
      .grant victims := by
    cases hwriter : locks.writer address with
    | none =>
      simp only [verdict, hwriter] at hgrant
      exact ⟨_, hgrant⟩
    | some u =>
      obtain rfl := writer_of_tryLock hreal h hwriter
      simp only [verdict, hwriter, ne_eq, not_true_eq_false, if_false] at hgrant
      exact ⟨_, hgrant⟩
  obtain ⟨conflict, hg⟩ := hreaders
  obtain ⟨hvs, hcm⟩ := attackReaders_eq_grant.mp hg
  by_contra hread
  have hmem : w ∈ victims := by
    rw [hvs, List.mem_filter, List.mem_range]
    exact ⟨hw, by simp [hne, Bool.eq_true_of_not_eq_false hread]⟩
  have hcm' := (hcm (List.ne_nil_of_mem hmem)).1
  rw [hreal] at hcm'
  cases hcm'

namespace PgasService

/-- A service node after the sender's locks and writes were dropped. -/
structure Drops (s s' : PgasService) (v : Nat) : Prop where
  locks : s'.locks = s.locks.release v
  writeEntries : ∀ w, (s'.writeSets w).writeEntries =
    if w = v then [] else (s.writeSets w).writeEntries

/-- A service node after it granted the sender a request. -/
structure Grants (s s' : PgasService) (v : Nat) (op : TxOp) : Prop where
  locks : s'.locks = acquire s.locks v op.address op.rw
  writeEntries : ∀ w, (s'.writeSets w).writeEntries =
    if w = v then (s.writeSets v).writeEntries ++ entries [op] else (s.writeSets w).writeEntries
  mem : s'.mem = s.mem

theorem drops_update (s : PgasService) (v : Nat) (mem : ByteMemory) :
    s.Drops ⟨s.locks.release v,
      Function.update s.writeSets v (writeSetPgasEmpty (s.writeSets v)), mem⟩ v where
  locks := rfl
  writeEntries w := by
    by_cases hw : w = v
    · subst hw
      simp [writeSetPgasEmpty]
    · simp [hw]

theorem grants_bufferWrite (s : PgasService) (v : Nat) {op : TxOp} {address : Nat}
    {value : BitVec 64} (haddress : op.address = address) (hrw : op.rw = .write)
    (hentry : entries [op] = [⟨address, value⟩]) :
    s.Grants (({ s with locks := acquire s.locks v address .write } :
      PgasService).bufferWrite v value address) v op where
  locks := by rw [haddress, hrw]; rfl
  writeEntries w := by
    by_cases hw : w = v
    · subst hw
      simp [bufferWrite, writeSetPgasAppend, hentry]
    · simp [bufferWrite, hw]
  mem := rfl

/-- The three requests of transactions, granted. -/
theorem dslService_grant (hreq : req.IsAccess)
    (hlock : (tryLock cfg s.locks v req.address (req.txOp s.mem).rw).1 = .noConflict) :
    ∃ reply, (s.dslService cfg v req).2 = some reply ∧ reply.response = .noConflict ∧
      s.Grants (s.dslService cfg v req).1 v (req.txOp s.mem) := by
  have hpair := tryLock_eq_grant hlock
  obtain ⟨type, address, value, txMetadata⟩ := req
  obtain rfl | rfl | rfl : type = .load ∨ type = .store ∨ type = .storeInc := hreq
  · have hpair' : tryLock cfg s.locks v address .read =
      (.noConflict, acquire s.locks v address .read) := hpair
    simp only [dslService, handleLoad, hpair', ne_eq, not_true_eq_false, if_false]
    refine ⟨_, rfl, rfl, rfl, fun w => ?_, rfl⟩
    by_cases hw : w = v
    · subst hw
      simp [Req.txOp, entries]
    · simp [hw]
  · have hpair' : tryLock cfg s.locks v address .write =
      (.noConflict, acquire s.locks v address .write) := hpair
    simp only [dslService, handleStore, hpair', ne_eq, not_true_eq_false, if_false]
    exact ⟨_, rfl, rfl, grants_bufferWrite s v rfl rfl rfl⟩
  · have hpair' : tryLock cfg s.locks v address .write =
      (.noConflict, acquire s.locks v address .write) := hpair
    simp only [dslService, handleStoreInc, hpair', ne_eq, not_true_eq_false, if_false]
    exact ⟨_, rfl, rfl, grants_bufferWrite s v rfl rfl rfl⟩

/-- The three requests of transactions, refused. -/
theorem dslService_refuse (hreq : req.IsAccess)
    (hlock : (tryLock cfg s.locks v req.address (req.txOp s.mem).rw).1 ≠ .noConflict) :
    ∃ reply, (s.dslService cfg v req).2 = some reply ∧ reply.response ≠ .noConflict ∧
      s.Drops (s.dslService cfg v req).1 v ∧ (s.dslService cfg v req).1.mem = s.mem := by
  obtain ⟨conflict, hne, hpair⟩ := tryLock_eq_refuse hlock
  have hdrops := drops_update s v s.mem
  obtain ⟨type, address, value, txMetadata⟩ := req
  obtain rfl | rfl | rfl : type = .load ∨ type = .store ∨ type = .storeInc := hreq
  · have hpair' : tryLock cfg s.locks v address .read = (conflict, s.locks) := hpair
    simp only [dslService, handleLoad, hpair', if_pos hne]
    exact ⟨_, rfl, hne, hdrops, rfl⟩
  · have hpair' : tryLock cfg s.locks v address .write = (conflict, s.locks) := hpair
    simp only [dslService, handleStore, hpair', if_pos hne]
    exact ⟨_, rfl, hne, hdrops, rfl⟩
  · have hpair' : tryLock cfg s.locks v address .write = (conflict, s.locks) := hpair
    simp only [dslService, handleStoreInc, hpair', if_pos hne]
    exact ⟨_, rfl, hne, hdrops, rfl⟩

namespace Keeps

/-- Dropping the sender's locks and writes. -/
theorem drop {s' : PgasService} (h : s.Keeps cfg held) (hdrops : s.Drops s' v) :
    s'.Keeps cfg (Function.update held v []) where
  locked w x hx := by
    obtain ⟨hne, hx⟩ := mem_update_nil hx
    rw [hdrops.locks]
    exact holdsAs_release.mpr ⟨h.locked w x hx, hne⟩
  buffered w := by
    rw [hdrops.writeEntries]
    by_cases hw : w = v
    · subst hw
      simp [entries]
    · rw [if_neg hw, Function.update_of_ne hw]
      exact h.buffered w
  apart w u x y hne hx hy := h.apart w u x y hne (mem_update_nil hx).2 (mem_update_nil hy).2
  bounded w hw := by
    by_cases hwv : w = v
    · subst hwv
      exact absurd (Function.update_self ..) hw
    · rw [Function.update_of_ne hwv] at hw
      exact h.bounded w hw

/-- Without preemption a granted request does not clash with what others hold at its address. -/
theorem not_clash (h : s.Keeps cfg held) (hreal : cfg.cm.isReal = false) {op x : TxOp}
    (hlock : (tryLock cfg s.locks v op.address op.rw).1 = .noConflict) {w : Nat} (hne : w ≠ v)
    (hx : x ∈ held w) (haddress : x.address = op.address) : ¬ op.Clash x := by
  have hheld := h.locked w x hx
  rw [haddress] at hheld
  have hw : w < cfg.numUes := h.bounded w (List.ne_nil_of_mem hx)
  cases hrw : x.rw with
  | write =>
    rw [hrw] at hheld
    exact absurd (writer_of_tryLock hreal hlock hheld) hne
  | read =>
    rw [hrw] at hheld
    cases hop : op.rw with
    | read => exact TxOp.not_clash_reads hop hrw
    | write =>
      rw [hop] at hlock
      have hfree := reader_of_tryLock hreal hlock hw hne
      exact absurd (hfree.symm.trans hheld) Bool.false_ne_true

theorem grant {s' : PgasService} {op : TxOp} (h : s.Keeps cfg held) (hreal : cfg.cm.isReal = false)
    (hv : v < cfg.numUes) (hlock : (tryLock cfg s.locks v op.address op.rw).1 = .noConflict)
    (hclash : ∀ w < cfg.numUes, w ≠ v → ∀ x ∈ held w, x.address ≠ op.address → ¬ op.Clash x)
    (hgrants : s.Grants s' v op) :
    s'.Keeps cfg (Function.update held v (held v ++ [op])) := by
  have hfree : op.rw = .write → ∀ w, s.locks.writer op.address = some w → w = v :=
    fun _ w hw => writer_of_tryLock hreal hlock hw
  have hnew : ∀ w ≠ v, ∀ x ∈ held w, ¬ op.Clash x := by
    intro w hne x hx
    by_cases haddress : x.address = op.address
    · exact h.not_clash hreal hlock hne hx haddress
    · exact hclash w (h.bounded w (List.ne_nil_of_mem hx)) hne x hx haddress
  have hmem : ∀ {w x}, x ∈ Function.update held v (held v ++ [op]) w →
      x ∈ held w ∨ (w = v ∧ x = op) := by
    intro w x hx
    by_cases hw : w = v
    · subst hw
      rw [Function.update_self, List.mem_append, List.mem_singleton] at hx
      exact hx.imp_right fun hx => ⟨rfl, hx⟩
    · rw [Function.update_of_ne hw] at hx
      exact Or.inl hx
  refine ⟨?_, ?_, ?_, ?_⟩
  · intro w x hx
    rw [hgrants.locks]
    obtain hx | ⟨rfl, rfl⟩ := hmem hx
    · exact holdsAs_acquire_of_holdsAs (h.locked w x hx) hfree
    · exact holdsAs_acquire _ _ _ _
  · intro w
    rw [hgrants.writeEntries]
    by_cases hw : w = v
    · subst hw
      rw [if_pos rfl, Function.update_self, h.buffered]
      exact List.filterMap_append.symm
    · rw [if_neg hw, Function.update_of_ne hw]
      exact h.buffered w
  · intro w u x y hne hx hy
    obtain hx' | ⟨rfl, rfl⟩ := hmem hx
    · obtain hy' | ⟨rfl, rfl⟩ := hmem hy
      · exact h.apart w u x y hne hx' hy'
      · exact fun hc => hnew w hne x hx' hc.symm
    · obtain hy' | ⟨rfl, rfl⟩ := hmem hy
      · exact hnew u (Ne.symm hne) y hy'
      · exact absurd rfl hne
  · intro w hw
    by_cases hwv : w = v
    · subst hwv
      exact hv
    · rw [Function.update_of_ne hwv] at hw
      exact h.bounded w hw

end Keeps

end PgasService

end Service

/-! ### The lock table -/

section Table

open RwEntry LawfulRwEntry

variable {E : Type} [LawfulRwEntry E] {cfg : Config} {s : Dsl E} {sender : Nat} {req : Req}

/-- The service node, with its table seen as a lock map. -/
def Dsl.partition (s : Dsl E) : PgasService := ⟨s.ht.lockMap true, s.writeSets, s.mem⟩

/-- A request that the table can take: with the byte array the sender does not write again
where it has the write lock already. -/
structure Takes (cfg : Config) (s : Dsl E) (sender : Nat) (req : Req) : Prop where
  request : req.IsAccess ∨ req.type = .rmvNode
  sender_lt : sender < idBound E
  sender_lt_numUes : sender < cfg.numUes
  address_ne : req.IsAccess → req.address ≠ 0
  write_once : exact E = true → req.type = .store ∨ req.type = .storeInc →
    (s.ht.lockMap true).writer req.address ≠ some sender

/-- A table that agrees with its logs and has locks of application nodes only. -/
structure TableInv (cfg : Config) (s : Dsl E) : Prop where
  accounted : Accounted true s.ht
  bounded : Bounded cfg (s.ht.lockMap true)

theorem tableInv_dslInit (cfg : Config) : TableInv cfg (dslInit : Dsl E) where
  accounted := accounted_sshtNew true
  bounded := by
    intro a n hn
    have hempty : (dslInit : Dsl E).ht.lockMap true = LockMap.empty := lockMap_sshtNew true
    rw [hempty] at hn
    rcases hn with hw | hr
    · cases hw
    · cases hr

theorem partition_dslInit : (dslInit : Dsl E).partition = pgasServiceNew := by
  have hempty : (dslInit : Dsl E).ht.lockMap true = LockMap.empty := lockMap_sshtNew true
  rw [Dsl.partition, hempty]
  rfl

/-- A message gives locks to nobody but its sender. -/
theorem PgasService.bounded_dslService {t : PgasService} (hbound : Bounded cfg t.locks)
    (hsender : sender < cfg.numUes) (hreq : req.IsAccess ∨ req.type = .rmvNode) :
    Bounded cfg (t.dslService cfg sender req).1.locks := by
  have hrelease : Bounded cfg (t.locks.release sender) :=
    fun a n hn => hbound a n (LockMap.holds_release.mp hn).1
  rcases hreq with haccess | htype
  · by_cases hlock :
        (tryLock cfg t.locks sender req.address (req.txOp t.mem).rw).1 = .noConflict
    · obtain ⟨-, -, -, hgrants⟩ := dslService_grant haccess hlock
      rw [hgrants.locks]
      intro a n hn
      rcases holds_acquire hn with rfl | hold
      · exact hsender
      · exact hbound a n hold
    · obtain ⟨-, -, -, hdrops, -⟩ := dslService_refuse haccess hlock
      rw [hdrops.locks]
      exact hrelease
  · simp only [PgasService.dslService, htype, PgasService.handleRmvNode]
    exact hrelease

/-- Without preemption nobody is aborted, and the timestamps do not matter. -/
theorem verdict_of_not_real (hreal : cfg.cm.isReal = false) (timestamp : Nat → Nat)
    (locks : LockMap Nat Nat) (id addr : Nat) (rw : RW) :
    verdict cfg timestamp locks id addr rw = verdict cfg (fun _ => 0) locks id addr rw ∧
    ∀ victims, verdict cfg timestamp locks id addr rw = .grant victims → victims = [] := by
  have hwriter : ∀ w conflict, attackWriter cfg timestamp id w conflict = .refuse conflict ∧
      attackWriter cfg (fun _ => 0) id w conflict = .refuse conflict := by
    intro w conflict
    unfold attackWriter
    rw [hreal]
    exact ⟨if_neg (fun hc => by cases hc.1), if_neg (fun hc => by cases hc.1)⟩
  have hreaders : ∀ readers conflict,
      attackReaders cfg timestamp id readers conflict =
        attackReaders cfg (fun _ => 0) id readers conflict ∧
      ∀ victims, attackReaders cfg timestamp id readers conflict = .grant victims →
        victims = [] := by
    intro readers conflict
    simp only [attackReaders, hreal, Bool.false_eq_true, false_and, if_false, true_and]
    intro victims hgrant
    split at hgrant
    · exact (Verdict.grant.inj hgrant).symm
    · cases hgrant
  cases rw with
  | read =>
    simp only [verdict]
    cases locks.writer addr with
    | none => exact ⟨rfl, fun victims h => (Verdict.grant.inj h).symm⟩
    | some w =>
      simp only [hwriter]
      exact ⟨trivial, fun victims h => by cases h⟩
  | write =>
    simp only [verdict]
    cases locks.writer addr with
    | none => exact hreaders _ _
    | some w =>
      by_cases hself : w ≠ id
      · simp only [if_pos hself, hwriter]
        exact ⟨trivial, fun victims h => by cases h⟩
      · simp only [if_neg hself]
        exact hreaders _ _

omit [LawfulRwEntry E] in
theorem forgetTimestamp_of_not_real (hreal : cfg.cm.isReal = false) (s : Dsl E) (sender : Nat) :
    forgetTimestamp cfg s sender = s := by
  unfold forgetTimestamp
  cases hcm : cfg.cm with
  | greedy globalTs =>
    rw [hcm] at hreal
    cases hreal
  | _ => rfl

/-- Without preemption nothing but the table changes, and only if the lock is granted. -/
theorem tm2cHtInsert_of_not_real (hreal : cfg.cm.isReal = false) (s : Dsl E) (id address : Nat)
    (rw : RW) :
    (∃ conflict, tm2cHtInsert cfg s id address rw = (conflict, s)) ∨
      ∃ t, tm2cHtInsert cfg s id address rw = (.noConflict, { s with ht := t }) := by
  cases rw with
  | read =>
    simp only [tm2cHtInsert, bucketInsertR, hreal]
    split
    · split
      · exact Or.inl ⟨_, rfl⟩
      · exact Or.inr ⟨_, rfl⟩
    · exact Or.inr ⟨_, rfl⟩
  | write =>
    simp only [tm2cHtInsert, bucketInsertW, hreal]
    split
    · split
      · exact Or.inl ⟨_, rfl⟩
      · split
        · exact Or.inl ⟨_, rfl⟩
        · exact Or.inr ⟨_, rfl⟩
    · exact Or.inr ⟨_, rfl⟩

/-- The table answers a request as its lock map does. -/
theorem tm2cHtInsert_partition (hpgas : cfg.pgas = true) (hreal : cfg.cm.isReal = false)
    (h : TableInv cfg s) (hid : sender < idBound E) {address : Nat} (haddr : address ≠ 0) (rw : RW)
    (hfree : exact E = true → rw = .write → (s.ht.lockMap true).writer address ≠ some sender) :
    (∃ conflict, conflict ≠ .noConflict ∧ tm2cHtInsert cfg s sender address rw = (conflict, s) ∧
      tryLock cfg s.partition.locks sender address rw = (conflict, s.partition.locks)) ∨
    ∃ t, tm2cHtInsert cfg s sender address rw = (.noConflict, { s with ht := t }) ∧
      Accounted true t ∧
      tryLock cfg s.partition.locks sender address rw = (.noConflict, t.lockMap true) := by
  have hcarries :=
    carries_tm2cHtInsert hpgas (Or.inr hreal) rw h.accounted h.bounded hid haddr hfree
  obtain ⟨htimestamp, hnobody⟩ :=
    verdict_of_not_real hreal s.timestamp (s.ht.lockMap true) sender address rw
  cases hv : verdict cfg s.timestamp (s.ht.lockMap true) sender address rw with
  | refuse conflict =>
    rw [hv] at hcarries
    refine Or.inl ⟨conflict, refuse_ne_noConflict hv, hcarries, ?_⟩
    simp only [tryLock, Dsl.partition, ← htimestamp, hv]
  | grant victims =>
    obtain rfl := hnobody victims hv
    rw [hv] at hcarries
    obtain ⟨hok, hacc, -, hmap⟩ := hcarries
    have hstate : ∃ t,
        tm2cHtInsert cfg s sender address rw = (.noConflict, { s with ht := t }) := by
      obtain ⟨conflict, heq⟩ | hgranted := tm2cHtInsert_of_not_real hreal s sender address rw
      · rw [heq] at hok
        exact ⟨s.ht, heq.trans (congrArg (·, s) hok)⟩
      · exact hgranted
    obtain ⟨t, ht⟩ := hstate
    rw [ht] at hacc hmap
    refine Or.inr ⟨t, ht, hacc, ?_⟩
    simp only [tryLock, Dsl.partition, ← htimestamp, hv]
    exact congrArg (Conflict.noConflict, ·) hmap.symm

theorem dslSwitch_partition (hpgas : cfg.pgas = true) (hreal : cfg.cm.isReal = false)
    (h : TableInv cfg s) (hreq : Takes cfg s sender req) :
    Accounted true (dslSwitch cfg s sender req).1.ht ∧
    ((dslSwitch cfg s sender req).1.partition, (dslSwitch cfg s sender req).2) =
      s.partition.dslService cfg sender req := by
  have hdelete := lockMap_deleteNode h.accounted hreq.sender_lt
  have hdeleted := h.accounted.deleteNode hreq.sender_lt
  -- a refusal leaves the same behind at every request
  have hrefuse : (refuse cfg s sender).partition = s.partition.refuse sender := by
    simp only [refuse, emptyWriteSet, if_pos hpgas, forgetTimestamp_of_not_real hreal,
      Dsl.partition, PgasService.refuse, hdelete]
  have hrefused : Accounted true (refuse cfg s sender).ht := by
    rw [ht_refuse]
    exact hdeleted
  obtain ⟨type, address, value, txMetadata⟩ := req
  obtain (rfl | rfl | rfl) | rfl :
    (type = .load ∨ type = .store ∨ type = .storeInc) ∨ type = .rmvNode := hreq.request
  · have haddr : address ≠ 0 := hreq.address_ne (Or.inl rfl)
    obtain ⟨conflict, hne, htable, hlock⟩ | ⟨t, htable, hacc, hlock⟩ :=
      tm2cHtInsert_partition hpgas hreal h hreq.sender_lt haddr .read
        (fun _ hrw => by cases hrw)
    · have htry : tryLoad cfg s sender address = (conflict, s) := htable
      simp only [dslSwitch, handleLoad, htry, PgasService.dslService, PgasService.handleLoad, hlock,
        if_pos hne, hrefuse, if_pos hpgas]
      exact ⟨hrefused, rfl⟩
    · have htry : tryLoad cfg s sender address = (.noConflict, { s with ht := t }) := htable
      simp only [dslSwitch, handleLoad, htry, PgasService.dslService, PgasService.handleLoad, hlock,
        if_pos hpgas]
      exact ⟨hacc, rfl⟩
  · have haddr : address ≠ 0 := hreq.address_ne (Or.inr (Or.inl rfl))
    obtain ⟨conflict, hne, htable, hlock⟩ | ⟨t, htable, hacc, hlock⟩ :=
      tm2cHtInsert_partition hpgas hreal h hreq.sender_lt haddr .write
        (fun hexact _ => hreq.write_once hexact (Or.inl rfl))
    · have htry : tryStore cfg s sender address = (conflict, s) := htable
      simp only [dslSwitch, handleStore, htry, PgasService.dslService, PgasService.handleStore,
        hlock, if_pos hne, hrefuse]
      exact ⟨hrefused, trivial⟩
    · have htry : tryStore cfg s sender address = (.noConflict, { s with ht := t }) := htable
      simp only [dslSwitch, handleStore, htry, PgasService.dslService, PgasService.handleStore,
        hlock, if_pos hpgas]
      exact ⟨hacc, rfl⟩
  · have haddr : address ≠ 0 := hreq.address_ne (Or.inr (Or.inr rfl))
    obtain ⟨conflict, hne, htable, hlock⟩ | ⟨t, htable, hacc, hlock⟩ :=
      tm2cHtInsert_partition hpgas hreal h hreq.sender_lt haddr .write
        (fun hexact _ => hreq.write_once hexact (Or.inr rfl))
    · have htry : tryStore cfg s sender address = (conflict, s) := htable
      simp only [dslSwitch, handleStoreInc, htry, PgasService.dslService,
        PgasService.handleStoreInc, hlock, if_pos hne, hrefuse, if_pos hpgas]
      exact ⟨hrefused, trivial⟩
    · have htry : tryStore cfg s sender address = (.noConflict, { s with ht := t }) := htable
      simp only [dslSwitch, handleStoreInc, htry, PgasService.dslService,
        PgasService.handleStoreInc, hlock, if_pos hpgas]
      exact ⟨hacc, rfl⟩
  · -- the release, which persists the write set when it says that the node has committed
    simp only [dslSwitch, handleRmvNode, PgasService.dslService, PgasService.handleRmvNode, hpgas,
      true_and, forgetTimestamp_of_not_real hreal, emptyWriteSet, if_true]
    by_cases hvalue : value = RESPONSE_NO_CONFLICT
    · simp only [if_pos hvalue, Dsl.partition, hdelete]
      exact ⟨hdeleted, trivial⟩
    · simp only [if_neg hvalue, Dsl.partition, hdelete]
      exact ⟨hdeleted, trivial⟩

/-- **One turn of the service loop is one turn of the partition service.** -/
theorem dslService_partition (hpgas : cfg.pgas = true) (hreal : cfg.cm.isReal = false) (now : Nat)
    (h : TableInv cfg s) (hreq : Takes cfg s sender req) :
    TableInv cfg (dslService cfg now s sender req).1 ∧
    ((dslService cfg now s sender req).1.partition, (dslService cfg now s sender req).2) =
      s.partition.dslService cfg sender req := by
  let s' : Dsl E :=
    { s with timestamp := updateTimestamp cfg now sender req.txMetadata s.timestamp }
  have hreq' : Takes cfg s' sender req :=
    ⟨hreq.request, hreq.sender_lt, hreq.sender_lt_numUes, hreq.address_ne, hreq.write_once⟩
  obtain ⟨hacc, hsame⟩ := dslSwitch_partition hpgas hreal (s := s') ⟨h.accounted, h.bounded⟩ hreq'
  refine ⟨⟨hacc, ?_⟩, hsame⟩
  have hlocks : (dslService cfg now s sender req).1.ht.lockMap true =
      (s.partition.dslService cfg sender req).1.locks :=
    congrArg (fun r : PgasService × Option Reply => r.1.locks) hsame
  rw [hlocks]
  exact PgasService.bounded_dslService h.bounded hreq.sender_lt_numUes hreq.request

/-- The messages that a service node handles, one after the other. -/
def TakesAll (cfg : Config) : Dsl E → List (Nat × Nat × Req) → Prop
  | _, [] => True
  | s, (now, sender, req) :: rest =>
    Takes cfg s sender req ∧ TakesAll cfg (dslService cfg now s sender req).1 rest

/-- **The lock map loses nothing.**  Whatever messages a service node handles over its table, its
partition and its write sets are those of the partition service. -/
theorem partition_run (hpgas : cfg.pgas = true) (hreal : cfg.cm.isReal = false)
    {es : List (Nat × Nat × Req)} (hes : TakesAll cfg (dslInit : Dsl E) es) :
    (es.foldl (fun s e => (dslService cfg e.1 s e.2.1 e.2.2).1) (dslInit : Dsl E)).partition =
      es.foldl (fun t e => (t.dslService cfg e.2.1 e.2.2).1) pgasServiceNew := by
  have hrun : ∀ (es : List (Nat × Nat × Req)) (s : Dsl E), TableInv cfg s → TakesAll cfg s es →
      (es.foldl (fun s e => (dslService cfg e.1 s e.2.1 e.2.2).1) s).partition =
        es.foldl (fun t e => (t.dslService cfg e.2.1 e.2.2).1) s.partition := by
    intro es
    induction es with
    | nil => exact fun _ _ _ => rfl
    | cons e es ih =>
      intro s h hes
      obtain ⟨htakes, hrest⟩ := hes
      obtain ⟨h', hsame⟩ := dslService_partition hpgas hreal e.1 h htakes
      rw [List.foldl_cons, List.foldl_cons, ih _ h' hrest, ← hsame]
  rw [hrun es dslInit (tableInv_dslInit cfg) hes, partition_dslInit]

end Table

end TM2C
