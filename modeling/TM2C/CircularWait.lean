import Mathlib.Logic.Relation
import TM2C.Insertion
import TM2C.System

/-!
# Who waits for whom

The macros of `include/tm2c.h` are lists of statements here, all commit macros among
them, for the builds without PGAS and with a real contention manager.  Between an
application node and a service node there is room for one message in each direction:
`ssmp_send` waits until the buffer is free, and a request waits for its reply.  A
service node in `abort_node` waits as long as the flag of its victim reads
`PERSISTING_WRITES`, and handles no message meanwhile.  A node whose flag reads so is
between `TXPERSISTING` and `TXCOMMITTED`, where nobody waits.

`Cores` has the tables themselves, in either encoding, and every commit macro, also in the order
in which it writes the flag.  Where a node stands in its code is a list of statements still to
run, and `InOrder` says of such a list that `TXPERSISTING`, the writes and `TXCOMMITTED` follow
each other with nothing in between that waits.  The invariant `Ordered` is that every node's code
is in order and agrees with its flag; `OwnStep` and `DslStep` say what a step of a node and one
of a service node may do to it.

The waiting is a relation on nodes and service nodes (`Waits`).  Along each edge the number `rank`
goes down, from nodes that wait for a reply or a buffer over service nodes that spin to nodes
that persist, which wait for nobody (`Ordered.rank_lt`).  So there is no cycle, in any state that
can be reached.
-/

namespace TM2C

open RwEntry Transition

/-! ### The macros -/

/-- The statements of the macros and of what they call. -/
inductive Stmt where
  -- `TXCHKABORTED`
  | chkAborted
  -- `tm2c_rpc_load` or `tm2c_rpc_store`, and the `TX_ABORT` of a conflict
  | acquire (rw : RW) (address : Nat)
  -- `write_set_insert`; the value may be made from the word in memory
  | insert (address : Nat) (value : BitVec 32 → BitVec 32)
  -- in `tm2c_rpc_store_all`, before entry `locked`
  | storeAll (locked : Nat)
  -- `TXPERSISTING`
  | persisting
  -- in `write_set_persist`, before entry `i`
  | persist (i : Nat)
  -- `TXCOMMITTED`
  | committed
  -- in `tm2c_rpc_rls_all`, before service node `seq`
  | rlsAll (seq : Nat)
  -- `tm2c_rpc_load_rls` or `tm2c_rpc_store_rls`
  | release (rw : RW) (address : Nat)
  -- `tm2c_rpc_dummy`
  | dummy (seq : Nat)
  -- `TXRUNNING`
  | running
  -- `WSET_EMPTY`
  | wsetEmpty
  -- `tm2c_tx_meta_empty`
  | metaEmpty

/-- `tm2c_handle_abort` and `TX_START` after `siglongjmp`. -/
def txAbort : List Stmt := [.rlsAll 0, .wsetEmpty, .running]

def wlocksAcquire (cfg : Config) : List Stmt := if cfg.eagerWriteAcq then [] else [.storeAll 0]

/-- The commit macros differ in the statistics and in `mem_info_on_commit`, too. -/
def CommitMacro.stmts (cfg : Config) : CommitMacro → List Stmt
  | .txCommit =>
    wlocksAcquire cfg ++ [.persisting, .persist 0, .committed, .rlsAll 0, .metaEmpty]
  | .txCommitMem =>
    wlocksAcquire cfg ++ [.persisting, .persist 0, .committed, .rlsAll 0, .metaEmpty]
  | .txCommitNoStats =>
    wlocksAcquire cfg ++ [.persisting, .persist 0, .committed, .rlsAll 0, .metaEmpty]
  | .txCommitNoPubNoStats => [.persisting, .persist 0, .committed, .rlsAll 0, .metaEmpty]
  | .txCommitNoPub => [.persisting, .persist 0, .committed, .rlsAll 0, .metaEmpty]

/-- What a program may do next; before `TX_START` only that and `DUMMY_MSG`. -/
inductive TxMacro where
  | txStart
  | dummyMsg (target : Nat)
  | txLoad (address : Nat)
  | txStore (address : Nat) (value : BitVec 32)
  | txLoadStore (address : Nat) (op : BitVec 32 → BitVec 32)
  | txRrls (address : Nat)
  | txWrls (address : Nat)
  | txAbort
  | commit (c : CommitMacro)

def TxMacro.outside : TxMacro → Bool
  | .txStart => true
  | _ => false

/-- `tx_wlock` -/
def txWlockStmts (address : Nat) : List Stmt := [.chkAborted, .acquire .write address]

def TxMacro.stmts (cfg : Config) (writeSet : WriteSet) : TxMacro → List Stmt
  | .txStart => [.running]
  | .dummyMsg target => [.dummy target]
  | .txLoad address =>
    match writeSetContains writeSet address with
    | some _ => []
    | none => [.chkAborted, .acquire .read address]
  | .txStore address value =>
    (if cfg.eagerWriteAcq then txWlockStmts address else []) ++
      [.chkAborted, .insert address fun _ => value]
  | .txLoadStore address op => txWlockStmts address ++ [.insert address op]
  | .txRrls address => [.release .read address]
  | .txWrls address => [.release .write address]
  | .txAbort => TM2C.txAbort
  | .commit c => c.stmts cfg

/-! ### The state -/

/-- An application node: what is left of a macro, and the service node whose reply
`tm2c_rpc_recvb` waits for. -/
structure AppCore where
  inTx : Bool
  code : List Stmt
  recvFrom : Option Nat
  writeSet : WriteSet
  nodesContacted : Nat → Nat

def appCoreNew : AppCore := ⟨false, [], none, writeSetNew, fun _ => 0⟩

/-- An insertion whose victims are still to be aborted. -/
structure Inserting where
  sender : Nat
  address : Nat
  rw : RW
  slot : Option SlotPtr
  reason : Conflict
  victims : List Nat

structure DslCore (E : Type) where
  ht : Ssht E
  timestamp : Nat → Nat
  inserting : Option Inserting

/-- All nodes, the abort flags, the message buffers and the shared memory. -/
structure Cores (E : Type) where
  app : Nat → AppCore
  abortFlag : Nat → Conflict
  -- from an application node to a service node
  buffer : Nat → Nat → Option Req
  -- from a service node to an application node
  reply : Nat → Nat → Option Conflict
  dsl : Nat → DslCore E
  mem : Nat → BitVec 32

def coresInit {E : Type} [RwEntry E] (mem : Nat → BitVec 32) : Cores E where
  app _ := appCoreNew
  abortFlag _ := .noConflict
  buffer _ _ := none
  reply _ _ := none
  dsl _ := ⟨sshtNew, fun _ => 0, none⟩
  mem := mem

inductive CoreEvent where
  | call (v : Nat) (m : TxMacro)
  -- the next statement, or the sending half of a request
  | stmt (v txMetadata : Nat)
  | recvb (v : Nat)
  | handle (d v now : Nat)
  -- one compare-and-swap of `abort_node`, and `tm2c_ht_delete_node` when it is the last
  | abortNode (d : Nat)
  | grant (d : Nat)

namespace Cores

variable {E : Type}

/-! ### The steps of an application node -/

def setApp (s : Cores E) (v : Nat) (n : AppCore) : Cores E :=
  { s with app := Function.update s.app v n }

def goto (s : Cores E) (v : Nat) (code : List Stmt) : Cores E :=
  s.setApp v { s.app v with code := code }

/-- A program calls a macro when the one before has returned. -/
def call (cfg : Config) (s : Cores E) (v : Nat) (m : TxMacro) : Option (Cores E) :=
  match (s.app v).code, m with
  | [], .dummyMsg target => some (s.goto v [.dummy target])
  | [], m =>
    if m.outside = (s.app v).inTx then none
    else some (s.setApp v
      { s.app v with inTx := true, code := m.stmts cfg (s.app v).writeSet })
  | _ :: _, _ => none

/-- `ssmp_send`, which goes on when the buffer is free. -/
def sendb (s : Cores E) (v d : Nat) (req : Req) (n : AppCore) : Option (Cores E) :=
  match s.buffer v d with
  | some _ => none
  | none => some { s.setApp v n with
      buffer := Function.update s.buffer v (Function.update (s.buffer v) d (some req)) }

def RW.reqType : RW → ReqType
  | .read => .load
  | .write => .store

def RW.rlsType : RW → ReqType
  | .read => .loadRls
  | .write => .storeFinish

/-- `x += k` of a `uint16_t`. -/
def contact (n : AppCore) (d k : Nat) : AppCore :=
  { n with nodesContacted :=
      Function.update n.nodesContacted d ((n.nodesContacted d + k) % 2 ^ 16) }

/-- One statement of a node that waits for no reply. -/
def stmt (cl : Cluster) (s : Cores E) (v txMetadata : Nat) : Option (Cores E) :=
  let n := s.app v
  match n.recvFrom, n.code with
  | none, .chkAborted :: rest =>
    some (s.goto v (if s.abortFlag v ≠ .noConflict then txAbort else rest))
  | none, .acquire rw address :: _ =>
    let d := cl.responsibleNode address
    s.sendb v d ⟨RW.reqType rw, address, 0, txMetadata⟩
      { contact n d 1 with recvFrom := some d }
  | none, .insert address value :: rest =>
    (writeSetInsert n.writeSet .typeInt (value (s.mem address)) address).map fun writeSet =>
      s.setApp v { n with code := rest, writeSet := writeSet }
  | none, .storeAll locked :: rest =>
    match n.writeSet.writeEntries[locked]? with
    | some we => some (s.goto v (txWlockStmts we.address ++ .storeAll (locked + 1) :: rest))
    | none => some (s.goto v rest)
  | none, .persisting :: rest =>
    if s.abortFlag v = .noConflict then
      some { s.goto v rest with
        abortFlag := Function.update s.abortFlag v .persistingWrites }
    else some (s.goto v txAbort)
  | none, .persist i :: rest =>
    match n.writeSet.writeEntries[i]? with
    | some we => some { s.goto v (.persist (i + 1) :: rest) with
        mem := Function.update s.mem we.address we.i }
    | none => some (s.goto v rest)
  | none, .committed :: rest =>
    some { s.goto v rest with abortFlag := Function.update s.abortFlag v .txCommitted }
  | none, .rlsAll seq :: rest =>
    if seq < cl.numDslNodes then
      if n.nodesContacted seq > 0 then
        s.sendb v seq ⟨.rmvNode, 0, 0, txMetadata⟩ { n with
          code := .rlsAll (seq + 1) :: rest
          nodesContacted := Function.update n.nodesContacted seq 0 }
      else some (s.goto v (.rlsAll (seq + 1) :: rest))
    else some (s.goto v rest)
  | none, .release rw address :: rest =>
    let d := cl.responsibleNode address
    s.sendb v d ⟨RW.rlsType rw, address, 0, txMetadata⟩
      { contact n d (2 ^ 16 - 1) with code := rest }
  | none, .dummy seq :: _ =>
    s.sendb v seq ⟨.unknown, 0, 0, txMetadata⟩ { n with recvFrom := some seq }
  | none, .running :: rest =>
    some { s.goto v rest with abortFlag := Function.update s.abortFlag v .noConflict }
  | none, .wsetEmpty :: rest =>
    some (s.setApp v { n with code := rest, writeSet := writeSetEmpty n.writeSet })
  | none, .metaEmpty :: rest =>
    some (s.setApp v { n with
      inTx := false, code := rest, writeSet := writeSetEmpty n.writeSet })
  | _, _ => none

/-- What a reply makes of the statement that asked. -/
def answered (n : AppCore) (d : Nat) (response : Conflict) : AppCore :=
  match n.code with
  | .acquire _ _ :: rest =>
    if response ≠ .noConflict then
      { n with
        code := txAbort
        recvFrom := none
        nodesContacted := Function.update n.nodesContacted d 0 }
    else { n with code := rest, recvFrom := none }
  | code => { n with code := code.tail, recvFrom := none }

/-- `tm2c_rpc_recvb` -/
def recvb (s : Cores E) (v : Nat) : Option (Cores E) :=
  match (s.app v).recvFrom with
  | none => none
  | some d => (s.reply d v).map fun response =>
      { s.setApp v (answered (s.app v) d response) with
        reply := Function.update s.reply d (Function.update (s.reply d) v none) }

/-! ### The steps of a service node -/

def setDsl (s : Cores E) (d : Nat) (n : DslCore E) : Cores E :=
  { s with dsl := Function.update s.dsl d n }

def setReply (s : Cores E) (d v : Nat) (response : Conflict) : Cores E :=
  { s with reply := Function.update s.reply d (Function.update (s.reply d) v (some response)) }

/-- `cm_metadata_core[sender].timestamp = 0` under GREEDY. -/
def resetTimestamp (cfg : Config) (timestamp : Nat → Nat) (sender : Nat) : Nat → Nat :=
  match cfg.cm with
  | .greedy _ => Function.update timestamp sender 0
  | _ => timestamp

variable [RwEntry E]

/-- `try_load` or `try_store` up to its first `abort_node`. -/
def tryInsert (cfg : Config) (s : Cores E) (d : Nat) (n : DslCore E) (v address : Nat) (rw : RW) :
    Cores E :=
  match insertion cfg n.timestamp n.ht v address rw with
  | .refuse conflict =>
    (s.setDsl d ⟨tm2cHtDeleteNode n.ht v, resetTimestamp cfg n.timestamp v, none⟩).setReply d v
      conflict
  | .grant slot reason victims =>
    s.setDsl d { n with inserting := some ⟨v, address, rw, slot, reason, victims⟩ }

def handle (cfg : Config) (s : Cores E) (d v now : Nat) : Option (Cores E) :=
  match (s.dsl d).inserting, s.buffer v d with
  | none, some req =>
    let n : DslCore E := { s.dsl d with
      timestamp := updateTimestamp cfg now v req.txMetadata (s.dsl d).timestamp }
    let s' : Cores E := { s with
      buffer := Function.update s.buffer v (Function.update (s.buffer v) d none) }
    match req.type with
    | .load => some (s'.tryInsert cfg d n v req.address .read)
    | .store => some (s'.tryInsert cfg d n v req.address .write)
    | .rmvNode =>
      some (s'.setDsl d ⟨tm2cHtDeleteNode n.ht v, resetTimestamp cfg n.timestamp v, none⟩)
    | .loadRls => some (s'.setDsl d { n with ht := tm2cHtDelete n.ht v req.address .read })
    | .storeFinish => some (s'.setDsl d { n with ht := tm2cHtDelete n.ht v req.address .write })
    | .loadNontx | .storeNontx | .storeInc | .unknown =>
      some ((s'.setDsl d n).setReply d v .noConflict)
  | _, _ => none

def abortNode (s : Cores E) (d : Nat) : Option (Cores E) :=
  match (s.dsl d).inserting with
  | some ⟨sender, address, rw, slot, reason, victim :: victims⟩ =>
    if s.abortFlag victim = .persistingWrites then some s
    else some { s.setDsl d { s.dsl d with
        ht := tm2cHtDeleteNode (s.dsl d).ht victim
        inserting := some ⟨sender, address, rw, slot, reason, victims⟩ } with
      abortFlag := Function.update s.abortFlag victim (casAbortFlag (s.abortFlag victim) reason) }
  | _ => none

def grant (cfg : Config) (s : Cores E) (d : Nat) : Option (Cores E) :=
  match (s.dsl d).inserting with
  | some ⟨sender, address, rw, slot, _, []⟩ =>
    some ((s.setDsl d { s.dsl d with
      ht := enterLock (s.dsl d).ht (bucketOf cfg.pgas address) slot sender address rw
      inserting := none }).setReply d sender .noConflict)
  | _ => none

def step (cl : Cluster) (s : Cores E) : CoreEvent → Option (Cores E)
  | .call v m => s.call cl.cfg v m
  | .stmt v txMetadata => s.stmt cl v txMetadata
  | .recvb v => s.recvb v
  | .handle d v now => s.handle cl.cfg d v now
  | .abortNode d => s.abortNode d
  | .grant d => s.grant cl.cfg d

/-! ### Waiting -/

/-- The service node to which the next statement sends a message. -/
def sendTarget (cl : Cluster) (n : AppCore) : Option Nat :=
  match n.code with
  | .acquire _ address :: _ | .release _ address :: _ => some (cl.responsibleNode address)
  | .dummy seq :: _ => some seq
  | .rlsAll seq :: _ =>
    if seq < cl.numDslNodes ∧ n.nodesContacted seq > 0 then some seq else none
  | _ => none

/-- In `write_set_persist`, or before `set_tx_committed`. -/
def Persists (n : AppCore) : Prop :=
  (∃ i rest, n.code = .persist i :: rest) ∨ ∃ rest, n.code = .committed :: rest

omit [RwEntry E]

/-- For the reply to its request. -/
def AwaitsReply (s : Cores E) (v d : Nat) : Prop :=
  (s.app v).recvFrom = some d ∧ s.reply d v = none

/-- For the message before to be consumed. -/
def AwaitsBuffer (cl : Cluster) (s : Cores E) (v d : Nat) : Prop :=
  (s.app v).recvFrom = none ∧ sendTarget cl (s.app v) = some d ∧ s.buffer v d ≠ none

/-- `abort_node` spins on the flag of a node. -/
def Spins (s : Cores E) (d v : Nat) : Prop :=
  (∃ ins victims, (s.dsl d).inserting = some ins ∧ ins.victims = v :: victims) ∧
    s.abortFlag v = .persistingWrites

/-- Waits of an application node (left) and of a service node (right). -/
inductive Waits (cl : Cluster) (s : Cores E) : Nat ⊕ Nat → Nat ⊕ Nat → Prop
  | reply {v d : Nat} : s.AwaitsReply v d → Waits cl s (.inl v) (.inr d)
  | buffer {v d : Nat} : s.AwaitsBuffer cl v d → Waits cl s (.inl v) (.inr d)
  | flag {d v : Nat} : s.Spins d v → Waits cl s (.inr d) (.inl v)

end Cores

/-! ### The order of the macros -/

/-- Neither `TXPERSISTING` nor what stands between it and `TXCOMMITTED`. -/
def Stmt.plain : Stmt → Bool
  | .persisting | .persist _ | .committed => false
  | _ => true

/-- A request, which has a reply. -/
def Stmt.asks : Stmt → Bool
  | .acquire _ _ | .dummy _ => true
  | _ => false

def Plain (code : List Stmt) : Prop := ∀ x ∈ code, x.plain = true

/-- What is left of a macro, and whether the flag reads `PERSISTING_WRITES`: it does
between `TXPERSISTING` and `TXCOMMITTED`, with only `write_set_persist` in between. -/
inductive InOrder : Bool → List Stmt → Prop
  | plain {code : List Stmt} : Plain code → InOrder false code
  | commit {before after : List Stmt} : Plain before → Plain after →
      InOrder false (before ++ .persisting :: .persist 0 :: .committed :: after)
  | persist {i : Nat} {after : List Stmt} : Plain after →
      InOrder true (.persist i :: .committed :: after)
  | committed {after : List Stmt} : Plain after → InOrder true (.committed :: after)

theorem Plain.append {code code' : List Stmt} (h : Plain code) (h' : Plain code') :
    Plain (code ++ code') := by
  intro x hx
  obtain hx | hx := List.mem_append.mp hx
  · exact h x hx
  · exact h' x hx

theorem Plain.tail {x : Stmt} {code : List Stmt} (h : Plain (x :: code)) : Plain code :=
  fun y hy => h y (List.mem_cons_of_mem x hy)

theorem plain_txAbort : Plain txAbort := by
  intro x hx
  simp only [txAbort, List.mem_cons, List.not_mem_nil, or_false] at hx
  obtain rfl | rfl | rfl := hx <;> rfl

theorem plain_txWlockStmts (address : Nat) : Plain (txWlockStmts address) := by
  intro x hx
  simp only [txWlockStmts, List.mem_cons, List.not_mem_nil, or_false] at hx
  obtain rfl | rfl := hx <;> rfl

/-- A plain statement is followed by what it may be replaced with. -/
theorem InOrder.replace {b : Bool} {x : Stmt} {rest : List Stmt} (h : InOrder b (x :: rest))
    (hx : x.plain = true) {code : List Stmt} (hcode : Plain code) :
    b = false ∧ InOrder false (code ++ rest) := by
  generalize hlist : x :: rest = list at h
  cases h with
  | plain hplain =>
    subst hlist
    exact ⟨rfl, .plain (hcode.append hplain.tail)⟩
  | @commit before after hbefore hafter =>
    cases before with
    | nil =>
      cases hlist
      cases hx
    | cons y before =>
      cases hlist
      have hcommit := InOrder.commit (hcode.append hbefore.tail) hafter
      rw [List.append_assoc] at hcommit
      exact ⟨rfl, hcommit⟩
  | persist hafter =>
    cases hlist
    cases hx
  | committed hafter =>
    cases hlist
    cases hx

theorem InOrder.tail {b : Bool} {x : Stmt} {rest : List Stmt} (h : InOrder b (x :: rest))
    (hx : x.plain = true) : b = false ∧ InOrder false rest :=
  h.replace hx (fun _ hy => absurd hy List.not_mem_nil)

/-- Every commit macro has the three in order. -/
theorem inOrder_commit (cfg : Config) (c : CommitMacro) : InOrder false (c.stmts cfg) := by
  have hrls : Plain [.rlsAll 0, .metaEmpty] := by
    intro x hx
    simp only [List.mem_cons, List.not_mem_nil, or_false] at hx
    obtain rfl | rfl := hx <;> rfl
  have hwlocks : Plain (wlocksAcquire cfg) := by
    intro x hx
    unfold wlocksAcquire at hx
    split at hx
    · cases hx
    · rw [List.mem_singleton.mp hx]
      rfl
  have hnone : Plain [] := fun _ hy => absurd hy List.not_mem_nil
  cases c with
  | txCommit => exact .commit hwlocks hrls
  | txCommitMem => exact .commit hwlocks hrls
  | txCommitNoStats => exact .commit hwlocks hrls
  | txCommitNoPubNoStats => exact .commit hnone hrls
  | txCommitNoPub => exact .commit hnone hrls

theorem inOrder_stmts (cfg : Config) (writeSet : WriteSet) (m : TxMacro) :
    InOrder false (m.stmts cfg writeSet) := by
  have hone : ∀ x : Stmt, x.plain = true → Plain [x] := by
    intro x hx y hy
    rw [List.mem_singleton.mp hy]
    exact hx
  cases m with
  | txStart => exact .plain (hone _ rfl)
  | dummyMsg _ => exact .plain (hone _ rfl)
  | txLoad address =>
    refine .plain ?_
    simp only [TxMacro.stmts]
    split
    · exact fun _ hy => absurd hy List.not_mem_nil
    · exact (hone .chkAborted rfl).append (hone (.acquire .read address) rfl)
  | txStore address value =>
    refine .plain (Plain.append ?_ ?_)
    · split
      · exact plain_txWlockStmts address
      · exact fun _ hy => absurd hy List.not_mem_nil
    · exact (hone .chkAborted rfl).append (hone (.insert address _) rfl)
  | txLoadStore address op =>
    exact .plain ((plain_txWlockStmts address).append (hone (.insert address op) rfl))
  | txRrls address => exact .plain (hone _ rfl)
  | txWrls address => exact .plain (hone _ rfl)
  | txAbort => exact .plain plain_txAbort
  | commit c => exact inOrder_commit cfg c

theorem InOrder.persisting_cons {b : Bool} {rest : List Stmt}
    (h : InOrder b (.persisting :: rest)) :
    b = false ∧ ∃ after, rest = .persist 0 :: .committed :: after ∧ Plain after := by
  generalize hlist : Stmt.persisting :: rest = list at h
  cases h with
  | plain hplain =>
    subst hlist
    cases hplain _ List.mem_cons_self
  | @commit before after hbefore hafter =>
    cases before with
    | nil =>
      cases hlist
      exact ⟨rfl, after, rfl, hafter⟩
    | cons y before =>
      cases hlist
      cases hbefore _ List.mem_cons_self
  | persist => cases hlist
  | committed => cases hlist

theorem InOrder.persist_cons {b : Bool} {i : Nat} {rest : List Stmt}
    (h : InOrder b (.persist i :: rest)) :
    b = true ∧ ∃ after, rest = .committed :: after ∧ Plain after := by
  generalize hlist : Stmt.persist i :: rest = list at h
  cases h with
  | plain hplain =>
    subst hlist
    cases hplain _ List.mem_cons_self
  | @commit before after hbefore hafter =>
    cases before with
    | nil => cases hlist
    | cons y before =>
      cases hlist
      cases hbefore _ List.mem_cons_self
  | @persist _ after hafter =>
    cases hlist
    exact ⟨rfl, after, rfl, hafter⟩
  | committed => cases hlist

theorem InOrder.committed_cons {b : Bool} {rest : List Stmt}
    (h : InOrder b (.committed :: rest)) : b = true ∧ Plain rest := by
  generalize hlist : Stmt.committed :: rest = list at h
  cases h with
  | plain hplain =>
    subst hlist
    cases hplain _ List.mem_cons_self
  | @commit before after hbefore hafter =>
    cases before with
    | nil => cases hlist
    | cons y before =>
      cases hlist
      cases hbefore _ List.mem_cons_self
  | persist => cases hlist
  | committed hafter =>
    cases hlist
    exact ⟨rfl, hafter⟩

namespace Cores

/-! ### The invariant -/

/-- Where a node is in its macro agrees with its flag and with whether it waits for a
reply. -/
structure NodeInOrder (n : AppCore) (flag : Conflict) : Prop where
  order : InOrder (decide (flag = .persistingWrites)) n.code
  asking : n.recvFrom ≠ none → ∃ x rest, n.code = x :: rest ∧ x.asks = true

structure Ordered {E : Type} (s : Cores E) : Prop where
  node : ∀ v, NodeInOrder (s.app v) (s.abortFlag v)
  reason : ∀ d ins, (s.dsl d).inserting = some ins → ins.reason.isReason

theorem NodeInOrder.persists {n : AppCore} (h : NodeInOrder n .persistingWrites) : Persists n := by
  have horder : InOrder true n.code := h.order
  generalize hcode : n.code = code at horder
  cases horder with
  | persist => exact Or.inl ⟨_, _, hcode⟩
  | committed => exact Or.inr ⟨_, hcode⟩

/-- A node that persists waits neither for a reply nor for room in a buffer. -/
theorem NodeInOrder.recvFrom_of_persists {n : AppCore} {flag : Conflict} (h : NodeInOrder n flag)
    (hpersists : Persists n) : n.recvFrom = none := by
  by_contra hrecv
  obtain ⟨x, rest, hcode, hasks⟩ := h.asking hrecv
  obtain ⟨i, rest', hcode'⟩ | ⟨rest', hcode'⟩ := hpersists
  · rw [hcode, List.cons.injEq] at hcode'
    rw [hcode'.1] at hasks
    cases hasks
  · rw [hcode, List.cons.injEq] at hcode'
    rw [hcode'.1] at hasks
    cases hasks

theorem sendTarget_of_persists (cl : Cluster) {n : AppCore} (h : Persists n) :
    sendTarget cl n = none := by
  obtain ⟨i, rest, hcode⟩ | ⟨rest, hcode⟩ := h
  · simp only [sendTarget, hcode]
  · simp only [sendTarget, hcode]

/-- A node that waits for no reply, with plain statements before it. -/
theorem NodeInOrder.plain {n n' : AppCore} {flag : Conflict} (h : NodeInOrder n flag) {x : Stmt}
    {rest : List Stmt} (hcode : n.code = x :: rest) (hx : x.plain = true) {code : List Stmt}
    (hplain : Plain code) (hcode' : n'.code = code ++ rest) (hrecv : n'.recvFrom = none) :
    NodeInOrder n' flag := by
  have horder := h.order
  rw [hcode] at horder
  obtain ⟨hflag, hnext⟩ := horder.replace hx hplain
  refine ⟨?_, fun hne => absurd hrecv hne⟩
  rw [hflag, hcode']
  exact hnext

theorem nodeInOrder_of_plain {n : AppCore} {flag : Conflict} (hflag : flag ≠ .persistingWrites)
    (hcode : InOrder false n.code) (hrecv : n.recvFrom = none) : NodeInOrder n flag := by
  refine ⟨?_, fun hne => absurd hrecv hne⟩
  rw [decide_eq_false hflag]
  exact hcode

theorem NodeInOrder.flag_ne {n : AppCore} {flag : Conflict} (h : NodeInOrder n flag) {x : Stmt}
    {rest : List Stmt} (hcode : n.code = x :: rest) (hx : x.plain = true) :
    flag ≠ .persistingWrites := by
  have horder := h.order
  rw [hcode] at horder
  exact of_decide_eq_false (horder.tail hx).1

section Steps

variable {E : Type}

/-- What a step of an application node touches. -/
structure OwnStep (s s' : Cores E) (v : Nat) : Prop where
  app : ∀ u, u ≠ v → s'.app u = s.app u
  flag : ∀ u, u ≠ v → s'.abortFlag u = s.abortFlag u
  dsl : s'.dsl = s.dsl
  inOrder : NodeInOrder (s'.app v) (s'.abortFlag v)

theorem ownStep_of {s s' : Cores E} {v : Nat} {n : AppCore} {flag : Conflict}
    (happ : s'.app = Function.update s.app v n)
    (hflag : s'.abortFlag = Function.update s.abortFlag v flag) (hdsl : s'.dsl = s.dsl)
    (h : NodeInOrder n flag) : OwnStep s s' v where
  app u hu := by rw [happ, Function.update_of_ne hu]
  flag u hu := by rw [hflag, Function.update_of_ne hu]
  dsl := hdsl
  inOrder := by
    rw [happ, hflag, Function.update_self, Function.update_self]
    exact h

/-- A step that leaves the flags alone. -/
theorem ownStep_app {s s' : Cores E} {v : Nat} {n : AppCore}
    (happ : s'.app = Function.update s.app v n) (hflag : s'.abortFlag = s.abortFlag)
    (hdsl : s'.dsl = s.dsl) (h : NodeInOrder n (s.abortFlag v)) : OwnStep s s' v :=
  ownStep_of happ (hflag.trans (Function.update_eq_self _ _).symm) hdsl h

theorem sendb_eq_some {s s' : Cores E} {v d : Nat} {req : Req} {n : AppCore}
    (h : s.sendb v d req n = some s') :
    s'.app = Function.update s.app v n ∧ s'.abortFlag = s.abortFlag ∧ s'.dsl = s.dsl := by
  unfold sendb at h
  cases hbuffer : s.buffer v d with
  | some _ =>
    rw [hbuffer] at h
    cases h
  | none =>
    simp only [hbuffer, Option.some.injEq] at h
    subst h
    exact ⟨rfl, rfl, rfl⟩

theorem ownStep_sendb {s s' : Cores E} {v d : Nat} {req : Req} {n : AppCore}
    (hsend : s.sendb v d req n = some s') (h : NodeInOrder n (s.abortFlag v)) :
    OwnStep s s' v := by
  obtain ⟨happ, hflag, hdsl⟩ := sendb_eq_some hsend
  exact ownStep_app happ hflag hdsl h

/-- `TXPERSISTING` sets the flag, or aborts where the node was killed. -/
theorem ownStep_persisting {cl : Cluster} {s s' : Cores E} {v txMetadata : Nat} {rest : List Stmt}
    (h : NodeInOrder (s.app v) (s.abortFlag v)) (hrecv : (s.app v).recvFrom = none)
    (hcode : (s.app v).code = .persisting :: rest)
    (hstep : s.stmt cl v txMetadata = some s') : OwnStep s s' v := by
  simp only [stmt, hrecv, hcode] at hstep
  have horder := h.order
  rw [hcode] at horder
  obtain ⟨hunset, after, rfl, hafter⟩ := horder.persisting_cons
  by_cases hflag : s.abortFlag v = .noConflict
  · simp only [if_pos hflag] at hstep
    cases hstep
    exact ownStep_of rfl rfl rfl ⟨.persist hafter, fun hne => absurd hrecv hne⟩
  · simp only [if_neg hflag] at hstep
    cases hstep
    exact ownStep_app rfl rfl rfl
      (nodeInOrder_of_plain (of_decide_eq_false hunset) (.plain plain_txAbort) hrecv)

/-- One entry is written, or `TXCOMMITTED` is next. -/
theorem ownStep_persist {cl : Cluster} {s s' : Cores E} {v txMetadata i : Nat} {rest : List Stmt}
    (h : NodeInOrder (s.app v) (s.abortFlag v)) (hrecv : (s.app v).recvFrom = none)
    (hcode : (s.app v).code = .persist i :: rest)
    (hstep : s.stmt cl v txMetadata = some s') : OwnStep s s' v := by
  simp only [stmt, hrecv, hcode] at hstep
  have horder := h.order
  rw [hcode] at horder
  obtain ⟨hflag, after, rfl, hafter⟩ := horder.persist_cons
  cases hentry : (s.app v).writeSet.writeEntries[i]? with
  | none =>
    simp only [hentry] at hstep
    cases hstep
    refine ownStep_app rfl rfl rfl ⟨?_, fun hne => absurd hrecv hne⟩
    rw [hflag]
    exact .committed hafter
  | some we =>
    simp only [hentry] at hstep
    cases hstep
    refine ownStep_app rfl rfl rfl ⟨?_, fun hne => absurd hrecv hne⟩
    rw [hflag]
    exact .persist hafter

/-- By cases on the statement that comes next. -/
theorem ownStep_stmt {cl : Cluster} {s s' : Cores E} {v txMetadata : Nat}
    (h : NodeInOrder (s.app v) (s.abortFlag v)) (hstep : s.stmt cl v txMetadata = some s') :
    OwnStep s s' v := by
  have hnil : Plain [] := fun _ hy => absurd hy List.not_mem_nil
  have hwhole := hstep
  unfold stmt at hstep
  cases hrecv : (s.app v).recvFrom with
  | some d =>
    simp only [hrecv] at hstep
    cases hstep
  | none =>
    -- a request that is sent stays at the head until its reply
    have hask : ∀ x rest (n : AppCore), (s.app v).code = x :: rest → x.asks = true →
        n.code = (s.app v).code → NodeInOrder n (s.abortFlag v) := by
      intro x rest n hcode hasks hsame
      exact ⟨hsame ▸ h.order, fun _ => ⟨x, rest, hsame.trans hcode, hasks⟩⟩
    cases hcode : (s.app v).code with
    | nil =>
      simp only [hrecv, hcode] at hstep
      cases hstep
    | cons x rest =>
      simp only [hrecv, hcode] at hstep
      cases x with
      | chkAborted =>
        -- goes on or leaves the macro through `TX_ABORT`, with the flag as it was
        cases hstep
        refine ownStep_app rfl rfl rfl ?_
        have hne := h.flag_ne hcode rfl
        have horder : InOrder false rest := by
          have horder := h.order
          rw [hcode] at horder
          exact (horder.tail rfl).2
        refine nodeInOrder_of_plain hne ?_ hrecv
        simp only
        split
        · exact .plain plain_txAbort
        · exact horder
      | acquire rw address => exact ownStep_sendb hstep (hask _ rest _ hcode rfl rfl)
      | insert address value =>
        obtain ⟨ws, -, rfl⟩ := Option.map_eq_some_iff.mp hstep
        exact ownStep_app rfl rfl rfl (h.plain hcode rfl hnil rfl rfl)
      | storeAll locked =>
        cases hentry : (s.app v).writeSet.writeEntries[locked]? with
        | none =>
          simp only [hentry] at hstep
          cases hstep
          exact ownStep_app rfl rfl rfl (h.plain hcode rfl hnil rfl hrecv)
        | some we =>
          -- the loop puts a request for the entry before its next turn
          simp only [hentry] at hstep
          cases hstep
          have hplain : Plain (txWlockStmts we.address ++ [.storeAll (locked + 1)]) := by
            refine (plain_txWlockStmts we.address).append ?_
            intro x hx
            rw [List.mem_singleton.mp hx]
            rfl
          exact ownStep_app rfl rfl rfl
            (h.plain hcode rfl hplain (by simp) hrecv)
      -- the only statements that set or find `PERSISTING_WRITES`
      | persisting => exact ownStep_persisting h hrecv hcode hwhole
      | persist i => exact ownStep_persist h hrecv hcode hwhole
      | committed =>
        cases hstep
        have horder := h.order
        rw [hcode] at horder
        exact ownStep_of rfl rfl rfl
          (nodeInOrder_of_plain (by decide) (.plain horder.committed_cons.2) hrecv)
      | rlsAll seq =>
        have hagain : Plain [.rlsAll (seq + 1)] := by
          intro x hx
          rw [List.mem_singleton.mp hx]
          rfl
        by_cases hseq : seq < cl.numDslNodes
        · simp only [if_pos hseq] at hstep
          by_cases hcontacted : (s.app v).nodesContacted seq > 0
          · -- the release is sent, and the loop goes on with the next service node
            simp only [if_pos hcontacted] at hstep
            exact ownStep_sendb hstep (h.plain hcode rfl hagain rfl rfl)
          · simp only [if_neg hcontacted] at hstep
            cases hstep
            exact ownStep_app rfl rfl rfl (h.plain hcode rfl hagain rfl hrecv)
        · simp only [if_neg hseq] at hstep
          cases hstep
          exact ownStep_app rfl rfl rfl (h.plain hcode rfl hnil rfl hrecv)
      | release rw address => exact ownStep_sendb hstep (h.plain hcode rfl hnil rfl hrecv)
      | dummy seq => exact ownStep_sendb hstep (hask _ rest _ hcode rfl hcode.symm)
      | running =>
        cases hstep
        have horder := h.order
        rw [hcode] at horder
        exact ownStep_of rfl rfl rfl (nodeInOrder_of_plain (by decide) (horder.tail rfl).2 hrecv)
      | wsetEmpty =>
        cases hstep
        exact ownStep_app rfl rfl rfl (h.plain hcode rfl hnil rfl rfl)
      | metaEmpty =>
        cases hstep
        exact ownStep_app rfl rfl rfl (h.plain hcode rfl hnil rfl rfl)

theorem ownStep_call {cfg : Config} {s s' : Cores E} {v : Nat} {m : TxMacro}
    (h : NodeInOrder (s.app v) (s.abortFlag v)) (hstep : s.call cfg v m = some s') :
    OwnStep s s' v := by
  unfold call at hstep
  cases hcode : (s.app v).code with
  | cons x rest =>
    simp only [hcode] at hstep
    cases hstep
  | nil =>
    have hrecv : (s.app v).recvFrom = none := by
      by_contra hne
      obtain ⟨x, rest, hcons, -⟩ := h.asking hne
      rw [hcode] at hcons
      cases hcons
    have hne : s.abortFlag v ≠ .persistingWrites := by
      intro hpersisting
      have horder := h.order
      rw [hcode, hpersisting] at horder
      cases horder
    have hcalled : ∀ n : AppCore, n.code = m.stmts cfg (s.app v).writeSet → n.recvFrom = none →
        NodeInOrder n (s.abortFlag v) := by
      intro n hn hnrecv
      exact nodeInOrder_of_plain hne (hn ▸ inOrder_stmts cfg _ m) hnrecv
    have hother : (if m.outside = (s.app v).inTx then none else some (s.setApp v
        { s.app v with inTx := true, code := m.stmts cfg (s.app v).writeSet })) = some s' →
        OwnStep s s' v := by
      intro hsome
      split at hsome
      · cases hsome
      · cases hsome
        exact ownStep_app rfl rfl rfl (hcalled _ rfl hrecv)
    simp only [hcode] at hstep
    cases m with
    | dummyMsg target =>
      cases hstep
      exact ownStep_app rfl rfl rfl (hcalled _ rfl hrecv)
    | txStart => exact hother hstep
    | txLoad address => exact hother hstep
    | txStore address value => exact hother hstep
    | txLoadStore address op => exact hother hstep
    | txRrls address => exact hother hstep
    | txWrls address => exact hother hstep
    | txAbort => exact hother hstep
    | commit c => exact hother hstep

/-- The reply ends the request at the head of the macro, or the attempt. -/
theorem NodeInOrder.answered {n : AppCore} {flag : Conflict} (h : NodeInOrder n flag) {d : Nat}
    (hrecv : n.recvFrom = some d) (response : Conflict) :
    NodeInOrder (answered n d response) flag := by
  obtain ⟨x, rest, hcode, hasks⟩ := h.asking (by rw [hrecv]; simp)
  have hplain : x.plain = true := by
    cases x with
    | acquire => rfl
    | dummy => rfl
    | _ => cases hasks
  have hne := h.flag_ne hcode hplain
  have horder : InOrder false rest := by
    have horder := h.order
    rw [hcode] at horder
    exact (horder.tail hplain).2
  unfold Cores.answered
  cases x with
  | acquire rw address =>
    simp only [hcode]
    split
    · exact nodeInOrder_of_plain hne (.plain plain_txAbort) rfl
    · exact nodeInOrder_of_plain hne horder rfl
  | dummy seq =>
    simp only [hcode, List.tail_cons]
    exact nodeInOrder_of_plain hne horder rfl
  | _ => cases hasks

theorem ownStep_recvb {s s' : Cores E} {v : Nat} (h : NodeInOrder (s.app v) (s.abortFlag v))
    (hstep : s.recvb v = some s') : OwnStep s s' v := by
  unfold recvb at hstep
  cases hrecv : (s.app v).recvFrom with
  | none =>
    simp only [hrecv] at hstep
    cases hstep
  | some d =>
    simp only [hrecv] at hstep
    obtain ⟨response, -, rfl⟩ := Option.map_eq_some_iff.mp hstep
    exact ownStep_app rfl rfl rfl (h.answered hrecv response)

variable [RwEntry E]

/-- What a step of a service node touches: an abort flag becomes a conflict at most. -/
structure DslStep (s s' : Cores E) : Prop where
  app : s'.app = s.app
  flag : ∀ v, s'.abortFlag v = s.abortFlag v ∨
    (s.abortFlag v ≠ .persistingWrites ∧ s'.abortFlag v ≠ .persistingWrites)
  reason : ∀ d ins, (s'.dsl d).inserting = some ins → ins.reason.isReason

omit [RwEntry E] in
/-- A step that changes one service node and no flag. -/
theorem dslStep_setDsl {s s' : Cores E} (h : Ordered s) {d : Nat} {n : DslCore E}
    (happ : s'.app = s.app) (hflag : s'.abortFlag = s.abortFlag)
    (hdsl : s'.dsl = Function.update s.dsl d n)
    (hreason : ∀ ins, n.inserting = some ins → ins.reason.isReason) : DslStep s s' where
  app := happ
  flag v := Or.inl (congrFun hflag v)
  reason e ins hins := by
    rw [hdsl] at hins
    by_cases he : e = d
    · subst he
      rw [Function.update_self] at hins
      exact hreason ins hins
    · rw [Function.update_of_ne he] at hins
      exact h.reason e ins hins

theorem dslStep_tryInsert {cfg : Config} {s s₀ : Cores E} (h : Ordered s) (happ : s₀.app = s.app)
    (hflag : s₀.abortFlag = s.abortFlag) (hdsl : s₀.dsl = s.dsl) {d v address : Nat} {rw : RW}
    {n : DslCore E} : DslStep s (s₀.tryInsert cfg d n v address rw) := by
  unfold tryInsert
  cases hinsertion : insertion cfg n.timestamp n.ht v address rw with
  | refuse conflict =>
    refine dslStep_setDsl h happ hflag (congrArg (fun f => Function.update f d _) hdsl) ?_
    intro ins hins
    cases hins
  | grant slot reason victims =>
    refine dslStep_setDsl h happ hflag (congrArg (fun f => Function.update f d _) hdsl) ?_
    intro ins hins
    cases hins
    exact insertion_reason hinsertion

theorem dslStep_handle {cfg : Config} {s s' : Cores E} (h : Ordered s) {d v now : Nat}
    (hstep : s.handle cfg d v now = some s') : DslStep s s' := by
  unfold handle at hstep
  cases hinserting : (s.dsl d).inserting with
  | some ins =>
    simp only [hinserting] at hstep
    cases hstep
  | none =>
    cases hbuffer : s.buffer v d with
    | none =>
      simp only [hinserting, hbuffer] at hstep
      cases hstep
    | some req =>
      simp only [hinserting, hbuffer] at hstep
      cases htype : req.type with
      | load =>
        simp only [htype] at hstep
        cases hstep
        apply dslStep_tryInsert h <;> rfl
      | store =>
        simp only [htype] at hstep
        cases hstep
        apply dslStep_tryInsert h <;> rfl
      | rmvNode | loadRls | storeFinish | loadNontx | storeNontx | storeInc | unknown =>
        simp only [htype] at hstep
        cases hstep
        refine dslStep_setDsl h rfl rfl rfl ?_
        intro ins hins
        cases hins

theorem casAbortFlag_ne_persisting {flag reason : Conflict} (hreason : reason.isReason)
    (hflag : flag ≠ .persistingWrites) : casAbortFlag flag reason ≠ .persistingWrites := by
  unfold casAbortFlag
  split
  · obtain rfl | rfl | rfl := hreason <;> decide
  · exact hflag

theorem dslStep_abortNode {s s' : Cores E} (h : Ordered s) {d : Nat}
    (hstep : s.abortNode d = some s') : DslStep s s' := by
  unfold abortNode at hstep
  cases hinserting : (s.dsl d).inserting with
  | none =>
    simp only [hinserting] at hstep
    cases hstep
  | some ins =>
    obtain ⟨sender, address, rw, slot, reason, victims⟩ := ins
    cases victims with
    | nil =>
      simp only [hinserting] at hstep
      cases hstep
    | cons victim victims =>
      simp only [hinserting] at hstep
      by_cases hflag : s.abortFlag victim = .persistingWrites
      · -- it spins
        simp only [if_pos hflag] at hstep
        cases hstep
        exact ⟨rfl, fun _ => Or.inl rfl, h.reason⟩
      · simp only [if_neg hflag] at hstep
        cases hstep
        have hreason : reason.isReason := h.reason d _ hinserting
        refine ⟨rfl, ?_, ?_⟩
        · intro v
          by_cases hv : v = victim
          · subst hv
            right
            refine ⟨hflag, ?_⟩
            simp only [Function.update_self]
            exact casAbortFlag_ne_persisting hreason hflag
          · exact Or.inl (Function.update_of_ne hv _ _)
        · intro e ins hins
          by_cases he : e = d
          · subst he
            simp only [setDsl, Function.update_self, Option.some.injEq] at hins
            rw [← hins]
            exact hreason
          · simp only [setDsl, Function.update_of_ne he] at hins
            exact h.reason e ins hins

theorem dslStep_grant {cfg : Config} {s s' : Cores E} (h : Ordered s) {d : Nat}
    (hstep : s.grant cfg d = some s') : DslStep s s' := by
  unfold grant at hstep
  cases hinserting : (s.dsl d).inserting with
  | none =>
    simp only [hinserting] at hstep
    cases hstep
  | some ins =>
    obtain ⟨sender, address, rw, slot, reason, victims⟩ := ins
    cases victims with
    | cons victim victims =>
      simp only [hinserting] at hstep
      cases hstep
    | nil =>
      simp only [hinserting] at hstep
      cases hstep
      refine dslStep_setDsl h rfl rfl rfl ?_
      intro ins hins
      cases hins

omit [RwEntry E] in
theorem Ordered.ownStep {s s' : Cores E} {v : Nat} (h : Ordered s) (hstep : OwnStep s s' v) :
    Ordered s' where
  node u := by
    by_cases hu : u = v
    · exact hu ▸ hstep.inOrder
    · rw [hstep.app u hu, hstep.flag u hu]
      exact h.node u
  reason := by
    rw [hstep.dsl]
    exact h.reason

omit [RwEntry E] in
theorem Ordered.dslStep {s s' : Cores E} (h : Ordered s) (hstep : DslStep s s') : Ordered s' where
  node v := by
    have hnode := h.node v
    rw [hstep.app]
    refine ⟨?_, hnode.asking⟩
    obtain hsame | ⟨hbefore, hafter⟩ := hstep.flag v
    · rw [hsame]
      exact hnode.order
    · have horder := hnode.order
      rw [decide_eq_false hbefore] at horder
      rw [decide_eq_false hafter]
      exact horder
  reason := hstep.reason

theorem Ordered.step {cl : Cluster} {s s' : Cores E} (h : Ordered s) {e : CoreEvent}
    (hstep : s.step cl e = some s') : Ordered s' := by
  cases e with
  | call v m => exact h.ownStep (ownStep_call (h.node v) hstep)
  | stmt v txMetadata => exact h.ownStep (ownStep_stmt (h.node v) hstep)
  | recvb v => exact h.ownStep (ownStep_recvb (h.node v) hstep)
  | handle d v now => exact h.dslStep (dslStep_handle h hstep)
  | abortNode d => exact h.dslStep (dslStep_abortNode h hstep)
  | grant d => exact h.dslStep (dslStep_grant h hstep)

theorem ordered_init (mem : Nat → BitVec 32) : Ordered (coresInit mem : Cores E) where
  node _ := ⟨.plain fun _ hy => absurd hy List.not_mem_nil, fun hne => absurd rfl hne⟩
  reason _ _ hins := by cases hins

theorem Ordered.run {cl : Cluster} {mem : Nat → BitVec 32} {es : List CoreEvent} {s : Cores E}
    (hexec : Exec (partialGraph (Cores.step cl)) (coresInit mem) es s) : Ordered s :=
  hexec.invariant Ordered (fun _ _ _ hs hstep => hs.step hstep) (ordered_init mem)

end Steps

/-! ### No circular wait -/

section Waiting

variable {E : Type} {cl : Cluster} {s : Cores E}

/-- Where an application node that waits stands above a service node that waits, and
that above a node that persists. -/
def rank (s : Cores E) : Nat ⊕ Nat → Nat
  | .inl v => if s.abortFlag v = .persistingWrites then 0 else 2
  | .inr _ => 1

/-- A node whose flag reads `PERSISTING_WRITES` waits for nothing. -/
theorem Ordered.not_waits (h : Ordered s) {v : Nat} (hflag : s.abortFlag v = .persistingWrites)
    (d : Nat) : ¬ s.AwaitsReply v d ∧ ¬ s.AwaitsBuffer cl v d := by
  have hnode := h.node v
  rw [hflag] at hnode
  have hpersists := hnode.persists
  constructor
  · rintro ⟨hrecv, -⟩
    rw [hnode.recvFrom_of_persists hpersists] at hrecv
    cases hrecv
  · rintro ⟨-, hsend, -⟩
    rw [sendTarget_of_persists cl hpersists] at hsend
    cases hsend

theorem Ordered.rank_lt (h : Ordered s) {x y : Nat ⊕ Nat} (hwaits : Waits cl s x y) :
    s.rank y < s.rank x := by
  have happ : ∀ v d, s.AwaitsReply v d ∨ s.AwaitsBuffer cl v d →
      s.rank (.inr d) < s.rank (.inl v) := by
    intro v d hw
    have hne : s.abortFlag v ≠ .persistingWrites := by
      intro hflag
      have hnot : ¬ s.AwaitsReply v d ∧ ¬ s.AwaitsBuffer cl v d := h.not_waits hflag d
      exact hw.elim hnot.1 hnot.2
    simp only [rank, if_neg hne]
    exact Nat.lt_succ_self 1
  cases hwaits with
  | reply hw => exact happ _ _ (Or.inl hw)
  | buffer hw => exact happ _ _ (Or.inr hw)
  | flag hspins =>
    simp only [rank, if_pos hspins.2]
    exact Nat.zero_lt_one

theorem Ordered.acyclic (h : Ordered s) (x : Nat ⊕ Nat) :
    ¬ Relation.TransGen (Waits cl s) x x := by
  have hlt : ∀ {x y}, Relation.TransGen (Waits cl s) x y → s.rank y < s.rank x := by
    intro x y hpath
    induction hpath with
    | single hw => exact h.rank_lt hw
    | tail _ hw ih => exact (h.rank_lt hw).trans ih
  exact fun hcycle => Nat.lt_irrefl _ (hlt hcycle)

/-- **No circular wait.**  When a service node spins on the flag of a node, that node is
in `write_set_persist` or about to call `set_tx_committed` and waits for no service
node; and no waits form a cycle. -/
theorem noCircularWait [RwEntry E] (cl : Cluster) (mem : Nat → BitVec 32) {es : List CoreEvent}
    {s : Cores E} (hexec : Exec (partialGraph (step cl)) (coresInit mem) es s) :
    (∀ d v, s.Spins d v → Persists (s.app v) ∧
      ∀ e, ¬ s.AwaitsReply v e ∧ ¬ s.AwaitsBuffer cl v e) ∧
    ∀ x, ¬ Relation.TransGen (Waits cl s) x x := by
  have h : Ordered s := Ordered.run hexec
  refine ⟨?_, h.acyclic⟩
  rintro d v ⟨-, hflag⟩
  have hnode := h.node v
  rw [hflag] at hnode
  exact ⟨hnode.persists, h.not_waits hflag⟩

/-- Node 0 asks for what node 1 is writing, and node 2 for something else. -/
def spinningRun : List CoreEvent :=
  [.call 1 .txStart, .stmt 1 0, .call 1 (.txStore 64 7), .stmt 1 0, .stmt 1 0,
    .call 1 (.commit .txCommit), .stmt 1 0, .stmt 1 0, .stmt 1 0, .handle 0 1 0, .grant 0,
    .recvb 1, .stmt 1 0, .stmt 1 0,
    .call 0 .txStart, .stmt 0 0, .call 0 (.txLoad 64), .stmt 0 0, .stmt 0 0, .handle 0 0 0,
    .call 2 (.dummyMsg 0), .stmt 2 0, .abortNode 0]

def oneDslNode : Cluster := ⟨⟨.wholly, false, false, 4⟩, 1, fun _ => 0⟩

theorem noCircularWait_spinningRun : ∃ s : Cores ByteEntry,
    s.Spins 0 1 ∧ s.AwaitsReply 0 0 ∧ s.AwaitsReply 2 0 ∧ Persists (s.app 1) ∧
    ∀ x, ¬ Relation.TransGen (Waits oneDslNode s) x x := by
  let s : Cores ByteEntry :=
    (spinningRun.foldlM (step oneDslNode) (coresInit fun _ => 0)).get (by decide +kernel)
  have hexec : Exec (partialGraph (step oneDslNode)) (coresInit fun _ => 0) spinningRun s :=
    exec_partialGraph_iff.mpr (Option.some_get _).symm
  obtain ⟨hspinning, hacyclic⟩ := noCircularWait oneDslNode (fun _ => 0) hexec
  have hvictims : (s.dsl 0).inserting.map Inserting.victims = some [1] := by decide +kernel
  obtain ⟨ins, hins, hvictim⟩ := Option.map_eq_some_iff.mp hvictims
  have hspins : s.Spins 0 1 := ⟨⟨ins, [], hins, hvictim⟩, by decide +kernel⟩
  refine ⟨s, hspins, ?_, ?_, (hspinning 0 1 hspins).1, hacyclic⟩
  · exact ⟨by decide +kernel, by decide +kernel⟩
  · exact ⟨by decide +kernel, by decide +kernel⟩

end Waiting

end Cores

end TM2C
