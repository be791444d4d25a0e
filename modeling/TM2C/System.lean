import TM2C.LockService

/-!
# The system of application and service nodes

Application nodes that run the macros of `include/tm2c.h`, service nodes, the
messages between them, the abort flags and the shared memory, outside the PGAS
build and with a real contention manager.  Every step makes one access to what
is shared.  A service node is a lock map with timestamps; a request that wins
aborts its victims one by one before it is granted, and waits for a victim that
is persisting its writes.

The requests granted to an attempt, the values it read, the memory that the
committed transactions made, and the kills are recorded beside the state.

An application node is a phase, which says where in the macros it stands, with its write set and
its counters; `Purpose` is what a request is for, and so where the code goes on when it is
granted.  Messages to a service node are a queue for each pair of nodes, so that releases may be
on their way behind each other, and there is one reply at most for each application node.

`System.act` are the steps of a node, `System.handle`, `System.abortNode` and `System.grant`
those of a service node.  A schedule is a list of `SystemEvent`s in any order; an event that
cannot happen in a state gives `none`, and runs are the lists for which there is a state in the
end.  The number of nodes, the map from addresses to service nodes and the build options are a
`Cluster`, over which all theorems are general.
-/

namespace TM2C

/-! ### Application nodes -/

/-- What a lock is requested for: `TX_LOAD`, `TX_STORE` with `EAGER_WRITE_ACQ`, or
an entry of the write set in `tm2c_rpc_store_all`. -/
inductive Purpose where
  | txLoad
  | txStore (value : BitVec 32)
  | storeAll (locked : Nat)
deriving DecidableEq, Repr

def Purpose.rw : Purpose → RW
  | .txLoad => .read
  | .txStore _ | .storeAll _ => .write

def Purpose.reqType : Purpose → ReqType
  | .txLoad => .load
  | .txStore _ | .storeAll _ => .store

/-- Where a node is in the code. -/
inductive Phase where
  -- before `TX_START`
  | idle
  -- in `TX_START`, after `siglongjmp`
  | restarting
  -- in the body of a transaction
  | running
  -- `TXCHKABORTED` passed, before the request is sent
  | sending (p : Purpose) (address : Nat)
  -- in `tm2c_rpc_recvb`
  | waiting (p : Purpose) (address : Nat)
  -- in `TX_STORE`, between `tx_wlock` and `TXCHKABORTED`
  | locked (address : Nat) (value : BitVec 32)
  -- in `tm2c_rpc_store_all`, before entry `locked`
  | storingAll (locked : Nat)
  -- in `write_set_persist`, before entry `persisted`
  | persisting (persisted : Nat)
  -- in `tm2c_rpc_rls_all`, before service node `seq`
  | releasing (seq : Nat)
  | aborting (seq : Nat)
deriving DecidableEq, Repr

/-- Where a granted request leads. -/
def Purpose.next (address : Nat) : Purpose → Phase
  | .txLoad => .running
  | .txStore value => .locked address value
  | .storeAll i => .storingAll (i + 1)

/-- In an attempt that neither committed nor began to abort. -/
def Phase.active : Phase → Bool
  | .idle | .restarting | .releasing _ | .aborting _ => false
  | .running | .sending _ _ | .waiting _ _ | .locked _ _ | .storingAll _ | .persisting _ => true

/-- `tm2c_tx`, `tm2c_tx_node` and `nodes_contacted`. -/
structure TxNode where
  phase : Phase
  writeSet : WriteSet
  nodesContacted : Nat → Nat
  txCommitted : Nat
  txDuration : Nat
  startTs : Nat

def txNodeNew : TxNode := ⟨.idle, writeSetNew, fun _ => 0, 0, 0, 0⟩

/-- `psc->tx_metadata` -/
def TxNode.txMetadata (cfg : Config) (now : Nat) (n : TxNode) : Nat :=
  match cfg.cm with
  | .wholly => n.txCommitted
  | .faircm => n.txDuration
  | .greedy globalTs => if globalTs then n.startTs else (now + 2 ^ 64 - n.startTs) % 2 ^ 64
  | .nocm | .backoffRetry => 0

/-- `CM_METADATA_INIT_ON_FIRST_START` and `CM_METADATA_INIT_ON_START`. -/
def TxNode.initMetadata (cfg : Config) (first : Bool) (now : Nat) (n : TxNode) : Nat :=
  match cfg.cm with
  | .faircm => now
  | .greedy _ => if first then now else n.startTs
  | .wholly | .nocm | .backoffRetry => n.startTs

/-- `CM_METADATA_UPDATE_ON_COMMIT`; the ticks of a node do not go back. -/
def TxNode.updateDuration (cfg : Config) (now : Nat) (n : TxNode) : Nat :=
  match cfg.cm with
  | .faircm => n.txDuration + (now - n.startTs)
  | .wholly | .greedy _ | .nocm | .backoffRetry => n.txDuration

/-! ### Service nodes -/

/-- A granted request whose victims are still to be aborted. -/
structure Serving where
  sender : Nat
  address : Nat
  rw : RW
  conflict : Conflict
  victims : List Nat
deriving DecidableEq, Repr

structure ServiceNode where
  state : LockService
  serving : Option Serving

def serviceNodeNew : ServiceNode := ⟨⟨LockMap.empty, fun _ => 0⟩, none⟩

/-- The conflict with which the contention manager is called. -/
def attackConflict (locks : LockMap Nat Nat) (id addr : Nat) : RW → Conflict
  | .read => .readAfterWrite
  | .write =>
    match locks.writer addr with
    | some w => if w ≠ id then .writeAfterWrite else .writeAfterRead
    | none => .writeAfterRead

/-! ### The system -/

/-- The build, the number of service nodes and `get_responsible_node`. -/
structure Cluster where
  cfg : Config
  numDslNodes : Nat
  responsibleNode : Nat → Nat

/-- A word read by an attempt; `alive` tells whether its abort flag was `NO_CONFLICT`. -/
structure Read where
  address : Nat
  value : BitVec 32
  alive : Bool
deriving DecidableEq, Repr

structure System where
  node : Nat → TxNode
  abortFlag : Nat → Conflict
  reply : Nat → Option Conflict
  -- the messages from a node to a service node, oldest first
  channel : Nat → Nat → List Req
  service : Nat → ServiceNode
  mem : Nat → BitVec 32
  -- of the current attempt, or else the last one
  granted : Nat → List (Nat × RW)
  reads : Nat → List Read
  -- the memory after every `set_tx_committed`, the newest in front
  committed : Nat → BitVec 32
  history : List (Nat → BitVec 32)
  -- attackers with their victims, neither having committed since
  kills : List (Nat × Nat)

def systemInit (mem : Nat → BitVec 32) : System where
  node _ := txNodeNew
  abortFlag _ := .noConflict
  reply _ := none
  channel _ _ := []
  service _ := serviceNodeNew
  mem := mem
  granted _ := []
  reads _ := []
  committed := mem
  history := [mem]
  kills := []

/-- What an application node does next. -/
inductive Action where
  | txStart (now : Nat)
  | txLoad (address : Nat)
  | txStore (address : Nat) (value : BitVec 32)
  | txCommit
  | txAbort
  -- `TXCHKABORTED` in `TX_STORE` and in `tm2c_rpc_store_all`
  | chkAborted
  | send (now : Nat)
  | recv
  -- the program reads through the address that `tx_load` returned
  | deref (address : Nat)
  | setTxPersisting
  | writeEntryPersist
  | setTxCommitted
  -- one turn of the loop of `tm2c_rpc_rls_all`
  | rlsAll (now : Nat)
  -- what follows `tm2c_rpc_rls_all`
  | finish (now : Nat)
deriving DecidableEq, Repr

inductive SystemEvent where
  | node (v : Nat) (a : Action)
  -- a service node takes the oldest message of a node
  | handle (d v now : Nat)
  -- one compare-and-swap of `abort_node`, and `tm2c_ht_delete_node` when it is the last
  | abortNode (d : Nat)
  | grant (d : Nat)
deriving DecidableEq, Repr

namespace System

def setNode (s : System) (v : Nat) (n : TxNode) : System :=
  { s with node := Function.update s.node v n }

@[simp] def enter (s : System) (v : Nat) (phase : Phase) : System :=
  s.setNode v { s.node v with phase := phase }

/-- `TXCHKABORTED` -/
def chkAborted (s : System) (v : Nat) (next : System) : System :=
  if s.abortFlag v ≠ .noConflict then s.enter v (.aborting 0) else next

/-- `TXCHKABORTED` and `write_set_insert`.  Where the write set cannot grow the process is
gone, and its node takes no further step. -/
def bufferStore (s : System) (v address : Nat) (value : BitVec 32) : Option System :=
  if s.abortFlag v ≠ .noConflict then some (s.enter v (.aborting 0))
  else
    (writeSetInsert (s.node v).writeSet .typeInt value address).map fun writeSet =>
      s.setNode v { s.node v with phase := .running, writeSet := writeSet }

/-- `TXRUNNING` and the initialisation of the metadata. -/
def txRunning (s : System) (v startTs : Nat) : System :=
  { s.setNode v { s.node v with phase := .running, startTs := startTs } with
    abortFlag := Function.update s.abortFlag v .noConflict
    granted := Function.update s.granted v []
    reads := Function.update s.reads v [] }

def push (s : System) (v d : Nat) (req : Req) : Nat → Nat → List Req :=
  Function.update s.channel v (Function.update (s.channel v) d (s.channel v d ++ [req]))

/-- The memory after the first `k` entries of a write set. -/
def persisted (k : Nat) (writeSet : WriteSet) (mem : Nat → BitVec 32) : Nat → BitVec 32 :=
  (writeSet.writeEntries.take k).foldl (fun mem we => Function.update mem we.address we.i) mem

def act (cl : Cluster) (s : System) (v : Nat) : Action → Option System
  | .txStart now =>
    match (s.node v).phase with
    | .idle =>
      if v < cl.cfg.numUes then
        some (s.txRunning v ((s.node v).initMetadata cl.cfg true now))
      else none
    | .restarting => some (s.txRunning v ((s.node v).initMetadata cl.cfg false now))
    | _ => none
  | .txLoad address =>
    match (s.node v).phase with
    | .running =>
      match writeSetContains (s.node v).writeSet address with
      -- the buffered value
      | some _ => some s
      | none => some (s.chkAborted v (s.enter v (.sending .txLoad address)))
    | _ => none
  | .txStore address value =>
    match (s.node v).phase with
    | .running =>
      if cl.cfg.eagerWriteAcq then
        some (s.chkAborted v (s.enter v (.sending (.txStore value) address)))
      else s.bufferStore v address value
    | _ => none
  | .txCommit =>
    match (s.node v).phase with
    | .running =>
      some (s.enter v (.storingAll
        (if cl.cfg.eagerWriteAcq then (s.node v).writeSet.writeEntries.length else 0)))
    | _ => none
  | .txAbort =>
    match (s.node v).phase with
    | .running => some (s.enter v (.aborting 0))
    | _ => none
  | .chkAborted =>
    match (s.node v).phase with
    | .locked address value => s.bufferStore v address value
    | .storingAll i =>
      (s.node v).writeSet.writeEntries[i]?.map fun we =>
        s.chkAborted v (s.enter v (.sending (.storeAll i) we.address))
    | _ => none
  | .send now =>
    match (s.node v).phase with
    | .sending p address =>
      let d := cl.responsibleNode address
      some { s.setNode v { s.node v with
          phase := .waiting p address
          nodesContacted := Function.update (s.node v).nodesContacted d
            (((s.node v).nodesContacted d + 1) % 2 ^ 16) } with
        channel := s.push v d
          ⟨p.reqType, address, 0, (s.node v).txMetadata cl.cfg now⟩ }
    | _ => none
  | .recv =>
    match (s.node v).phase, s.reply v with
    | .waiting p address, some response =>
      let s' := { s with reply := Function.update s.reply v none }
      if response ≠ .noConflict then
        some (s'.setNode v { s.node v with
          phase := .aborting 0
          nodesContacted := Function.update (s.node v).nodesContacted
            (cl.responsibleNode address) 0 })
      else some (s'.enter v (p.next address))
    | _, _ => none
  | .deref address =>
    match (s.node v).phase with
    | .running =>
      if (address, RW.read) ∈ s.granted v then
        some { s with
          reads := Function.update s.reads v
            (s.reads v ++ [⟨address, s.mem address, decide (s.abortFlag v = .noConflict)⟩]) }
      else none
    | _ => none
  | .setTxPersisting =>
    match (s.node v).phase with
    | .storingAll i =>
      if (s.node v).writeSet.writeEntries.length ≤ i then
        some (if s.abortFlag v ≠ .noConflict then s.enter v (.aborting 0)
          else { s.enter v (.persisting 0) with
            abortFlag := Function.update s.abortFlag v .persistingWrites })
      else none
    | _ => none
  | .writeEntryPersist =>
    match (s.node v).phase with
    | .persisting i =>
      (s.node v).writeSet.writeEntries[i]?.map fun we =>
        { s.enter v (.persisting (i + 1)) with mem := Function.update s.mem we.address we.i }
    | _ => none
  | .setTxCommitted =>
    match (s.node v).phase with
    | .persisting i =>
      if (s.node v).writeSet.writeEntries.length ≤ i then
        let committed := persisted i (s.node v).writeSet s.committed
        some { s.enter v (.releasing 0) with
          abortFlag := Function.update s.abortFlag v .txCommitted
          committed := committed
          history := committed :: s.history }
      else none
    | _ => none
  | .rlsAll now =>
    let release (seq : Nat) (next : Phase) : Option System :=
      if seq < cl.numDslNodes then
        some { s.setNode v { s.node v with
            phase := next
            nodesContacted := Function.update (s.node v).nodesContacted seq 0 } with
          channel :=
            if (s.node v).nodesContacted seq > 0 then
              s.push v seq ⟨.rmvNode, 0, 0, (s.node v).txMetadata cl.cfg now⟩
            else s.channel }
      else none
    match (s.node v).phase with
    | .releasing seq => release seq (.releasing (seq + 1))
    | .aborting seq => release seq (.aborting (seq + 1))
    | _ => none
  | .finish now =>
    match (s.node v).phase with
    | .releasing seq =>
      if cl.numDslNodes ≤ seq then
        some { s.setNode v { s.node v with
            phase := .idle
            writeSet := writeSetEmpty (s.node v).writeSet
            txCommitted := (s.node v).txCommitted + 1
            txDuration := (s.node v).updateDuration cl.cfg now } with
          kills := s.kills.filter fun k => decide (k.1 ≠ v ∧ k.2 ≠ v) }
      else none
    | .aborting seq =>
      if cl.numDslNodes ≤ seq then
        some (s.setNode v { s.node v with
          phase := .restarting
          writeSet := writeSetEmpty (s.node v).writeSet })
      else none
    | _ => none

def setService (s : System) (d : Nat) (n : ServiceNode) : System :=
  { s with service := Function.update s.service d n }

/-- A service node that has seen the timestamp of a message. -/
def stamped (cfg : Config) (s : System) (d v now : Nat) (req : Req) : LockService :=
  { (s.service d).state with
    timestamp := updateTimestamp cfg now v req.txMetadata (s.service d).state.timestamp }

def pop (s : System) (v d : Nat) (rest : List Req) : Nat → Nat → List Req :=
  Function.update s.channel v (Function.update (s.channel v) d rest)

/-- The verdict on a request, with the reply when it is refused. -/
def serveRequest (cfg : Config) (s : System) (d : Nat) (n : LockService) (v address : Nat)
    (rw : RW) : System :=
  match verdict cfg n.timestamp n.locks v address rw with
  | .refuse conflict =>
    { s.setService d ⟨serveRelease cfg n v, none⟩ with
      reply := Function.update s.reply v (some conflict) }
  | .grant victims =>
    s.setService d ⟨n, some ⟨v, address, rw, attackConflict n.locks v address rw, victims⟩⟩

def handle (cl : Cluster) (s : System) (d v now : Nat) : Option System :=
  match (s.service d).serving, s.channel v d with
  | none, req :: rest =>
    let n := s.stamped cl.cfg d v now req
    let s' := { s with channel := s.pop v d rest }
    match req.type with
    | .rmvNode => some (s'.setService d ⟨serveRelease cl.cfg n v, none⟩)
    | .load => some (s'.serveRequest cl.cfg d n v req.address .read)
    | .store => some (s'.serveRequest cl.cfg d n v req.address .write)
    | _ => none
  | _, _ => none

def abortNode (s : System) (d : Nat) : Option System :=
  match (s.service d).serving with
  | some ⟨sender, address, rw, conflict, victim :: victims⟩ =>
    if s.abortFlag victim = .persistingWrites then some s
    else
      some { s.setService d
          ⟨{ (s.service d).state with locks := (s.service d).state.locks.release victim },
            some ⟨sender, address, rw, conflict, victims⟩⟩ with
        abortFlag := Function.update s.abortFlag victim
          (casAbortFlag (s.abortFlag victim) conflict)
        kills := (sender, victim) :: s.kills }
  | _ => none

def grant (s : System) (d : Nat) : Option System :=
  match (s.service d).serving with
  | some ⟨sender, address, rw, _, []⟩ =>
    some { s.setService d
        ⟨{ (s.service d).state with locks := acquire (s.service d).state.locks sender address rw },
          none⟩ with
      reply := Function.update s.reply sender (some .noConflict)
      granted := Function.update s.granted sender (s.granted sender ++ [(address, rw)]) }
  | _ => none

def step (cl : Cluster) (s : System) : SystemEvent → Option System
  | .node v a => s.act cl v a
  | .handle d v now => s.handle cl d v now
  | .abortNode d => s.abortNode d
  | .grant d => s.grant d

end System

end TM2C
