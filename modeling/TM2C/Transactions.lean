import TM2C.Lib.AtomicBlocks
import TM2C.Snapshot

/-!
# Programs of transactions

Application nodes that run programs: a transaction is a block of `TX_LOAD`, `TX_STORE`,
`TX_LOAD_STORE` and plain reads of what it has locked, and ends in `TX_COMMIT` or in
`TX_COMMIT_NO_PUB`.  The nodes take its operations one after the other through the macros of
`include/tm2c.h`, on the system of service nodes, messages, abort flags and shared memory.  An
aborted attempt starts again with the first operation.

A block is an `AtomicBlock` of the library, and a `TxProgram` gives a node its next block for an
input and the variables it has, and takes the result of a committed block.  An attempt keeps the
whole block and the rest of it.  The rest moves with the phase of the node: a load from the write
set is answered at once, and any other load or write lock puts the request of its macro under way
and goes on when the phase says that it was granted.  `TxSystem.step` joins this to the steps of
the system, of which it allows only those that are `underneath` the operations.

What a program sees of the system is `abstraction`, the committed memory and the variables of the
nodes.  An atomic step is one block run alone on such a state, by the library.  That the runs of
the system are runs of atomic steps is proved in `Atomicity.lean`, and the converse in
`SerialRuns.lean`.
-/

namespace TM2C

open AtomicBlocks

/-- The program of an application node, and how its transactions end. -/
structure TxProgram (σ ι ρ : Type) extends Program σ ι Nat (BitVec 32) ρ where
  -- with `TX_COMMIT`, or else with `TX_COMMIT_NO_PUB`
  pub : σ → ι → Bool

/-- A transaction that is under way, with the operations that its attempt has left. -/
structure TxAttempt (ι ρ : Type) where
  input : ι
  pub : Bool
  block : AtomicBlock Nat (BitVec 32) ρ
  rest : AtomicBlock Nat (BitVec 32) ρ
  -- `tx_load` was called for the first operation of `rest`, which it is to dereference
  loaded : Bool

structure TxSystem (σ ι ρ : Type) where
  system : System
  -- the variables of a node outside its transactions
  thread : Nat → σ
  attempt : Nat → Option (TxAttempt ι ρ)

inductive TxEvent (ι : Type) where
  | txStart (v : Nat) (input : ι) (now : Nat)
  -- `TX_START` after `siglongjmp`
  | restart (v now : Nat)
  -- the next operation of the transaction, or the next part of it
  | operation (v : Nat)
  -- the next entry of the loop of `tm2c_rpc_store_all`
  | storeAll (v : Nat)
  | txCommitted (v : Nat)
  -- what goes on below the operations
  | system (e : SystemEvent)
deriving DecidableEq, Repr

def txSystemInit {σ : Type} (ι ρ : Type) (mem : Nat → BitVec 32) (thread : Nat → σ) :
    TxSystem σ ι ρ :=
  ⟨systemInit mem, thread, fun _ => none⟩

/-- The steps of the system that are no operations of a transaction. -/
def SystemEvent.underneath : SystemEvent → Bool
  | .node _ (.txStart _) | .node _ (.txLoad _) | .node _ (.txStore _ _) | .node _ .txCommit
  | .node _ .chkAborted | .node _ (.deref _) | .node _ .setTxCommitted => false
  | _ => true

def Phase.inStoreAll : Phase → Bool
  | .storingAll _ => true
  | _ => false

namespace System

/-- `TX_LOAD_STORE` up to the answer to its request. -/
def txWlock (s : System) (v address : Nat) : System :=
  s.chkAborted v (s.enter v (.sending (.txStore 0) address))

/-- `TX_LOAD_STORE` after `tx_wlock`: it does not test the abort flag again. -/
def insertTemp (s : System) (v address : Nat) (f : BitVec 32 → BitVec 32) : Option System :=
  (writeSetInsert (s.node v).writeSet .typeInt (f (s.mem address)) address).map fun writeSet =>
    s.setNode v { s.node v with phase := .running, writeSet := writeSet }

/-- `TX_COMMIT_NO_PUB` skips `WLOCKS_ACQUIRE`. -/
def txCommitNoPub (s : System) (v : Nat) : System :=
  s.enter v (.storingAll (s.node v).writeSet.writeEntries.length)

end System

namespace TxSystem

variable {σ ι ρ : Type}

def proceed (s : TxSystem σ ι ρ) (v : Nat) (t : TxAttempt ι ρ) (system : System) :
    TxSystem σ ι ρ :=
  { s with system := system, attempt := Function.update s.attempt v (some t) }

def operation (cl : Cluster) (s : TxSystem σ ι ρ) (v : Nat) (t : TxAttempt ι ρ) :
    Option (TxSystem σ ι ρ) :=
  let n := s.system.node v
  match n.phase, t.rest with
  | .running, .load address next =>
    if t.loaded then
      (s.system.act cl v (.deref address)).map
        (s.proceed v { t with rest := next (s.system.mem address), loaded := false })
    else
      (s.system.act cl v (.txLoad address)).map
        (s.proceed v
          (match writeSetContains n.writeSet address with
          | some we => { t with rest := next we.i }
          | none => { t with loaded := true }))
  | .running, .store address value next =>
    (s.system.act cl v (.txStore address value)).map
      (s.proceed v (if cl.cfg.eagerWriteAcq then t else { t with rest := next }))
  | .locked _ _, .store _ _ next =>
    (s.system.act cl v .chkAborted).map (s.proceed v { t with rest := next })
  | .running, .update address _ _ => some (s.proceed v t (s.system.txWlock v address))
  | .locked _ _, .update address f next =>
    (s.system.insertTemp v address f).map (s.proceed v { t with rest := next })
  | .running, .peek address next =>
    -- only what the attempt has locked
    if (s.system.granted v).any fun g => decide (g.1 = address) then
      some (s.proceed v { t with rest := next (s.system.mem address) } s.system)
    else none
  | .running, .ret _ =>
    if t.pub then (s.system.act cl v .txCommit).map (s.proceed v t)
    else some (s.proceed v t (s.system.txCommitNoPub v))
  | _, _ => none

def step (cl : Cluster) (program : TxProgram σ ι ρ) (s : TxSystem σ ι ρ) :
    TxEvent ι → Option (TxSystem σ ι ρ)
  | .txStart v input now =>
    match (s.system.node v).phase, program.next (s.thread v) input with
    | .idle, some block =>
      (s.system.act cl v (.txStart now)).map
        (s.proceed v ⟨input, program.pub (s.thread v) input, block, block, false⟩)
    | _, _ => none
  | .restart v now =>
    match (s.system.node v).phase, s.attempt v with
    | .restarting, some t =>
      (s.system.act cl v (.txStart now)).map
        (s.proceed v { t with rest := t.block, loaded := false })
    | _, _ => none
  | .operation v => (s.attempt v).bind (s.operation cl v)
  | .storeAll v =>
    if (s.system.node v).phase.inStoreAll then
      (s.system.act cl v .chkAborted).map fun system => { s with system := system }
    else none
  | .txCommitted v =>
    match s.attempt v with
    | some ⟨input, _, _, .ret result, _⟩ =>
      (s.system.act cl v .setTxCommitted).map fun system =>
        { system := system
          thread := Function.update s.thread v (program.resume (s.thread v) input result)
          attempt := Function.update s.attempt v none }
    | _ => none
  | .system e =>
    if e.underneath then (s.system.step cl e).map fun system => { s with system := system }
    else none

section Proceed

variable (s : TxSystem σ ι ρ) (v : Nat) (t : TxAttempt ι ρ) (system : System)

@[simp] theorem system_proceed : (s.proceed v t system).system = system := rfl

@[simp] theorem thread_proceed : (s.proceed v t system).thread = s.thread := rfl

@[simp] theorem attempt_proceed_self : (s.proceed v t system).attempt v = some t :=
  Function.update_self ..

theorem attempt_proceed_of_ne {u : Nat} (h : u ≠ v) :
    (s.proceed v t system).attempt u = s.attempt u := Function.update_of_ne h ..

end Proceed

/-- What the program sees of the system: the committed memory and the variables of the nodes. -/
def abstraction (s : TxSystem σ ι ρ) : AtomicState σ Nat (BitVec 32) :=
  ⟨s.system.committed, s.thread⟩

end TxSystem

/-- The events that begin an attempt. -/
def TxEvent.starts {ι : Type} : TxEvent ι → Bool
  | .txStart _ _ _ | .restart _ _ => true
  | _ => false

/-- The node whose transaction takes effect. -/
def TxEvent.commits {ι : Type} : TxEvent ι → Option Nat
  | .txCommitted v => some v
  | _ => none

/-- A transaction that ends with `TX_COMMIT_NO_PUB` has all its locks by then. -/
def TxProgram.Locks {σ ι ρ : Type} (program : TxProgram σ ι ρ) (cfg : Config) : Prop :=
  ∀ thread input block, program.next thread input = some block →
    program.pub thread input = true ∨ cfg.eagerWriteAcq = true ∨ block.OnlyUpdates

end TM2C
