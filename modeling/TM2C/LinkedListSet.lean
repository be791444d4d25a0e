import Mathlib.Algebra.Order.Ring.Int
import Mathlib.Data.Finset.Sort
import TM2C.Lib.LinkedList
import TM2C.Lib.Transition

/-!
# The sorted list of the microbenchmarks

`bmarks/microbench/linkedlist/linkedlist.c`: a set of integers as a linked list in shared
memory between two sentinels, with the sequential code, and with the transactional code that
is run when `STM` is defined.  `TX_LOAD` and `TX_STORE` read and write pointers; stores stay
in the write set until the commit.  `TX_RRLS` gives up a read lock and touches no memory.

The functions are undefined (`none`) where they follow a pointer that leads to no node, and
where a loop passes more nodes than there are, which means that it never ends.

The transactional code is a function of a `SetTx`, the memory with the write set and the frees of
the transaction, so that what it returns is what its commit leaves; conflicts and restarts are
not repeated here, since a transaction acts as if it ran alone.  `SetRun.Refines` is the statement
to be proved in `LinkedListRefinement`: in every state of a run, whichever code each call went
through, the results are those of the set operations, the list stores the set that they leave of
the empty one, and what a call unlinked is what it freed.
-/

namespace TM2C

open Transition LinkedList

def VAL_MIN : Int := -2 ^ 31

def VAL_MAX : Int := 2 ^ 31 - 1

/-- `node_t`. -/
structure ListNode where
  val : Int
  nextp : Option Nat
deriving DecidableEq, Repr

/-- The nodes in shared memory, and how many they are. -/
structure SetMem where
  heap : Nat → Option ListNode
  nodes : Nat

namespace SetMem

/-- `node->nextp`. -/
def nextp (m : SetMem) (node : Option Nat) : Option (Option Nat) :=
  (node.bind m.heap).map ListNode.nextp

/-- `node->val`. -/
def val (m : SetMem) (node : Option Nat) : Option Int := (node.bind m.heap).map ListNode.val

/-- `node->nextp = next`. -/
def setNextp (m : SetMem) (node next : Option Nat) : Option SetMem :=
  node.bind fun a => (m.heap a).map fun n =>
    { m with heap := Function.update m.heap a (some ⟨n.val, next⟩) }

/-- `new_node`, when the allocation returns the address `node`. -/
def newNode (m : SetMem) (node : Nat) (val : Int) (next : Option Nat) : SetMem :=
  ⟨Function.update m.heap node (some ⟨val, next⟩), m.nodes + 1⟩

/-- `sys_shfree`. -/
def shfree (m : SetMem) (node : Option Nat) : Option SetMem :=
  node.bind fun a => (m.heap a).map fun _ => ⟨Function.update m.heap a none, m.nodes - 1⟩

/-- `set_new` with the addresses of its nodes; `set->headp` is `min`. -/
def setNew (max min : Nat) : SetMem :=
  ((⟨fun _ => none, 0⟩ : SetMem).newNode max VAL_MAX none).newNode min VAL_MIN (some max)

/-- The loop of `set_size`, which counts with an `int`. -/
def sizeLoop (m : SetMem) : Nat → Option Nat → Nat → Option Nat
  | 0, _, _ => none
  | fuel + 1, node, size =>
    (m.nextp node).bind fun next =>
      if next ≠ none then
        if size + 1 < 2 ^ 31 then sizeLoop m fuel next (size + 1) else none
      else some size

def setSize (m : SetMem) (headp : Nat) : Option Nat :=
  (m.nextp (some headp)).bind fun node => m.sizeLoop (m.nodes + 1) node 0

end SetMem

/-- What a call returns and leaves, with the pointers that it passed to `sys_shfree` or
`TX_SHFREE`. -/
structure SetOutcome where
  result : Bool
  mem : SetMem
  freed : List (Option Nat)

/-! ### The sequential code -/

/-- The loop `while (next->val < val)`: `prev` and `next` behind it. -/
def seqFind (m : SetMem) (val : Int) :
    Nat → Option Nat → Option Nat → Option (Option Nat × Option Nat)
  | 0, _, _ => none
  | fuel + 1, prev, next =>
    (m.val next).bind fun v =>
      if v < val then (m.nextp next).bind fun next' => seqFind m val fuel next next'
      else some (prev, next)

/-- The search of all three functions. -/
def seqSearch (m : SetMem) (headp : Nat) (val : Int) : Option (Option Nat × Option Nat) :=
  (m.nextp (some headp)).bind fun next => seqFind m val (m.nodes + 1) (some headp) next

def seqContains (m : SetMem) (headp : Nat) (val : Int) : Option SetOutcome :=
  (seqSearch m headp val).bind fun (_, next) =>
    (m.val next).map fun v => ⟨decide (v = val), m, []⟩

/-- `set_seq_add`. -/
def seqAdd (m : SetMem) (headp : Nat) (val : Int) (node : Nat) : Option SetOutcome :=
  (seqSearch m headp val).bind fun (prev, next) =>
    (m.val next).bind fun v =>
      if v ≠ val then
        ((m.newNode node val next).setNextp prev (some node)).map fun m => ⟨true, m, []⟩
      else some ⟨false, m, []⟩

def seqRemove (m : SetMem) (headp : Nat) (val : Int) : Option SetOutcome :=
  (seqSearch m headp val).bind fun (prev, next) =>
    (m.val next).bind fun v =>
      if v = val then
        (m.nextp next).bind fun next' =>
          (m.setNextp prev next').bind fun m =>
            (m.shfree next).map fun m => ⟨true, m, [next]⟩
      else some ⟨false, m, []⟩

/-! ### The transactional code -/

/-- The memory, the write set (newest entry first) and the pointers passed to `TX_SHFREE`
(newest first). -/
structure SetTx where
  mem : SetMem
  writeSet : List (Nat × Option Nat)
  freed : List (Option Nat)

namespace SetTx

/-- `TX_LOAD(&node->nextp)`. -/
def load (t : SetTx) (node : Option Nat) : Option (Option Nat) :=
  node.bind fun a =>
    match t.writeSet.lookup a with
    | some next => some next
    | none => t.mem.nextp (some a)

/-- `TX_STORE(&node->nextp, next)`. -/
def store (t : SetTx) (node next : Option Nat) : Option SetTx :=
  node.map fun a => { t with writeSet := (a, next) :: t.writeSet }

/-- `TX_SHFREE`. -/
def shfree (t : SetTx) (node : Option Nat) : SetTx := { t with freed := node :: t.freed }

/-- `TX_COMMIT_MEM`: the write set is persisted, then the nodes are freed. -/
def commitMem (t : SetTx) : Option SetMem :=
  (t.writeSet.foldr (fun w m => m.bind fun m => m.setNextp (some w.1) w.2) (some t.mem)).bind
    fun m => t.freed.foldr (fun node m => m.bind fun m => m.shfree node) (some m)

end SetTx

/-- The loop `while (1)`: `prev`, `next` and `v` behind it. -/
def txFind (t : SetTx) (val : Int) :
    Nat → Option Nat → Option Nat → Option (Option Nat × Option Nat × Int)
  | 0, _, _ => none
  | fuel + 1, prev, next =>
    (t.mem.val next).bind fun v =>
      if v ≥ val then some (prev, next, v)
      else (t.load next).bind fun next' => txFind t val fuel next next'

def txContains (m : SetMem) (headp : Nat) (val : Int) : Option SetOutcome :=
  let t : SetTx := ⟨m, [], []⟩
  (t.load (some headp)).bind fun next =>
    (txFind t val (m.nodes + 1) (some headp) next).map fun (_, _, v) => ⟨decide (v = val), m, []⟩

/-- The search of `set_add` and `set_remove`, whose first round stands before the loop and
leaves it with `goto done`. -/
def txSearch (t : SetTx) (headp : Nat) (val : Int) : Option (Option Nat × Option Nat × Int) :=
  (t.load (some headp)).bind fun next =>
    (t.mem.val next).bind fun v =>
      if v ≥ val then some (some headp, next, v)
      else (t.load next).bind fun next' => txFind t val (t.mem.nodes + 1) next next'

def txAdd (m : SetMem) (headp : Nat) (val : Int) (node : Nat) : Option SetOutcome :=
  let t : SetTx := ⟨m, [], []⟩
  (txSearch t headp val).bind fun (prev, next, v) =>
    if v ≠ val then
      ({ t with mem := m.newNode node val next }.store prev (some node)).bind fun t =>
        t.commitMem.map fun m => ⟨true, m, t.freed⟩
    else t.commitMem.map fun m => ⟨false, m, t.freed⟩

def txRemove (m : SetMem) (headp : Nat) (val : Int) : Option SetOutcome :=
  let t : SetTx := ⟨m, [], []⟩
  (txSearch t headp val).bind fun (prev, next, v) =>
    if v = val then
      (t.load next).bind fun nxt =>
        (t.store prev nxt).bind fun t =>
          (t.shfree next).commitMem.map fun m => ⟨true, m, (t.shfree next).freed⟩
    else t.commitMem.map fun m => ⟨false, m, t.freed⟩

/-! ### Runs of one node -/

inductive SetOp where
  | contains
  | add
  | remove
deriving DecidableEq, Repr

structure SetRequest where
  op : SetOp
  val : Int
deriving DecidableEq, Repr

/-- A request, the code that serves it, and the address that the allocation returns if the
code needs a node. -/
structure SetCall where
  request : SetRequest
  transactional : Bool
  node : Nat
deriving DecidableEq, Repr

def SetCall.run (m : SetMem) (headp : Nat) (c : SetCall) : Option SetOutcome :=
  match c.request.op, c.transactional with
  | .contains, false => seqContains m headp c.request.val
  | .add, false => seqAdd m headp c.request.val c.node
  | .remove, false => seqRemove m headp c.request.val
  | .contains, true => txContains m headp c.request.val
  | .add, true => txAdd m headp c.request.val c.node
  | .remove, true => txRemove m headp c.request.val

/-- What a set of integers does. -/
def SetRequest.apply (S : Finset Int) (r : SetRequest) : Bool × Finset Int :=
  match r.op with
  | .contains => (decide (r.val ∈ S), S)
  | .add => (decide (r.val ∉ S), insert r.val S)
  | .remove => (decide (r.val ∈ S), S.erase r.val)

/-- The results of requests in a row, and the set after them. -/
def applyRequests : Finset Int → List SetRequest → List Bool × Finset Int
  | S, [] => ([], S)
  | S, r :: rs =>
    ((r.apply S).1 :: (applyRequests (r.apply S).2 rs).1, (applyRequests (r.apply S).2 rs).2)

/-- The memory before and after the last call, as long as all is defined, what that call
freed, and all results. -/
structure SetRun where
  headp : Nat
  before : SetMem
  mem : Option SetMem
  freed : List (Option Nat)
  results : List Bool

def SetRun.new (max min : Nat) : SetRun :=
  ⟨min, SetMem.setNew max min, some (SetMem.setNew max min), [], []⟩

/-- The allocation returns fresh nodes. -/
def SetRun.step (s : SetRun) (c : SetCall) : Option SetRun :=
  s.mem.bind fun m =>
    if m.heap c.node = none then
      match c.run m s.headp with
      | none => some { s with mem := none }
      | some o => some ⟨s.headp, m, some o.mem, o.freed, s.results ++ [o.result]⟩
    else none

/-- The nodes from a pointer on with their values, if they are a list that ends with a null
pointer. -/
def pathFrom (m : SetMem) : Nat → Option Nat → Option (List (Nat × Int))
  | _, none => some []
  | 0, some _ => none
  | fuel + 1, some a =>
    (m.heap a).bind fun n => (pathFrom m fuel n.nextp).map fun l => (a, n.val) :: l

def SetMem.path (m : SetMem) (headp : Nat) : Option (List (Nat × Int)) :=
  pathFrom m (m.nodes + 1) (some headp)

/-- The sentinels and the keys in order. -/
def sentinelled (S : Finset Int) : List Int := VAL_MIN :: (S.sort ++ [VAL_MAX])

/-- The set `S` is stored: the list from `headp` has the sentinels and the keys in order, and
there are no other nodes. -/
def SetMem.Stores (m : SetMem) (headp : Nat) (S : Finset Int) : Prop :=
  ∃ l, m.path headp = some l ∧ l.map Prod.snd = sentinelled S ∧
    ∀ a, m.heap a ≠ none ↔ a ∈ l.map Prod.fst

/-- The values in the list. -/
def SetRun.keys (s : SetRun) : Option (List Int) :=
  (s.mem.bind fun m => m.path s.headp).map fun l => l.map Prod.snd

end TM2C
