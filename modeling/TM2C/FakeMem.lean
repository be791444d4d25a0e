import Mathlib.Algebra.Order.Ring.Nat
import Mathlib.Data.List.Pairwise
import Mathlib.Data.List.Perm.Basic
import TM2C.Lib.Extent
import TM2C.Lib.LinkedList
import TM2C.Lib.Transition

/-!
# The fake memory

`src/fakemem.c`: an allocator of offsets.  Two linked lists hold the free blocks, in
increasing order, and the taken ones, in decreasing order.  All loops carry a pointer
`parent` to the node before the `walker`; in the first two rounds it is the head of the
list, and the code takes both for the first one.

Nodes come from `malloc` and go back by `free`; they are named by their addresses.

Each loop is a function with a bound on its rounds, the number of nodes, and gives `none` where a
null pointer would be read or the bound is used up; the theorems of `FakeMemPartition` show that
neither occurs.  The first-fit search, the split of a block that is too large, the insertion into
the taken list, and for `fakemem_free` the removal from it, the merge with a neighbour and
`compact` keep their order and their tests, also those that take the head of a list for a parent:
`walker == parent` in the removal leaves `taken` pointing at the freed block.

A run is a list of calls with the blocks handed out so far.  `Fakemem.Partition` says what the two
lists are for: together the blocks cover the space once, each list is sorted in its order, and a
pointer handed out is the beginning of a taken block.
-/

namespace TM2C

open Transition LinkedList

def FAKEMEM_ALLOC_SIZE : Nat := 512 * 1024 * 1024

def FAKEMEM_ALLOC_BLOCK : Nat := 4

/-- `fakemem_block`. -/
structure FakememBlock where
  offset : Nat
  size : Nat
  next : Option Nat
deriving DecidableEq, Repr

def FakememBlock.extent (b : FakememBlock) : Extent := ⟨b.offset, b.size⟩

/-- The `allocator_state` with the nodes that the heap holds, and how many they are. -/
structure Fakemem where
  baseVaddr : Nat
  freeBlocks : Option Nat
  taken : Option Nat
  heap : Nat → Option FakememBlock
  nodes : Nat

inductive Errno where
  | EINVAL
  | ENOMEM
deriving DecidableEq, Repr

/-- `fakemem_init` with the address of its node. -/
def fakememInit (baseVaddr node : Nat) : Fakemem where
  baseVaddr := baseVaddr
  freeBlocks := some node
  taken := none
  heap := Function.update (fun _ => none) node (some ⟨0, FAKEMEM_ALLOC_SIZE, none⟩)
  nodes := 1

/-- `fakemem_offset`. -/
def Fakemem.offset (m : Fakemem) (ptr : Nat) : Nat := (ptr + (2 ^ 64 - m.baseVaddr)) % 2 ^ 64

/-- `fakemem_addr_from_offset`. -/
def Fakemem.addrFromOffset (m : Fakemem) (offset : Nat) : Nat :=
  (m.baseVaddr + offset) % 2 ^ 64

def Fakemem.store (m : Fakemem) (p : Nat) (b : FakememBlock) : Fakemem :=
  { m with heap := Function.update m.heap p (some b) }

/-- `free` of a node. -/
def Fakemem.release (m : Fakemem) (p : Nat) : Fakemem :=
  { m with heap := Function.update m.heap p none, nodes := m.nodes - 1 }

/-- `malloc` of a node. -/
def Fakemem.acquire (m : Fakemem) (p : Nat) (b : FakememBlock) : Fakemem :=
  { m.store p b with nodes := m.nodes + 1 }

/-- The loop of all searches: the last `walker` and its `parent`.  A loop that passes more
nodes than there are never ends, and a node that is not there is undefined. -/
def walk (heap : Nat → Option FakememBlock) (found : FakememBlock → Bool) :
    Nat → Option Nat → Option Nat → Option (Option Nat × Option Nat)
  | _, none, parent => some (none, parent)
  | 0, some _, _ => none
  | fuel + 1, some walker, parent =>
    (heap walker).bind fun b =>
      if found b then some (some walker, parent)
      else walk heap found fuel b.next (if parent ≠ some walker then some walker else parent)

/-- `size` rounded up; the multiplication can wrap around. -/
def roundSize (size : Nat) : Nat :=
  ((size - 1) / FAKEMEM_ALLOC_BLOCK + 1) * FAKEMEM_ALLOC_BLOCK % 2 ^ 64

/-- `parent->next = next`. -/
def Fakemem.setNext (m : Fakemem) (parent next : Option Nat) : Option Fakemem :=
  parent.bind fun p => (m.heap p).map fun b => m.store p { b with next := next }

/-! ### `fakemem_malloc` -/

/-- The taken list gets the node `newBlock`. -/
def Fakemem.enlistTaken (m : Fakemem) (newBlock : Nat) : Option Fakemem :=
  (m.heap newBlock).bind fun new =>
    (walk m.heap (fun b => new.offset > b.offset) (m.nodes + 1) m.taken m.taken).bind
      fun (walker, parent) =>
        let m := m.store newBlock { new with next := walker }
        if parent = none ∨ parent = m.taken then some { m with taken := some newBlock }
        else m.setNext parent (some newBlock)

/-- The update of the free list: the node for the taken list, if there is one; `node` is what
`malloc` returns. -/
def Fakemem.carve (m : Fakemem) (size : Nat) (node : Option Nat) :
    Option (Except Errno Nat × Fakemem) :=
  (walk m.heap (fun b => b.size ≥ size) (m.nodes + 1) m.freeBlocks m.freeBlocks).bind
    fun (walker, parent) =>
      match walker with
      | none => some (.error .ENOMEM, m)
      | some walker =>
        (m.heap walker).bind fun b =>
          if b.size = size then
            if parent ≠ some walker then
              (m.setNext parent b.next).map fun m => (.ok walker, m)
            else some (.ok walker, { m with freeBlocks := b.next })
          else
            match node with
            | none => some (.error .ENOMEM, m)
            | some newBlock =>
              let m := m.acquire newBlock ⟨b.offset, size, none⟩
              some (.ok newBlock, m.store walker
                { b with offset := (b.offset + size) % 2 ^ 64, size := b.size - size })

def Fakemem.malloc (m : Fakemem) (size : Nat) (node : Option Nat) :
    Option (Except Errno Nat × Fakemem) :=
  if size = 0 then some (.error .EINVAL, m)
  else
    (m.carve (roundSize size) node).bind fun r =>
      match r with
      | (.error e, m) => some (.error e, m)
      | (.ok newBlock, m) =>
        (m.enlistTaken newBlock).bind fun m =>
          (m.heap newBlock).map fun b => (.ok (m.addrFromOffset b.offset), m)

/-! ### `fakemem_free` -/

/-- A block swallows the next one if they touch. -/
def Fakemem.compactNext (m : Fakemem) (walker : Nat) (b : FakememBlock) : Option Fakemem :=
  match b.next with
  | none => some m
  | some next =>
    (m.heap next).map fun b' =>
      if (b.offset + b.size) % 2 ^ 64 = b'.offset then
        (m.store walker ⟨b.offset, (b.size + b'.size) % 2 ^ 64, b'.next⟩).release next
      else m

/-- The compacting loop. -/
def compact : Nat → Option Nat → Fakemem → Option Fakemem
  | _, none, m => some m
  | 0, some _, _ => none
  | fuel + 1, some walker, m =>
    (m.heap walker).bind fun b =>
      (m.compactNext walker b).bind fun m =>
        (m.heap walker).bind fun b => compact fuel b.next m

/-- The free list gets the node `newBlock`, or the block it stands for. -/
def Fakemem.enlistFree (m : Fakemem) (newBlock : Nat) (walker parent : Option Nat) :
    Option Fakemem :=
  (m.heap newBlock).bind fun new =>
    parent.bind fun p =>
      (m.heap p).bind fun b =>
        if (b.offset + b.size) % 2 ^ 64 = new.offset then
          some ((m.store p { b with size := (b.size + new.size) % 2 ^ 64 }).release newBlock)
        else if (new.offset + new.size) % 2 ^ 64 = b.offset then
          some ((m.store p { b with
            size := (b.size + new.size) % 2 ^ 64
            offset := (b.offset + (2 ^ 64 - new.size)) % 2 ^ 64 }).release newBlock)
        else
          let m := m.store newBlock { new with next := walker }
          if parent = m.freeBlocks then some { m with freeBlocks := some newBlock }
          else m.setNext parent (some newBlock)

/-- What follows once the block has left the taken list. -/
def Fakemem.insertFree (m : Fakemem) (newBlock : Nat) : Option Fakemem :=
  (m.heap newBlock).bind fun new =>
    (walk m.heap (fun b => b.offset > new.offset) (m.nodes + 1) m.freeBlocks m.freeBlocks).bind
      fun (walker, parent) =>
        if walker = none then some m
        else
          (m.enlistFree newBlock walker parent).bind fun m =>
            compact (m.nodes + 1) m.freeBlocks m

def Fakemem.free (m : Fakemem) (ptr : Nat) : Option Fakemem :=
  if m.taken = none then some m
  else
    (walk m.heap (fun b => b.offset = m.offset ptr) (m.nodes + 1) m.taken m.taken).bind
      fun (walker, parent) =>
        match walker with
        | none => some m
        | some w =>
          (m.heap w).bind fun b =>
            (if walker = parent ∧ b.next = none then some { m with taken := none }
              else m.setNext parent b.next).bind fun m =>
                (m.setNext walker none).bind fun m => m.insertFree w

/-! ### Runs -/

/-- The allocator, as long as its behaviour is defined, and the live pointers with the sizes
they were requested with. -/
structure FakememRun where
  state : Option Fakemem
  live : List (Nat × Nat)

/-- A request comes with what `malloc` returns if the allocator needs a node. -/
inductive FakememEvent where
  | malloc (size : Nat) (node : Option Nat)
  | free (ptr size : Nat)
deriving DecidableEq, Repr

def FakememRun.new (baseVaddr node : Nat) : FakememRun := ⟨some (fakememInit baseVaddr node), []⟩

/-- Sizes are of the type `size_t`, `malloc` returns no node that is in use, and only live
pointers are freed. -/
def FakememRun.step (s : FakememRun) (e : FakememEvent) : Option FakememRun :=
  s.state.bind fun m =>
    match e with
    | .malloc size node =>
      if size < 2 ^ 64 ∧ (node.bind m.heap) = none then
        match m.malloc size node with
        | none => some { s with state := none }
        | some (.error _, m) => some { s with state := some m }
        | some (.ok ptr, m) => some ⟨some m, (ptr, size) :: s.live⟩
      else none
    | .free ptr size =>
      if (ptr, size) ∈ s.live then some ⟨m.free ptr, s.live.erase (ptr, size)⟩ else none

/-- The blocks of a list, if it is one. -/
def blocksFrom (heap : Nat → Option FakememBlock) : Nat → Option Nat → Option (List Extent)
  | _, none => some []
  | 0, some _ => none
  | fuel + 1, some p =>
    (heap p).bind fun b => (blocksFrom heap fuel b.next).map fun l => b.extent :: l

def Fakemem.freeList (m : Fakemem) : Option (List Extent) :=
  blocksFrom m.heap (m.nodes + 1) m.freeBlocks

def Fakemem.takenList (m : Fakemem) : Option (List Extent) :=
  blocksFrom m.heap (m.nodes + 1) m.taken

/-- The least multiple of 4 from `size` on. -/
def roundUp (size : Nat) : Nat := (size + 3) / 4 * 4

/-- What the allocator is for: the lists are in order, the taken blocks are the live ones,
and together they make up the whole space, which can be had again once all is freed. -/
structure Fakemem.Partition (m : Fakemem) (live : List (Nat × Nat)) (free taken : List Extent) :
    Prop where
  increasing : free.Pairwise fun a b => a.start < b.start
  decreasing : taken.Pairwise fun a b => b.start < a.start
  exact : taken.Perm (live.map fun p => ⟨m.offset p.1, roundUp p.2⟩)
  tiles : Extent.Tiles (free ++ taken) FAKEMEM_ALLOC_SIZE
  whole : live = [] → ∀ node : Option Nat, node.bind m.heap = none →
    ∃ ptr m', m.malloc FAKEMEM_ALLOC_SIZE node = some (.ok ptr, m')

def FakememRun.Partitioned (s : FakememRun) : Prop :=
  ∃ m free taken, s.state = some m ∧ m.freeList = some free ∧ m.takenList = some taken ∧
    m.Partition s.live free taken

/-- A request that does not wrap around, and is not served right behind the first of the
taken blocks. -/
def mallocSpares (free taken : List Extent) (size : Nat) : Prop :=
  size = 0 ∨ (size + 3 < 2 ^ 64 ∨ free = []) ∧
    ∀ b ∈ free.find? fun b => decide (roundUp size ≤ b.size),
      taken.countP (fun t => decide (b.start < t.start)) ≠ 1

/-- A block that is not the first of several taken ones, lies before a free block, and
touches the first free block if that is the only one before it. -/
def freeSpares (free taken : List Extent) (off : Nat) : Prop :=
  ((taken.head?.map Extent.start) = some off → taken.length = 1) ∧
  (∃ f ∈ free, off < f.start) ∧
  (free.countP (fun f => decide (f.start < off)) = 1 → ∃ f ∈ free.head?, f.stop = off)

def FakememRun.Spares (s : FakememRun) : FakememEvent → Prop
  | .malloc size _ => ∀ m ∈ s.state, ∀ free ∈ m.freeList, ∀ taken ∈ m.takenList,
      mallocSpares free taken size
  | .free ptr _ => ∀ m ∈ s.state, ∀ free ∈ m.freeList, ∀ taken ∈ m.takenList,
      freeSpares free taken (m.offset ptr)

instance (free taken : List Extent) (size : Nat) : Decidable (mallocSpares free taken size) :=
  inferInstanceAs (Decidable (_ ∨ _ ∧ _))

instance (free taken : List Extent) (off : Nat) : Decidable (freeSpares free taken off) :=
  inferInstanceAs (Decidable (_ ∧ _ ∧ _))

instance (s : FakememRun) : (e : FakememEvent) → Decidable (s.Spares e)
  | .malloc size _ => inferInstanceAs (Decidable (∀ m ∈ s.state, ∀ free ∈ m.freeList,
      ∀ taken ∈ m.takenList, mallocSpares free taken size))
  | .free ptr _ => inferInstanceAs (Decidable (∀ m ∈ s.state, ∀ free ∈ m.freeList,
      ∀ taken ∈ m.takenList, freeSpares free taken (m.offset ptr)))

end TM2C
