import TM2C.RwEntry

/-!
# The lock table of a service node

`src/ssht.c`, `include/ssht.h`, `include/ssht_log.h` and the interface
`src/tm2c_dsl_ht.c`: a fixed number of buckets, each a chain of cache-line sized
groups of slots, and for every node a log of pointers to the slots it locked.
A chain is the list of its slots in the order in which they are scanned, and a
pointer is a bucket number with a position in that chain.

The insertions call the contention manager and are in `TM2C.DslService`.

The tables are the same text for both encodings, so everything is defined over `RwEntry`.  Finding
a slot scans the chain for the address; allocating one takes the first slot with address zero, or
lengthens the chain by `ADDR_PER_CL` of them.  `tm2c_ht_delete_node` goes through the log of the
node and makes one removal at each pointer, which takes the write lock first and frees a slot
that has become empty.  `ssht_remove` looks for the address in the log, takes the lock that it was
asked for, leaves the slot its address, and puts the last entry of the log in the place of the
one that it found.
-/

namespace TM2C

open RwEntry

def ADDR_PER_CL : Nat := 3

def NUM_OF_BUCKETS_2 : Nat := 63

/-- `addr[i]` and `entry[i]` of a `bucket_t`; the address 0 marks a free slot. -/
structure Slot (E : Type) where
  addr : Nat
  entry : E

/-- `&bu->addr[i]`, together with `&bu->entry[i]`. -/
abbrev SlotPtr := Nat × Nat

structure Ssht (E : Type) where
  bucket : Nat → List (Slot E)
  logs : Nat → List SlotPtr

variable {E : Type} [RwEntry E]

def sshtBucketNew : List (Slot E) := List.replicate ADDR_PER_CL ⟨0, RwEntry.new⟩

/-- `ssht_new` with the empty logs of `tm2c_ht_new`. -/
def sshtNew : Ssht E := ⟨fun _ => sshtBucketNew, fun _ => []⟩

/-! ### Slots and logs -/

def Ssht.slot? {E : Type} (t : Ssht E) (p : SlotPtr) : Option (Slot E) := (t.bucket p.1)[p.2]?

def Ssht.modifySlot {E : Type} (t : Ssht E) (p : SlotPtr) (f : Slot E → Slot E) : Ssht E :=
  { t with bucket := Function.update t.bucket p.1 ((t.bucket p.1).modify p.2 f) }

/-- `ssht_log_set_insert` where the array can grow: its `unsigned` capacity is doubled from
8, and the process dies when the double of `2 ^ 31` is 0. -/
def sshtLogSetInsert {E : Type} (t : Ssht E) (id : Nat) (p : SlotPtr) : Ssht E :=
  { t with logs := Function.update t.logs id (t.logs id ++ [p]) }

/-- The scan `btmp->addr[i] == addr` over the chain of a bucket. -/
def bucketFind {E : Type} (chain : List (Slot E)) (addr : Nat) : Option (Nat × Slot E) :=
  (chain.findIdx? fun sl => sl.addr == addr).bind fun i => chain[i]?.map fun sl => (i, sl)

/-- The scan for `btmp->addr[i] == 0`, which extends the chain when it is full. -/
def bucketAlloc (t : Ssht E) (bu : Nat) : Ssht E × SlotPtr :=
  match bucketFind (t.bucket bu) 0 with
  | some (i, _) => (t, (bu, i))
  | none =>
    ({ t with bucket := Function.update t.bucket bu (t.bucket bu ++ sshtBucketNew) },
      (bu, (t.bucket bu).length))

/-- A read lock on a slot that already has the address. -/
def markReaderFound (t : Ssht E) (p : SlotPtr) (id addr : Nat) : Ssht E :=
  match t.slot? p with
  | none => t
  | some sl =>
    match addReaderFound sl.entry id with
    | none => t.modifySlot p fun sl => { sl with addr := addr }
    | some e => sshtLogSetInsert (t.modifySlot p fun _ => ⟨addr, e⟩) id p

/-- A read lock on a free slot. -/
def markReader (t : Ssht E) (p : SlotPtr) (id addr : Nat) : Ssht E :=
  sshtLogSetInsert (t.modifySlot p fun sl => ⟨addr, addReader sl.entry id⟩) id p

/-- A write lock on a slot, free or not. -/
def markWriter (t : Ssht E) (p : SlotPtr) (id addr : Nat) : Ssht E :=
  sshtLogSetInsert (t.modifySlot p fun sl => ⟨addr, setWriter sl.entry id⟩) id p

/-! ### Removal -/

/-- The write lock is taken to be the one to remove whenever the node has it. -/
def sshtBucketRemoveIndex (id : Nat) (sl : Slot E) : Slot E :=
  let entry :=
    if writer sl.entry = id then setWriter sl.entry SSHT_NO_WRITER else dropReader sl.entry id
  { addr := if isEmpty entry then 0 else sl.addr
    entry := entry }

def tm2cHtDeleteNode (t : Ssht E) (id : Nat) : Ssht E :=
  let t' := (t.logs id).foldl (fun t p => t.modifySlot p (sshtBucketRemoveIndex id)) t
  { t' with logs := Function.update t'.logs id [] }

/-- `entries[j] = entries[--nb_entries]` -/
def sshtLogSetRemove (log : List SlotPtr) (j : Nat) : List SlotPtr :=
  match log.getLast? with
  | none => log
  | some last => (log.set j last).dropLast

def sshtRemove (t : Ssht E) (id addr : Nat) (rw : RW) : Ssht E :=
  match (t.logs id).findIdx? fun p => (t.slot? p).any fun sl => sl.addr == addr with
  | none => t
  | some j =>
    let t' := match (t.logs id)[j]? with
      | none => t
      | some p => t.modifySlot p fun sl =>
        match rw with
        | .write =>
          if writer sl.entry = id then { sl with entry := setWriter sl.entry SSHT_NO_WRITER }
          else sl
        | .read => { sl with entry := dropReader sl.entry id }
    { t' with logs := Function.update t'.logs id (sshtLogSetRemove (t'.logs id) j) }

def tm2cHtDelete (t : Ssht E) (id addr : Nat) (rw : RW) : Ssht E := sshtRemove t id addr rw

/-- What is done to the slot that `ssht_remove` finds. -/
def removeMark (id : Nat) (rw : RW) (sl : Slot E) : Slot E :=
  match rw with
  | .write =>
    if writer sl.entry = id then { sl with entry := setWriter sl.entry SSHT_NO_WRITER } else sl
  | .read => { sl with entry := dropReader sl.entry id }

theorem sshtRemove_eq (t : Ssht E) (id addr : Nat) (rw : RW) :
    ((∀ p ∈ t.logs id, ∀ sl, t.slot? p = some sl → sl.addr ≠ addr) ∧
      tm2cHtDelete t id addr rw = t) ∨
      ∃ j p sl, (t.logs id)[j]? = some p ∧ t.slot? p = some sl ∧ sl.addr = addr ∧
        tm2cHtDelete t id addr rw =
          { bucket := (t.modifySlot p (removeMark id rw)).bucket
            logs := Function.update t.logs id (sshtLogSetRemove (t.logs id) j) } := by
  unfold tm2cHtDelete sshtRemove
  cases hfind : (t.logs id).findIdx? fun p => (t.slot? p).any fun sl => sl.addr == addr with
  | none =>
    refine Or.inl ⟨?_, rfl⟩
    intro p hp sl hslot
    have hno := List.findIdx?_eq_none_iff.mp hfind p hp
    rw [hslot, Option.any_some, beq_eq_false_iff_ne] at hno
    exact hno
  | some j =>
    right
    obtain ⟨hj, hany, -⟩ := List.findIdx?_eq_some_iff_getElem.mp hfind
    obtain ⟨sl, hslot, haddr⟩ := (Option.any_eq_true _ _).mp hany
    have hget : (t.logs id)[j]? = some (t.logs id)[j] := List.getElem?_eq_getElem hj
    refine ⟨j, (t.logs id)[j], sl, hget, hslot, beq_iff_eq.mp haddr, ?_⟩
    simp only [hget]
    rfl

/-! ### Bucket numbers -/

def hashTw (key : BitVec 32) : BitVec 32 :=
  let key := key + ~~~(key <<< 15)
  let key := key ^^^ (key >>> 10)
  let key := key + (key <<< 3)
  let key := key ^^^ (key >>> 6)
  let key := key + ~~~(key <<< 11)
  key ^^^ (key >>> 16)

def tm2cHtGetHash (address : Nat) : BitVec 32 := hashTw (BitVec.ofNat 32 (address >>> 3))

/-- The bucket that `tm2c_ht_insert` selects. -/
def bucketOf (pgas : Bool) (address : Nat) : Nat :=
  if pgas then address &&& NUM_OF_BUCKETS_2
  else (tm2cHtGetHash address).toNat &&& NUM_OF_BUCKETS_2

end TM2C
