import Mathlib.Data.List.Count
import TM2C.PgasMemory
import TM2C.ShmemAllocator

/-!
# The two PGAS allocators

`src/pgas_app.c`: `pgas_app_alloc` cuts blocks off the region that an application node has
in the partition of its responsible service node, `pgas_app_alloc_rr` goes round the
partitions.  Each keeps its own cursors.  The second advances those of the first, but not
the other way round: the first node of a partition, whose region begins where the
partition does, gets the same bytes from both.

`Topology` is the assignment of roles to the cores, from which `pgas_app_init` computes the
responsible node, the place among the nodes that share it, and the region.  The numbers are those
of the source; that loops over the nodes count with an `int32_t` is a field of the structure.

A run remembers what was returned, with the position of a round-robin element.  `Sound` is the
invariant of the two cursors: each is where the ranges of its allocator end, so the ranges of one
allocator are apart.  For ranges of different allocators only the first node of a partition is in
danger.  `FirstNode` says how its two cursors are related, depending on whether it has called
`pgas_app_alloc` yet, and with it one call keeps all ranges apart exactly when it is in order
(`rangesApart_step_iff`); the run theorem is the induction over both directions.
-/

namespace TM2C

open Transition

/-! ### Initialisation -/

/-- `TOTAL_NODES()` and `is_app_core`; loops over the nodes count with an `int32_t`. -/
structure Topology where
  totalNodes : Nat
  isAppCore : Nat → Bool
  totalNodes_lt : totalNodes < 2 ^ 31

namespace Topology

variable (t : Topology)

def isDslCore (n : Nat) : Bool := !t.isAppCore n

def dslIdSeq (node : Nat) : Nat := (List.range node).countP t.isDslCore

def numDslNodes : Nat := t.dslIdSeq t.totalNodes

/-- The nearest service node below the node. -/
def myRespNodeReal (id : Nat) : Option Nat := (List.range id).reverse.find? t.isDslCore

/-- `pgas_app_my_resp_node`, which is 0 until it is set. -/
def myRespNode (id : Nat) : Nat := ((t.myRespNodeReal id).map t.dslIdSeq).getD 0

/-- The application nodes that use the same service node. -/
def sharing (id : Nat) : List Nat :=
  let realId := (t.myRespNodeReal id).getD 0
  (List.range' (realId + 1) (t.totalNodes - (realId + 1))).takeWhile t.isAppCore

def numAppSharing (id : Nat) : Nat := (t.sharing id).length

def mySeqSharing (id : Nat) : Nat := if id ∈ t.sharing id then (t.sharing id).idxOf id else 0

/-- The bytes of a partition that each of them gets. -/
def regionSize (id : Nat) : Nat := PGAS_DSL_SIZE_NODE / t.numAppSharing id

end Topology

/-- The static variables; `ring` holds `pgas_app_mem_mine`, `alloc_next` and the free list.
`pgas_allocs` never wraps while the totals stay within the partitions. -/
structure PgasApp where
  myRespNode : Nat
  ring : FreeRing
  allocs : Nat → Nat
  rrNext : Nat

def pgasAppInit (t : Topology) (id : Nat) : PgasApp where
  myRespNode := t.myRespNode id
  ring := pgasAppNew (t.myRespNode id * PGAS_DSL_SIZE_NODE + t.regionSize id * t.mySeqSharing id)
  allocs n := n * PGAS_DSL_SIZE_NODE + 64
  rrNext := 0

/-! ### Round robin -/

/-- The loop of `pgas_app_alloc_rr`: the addresses, `pgas_allocs`, `n` and
`alloced_my_node`. -/
def allocRrLoop (numDslNodes myRespNode sizeElem : Nat) :
    Nat → (Nat → Nat) → Nat → Nat → List Nat × (Nat → Nat) × Nat × Nat
  | 0, allocs, n, mine => ([], allocs, n, mine)
  | k + 1, allocs, n, mine =>
    let (rest, r) := allocRrLoop numDslNodes myRespNode sizeElem k
      (Function.update allocs n (allocs n + sizeElem)) ((n + 1) % numDslNodes)
      (if n = myRespNode then mine + sizeElem else mine)
    (allocs n :: rest, r)

/-- The `uint32_t` of the loop never reaches a count of `2 ^ 32`. -/
def pgasAppAllocRr (numDslNodes : Nat) (s : PgasApp) (numElems sizeElem : Nat) :
    Option (List Nat × PgasApp) :=
  if numElems < 2 ^ 32 then
    let (memRr, allocs, n, mine) :=
      allocRrLoop numDslNodes s.myRespNode sizeElem numElems s.allocs s.rrNext 0
    some (memRr, { s with
      allocs := allocs
      rrNext := n
      ring := { s.ring with allocNext := (s.ring.allocNext + mine) % 2 ^ 64 } })
  else none

/-! ### Runs of one node -/

/-- A range that was returned; an element `i` of a round-robin call that started at the
node `s` has the position `s + i`. -/
structure Returned where
  extent : Extent
  position : Option Nat
deriving DecidableEq, Repr

structure PgasAllocRun where
  app : PgasApp
  returned : List Returned

inductive PgasAllocEvent where
  | alloc (size : Nat)
  | allocRr (numElems sizeElem : Nat)
deriving DecidableEq, Repr

def PgasAllocRun.new (t : Topology) (id : Nat) : PgasAllocRun := ⟨pgasAppInit t id, []⟩

/-- The elements of a round-robin call. -/
def returnedRr (start sizeElem : Nat) (memRr : List Nat) : List Returned :=
  memRr.zipIdx.map fun a => ⟨⟨a.1, sizeElem⟩, some (start + a.2)⟩

/-- The partition of a service node. -/
def partition (n : Nat) : Extent := ⟨n * PGAS_DSL_SIZE_NODE, PGAS_DSL_SIZE_NODE⟩

/-- Requests are of at least one byte, and the totals stay within the node's region and
the partitions. -/
def PgasAllocRun.InBounds (t : Topology) (id : Nat) (s : PgasAllocRun) : PgasAllocEvent → Prop
  | .alloc size => 1 ≤ size ∧ s.app.ring.allocNext + size ≤ t.regionSize id
  | .allocRr numElems sizeElem =>
    let r := allocRrLoop t.numDslNodes s.app.myRespNode sizeElem numElems s.app.allocs
      s.app.rrNext 0
    (∀ n < t.numDslNodes, r.2.1 n ≤ (partition n).stop) ∧
      s.app.ring.allocNext + r.2.2.2 ≤ t.regionSize id

instance (t : Topology) (id : Nat) (s : PgasAllocRun) :
    (e : PgasAllocEvent) → Decidable (s.InBounds t id e)
  | .alloc _ => inferInstanceAs (Decidable (_ ∧ _))
  | .allocRr numElems sizeElem => inferInstanceAs (Decidable ((∀ n < t.numDslNodes,
      (allocRrLoop t.numDslNodes s.app.myRespNode sizeElem numElems s.app.allocs
        s.app.rrNext 0).2.1 n ≤ (partition n).stop) ∧ _))

def PgasAllocRun.step (t : Topology) (id : Nat) (s : PgasAllocRun) (e : PgasAllocEvent) :
    Option PgasAllocRun :=
  if s.InBounds t id e then
    match e with
    | .alloc size =>
      let (ptr, ring) := pgasAppAlloc s.app.ring size
      some ⟨{ s.app with ring := ring }, ⟨⟨ptr, size⟩, none⟩ :: s.returned⟩
    | .allocRr numElems sizeElem =>
      (pgasAppAllocRr t.numDslNodes s.app numElems sizeElem).map fun r =>
        ⟨r.2, returnedRr s.app.rrNext sizeElem r.1 ++ s.returned⟩
  else none

instance : Std.Symm fun r r' : Returned => ¬ r.extent.Overlaps r'.extent :=
  ⟨fun _ _ h h' => h h'.symm⟩

/-- No two ranges have a byte in common. -/
def PgasAllocRun.RangesApart (s : PgasAllocRun) : Prop :=
  s.returned.Pairwise fun r r' => ¬ r.extent.Overlaps r'.extent

/-- A round-robin element belongs to the partition of its position, and every range to
some partition. -/
def PgasAllocRun.InPartitions (numDslNodes : Nat) (s : PgasAllocRun) : Prop :=
  ∀ r ∈ s.returned,
    (∀ k ∈ r.position, r.extent.Within (partition (k % numDslNodes))) ∧
    ∃ n < numDslNodes, r.extent.Within (partition n)

/-- The first node of a partition gets no round-robin element of its own partition once it
has called `pgas_app_alloc`. -/
def PgasAllocRun.RoundFirst (t : Topology) (id : Nat) (s : PgasAllocRun) : PgasAllocEvent → Prop
  | .alloc _ => True
  | .allocRr numElems sizeElem => t.mySeqSharing id = 0 → (∃ r ∈ s.returned, r.position = none) →
      0 < sizeElem → ∀ i < numElems, (s.app.rrNext + i) % t.numDslNodes ≠ s.app.myRespNode

instance (t : Topology) (id : Nat) (s : PgasAllocRun) :
    (e : PgasAllocEvent) → Decidable (s.RoundFirst t id e)
  | .alloc _ => inferInstanceAs (Decidable True)
  | .allocRr numElems sizeElem => inferInstanceAs (Decidable (t.mySeqSharing id = 0 →
      (∃ r ∈ s.returned, r.position = none) → 0 < sizeElem →
        ∀ i < numElems, (s.app.rrNext + i) % t.numDslNodes ≠ s.app.myRespNode))

/-! ### The region of a node -/

section Region

variable {t : Topology} {id : Nat}

theorem mem_takeWhile_range' {p : Nat → Bool} {x : Nat} {m : Nat} :
    ∀ {a : Nat}, x ∈ (List.range' a m).takeWhile p ↔
      a ≤ x ∧ x < a + m ∧ ∀ y, a ≤ y → y ≤ x → p y := by
  induction m with
  | zero =>
    intro a
    simp only [List.range'_zero, List.takeWhile_nil, List.not_mem_nil, false_iff]
    omega
  | succ m ih =>
    intro a
    rw [List.range'_succ, List.takeWhile_cons]
    by_cases hp : p a = true
    · rw [if_pos hp, List.mem_cons, ih]
      constructor
      · rintro (rfl | ⟨hle, hlt, hall⟩)
        · exact ⟨Nat.le_refl _, by omega, fun y hy hyx => by rwa [Nat.le_antisymm hyx hy]⟩
        · refine ⟨by omega, by omega, fun y hy hyx => ?_⟩
          rcases Nat.eq_or_lt_of_le hy with rfl | hlt'
          · exact hp
          · exact hall y hlt' hyx
      · rintro ⟨hle, hlt, hall⟩
        rcases Nat.eq_or_lt_of_le hle with rfl | hlt'
        · exact Or.inl rfl
        · exact Or.inr ⟨hlt', by omega, fun y hy => hall y (by omega)⟩
    · rw [if_neg hp]
      refine iff_of_false List.not_mem_nil ?_
      rintro ⟨hle, -, hall⟩
      exact hp (hall a (Nat.le_refl a) hle)

/-- No service node is between a node and its responsible one. -/
theorem Topology.isAppCore_of_between {n : Nat} (hlt : (t.myRespNodeReal id).getD 0 < n)
    (hn : n < id) : t.isAppCore n := by
  unfold Topology.myRespNodeReal at hlt
  by_contra happ
  have hdsl : t.isDslCore n = true := by
    rw [Topology.isDslCore, Bool.eq_false_iff.mpr happ, Bool.not_false]
  cases hfind : (List.range id).reverse.find? t.isDslCore with
  | none =>
    have hnone := List.find?_eq_none.mp hfind n (List.mem_reverse.mpr (List.mem_range.mpr hn))
    exact hnone hdsl
  | some r =>
    rw [hfind, Option.getD_some] at hlt
    obtain ⟨-, as, bs, hsplit, hbefore⟩ := List.find?_eq_some_iff_append.mp hfind
    have hmem : n ∈ as ++ r :: bs :=
      hsplit ▸ List.mem_reverse.mpr (List.mem_range.mpr hn)
    have hsorted : (as ++ r :: bs).Pairwise (· > ·) := by
      rw [← hsplit, List.pairwise_reverse]
      exact List.pairwise_lt_range
    rw [List.pairwise_append, List.pairwise_cons] at hsorted
    rcases List.mem_append.mp hmem with has | hr
    · have := hbefore n has
      simp only [hdsl, Bool.not_true, Bool.false_eq_true] at this
    · rcases List.mem_cons.mp hr with rfl | hbs
      · exact Nat.lt_irrefl _ hlt
      · exact absurd (hsorted.2.1.1 n hbs) (by omega)

theorem Topology.myRespNodeReal_lt {r : Nat} (h : t.myRespNodeReal id = some r) :
    t.isDslCore r = true ∧ r < id := by
  refine ⟨List.find?_some h, ?_⟩
  have hmem := List.mem_of_find?_eq_some h
  rwa [List.mem_reverse, List.mem_range] at hmem

/-- A node is one of those that share its service node. -/
theorem Topology.mem_sharing (happ : t.isAppCore id) (hpos : 0 < id) (hid : id < t.totalNodes) :
    id ∈ t.sharing id := by
  have hreal : (t.myRespNodeReal id).getD 0 < id := by
    cases hfind : t.myRespNodeReal id with
    | none => exact hpos
    | some r => exact (Topology.myRespNodeReal_lt hfind).2
  refine mem_takeWhile_range'.mpr ⟨hreal, by omega, ?_⟩
  intro y hy hle
  rcases Nat.eq_or_lt_of_le hle with rfl | hlt
  · exact happ
  · exact Topology.isAppCore_of_between hy hlt

theorem Topology.mySeqSharing_lt (h : id ∈ t.sharing id) :
    t.mySeqSharing id < t.numAppSharing id := by
  unfold Topology.mySeqSharing
  rw [if_pos h]
  exact List.idxOf_lt_length_of_mem h

theorem range_eq_append {r n : Nat} (h : r < n) :
    List.range n = List.range r ++ r :: List.range' (r + 1) (n - (r + 1)) := by
  rw [List.range_eq_range', List.range_eq_range', ← List.range'_succ]
  rw [show n - (r + 1) + 1 = n - r by omega]
  have happend := List.range'_append_1 (s := 0) (m := r) (n := n - r)
  rw [Nat.zero_add, show r + (n - r) = n by omega] at happend
  exact happend.symm

theorem Topology.dslIdSeq_lt {r : Nat} (hdsl : t.isDslCore r = true) (hr : r < t.totalNodes) :
    t.dslIdSeq r < t.numDslNodes := by
  unfold Topology.numDslNodes Topology.dslIdSeq
  rw [range_eq_append hr, List.countP_append, List.countP_cons_of_pos hdsl]
  omega

theorem Topology.myRespNode_lt (hid : id < t.totalNodes) (hdsl : 0 < t.numDslNodes) :
    t.myRespNode id < t.numDslNodes := by
  unfold Topology.myRespNode
  cases hfind : t.myRespNodeReal id with
  | none => exact hdsl
  | some r =>
    obtain ⟨hr, hlt⟩ := Topology.myRespNodeReal_lt hfind
    exact Topology.dslIdSeq_lt hr (Nat.lt_trans hlt hid)

theorem Topology.numDslNodes_le (t : Topology) : t.numDslNodes ≤ t.totalNodes := by
  have hle := List.countP_le_length (l := List.range t.totalNodes) (p := t.isDslCore)
  rwa [List.length_range] at hle

theorem partition_stop (n : Nat) : (partition n).stop = (partition (n + 1)).start := by
  simp only [partition, Extent.stop]
  ring

theorem partition_stop_le {m n : Nat} (h : m < n) :
    (partition m).stop ≤ (partition n).start := by
  rw [partition_stop]
  exact Nat.mul_le_mul_right _ h

theorem partition_apart {m n : Nat} (h : m ≠ n) : (partition m).Apart (partition n) := by
  rcases Nat.lt_or_gt_of_ne h with hlt | hgt
  · exact Or.inl (partition_stop_le hlt)
  · exact Or.inr (partition_stop_le hgt)

/-- The region that `pgas_app_init` gives to a node. -/
def Topology.region (t : Topology) (id : Nat) : Extent :=
  ⟨(partition (t.myRespNode id)).start + t.regionSize id * t.mySeqSharing id, t.regionSize id⟩

/-- The region is in the partition of the responsible node, and not at its beginning unless
the node is the first one there. -/
theorem Topology.region_within (h : id ∈ t.sharing id) :
    (t.region id).Within (partition (t.myRespNode id)) ∧
    (t.mySeqSharing id = 0 → (t.region id).start = (partition (t.myRespNode id)).start) ∧
    (t.mySeqSharing id ≠ 0 →
      (partition (t.myRespNode id)).start + t.regionSize id ≤ (t.region id).start) := by
  have hlast : t.regionSize id * t.mySeqSharing id + t.regionSize id ≤ PGAS_DSL_SIZE_NODE :=
    calc t.regionSize id * t.mySeqSharing id + t.regionSize id
        = t.regionSize id * (t.mySeqSharing id + 1) := rfl
      _ ≤ t.regionSize id * t.numAppSharing id :=
        Nat.mul_le_mul_left _ (Topology.mySeqSharing_lt h)
      _ ≤ PGAS_DSL_SIZE_NODE := Nat.div_mul_le_self _ _
  refine ⟨⟨Nat.le_add_right _ _, ?_⟩, ?_, ?_⟩
  · simp only [Topology.region, partition, Extent.stop]
    omega
  · intro hzero
    simp only [Topology.region, hzero, Nat.mul_zero, Nat.add_zero]
  · intro hne
    apply Nat.add_le_add_left
    exact Nat.le_mul_of_pos_right _ (Nat.pos_of_ne_zero hne)

/-- Addresses do not wrap around. -/
theorem partition_stop_lt (t : Topology) {n : Nat} (hn : n < t.numDslNodes) :
    (partition n).stop < 2 ^ 64 :=
  calc (partition n).stop ≤ (partition t.totalNodes).start :=
        partition_stop_le (Nat.lt_of_lt_of_le hn t.numDslNodes_le)
    _ ≤ 2 ^ 31 * PGAS_DSL_SIZE_NODE := Nat.mul_le_mul_right _ (Nat.le_of_lt t.totalNodes_lt)
    _ < 2 ^ 64 := by decide

end Region

/-! ### The round-robin loop -/

section RoundRobin

variable {N R size k p mine : Nat} {allocs : Nat → Nat} {e : Returned}

theorem returnedRr_cons (start size addr : Nat) (rest : List Nat) :
    returnedRr start size (addr :: rest) =
      ⟨⟨addr, size⟩, some start⟩ :: returnedRr (start + 1) size rest := by
  unfold returnedRr
  rw [List.zipIdx_cons, List.map_cons, List.zipIdx_succ, List.map_map]
  congr 1
  apply List.map_congr_left
  intro a _
  simp only [Function.comp_apply, Returned.mk.injEq, Option.some.injEq, true_and]
  omega

/-- The ranges of a call that starts at the position `p`. -/
def rrRanges (N R size k : Nat) (allocs : Nat → Nat) (p mine : Nat) : List Returned :=
  returnedRr p size (allocRrLoop N R size k allocs (p % N) mine).1

/-- `pgas_allocs` after the call. -/
def rrAllocs (N R size k : Nat) (allocs : Nat → Nat) (p mine : Nat) : Nat → Nat :=
  (allocRrLoop N R size k allocs (p % N) mine).2.1

/-- One round of the loop. -/
theorem allocRrLoop_succ (N R size k : Nat) (allocs : Nat → Nat) (p mine : Nat) :
    rrRanges N R size (k + 1) allocs p mine =
      ⟨⟨allocs (p % N), size⟩, some p⟩ ::
        rrRanges N R size k (Function.update allocs (p % N) (allocs (p % N) + size)) (p + 1)
          (if p % N = R then mine + size else mine) ∧
    (allocRrLoop N R size (k + 1) allocs (p % N) mine).2 =
      (allocRrLoop N R size k (Function.update allocs (p % N) (allocs (p % N) + size))
        ((p + 1) % N) (if p % N = R then mine + size else mine)).2 := by
  unfold rrRanges
  simp only [allocRrLoop, returnedRr_cons, Nat.mod_add_mod, and_self]

theorem allocRrLoop_next (N R size k : Nat) (allocs : Nat → Nat) (p mine : Nat) :
    (allocRrLoop N R size k allocs (p % N) mine).2.2.1 = (p + k) % N := by
  induction k generalizing allocs p mine with
  | zero => rfl
  | succ k ih =>
    rw [(allocRrLoop_succ N R size k allocs p mine).2, ih]
    congr 1
    omega

theorem rrAllocs_succ :
    rrAllocs N R size (k + 1) allocs p mine =
      rrAllocs N R size k (Function.update allocs (p % N) (allocs (p % N) + size)) (p + 1)
        (if p % N = R then mine + size else mine) :=
  congrArg Prod.fst (allocRrLoop_succ N R size k allocs p mine).2

theorem le_update (allocs : Nat → Nat) (n size m : Nat) :
    allocs m ≤ Function.update allocs n (allocs n + size) m := by
  by_cases h : m = n
  · subst h
    rw [Function.update_self]
    omega
  · rw [Function.update_of_ne h]

theorem le_rrAllocs (N R size k : Nat) (allocs : Nat → Nat) (p mine m : Nat) :
    allocs m ≤ rrAllocs N R size k allocs p mine m := by
  induction k generalizing allocs p mine with
  | zero => exact Nat.le_refl _
  | succ k ih =>
    rw [rrAllocs_succ]
    exact Nat.le_trans (le_update allocs (p % N) size m) (ih ..)

/-- The first range of a call lies below the cursor of its node after the call. -/
theorem first_le_rrAllocs (N R size k : Nat) (allocs : Nat → Nat) (p mine : Nat) :
    allocs (p % N) + size ≤
      rrAllocs N R size k (Function.update allocs (p % N) (allocs (p % N) + size)) (p + 1)
        mine (p % N) := by
  have hle := le_rrAllocs N R size k
    (Function.update allocs (p % N) (allocs (p % N) + size)) (p + 1) mine (p % N)
  rwa [Function.update_self] at hle

/-- Elements without bytes move no cursor. -/
theorem rrAllocs_zero (N R k : Nat) (allocs : Nat → Nat) (p mine : Nat) :
    rrAllocs N R 0 k allocs p mine = allocs := by
  induction k generalizing allocs p mine with
  | zero => rfl
  | succ k ih =>
    rw [rrAllocs_succ, ih, Nat.add_zero, Function.update_eq_self]

/-- `alloced_my_node` is what the cursor of the responsible node advances by. -/
theorem allocRrLoop_mine (N R size k : Nat) (allocs : Nat → Nat) (p mine : Nat) :
    (allocRrLoop N R size k allocs (p % N) mine).2.2.2 + allocs R =
      mine + rrAllocs N R size k allocs p mine R := by
  induction k generalizing allocs p mine with
  | zero => rfl
  | succ k ih =>
    rw [(allocRrLoop_succ N R size k allocs p mine).2, rrAllocs_succ]
    have hrest := ih (Function.update allocs (p % N) (allocs (p % N) + size)) (p + 1)
      (if p % N = R then mine + size else mine)
    by_cases hR : p % N = R
    · rw [if_pos hR] at hrest ⊢
      rw [hR, Function.update_self] at hrest
      rw [hR]
      omega
    · rw [if_neg hR] at hrest ⊢
      rwa [Function.update_of_ne (Ne.symm hR)] at hrest

/-- A round-robin range lies between the cursors before and after the call. -/
theorem mem_rrRanges (h : e ∈ rrRanges N R size k allocs p mine) :
    ∃ i < k, e.position = some (p + i) ∧ e.extent.size = size ∧
      allocs ((p + i) % N) ≤ e.extent.start ∧
      e.extent.stop ≤ rrAllocs N R size k allocs p mine ((p + i) % N) := by
  induction k generalizing allocs p mine with
  | zero => exact absurd h List.not_mem_nil
  | succ k ih =>
    rw [(allocRrLoop_succ N R size k allocs p mine).1] at h
    rw [rrAllocs_succ]
    rcases List.mem_cons.mp h with rfl | hrest
    · exact ⟨0, Nat.succ_pos k, rfl, rfl, Nat.le_refl _, first_le_rrAllocs ..⟩
    · obtain ⟨i, hi, hposition, hsize, hstart, hstop⟩ := ih hrest
      rw [show p + 1 + i = p + (i + 1) by omega] at hposition hstart hstop
      exact ⟨i + 1, Nat.succ_lt_succ hi, hposition, hsize,
        Nat.le_trans (le_update ..) hstart, hstop⟩

/-- The ranges of one call are apart as long as the cursors stay in the partitions. -/
theorem pairwise_rrRanges (hN : 0 < N)
    (hbefore : ∀ n < N, (partition n).start ≤ allocs n)
    (hafter : ∀ n < N, rrAllocs N R size k allocs p mine n ≤ (partition n).stop) :
    (rrRanges N R size k allocs p mine).Pairwise fun r r' => r.extent.Apart r'.extent := by
  induction k generalizing allocs p mine with
  | zero => exact List.Pairwise.nil
  | succ k ih =>
    rw [(allocRrLoop_succ N R size k allocs p mine).1, List.pairwise_cons]
    rw [rrAllocs_succ] at hafter
    have hbefore' : ∀ n < N, (partition n).start ≤
        Function.update allocs (p % N) (allocs (p % N) + size) n :=
      fun n hn => Nat.le_trans (hbefore n hn) (le_update allocs (p % N) size n)
    refine ⟨fun e he => ?_, ih hbefore' hafter⟩
    obtain ⟨i, -, -, -, hstart, hstop⟩ := mem_rrRanges he
    have hp : p % N < N := Nat.mod_lt _ hN
    have hi : (p + 1 + i) % N < N := Nat.mod_lt _ hN
    by_cases hsame : (p + 1 + i) % N = p % N
    · -- a later range of the same node begins behind the first
      left
      rw [hsame, Function.update_self] at hstart
      exact hstart
    · rw [Function.update_of_ne hsame] at hstart
      have hfirst := first_le_rrAllocs N R size k allocs p
        (if p % N = R then mine + size else mine)
      have hpstart := hbefore _ hp
      have hpstop := hafter _ hp
      have histart := hbefore _ hi
      have histop := hafter _ hi
      simp only [Extent.Apart, Extent.stop] at *
      rcases Nat.lt_or_gt_of_ne hsame with hlt | hgt
      · right
        have := partition_stop_le hlt
        simp only [Extent.stop] at this
        omega
      · left
        have := partition_stop_le hgt
        simp only [Extent.stop] at this
        omega

/-- A node that is not reached keeps its cursor; the first range of a node that is reached
begins at the cursor. -/
theorem rrRanges_first (N R size k : Nat) (allocs : Nat → Nat) (p mine m : Nat) :
    ((∀ i < k, (p + i) % N ≠ m) ∧ rrAllocs N R size k allocs p mine m = allocs m) ∨
    ∃ i < k, (p + i) % N = m ∧ ⟨⟨allocs m, size⟩, some (p + i)⟩ ∈
      rrRanges N R size k allocs p mine := by
  induction k generalizing allocs p mine with
  | zero => exact Or.inl ⟨fun i hi => absurd hi (Nat.not_lt_zero i), rfl⟩
  | succ k ih =>
    rw [(allocRrLoop_succ N R size k allocs p mine).1, rrAllocs_succ]
    by_cases hm : p % N = m
    · right
      subst hm
      exact ⟨0, Nat.succ_pos k, rfl, List.mem_cons_self⟩
    · have hrest := ih (Function.update allocs (p % N) (allocs (p % N) + size)) (p + 1)
        (if p % N = R then mine + size else mine)
      rw [Function.update_of_ne (Ne.symm hm)] at hrest
      rcases hrest with ⟨hnot, heq⟩ | ⟨i, hi, hnode, hmem⟩
      · left
        refine ⟨fun i hi => ?_, heq⟩
        cases i with
        | zero => exact hm
        | succ i =>
          rw [show p + (i + 1) = p + 1 + i by omega]
          exact hnot i (by omega)
      · right
        rw [show p + 1 + i = p + (i + 1) by omega] at hnode hmem
        exact ⟨i + 1, by omega, hnode, List.mem_cons_of_mem _ hmem⟩

end RoundRobin

/-! ### Invariants of the two cursors -/

section Cursors

variable {t : Topology} {id : Nat} {s u : PgasAllocRun}

/-- Both cursors are where their ranges end, and ranges of one allocator are apart. -/
structure PgasAllocRun.Sound (t : Topology) (id : Nat) (s : PgasAllocRun) : Prop where
  resp : s.app.myRespNode = t.myRespNode id
  next : s.app.rrNext < t.numDslNodes
  num : s.app.ring.freeNum = 0
  mem : s.app.ring.mem = (t.region id).start
  cursors : ∀ n < t.numDslNodes,
    (partition n).start ≤ s.app.allocs n ∧ s.app.allocs n ≤ (partition n).stop
  behind : s.app.allocs (t.myRespNode id) ≤
    (partition (t.myRespNode id)).start + s.app.ring.allocNext
  room : s.returned = [] ∨ s.app.ring.allocNext ≤ t.regionSize id
  rr : ∀ r ∈ s.returned, ∀ k ∈ r.position,
    (partition (k % t.numDslNodes)).start ≤ r.extent.start ∧
    r.extent.stop ≤ s.app.allocs (k % t.numDslNodes)
  own : ∀ r ∈ s.returned, r.position = none → 0 < r.extent.size ∧
    (t.region id).start ≤ r.extent.start ∧
    r.extent.stop ≤ (t.region id).start + s.app.ring.allocNext
  apart : s.returned.Pairwise fun r r' =>
    r.position.isSome = r'.position.isSome → r.extent.Apart r'.extent

/-- What holds besides for the first node of a partition. -/
structure PgasAllocRun.FirstNode (t : Topology) (id : Nat) (s : PgasAllocRun) : Prop where
  level : (∀ r ∈ s.returned, r.position ≠ none) → s.app.allocs (t.myRespNode id) =
    (partition (t.myRespNode id)).start + s.app.ring.allocNext
  below : (∃ r ∈ s.returned, r.position = none) →
    ∃ r ∈ s.returned, r.position = none ∧ r.extent.start ≤ s.app.allocs (t.myRespNode id)
  above : s.RangesApart → ∀ r ∈ s.returned, r.position = none →
    s.app.allocs (t.myRespNode id) ≤ r.extent.start

theorem PgasAllocRun.sound_new (hdsl : 0 < t.numDslNodes) : (PgasAllocRun.new t id).Sound t id where
  resp := rfl
  next := hdsl
  num := rfl
  mem := rfl
  cursors n _ := by
    have hsize : 64 ≤ PGAS_DSL_SIZE_NODE := by decide
    simp only [PgasAllocRun.new, pgasAppInit, partition, Extent.stop]
    omega
  behind := Nat.le_refl _
  room := Or.inl rfl
  rr _ hr := absurd hr List.not_mem_nil
  own _ hr := absurd hr List.not_mem_nil
  apart := List.Pairwise.nil

theorem PgasAllocRun.firstNode_new : (PgasAllocRun.new t id).FirstNode t id where
  level _ := rfl
  below := fun ⟨_, hr, _⟩ => absurd hr List.not_mem_nil
  above _ _ hr := absurd hr List.not_mem_nil

/-- What `pgas_app_alloc` does. -/
def PgasAllocRun.allocated (s : PgasAllocRun) (size : Nat) : PgasAllocRun where
  app := { s.app with ring := { s.app.ring with allocNext := s.app.ring.allocNext + size } }
  returned := ⟨⟨s.app.ring.mem + s.app.ring.allocNext, size⟩, none⟩ :: s.returned

/-- What `pgas_app_alloc_rr` does. -/
def PgasAllocRun.allocatedRr (N : Nat) (s : PgasAllocRun) (k size : Nat) : PgasAllocRun where
  app := { s.app with
    allocs := rrAllocs N s.app.myRespNode size k s.app.allocs s.app.rrNext 0
    rrNext := (s.app.rrNext + k) % N
    ring := { s.app.ring with allocNext := s.app.ring.allocNext +
      (allocRrLoop N s.app.myRespNode size k s.app.allocs (s.app.rrNext % N) 0).2.2.2 } }
  returned := rrRanges N s.app.myRespNode size k s.app.allocs s.app.rrNext 0 ++ s.returned

theorem Topology.regionSize_le (t : Topology) (id : Nat) : t.regionSize id ≤ 2 ^ 25 :=
  Nat.div_le_self _ _

theorem step_alloc (hs : s.Sound t id) (hshare : id ∈ t.sharing id)
    (hR : t.myRespNode id < t.numDslNodes) {size : Nat}
    (h : s.step t id (.alloc size) = some u) :
    1 ≤ size ∧ s.app.ring.allocNext + size ≤ t.regionSize id ∧ u = s.allocated size := by
  obtain ⟨⟨hpos, hroom⟩, hstep⟩ := Option.ite_none_right_eq_some.mp h
  refine ⟨hpos, hroom, ?_⟩
  have hstop := (Topology.region_within hshare).1.2
  have hlt := partition_stop_lt t hR
  have hwidth := t.regionSize_le id
  simp only [Topology.region, Extent.stop] at hstop hlt
  have hptr : (s.app.ring.mem + s.app.ring.allocNext) % 2 ^ 64 =
      s.app.ring.mem + s.app.ring.allocNext := by
    rw [hs.mem]
    apply Nat.mod_eq_of_lt
    simp only [Topology.region]
    omega
  have hnext : (s.app.ring.allocNext + size) % 2 ^ 64 = s.app.ring.allocNext + size :=
    Nat.mod_eq_of_lt (by omega)
  have hmalloc : pgasAppAlloc s.app.ring size =
      (s.app.ring.mem + s.app.ring.allocNext,
        { s.app.ring with allocNext := s.app.ring.allocNext + size }) := by
    unfold pgasAppAlloc FreeRing.malloc
    rw [if_neg (by rw [hs.num]; decide), hptr, hnext]
  simp only [hmalloc] at hstep
  exact (Option.some.inj hstep).symm

theorem step_allocRr (hs : s.Sound t id) {k size : Nat}
    (h : s.step t id (.allocRr k size) = some u) :
    (∀ n < t.numDslNodes, u.app.allocs n ≤ (partition n).stop) ∧
    u.app.ring.allocNext ≤ t.regionSize id ∧ u = s.allocatedRr t.numDslNodes k size := by
  obtain ⟨⟨hbounds, hroom⟩, hstep⟩ := Option.ite_none_right_eq_some.mp h
  have hwidth := t.regionSize_le id
  have hmod : s.app.rrNext % t.numDslNodes = s.app.rrNext := Nat.mod_eq_of_lt hs.next
  have hloop : allocRrLoop t.numDslNodes s.app.myRespNode size k s.app.allocs s.app.rrNext 0 =
      allocRrLoop t.numDslNodes s.app.myRespNode size k s.app.allocs
        (s.app.rrNext % t.numDslNodes) 0 := by
    rw [hmod]
  rw [hloop] at hbounds hroom
  have hu : u = s.allocatedRr t.numDslNodes k size := by
    obtain ⟨r, hr, rfl⟩ := Option.map_eq_some_iff.mp hstep
    obtain ⟨-, hr⟩ := Option.ite_none_right_eq_some.mp hr
    obtain rfl := (Option.some.inj hr).symm
    have hnext := Nat.mod_eq_of_lt (Nat.lt_of_le_of_lt (Nat.le_trans hroom hwidth)
      (by decide : 2 ^ 25 < 2 ^ 64))
    have hlast := allocRrLoop_next t.numDslNodes s.app.myRespNode size k s.app.allocs
      s.app.rrNext 0
    unfold PgasAllocRun.allocatedRr rrRanges rrAllocs
    rw [hloop]
    simp only [hnext, hlast]
  subst hu
  exact ⟨hbounds, hroom, rfl⟩

theorem PgasAllocRun.Sound.allocated (hs : s.Sound t id) {size : Nat} (hpos : 1 ≤ size)
    (hroom : s.app.ring.allocNext + size ≤ t.regionSize id) : (s.allocated size).Sound t id where
  resp := hs.resp
  next := hs.next
  num := hs.num
  mem := hs.mem
  cursors := hs.cursors
  behind := Nat.le_trans hs.behind (Nat.add_le_add_left (Nat.le_add_right _ _) _)
  room := Or.inr hroom
  rr r hr := by
    rcases List.mem_cons.mp hr with rfl | hr
    · intro k hk
      exact absurd hk (Option.not_mem_none k)
    · exact hs.rr r hr
  own r hr := by
    rcases List.mem_cons.mp hr with rfl | hr
    · intro _
      simp only [PgasAllocRun.allocated, Extent.stop, hs.mem]
      omega
    · intro hnone
      obtain ⟨hsize, hstart, hstop⟩ := hs.own r hr hnone
      refine ⟨hsize, hstart, ?_⟩
      simp only [PgasAllocRun.allocated]
      omega
  apart := by
    refine List.pairwise_cons.mpr ⟨fun r hr hkind => ?_, hs.apart⟩
    have hnone : r.position = none := Option.isSome_eq_false_iff.mp hkind.symm |>
      Option.isNone_iff_eq_none.mp
    right
    have hstop := (hs.own r hr hnone).2.2
    rw [hs.mem]
    exact hstop

theorem PgasAllocRun.Sound.allocatedRr (hs : s.Sound t id) (hdsl : 0 < t.numDslNodes)
    {k size : Nat}
    (hafter : ∀ n < t.numDslNodes,
      (s.allocatedRr t.numDslNodes k size).app.allocs n ≤ (partition n).stop)
    (hroom : (s.allocatedRr t.numDslNodes k size).app.ring.allocNext ≤ t.regionSize id) :
    (s.allocatedRr t.numDslNodes k size).Sound t id where
  resp := hs.resp
  next := Nat.mod_lt _ hdsl
  num := hs.num
  mem := hs.mem
  cursors n hn := ⟨Nat.le_trans (hs.cursors n hn).1 (le_rrAllocs ..), hafter n hn⟩
  behind := by
    -- the ring of the node moves by what the rounds took of its own partition
    have hmine := allocRrLoop_mine t.numDslNodes s.app.myRespNode size k s.app.allocs
      s.app.rrNext 0
    have hbehind := hs.behind
    rw [← hs.resp] at hbehind ⊢
    simp only [PgasAllocRun.allocatedRr]
    omega
  room := Or.inr hroom
  rr r hr j hj := by
    rcases List.mem_append.mp hr with hnew | hold
    · obtain ⟨i, -, hposition, -, hstart, hstop⟩ := mem_rrRanges hnew
      obtain rfl : s.app.rrNext + i = j := Option.some.inj (hposition.symm.trans hj)
      exact ⟨Nat.le_trans (hs.cursors _ (Nat.mod_lt _ hdsl)).1 hstart, hstop⟩
    · obtain ⟨hstart, hstop⟩ := hs.rr r hold j hj
      exact ⟨hstart, Nat.le_trans hstop (le_rrAllocs ..)⟩
  own r hr hnone := by
    rcases List.mem_append.mp hr with hnew | hold
    · obtain ⟨i, -, hposition, -⟩ := mem_rrRanges hnew
      exact absurd (hposition.symm.trans hnone) (Option.some_ne_none _)
    · obtain ⟨hsize, hstart, hstop⟩ := hs.own r hold hnone
      refine ⟨hsize, hstart, Nat.le_trans hstop ?_⟩
      exact Nat.add_le_add_left (Nat.le_add_right _ _) _
  apart := by
    refine List.pairwise_append.mpr ⟨?_, hs.apart, ?_⟩
    · refine (pairwise_rrRanges hdsl (fun n hn => (hs.cursors n hn).1) hafter).imp ?_
      intro r r' hapart _
      exact hapart
    · intro r hr r' hr' hkind
      obtain ⟨i, -, hposition, -, hstart, hstop⟩ := mem_rrRanges hr
      rw [hposition, Option.isSome_some] at hkind
      obtain ⟨j, hj⟩ := Option.isSome_iff_exists.mp hkind.symm
      obtain ⟨hstart', hstop'⟩ := hs.rr r' hr' j hj
      have hin : (s.app.rrNext + i) % t.numDslNodes < t.numDslNodes := Nat.mod_lt _ hdsl
      have hjn : j % t.numDslNodes < t.numDslNodes := Nat.mod_lt _ hdsl
      have hcursor := hs.cursors _ hin
      have hcursor' := hs.cursors _ hjn
      have hend := hafter _ hin
      -- ranges of two partitions lie apart with them, those of one by its cursor
      rcases Nat.lt_trichotomy ((s.app.rrNext + i) % t.numDslNodes) (j % t.numDslNodes) with
        hlt | heq | hgt
      · left
        have hle := partition_stop_le hlt
        exact Nat.le_trans hstop (Nat.le_trans hend (Nat.le_trans hle hstart'))
      · right
        rw [heq] at hstart
        exact Nat.le_trans hstop' hstart
      · right
        have hle := partition_stop_le hgt
        exact Nat.le_trans hstop'
          (Nat.le_trans hcursor'.2 (Nat.le_trans hle (Nat.le_trans hcursor.1 hstart)))

theorem PgasAllocRun.Sound.step (hs : s.Sound t id) (hshare : id ∈ t.sharing id)
    (hR : t.myRespNode id < t.numDslNodes) {e : PgasAllocEvent}
    (h : s.step t id e = some u) : u.Sound t id := by
  cases e with
  | alloc size =>
    obtain ⟨hpos, hroom, rfl⟩ := step_alloc hs hshare hR h
    exact hs.allocated hpos hroom
  | allocRr k size =>
    obtain ⟨hafter, hroom, rfl⟩ := step_allocRr hs h
    exact hs.allocatedRr (Nat.zero_lt_of_lt hR) hafter hroom

/-- Where the bytes of the two allocators meet: only a round-robin range of the node's own
partition can overlap with a block of `pgas_app_alloc`. -/
theorem rangesApart_iff (hs : s.Sound t id) (hshare : id ∈ t.sharing id)
    (hR : t.myRespNode id < t.numDslNodes) :
    s.RangesApart ↔ ∀ r ∈ s.returned, ∀ r' ∈ s.returned, r.position = none →
      (∃ k ∈ r'.position, k % t.numDslNodes = t.myRespNode id) →
      ¬ r.extent.Overlaps r'.extent := by
  constructor
  · rintro hapart r hr r' hr' hnone ⟨k, hk, -⟩
    refine hapart.forall hr hr' ?_
    rintro rfl
    rw [hnone] at hk
    exact Option.not_mem_none k hk
  · intro hcross
    have hmixed : ∀ r ∈ s.returned, ∀ r' ∈ s.returned, ∀ k, r.position = none →
        r'.position = some k → ¬ r.extent.Overlaps r'.extent := by
      intro r hr r' hr' k hnone hk
      by_cases hnode : k % t.numDslNodes = t.myRespNode id
      · exact hcross r hr r' hr' hnone ⟨k, hk, hnode⟩
      · have hown := (hs.own r hr hnone).2
        have hrr := hs.rr r' hr' k hk
        have hregion := (Topology.region_within hshare).1
        have hcursor := hs.cursors _ (Nat.mod_lt k (Nat.zero_lt_of_lt hR))
        have hroom : s.app.ring.allocNext ≤ t.regionSize id :=
          hs.room.resolve_left (List.ne_nil_of_mem hr)
        have hblock : r.extent.Within (partition (t.myRespNode id)) :=
          ⟨Nat.le_trans hregion.1 hown.1, Nat.le_trans hown.2
            (Nat.le_trans (Nat.add_le_add_left hroom _) hregion.2)⟩
        have helem : r'.extent.Within (partition (k % t.numDslNodes)) :=
          ⟨hrr.1, Nat.le_trans hrr.2 hcursor.2⟩
        exact ((partition_apart (Ne.symm hnode)).within hblock helem).not_overlaps
    refine hs.apart.imp_of_mem ?_
    intro r r' hr hr' hkind
    cases hposition : r.position with
    | none =>
      cases hposition' : r'.position with
      | none => exact (hkind (by rw [hposition, hposition'])).not_overlaps
      | some k => exact hmixed r hr r' hr' k hposition hposition'
    | some k =>
      cases hposition' : r'.position with
      | none => exact fun h => hmixed r' hr' r hr k hposition' hposition h.symm
      | some k' =>
        exact (hkind (by rw [hposition, hposition', Option.isSome_some,
          Option.isSome_some])).not_overlaps

/-- The regions of the other nodes lie behind everything that the cursor of the partition
goes through. -/
theorem PgasAllocRun.Sound.rangesApart (hs : s.Sound t id) (hshare : id ∈ t.sharing id)
    (hR : t.myRespNode id < t.numDslNodes) (hseq : t.mySeqSharing id ≠ 0) : s.RangesApart := by
  rw [rangesApart_iff hs hshare hR]
  rintro r hr r' hr' hnone ⟨k, hk, hnode⟩
  have hown := (hs.own r hr hnone).2
  have hrr := (hs.rr r' hr' k hk).2
  rw [hnode] at hrr
  have hroom : s.app.ring.allocNext ≤ t.regionSize id :=
    hs.room.resolve_left (List.ne_nil_of_mem hr)
  have hbehind := hs.behind
  have hregion := (Topology.region_within hshare).2.2 hseq
  have hapart : r.extent.Apart r'.extent := by
    right
    omega
  exact hapart.not_overlaps

theorem PgasAllocRun.Sound.inPartitions (hs : s.Sound t id) (hshare : id ∈ t.sharing id)
    (hR : t.myRespNode id < t.numDslNodes) : s.InPartitions t.numDslNodes := by
  intro r hr
  have hposition : ∀ k ∈ r.position, r.extent.Within (partition (k % t.numDslNodes)) := by
    intro k hk
    have hcursor := hs.cursors _ (Nat.mod_lt k (Nat.zero_lt_of_lt hR))
    obtain ⟨hstart, hstop⟩ := hs.rr r hr k hk
    exact ⟨hstart, Nat.le_trans hstop hcursor.2⟩
  refine ⟨hposition, ?_⟩
  cases hkind : r.position with
  | none =>
    obtain ⟨-, hstart, hstop⟩ := hs.own r hr hkind
    have hregion := (Topology.region_within hshare).1
    have hroom : s.app.ring.allocNext ≤ t.regionSize id :=
      hs.room.resolve_left (List.ne_nil_of_mem hr)
    exact ⟨t.myRespNode id, hR, Nat.le_trans hregion.1 hstart,
      Nat.le_trans hstop (Nat.le_trans (Nat.add_le_add_left hroom _) hregion.2)⟩
  | some k => exact ⟨k % t.numDslNodes, Nat.mod_lt k (Nat.zero_lt_of_lt hR), hposition k hkind⟩

/-- A round-robin element of the own partition gets the first byte that `pgas_app_alloc`
returned. -/
theorem not_rangesApart_allocatedRr (hs : s.Sound t id) (hf : s.FirstNode t id)
    (hapart : s.RangesApart) (hown : ∃ r ∈ s.returned, r.position = none) {k size i : Nat}
    (hsize : 0 < size) (hi : i < k)
    (hnode : (s.app.rrNext + i) % t.numDslNodes = t.myRespNode id) :
    ¬ (s.allocatedRr t.numDslNodes k size).RangesApart := by
  intro hafter
  obtain ⟨r, hr, hnone, hle⟩ := hf.below hown
  have hstart : r.extent.start = s.app.allocs (t.myRespNode id) :=
    Nat.le_antisymm hle (hf.above hapart r hr hnone)
  obtain ⟨hnot, -⟩ | ⟨j, -, -, hmem⟩ := rrRanges_first t.numDslNodes s.app.myRespNode size k
    s.app.allocs s.app.rrNext 0 (t.myRespNode id)
  · exact hnot i hi hnode
  · have hdisjoint := (List.pairwise_append.mp hafter).2.2 _ hmem r hr
    apply hdisjoint
    have hpos := (hs.own r hr hnone).1
    simp only [Extent.Overlaps, Extent.stop, hstart]
    omega

theorem PgasAllocRun.FirstNode.step (hf : s.FirstNode t id) (hs : s.Sound t id)
    (hshare : id ∈ t.sharing id) (hR : t.myRespNode id < t.numDslNodes)
    (hseq : t.mySeqSharing id = 0) {e : PgasAllocEvent} (h : s.step t id e = some u) :
    u.FirstNode t id := by
  have hbegin := (Topology.region_within hshare).2.1 hseq
  cases e with
  | alloc size =>
    obtain ⟨-, -, rfl⟩ := step_alloc hs hshare hR h
    have hnew : (s.app.ring.mem + s.app.ring.allocNext) =
        (partition (t.myRespNode id)).start + s.app.ring.allocNext := by
      rw [hs.mem, hbegin]
    constructor
    case level =>
      intro hnone
      exact absurd rfl (hnone _ List.mem_cons_self)
    case below =>
      intro _
      by_cases hown : ∃ r ∈ s.returned, r.position = none
      · obtain ⟨r, hr, hnone, hle⟩ := hf.below hown
        exact ⟨r, List.mem_cons_of_mem _ hr, hnone, hle⟩
      · have hlevel := hf.level fun r hr hnone => hown ⟨r, hr, hnone⟩
        exact ⟨_, List.mem_cons_self, rfl, Nat.le_of_eq (hnew.trans hlevel.symm)⟩
    case above =>
      intro hapart r hr hnone
      rcases List.mem_cons.mp hr with rfl | hr
      · rw [hnew]
        exact hs.behind
      · exact hf.above (List.pairwise_cons.mp hapart).2 r hr hnone
  | allocRr k size =>
    obtain ⟨-, -, rfl⟩ := step_allocRr hs h
    have hold : ∀ r ∈ (s.allocatedRr t.numDslNodes k size).returned, r.position = none →
        r ∈ s.returned := by
      intro r hr hnone
      refine (List.mem_append.mp hr).resolve_left fun hnew => ?_
      obtain ⟨i, -, hposition, -⟩ := mem_rrRanges hnew
      exact Option.some_ne_none _ (hposition.symm.trans hnone)
    constructor
    case level =>
      intro hnone
      have hlevel := hf.level fun r hr => hnone r (List.mem_append_right _ hr)
      have hmine := allocRrLoop_mine t.numDslNodes s.app.myRespNode size k s.app.allocs
        s.app.rrNext 0
      rw [← hs.resp] at hlevel ⊢
      simp only [PgasAllocRun.allocatedRr]
      omega
    case below =>
      rintro ⟨r, hr, hnone⟩
      obtain ⟨r, hr, hnone, hle⟩ := hf.below ⟨r, hold r hr hnone, hnone⟩
      exact ⟨r, List.mem_append_right _ hr, hnone, Nat.le_trans hle (le_rrAllocs ..)⟩
    case above =>
      intro hafter r hr hnone
      have hapart : s.RangesApart := (List.pairwise_append.mp hafter).2.1
      have hmem := hold r hr hnone
      have habove := hf.above hapart r hmem hnone
      have hsame : rrAllocs t.numDslNodes s.app.myRespNode size k s.app.allocs s.app.rrNext 0
          (t.myRespNode id) = s.app.allocs (t.myRespNode id) := by
        rcases Nat.eq_zero_or_pos size with rfl | hsize
        · rw [rrAllocs_zero]
        · -- a round that came to the node's own partition would have hit the range
          obtain ⟨-, heq⟩ | ⟨i, hi, hnode, -⟩ := rrRanges_first t.numDslNodes
            s.app.myRespNode size k s.app.allocs s.app.rrNext 0 (t.myRespNode id)
          · exact heq
          · exact absurd hafter (not_rangesApart_allocatedRr hs hf hapart ⟨r, hmem, hnone⟩ hsize
              hi hnode)
      exact Nat.le_trans (Nat.le_of_eq hsame) habove

/-- One call of the first node keeps the ranges apart just when it is in order. -/
theorem rangesApart_step_iff (hs : s.Sound t id) (hf : s.FirstNode t id)
    (hshare : id ∈ t.sharing id) (hR : t.myRespNode id < t.numDslNodes)
    (hseq : t.mySeqSharing id = 0) (hapart : s.RangesApart) {e : PgasAllocEvent}
    (h : s.step t id e = some u) : u.RangesApart ↔ s.RoundFirst t id e := by
  have hu := hs.step hshare hR h
  have hcross := (rangesApart_iff hs hshare hR).mp hapart
  rw [rangesApart_iff hu hshare hR]
  cases e with
  | alloc size =>
    obtain ⟨-, -, rfl⟩ := step_alloc hs hshare hR h
    refine iff_of_true ?_ trivial
    rintro r hr r' hr' hnone ⟨k, hk, hnode⟩
    have hr' : r' ∈ s.returned := by
      refine (List.mem_cons.mp hr').resolve_left ?_
      rintro rfl
      exact Option.not_mem_none k hk
    rcases List.mem_cons.mp hr with rfl | hr
    · -- a new block lies behind the cursor of the partition
      have hstop := (hs.rr r' hr' k hk).2
      rw [hnode] at hstop
      have hbegin := (Topology.region_within hshare).2.1 hseq
      have hbehind := hs.behind
      apply Extent.Apart.not_overlaps
      right
      rw [hs.mem, hbegin]
      exact Nat.le_trans hstop hbehind
    · exact hcross r hr r' hr' hnone ⟨k, hk, hnode⟩
  | allocRr k size =>
    obtain ⟨-, -, rfl⟩ := step_allocRr hs h
    constructor
    · intro hafter _ hown hsize i hi hnode
      rw [hs.resp] at hnode
      exact not_rangesApart_allocatedRr hs hf hapart hown hsize hi hnode
        ((rangesApart_iff hu hshare hR).mpr hafter)
    · rintro hround r hr r' hr' hnone ⟨j, hj, hnode⟩
      have hr : r ∈ s.returned := by
        refine (List.mem_append.mp hr).resolve_left fun hnew => ?_
        obtain ⟨i, -, hposition, -⟩ := mem_rrRanges hnew
        exact Option.some_ne_none _ (hposition.symm.trans hnone)
      rcases List.mem_append.mp hr' with hnew | hold
      · obtain ⟨i, hi, hposition, hsize, -⟩ := mem_rrRanges hnew
        obtain rfl : s.app.rrNext + i = j := Option.some.inj (hposition.symm.trans hj)
        rintro ⟨-, hpos, -⟩
        rw [hsize] at hpos
        exact hround hseq ⟨r, hr, hnone⟩ hpos i hi (hnode.trans hs.resp.symm)
      · exact hcross r hr r' hold hnone ⟨j, hj, hnode⟩

/-- **The two allocators.**  In every run within the bounds every range lies in one
partition, and a round-robin element in the partition of its position; and in all states of
the run the ranges are apart, if and only if the first node of a partition gets no
round-robin element there after it has called `pgas_app_alloc`. -/
theorem pgas_ranges_apart_iff (t : Topology) (id : Nat) (happ : t.isAppCore id)
    (hpos : 0 < id) (hid : id < t.totalNodes) (hdsl : 0 < t.numDslNodes)
    (es : List PgasAllocEvent) (s : PgasAllocRun)
    (hexec : Exec (partialGraph (PgasAllocRun.step t id)) (PgasAllocRun.new t id) es s) :
    s.InPartitions t.numDslNodes ∧
    ((∀ fs u, fs <+: es →
        Exec (partialGraph (PgasAllocRun.step t id)) (PgasAllocRun.new t id) fs u →
        u.RangesApart) ↔
      Exec (restrict (PgasAllocRun.RoundFirst t id) (partialGraph (PgasAllocRun.step t id)))
        (PgasAllocRun.new t id) es s) := by
  have hshare := Topology.mem_sharing happ hpos hid
  have hR := Topology.myRespNode_lt hid hdsl
  constructor
  · have hsound : s.Sound t id := hexec.invariant (PgasAllocRun.Sound t id)
      (fun s e u hs hstep => hs.step hshare hR hstep) (PgasAllocRun.sound_new hdsl)
    exact hsound.inPartitions hshare hR
  · refine hexec.forall_prefix_iff
      (I := fun s => s.Sound t id ∧ (t.mySeqSharing id = 0 → s.FirstNode t id)) ?_ ?_
      ⟨PgasAllocRun.sound_new hdsl, fun _ => PgasAllocRun.firstNode_new⟩ List.Pairwise.nil
    · rintro s e u ⟨hs, hf⟩ hstep
      exact ⟨hs.step hshare hR hstep,
        fun hseq => (hf hseq).step hs hshare hR hseq hstep⟩
    · rintro s e u ⟨hs, hf⟩ hapart hstep
      by_cases hseq : t.mySeqSharing id = 0
      · exact rangesApart_step_iff hs (hf hseq) hshare hR hseq hapart hstep
      · refine iff_of_true ((hs.step hshare hR hstep).rangesApart hshare hR hseq) ?_
        cases e with
        | alloc size => exact trivial
        | allocRr k size => exact fun hzero => absurd hzero hseq

end Cursors

/-- One service node, and two application nodes that share it. -/
def threeNodes : Topology := ⟨3, fun n => n != 0, by decide⟩

/-- The first application node asks for a block of 8 bytes after two elements of 16. -/
theorem pgas_ranges_apart_iff_threeNodes :
    ∃ s, Exec (partialGraph (PgasAllocRun.step threeNodes 1)) (PgasAllocRun.new threeNodes 1)
        [.allocRr 2 16, .alloc 8] s ∧ s.RangesApart := by
  have hrun : ([.allocRr 2 16, .alloc 8].foldlM
      (guarded (PgasAllocRun.RoundFirst threeNodes 1) (PgasAllocRun.step threeNodes 1))
      (PgasAllocRun.new threeNodes 1)).isSome = true := by
    decide +kernel
  obtain ⟨s, hs⟩ := Option.isSome_iff_exists.mp hrun
  have hguarded := exec_guarded_iff.mpr hs
  have hexec := hguarded.of_restrict
  obtain ⟨-, hiff⟩ := pgas_ranges_apart_iff threeNodes 1 rfl (by decide) (by decide)
    (by decide +kernel) _ s hexec
  exact ⟨s, hexec, hiff.mpr hguarded _ s List.prefix_rfl hexec⟩

/-- The other order gives the byte 64 of the partition twice. -/
theorem block_is_element :
    ∃ s, Exec (partialGraph (PgasAllocRun.step threeNodes 1)) (PgasAllocRun.new threeNodes 1)
        [.alloc 8, .allocRr 1 8] s ∧
      s.returned = [⟨⟨64, 8⟩, some 0⟩, ⟨⟨64, 8⟩, none⟩] ∧ ¬ s.RangesApart := by
  have hrun : ([PgasAllocEvent.alloc 8, .allocRr 1 8].foldlM
      (PgasAllocRun.step threeNodes 1) (PgasAllocRun.new threeNodes 1)).any
        (fun s => decide (s.returned = [⟨⟨64, 8⟩, some 0⟩, ⟨⟨64, 8⟩, none⟩])) = true := by
    decide +kernel
  obtain ⟨s, hs, hreturned⟩ := (Option.any_eq_true _ _).mp hrun
  have hranges := of_decide_eq_true hreturned
  refine ⟨s, exec_partialGraph_iff.mpr hs, hranges, ?_⟩
  unfold PgasAllocRun.RangesApart
  rw [hranges]
  decide

end TM2C
