import TM2C.LinkedListSet

/-!
# The sorted list is a set

Both codes of `bmarks/microbench/linkedlist/linkedlist.c` find the same two neighbours and
leave the same memory.  A call on a list that stores a set does what the set operation does.

The two codes walk the list by different loops, one on the node and its successor, one on the
values that `TX_LOAD` returns.  Both stop at the first node whose key is not below the one looked
for (`search_eq`), and from there on every case of `add`, `remove` and `contains` is one equation
for both of them: `add_eq`, `remove_eq`, `contains_eq`.  For the transaction these include the
write set, whose stores reach the memory at the commit.

`SetMem.Represents` is the representation invariant: a segment of the library from the head to
the null pointer, through all nodes there are, with the sentinels around the sorted keys of the
set.  `SetCall.run_eq` says that one call, in either code, leaves a memory that represents what
the operation leaves of the set, returns what the operation returns, and frees the nodes that
were unlinked; the run theorem is the induction.  `set_size` counts in an `int`, so its part is
said for sets that the `int` can count.
-/

namespace TM2C

open Transition LinkedList

/-! ### Searching -/

section Search

variable {m : SetMem} {p : Option Nat} {l : List (Nat × Int)} {a : Nat} {k : Int} {n : ListNode}

theorem SetMem.nextp_eq (h : m.heap a = some n) : m.nextp (some a) = some n.nextp := by
  simp only [SetMem.nextp, Option.bind_some, h, Option.map_some]

theorem SetMem.val_eq (h : m.heap a = some n) : m.val (some a) = some n.val := by
  simp only [SetMem.val, Option.bind_some, h, Option.map_some]

theorem pathFrom_eq (h : Seg ListNode.mk m.heap p l none) {fuel : Nat}
    (hfuel : l.length < fuel) : pathFrom m fuel p = some l := by
  induction l generalizing p fuel with
  | nil =>
    obtain rfl : p = none := h
    cases fuel <;> rfl
  | cons x l ih =>
    obtain ⟨rfl, r, hr, hrest⟩ := h
    obtain ⟨fuel, rfl⟩ : ∃ j, fuel = j + 1 := ⟨fuel - 1, by omega⟩
    have hlist := ih hrest (Nat.lt_of_succ_lt_succ hfuel)
    simp only [pathFrom, hr, Option.bind_some, hlist, Option.map_some]

/-- With an empty write set a load is a read. -/
theorem SetTx.load_eq (freed : List (Option Nat)) (q : Option Nat) :
    (⟨m, [], freed⟩ : SetTx).load q = m.nextp q := by
  cases q <;> rfl

/-- Both loops stop at the first value from `k` on, with its predecessor. -/
theorem find_eq (h : Seg ListNode.mk m.heap p l none) (hlast : ∃ x ∈ l, k ≤ x.2)
    {y : Nat × Int} (hy : y.2 < k) :
    ∃ pre z x post, y :: l = pre ++ z :: x :: post ∧ z.2 < k ∧ k ≤ x.2 ∧
      ∀ fuel, l.length ≤ fuel →
        seqFind m k fuel (some y.1) p = some (some z.1, some x.1) ∧
        txFind ⟨m, [], []⟩ k fuel (some y.1) p = some (some z.1, some x.1, x.2) := by
  induction l generalizing p y with
  | nil =>
    obtain ⟨x, hx, -⟩ := hlast
    exact absurd hx List.not_mem_nil
  | cons x l ih =>
    obtain ⟨rfl, r, hr, hrest⟩ := h
    have hval := SetMem.val_eq hr
    have hnext := SetMem.nextp_eq hr
    by_cases hx : x.2 < k
    · have hlast' : ∃ z ∈ l, k ≤ z.2 := by
        obtain ⟨z, hz, hle⟩ := hlast
        rcases List.mem_cons.mp hz with rfl | hz
        · omega
        · exact ⟨z, hz, hle⟩
      obtain ⟨pre, z, w, post, heq, hz, hw, hfind⟩ := ih hrest hlast' hx
      refine ⟨y :: pre, z, w, post, congrArg (y :: ·) heq, hz, hw, fun fuel hfuel => ?_⟩
      obtain ⟨fuel, rfl⟩ : ∃ j, fuel = j + 1 := ⟨fuel - 1, by rw [List.length_cons] at hfuel; omega⟩
      obtain ⟨hseq, htx⟩ := hfind fuel (Nat.le_of_succ_le_succ hfuel)
      constructor
      · simp only [seqFind, hval, Option.bind_some, if_pos hx, hnext]
        exact hseq
      · simp only [txFind, hval, Option.bind_some, SetTx.load_eq, hnext]
        exact (if_neg (not_le_of_gt hx)).trans htx
    · refine ⟨[], y, x, l, rfl, hy, not_lt.mp hx, fun fuel hfuel => ?_⟩
      obtain ⟨fuel, rfl⟩ : ∃ j, fuel = j + 1 := ⟨fuel - 1, by rw [List.length_cons] at hfuel; omega⟩
      constructor
      · simp only [seqFind, hval, Option.bind_some, if_neg hx]
      · simp only [txFind, hval, Option.bind_some]
        exact if_pos (not_lt.mp hx)

/-- The round before the loop of `set_add` and `set_remove` is the first one of the loop. -/
theorem txSearch_eq (t : SetTx) (headp : Nat) (k : Int) :
    txSearch t headp k = (t.load (some headp)).bind fun next =>
      txFind t k (t.mem.nodes + 2) (some headp) next := rfl

/-- The searches of all calls. -/
theorem search_eq {headp : Nat} (h : Seg ListNode.mk m.heap (some headp) l none)
    (hcount : l.length ≤ m.nodes + 1) (hfirst : ∀ y ∈ l.head?, y.2 < k)
    (hlast : ∃ x ∈ l, k ≤ x.2) :
    ∃ pre z x post, l = pre ++ z :: x :: post ∧ z.2 < k ∧ k ≤ x.2 ∧
      seqSearch m headp k = some (some z.1, some x.1) ∧
      txSearch ⟨m, [], []⟩ headp k = some (some z.1, some x.1, x.2) ∧
      ((⟨m, [], []⟩ : SetTx).load (some headp)).bind
        (fun next => txFind ⟨m, [], []⟩ k (m.nodes + 1) (some headp) next) =
          some (some z.1, some x.1, x.2) := by
  cases l with
  | nil => exact absurd h (Option.some_ne_none _)
  | cons y l =>
    obtain ⟨hy, r, hr, hrest⟩ := h
    obtain rfl := Option.some.inj hy
    have hyk : y.2 < k := hfirst y rfl
    have hlast' : ∃ z ∈ l, k ≤ z.2 := by
      obtain ⟨z, hz, hle⟩ := hlast
      rcases List.mem_cons.mp hz with rfl | hz
      · omega
      · exact ⟨z, hz, hle⟩
    rw [List.length_cons] at hcount
    obtain ⟨pre, z, x, post, heq, hz, hx, hfind⟩ := find_eq hrest hlast' hyk
    have hnext := SetMem.nextp_eq hr
    refine ⟨pre, z, x, post, heq, hz, hx, ?_, ?_, ?_⟩
    · simp only [seqSearch, hnext, Option.bind_some]
      exact (hfind (m.nodes + 1) (by omega)).1
    · simp only [txSearch_eq, SetTx.load_eq, hnext, Option.bind_some]
      exact (hfind (m.nodes + 2) (by omega)).2
    · simp only [SetTx.load_eq, hnext, Option.bind_some]
      exact (hfind (m.nodes + 1) (by omega)).2

/-- `set_size` counts the nodes between the first and the last. -/
theorem sizeLoop_eq (h : Seg ListNode.mk m.heap p l none) {size : Nat} {fuel : Nat}
    (hl : l ≠ []) (hfuel : l.length ≤ fuel) (hsize : size < 2 ^ 31) :
    m.sizeLoop fuel p size =
      if size + (l.length - 1) < 2 ^ 31 then some (size + (l.length - 1)) else none := by
  induction l generalizing p size fuel with
  | nil => exact absurd rfl hl
  | cons x l ih =>
    obtain ⟨rfl, r, hr, hrest⟩ := h
    obtain ⟨fuel, rfl⟩ : ∃ j, fuel = j + 1 := ⟨fuel - 1, by rw [List.length_cons] at hfuel; omega⟩
    have hnext := SetMem.nextp_eq hr
    simp only [SetMem.sizeLoop, hnext, Option.bind_some]
    cases l with
    | nil =>
      obtain rfl : r = none := hrest
      rw [if_neg (not_not.mpr rfl)]
      exact (if_pos hsize).symm
    | cons y l =>
      have hsome : r ≠ none := by
        rw [hrest.1]
        exact Option.some_ne_none _
      rw [if_pos hsome]
      simp only [List.length_cons, Nat.add_sub_cancel] at ih hfuel ⊢
      by_cases hroom : size + 1 < 2 ^ 31
      · rw [if_pos hroom, ih hrest (by simp) (by omega) hroom]
        rw [show size + 1 + l.length = size + (l.length + 1) by omega]
      · rw [if_neg hroom, if_neg (by omega)]

end Search

/-! ### What the calls leave -/

section Outcomes

variable {m : SetMem} {headp node : Nat} {k : Int} {z x : Nat × Int} {r : Option Nat}

theorem SetMem.setNextp_eq {a : Nat} {n : ListNode} (h : m.heap a = some n) (q : Option Nat) :
    m.setNextp (some a) q =
      some { m with heap := Function.update m.heap a (some ⟨n.val, q⟩) } := by
  simp only [SetMem.setNextp, Option.bind_some, h, Option.map_some]

theorem SetMem.shfree_eq {a : Nat} {n : ListNode} (h : m.heap a = some n) :
    m.shfree (some a) = some ⟨Function.update m.heap a none, m.nodes - 1⟩ := by
  simp only [SetMem.shfree, Option.bind_some, h, Option.map_some]

/-- The memory with the key `k` in a node between `z` and `x`. -/
def SetMem.linked (m : SetMem) (node : Nat) (k : Int) (z x : Nat × Int) : SetMem :=
  ⟨Function.update (Function.update m.heap node (some ⟨k, some x.1⟩)) z.1
    (some ⟨z.2, some node⟩), m.nodes + 1⟩

/-- The memory without `x`, the node behind `z`, which leads to `r`. -/
def SetMem.unlinked (m : SetMem) (z x : Nat × Int) (r : Option Nat) : SetMem :=
  ⟨Function.update (Function.update m.heap z.1 (some ⟨z.2, r⟩)) x.1 none, m.nodes - 1⟩

theorem contains_eq (hx : m.heap x.1 = some ⟨x.2, r⟩)
    (hseq : seqSearch m headp k = some (some z.1, some x.1))
    (htx : ((⟨m, [], []⟩ : SetTx).load (some headp)).bind
      (fun next => txFind ⟨m, [], []⟩ k (m.nodes + 1) (some headp) next) =
        some (some z.1, some x.1, x.2)) :
    seqContains m headp k = some ⟨decide (x.2 = k), m, []⟩ ∧
    txContains m headp k = some ⟨decide (x.2 = k), m, []⟩ := by
  constructor
  · simp only [seqContains, hseq, Option.bind_some, SetMem.val_eq hx, Option.map_some]
  · have hmap : txContains m headp k =
        (((⟨m, [], []⟩ : SetTx).load (some headp)).bind fun next =>
          txFind ⟨m, [], []⟩ k (m.nodes + 1) (some headp) next).map
            fun r => ⟨decide (r.2.2 = k), m, []⟩ := by
      simp only [txContains, Option.map_bind]
      rfl
    rw [hmap, htx]
    rfl

variable (hx : m.heap x.1 = some ⟨x.2, r⟩) (hz : m.heap z.1 = some ⟨z.2, some x.1⟩)
  (hseq : seqSearch m headp k = some (some z.1, some x.1))
  (htx : txSearch ⟨m, [], []⟩ headp k = some (some z.1, some x.1, x.2))

include hx hz hseq htx

theorem add_eq (hnode : z.1 ≠ node) :
    seqAdd m headp k node =
      some (if x.2 ≠ k then ⟨true, m.linked node k z x, []⟩ else ⟨false, m, []⟩) ∧
    txAdd m headp k node =
      some (if x.2 ≠ k then ⟨true, m.linked node k z x, []⟩ else ⟨false, m, []⟩) := by
  have hstore : (m.newNode node k (some x.1)).setNextp (some z.1) (some node) =
      some (m.linked node k z x) :=
    SetMem.setNextp_eq (m := m.newNode node k (some x.1)) (n := ⟨z.2, some x.1⟩)
      ((Function.update_of_ne hnode _ _).trans hz) _
  constructor
  · simp only [seqAdd, hseq, Option.bind_some, SetMem.val_eq hx]
    by_cases hk : x.2 = k
    · rw [if_neg (not_not.mpr hk), if_neg (not_not.mpr hk)]
    · rw [if_pos hk, if_pos hk, hstore]
      rfl
  · simp only [txAdd, htx, Option.bind_some]
    by_cases hk : x.2 = k
    · rw [if_neg (not_not.mpr hk), if_neg (not_not.mpr hk)]
      rfl
    · rw [if_pos hk, if_pos hk]
      simp only [SetTx.store, Option.map_some, Option.bind_some, SetTx.commitMem,
        List.foldr_cons, List.foldr_nil, hstore]

theorem remove_eq (hzx : z.1 ≠ x.1) :
    seqRemove m headp k =
      some (if x.2 = k then ⟨true, m.unlinked z x r, [some x.1]⟩ else ⟨false, m, []⟩) ∧
    txRemove m headp k =
      some (if x.2 = k then ⟨true, m.unlinked z x r, [some x.1]⟩ else ⟨false, m, []⟩) := by
  have hstore := SetMem.setNextp_eq hz r
  have hfree : (⟨Function.update m.heap z.1 (some ⟨z.2, r⟩), m.nodes⟩ : SetMem).shfree
      (some x.1) = some (m.unlinked z x r) :=
    SetMem.shfree_eq (n := ⟨x.2, r⟩) ((Function.update_of_ne (Ne.symm hzx) _ _).trans hx)
  constructor
  · simp only [seqRemove, hseq, Option.bind_some, SetMem.val_eq hx]
    by_cases hk : x.2 = k
    · rw [if_pos hk, if_pos hk]
      simp only [SetMem.nextp_eq hx, Option.bind_some, hstore, hfree, Option.map_some]
    · rw [if_neg hk, if_neg hk]
  · simp only [txRemove, htx, Option.bind_some]
    by_cases hk : x.2 = k
    · rw [if_pos hk, if_pos hk]
      simp only [SetTx.load_eq, SetMem.nextp_eq hx, Option.bind_some, SetTx.store, Option.map_some,
        SetTx.shfree, SetTx.commitMem, List.foldr_cons, List.foldr_nil, hstore, hfree]
    · rw [if_neg hk, if_neg hk]
      rfl

end Outcomes

/-! ### Keys in order -/

/-- The node behind another one can be moved to the front. -/
theorem perm_behind {α : Type*} (pre post : List α) (z x : α) :
    (pre ++ z :: x :: post).Perm (x :: (pre ++ z :: post)) := by
  rw [List.append_cons pre z (x :: post), List.append_cons pre z post]
  exact List.perm_middle

/-- The values of the nodes are the sentinels and the keys, in strict order. -/
structure SortedKeys (l : List (Nat × Int)) (S : Finset Int) : Prop where
  sorted : (l.map Prod.snd).Pairwise (· < ·)
  keys : ∀ k, k ∈ l.map Prod.snd ↔ k = VAL_MIN ∨ k ∈ S ∨ k = VAL_MAX
  range : ∀ k ∈ S, VAL_MIN < k ∧ k < VAL_MAX

/-- The sentinels around the sorted keys are in strict order. -/
theorem pairwise_sentinels {S : Finset Int} (hrange : ∀ k ∈ S, VAL_MIN < k ∧ k < VAL_MAX) :
    (sentinelled S).Pairwise (· < ·) := by
  rw [sentinelled, List.pairwise_cons, List.pairwise_append]
  refine ⟨fun k hk => ?_, S.sortedLT_sort.pairwise, List.pairwise_singleton _ _,
    fun k hk x hx => ?_⟩
  · rcases List.mem_append.mp hk with hk | hk
    · exact (hrange k ((Finset.mem_sort _).mp hk)).1
    · rw [List.mem_singleton.mp hk]
      decide
  · rw [List.mem_singleton.mp hx]
    exact (hrange k ((Finset.mem_sort _).mp hk)).2

theorem mem_sentinels {S : Finset Int} {k : Int} :
    k ∈ sentinelled S ↔ k = VAL_MIN ∨ k ∈ S ∨ k = VAL_MAX := by
  rw [sentinelled, List.mem_cons, List.mem_append, Finset.mem_sort, List.mem_singleton]

section Keys

variable {l pre post : List (Nat × Int)} {S : Finset Int} {z x : Nat × Int} {k : Int}

theorem SortedKeys.of_values (hvalues : l.map Prod.snd = sentinelled S)
    (hrange : ∀ k ∈ S, VAL_MIN < k ∧ k < VAL_MAX) : SortedKeys l S where
  sorted := by
    rw [hvalues]
    exact pairwise_sentinels hrange
  keys := by
    intro k
    rw [hvalues]
    exact mem_sentinels
  range := hrange

theorem SortedKeys.values_eq (h : SortedKeys l S) :
    l.map Prod.snd = sentinelled S := by
  have hsentinels := pairwise_sentinels h.range
  have hperm : (l.map Prod.snd).Perm (sentinelled S) := by
    rw [List.perm_ext_iff_of_nodup (h.sorted.imp ne_of_lt) (hsentinels.imp ne_of_lt)]
    intro k
    exact (h.keys k).trans mem_sentinels.symm
  exact hperm.eq_of_pairwise' h.sorted hsentinels

theorem SortedKeys.length_eq (h : SortedKeys l S) : l.length = S.card + 2 := by
  have hlen := congrArg List.length h.values_eq
  simp only [sentinelled, List.length_map, List.length_cons, List.length_append,
    Finset.length_sort, List.length_nil] at hlen
  omega

/-- Every search for a key passes the first sentinel and stops at the last one at the latest. -/
theorem SortedKeys.search_bounds (h : SortedKeys l S) (hk : VAL_MIN < k ∧ k < VAL_MAX) :
    (∀ y ∈ l.head?, y.2 < k) ∧ ∃ x ∈ l, k ≤ x.2 := by
  have hvalues := h.values_eq
  constructor
  · intro y hy
    cases l with
    | nil => cases hy
    | cons w l =>
      obtain rfl : w = y := Option.some.inj hy
      rw [sentinelled, List.map_cons, List.cons.injEq] at hvalues
      rw [hvalues.1]
      exact hk.1
  · obtain ⟨x, hx, hmax⟩ := List.mem_map.mp ((h.keys VAL_MAX).mpr (Or.inr (Or.inr rfl)))
    refine ⟨x, hx, ?_⟩
    rw [hmax]
    exact hk.2.le

/-- The search for a key ends at it when the set has it. -/
theorem SortedKeys.mem_iff (h : SortedKeys (pre ++ z :: x :: post) S) (hz : z.2 < k)
    (hx : k ≤ x.2) (hk : VAL_MIN < k ∧ k < VAL_MAX) : x.2 = k ↔ k ∈ S := by
  have hsorted := h.sorted
  rw [List.map_append, List.map_cons, List.map_cons, List.pairwise_append,
    List.pairwise_cons, List.pairwise_cons] at hsorted
  obtain ⟨-, ⟨-, hpost, -⟩, hpre⟩ := hsorted
  have hmem := h.keys k
  rw [List.map_append, List.mem_append, List.map_cons, List.map_cons, List.mem_cons,
    List.mem_cons] at hmem
  constructor
  · intro heq
    rcases hmem.mp (Or.inr (Or.inr (Or.inl heq.symm))) with h | h | h
    · exact absurd h (ne_of_gt hk.1)
    · exact h
    · exact absurd h (ne_of_lt hk.2)
  · intro hS
    rcases hmem.mpr (Or.inr (Or.inl hS)) with h | h | h | h
    · have := hpre k h z.2 List.mem_cons_self
      omega
    · omega
    · exact h.symm
    · have := hpost k h
      omega

/-- A key between its neighbours joins the set. -/
theorem SortedKeys.insert (h : SortedKeys (pre ++ z :: x :: post) S) (hz : z.2 < k)
    (hx : k < x.2) (hk : VAL_MIN < k ∧ k < VAL_MAX) (node : Nat) :
    SortedKeys (pre ++ z :: (node, k) :: x :: post) (insert k S) where
  sorted := by
    have hsorted := h.sorted
    simp only [List.map_append, List.map_cons, List.pairwise_append, List.pairwise_cons,
      List.mem_cons, forall_eq_or_imp] at hsorted ⊢
    obtain ⟨hl, ⟨⟨hzx, hzpost⟩, hxpost, hpost⟩, hpre⟩ := hsorted
    refine ⟨hl, ⟨⟨hz, hzx, hzpost⟩, ⟨hx, fun y hy => hx.trans (hxpost y hy)⟩, hxpost, hpost⟩,
      fun y hy => ?_⟩
    obtain ⟨hyz, hyx, hypost⟩ := hpre y hy
    exact ⟨hyz, hyz.trans hz, hyx, hypost⟩
  keys := by
    intro y
    have hmem := h.keys y
    simp only [List.map_append, List.map_cons, List.mem_append, List.mem_cons,
      Finset.mem_insert] at hmem ⊢
    tauto
  range := by
    intro y hy
    rcases Finset.mem_insert.mp hy with rfl | hy
    · exact hk
    · exact h.range y hy

/-- A key leaves the set with its node. -/
theorem SortedKeys.erase (h : SortedKeys (pre ++ z :: x :: post) S)
    (hk : VAL_MIN < x.2 ∧ x.2 < VAL_MAX) : SortedKeys (pre ++ z :: post) (S.erase x.2) where
  sorted := by
    refine h.sorted.sublist (List.Sublist.map _ ?_)
    exact (List.Sublist.refl pre).append ((List.sublist_cons_self x post).cons_cons z)
  keys := by
    intro y
    have hnodup : ((pre ++ z :: x :: post).map Prod.snd).Nodup := h.sorted.imp ne_of_lt
    have hx : x.2 ∉ (pre ++ z :: post).map Prod.snd := by
      rw [((perm_behind pre post z x).map Prod.snd).nodup_iff, List.map_cons,
        List.nodup_cons] at hnodup
      exact hnodup.1
    have hmem := h.keys y
    by_cases hyx : y = x.2
    · subst hyx
      simp only [hx, Finset.notMem_erase, false_or, false_iff, not_or]
      exact ⟨ne_of_gt hk.1, ne_of_lt hk.2⟩
    · simp only [List.map_append, List.map_cons, List.mem_append, List.mem_cons,
        Finset.mem_erase, ne_eq, hyx, not_false_eq_true, true_and, false_or] at hmem ⊢
      exact hmem
  range := by
    intro y hy
    exact h.range y (Finset.mem_of_mem_erase hy)

end Keys

theorem SetMem.setSize_eq {m : SetMem} {headp : Nat} {S : Finset Int} {l : List (Nat × Int)}
    (h : Seg ListNode.mk m.heap (some headp) l none) (hkeys : SortedKeys l S)
    (hcount : l.length ≤ m.nodes + 1) :
    m.setSize headp = if S.card < 2 ^ 31 then some S.card else none := by
  have hlen := hkeys.length_eq
  cases l with
  | nil => cases hlen
  | cons y l =>
    rw [List.length_cons, Nat.add_right_cancel_iff] at hlen
    obtain ⟨hy, r, hr, hrest⟩ := h
    obtain rfl := Option.some.inj hy
    rw [List.length_cons] at hcount
    have hne : l ≠ [] := by
      rintro rfl
      cases hlen
    have hloop : m.sizeLoop (m.nodes + 1) r 0 = _ := sizeLoop_eq hrest hne (by omega) (by decide)
    simp only [SetMem.setSize, SetMem.nextp_eq hr, Option.bind_some, hloop, hlen, Nat.zero_add,
      Nat.add_sub_cancel]

/-! ### The list of a set -/

/-- The nodes `l` from `headp` on hold the keys of `S`, and there are no others. -/
structure SetMem.Represents (m : SetMem) (headp : Nat) (S : Finset Int)
    (l : List (Nat × Int)) : Prop where
  seg : Seg ListNode.mk m.heap (some headp) l none
  nodup : (l.map Prod.fst).Nodup
  nodes : m.nodes = l.length
  only : ∀ a, m.heap a ≠ none → a ∈ l.map Prod.fst
  keys : SortedKeys l S

namespace SetMem.Represents

variable {m : SetMem} {headp : Nat} {S : Finset Int} {l pre post : List (Nat × Int)}
  {z x : Nat × Int}

theorem new {max min : Nat} (hne : max ≠ min) :
    (SetMem.setNew max min).Represents min ∅ [(min, VAL_MIN), (max, VAL_MAX)] where
  seg := by
    refine ⟨rfl, some max, Function.update_self .., rfl, none, ?_, rfl⟩
    exact (Function.update_of_ne hne _ _).trans (Function.update_self ..)
  nodup := by
    rw [List.map_cons, List.map_cons, List.map_nil, List.nodup_cons, List.mem_singleton]
    exact ⟨hne.symm, List.nodup_singleton _⟩
  nodes := rfl
  only := by
    intro a ha
    rw [List.map_cons, List.map_cons, List.map_nil, List.mem_cons, List.mem_singleton]
    by_contra hmem
    obtain ⟨hmin, hmax⟩ := not_or.mp hmem
    exact ha ((Function.update_of_ne hmin _ _).trans (Function.update_of_ne hmax _ _))
  keys := by
    refine SortedKeys.of_values ?_ ?_
    · rw [sentinelled, Finset.sort_empty]
      rfl
    · intro k hk
      exact absurd hk (Finset.notMem_empty k)

theorem linked (h : m.Represents headp S (pre ++ z :: x :: post)) {k : Int} {node : Nat}
    (hz : z.2 < k) (hx : k < x.2) (hk : VAL_MIN < k ∧ k < VAL_MAX) (hnode : m.heap node = none) :
    (m.linked node k z x).Represents headp (insert k S) (pre ++ z :: (node, k) :: x :: post) := by
  have hfresh : node ∉ (pre ++ z :: x :: post).map Prod.fst := by
    intro hmem
    obtain ⟨y, hy, rfl⟩ := List.mem_map.mp hmem
    obtain ⟨r, hr⟩ := h.seg.lookup hy
    rw [hnode] at hr
    cases hr
  obtain ⟨s, -, ⟨rfl, -⟩, hseg⟩ := h.seg.insert (d := k) h.nodup hfresh
  have hperm := perm_behind pre (x :: post) z (node, k)
  refine ⟨hseg, ?_, ?_, ?_, h.keys.insert hz hx hk node⟩
  · rw [(hperm.map Prod.fst).nodup_iff, List.map_cons, List.nodup_cons]
    exact ⟨hfresh, h.nodup⟩
  · rw [hperm.length_eq, List.length_cons, ← h.nodes]
    rfl
  · intro a ha
    rw [(hperm.map Prod.fst).mem_iff, List.map_cons, List.mem_cons]
    by_contra hmem
    obtain ⟨hanode, hal⟩ := not_or.mp hmem
    have haz : a ≠ z.1 := by
      rintro rfl
      exact hal (by simp)
    refine hal (h.only a fun hnone => ha ?_)
    exact (Function.update_of_ne haz _ _).trans ((Function.update_of_ne hanode _ _).trans hnone)

theorem unlinked (h : m.Represents headp S (pre ++ z :: x :: post)) {r : Option Nat}
    (hr : m.heap x.1 = some ⟨x.2, r⟩) (hk : VAL_MIN < x.2 ∧ x.2 < VAL_MAX) :
    (m.unlinked z x r).Represents headp (S.erase x.2) (pre ++ z :: post) := by
  obtain ⟨s, hs, hseg⟩ := h.seg.unlink h.nodup
  obtain rfl : s = r := by
    rw [hr, Option.some.injEq, ListNode.mk.injEq] at hs
    exact hs.2.symm
  have hperm := perm_behind pre post z x
  have hnodup := h.nodup
  rw [(hperm.map Prod.fst).nodup_iff, List.map_cons, List.nodup_cons] at hnodup
  refine ⟨hseg.update hnodup.1 none, hnodup.2, ?_, ?_, h.keys.erase hk⟩
  · have hlen := h.nodes
    rw [hperm.length_eq, List.length_cons] at hlen
    exact (congrArg (· - 1) hlen).trans (Nat.add_sub_cancel _ 1)
  · intro a ha
    have hax : a ≠ x.1 := by
      rintro rfl
      exact ha (Function.update_self ..)
    by_cases haz : a = z.1
    · subst haz
      simp
    · have hmem := h.only a fun hnone => ha <|
        (Function.update_of_ne hax _ _).trans ((Function.update_of_ne haz _ _).trans hnone)
      rw [(hperm.map Prod.fst).mem_iff, List.map_cons, List.mem_cons] at hmem
      exact hmem.resolve_left hax

theorem path_eq (h : m.Represents headp S l) : m.path headp = some l :=
  pathFrom_eq h.seg (by rw [h.nodes]; exact Nat.lt_succ_self _)

theorem stores (h : m.Represents headp S l) : m.Stores headp S := by
  refine ⟨l, h.path_eq, h.keys.values_eq, fun a => ⟨h.only a, fun ha => ?_⟩⟩
  obtain ⟨y, hy, rfl⟩ := List.mem_map.mp ha
  obtain ⟨r, hr⟩ := h.seg.lookup hy
  rw [hr]
  exact Option.some_ne_none _

theorem setSize_eq (h : m.Represents headp S l) :
    m.setSize headp = if S.card < 2 ^ 31 then some S.card else none :=
  SetMem.setSize_eq h.seg h.keys (h.nodes.ge.trans (Nat.le_succ _))

end SetMem.Represents

/-! ### Calls and runs -/

/-- The nodes that are in the first list only. -/
def unlinkedNodes (l l' : List (Nat × Int)) : List (Option Nat) :=
  ((l.map Prod.fst).filter fun a => decide (a ∉ l'.map Prod.fst)).map some

theorem unlinkedNodes_eq_nil {l l' : List (Nat × Int)} (h : ∀ x ∈ l, x ∈ l') :
    unlinkedNodes l l' = [] := by
  rw [unlinkedNodes, List.map_eq_nil_iff, List.filter_eq_nil_iff]
  intro a ha
  rw [decide_eq_true_eq, not_not]
  obtain ⟨x, hx, rfl⟩ := List.mem_map.mp ha
  exact List.mem_map_of_mem (h x hx)

theorem unlinkedNodes_self (l : List (Nat × Int)) : unlinkedNodes l l = [] :=
  unlinkedNodes_eq_nil fun _ => id

theorem unlinkedNodes_behind {pre post : List (Nat × Int)} {z x : Nat × Int}
    (h : ((pre ++ z :: x :: post).map Prod.fst).Nodup) :
    unlinkedNodes (pre ++ z :: x :: post) (pre ++ z :: post) = [some x.1] := by
  rw [((perm_behind pre post z x).map Prod.fst).nodup_iff, List.map_cons, List.nodup_cons] at h
  have hsub : ∀ y ∈ pre ++ [z] ++ post, y ∈ pre ++ z :: post := by
    rw [← List.append_cons]
    exact fun _ => id
  generalize pre ++ z :: post = l' at h hsub ⊢
  have hfilter : ∀ l : List (Nat × Int), (∀ y ∈ l, y ∈ l') →
      (l.map Prod.fst).filter (fun a => decide (a ∉ l'.map Prod.fst)) = [] := by
    intro l hl
    exact List.map_eq_nil_iff.mp (unlinkedNodes_eq_nil hl)
  have hpre := hfilter (pre ++ [z]) fun y hy => hsub y (List.mem_append_left _ hy)
  have hpost := hfilter post fun y hy => hsub y (List.mem_append_right _ hy)
  rw [unlinkedNodes, List.append_cons, List.map_append, List.filter_append, hpre, List.nil_append,
    List.map_cons, List.filter_cons_of_pos (by exact decide_eq_true h.1), hpost]
  rfl

/-- A call does what the set operation does, in either code. -/
theorem SetCall.run_eq {m : SetMem} {headp : Nat} {S : Finset Int} {l : List (Nat × Int)}
    (h : m.Represents headp S l) (c : SetCall)
    (hk : VAL_MIN < c.request.val ∧ c.request.val < VAL_MAX) (hnode : m.heap c.node = none) :
    ∃ m' l', m'.Represents headp (c.request.apply S).2 l' ∧
      ∀ b, SetCall.run m headp ⟨c.request, b, c.node⟩ =
        some ⟨(c.request.apply S).1, m', unlinkedNodes l l'⟩ := by
  obtain ⟨⟨op, k⟩, code, node⟩ := c
  change VAL_MIN < k ∧ k < VAL_MAX at hk
  change m.heap node = none at hnode
  -- both codes stop the search between the same two nodes `z` and `x`
  obtain ⟨hfirst, hlast⟩ := h.keys.search_bounds hk
  obtain ⟨pre, z, x, post, rfl, hz, hx, hseq, htx, hloop⟩ :=
    search_eq h.seg (h.nodes.ge.trans (Nat.le_succ _)) hfirst hlast
  obtain ⟨s, -, -, u, hheapz, rfl, r, hheapx, -⟩ := seg_append.mp h.seg
  have hmem := h.keys.mem_iff hz hx hk
  cases op with
  | contains =>
    have hcodes := contains_eq hheapx hseq hloop
    refine ⟨m, _, h, Bool.forall_bool.mpr ?_⟩
    simp only [SetRequest.apply, unlinkedNodes_self, ← hmem]
    exact hcodes
  | add =>
    -- the new node is none of the list's
    have hzn : z.1 ≠ node := by
      rintro rfl
      rw [hnode] at hheapz
      cases hheapz
    have hcodes := add_eq hheapx hheapz hseq htx hzn
    by_cases hxk : x.2 = k
    · rw [if_neg (not_not.mpr hxk)] at hcodes
      have hS := hmem.mp hxk
      refine ⟨m, pre ++ z :: x :: post, ?_, Bool.forall_bool.mpr ?_⟩
      · simp only [SetRequest.apply, Finset.insert_eq_of_mem hS]
        exact h
      · simp only [SetRequest.apply, unlinkedNodes_self, hS, not_true_eq_false, decide_false]
        exact hcodes
    · rw [if_pos hxk] at hcodes
      have hS : k ∉ S := fun hS => hxk (hmem.mpr hS)
      refine ⟨_, _, h.linked hz (lt_of_le_of_ne hx (Ne.symm hxk)) hk hnode,
        Bool.forall_bool.mpr ?_⟩
      rw [unlinkedNodes_eq_nil (by simp +contextual [or_imp])]
      simp only [SetRequest.apply, hS, not_false_eq_true, decide_true]
      exact hcodes
  | remove =>
    -- the transaction unlinks `x` by two stores, to two different nodes
    have hzx : z.1 ≠ x.1 := by
      have hnodup := h.nodup
      rw [((perm_behind pre post z x).map Prod.fst).nodup_iff, List.map_cons,
        List.nodup_cons] at hnodup
      intro heq
      exact hnodup.1 (by simp [← heq])
    have hcodes := remove_eq hheapx hheapz hseq htx hzx
    by_cases hxk : x.2 = k
    · rw [if_pos hxk] at hcodes
      have hS := hmem.mp hxk
      subst hxk
      refine ⟨_, _, h.unlinked hheapx hk, Bool.forall_bool.mpr ?_⟩
      rw [unlinkedNodes_behind h.nodup]
      simp only [SetRequest.apply, hS, decide_true]
      exact hcodes
    · rw [if_neg hxk] at hcodes
      have hS : k ∉ S := fun hS => hxk (hmem.mpr hS)
      refine ⟨m, pre ++ z :: x :: post, ?_, Bool.forall_bool.mpr ?_⟩
      · simp only [SetRequest.apply, Finset.erase_eq_of_notMem hS]
        exact h
      · simp only [SetRequest.apply, unlinkedNodes_self, hS, decide_false]
        exact hcodes

/-- A run has a list that represents the set `S`, and the last call freed what it unlinked. -/
def SetRun.Tracks (s : SetRun) (S : Finset Int) : Prop :=
  ∃ m l₀ l, s.mem = some m ∧ m.Represents s.headp S l ∧ s.before.path s.headp = some l₀ ∧
    s.freed = unlinkedNodes l₀ l

theorem SetRun.step_eq {s : SetRun} {c : SetCall} {m : SetMem} {o : SetOutcome}
    (hmem : s.mem = some m) (hnode : m.heap c.node = none) (hrun : c.run m s.headp = some o) :
    s.step c = some ⟨s.headp, m, some o.mem, o.freed, s.results ++ [o.result]⟩ := by
  simp only [SetRun.step, hmem, Option.bind_some]
  rw [if_pos hnode, hrun]

theorem SetRun.Tracks.step {s : SetRun} {S : Finset Int} (h : s.Tracks S) {c : SetCall}
    (hk : VAL_MIN < c.request.val ∧ c.request.val < VAL_MAX) {t : SetRun}
    (hstep : s.step c = some t) :
    t.Tracks (c.request.apply S).2 ∧ t.results = s.results ++ [(c.request.apply S).1] := by
  obtain ⟨m, l₀, l, hmem, hrep, -, -⟩ := h
  have hnode : m.heap c.node = none := by
    simp only [SetRun.step, hmem, Option.bind_some] at hstep
    exact (Option.ite_none_right_eq_some.mp hstep).1
  obtain ⟨m', l', hrep', hcall⟩ := c.run_eq hrep hk hnode
  rw [SetRun.step_eq hmem hnode (hcall c.transactional)] at hstep
  obtain rfl := Option.some.inj hstep
  exact ⟨⟨m', l, l', rfl, hrep', hrep.path_eq, rfl⟩, rfl⟩

/-- The run follows the set. -/
theorem SetRun.Tracks.exec {s t : SetRun} {S : Finset Int} {cs : List SetCall} (h : s.Tracks S)
    (hk : ∀ c ∈ cs, VAL_MIN < c.request.val ∧ c.request.val < VAL_MAX)
    (hexec : Exec (partialGraph SetRun.step) s cs t) :
    t.Tracks (applyRequests S (cs.map SetCall.request)).2 ∧
      t.results = s.results ++ (applyRequests S (cs.map SetCall.request)).1 := by
  induction cs generalizing s S with
  | nil =>
    obtain rfl := exec_nil_iff.mp hexec
    exact ⟨h, (List.append_nil _).symm⟩
  | cons c cs ih =>
    obtain ⟨u, hstep, hrest⟩ := exec_cons_iff.mp hexec
    obtain ⟨hu, hresults⟩ := h.step (hk c List.mem_cons_self) hstep
    obtain ⟨ht, hall⟩ := ih hu (fun d hd => hk d (List.mem_cons_of_mem c hd)) hrest
    refine ⟨ht, hall.trans ?_⟩
    rw [hresults, List.append_assoc]
    rfl

end TM2C
