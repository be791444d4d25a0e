import Mathlib.Algebra.BigOperators.Group.Finset.Basic
import Mathlib.Algebra.GroupWithZero.Nat
import Mathlib.Data.Finset.Lattice.Fold
import Mathlib.Order.Lattice.Nat

/-!
# Interleaved streams

Senders `0`, …, `n - 1` each send a stream, and a receiver takes the messages in some
order that keeps the order of every sender.  Whatever that order is, the messages
are the streams one after the other up to a permutation, so a sum or a maximum over
them is the one over the senders.

`Merges` says just that: all senders are below `n`, and what the receiver has from each of them
is its stream.  There is such a list for all streams (`exists_merges`), and every such list is the
concatenation of the streams up to a permutation (`Merges.perm`).
-/

namespace Interleaving

variable {α : Type*} {n : Nat} {streams : Nat → List α} {l : List (Nat × α)}

/-- The messages `l`, each with its sender, merge the streams of the senders below `n`. -/
structure Merges (n : Nat) (streams : Nat → List α) (l : List (Nat × α)) : Prop where
  sender_lt : ∀ x ∈ l, x.1 < n
  stream : ∀ i, i < n → (l.filter fun x => decide (x.1 = i)).map Prod.snd = streams i

/-- A list sorted by its senders. -/
theorem perm_flatMap_filter (h : ∀ x ∈ l, x.1 < n) :
    ((List.range n).flatMap fun i => l.filter fun x => decide (x.1 = i)).Perm l := by
  induction n generalizing l with
  | zero =>
    have hnil : l = [] := List.eq_nil_iff_forall_not_mem.mpr fun x hx => Nat.not_lt_zero _ (h x hx)
    simp [hnil]
  | succ n ih =>
    have hrest : ∀ x ∈ l.filter fun x => !decide (x.1 = n), x.1 < n := by
      intro x hx
      obtain ⟨hmem, hne⟩ := List.mem_filter.mp hx
      have hlt := h x hmem
      simp only [Bool.not_eq_true', decide_eq_false_iff_not] at hne
      omega
    have hsame : ∀ i ∈ List.range n, (l.filter fun x => decide (x.1 = i)) =
        (l.filter fun x => !decide (x.1 = n)).filter fun x => decide (x.1 = i) := by
      intro i hi
      rw [List.filter_filter]
      apply List.filter_congr
      intro x _
      have hlt := List.mem_range.mp hi
      by_cases hxi : x.1 = i
      · have hxn : x.1 ≠ n := by omega
        simp [hxi, show i ≠ n by omega]
      · simp [hxi]
    rw [List.range_succ, List.flatMap_append, List.flatMap_singleton,
      List.flatMap_congr hsame]
    refine ((ih hrest).append_right _).trans (List.perm_append_comm.trans ?_)
    exact List.filter_append_perm _ l

/-- One order is sender after sender. -/
theorem exists_merges (n : Nat) (streams : Nat → List α) : ∃ l, Merges n streams l := by
  refine ⟨(List.range n).flatMap fun i => (streams i).map fun a => (i, a), ?_, ?_⟩
  · intro x hx
    obtain ⟨i, hi, hmem⟩ := List.mem_flatMap.mp hx
    obtain ⟨a, -, rfl⟩ := List.mem_map.mp hmem
    exact List.mem_range.mp hi
  · intro i hi
    have hpiece : ∀ j, (((streams j).map fun a => (j, a)).filter
        fun x => decide (x.1 = i)).map Prod.snd = if j = i then streams i else [] := by
      intro j
      by_cases hji : j = i
      · subst hji
        simp [List.filter_map, Function.comp_def]
      · simp [List.filter_map, Function.comp_def, hji]
    simp only [List.filter_flatMap, List.map_flatMap, hpiece]
    clear hpiece
    induction n with
    | zero => exact absurd hi (Nat.not_lt_zero i)
    | succ n ih =>
      rw [List.range_succ, List.flatMap_append, List.flatMap_singleton]
      by_cases hin : i = n
      · subst hin
        have hnone : (List.range i).flatMap (fun j => if j = i then streams i else []) = [] := by
          rw [List.flatMap_eq_nil_iff]
          intro j hj
          exact if_neg (List.mem_range.mp hj).ne
        rw [hnone, if_pos rfl, List.nil_append]
      · rw [ih (by omega), if_neg (by omega), List.append_nil]

/-- The messages are the streams, in another order. -/
theorem Merges.perm (h : Merges n streams l) :
    ((List.range n).flatMap streams).Perm (l.map Prod.snd) := by
  have hstreams : (List.range n).flatMap streams =
      ((List.range n).flatMap fun i => l.filter fun x => decide (x.1 = i)).map Prod.snd := by
    rw [List.map_flatMap]
    apply List.flatMap_congr
    intro i hi
    rw [h.stream i (List.mem_range.mp hi)]
  rw [hstreams]
  exact (perm_flatMap_filter h.sender_lt).map _

theorem Merges.mem_iff (h : Merges n streams l) {a : α} :
    a ∈ l.map Prod.snd ↔ ∃ i < n, a ∈ streams i := by
  simp [← h.perm.mem_iff]

/-- **Sums do not see the order.** -/
theorem Merges.sum (h : Merges n streams l) (f : α → Nat) :
    ((l.map Prod.snd).map f).sum = ∑ i ∈ Finset.range n, ((streams i).map f).sum := by
  rw [← (h.perm.map f).sum_nat]
  clear h
  induction n with
  | zero => rfl
  | succ n ih =>
    rw [List.range_succ, List.flatMap_append, List.map_append, List.sum_append, ih,
      Finset.sum_range_succ, List.flatMap_singleton]

/-- How many messages there are, if every stream has the same length. -/
theorem Merges.length {k : Nat} (h : Merges n streams l) (hk : ∀ i, (streams i).length = k) :
    l.length = n * k := by
  have hsum := h.sum fun _ => 1
  simpa [hk, Function.comp_def] using hsum

/-- Nor do maxima. -/
theorem Merges.max (h : Merges n streams l) (f : α → Nat) :
    ((l.map Prod.snd).map f).foldr Nat.max 0 =
      (Finset.range n).sup fun i => ((streams i).map f).foldr Nat.max 0 := by
  have hbound : ∀ (as : List α) (b : Nat),
      (as.map f).foldr Nat.max 0 ≤ b ↔ ∀ a ∈ as, f a ≤ b := by
    intro as b
    induction as with
    | nil => simp
    | cons a as ih =>
      simp only [List.map_cons, List.foldr_cons, List.forall_mem_cons]
      rw [← ih]
      exact Nat.max_le
  apply le_antisymm
  · rw [hbound]
    intro a ha
    obtain ⟨i, hi, hmem⟩ := h.mem_iff.mp ha
    have hstream := (hbound (streams i) _).mp (Nat.le_refl _) a hmem
    exact hstream.trans
      (Finset.le_sup (f := fun i => ((streams i).map f).foldr Nat.max 0) (Finset.mem_range.mpr hi))
  · apply Finset.sup_le
    intro i hi
    rw [hbound]
    intro a ha
    exact (hbound _ _).mp (Nat.le_refl _) a
      (h.mem_iff.mpr ⟨i, Finset.mem_range.mp hi, ha⟩)

end Interleaving
