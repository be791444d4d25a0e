import Mathlib.Algebra.BigOperators.Group.Finset.Piecewise
import Mathlib.Algebra.Order.BigOperators.Group.Finset
import Mathlib.Data.List.Perm.Basic
import Mathlib.Data.Nat.Find
import Mathlib.Order.Basic

/-!
# Lists in chunks

`chunk width l i` are the elements of `l` from position `i * width` on, at most `width` of
them.  Chunks that are handed out once, in any order, are together a rearrangement of the list.

Who gets which chunk is a function from chunk numbers to owners, given by the order in which they
were handed out; `share` is the part of a sum over the first chunks that belongs to one owner,
and the shares add up to the sum whatever the owners are.
-/

namespace Chunks

variable {α : Type*} {width i : ℕ} {l : List α}

def chunk (width : ℕ) (l : List α) (i : ℕ) : List α := (l.drop (i * width)).take width

theorem chunk_eq_nil (h : l.length ≤ i * width) : chunk width l i = [] := by
  rw [chunk, List.drop_eq_nil_of_le h, List.take_nil]

/-- The rest from a chunk on begins with the chunk. -/
theorem drop_eq_chunk_append :
    l.drop (i * width) = chunk width l i ++ l.drop ((i + 1) * width) := by
  rw [chunk, Nat.succ_mul, ← List.drop_drop, List.take_append_drop]

/-- The first chunks in their order. -/
theorem flatMap_chunk_range (width : ℕ) (l : List α) (n : ℕ) :
    (List.range n).flatMap (chunk width l) = l.take (n * width) := by
  induction n with
  | zero => rw [Nat.zero_mul, List.take_zero, List.range_zero, List.flatMap_nil]
  | succ n ih =>
    rw [List.range_succ, List.flatMap_append, ih, List.flatMap_cons, List.flatMap_nil,
      List.append_nil, Nat.succ_mul, List.take_add, chunk]

theorem flatMap_chunk_eq_nil {is : List ℕ} (h : ∀ i ∈ is, l.length ≤ i * width) :
    is.flatMap (chunk width l) = [] := by
  rw [List.flatMap_eq_nil_iff]
  intro i hi
  exact chunk_eq_nil (h i hi)

/-- Chunks that are handed out once are the list in another order. -/
theorem flatMap_chunk_perm {is : List ℕ} (hwidth : 0 < width) (hnodup : is.Nodup)
    (hall : ∀ i, i * width < l.length → i ∈ is) : (is.flatMap (chunk width l)).Perm l := by
  -- the first chunk number behind the list
  obtain ⟨n, hn, hlt⟩ : ∃ n, l.length ≤ n * width ∧ ∀ i < n, i * width < l.length := by
    have hex : ∃ n, l.length ≤ n * width := ⟨l.length, Nat.le_mul_of_pos_right _ hwidth⟩
    exact ⟨Nat.find hex, Nat.find_spec hex, fun i hi => not_le.mp (Nat.find_min hex hi)⟩
  have hinside : (is.filter fun i => decide (i * width < l.length)).Perm (List.range n) := by
    rw [List.perm_ext_iff_of_nodup (hnodup.filter _) List.nodup_range]
    intro i
    rw [List.mem_filter, List.mem_range, decide_eq_true_eq]
    constructor
    · rintro ⟨-, hi⟩
      exact Nat.lt_of_mul_lt_mul_right (hi.trans_le hn)
    · intro hi
      exact ⟨hall i (hlt i hi), hlt i hi⟩
  have houtside : (is.filter fun i => !decide (i * width < l.length)).flatMap
      (chunk width l) = [] := by
    apply flatMap_chunk_eq_nil
    intro i hi
    have hout := (List.mem_filter.mp hi).2
    rw [Bool.not_eq_true', decide_eq_false_iff_not] at hout
    exact not_lt.mp hout
  have hsplit := (List.filter_append_perm (fun i => decide (i * width < l.length)) is).flatMap_right
    (chunk width l)
  rw [List.flatMap_append, houtside, List.append_nil] at hsplit
  have hrange := hinside.flatMap_right (chunk width l)
  rw [flatMap_chunk_range, List.take_of_length_le hn] at hrange
  exact hsplit.symm.trans hrange

/-! ### Shares -/

/-- What `v` has of `f` when the numbers below `total` are handed out to their owners. -/
def share (f : ℕ → ℕ) (owner : ℕ → ℕ) (total v : ℕ) : ℕ :=
  ∑ i ∈ Finset.range total, if owner i = v then f i else 0

section Share

variable {f owner : ℕ → ℕ} {total u v : ℕ}

/-- The next number goes to `u`. -/
theorem share_succ : share f (Function.update owner total u) (total + 1) v =
    share f owner total v + if u = v then f total else 0 := by
  rw [share, share, Finset.sum_range_succ, Function.update_self]
  congr 1
  refine Finset.sum_congr rfl fun i hi => ?_
  rw [Function.update_of_ne (Finset.mem_range.mp hi).ne]

theorem share_le : share f owner total v ≤ ∑ i ∈ Finset.range total, f i := by
  refine Finset.sum_le_sum fun i _ => ?_
  split
  · exact Nat.le_refl _
  · exact Nat.zero_le _

/-- Only the numbers with something in them count. -/
theorem share_eq_of_le {n : ℕ} (hle : n ≤ total) (hzero : ∀ i, n ≤ i → f i = 0) :
    share f owner total v = share f owner n v := by
  refine (Finset.sum_subset (Finset.range_mono hle) fun i _ hi => ?_).symm
  rw [hzero i (not_lt.mp (mt Finset.mem_range.mpr hi)), ite_self]

/-- All shares together are the whole. -/
theorem sum_share {owners : ℕ} (h : ∀ i < total, owner i < owners) :
    ∑ v ∈ Finset.range owners, share f owner total v = ∑ i ∈ Finset.range total, f i := by
  simp only [share]
  rw [Finset.sum_comm]
  refine Finset.sum_congr rfl fun i hi => ?_
  rw [Finset.sum_ite_eq, if_pos (Finset.mem_range.mpr (h i (Finset.mem_range.mp hi)))]

/-- A sum over all after one of them has changed. -/
theorem sum_apply_update {β : Type*} (g : β → ℕ) (state : ℕ → β) (b : β) {owners : ℕ}
    (hv : v < owners) :
    ∑ u ∈ Finset.range owners, g (Function.update state v b u) + g (state v) =
      ∑ u ∈ Finset.range owners, g (state u) + g b := by
  have hmem : v ∈ Finset.range owners := Finset.mem_range.mpr hv
  have hrest : ∑ u ∈ (Finset.range owners).erase v, g (Function.update state v b u) =
      ∑ u ∈ (Finset.range owners).erase v, g (state u) := by
    refine Finset.sum_congr rfl fun u hu => ?_
    rw [Function.update_of_ne (Finset.ne_of_mem_erase hu)]
  rw [← Finset.sum_erase_add _ _ hmem, ← Finset.sum_erase_add _ (fun u => g (state u)) hmem,
    hrest, Function.update_self, add_right_comm]

end Share

/-- What is counted in the first chunks. -/
theorem sum_countP_chunk (p : α → Bool) (width : ℕ) (l : List α) (n : ℕ) :
    ∑ i ∈ Finset.range n, (chunk width l i).countP p = (l.take (n * width)).countP p := by
  induction n with
  | zero => rw [Nat.zero_mul, List.take_zero, Finset.sum_range_zero, List.countP_nil]
  | succ n ih =>
    rw [Finset.sum_range_succ, ih, Nat.succ_mul, List.take_add, List.countP_append, chunk]

end Chunks
