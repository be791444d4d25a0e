import Mathlib.Data.List.Basic
import Mathlib.Logic.Function.Basic

/-!
# Ring buffers

A queue of at most `N` entries kept in `N` cells: a write position and a length, from
which the read position is computed by a subtraction that wraps around.  `window` is
the queue, oldest entry first.

Reading takes the first of the window (`window_pop`), and writing appends to it unless `N`
entries are in it already (`window_push`).  The cells are a function and the positions are
numbers, so that a buffer embedded in some other state needs nothing but these two equations.
-/

namespace RingBuffer

variable {α : Type*} {N : Nat}

/-- The position of the oldest of `num` entries before `cur`. -/
def spot (N cur num : Nat) : Nat := (cur + N - num) % N

/-- The `num` entries before `cur`, oldest first. -/
def window (N : Nat) (cells : Nat → α) (cur num : Nat) : List α :=
  (List.range num).map fun i => cells ((spot N cur num + i) % N)

@[simp] theorem window_zero (cells : Nat → α) (cur : Nat) : window N cells cur 0 = [] := rfl

@[simp] theorem length_window (cells : Nat → α) (cur num : Nat) :
    (window N cells cur num).length = num := by
  simp [window]

theorem spot_add (N cur num i : Nat) : (spot N cur num + i) % N = (cur + N - num + i) % N :=
  Nat.mod_add_mod ..

/-- Taking the oldest entry. -/
theorem window_pop (cells : Nat → α) (cur : Nat) {num : Nat} (hnum : num + 1 ≤ N) :
    window N cells cur (num + 1) = cells (spot N cur (num + 1)) :: window N cells cur num := by
  unfold window
  rw [List.range_succ_eq_map, List.map_cons, List.map_map]
  congr 1
  · unfold spot
    rw [Nat.add_zero, Nat.mod_mod]
  · apply List.map_congr_left
    intro i _
    simp only [Function.comp_apply]
    rw [spot_add, spot_add]
    congr 2
    omega

/-- Adding an entry to a queue that has room. -/
theorem window_push (cells : Nat → α) {cur num : Nat} (hcur : cur < N) (hnum : num < N) (x : α) :
    window N (Function.update cells cur x) ((cur + 1) % N) (num + 1) =
      window N cells cur num ++ [x] := by
  have hspot : ∀ i, (spot N ((cur + 1) % N) (num + 1) + i) % N = (cur + N - num + i) % N := by
    intro i
    rw [spot_add]
    rcases Nat.lt_or_ge (cur + 1) N with hlt | hge
    · rw [Nat.mod_eq_of_lt hlt]
      congr 1
      omega
    · have hlast : cur + 1 = N := by omega
      rw [hlast, Nat.mod_self, show cur + N - num + i = (0 + N - (num + 1) + i) + N by omega,
        Nat.add_mod_right]
  unfold window
  rw [List.range_succ, List.map_append, List.map_singleton]
  congr 1
  · apply List.map_congr_left
    intro i hi
    rw [List.mem_range] at hi
    rw [hspot, spot_add]
    apply Function.update_of_ne
    -- an older entry is in another cell
    intro heq
    rcases Nat.lt_or_ge (cur + N - num + i) N with hlt | hge
    · rw [Nat.mod_eq_of_lt hlt] at heq
      omega
    · rw [show cur + N - num + i = (cur + i - num) + N by omega, Nat.add_mod_right,
        Nat.mod_eq_of_lt (by omega)] at heq
      omega
  · rw [hspot, show cur + N - num + num = cur + N by omega, Nat.add_mod_right,
      Nat.mod_eq_of_lt hcur, Function.update_self]

end RingBuffer
