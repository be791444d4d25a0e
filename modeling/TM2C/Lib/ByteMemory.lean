import Mathlib.Data.Nat.ModEq
import Mathlib.Tactic.Ring

/-!
# Byte-addressed memory

A memory maps every address to a byte.  `store n m a v` writes the `n` low
bytes of `v` at `a`, `a + 1`, …, least significant first, and `load n m a`
reads them back.  Two accesses interact only when their byte ranges overlap.

A store changes the bytes of its range and no others (`store_inside`, `store_outside`).  From this
it follows that stores to ranges that are `Apart` commute, that a second store of the same width
hides the first, and that a load does not see a store apart from it.  `Apart` is decidable, so
that concrete layouts are checked by evaluation.
-/

/-- A byte-addressed memory. -/
abbrev ByteMemory := Nat → BitVec 8

namespace ByteMemory

/-- The number formed by the `n` bytes from `a` on, least significant first. -/
def loadNat (m : ByteMemory) (a : Nat) : Nat → Nat
  | 0 => 0
  | n + 1 => (m a).toNat + 256 * loadNat m (a + 1) n

/-- Read an `n`-byte word. -/
def load (n : Nat) (m : ByteMemory) (a : Nat) : BitVec (8 * n) :=
  BitVec.ofNat (8 * n) (loadNat m a n)

/-- Write an `n`-byte word. -/
def store (n : Nat) (m : ByteMemory) (a : Nat) (v : BitVec (8 * n)) : ByteMemory :=
  fun x => if a ≤ x ∧ x < a + n then BitVec.ofNat 8 (v.toNat / 256 ^ (x - a)) else m x

/-- The `n` bytes from `a` and the `k` bytes from `b` have no byte in common. -/
def Apart (a n b k : Nat) : Prop := a + n ≤ b ∨ b + k ≤ a

instance (a n b k : Nat) : Decidable (Apart a n b k) :=
  inferInstanceAs (Decidable (_ ∨ _))

theorem Apart.symm {a n b k : Nat} (h : Apart a n b k) : Apart b k a n := Or.symm h

theorem store_outside {n : Nat} (m : ByteMemory) (a : Nat) (v : BitVec (8 * n)) {x : Nat}
    (hx : x < a ∨ a + n ≤ x) : store n m a v x = m x := by
  unfold store
  rw [if_neg (by omega)]

theorem store_inside {n : Nat} (m : ByteMemory) (a : Nat) (v : BitVec (8 * n)) {k : Nat}
    (hk : k < n) : store n m a v (a + k) = BitVec.ofNat 8 (v.toNat / 256 ^ k) := by
  unfold store
  rw [if_pos (by omega), Nat.add_sub_cancel_left]

/-- Writes to words that are apart commute. -/
theorem store_comm {n k : Nat} (m : ByteMemory) {a b : Nat} (v : BitVec (8 * n))
    (w : BitVec (8 * k)) (h : Apart a n b k) :
    store k (store n m a v) b w = store n (store k m b w) a v := by
  funext x
  by_cases hx : a ≤ x ∧ x < a + n
  · have hb : x < b ∨ b + k ≤ x := by
      unfold Apart at h
      omega
    rw [store_outside _ b w hb]
    simp only [store, if_pos hx]
  · have ha : x < a ∨ a + n ≤ x := by omega
    rw [store_outside _ a v ha]
    simp only [store, if_neg hx]

/-- The second write to a word hides the first. -/
theorem store_store {n : Nat} (m : ByteMemory) (a : Nat) (v w : BitVec (8 * n)) :
    store n (store n m a v) a w = store n m a w := by
  funext x
  by_cases hx : a ≤ x ∧ x < a + n
  · simp only [store, if_pos hx]
  · have ha : x < a ∨ a + n ≤ x := by omega
    rw [store_outside _ a w ha, store_outside _ a v ha, store_outside _ a w ha]

theorem loadNat_congr {m m' : ByteMemory} {a n : Nat} (h : ∀ k, k < n → m (a + k) = m' (a + k)) :
    loadNat m a n = loadNat m' a n := by
  induction n generalizing a with
  | zero => rfl
  | succ n ih =>
    have hhead : m a = m' a := by simpa using h 0 (by omega)
    have htail : loadNat m (a + 1) n = loadNat m' (a + 1) n := by
      apply ih
      intro k hk
      have hk' := h (k + 1) (by omega)
      rwa [show a + (k + 1) = a + 1 + k by omega] at hk'
    simp only [loadNat, hhead, htail]

/-- The bytes of `v` in place read back as `v`, cut to the width read. -/
theorem loadNat_of_bytes {m : ByteMemory} {a n v : Nat}
    (h : ∀ k, k < n → m (a + k) = BitVec.ofNat 8 (v / 256 ^ k)) :
    loadNat m a n = v % 256 ^ n := by
  induction n generalizing a v with
  | zero => simp [loadNat, Nat.mod_one]
  | succ n ih =>
    have hhead : (m a).toNat = v % 256 := by
      have h0 := h 0 (by omega)
      simp only [Nat.add_zero, Nat.pow_zero, Nat.div_one] at h0
      rw [h0, BitVec.toNat_ofNat]
    have htail : loadNat m (a + 1) n = v / 256 % 256 ^ n := by
      apply ih
      intro k hk
      have hk' := h (k + 1) (by omega)
      rw [show a + (k + 1) = a + 1 + k by omega] at hk'
      rw [hk', Nat.div_div_eq_div_mul, Nat.pow_succ']
    rw [loadNat, hhead, htail, Nat.pow_succ', Nat.mod_mul]

/-- A word read where it was last written is the word written. -/
@[simp] theorem load_store_same (n : Nat) (m : ByteMemory) (a : Nat) (v : BitVec (8 * n)) :
    load n (store n m a v) a = v := by
  have hbytes : loadNat (store n m a v) a n = v.toNat % 256 ^ n :=
    loadNat_of_bytes fun k hk => store_inside m a v hk
  have hwidth : (2 : Nat) ^ (8 * n) = 256 ^ n := by
    rw [Nat.pow_mul]
  apply BitVec.eq_of_toNat_eq
  rw [load, hbytes, BitVec.toNat_ofNat, hwidth, Nat.mod_mod, ← hwidth]
  exact Nat.mod_eq_of_lt v.isLt

/-- A write leaves every word that it does not overlap. -/
theorem load_store_apart {n k : Nat} (m : ByteMemory) {a b : Nat} (v : BitVec (8 * n))
    (h : Apart a n b k) : load k (store n m a v) b = load k m b := by
  unfold load
  congr 1
  apply loadNat_congr
  intro i hi
  apply store_outside
  unfold Apart at h
  omega

/-- Equal words have equal bytes. -/
theorem byte_of_loadNat {m m' : ByteMemory} {a n : Nat} (h : loadNat m a n = loadNat m' a n) :
    ∀ k, k < n → m (a + k) = m' (a + k) := by
  induction n generalizing a with
  | zero => omega
  | succ n ih =>
    simp only [loadNat] at h
    have hbyte := (m a).isLt
    have hbyte' := (m' a).isLt
    intro k hk
    cases k with
    | zero =>
      apply BitVec.eq_of_toNat_eq
      simp only [Nat.add_zero]
      omega
    | succ k =>
      have htail : loadNat m (a + 1) n = loadNat m' (a + 1) n := by omega
      have := ih htail k (by omega)
      rwa [show a + 1 + k = a + (k + 1) by omega] at this

theorem loadNat_lt (m : ByteMemory) (a n : Nat) : loadNat m a n < 256 ^ n := by
  induction n generalizing a with
  | zero => simp [loadNat]
  | succ n ih =>
    have hbyte := (m a).isLt
    have htail := ih (a + 1)
    rw [loadNat, Nat.pow_succ']
    omega

theorem toNat_load (n : Nat) (m : ByteMemory) (a : Nat) : (load n m a).toNat = loadNat m a n := by
  have hwidth : (2 : Nat) ^ (8 * n) = 256 ^ n := by
    rw [Nat.pow_mul]
  rw [load, BitVec.toNat_ofNat, hwidth, Nat.mod_eq_of_lt (loadNat_lt m a n)]

/-- A word is its low bytes and its high bytes. -/
theorem loadNat_add (m : ByteMemory) (a n k : Nat) :
    loadNat m a (n + k) = loadNat m a n + 256 ^ n * loadNat m (a + n) k := by
  induction n generalizing a with
  | zero => simp [loadNat]
  | succ n ih =>
    rw [show n + 1 + k = (n + k) + 1 by omega, loadNat, loadNat, ih,
      show a + (n + 1) = a + 1 + n by omega]
    ring

theorem byte_of_load {m m' : ByteMemory} {a n : Nat} (h : load n m a = load n m' a) {x : Nat}
    (hx : a ≤ x ∧ x < a + n) : m x = m' x := by
  have hnat : loadNat m a n = loadNat m' a n := by
    rw [← toNat_load, ← toNat_load, h]
  have := byte_of_loadNat hnat (x - a) (by omega)
  rwa [show a + (x - a) = x by omega] at this

end ByteMemory
