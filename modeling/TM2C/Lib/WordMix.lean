import Mathlib.Data.BitVec
import Mathlib.Data.Int.CardIntervalMod
import Mathlib.Data.Nat.ModEq
import Mathlib.Data.Nat.Prime.Basic

/-!
# Mixing the bits of a word

The steps of which mixers are made are permutations of the words: `x ^ (x >> k)`, because only
zero is a shift of itself, and the product with an odd constant.  A permutation spreads the words
evenly over the residues (`count_residue_eq`).

The steps `x |= x >> m` with `m = 1, 2, 4, …` copy every set bit to all places below it
(`Smeared`).
-/

namespace WordMix

variable {w : Nat}

/-! ### Shifts and exclusive or -/

theorem eq_zero_of_eq_ushiftRight {d : BitVec w} {k : Nat} (hk : 0 < k) (h : d = d >>> k) :
    d = 0 := by
  have hnat : d.toNat = d.toNat / 2 ^ k := by
    conv_lhs => rw [h]
    rw [BitVec.toNat_ushiftRight, Nat.shiftRight_eq_div_pow]
  have hzero : d.toNat = 0 := by
    by_contra hne
    have hlt := Nat.div_lt_self (Nat.pos_of_ne_zero hne) (Nat.one_lt_two_pow hk.ne')
    omega
  exact BitVec.eq_of_toNat_eq hzero

/-- Two words with the same image differ by a word that equals its own shift. -/
theorem xor_eq_of_xor_eq {x y a b : BitVec w} (h : x ^^^ a = y ^^^ b) : x ^^^ y = a ^^^ b := by
  have hx : x = y ^^^ b ^^^ a := by
    rw [← h, BitVec.xor_assoc, BitVec.xor_self, BitVec.xor_zero]
  rw [hx, BitVec.xor_comm _ y, ← BitVec.xor_assoc, ← BitVec.xor_assoc, BitVec.xor_self,
    BitVec.zero_xor, BitVec.xor_comm]

theorem xorShiftRight_injective {k : Nat} (hk : 0 < k) :
    Function.Injective fun x : BitVec w => x ^^^ (x >>> k) := by
  intro x y h
  have hd : x ^^^ y = (x ^^^ y) >>> k := by
    rw [BitVec.ushiftRight_xor_distrib]
    exact xor_eq_of_xor_eq h
  exact BitVec.xor_eq_zero_iff.mp (eq_zero_of_eq_ushiftRight hk hd)

/-! ### Multiples -/

theorem mul_odd_injective {a : BitVec w} (ha : a.toNat % 2 = 1) :
    Function.Injective fun x : BitVec w => a * x := by
  intro x y h
  have hmod : a.toNat * x.toNat ≡ a.toNat * y.toNat [MOD 2 ^ w] := by
    have hnat : (a * x).toNat = (a * y).toNat := congrArg BitVec.toNat h
    rwa [BitVec.toNat_mul, BitVec.toNat_mul] at hnat
  have hcoprime : (2 ^ w).gcd a.toNat = 1 := by
    refine Nat.Coprime.pow_left w ?_
    exact Nat.coprime_two_left.mpr (Nat.odd_iff.mpr ha)
  have hxy := Nat.ModEq.cancel_left_of_coprime hcoprime hmod
  exact BitVec.eq_of_toNat_eq (Nat.ModEq.eq_of_lt_of_lt hxy x.isLt y.isLt)

/-! ### Even spreading -/

/-- Among `2 ^ w` consecutive numbers a permutation of the words sends as many to a residue as there
are numbers below `2 ^ w` with that residue. -/
theorem count_residue {f : BitVec w → BitVec w} (hf : Function.Injective f) (base n r : Nat) :
    Nat.count (fun k => (f (BitVec.ofNat w (base + k))).toNat % n = r) (2 ^ w) =
      Nat.count (fun k => k % n = r) (2 ^ w) := by
  let g : Nat → Nat := fun k => (f (BitVec.ofNat w (base + k))).toNat
  have hinj : Set.InjOn g (Finset.range (2 ^ w)) := by
    intro i hi j hj hij
    have hword := hf (BitVec.eq_of_toNat_eq hij)
    have hmod : base + i ≡ base + j [MOD 2 ^ w] := by
      have hnat := congrArg BitVec.toNat hword
      rwa [BitVec.toNat_ofNat, BitVec.toNat_ofNat] at hnat
    exact Nat.ModEq.eq_of_lt_of_lt (Nat.ModEq.add_left_cancel' base hmod)
      (Finset.mem_range.mp hi) (Finset.mem_range.mp hj)
  have himage : (Finset.range (2 ^ w)).image g = Finset.range (2 ^ w) := by
    refine Finset.eq_of_subset_of_card_le ?_ (Finset.card_image_of_injOn hinj).ge
    intro k hk
    obtain ⟨i, -, rfl⟩ := Finset.mem_image.mp hk
    exact Finset.mem_range.mpr (BitVec.isLt _)
  rw [Nat.count_eq_card_filter_range, Nat.count_eq_card_filter_range]
  conv_rhs => rw [← himage, Finset.filter_image]
  exact (Finset.card_image_of_injOn (hinj.mono (Finset.filter_subset _ _))).symm

/-- Each residue gets its share, rounded up or down. -/
theorem count_residue_eq {f : BitVec w → BitVec w} (hf : Function.Injective f) (base : Nat)
    {n r : Nat} (hr : r < n) :
    Nat.count (fun k => (f (BitVec.ofNat w (base + k))).toNat % n = r) (2 ^ w) =
      2 ^ w / n + if r < 2 ^ w % n then 1 else 0 := by
  have hcount := Nat.count_modEq_card (2 ^ w) (Nat.zero_lt_of_lt hr) r
  rw [Nat.mod_eq_of_lt hr] at hcount
  rw [count_residue hf, ← hcount]
  congr 1
  funext k
  rw [Nat.ModEq, Nat.mod_eq_of_lt hr]

/-! ### Copying bits downwards -/

/-- Every place of `y` tells whether one of the `m` places of `x` from there on is set. -/
def Smeared (m : Nat) (x y : BitVec w) : Prop :=
  ∀ i, y.getLsbD i = true ↔ ∃ j < m, x.getLsbD (i + j) = true

theorem smeared_one (x : BitVec w) : Smeared 1 x x := by
  intro i
  simp

theorem Smeared.double {m : Nat} {x y : BitVec w} (h : Smeared m x y) :
    Smeared (2 * m) x (y ||| (y >>> m)) := by
  intro i
  rw [BitVec.getLsbD_or, BitVec.getLsbD_ushiftRight, Bool.or_eq_true, h i, h (m + i)]
  constructor
  · rintro (⟨j, hj, hx⟩ | ⟨j, hj, hx⟩)
    · exact ⟨j, by omega, hx⟩
    · exact ⟨m + j, by omega, by rwa [show i + (m + j) = m + i + j by omega]⟩
  · rintro ⟨j, hj, hx⟩
    by_cases hjm : j < m
    · exact Or.inl ⟨j, hjm, hx⟩
    · exact Or.inr ⟨j - m, by omega, by rwa [show m + i + (j - m) = i + j by omega]⟩

/-- A word that is smeared over its whole width is all ones up to its highest bit. -/
theorem Smeared.toNat_eq {x y : BitVec w} (h : Smeared w x y) (hx : x.toNat ≠ 0) :
    y.toNat = 2 ^ (x.toNat.log2 + 1) - 1 := by
  apply Nat.eq_of_testBit_eq
  intro i
  rw [Nat.testBit_two_pow_sub_one, Bool.eq_iff_iff, decide_eq_true_eq,
    ← BitVec.getLsbD, h i]
  constructor
  · rintro ⟨j, -, hj⟩
    have hle : 2 ^ (i + j) ≤ x.toNat := Nat.ge_two_pow_of_testBit hj
    have hlog := (Nat.le_log2 hx).mpr hle
    omega
  · intro hi
    have hlt : x.toNat.log2 < w := (Nat.log2_lt hx).mpr x.isLt
    refine ⟨x.toNat.log2 - i, by omega, ?_⟩
    rw [show i + (x.toNat.log2 - i) = x.toNat.log2 by omega, BitVec.getLsbD]
    exact Nat.testBit_log2 hx

end WordMix
