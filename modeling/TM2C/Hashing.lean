import Mathlib.Order.Bounds.Basic
import TM2C.Lib.WordMix
import TM2C.Ssht

/-!
# Hashing and rounding

`hash_tw` of `include/hash.h` decides which service node is responsible for an address, in
`get_responsible_node` of `src/tm2c_app.c`, and in which bucket of its table the address is
looked up.  The first hashes the number of the unit of `2 ^ ADDR_SHIFT_MASK` bytes, and the second
that of the word of 8 bytes.

Each of the six steps of `hash_tw` is a product with an odd constant, plus a constant, or mixes a
word with its own shift; either is a permutation of the words (`hashTw_injective`).  So it spreads
the residues of any `2 ^ 32` consecutive numbers as the numbers themselves do
(`WordMix.count_residue`), which is up to one.  The second hash is taken modulo a power of two,
which divides `2 ^ 32`, and nothing is left over.

`pow2roundup` of `include/tm2c.h` serves the benchmarks.  Its five steps copy the leading bit of
`x - 1` to all places below it (`WordMix.Smeared`), so that adding one gives the next power of
two, which is 0 where it no longer fits.
-/

namespace TM2C

open WordMix

/-! ### `hash_tw` -/

/-- Each of the six steps is a permutation. -/
theorem hashTw_injective : Function.Injective hashTw := by
  have hmix : ∀ (k : Nat) (a b : BitVec 32), 0 < k → a.toNat % 2 = 1 →
      Function.Injective fun x : BitVec 32 => (a * x + b) ^^^ ((a * x + b) >>> k) := by
    intro k a b hk ha x y h
    exact mul_odd_injective ha (add_left_injective b (xorShiftRight_injective hk h))
  have hfirst : ∀ x : BitVec 32, x + ~~~(x <<< 15) = 0xFFFF8001#32 * x + 0xFFFFFFFF#32 := by
    intro x
    bv_omega
  have hsecond : ∀ x : BitVec 32, x + (x <<< 3) = 9#32 * x + 0#32 := by
    intro x
    bv_omega
  have hthird : ∀ x : BitVec 32, x + ~~~(x <<< 11) = 0xFFFFF801#32 * x + 0xFFFFFFFF#32 := by
    intro x
    bv_omega
  intro x y h
  simp only [hashTw, hfirst, hsecond, hthird] at h
  have hrest := hmix 16 0xFFFFF801#32 0xFFFFFFFF#32 (by decide) (by decide) h
  exact hmix 10 0xFFFF8001#32 0xFFFFFFFF#32 (by decide) (by decide)
    (hmix 6 9#32 0#32 (by decide) (by decide) hrest)

/-! ### `get_responsible_node` -/

/-- `ADDR_TO_DSL_SEL` -/
inductive AddrToDslSel where
  | hash
  | shift
deriving DecidableEq, Repr

/-- `get_responsible_node` outside the PGAS build; `hash_tw` takes the lower half of the shifted
address. -/
def getResponsibleNodeShared (sel : AddrToDslSel) (addrShiftMask numDslNodes : Nat)
    (addr : BitVec 64) : Nat :=
  match sel with
  | .hash => (hashTw ((addr >>> addrShiftMask).setWidth 32)).toNat % numDslNodes
  | .shift => (addr >>> addrShiftMask).toNat % numDslNodes

/-- The address of a byte in the unit `word`; a unit is `2 ^ ADDR_SHIFT_MASK` bytes, which is one
byte as `settings` has it. -/
def wordAddress (addrShiftMask word offset : Nat) : BitVec 64 :=
  BitVec.ofNat 64 (word * 2 ^ addrShiftMask + offset)

theorem wordAddress_ushiftRight {addrShiftMask word offset : Nat}
    (hoffset : offset < 2 ^ addrShiftMask) (hword : word < 2 ^ (64 - addrShiftMask))
    (hmask : addrShiftMask ≤ 64) :
    (wordAddress addrShiftMask word offset >>> addrShiftMask).toNat = word := by
  have hlt : word * 2 ^ addrShiftMask + offset < 2 ^ 64 := by
    have hpow : 2 ^ (64 - addrShiftMask) * 2 ^ addrShiftMask = 2 ^ 64 := by
      rw [← Nat.pow_add, Nat.sub_add_cancel hmask]
    calc word * 2 ^ addrShiftMask + offset
        < (word + 1) * 2 ^ addrShiftMask := by
          rw [Nat.add_mul, Nat.one_mul]
          exact Nat.add_lt_add_left hoffset _
      _ ≤ 2 ^ (64 - addrShiftMask) * 2 ^ addrShiftMask := Nat.mul_le_mul_right _ hword
      _ = 2 ^ 64 := hpow
  rw [wordAddress, BitVec.toNat_ushiftRight, BitVec.toNat_ofNat, Nat.mod_eq_of_lt hlt,
    Nat.shiftRight_eq_div_pow, Nat.add_comm, Nat.add_mul_div_right _ _ (Nat.two_pow_pos _),
    Nat.div_eq_of_lt hoffset, Nat.zero_add]

theorem getResponsibleNodeShared_wordAddress {addrShiftMask word offset : Nat}
    (hoffset : offset < 2 ^ addrShiftMask) (hword : word < 2 ^ (64 - addrShiftMask))
    (hmask : addrShiftMask ≤ 64) (sel : AddrToDslSel) (numDslNodes : Nat) :
    getResponsibleNodeShared sel addrShiftMask numDslNodes (wordAddress addrShiftMask word offset) =
      match sel with
      | .hash => (hashTw (BitVec.ofNat 32 word)).toNat % numDslNodes
      | .shift => word % numDslNodes := by
  have hshift := wordAddress_ushiftRight hoffset hword hmask
  cases sel with
  | hash =>
    simp only [getResponsibleNodeShared]
    congr 3
    apply BitVec.eq_of_toNat_eq
    rw [BitVec.toNat_setWidth, hshift, BitVec.toNat_ofNat]
  | shift => simp only [getResponsibleNodeShared, hshift]

/-- Consecutive numbers take turns with their residues. -/
theorem count_add_residue (base m : Nat) {n r : Nat} (hr : r < n) :
    m / n ≤ Nat.count (fun k => (base + k) % n = r) m ∧
      Nat.count (fun k => (base + k) % n = r) m ≤ m / n + 1 := by
  have hn : 0 < n := Nat.zero_lt_of_lt hr
  have hback : base + (r + (n - base % n)) ≡ r [MOD n] := by
    have hlt := Nat.mod_lt base hn
    have hsum : base + (r + (n - base % n)) = r + n * (base / n + 1) := by
      have hdiv := Nat.div_add_mod base n
      rw [Nat.mul_add, Nat.mul_one]
      omega
    rw [hsum, Nat.ModEq, Nat.add_mul_mod_self_left]
  have heq : ∀ k, (base + k) % n = r ↔ k ≡ r + (n - base % n) [MOD n] := by
    intro k
    constructor
    · intro hk
      have hmod : base + k ≡ base + (r + (n - base % n)) [MOD n] := by
        refine Nat.ModEq.trans ?_ hback.symm
        rw [Nat.ModEq, hk, Nat.mod_eq_of_lt hr]
      exact Nat.ModEq.add_left_cancel' base hmod
    · intro hk
      have hmod := (Nat.ModEq.add_left base hk).trans hback
      rwa [Nat.ModEq, Nat.mod_eq_of_lt hr] at hmod
  have hcount := Nat.count_modEq_card m hn (r + (n - base % n))
  simp only [heq, hcount]
  split <;> omega

/-- How many of the `2 ^ 32` units from `base` on a service node is responsible for, by the byte
`offset` of each. -/
def nodeLoad (sel : AddrToDslSel) (addrShiftMask numDslNodes base offset node : Nat) : Nat :=
  Nat.count (fun k => getResponsibleNodeShared sel addrShiftMask numDslNodes
    (wordAddress addrShiftMask (base + k) offset) = node) (2 ^ 32)

/-- How many of the `2 ^ 32` words of 8 bytes from `base` on have their locks in a bucket, whichever
service node is responsible for them. -/
def bucketLoad (base offset bucket : Nat) : Nat :=
  Nat.count (fun k => bucketOf false ((base + k) * 8 + offset) = bucket) (2 ^ 32)

theorem nodeLoad_bounds (sel : AddrToDslSel) {addrShiftMask numDslNodes base offset node : Nat}
    (hmask : addrShiftMask ≤ 32) (hoffset : offset < 2 ^ addrShiftMask)
    (hbase : base + 2 ^ 32 ≤ 2 ^ (64 - addrShiftMask)) (hnode : node < numDslNodes) :
    2 ^ 32 / numDslNodes ≤ nodeLoad sel addrShiftMask numDslNodes base offset node ∧
      nodeLoad sel addrShiftMask numDslNodes base offset node ≤ 2 ^ 32 / numDslNodes + 1 := by
  have hword : ∀ k < 2 ^ 32, getResponsibleNodeShared sel addrShiftMask numDslNodes
      (wordAddress addrShiftMask (base + k) offset) =
        match sel with
        | .hash => (hashTw (BitVec.ofNat 32 (base + k))).toNat % numDslNodes
        | .shift => (base + k) % numDslNodes :=
    fun k hk => getResponsibleNodeShared_wordAddress hoffset (by omega) (by omega) sel numDslNodes
  rw [nodeLoad, Nat.count_eq_card_filter_range, Finset.filter_congr (q := fun k =>
    (match sel with
      | .hash => (hashTw (BitVec.ofNat 32 (base + k))).toNat % numDslNodes
      | .shift => (base + k) % numDslNodes) = node) fun k hk => by
        rw [hword k (Finset.mem_range.mp hk)], ← Nat.count_eq_card_filter_range]
  cases sel with
  | hash =>
    simp only
    rw [count_residue_eq hashTw_injective base hnode]
    split <;> omega
  | shift => exact count_add_residue base (2 ^ 32) hnode

theorem bucketLoad_eq {base offset bucket : Nat} (hoffset : offset < 8)
    (hbucket : bucket ≤ NUM_OF_BUCKETS_2) :
    bucketLoad base offset bucket = 2 ^ 32 / (NUM_OF_BUCKETS_2 + 1) := by
  have hword : ∀ k, bucketOf false ((base + k) * 8 + offset) =
      (hashTw (BitVec.ofNat 32 (base + k))).toNat % 2 ^ 6 := by
    intro k
    have hshift : ((base + k) * 8 + offset) >>> 3 = base + k := by
      rw [Nat.shiftRight_eq_div_pow]
      omega
    rw [bucketOf, if_neg Bool.false_ne_true, tm2cHtGetHash, hshift,
      ← Nat.and_two_pow_sub_one_eq_mod]
    rfl
  have hlt : bucket < 2 ^ 6 := Nat.lt_succ_of_le hbucket
  simp only [bucketLoad, hword]
  have hnone : ¬ bucket < 2 ^ 32 % 2 ^ 6 := Nat.not_lt_zero bucket
  rw [count_residue_eq hashTw_injective base hlt, if_neg hnone]
  rfl

/-- **Locks are spread evenly**, outside the PGAS build.  Of any `2 ^ 32` consecutive units every
service node is responsible for the same number, up to one, whether or not the addresses are
hashed, and of any `2 ^ 32` consecutive words of 8 bytes every bucket of a lock table gets the same
number. -/
theorem locks_spread (sel : AddrToDslSel) (addrShiftMask numDslNodes base offset : Nat)
    (hnodes : 0 < numDslNodes) (hmask : addrShiftMask ≤ 32) (hoffset : offset < 2 ^ addrShiftMask)
    (hbase : base + 2 ^ 32 ≤ 2 ^ (64 - addrShiftMask)) :
    (∀ addr, getResponsibleNodeShared sel addrShiftMask numDslNodes addr < numDslNodes) ∧
    (∀ node < numDslNodes,
      2 ^ 32 / numDslNodes ≤ nodeLoad sel addrShiftMask numDslNodes base offset node ∧
        nodeLoad sel addrShiftMask numDslNodes base offset node ≤ 2 ^ 32 / numDslNodes + 1) ∧
    ∀ byte < 8, ∀ bucket ≤ NUM_OF_BUCKETS_2,
      bucketLoad base byte bucket = 2 ^ 32 / (NUM_OF_BUCKETS_2 + 1) := by
  refine ⟨?_, ?_, ?_⟩
  · intro addr
    cases sel with
    | hash => exact Nat.mod_lt _ hnodes
    | shift => exact Nat.mod_lt _ hnodes
  · exact fun node hnode => nodeLoad_bounds sel hmask hoffset hbase hnode
  · exact fun byte hbyte bucket hbucket => bucketLoad_eq hbyte hbucket

theorem locks_spread_threeNodes :
    2 ^ 32 / 3 ≤ nodeLoad .hash 6 3 0 17 2 ∧ nodeLoad .hash 6 3 0 17 2 ≤ 2 ^ 32 / 3 + 1 :=
  (locks_spread .hash 6 3 0 17 (by omega) (by omega) (by norm_num) (by norm_num)).2.1 2 (by omega)

/-! ### `pow2roundup` -/

def pow2roundup (x : BitVec 32) : BitVec 32 :=
  if x = 0 then 1
  else
    let x := x - 1
    let x := x ||| (x >>> 1)
    let x := x ||| (x >>> 2)
    let x := x ||| (x >>> 4)
    let x := x ||| (x >>> 8)
    let x := x ||| (x >>> 16)
    x + 1

theorem pow2roundup_toNat {x : BitVec 32} (hx : 1 < x.toNat) :
    (pow2roundup x).toNat = 2 ^ ((x.toNat - 1).log2 + 1) % 2 ^ 32 := by
  have hne : x ≠ 0 := by
    rintro rfl
    cases hx
  have hpred : (x - 1).toNat = x.toNat - 1 := by
    rw [BitVec.toNat_sub_of_le]
    · rfl
    · rw [BitVec.le_def]
      exact hx.le
  have hsmeared : Smeared 32 (x - 1) (pow2roundup x - 1) := by
    rw [pow2roundup, if_neg hne]
    simp only [BitVec.add_sub_cancel]
    exact ((((smeared_one (x - 1)).double).double).double).double.double
  have hones := hsmeared.toNat_eq (by omega)
  rw [hpred] at hones
  have hpos := Nat.two_pow_pos ((x.toNat - 1).log2 + 1)
  calc (pow2roundup x).toNat
      = (pow2roundup x - 1 + 1).toNat := by rw [BitVec.sub_add_cancel]
    _ = (2 ^ ((x.toNat - 1).log2 + 1) - 1 + 1) % 2 ^ 32 := by
        rw [BitVec.toNat_add, hones]
        rfl
    _ = 2 ^ ((x.toNat - 1).log2 + 1) % 2 ^ 32 := by rw [Nat.sub_add_cancel hpos]

theorem pow2roundup_of_le_one {x : BitVec 32} (hx : x.toNat ≤ 1) :
    (pow2roundup x).toNat = 1 := by
  obtain h | h : x.toNat = 0 ∨ x.toNat = 1 := by omega
  · obtain rfl : x = 0 := BitVec.eq_of_toNat_eq h
    rfl
  · obtain rfl : x = 1 := BitVec.eq_of_toNat_eq h
    rfl

theorem pow2roundup_eq_two_pow {x : BitVec 32} (hne : pow2roundup x ≠ 0) :
    ∃ k < 32, (pow2roundup x).toNat = 2 ^ k := by
  by_cases hx : 1 < x.toNat
  · have hnat := pow2roundup_toNat hx
    have hlog : (x.toNat - 1).log2 < 32 := (Nat.log2_lt (by omega)).mpr (by omega)
    by_cases htop : (x.toNat - 1).log2 = 31
    · rw [htop, Nat.mod_self] at hnat
      exact absurd (BitVec.eq_of_toNat_eq hnat) hne
    · refine ⟨(x.toNat - 1).log2 + 1, by omega, ?_⟩
      rwa [Nat.mod_eq_of_lt (Nat.pow_lt_pow_right Nat.one_lt_two (by omega))] at hnat
  · exact ⟨0, by omega, pow2roundup_of_le_one (Nat.not_lt.mp hx)⟩

/-- **Rounding up** gives the least power of two that is not smaller, as long as there is one
among the words, and 0 otherwise. -/
theorem pow2roundup_isLeast (x : BitVec 32) :
    (x.toNat ≤ 2 ^ 31 →
      IsLeast { p | x.toNat ≤ p ∧ ∃ k, p = 2 ^ k } (pow2roundup x).toNat) ∧
    (2 ^ 31 < x.toNat → pow2roundup x = 0) := by
  by_cases hx : 1 < x.toNat
  · have hpred : x.toNat - 1 ≠ 0 := by omega
    have hle := Nat.log2_self_le hpred
    have hlt := Nat.lt_log2_self (n := x.toNat - 1)
    refine ⟨?_, ?_⟩
    · intro hsmall
      have hlog : (x.toNat - 1).log2 < 31 := (Nat.log2_lt hpred).mpr (by omega)
      have hpow : 2 ^ ((x.toNat - 1).log2 + 1) < 2 ^ 32 :=
        Nat.pow_lt_pow_right Nat.one_lt_two (by omega)
      rw [pow2roundup_toNat hx, Nat.mod_eq_of_lt hpow]
      refine ⟨⟨by omega, _, rfl⟩, ?_⟩
      rintro p ⟨hp, k, rfl⟩
      refine Nat.pow_le_pow_right Nat.two_pos ?_
      exact (Nat.pow_lt_pow_iff_right Nat.one_lt_two).mp (by omega)
    · intro hlarge
      have hlog : (x.toNat - 1).log2 = 31 := by
        have hlower := (Nat.le_log2 hpred).mpr (show 2 ^ 31 ≤ x.toNat - 1 by omega)
        have hupper := (Nat.log2_lt hpred).mpr (show x.toNat - 1 < 2 ^ 32 by omega)
        omega
      apply BitVec.eq_of_toNat_eq
      rw [pow2roundup_toNat hx, hlog, Nat.mod_self]
      rfl
  · have hone := pow2roundup_of_le_one (Nat.not_lt.mp hx)
    refine ⟨?_, fun hlarge => absurd hlarge (by omega)⟩
    intro _
    rw [hone]
    refine ⟨⟨by omega, 0, rfl⟩, ?_⟩
    rintro p ⟨-, k, rfl⟩
    exact Nat.two_pow_pos k

end TM2C
