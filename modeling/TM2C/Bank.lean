import Mathlib.Algebra.BigOperators.Ring.Finset
import TM2C.Atomicity
import TM2C.Hashing

/-!
# The bank

The transactions of `bmarks/bank.c`, as they run in `test` on every application node: transfers
between two accounts, checks of two accounts, and totals of all accounts.  A transfer moves its
amount with two `TX_LOAD_STORE`s and ends with `TX_COMMIT_NO_PUB`.  Whatever the schedule, every
total is the one that the bank started with.

The accounts are an array of 8-byte structs, so that the balances lie at `accounts + 8 i + 4`,
and their number is `pow2roundup` of the number asked for.  `choose` takes two random numbers to
two different accounts, as the code does with `rand_max`.  A transaction is an `AtomicBlock`, and
`test` is the program that chooses one for every input.

What the bank holds is a sum of 32-bit numbers, `holdings`.  A transfer takes from one summand
what it adds to another, whatever wraps around (`holdings_transfer`), and a total is that sum
(`total_solo`); both are said of a block that runs alone.  A run of the system is one of such
blocks by atomicity, so the sum never changes, and the totals are read off committed blocks only:
an attempt that is aborted may well have seen another sum.
-/

namespace TM2C

open AtomicBlocks Transition

/-! ### Accounts -/

/-- The accounts that `main` makes, once its assertion has passed. -/
structure Bank where
  accounts : Nat
  -- what `--accounts` asks for
  requested : BitVec 32
  readAll : Nat
  check : Nat
  nbAccounts_ge : 2 ≤ (pow2roundup requested).toInt

namespace Bank

def nbAccounts (b : Bank) : BitVec 32 := pow2roundup b.requested

/-- `rand_max` of `test` -/
def randMax (b : Bank) : BitVec 32 := b.nbAccounts - 1

/-- `&accounts[i].balance`; the 4 bytes of `number` come before it. -/
def balance (b : Bank) (i : Nat) : Nat := b.accounts + 8 * i + 4

theorem balance_injective (b : Bank) : Function.Injective b.balance := by
  intro i j h
  simp only [balance] at h
  omega

theorem nbAccounts_eq (b : Bank) : ∃ k, 0 < k ∧ k < 32 ∧ b.nbAccounts.toNat = 2 ^ k := by
  have hge := b.nbAccounts_ge
  have hne : pow2roundup b.requested ≠ 0 := by
    intro hzero
    rw [hzero] at hge
    exact absurd hge (by decide)
  obtain ⟨k, hk, hsize⟩ := pow2roundup_eq_two_pow hne
  refine ⟨k, ?_, hk, hsize⟩
  by_contra hzero
  obtain rfl : k = 0 := by omega
  obtain hone : pow2roundup b.requested = 1 := BitVec.eq_of_toNat_eq hsize
  rw [hone] at hge
  exact absurd hge (by decide)

theorem and_randMax (b : Bank) (r : BitVec 32) :
    (r &&& b.randMax).toNat = r.toNat % b.nbAccounts.toNat := by
  obtain ⟨k, -, hk, hsize⟩ := b.nbAccounts_eq
  have hmax : b.randMax.toNat = 2 ^ k - 1 := by
    rw [randMax, BitVec.toNat_sub_of_le, hsize]
    · rfl
    · rw [BitVec.le_def, hsize]
      exact Nat.two_pow_pos k
  rw [BitVec.toNat_and, hmax, Nat.and_two_pow_sub_one_eq_mod, hsize]

/-! ### Transactions -/

inductive BankResult where
  | transferred
  | checked
  | total (sum : BitVec 32)
deriving DecidableEq, Repr

def transfer (b : Bank) (src dst : Nat) (amount : BitVec 32) :
    AtomicBlock Nat (BitVec 32) BankResult :=
  .update (b.balance src) (· - amount) (.update (b.balance dst) (· + amount) (.ret .transferred))

/-- The comparison of the two balances has no effect. -/
def checkAccs (b : Bank) (acc1 acc2 : Nat) : AtomicBlock Nat (BitVec 32) BankResult :=
  .load (b.balance acc1) fun _ => .load (b.balance acc2) fun _ => .ret .checked

/-- The loop of `total` with `remaining` accounts left, from account `i` on. -/
def totalLoop (b : Bank) : (remaining i : Nat) → BitVec 32 → AtomicBlock Nat (BitVec 32) BankResult
  | 0, _, sum => .ret (.total sum)
  | remaining + 1, i, sum =>
    .load (b.balance i) fun bal => b.totalLoop remaining (i + 1) (sum + bal)

/-- `total(bank, 1)` -/
def total (b : Bank) : AtomicBlock Nat (BitVec 32) BankResult := b.totalLoop b.nbAccounts.toNat 0 0

/-- The counters of `thread_data_t`, and the totals that the thread has read. -/
structure ThreadData where
  isReadCore : Bool
  nbTransfer : Nat
  nbChecks : Nat
  nbReadAll : Nat
  totals : List (BitVec 32)
deriving DecidableEq, Repr

/-- The random numbers of one round of `test`. -/
structure BankInput where
  nb : BitVec 32
  src : BitVec 32
  dst : BitVec 32
deriving DecidableEq, Repr

/-- The accounts that a round chooses. -/
def choose (b : Bank) (input : BankInput) : Nat × Nat :=
  let src := input.src &&& b.randMax
  let dst := input.dst &&& b.randMax
  let dst := if dst = src then (src + 1) &&& b.randMax else dst
  (src.toNat, dst.toNat)

def readsAll (b : Bank) (d : ThreadData) (input : BankInput) : Bool :=
  d.isReadCore || decide ((input.nb &&& 127).toNat < b.readAll)

def checks (b : Bank) (input : BankInput) : Bool :=
  decide ((input.nb &&& 127).toNat < b.check)

/-- The loop of `test`. -/
def test (b : Bank) : TxProgram ThreadData BankInput BankResult where
  next d input :=
    let (src, dst) := b.choose input
    some (if b.readsAll d input then b.total
      else if b.checks input then b.checkAccs src dst
      else b.transfer src dst 1)
  resume d _ result :=
    match result with
    | .total sum => { d with nbReadAll := d.nbReadAll + 1, totals := d.totals ++ [sum] }
    | .checked => { d with nbChecks := d.nbChecks + 1 }
    | .transferred => { d with nbTransfer := d.nbTransfer + 1 }
  pub d input := b.readsAll d input || b.checks input

/-- What the accounts hold in total. -/
def holdings (b : Bank) (mem : Nat → BitVec 32) : BitVec 32 :=
  ∑ i ∈ Finset.range b.nbAccounts.toNat, mem (b.balance i)

theorem choose_valid (b : Bank) (input : BankInput) :
    (b.choose input).1 < b.nbAccounts.toNat ∧ (b.choose input).2 < b.nbAccounts.toNat ∧
      (b.choose input).1 ≠ (b.choose input).2 := by
  obtain ⟨k, hpos, hk, hsize⟩ := b.nbAccounts_eq
  have hlt : ∀ r : BitVec 32, (r &&& b.randMax).toNat < b.nbAccounts.toNat := by
    intro r
    rw [and_randMax, hsize]
    exact Nat.mod_lt _ (Nat.two_pow_pos k)
  have htwo : 2 ≤ 2 ^ k := Nat.pow_le_pow_right Nat.two_pos hpos
  -- the account after the last one is the first one, which is another one
  have hnext : ∀ r : BitVec 32, r.toNat < 2 ^ k → r.toNat ≠ ((r + 1) &&& b.randMax).toNat := by
    intro r hr
    have hmax : 2 ^ k < 2 ^ 32 := Nat.pow_lt_pow_right Nat.one_lt_two hk
    have hsucc : (r + 1).toNat = r.toNat + 1 := by
      have hone : (1 : BitVec 32).toNat = 1 := rfl
      rw [BitVec.toNat_add, hone]
      exact Nat.mod_eq_of_lt (by omega)
    rw [and_randMax, hsize, hsucc]
    by_cases hlast : r.toNat + 1 = 2 ^ k
    · rw [hlast, Nat.mod_self]
      omega
    · rw [Nat.mod_eq_of_lt (by omega)]
      exact (Nat.lt_succ_self _).ne
  simp only [choose]
  split
  · exact ⟨hlt _, hlt _, hnext _ (hsize ▸ hlt _)⟩
  · rename_i hne
    exact ⟨hlt _, hlt _, fun h => hne (BitVec.eq_of_toNat_eq h.symm)⟩

theorem holdings_update (b : Bank) (mem : Nat → BitVec 32) {i : Nat}
    (hi : i < b.nbAccounts.toNat) (x : BitVec 32) :
    b.holdings (Function.update mem (b.balance i) x) = b.holdings mem - mem (b.balance i) + x := by
  have hupdate : ∀ j, Function.update mem (b.balance i) x (b.balance j) =
      Function.update (fun j => mem (b.balance j)) i x j := by
    intro j
    exact congrFun (Function.update_comp_eq_of_injective mem b.balance_injective i x) j
  simp only [holdings, hupdate]
  rw [Finset.sum_update_of_mem (Finset.mem_range.mpr hi), ← Finset.erase_eq,
    Finset.sum_erase_eq_sub (Finset.mem_range.mpr hi)]
  exact add_comm _ _

/-- What the accounts gain and lose by a transfer to another account. -/
theorem transfer_solo (b : Bank) (mem : Nat → BitVec 32) {src dst : Nat} (amount : BitVec 32)
    (hne : src ≠ dst) :
    (b.transfer src dst amount).solo mem = (.transferred,
      Function.update (Function.update mem (b.balance src) (mem (b.balance src) - amount))
        (b.balance dst) (mem (b.balance dst) + amount)) := by
  have honce : (b.transfer src dst amount).WritesOnce [] := by
    refine ⟨List.not_mem_nil, ?_, trivial⟩
    rw [List.mem_singleton]
    exact fun h => hne (b.balance_injective h).symm
  rw [AtomicBlock.solo_eq_atomic mem honce, transfer, AtomicBlock.atomic, AtomicBlock.atomic,
    AtomicBlock.atomic, Function.update_of_ne (fun h => hne (b.balance_injective h).symm)]

theorem holdings_transfer (b : Bank) (mem : Nat → BitVec 32) {src dst : Nat} (amount : BitVec 32)
    (hsrc : src < b.nbAccounts.toNat) (hdst : dst < b.nbAccounts.toNat) (hne : src ≠ dst) :
    b.holdings ((b.transfer src dst amount).solo mem).2 = b.holdings mem := by
  rw [transfer_solo b mem amount hne, holdings_update b _ hdst, holdings_update b _ hsrc,
    Function.update_of_ne (fun h => hne (b.balance_injective h).symm)]
  ring

theorem totalLoop_buffered (b : Bank) (mem : Nat → BitVec 32) (remaining i : Nat)
    (sum : BitVec 32) :
    (b.totalLoop remaining i sum).buffered mem [] =
      (.total (sum + ∑ j ∈ Finset.range remaining, mem (b.balance (i + j))), []) := by
  induction remaining generalizing i sum with
  | zero => rw [totalLoop, AtomicBlock.buffered, Finset.sum_range_zero, add_zero]
  | succ remaining ih =>
    rw [totalLoop, AtomicBlock.buffered, ih, Finset.sum_range_succ']
    have hshift : ∀ j, i + 1 + j = i + (j + 1) := fun j => by omega
    simp only [hshift, AppendLog.first_nil, Option.getD_none]
    rw [add_assoc, add_comm (mem _), Nat.add_zero]

theorem total_solo (b : Bank) (mem : Nat → BitVec 32) :
    b.total.solo mem = (.total (b.holdings mem), mem) := by
  rw [AtomicBlock.solo, total, totalLoop_buffered]
  simp only [zero_add, holdings]
  rfl

theorem checkAccs_solo (b : Bank) (mem : Nat → BitVec 32) (acc1 acc2 : Nat) :
    (b.checkAccs acc1 acc2).solo mem = (.checked, mem) := rfl

/-! ### Runs -/

theorem test_locks (b : Bank) (cfg : Config) : b.test.Locks cfg := by
  intro d input block hnext
  simp only [test, Option.some.injEq] at hnext
  by_cases hpub : b.test.pub d input = true
  · exact Or.inl hpub
  · simp only [test, Bool.or_eq_true, not_or] at hpub
    rw [if_neg hpub.1, if_neg hpub.2] at hnext
    subst hnext
    exact Or.inr (Or.inr trivial)

/-- One transaction that runs alone. -/
theorem atomicStep_test (b : Bank) {s s' : AtomicState ThreadData Nat (BitVec 32)}
    {input : Nat × BankInput} (hstep : atomicStep b.test.toProgram s input = some s') :
    b.holdings s'.mem = b.holdings s.mem ∧
      (∀ a, (∀ i < b.nbAccounts.toNat, a ≠ b.balance i) → s'.mem a = s.mem a) ∧
      ∀ v, (s'.thread v).totals = (s.thread v).totals ∨
        (s'.thread v).totals = (s.thread v).totals ++ [b.holdings s.mem] := by
  obtain ⟨block, hnext, hmem, hthread⟩ := atomicStep_eq_some hstep
  simp only [test, Option.some.injEq] at hnext
  have hothers : ∀ d, d.totals = (s.thread input.1).totals ∨
      d.totals = (s.thread input.1).totals ++ [b.holdings s.mem] →
      s'.thread = Function.update s.thread input.1 d →
      ∀ v, (s'.thread v).totals = (s.thread v).totals ∨
        (s'.thread v).totals = (s.thread v).totals ++ [b.holdings s.mem] := by
    intro d hd hthread v
    rw [hthread]
    by_cases hv : v = input.1
    · subst hv
      rw [Function.update_self]
      exact hd
    · rw [Function.update_of_ne hv]
      exact Or.inl rfl
  split at hnext
  · subst hnext
    rw [total_solo] at hmem hthread
    rw [hmem]
    exact ⟨rfl, fun _ _ => rfl, hothers _ (Or.inr rfl) hthread⟩
  · split at hnext
    · subst hnext
      rw [checkAccs_solo] at hmem hthread
      rw [hmem]
      exact ⟨rfl, fun _ _ => rfl, hothers (b.test.resume _ input.2 .checked) (Or.inl rfl) hthread⟩
    · subst hnext
      obtain ⟨hsrc, hdst, hne⟩ := b.choose_valid input.2
      refine ⟨?_, ?_, hothers (b.test.resume _ input.2 .transferred) (Or.inl rfl) hthread⟩
      · rw [hmem]
        exact holdings_transfer b s.mem 1 hsrc hdst hne
      · intro a ha
        rw [hmem, transfer_solo b s.mem 1 hne]
        simp only
        rw [Function.update_of_ne (ha _ hdst), Function.update_of_ne (ha _ hsrc)]

/-- What holds after any number of transactions that run alone. -/
structure Kept (b : Bank) (mem : Nat → BitVec 32) (s : AtomicState ThreadData Nat (BitVec 32)) :
    Prop where
  holdings : b.holdings s.mem = b.holdings mem
  others : ∀ a, (∀ i < b.nbAccounts.toNat, a ≠ b.balance i) → s.mem a = mem a
  totals : ∀ v, ∀ sum ∈ (s.thread v).totals, sum = b.holdings mem

theorem Kept.step {b : Bank} {mem : Nat → BitVec 32}
    {s s' : AtomicState ThreadData Nat (BitVec 32)} {input : Nat × BankInput} (h : b.Kept mem s)
    (hstep : atomicStep b.test.toProgram s input = some s') : b.Kept mem s' := by
  obtain ⟨hholdings, hothers, htotals⟩ := b.atomicStep_test hstep
  refine ⟨hholdings.trans h.holdings, fun a ha => (hothers a ha).trans (h.others a ha), ?_⟩
  intro v sum hsum
  obtain heq | heq := htotals v
  · rw [heq] at hsum
    exact h.totals v sum hsum
  · rw [heq, List.mem_append, List.mem_singleton] at hsum
    obtain hsum | rfl := hsum
    · exact h.totals v sum hsum
    · exact h.holdings

/-- **No money is made or lost.**  In every run of the bank, whatever transactions are aborted and
restarted, every total that a thread reads is what the accounts held in the beginning, and so is
what they hold whenever no node is persisting its writes; nothing else in the memory changes. -/
theorem totals_constant (cl : Cluster) (b : Bank) (mem : Nat → BitVec 32)
    (thread : Nat → ThreadData) (hthread : ∀ v, (thread v).totals = [])
    {es : List (TxEvent BankInput)} {s : TxSystem ThreadData BankInput BankResult}
    (hexec : Exec (partialGraph (TxSystem.step cl b.test))
      (txSystemInit BankInput BankResult mem thread) es s) :
    (∀ v, ∀ sum ∈ (s.thread v).totals, sum = b.holdings mem) ∧
    ((∀ v i, (s.system.node v).phase ≠ .persisting i) →
      b.holdings s.system.mem = b.holdings mem ∧
        ∀ a, (∀ i < b.nbAccounts.toNat, a ≠ b.balance i) → s.system.mem a = mem a) := by
  have hlocks := b.test_locks cl.cfg
  have hinit : b.Kept mem ⟨mem, thread⟩ := by
    refine ⟨rfl, fun _ _ => rfl, ?_⟩
    intro v sum hsum
    simp only [hthread, List.not_mem_nil] at hsum
  have hkept : b.Kept mem s.abstraction :=
    System.abstraction_invariant hlocks hexec (fun _ _ _ h hstep => h.step hstep) hinit
  refine ⟨hkept.totals, ?_⟩
  intro hphase
  rw [System.mem_eq_of_not_persisting hlocks hexec hphase]
  exact ⟨hkept.holdings, hkept.others⟩

def twoAccounts : Bank := ⟨64, 2, 0, 0, by decide⟩

/-- Access to one account, where `victims` nodes stand in the way. -/
def accessAccount (v victims : Nat) : List (TxEvent BankInput) :=
  [.operation v, .system (.node v (.send 0)), .system (.handle 0 v 0)] ++
    List.replicate victims (.system (.abortNode 0)) ++
    [.system (.grant 0), .system (.node v .recv), .operation v]

/-- Node 1 has read the first account when the transfer of node 0 kills it, and it reads both
afterwards. -/
def transferWins : List (TxEvent BankInput) :=
  [.txStart 1 ⟨0, 0, 0⟩ 0] ++ accessAccount 1 0 ++ [.txStart 0 ⟨127, 0, 0⟩ 0] ++
  accessAccount 0 1 ++ accessAccount 0 0 ++
  [.operation 0, .system (.node 0 .setTxPersisting), .system (.node 0 .writeEntryPersist),
    .system (.node 0 .writeEntryPersist), .txCommitted 0, .system (.node 0 (.rlsAll 0)),
    .system (.handle 0 0 0), .operation 1, .system (.node 1 (.rlsAll 0)),
    .system (.node 1 (.finish 0)), .system (.handle 0 1 0), .restart 1 0] ++
  accessAccount 1 0 ++ accessAccount 1 0 ++
  [.operation 1, .system (.node 1 .setTxPersisting), .txCommitted 1]

theorem totals_constant_transferWins :
    ∃ s : TxSystem ThreadData BankInput BankResult, s.system.mem 68 = 4 ∧ s.system.mem 76 = 1 ∧
      (s.thread 1).totals = [5] ∧ (∀ v, ∀ sum ∈ (s.thread v).totals, sum = 5) := by
  let mem : Nat → BitVec 32 := fun a => if a = 68 then 5 else 0
  let thread : Nat → ThreadData := fun v => ⟨v == 1, 0, 0, 0, []⟩
  let s := (transferWins.foldlM (TxSystem.step System.pairCluster twoAccounts.test)
    (txSystemInit BankInput BankResult mem thread)).get (by decide +kernel)
  have hexec : Exec (partialGraph (TxSystem.step System.pairCluster twoAccounts.test))
      (txSystemInit BankInput BankResult mem thread) transferWins s :=
    exec_partialGraph_iff.mpr (Option.some_get _).symm
  have htotals := totals_constant System.pairCluster twoAccounts mem thread (fun _ => rfl) hexec
  have hholdings : twoAccounts.holdings mem = 5 := by decide +kernel
  rw [hholdings] at htotals
  exact ⟨s, by decide +kernel, by decide +kernel, by decide +kernel, htotals.1⟩

end Bank

end TM2C
