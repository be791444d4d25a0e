import Mathlib.Data.List.Pairwise
import Mathlib.Algebra.Order.Ring.Nat
import TM2C.Lib.Transition

/-!
# Backoff

The waiting of `tm2c_handle_abort` in `src/tm2c.c` with `BACKOFF_RETRY`, between the
attempts that `TX_START` of `include/tm2c.h` counts.  All variables are `uint32_t`, while
`BACKOFF_MAX` and `BACKOFF_DELAY` are any numbers that the build passes.

Two things can go wrong in 32 bits.  `wait_max <<= wait_exp - 1` has no meaning from a shift by 32
on, and gives no value here (`shiftLeft32`); and `wait_max` may become zero, after which `%
wait_max` has no value either.  A build whose `BACKOFF_MAX` is large reaches both, after enough
aborts in a row.

A run is a list of starts, aborts and commits of one node.  `Bounded` says of its waits that each
has a value, below the positive bound `BACKOFF_DELAY · 2^(n-1)` of its attempt, where `n` is
capped by `BACKOFF_MAX`, and that the bounds do not decrease; `Fits` is the condition on one
step, on the retries and the settings alone.  One abort keeps `Bounded` if and only if it `Fits`
(`BackoffRun.bounded_abort_iff`), and the run theorem is the induction over both directions.
-/

namespace TM2C

open Transition

/-- The settings of the build. -/
structure BackoffSettings where
  backoffMax : Nat
  backoffDelay : Nat
deriving DecidableEq, Repr

/-- `x <<= count` for a `uint32_t`, which the language defines for counts below 32. -/
def shiftLeft32 (x count : Nat) : Option Nat :=
  if count < 32 then some ((x <<< count) % 2 ^ 32) else none

structure Wait where
  waitMax : Nat
  wait : Nat
deriving DecidableEq, Repr

/-- The block behind `BACKOFF_MAX > 0`; `rand` is what `tm2c_rand` returns.  Undefined are
a shift that is too far, and a modulus of 0. -/
def backoff (c : BackoffSettings) (retries rand : Nat) : Option Wait :=
  let waitExp := if retries > c.backoffMax then c.backoffMax else retries
  (shiftLeft32 (c.backoffDelay % 2 ^ 32) ((waitExp + (2 ^ 32 - 1)) % 2 ^ 32)).bind fun waitMax =>
    if waitMax = 0 then none else some ⟨waitMax, rand % waitMax⟩

/-! ### The attempts of a node -/

/-- `retries` of the descriptor, and the waits of the running transaction, oldest first. -/
structure BackoffRun where
  retries : Nat
  running : Bool
  waits : List (Option Wait)
deriving DecidableEq, Repr

inductive BackoffEvent where
  | txStart
  | abort (rand : Nat)
  | commit
deriving DecidableEq, Repr

/-- What `tm2c_tx_meta_new` leaves. -/
def BackoffRun.new : BackoffRun := ⟨0, false, []⟩

/-- `TX_START`, behind its `sigsetjmp`. -/
def BackoffRun.attempt (s : BackoffRun) : BackoffRun :=
  { s with retries := (s.retries + 1) % 2 ^ 32 }

/-- An abort jumps back into `TX_START`; all commit macros end with `tm2c_tx_meta_empty`.
Nothing follows an undefined wait. -/
def BackoffRun.step (c : BackoffSettings) (s : BackoffRun) : BackoffEvent → Option BackoffRun
  | .txStart => if s.running then none else some { s with running := true }.attempt
  | .abort rand =>
    if s.running ∧ none ∉ s.waits then
      some { s with
        waits := if c.backoffMax > 0 then s.waits ++ [backoff c s.retries rand]
          else s.waits }.attempt
    else none
  | .commit => if s.running ∧ none ∉ s.waits then some .new else none

/-- The bound after `n` attempts. -/
def BackoffSettings.bound (c : BackoffSettings) (n : Nat) : Nat :=
  c.backoffDelay * 2 ^ (min n c.backoffMax - 1)

/-- Every wait is below the bound of its attempt, which is positive, and the bounds never
decrease. -/
structure BackoffRun.Bounded (c : BackoffSettings) (s : BackoffRun) : Prop where
  exact : ∀ k w, s.waits[k]? = some w →
    ∃ v, w = some v ∧ v.waitMax = c.bound (k + 1) ∧ 0 < v.waitMax ∧ v.wait < v.waitMax
  monotone : s.waits.Pairwise fun v w => ∀ a ∈ v, ∀ b ∈ w, a.waitMax ≤ b.waitMax

/-- `retries` did not become 0, and the bound is a `uint32_t`. -/
def BackoffRun.Fits (c : BackoffSettings) (s : BackoffRun) : BackoffEvent → Prop
  | .abort _ => s.retries ≠ 0 ∧ c.bound s.retries < 2 ^ 32
  | _ => True

instance (c : BackoffSettings) (s : BackoffRun) : (e : BackoffEvent) → Decidable (s.Fits c e)
  | .abort _ => inferInstanceAs (Decidable (_ ∧ _))
  | .txStart | .commit => inferInstanceAs (Decidable True)

section Waits

variable {c : BackoffSettings} {s t : BackoffRun}

theorem BackoffSettings.bound_le (c : BackoffSettings) {m n : Nat} (h : m ≤ n) :
    c.bound m ≤ c.bound n := by
  apply Nat.mul_le_mul_left
  apply Nat.pow_le_pow_right (by decide)
  omega

theorem BackoffSettings.bound_pos (hdelay : 0 < c.backoffDelay) (n : Nat) : 0 < c.bound n :=
  Nat.mul_pos hdelay (Nat.two_pow_pos _)

/-- Where the bound fits, the shift loses nothing. -/
theorem backoff_of_fits (hmax : 0 < c.backoffMax) (hdelay : 0 < c.backoffDelay) {retries : Nat}
    (hretries : retries ≠ 0) (hlt : retries < 2 ^ 32) (hfits : c.bound retries < 2 ^ 32)
    (rand : Nat) :
    backoff c retries rand = some ⟨c.bound retries, rand % c.bound retries⟩ := by
  have hexp : (if retries > c.backoffMax then c.backoffMax else retries) =
      min retries c.backoffMax := by
    split <;> omega
  have hcount : (min retries c.backoffMax + (2 ^ 32 - 1)) % 2 ^ 32 =
      min retries c.backoffMax - 1 := by
    omega
  have hle : 2 ^ (min retries c.backoffMax - 1) ≤ c.bound retries :=
    Nat.le_mul_of_pos_left _ hdelay
  have hpow : 2 ^ (min retries c.backoffMax - 1) < 2 ^ 32 := Nat.lt_of_le_of_lt hle hfits
  have hshift : min retries c.backoffMax - 1 < 32 :=
    (Nat.pow_lt_pow_iff_right (by decide)).mp hpow
  have hle' : c.backoffDelay ≤ c.bound retries :=
    Nat.le_mul_of_pos_right _ (Nat.two_pow_pos _)
  have hsmall : c.backoffDelay < 2 ^ 32 := Nat.lt_of_le_of_lt hle' hfits
  have hvalue : shiftLeft32 (c.backoffDelay % 2 ^ 32) (min retries c.backoffMax - 1) =
      some (c.bound retries) := by
    unfold shiftLeft32
    rw [if_pos hshift, Nat.mod_eq_of_lt hsmall, Nat.shiftLeft_eq]
    exact congrArg some (Nat.mod_eq_of_lt hfits)
  simp only [backoff, hexp, hcount, hvalue, Option.bind_some]
  exact if_neg (Nat.ne_of_gt (c.bound_pos hdelay retries))

/-- Where the wait is defined, `retries` is not 0 and the bound is a `uint32_t`. -/
theorem backoff_eq_some {retries rand : Nat} {v : Wait} (h : backoff c retries rand = some v) :
    retries ≠ 0 ∧ v.waitMax < 2 ^ 32 := by
  simp only [backoff, shiftLeft32, Option.bind_eq_some_iff, Option.ite_none_right_eq_some,
    Option.ite_none_left_eq_some] at h
  obtain ⟨waitMax, ⟨hcount, hvalue⟩, -, hv⟩ := h
  constructor
  · rintro rfl
    rw [if_neg (Nat.not_lt_zero _)] at hcount
    exact absurd hcount (by decide)
  · rw [← Option.some.inj hv, ← Option.some.inj hvalue]
    exact Nat.mod_lt _ (by decide)

/-- As long as all waits are defined, `retries` counts them and the running attempt. -/
structure BackoffRun.Counts (s : BackoffRun) : Prop where
  idle : s.running = false → s = .new
  running : s.running = true → none ∉ s.waits →
    s.retries = (s.waits.length + 1) % 2 ^ 32 ∧ s.waits.length < 2 ^ 32

theorem BackoffRun.Counts.step (h : s.Counts) (hmax : 0 < c.backoffMax) {e : BackoffEvent}
    (hstep : s.step c e = some t) : t.Counts := by
  cases e with
  | txStart =>
    obtain ⟨hidle, ht⟩ := Option.ite_none_left_eq_some.mp hstep
    obtain rfl := h.idle (Bool.eq_false_iff.mpr hidle)
    obtain rfl := Option.some.inj ht
    exact ⟨fun hr => absurd hr (by decide), fun _ _ => ⟨rfl, by decide⟩⟩
  | abort rand =>
    obtain ⟨⟨hrunning, hdefined⟩, ht⟩ := Option.ite_none_right_eq_some.mp hstep
    obtain rfl := Option.some.inj ht
    obtain ⟨hretries, hlength⟩ := h.running hrunning hdefined
    refine ⟨fun hidle => absurd hrunning (Bool.eq_false_iff.mp hidle), fun _ hnone => ?_⟩
    simp only [BackoffRun.attempt, if_pos hmax, List.length_append, List.length_singleton]
      at hnone ⊢
    -- the wait at `retries = 0` would be undefined
    have hne : s.retries ≠ 0 := by
      cases hwait : backoff c s.retries rand with
      | none =>
        rw [hwait] at hnone
        exact absurd (List.mem_append_right _ List.mem_cons_self) hnone
      | some v => exact (backoff_eq_some hwait).1
    omega
  | commit =>
    obtain ⟨-, ht⟩ := Option.ite_none_right_eq_some.mp hstep
    obtain rfl := Option.some.inj ht
    exact ⟨fun _ => rfl, fun hr => absurd hr (by decide)⟩

theorem BackoffRun.bounded_nil (h : s.waits = []) : s.Bounded c := by
  constructor
  · intro k w hk
    rw [h, List.getElem?_nil] at hk
    exact absurd hk (by simp)
  · rw [h]
    exact List.Pairwise.nil

theorem BackoffRun.Bounded.defined (h : s.Bounded c) : none ∉ s.waits := by
  intro hmem
  obtain ⟨k, hk⟩ := List.mem_iff_getElem?.mp hmem
  obtain ⟨v, hv, -⟩ := h.exact k none hk
  exact Option.some_ne_none v hv.symm

/-- One more abort. -/
theorem BackoffRun.bounded_abort_iff (hs : s.Counts) (hbounded : s.Bounded c)
    (hmax : 0 < c.backoffMax) (hdelay : 0 < c.backoffDelay) (hrunning : s.running = true)
    (rand : Nat) (ht : t.waits = s.waits ++ [backoff c s.retries rand]) :
    t.Bounded c ↔ s.Fits c (.abort rand) := by
  obtain ⟨hretries, hlength⟩ := hs.running hrunning hbounded.defined
  have hcount : s.retries ≠ 0 → s.retries = s.waits.length + 1 := by
    intro hne
    omega
  constructor
  · intro h
    have hlast : t.waits[s.waits.length]? = some (backoff c s.retries rand) := by
      rw [ht, List.getElem?_concat_length]
    obtain ⟨v, hv, hvalue, -, -⟩ := h.exact _ _ hlast
    obtain ⟨hne, hlt⟩ := backoff_eq_some hv
    rw [hvalue, ← hcount hne] at hlt
    exact ⟨hne, hlt⟩
  · rintro ⟨hne, hfits⟩
    have hlt : s.retries < 2 ^ 32 := by
      rw [hretries]
      exact Nat.mod_lt _ (by decide)
    have hwait := backoff_of_fits hmax hdelay hne hlt hfits rand
    have hpos := c.bound_pos hdelay s.retries
    rw [hwait] at ht
    constructor
    · intro k w hk
      rw [ht, List.getElem?_append] at hk
      split at hk
      · exact hbounded.exact k w hk
      · obtain ⟨hzero, hw⟩ := List.getElem?_eq_some_iff.mp hk
        rw [List.length_singleton] at hzero
        have hlast : k + 1 = s.retries := by
          rw [hcount hne]
          omega
        rw [List.getElem_singleton] at hw
        exact ⟨_, hw.symm, by rw [hlast], hpos, Nat.mod_lt _ hpos⟩
    · rw [ht, List.pairwise_append]
      refine ⟨hbounded.monotone, List.pairwise_singleton .., ?_⟩
      intro w hw x hx a ha b hb
      rw [List.mem_singleton] at hx
      subst hx
      obtain rfl := Option.some.inj hb
      obtain ⟨k, hk⟩ := List.mem_iff_getElem?.mp hw
      obtain ⟨v, hv, hvalue, -, -⟩ := hbounded.exact k w hk
      obtain rfl : v = a := Option.some.inj (hv.symm.trans ha)
      rw [hvalue]
      apply c.bound_le
      have hk' := (List.getElem?_eq_some_iff.mp hk).1
      rw [hcount hne]
      omega

/-- **The backoff bound.**  In all states of a run the waits are below their bounds, which
are the right ones and never decrease, if and only if every abort happens with a bound that
is a `uint32_t`, and before `retries` wraps around. -/
theorem backoff_bounded_iff (c : BackoffSettings) (hmax : 0 < c.backoffMax)
    (hdelay : 0 < c.backoffDelay) (es : List BackoffEvent) (s : BackoffRun)
    (hexec : Exec (partialGraph (BackoffRun.step c)) BackoffRun.new es s) :
    (∀ fs t, fs <+: es → Exec (partialGraph (BackoffRun.step c)) BackoffRun.new fs t →
        t.Bounded c) ↔
      Exec (restrict (BackoffRun.Fits c) (partialGraph (BackoffRun.step c))) BackoffRun.new
        es s := by
  refine hexec.forall_prefix_iff (I := BackoffRun.Counts) (fun s e t hs => hs.step hmax) ?_
    ⟨fun _ => rfl, fun hr => absurd hr (by decide)⟩ (BackoffRun.bounded_nil rfl)
  intro s e t hs hbounded hstep
  cases e with
  | txStart =>
    obtain ⟨hidle, ht⟩ := Option.ite_none_left_eq_some.mp hstep
    obtain rfl := Option.some.inj ht
    obtain rfl := hs.idle (Bool.eq_false_iff.mpr hidle)
    exact iff_of_true (BackoffRun.bounded_nil rfl) trivial
  | abort rand =>
    obtain ⟨⟨hrunning, -⟩, ht⟩ := Option.ite_none_right_eq_some.mp hstep
    obtain rfl := Option.some.inj ht
    exact BackoffRun.bounded_abort_iff hs hbounded hmax hdelay hrunning rand
      (if_pos hmax)
  | commit =>
    obtain ⟨-, ht⟩ := Option.ite_none_right_eq_some.mp hstep
    obtain rfl := Option.some.inj ht
    exact iff_of_true (BackoffRun.bounded_nil rfl) trivial

end Waits

/-- Three aborts, a commit and another transaction, with the settings of the repository. -/
theorem backoff_bounded_iff_settings :
    ∃ s, Exec (partialGraph (BackoffRun.step ⟨10, 500⟩)) BackoffRun.new
        [.txStart, .abort 700, .abort 700, .abort 700, .commit, .txStart, .abort 501] s ∧
      s.waits = [some ⟨500, 1⟩] ∧ s.Bounded ⟨10, 500⟩ := by
  have hrun : ([.txStart, .abort 700, .abort 700, .abort 700, .commit, .txStart,
      .abort 501].foldlM (guarded (BackoffRun.Fits ⟨10, 500⟩) (BackoffRun.step ⟨10, 500⟩))
      BackoffRun.new).any (fun s => decide (s.waits = [some ⟨500, 1⟩])) = true := by
    decide +kernel
  obtain ⟨s, hs, hwaits⟩ := (Option.any_eq_true _ _).mp hrun
  have hguarded := exec_guarded_iff.mpr hs
  have hexec := hguarded.of_restrict
  exact ⟨s, hexec, of_decide_eq_true hwaits,
    (backoff_bounded_iff ⟨10, 500⟩ (by decide) (by decide) _ s hexec).mpr hguarded _ s
      List.prefix_rfl hexec⟩

/-- With a larger `BACKOFF_MAX` the 31st abort in a row takes a number modulo 0. -/
theorem backoff_modulus_zero :
    shiftLeft32 500 30 = some 0 ∧
    ∃ s, Exec (partialGraph (BackoffRun.step ⟨100, 500⟩)) BackoffRun.new
        (.txStart :: List.replicate 31 (.abort 700)) s ∧
      s.waits[30]? = some none ∧ ¬ s.Bounded ⟨100, 500⟩ := by
  refine ⟨by decide, ?_⟩
  have hrun : ((BackoffEvent.txStart :: List.replicate 31 (.abort 700)).foldlM
      (BackoffRun.step ⟨100, 500⟩) BackoffRun.new).any
        (fun s => decide (s.waits[30]? = some none)) = true := by
    decide +kernel
  obtain ⟨s, hs, hlast⟩ := (Option.any_eq_true _ _).mp hrun
  have hnone := of_decide_eq_true hlast
  exact ⟨s, exec_partialGraph_iff.mpr hs, hnone,
    fun h => h.defined (List.mem_of_getElem? hnone)⟩

end TM2C
