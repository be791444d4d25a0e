import Mathlib.Algebra.Order.Group.Multiset
import Mathlib.Data.List.Nodup
import TM2C.Lib.Extent
import TM2C.Lib.RingBuffer
import TM2C.Lib.Transition

/-!
# The shared-memory allocators

`src/tm2c_malloc.c`, and `pgas_app_alloc` and `pgas_app_free` of `src/pgas_app.c`, which
are the same code.  Blocks are cut off a region, and freed blocks wait in an array of 256
pointers for the next request, whatever its size.  The number of waiting blocks is a
`uint8_t`, so the 256th of them makes it 0.

`FreeRing` has both, the region with its cursor and the array with its two positions, one of
which is computed from the other in eight bits.  `malloc` takes from the ring as long as more than
two blocks wait, and cuts off the region otherwise; `free` writes to the ring in any case.

Two things are said of a run.  That the ring loses nothing is a matter of counting: `Stored`
follows the waiting pointers as a queue of the library, and it is right until 256 of them wait at
once, when the count becomes zero and all are forgotten; this is an equivalence.  That live blocks
do not overlap is `Sound`: blocks are cut off the region one behind the other, and everything
handed out begins where one of them does.  A block from the ring has the size it was cut with, not
the size now asked for, so requests that the ring serves must not be larger than that.
-/

namespace TM2C

open Transition

/-- The static variables; `freeCur` and `freeNum` are `uint8_t`, and `mem` is
`tm2c_app_mem` or `pgas_app_mem_mine`. -/
structure FreeRing where
  mem : Nat
  allocNext : Nat
  freeList : Nat → Nat
  freeCur : Nat
  freeNum : Nat

/-- `tm2c_shmalloc` and `pgas_app_alloc`. -/
def FreeRing.malloc (a : FreeRing) (size : Nat) : Nat × FreeRing :=
  if a.freeNum > 2 then
    let spot := (a.freeCur + 256 - a.freeNum) % 256
    (a.freeList spot, { a with freeNum := a.freeNum - 1 })
  else ((a.mem + a.allocNext) % 2 ^ 64, { a with allocNext := (a.allocNext + size) % 2 ^ 64 })

/-- `tm2c_shfree` and `pgas_app_free`. -/
def FreeRing.free (a : FreeRing) (ptr : Nat) : FreeRing :=
  { a with
    freeNum := (a.freeNum + 1) % 256
    freeList := Function.update a.freeList a.freeCur ptr
    freeCur := (a.freeCur + 1) % 256 }

/-- The variables of a thread when it starts. -/
def tm2cShmallocNew (mem : Nat) : FreeRing := ⟨mem, 0, fun _ => 0, 0, 0⟩

def tm2cShmalloc : FreeRing → Nat → Nat × FreeRing := FreeRing.malloc

def tm2cShfree : FreeRing → Nat → FreeRing := FreeRing.free

/-- What `pgas_app_init` leaves. -/
def pgasAppNew (memMine : Nat) : FreeRing := ⟨memMine, 64, fun _ => 0, 0, 0⟩

def pgasAppAlloc : FreeRing → Nat → Nat × FreeRing := FreeRing.malloc

def pgasAppFree : FreeRing → Nat → FreeRing := FreeRing.free

inductive Allocator where
  | tm2cMalloc
  | pgasApp
deriving DecidableEq, Repr

def Allocator.new : Allocator → Nat → FreeRing
  | .tm2cMalloc => tm2cShmallocNew
  | .pgasApp => pgasAppNew

def Allocator.malloc : Allocator → FreeRing → Nat → Nat × FreeRing
  | .tm2cMalloc => tm2cShmalloc
  | .pgasApp => pgasAppAlloc

def Allocator.free : Allocator → FreeRing → Nat → FreeRing
  | .tm2cMalloc => tm2cShfree
  | .pgasApp => pgasAppFree

/-! ### Runs of one thread -/

/-- An allocator with what its caller knows: the live blocks, with the sizes they were
requested with, the blocks as they were cut off the region, and the pointers that were
freed, and handed out again, each as often as it was. -/
structure AllocRun where
  alloc : FreeRing
  live : List Extent
  carved : List Extent
  freed : Multiset Nat
  handed : Multiset Nat

inductive AllocEvent where
  | malloc (size : Nat)
  | free (b : Extent)
deriving DecidableEq, Repr

def AllocRun.new (a : Allocator) (mem : Nat) : AllocRun := ⟨a.new mem, [], [], 0, 0⟩

/-- Only live blocks are freed. -/
def AllocRun.step (a : Allocator) (s : AllocRun) : AllocEvent → Option AllocRun
  | .malloc size =>
    let (ptr, alloc) := a.malloc s.alloc size
    some { s with
      alloc := alloc
      live := ⟨ptr, size⟩ :: s.live
      carved := if s.alloc.freeNum > 2 then s.carved else ⟨ptr, size⟩ :: s.carved
      handed := if s.alloc.freeNum > 2 then ptr ::ₘ s.handed else s.handed }
  | .free b =>
    if b ∈ s.live then
      some { s with
        alloc := a.free s.alloc b.start
        live := s.live.erase b
        freed := b.start ::ₘ s.freed }
    else none

/-- The `tm2c_free_num` pointers stored before `tm2c_free_cur`, oldest first. -/
def FreeRing.stored (a : FreeRing) : List Nat :=
  RingBuffer.window 256 a.freeList a.freeCur a.freeNum

/-- The ring holds the freed blocks that were not handed out again. -/
def AllocRun.RingExact (s : AllocRun) : Prop := s.freed - s.handed = s.alloc.stored

/-- No block is freed while 255 are waiting. -/
def AllocRun.RingHasRoom (s : AllocRun) : AllocEvent → Prop
  | .malloc _ => True
  | .free _ => s.alloc.freeNum < 255

/-- A request that is served from the ring is not larger than the block there was when it
was cut off. -/
def AllocRun.FitsBlock (s : AllocRun) : AllocEvent → Prop
  | .malloc size => s.alloc.freeNum > 2 →
    ∀ c ∈ s.carved, c.start = s.alloc.freeList ((s.alloc.freeCur + 256 - s.alloc.freeNum) % 256) →
      size ≤ c.size
  | .free _ => True

/-- Sizes are positive, and the region has room for what is cut off. -/
def AllocRun.InRegion (R : Nat) (s : AllocRun) : AllocEvent → Prop
  | .malloc size => 0 < size ∧ (¬ s.alloc.freeNum > 2 → s.alloc.allocNext + size ≤ R)
  | .free _ => True

instance (s : AllocRun) : (e : AllocEvent) → Decidable (s.RingHasRoom e)
  | .malloc _ => inferInstanceAs (Decidable True)
  | .free _ => inferInstanceAs (Decidable (s.alloc.freeNum < 255))

instance (s : AllocRun) : (e : AllocEvent) → Decidable (s.FitsBlock e)
  | .malloc size => inferInstanceAs (Decidable (s.alloc.freeNum > 2 → ∀ c ∈ s.carved,
      c.start = s.alloc.freeList ((s.alloc.freeCur + 256 - s.alloc.freeNum) % 256) →
        size ≤ c.size))
  | .free _ => inferInstanceAs (Decidable True)

instance (R : Nat) (s : AllocRun) : (e : AllocEvent) → Decidable (s.InRegion R e)
  | .malloc size =>
    inferInstanceAs (Decidable (0 < size ∧ (¬ s.alloc.freeNum > 2 → s.alloc.allocNext + size ≤ R)))
  | .free _ => inferInstanceAs (Decidable True)

/-! ### The ring -/

section Ring

variable {a : Allocator} {s t : AllocRun} {r : FreeRing}

theorem Allocator.malloc_eq (a : Allocator) : a.malloc = FreeRing.malloc := by
  cases a <;> rfl

theorem Allocator.free_eq (a : Allocator) : a.free = FreeRing.free := by
  cases a <;> rfl

/-- The indices are `uint8_t`. -/
structure FreeRing.Bytes (r : FreeRing) : Prop where
  cur : r.freeCur < 256
  num : r.freeNum < 256

/-- A request takes the oldest pointer, or cuts a block off the region. -/
theorem malloc_cases (h : r.Bytes) (size : Nat) :
    (r.freeNum > 2 ∧
      (r.malloc size).1 = r.freeList ((r.freeCur + 256 - r.freeNum) % 256) ∧
      r.stored = (r.malloc size).1 :: (r.malloc size).2.stored ∧
      (r.malloc size).2.Bytes ∧
      (r.malloc size).2.mem = r.mem ∧ (r.malloc size).2.allocNext = r.allocNext) ∨
    (¬ r.freeNum > 2 ∧
      (r.malloc size).1 = (r.mem + r.allocNext) % 2 ^ 64 ∧
      (r.malloc size).2.stored = r.stored ∧ (r.malloc size).2.Bytes ∧
      (r.malloc size).2.mem = r.mem ∧
      (r.malloc size).2.allocNext = (r.allocNext + size) % 2 ^ 64) := by
  have hcur := h.cur
  have hnum := h.num
  unfold FreeRing.malloc
  by_cases hmany : r.freeNum > 2
  · left
    simp only [if_pos hmany]
    refine ⟨hmany, trivial, ?_, ⟨hcur, by simp only; omega⟩, trivial, trivial⟩
    have hroom : r.freeNum - 1 + 1 ≤ 256 := by omega
    have hpop := RingBuffer.window_pop r.freeList r.freeCur hroom
    rw [show r.freeNum - 1 + 1 = r.freeNum by omega] at hpop
    exact hpop
  · right
    simp only [if_neg hmany]
    exact ⟨hmany, trivial, rfl, ⟨hcur, hnum⟩, trivial, trivial⟩

/-- A freed pointer joins the queue; the 256th empties it. -/
theorem free_cases (h : r.Bytes) (ptr : Nat) :
    (r.free ptr).Bytes ∧ (r.free ptr).mem = r.mem ∧ (r.free ptr).allocNext = r.allocNext ∧
    (r.freeNum < 255 → (r.free ptr).stored = r.stored ++ [ptr]) ∧
    (r.freeNum = 255 → (r.free ptr).stored = []) := by
  have hcur := h.cur
  have hnum := h.num
  refine ⟨⟨Nat.mod_lt _ (by decide), Nat.mod_lt _ (by decide)⟩, rfl, rfl, ?_, ?_⟩
  · intro hroom
    have hpush := RingBuffer.window_push r.freeList hcur (by omega : r.freeNum < 256) ptr
    rw [← Nat.mod_eq_of_lt (show r.freeNum + 1 < 256 by omega)] at hpush
    exact hpush
  · intro hfull
    have hzero : (r.free ptr).freeNum = 0 := by
      simp only [FreeRing.free, hfull]
    unfold FreeRing.stored
    rw [hzero, RingBuffer.window_zero]

theorem length_stored (r : FreeRing) : r.stored.length = r.freeNum :=
  RingBuffer.length_window ..

/-- The blocks that wait are those in the ring and some multiple of 256 others. -/
structure AllocRun.Stored (s : AllocRun) : Prop where
  bytes : s.alloc.Bytes
  waiting : ∃ forgotten, s.freed = s.handed + (forgotten + s.alloc.stored) ∧
    256 ∣ forgotten.card

theorem AllocRun.stored_new (a : Allocator) (mem : Nat) : (AllocRun.new a mem).Stored := by
  cases a <;> exact ⟨⟨Nat.zero_lt_succ _, Nat.zero_lt_succ _⟩, 0, rfl, by simp⟩

/-- Without a free at a full ring nothing is forgotten. -/
theorem AllocRun.waiting_step (hbytes : s.alloc.Bytes) {forgotten : Multiset Nat}
    (hwaiting : s.freed = s.handed + (forgotten + s.alloc.stored)) {e : AllocEvent}
    (hstep : s.step a e = some t) :
    t.alloc.Bytes ∧
    (s.RingHasRoom e → t.freed = t.handed + (forgotten + t.alloc.stored)) ∧
    (¬ s.RingHasRoom e → ∃ b, t.alloc.stored = [] ∧
      t.freed = t.handed + (b ::ₘ (forgotten + (s.alloc.stored : Multiset Nat)))) := by
  cases e with
  | malloc size =>
    simp only [AllocRun.step, Allocator.malloc_eq, Option.some.injEq] at hstep
    subst hstep
    refine ⟨?_, fun _ => ?_, fun hroom => absurd trivial hroom⟩
    · rcases malloc_cases hbytes size with ⟨-, -, -, hbytes', -⟩ | ⟨-, -, -, hbytes', -⟩
      · exact hbytes'
      · exact hbytes'
    · rcases malloc_cases hbytes size with ⟨hmany, -, hstored, -⟩ | ⟨hfew, -, hstored, -⟩
      · simp only [if_pos hmany]
        rw [hwaiting, hstored, ← Multiset.cons_coe, Multiset.add_cons, Multiset.add_cons,
          Multiset.cons_add]
      · simp only [if_neg hfew, hstored]
        exact hwaiting
  | free b =>
    simp only [AllocRun.step, Allocator.free_eq, Option.ite_none_right_eq_some,
      Option.some.injEq] at hstep
    obtain ⟨-, rfl⟩ := hstep
    obtain ⟨hbytes', -, -, hroom, hfull⟩ := free_cases hbytes b.start
    refine ⟨hbytes', ?_, ?_⟩
    · intro hr
      have hjoin : (↑(s.alloc.stored ++ [b.start]) : Multiset Nat) =
          b.start ::ₘ ↑s.alloc.stored :=
        Multiset.coe_eq_coe.mpr (List.perm_append_singleton b.start s.alloc.stored)
      simp only [hroom hr, hwaiting, hjoin, Multiset.add_cons]
    · intro hr
      have hnum := hbytes.num
      have heq : s.alloc.freeNum = 255 := by
        have : ¬ s.alloc.freeNum < 255 := hr
        omega
      refine ⟨b.start, hfull heq, ?_⟩
      simp only [hwaiting, Multiset.add_cons]

theorem AllocRun.Stored.step (h : s.Stored) {e : AllocEvent} (hstep : s.step a e = some t) :
    t.Stored := by
  obtain ⟨forgotten, hwaiting, hdvd⟩ := h.waiting
  obtain ⟨hbytes, hroom, hfull⟩ := AllocRun.waiting_step h.bytes hwaiting hstep
  refine ⟨hbytes, ?_⟩
  by_cases hr : s.RingHasRoom e
  · exact ⟨forgotten, hroom hr, hdvd⟩
  · obtain ⟨b, hempty, hwaiting'⟩ := hfull hr
    refine ⟨b ::ₘ (forgotten + (s.alloc.stored : Multiset Nat)), ?_, ?_⟩
    · rw [hempty, Multiset.coe_nil, Multiset.add_zero]
      exact hwaiting'
    · have hlength := length_stored s.alloc
      have hnum := h.bytes.num
      have hfull255 : s.alloc.freeNum = 255 := by
        cases e with
        | malloc size => exact absurd trivial hr
        | free b =>
          have : ¬ s.alloc.freeNum < 255 := hr
          omega
      rw [Multiset.card_cons, Multiset.card_add, Multiset.coe_card, hlength, hfull255]
      omega

/-- What waits is what was freed and not handed out. -/
theorem AllocRun.ringExact_iff {forgotten : Multiset Nat}
    (hwaiting : s.freed = s.handed + (forgotten + s.alloc.stored)) :
    s.RingExact ↔ forgotten = 0 := by
  unfold AllocRun.RingExact
  rw [hwaiting, add_tsub_cancel_left]
  constructor
  · intro heq
    have hcard := congrArg Multiset.card heq
    rw [Multiset.card_add, Multiset.coe_card] at hcard
    exact Multiset.card_eq_zero.mp (by omega)
  · rintro rfl
    exact Multiset.zero_add _

/-- **The free ring.**  In every state of every run no pointer was handed out more often
than it was freed; and in all of them the ring holds the freed blocks that were not handed
out again, if and only if no block was freed while 255 were waiting. -/
theorem ring_loses_nothing_iff (a : Allocator) (mem : Nat) (es : List AllocEvent) (s : AllocRun)
    (hexec : Exec (partialGraph (AllocRun.step a)) (AllocRun.new a mem) es s) :
    s.handed ≤ s.freed ∧
    ((∀ fs t, fs <+: es → Exec (partialGraph (AllocRun.step a)) (AllocRun.new a mem) fs t →
        t.RingExact) ↔
      Exec (restrict AllocRun.RingHasRoom (partialGraph (AllocRun.step a))) (AllocRun.new a mem)
        es s) := by
  have hnew := AllocRun.stored_new a mem
  constructor
  · have hstored : s.Stored := hexec.invariant AllocRun.Stored
      (fun s e t hs hstep => hs.step hstep) hnew
    obtain ⟨forgotten, hwaiting, -⟩ := hstored.waiting
    rw [hwaiting]
    exact Multiset.le_add_right ..
  · refine hexec.forall_prefix_iff (I := AllocRun.Stored) (fun s e t hs hstep => hs.step hstep)
      ?_ hnew ?_
    · intro s e t hs hexact hstep
      obtain ⟨forgotten, hwaiting, -⟩ := hs.waiting
      obtain ⟨-, hroom, hfull⟩ := AllocRun.waiting_step hs.bytes hwaiting hstep
      rw [AllocRun.ringExact_iff hwaiting] at hexact
      subst hexact
      by_cases hr : s.RingHasRoom e
      · exact iff_of_true ((AllocRun.ringExact_iff (hroom hr)).mpr rfl) hr
      · refine iff_of_false ?_ hr
        obtain ⟨b, hempty, hwaiting'⟩ := hfull hr
        have hforgotten : t.freed = t.handed + ((b ::ₘ (0 + (s.alloc.stored : Multiset Nat))) +
            (t.alloc.stored : Multiset Nat)) := by
          rw [hempty, Multiset.coe_nil, Multiset.add_zero]
          exact hwaiting'
        rw [AllocRun.ringExact_iff hforgotten]
        exact Multiset.cons_ne_zero
    · cases a <;> rfl

end Ring

/-- A few requests and frees. -/
def ringRun : List AllocEvent :=
  [.malloc 8, .malloc 8, .malloc 8, .malloc 8, .free ⟨8, 8⟩, .free ⟨16, 8⟩, .free ⟨0, 8⟩,
    .malloc 8, .free ⟨24, 8⟩]

theorem ring_loses_nothing_iff_ringRun :
    ∃ s : AllocRun, s.handed ≤ s.freed ∧ s.RingExact := by
  have hrun : (ringRun.foldlM (guarded AllocRun.RingHasRoom (AllocRun.step .tm2cMalloc))
      (AllocRun.new .tm2cMalloc 0)).isSome = true := by decide +kernel
  obtain ⟨s, hs⟩ := Option.isSome_iff_exists.mp hrun
  have hguarded := exec_guarded_iff.mpr hs
  obtain ⟨hle, hiff⟩ :=
    ring_loses_nothing_iff .tm2cMalloc 0 ringRun s hguarded.of_restrict
  exact ⟨s, hle, hiff.mpr hguarded ringRun s List.prefix_rfl hguarded.of_restrict⟩

/-- 256 blocks of 8 bytes, all of them freed. -/
def fullRing : List AllocEvent :=
  List.replicate 256 (.malloc 8) ++ (List.range 256).map fun i => .free ⟨8 * i, 8⟩

/-- The 256th free in a row makes the allocator forget all of them. -/
theorem ring_forgets :
    ∃ s, fullRing.foldlM (AllocRun.step .tm2cMalloc) (AllocRun.new .tm2cMalloc 0) = some s ∧
      s.freed.card = 256 ∧ s.alloc.stored = [] ∧ ¬ s.RingExact := by
  have hrun : (fullRing.foldlM (AllocRun.step .tm2cMalloc)
      (AllocRun.new .tm2cMalloc 0)).any (fun s => decide (s.freed.card = 256 ∧
        s.handed.card = 0 ∧ s.alloc.freeNum = 0)) = true := by
    decide +kernel
  obtain ⟨s, hs, hfacts⟩ := (Option.any_eq_true _ _).mp hrun
  obtain ⟨hfreed, hhanded, hnum⟩ := of_decide_eq_true hfacts
  have hempty : s.alloc.stored = [] :=
    List.length_eq_zero_iff.mp ((length_stored s.alloc).trans hnum)
  refine ⟨s, hs, hfreed, hempty, ?_⟩
  intro hexact
  rw [AllocRun.RingExact, Multiset.card_eq_zero.mp hhanded, Multiset.sub_zero, hempty] at hexact
  rw [hexact] at hfreed
  cases hfreed

/-! ### Live blocks -/

section Blocks

variable {a : Allocator} {R : Nat} {s t : AllocRun}

/-- Every live block lies in a block that was cut off the region, and no other live or
waiting block starts there. -/
structure AllocRun.Sound (R : Nat) (s : AllocRun) : Prop where
  bytes : s.alloc.Bytes
  carved : s.carved.Pairwise Extent.Apart
  positive : ∀ c ∈ s.carved, 0 < c.size
  below : ∀ c ∈ s.carved, c.stop ≤ s.alloc.mem + s.alloc.allocNext
  room : s.alloc.allocNext ≤ R
  live : ∀ e ∈ s.live, ∃ c ∈ s.carved, e.start = c.start ∧ e.size ≤ c.size
  stored : ∀ p ∈ s.alloc.stored, ∃ c ∈ s.carved, p = c.start
  distinct : (s.live.map Extent.start ++ s.alloc.stored).Nodup

theorem AllocRun.sound_new (a : Allocator) (mem : Nat) (hR : (a.new mem).allocNext ≤ R) :
    (AllocRun.new a mem).Sound R where
  bytes := (AllocRun.stored_new a mem).bytes
  carved := List.Pairwise.nil
  positive _ hc := by cases hc
  below _ hc := by cases hc
  room := hR
  live _ he := by cases he
  stored p hp := by
    cases a <;> cases hp
  distinct := by
    cases a <;> exact List.nodup_nil

/-- A block from the ring. -/
theorem AllocRun.Sound.reuse (h : s.Sound R) {size : Nat} (hmany : s.alloc.freeNum > 2)
    (hfits : s.FitsBlock (.malloc size)) :
    ({ s with
      alloc := (s.alloc.malloc size).2
      live := ⟨(s.alloc.malloc size).1, size⟩ :: s.live
      handed := (s.alloc.malloc size).1 ::ₘ s.handed } : AllocRun).Sound R := by
  obtain ⟨-, hptr, hstored, hbytes, hmem, hnext⟩ :=
    (malloc_cases h.bytes size).resolve_right (fun hc => hc.1 hmany)
  have hdistinct := h.distinct
  rw [hstored] at hdistinct
  refine ⟨hbytes, h.carved, h.positive, ?_, ?_, ?_, ?_, ?_⟩
  · simp only [hmem, hnext]
    exact h.below
  · simp only [hnext]
    exact h.room
  · intro e he
    rcases List.mem_cons.mp he with rfl | hold
    · obtain ⟨c, hc, hstart⟩ := h.stored (s.alloc.malloc size).1 (by
        rw [hstored]
        exact List.mem_cons_self)
      exact ⟨c, hc, hstart, hfits hmany c hc (hstart.symm.trans hptr)⟩
    · exact h.live e hold
  · intro p hp
    apply h.stored
    rw [hstored]
    exact List.mem_cons_of_mem _ hp
  · exact (List.perm_middle.nodup_iff).mp hdistinct

/-- A block cut off the region lies behind all others. -/
theorem AllocRun.Sound.carve (h : s.Sound R) (hR : s.alloc.mem + R < 2 ^ 64) {size : Nat}
    (hfew : ¬ s.alloc.freeNum > 2) (hregion : s.InRegion R (.malloc size)) :
    ({ s with
      alloc := (s.alloc.malloc size).2
      live := ⟨(s.alloc.malloc size).1, size⟩ :: s.live
      carved := ⟨(s.alloc.malloc size).1, size⟩ :: s.carved } : AllocRun).Sound R := by
  obtain ⟨-, hptr, hstored, hbytes, hmem, hnext⟩ :=
    (malloc_cases h.bytes size).resolve_left (fun hc => hfew hc.1)
  obtain ⟨hpos, hroom⟩ := hregion
  have hle := hroom hfew
  -- nothing wraps inside the region
  rw [Nat.mod_eq_of_lt (by omega)] at hptr hnext
  have hfresh : ∀ c ∈ s.carved, c.start < (s.alloc.malloc size).1 := by
    intro c hc
    have hbelow := h.below c hc
    have hcpos := h.positive c hc
    unfold Extent.stop at hbelow
    omega
  constructor
  case bytes => exact hbytes
  case carved =>
    refine List.Pairwise.cons ?_ h.carved
    intro c hc
    right
    rw [hptr]
    exact h.below c hc
  case positive =>
    intro c hc
    rcases List.mem_cons.mp hc with rfl | hold
    · exact hpos
    · exact h.positive c hold
  case below =>
    intro c hc
    simp only [hmem, hnext]
    rcases List.mem_cons.mp hc with rfl | hold
    · simp only [Extent.stop]
      omega
    · have := h.below c hold
      omega
  case room =>
    simp only [hnext]
    exact hle
  case live =>
    intro e he
    rcases List.mem_cons.mp he with rfl | hold
    · exact ⟨_, List.mem_cons_self, rfl, Nat.le_refl _⟩
    · obtain ⟨c, hc, hin⟩ := h.live e hold
      exact ⟨c, List.mem_cons_of_mem _ hc, hin⟩
  case stored =>
    intro p hp
    simp only [hstored] at hp
    obtain ⟨c, hc, rfl⟩ := h.stored p hp
    exact ⟨c, List.mem_cons_of_mem _ hc, rfl⟩
  case distinct =>
    simp only [List.map_cons, List.cons_append, hstored]
    refine List.nodup_cons.mpr ⟨?_, h.distinct⟩
    intro hmem'
    rcases List.mem_append.mp hmem' with hlive | hwait
    · obtain ⟨e, he, heq⟩ := List.mem_map.mp hlive
      obtain ⟨c, hc, hstart, -⟩ := h.live e he
      have := hfresh c hc
      omega
    · obtain ⟨c, hc, heq⟩ := h.stored _ hwait
      have := hfresh c hc
      omega

/-- A freed block waits, or is forgotten together with all the others. -/
theorem AllocRun.Sound.free (h : s.Sound R) {b : Extent} (hb : b ∈ s.live) :
    ({ s with
      alloc := s.alloc.free b.start
      live := s.live.erase b
      freed := b.start ::ₘ s.freed } : AllocRun).Sound R := by
  obtain ⟨hbytes, hmem, hnext, hroom, hfull⟩ := free_cases h.bytes b.start
  have hperm : (s.live.map Extent.start).Perm (b.start :: (s.live.erase b).map Extent.start) :=
    (List.perm_cons_erase hb).map Extent.start
  have hnum := h.bytes.num
  refine ⟨hbytes, h.carved, h.positive, ?_, ?_, ?_, ?_, ?_⟩
  · simp only [hmem, hnext]
    exact h.below
  · simp only [hnext]
    exact h.room
  · intro e he
    exact h.live e (List.mem_of_mem_erase he)
  · intro p hp
    rcases Nat.lt_or_ge s.alloc.freeNum 255 with hlt | hge
    · simp only [hroom hlt] at hp
      rcases List.mem_append.mp hp with hold | hnew
      · exact h.stored p hold
      · obtain ⟨c, hc, hstart, -⟩ := h.live b hb
        exact ⟨c, hc, (List.mem_singleton.mp hnew).trans hstart⟩
    · simp only [hfull (by omega)] at hp
      cases hp
  · rcases Nat.lt_or_ge s.alloc.freeNum 255 with hlt | hge
    · simp only [hroom hlt]
      have hsame : (s.live.map Extent.start ++ s.alloc.stored).Perm
          ((s.live.erase b).map Extent.start ++ (s.alloc.stored ++ [b.start])) := by
        refine (hperm.append_right s.alloc.stored).trans ?_
        rw [← List.append_assoc]
        exact (List.perm_append_singleton b.start _).symm
      exact hsame.nodup_iff.mp h.distinct
    · simp only [hfull (by omega), List.append_nil]
      have hlive : (s.live.map Extent.start).Nodup := (List.nodup_append.mp h.distinct).1
      exact (List.nodup_cons.mp (hperm.nodup_iff.mp hlive)).2

theorem AllocRun.Sound.step (h : s.Sound R) (hR : s.alloc.mem + R < 2 ^ 64) {e : AllocEvent}
    (hregion : s.InRegion R e) (hfits : s.FitsBlock e) (hstep : s.step a e = some t) :
    t.Sound R ∧ t.alloc.mem = s.alloc.mem := by
  cases e with
  | malloc size =>
    simp only [AllocRun.step, Allocator.malloc_eq, Option.some.injEq] at hstep
    subst hstep
    by_cases hmany : s.alloc.freeNum > 2
    · obtain ⟨-, -, -, -, hmem, -⟩ :=
        (malloc_cases h.bytes size).resolve_right (fun hc => hc.1 hmany)
      simp only [if_pos hmany]
      exact ⟨h.reuse hmany hfits, hmem⟩
    · obtain ⟨-, -, -, -, hmem, -⟩ :=
        (malloc_cases h.bytes size).resolve_left (fun hc => hmany hc.1)
      simp only [if_neg hmany]
      exact ⟨h.carve hR hmany hregion, hmem⟩
  | free b =>
    simp only [AllocRun.step, Allocator.free_eq, Option.ite_none_right_eq_some,
      Option.some.injEq] at hstep
    obtain ⟨hb, rfl⟩ := hstep
    exact ⟨h.free hb, rfl⟩

theorem AllocRun.Sound.disjoint (h : s.Sound R) : s.live.Pairwise Extent.Apart := by
  have hstarts : (s.live.map Extent.start).Nodup := (List.nodup_append.mp h.distinct).1
  refine (List.pairwise_map.mp hstarts).imp_of_mem ?_
  intro e f he hf hne
  obtain ⟨c, hc, hcstart, hcsize⟩ := h.live e he
  obtain ⟨d, hd, hdstart, hdsize⟩ := h.live f hf
  have hapart := Extent.apart_of_pairwise h.carved hc hd (hcstart ▸ hdstart ▸ hne)
  exact hapart.within (Extent.within_of_start hcstart hcsize)
    (Extent.within_of_start hdstart hdsize)

/-- **Live blocks.**  In every state of a run in which no request is larger than the block
that the ring has for it, the live blocks have no byte in common. -/
theorem live_blocks_disjoint (mem R : Nat) (hR : mem + R < 2 ^ 64) (es : List AllocEvent)
    (s : AllocRun)
    (hexec : Exec (restrict (fun s e => AllocRun.InRegion R s e ∧ AllocRun.FitsBlock s e)
      (partialGraph (AllocRun.step .tm2cMalloc))) (AllocRun.new .tm2cMalloc mem) es s) :
    s.live.Pairwise Extent.Apart := by
  have hnew : (AllocRun.new .tm2cMalloc mem).Sound R := AllocRun.sound_new _ mem (Nat.zero_le R)
  refine (hexec.invariant (fun s : AllocRun => s.Sound R ∧ s.alloc.mem = mem) ?_
    ⟨hnew, rfl⟩).1.disjoint
  rintro s e t ⟨hs, hsmem⟩ ⟨⟨hregion, hfits⟩, hstep⟩
  obtain ⟨ht, htmem⟩ := hs.step (hsmem.symm ▸ hR) hregion hfits hstep
  exact ⟨ht, htmem.trans hsmem⟩

end Blocks

/-- Requests of two sizes, none larger than its block. -/
def twoSizes : List AllocEvent :=
  [.malloc 16, .malloc 16, .malloc 16, .malloc 16, .free ⟨0, 16⟩, .free ⟨32, 16⟩,
    .free ⟨48, 16⟩, .malloc 8, .malloc 8]

theorem live_blocks_disjoint_twoSizes :
    ∃ s : AllocRun, s.live = [⟨64, 8⟩, ⟨0, 8⟩, ⟨16, 16⟩] ∧ s.live.Pairwise Extent.Apart := by
  have hrun : ((twoSizes.foldlM (guarded (fun s e => AllocRun.InRegion 1024 s e ∧
      AllocRun.FitsBlock s e) (AllocRun.step .tm2cMalloc)) (AllocRun.new .tm2cMalloc 0)).any
        fun s => decide (s.live = [⟨64, 8⟩, ⟨0, 8⟩, ⟨16, 16⟩])) = true := by
    decide +kernel
  obtain ⟨s, hs, hlive⟩ := (Option.any_eq_true _ _).mp hrun
  exact ⟨s, of_decide_eq_true hlive,
    live_blocks_disjoint 0 1024 (by decide) twoSizes s (exec_guarded_iff.mpr hs)⟩

/-- Four blocks of 8 bytes, of which the second stays, and a request of 16 bytes. -/
def largerRequest : List AllocEvent :=
  [.malloc 8, .malloc 8, .malloc 8, .malloc 8, .free ⟨0, 8⟩, .free ⟨16, 8⟩, .free ⟨24, 8⟩,
    .malloc 16]

/-- The ring serves 16 bytes with a block of 8, and the next block is live. -/
theorem reused_block_overlaps :
    ∃ s, Exec (restrict (AllocRun.InRegion 1024) (partialGraph (AllocRun.step .tm2cMalloc)))
        (AllocRun.new .tm2cMalloc 0) largerRequest s ∧
      s.live = [⟨0, 16⟩, ⟨8, 8⟩] ∧ ¬ s.live.Pairwise Extent.Apart := by
  have hrun : ((largerRequest.foldlM (guarded (AllocRun.InRegion 1024)
      (AllocRun.step .tm2cMalloc)) (AllocRun.new .tm2cMalloc 0)).any
        fun s => decide (s.live = [⟨0, 16⟩, ⟨8, 8⟩])) = true := by
    decide +kernel
  obtain ⟨s, hs, hlive⟩ := (Option.any_eq_true _ _).mp hrun
  have hblocks := of_decide_eq_true hlive
  refine ⟨s, exec_guarded_iff.mpr hs, hblocks, ?_⟩
  rw [hblocks]
  decide

end TM2C
