import Mathlib.Data.List.Nodup
import Mathlib.Data.List.Perm.Basic
import TM2C.Common

/-!
# Transactional memory management

`src/tm2c_mem.c` and what the commit macros of `include/tm2c.h` do with it.  A
transaction does not free memory at once; it keeps lists of the blocks that it
allocated and freed, and the end of the attempt settles them.  The lists live in
a descriptor that survives the attempt, and two of the five commit macros do not
settle them.

A block is named by its heap and a number that is never used again.

A run is a list of attempts, each with its calls and its ending, and what every attempt released.
The program is legal if it allocates blocks that are new and frees blocks that live; an attempt
that aborts leaves the live blocks as they were.  `MemoryLaw` is what the two lists are for, in
four parts: what a commit allocated is kept, what it freed is released once, what an aborted
attempt allocated is released once, and what it freed is kept.

Whether that holds depends on what the next settling ending does to the lists that an earlier
commit left behind: another commit catches up, an abort takes the frees for its own and forgets
them, and the end of the run leaves them for ever.  `PendingLaw` is the law for the rest of a run
with blocks of earlier commits pending, and there is one lemma for each of the endings, which
says how the law for a run with one attempt more comes from that for the rest.  The induction is
over the run, for all pending lists at once, and both directions come out together.
-/

namespace TM2C

/-- A block of the private heap, or of the shared one (`sys_shmalloc`). -/
structure Block where
  shared : Bool
  addr : Nat
deriving DecidableEq, Repr

/-- `mem_info_t`: four linked lists, newest block first. -/
structure MemInfo where
  allocated : List Nat
  freed : List Nat
  allocatedShmem : List Nat
  freedShmem : List Nat
deriving DecidableEq, Repr

def memInfoNew : MemInfo := ⟨[], [], [], []⟩

inductive MemOp where
  | stmMalloc (addr : Nat)
  | stmShmalloc (addr : Nat)
  | stmFree (addr : Nat)
  | stmShfree (addr : Nat)
deriving DecidableEq, Repr

def memOp (mi : MemInfo) : MemOp → MemInfo
  | .stmMalloc addr => { mi with allocated := addr :: mi.allocated }
  | .stmShmalloc addr => { mi with allocatedShmem := addr :: mi.allocatedShmem }
  | .stmFree addr => { mi with freed := addr :: mi.freed }
  | .stmShfree addr => { mi with freedShmem := addr :: mi.freedShmem }

def MemInfo.pendingAllocs (mi : MemInfo) : List Block :=
  mi.allocated.map (Block.mk false) ++ mi.allocatedShmem.map (Block.mk true)

def MemInfo.pendingFrees (mi : MemInfo) : List Block :=
  mi.freed.map (Block.mk false) ++ mi.freedShmem.map (Block.mk true)

/-- The blocks returned are those released, in that order. -/
def memInfoOnCommit (mi : MemInfo) : MemInfo × List Block := (memInfoNew, mi.pendingFrees)

def memInfoOnAbort (mi : MemInfo) : MemInfo × List Block := (memInfoNew, mi.pendingAllocs)

/-! ### Attempts -/

/-- Whether the macro calls `mem_info_on_commit`. -/
def CommitMacro.callsOnCommit : CommitMacro → Bool
  | .txCommitMem | .txCommitNoStats | .txCommitNoPubNoStats => true
  | .txCommit | .txCommitNoPub => false

/-- How an attempt ends: in `tm2c_handle_abort` or in a commit macro. -/
inductive Ending where
  | abort
  | commit (m : CommitMacro)
deriving DecidableEq, Repr

def Ending.isCommit : Ending → Bool
  | .abort => false
  | .commit _ => true

structure Attempt where
  ops : List MemOp
  ending : Ending
deriving DecidableEq, Repr

/-- `tm2c_tx_meta_empty`, which ends every commit macro, keeps `mem_info`. -/
def finish (mi : MemInfo) : Ending → MemInfo × List Block
  | .abort => memInfoOnAbort mi
  | .commit m => if m.callsOnCommit then memInfoOnCommit mi else (mi, [])

/-- The attempts of a node, each with the blocks that its end released. -/
def runAttempts (mi : MemInfo) : List Attempt → List (Attempt × List Block)
  | [] => []
  | a :: as =>
    let r := finish (a.ops.foldl memOp mi) a.ending
    (a, r.2) :: runAttempts r.1 as

/-! ### What a node may do -/

def MemOp.allocation : MemOp → Option Block
  | .stmMalloc addr => some ⟨false, addr⟩
  | .stmShmalloc addr => some ⟨true, addr⟩
  | .stmFree _ | .stmShfree _ => none

def MemOp.release : MemOp → Option Block
  | .stmFree addr => some ⟨false, addr⟩
  | .stmShfree addr => some ⟨true, addr⟩
  | .stmMalloc _ | .stmShmalloc _ => none

def Attempt.allocs (a : Attempt) : List Block := a.ops.filterMap MemOp.allocation

def Attempt.frees (a : Attempt) : List Block := a.ops.filterMap MemOp.release

/-- The blocks that exist for the program, and all that ever existed. -/
structure Blocks where
  live : List Block
  used : List Block
deriving DecidableEq, Repr

/-- Blocks are allocated anew, and freed only while they live. -/
def useBlock (h : Blocks) (op : MemOp) : Option Blocks :=
  match op.allocation, op.release with
  | some b, _ => if b ∈ h.used then none else some ⟨b :: h.live, b :: h.used⟩
  | none, some b => if b ∈ h.live then some { h with live := h.live.erase b } else none
  | none, none => some h

def useBlocks (h : Blocks) : List MemOp → Option Blocks
  | [] => some h
  | op :: ops => (useBlock h op).bind fun h' => useBlocks h' ops

/-- An aborted attempt leaves the live blocks as they were. -/
def attemptBlocks (h : Blocks) (a : Attempt) : Option Blocks :=
  (useBlocks h a.ops).map fun h' => if a.ending.isCommit then h' else { h' with live := h.live }

def Legal (h : Blocks) : List Attempt → Prop
  | [] => True
  | a :: as => ∃ h', attemptBlocks h a = some h' ∧ Legal h' as

def legalRun (h : Blocks) : List Attempt → Bool
  | [] => true
  | a :: as => (attemptBlocks h a).any fun h' => legalRun h' as

theorem legal_iff_legalRun {h : Blocks} {as : List Attempt} :
    Legal h as ↔ legalRun h as = true := by
  induction as generalizing h with
  | nil => simp [Legal, legalRun]
  | cons a as ih =>
    unfold Legal legalRun
    rw [Option.any_eq_true]
    constructor
    · rintro ⟨h', hstep, hrest⟩
      exact ⟨h', hstep, ih.mp hrest⟩
    · rintro ⟨h', hstep, hrest⟩
      exact ⟨h', hstep, ih.mpr hrest⟩

instance (h : Blocks) (as : List Attempt) : Decidable (Legal h as) :=
  decidable_of_iff _ legal_iff_legalRun.symm

/-! ### The law -/

def releases (run : List (Attempt × List Block)) : List Block := run.flatMap Prod.snd

/-- Every block is released when, and only when, it should be.  The last part
leaves aside the blocks that an aborted attempt allocated itself, which the
third part is about. -/
structure MemoryLaw (run : List (Attempt × List Block)) : Prop where
  kept : run.Pairwise fun x y => x.1.ending.isCommit = true → y.1.ending = .abort →
    ∀ b ∈ x.1.allocs, b ∉ y.2
  disposed : ∀ x ∈ run, x.1.ending.isCommit = true → ∀ b ∈ x.1.frees,
    (releases run).count b = 1
  rolledBack : ∀ x ∈ run, x.1.ending = .abort → ∀ b ∈ x.1.allocs, (releases run).count b = 1
  restored : ∀ x ∈ run, x.1.ending = .abort → ∀ b ∈ x.1.frees,
    (∀ y ∈ run, y.1.ending.isCommit = true → b ∉ y.1.frees) →
    (∀ y ∈ run, y.1.ending = .abort → b ∉ y.1.allocs) → (releases run).count b = 0

/-- The first ending that settles the lists. -/
def nextSettling (as : List Attempt) : Option Ending :=
  (as.map Attempt.ending).find? fun e => match e with
    | .abort => true
    | .commit m => m.callsOnCommit

/-- A commit that leaves its lists behind is caught up by another commit before
an abort sees them; where it freed, such a commit must come. -/
def CaughtUp (as : List Attempt) : Prop :=
  ∀ before a after m, as = before ++ a :: after → a.ending = .commit m →
    m.callsOnCommit = false →
    (a.allocs ≠ [] → nextSettling after ≠ some .abort) ∧
    (a.frees ≠ [] → ∃ m', nextSettling after = some (.commit m'))

/-! ### Blocks over an attempt -/

/-- What a legal sequence of calls with allocations `A` and frees `F` says about the blocks. -/
structure Uses (h h' : Blocks) (A F : List Block) : Prop where
  allocs_fresh : ∀ b ∈ A, b ∉ h.used
  allocs_nodup : A.Nodup
  frees_live : ∀ b ∈ F, b ∈ h.live ∨ b ∈ A
  frees_nodup : F.Nodup
  used_iff : ∀ b, b ∈ h'.used ↔ b ∈ h.used ∨ b ∈ A
  live_iff : ∀ b, b ∈ h'.live ↔ (b ∈ h.live ∨ b ∈ A) ∧ b ∉ F
  live_nodup : h'.live.Nodup

structure Blocks.Consistent (h : Blocks) : Prop where
  live_nodup : h.live.Nodup
  live_used : ∀ b ∈ h.live, b ∈ h.used

theorem useBlock_alloc {h h' : Blocks} {op : MemOp} {b : Block} (hop : op.allocation = some b)
    (huse : useBlock h op = some h') : b ∉ h.used ∧ h' = ⟨b :: h.live, b :: h.used⟩ := by
  unfold useBlock at huse
  rw [hop] at huse
  by_cases hb : b ∈ h.used
  · simp [hb] at huse
  · simp only [if_neg hb, Option.some.injEq] at huse
    exact ⟨hb, huse.symm⟩

theorem useBlock_free {h h' : Blocks} {op : MemOp} {b : Block} (hop : op.release = some b)
    (huse : useBlock h op = some h') : b ∈ h.live ∧ h' = { h with live := h.live.erase b } := by
  have hnone : op.allocation = none := by
    cases op <;> simp [MemOp.allocation, MemOp.release] at hop ⊢
  unfold useBlock at huse
  rw [hnone, hop] at huse
  by_cases hb : b ∈ h.live
  · simp only [if_pos hb, Option.some.injEq] at huse
    exact ⟨hb, huse.symm⟩
  · simp [hb] at huse

/-- Every call either allocates or frees one block. -/
theorem memOp_cases (op : MemOp) :
    (∃ b, op.allocation = some b ∧ op.release = none) ∨
      ∃ b, op.allocation = none ∧ op.release = some b := by
  cases op with
  | stmMalloc addr => exact Or.inl ⟨⟨false, addr⟩, rfl, rfl⟩
  | stmShmalloc addr => exact Or.inl ⟨⟨true, addr⟩, rfl, rfl⟩
  | stmFree addr => exact Or.inr ⟨⟨false, addr⟩, rfl, rfl⟩
  | stmShfree addr => exact Or.inr ⟨⟨true, addr⟩, rfl, rfl⟩

theorem uses_useBlocks {h h' : Blocks} (hc : h.Consistent) {ops : List MemOp}
    (huse : useBlocks h ops = some h') :
    Uses h h' (ops.filterMap MemOp.allocation) (ops.filterMap MemOp.release) := by
  induction ops generalizing h with
  | nil =>
    simp only [useBlocks, Option.some.injEq] at huse
    subst huse
    exact ⟨by simp, by simp, by simp, by simp, by simp, by simp, hc.live_nodup⟩
  | cons op ops ih =>
    obtain ⟨h₁, hop, hrest⟩ := Option.bind_eq_some_iff.mp huse
    rcases memOp_cases op with ⟨b, ha, hr⟩ | ⟨b, ha, hr⟩
    · -- a block that was never used becomes live
      obtain ⟨hb, rfl⟩ := useBlock_alloc ha hop
      have hb' : b ∉ h.live := fun hlive => hb (hc.live_used b hlive)
      have hc₁ : Blocks.Consistent ⟨b :: h.live, b :: h.used⟩ := by
        refine ⟨List.nodup_cons.mpr ⟨hb', hc.live_nodup⟩, ?_⟩
        intro x hx
        rcases List.mem_cons.mp hx with rfl | hx
        · exact List.mem_cons_self
        · exact List.mem_cons_of_mem _ (hc.live_used x hx)
      have hu := ih hc₁ hrest
      rw [List.filterMap_cons_some ha, List.filterMap_cons_none hr]
      refine ⟨?_, ?_, ?_, hu.frees_nodup, ?_, ?_, hu.live_nodup⟩
      · intro x hx
        rcases List.mem_cons.mp hx with rfl | hx
        · exact hb
        · exact fun hx' => hu.allocs_fresh x hx (List.mem_cons_of_mem _ hx')
      · refine List.nodup_cons.mpr ⟨?_, hu.allocs_nodup⟩
        exact fun hx => hu.allocs_fresh b hx List.mem_cons_self
      · intro x hx
        have := hu.frees_live x hx
        simp only [List.mem_cons] at this ⊢
        rcases this with (rfl | hlive) | hx
        · exact Or.inr (Or.inl rfl)
        · exact Or.inl hlive
        · exact Or.inr (Or.inr hx)
      · intro x
        have := hu.used_iff x
        simp only [List.mem_cons] at this ⊢
        rw [this, or_assoc, or_left_comm]
      · intro x
        have := hu.live_iff x
        simp only [List.mem_cons] at this ⊢
        rw [this, or_assoc, or_left_comm]
    · -- a live block dies, and cannot be allocated again
      obtain ⟨hb, rfl⟩ := useBlock_free hr hop
      have hc₁ : Blocks.Consistent { h with live := h.live.erase b } :=
        ⟨hc.live_nodup.erase b, fun x hx => hc.live_used x (List.mem_of_mem_erase hx)⟩
      have hu := ih hc₁ hrest
      have hbA : b ∉ ops.filterMap MemOp.allocation :=
        fun hx => hu.allocs_fresh b hx (hc.live_used b hb)
      have herase : ∀ x, x ∈ h.live.erase b ↔ x ≠ b ∧ x ∈ h.live :=
        fun x => hc.live_nodup.mem_erase_iff
      rw [List.filterMap_cons_none ha, List.filterMap_cons_some hr]
      refine ⟨hu.allocs_fresh, hu.allocs_nodup, ?_, ?_, hu.used_iff, ?_, hu.live_nodup⟩
      · intro x hx
        rcases List.mem_cons.mp hx with rfl | hx
        · exact Or.inl hb
        · exact (hu.frees_live x hx).imp_left fun hlive => ((herase x).mp hlive).2
      · refine List.nodup_cons.mpr ⟨?_, hu.frees_nodup⟩
        intro hx
        rcases hu.frees_live b hx with hlive | hx
        · exact ((herase b).mp hlive).1 rfl
        · exact hbA hx
      · intro x
        have hiff := hu.live_iff x
        rw [hiff, List.mem_cons, not_or]
        constructor
        · rintro ⟨hlive | hx, hfree⟩
          · exact ⟨Or.inl ((herase x).mp hlive).2, ((herase x).mp hlive).1, hfree⟩
          · exact ⟨Or.inr hx, fun hxb => hbA (hxb ▸ hx), hfree⟩
        · rintro ⟨hlive | hx, hne, hfree⟩
          · exact ⟨Or.inl ((herase x).mpr ⟨hne, hlive⟩), hfree⟩
          · exact ⟨Or.inr hx, hfree⟩

/-- The blocks after an attempt: an abort brings back the live ones. -/
theorem attemptBlocks_spec {h h' : Blocks} (hc : h.Consistent) {a : Attempt}
    (hstep : attemptBlocks h a = some h') :
    h'.Consistent ∧
    (∀ b ∈ a.allocs, b ∉ h.used) ∧ a.allocs.Nodup ∧
    (∀ b ∈ a.frees, b ∈ h.live ∨ b ∈ a.allocs) ∧ a.frees.Nodup ∧
    (∀ b, b ∈ h'.used ↔ b ∈ h.used ∨ b ∈ a.allocs) ∧
    (∀ b, b ∈ h'.live → b ∈ h.live ∨ b ∈ a.allocs) ∧
    (a.ending.isCommit = true → ∀ b ∈ a.frees, b ∉ h'.live) ∧
    (a.ending = .abort → ∀ b ∈ a.allocs, b ∉ h'.live) := by
  unfold attemptBlocks at hstep
  obtain ⟨h₁, huse, rfl⟩ := Option.map_eq_some_iff.mp hstep
  have hu := uses_useBlocks hc huse
  have hused : ∀ b, b ∈ h₁.live → b ∈ h₁.used := by
    intro b hb
    rw [hu.used_iff]
    exact ((hu.live_iff b).mp hb).1.imp_left (hc.live_used b)
  cases hend : a.ending with
  | abort =>
    simp only [Ending.isCommit, Bool.false_eq_true, if_false]
    refine ⟨⟨hc.live_nodup, fun b hb => (hu.used_iff b).mpr (Or.inl (hc.live_used b hb))⟩,
      hu.allocs_fresh, hu.allocs_nodup, hu.frees_live, hu.frees_nodup, hu.used_iff,
      fun b hb => Or.inl hb, fun hfalse => hfalse.elim, ?_⟩
    intro _ b hb hlive
    exact hu.allocs_fresh b hb (hc.live_used b hlive)
  | commit m =>
    simp only [Ending.isCommit, if_true]
    refine ⟨⟨hu.live_nodup, hused⟩, hu.allocs_fresh, hu.allocs_nodup, hu.frees_live,
      hu.frees_nodup, hu.used_iff, fun b hb => ((hu.live_iff b).mp hb).1, ?_, ?_⟩
    · intro _ b hb hlive
      exact ((hu.live_iff b).mp hlive).2 hb
    · intro hfalse
      cases hfalse

/-- A block that was used once is not allocated again. -/
theorem Legal.not_allocated {h : Blocks} (hc : h.Consistent) {as : List Attempt}
    (hl : Legal h as) {b : Block} (hb : b ∈ h.used) : ∀ a ∈ as, b ∉ a.allocs := by
  induction as generalizing h with
  | nil => simp
  | cons a as ih =>
    obtain ⟨h', hstep, hrest⟩ := hl
    obtain ⟨hc', hfresh, -, -, -, hused, -⟩ := attemptBlocks_spec hc hstep
    intro x hx
    rcases List.mem_cons.mp hx with rfl | hx
    · exact fun hxb => hfresh b hxb hb
    · exact ih hc' hrest ((hused b).mpr (Or.inl hb)) x hx

/-- A block that is dead is not freed again. -/
theorem Legal.not_freed {h : Blocks} (hc : h.Consistent) {as : List Attempt} (hl : Legal h as)
    {b : Block} (hb : b ∈ h.used) (hdead : b ∉ h.live) : ∀ a ∈ as, b ∉ a.frees := by
  induction as generalizing h with
  | nil => simp
  | cons a as ih =>
    obtain ⟨h', hstep, hrest⟩ := hl
    obtain ⟨hc', hfresh, -, hfrees, -, hused, hlive, -⟩ := attemptBlocks_spec hc hstep
    have hba : b ∉ a.allocs := fun hx => hfresh b hx hb
    intro x hx
    rcases List.mem_cons.mp hx with rfl | hx
    · intro hxb
      rcases hfrees b hxb with hx | hx
      · exact hdead hx
      · exact hba hx
    · refine ih hc' hrest ((hused b).mpr (Or.inl hb)) ?_ x hx
      intro hx
      rcases hlive b hx with hx | hx
      · exact hdead hx
      · exact hba hx

/-! ### The lists over an attempt -/

theorem pendingAllocs_memOps (ops : List MemOp) (mi : MemInfo) :
    (ops.foldl memOp mi).pendingAllocs.Perm
      (ops.filterMap MemOp.allocation ++ mi.pendingAllocs) := by
  induction ops generalizing mi with
  | nil => exact List.Perm.refl _
  | cons op ops ih =>
    refine (ih (memOp mi op)).trans ?_
    cases op with
    | stmMalloc addr => exact List.perm_middle
    | stmShmalloc addr =>
      refine List.Perm.trans ?_ List.perm_middle
      exact List.Perm.append_left _ List.perm_middle
    | stmFree addr => exact List.Perm.refl _
    | stmShfree addr => exact List.Perm.refl _

theorem pendingFrees_memOps (ops : List MemOp) (mi : MemInfo) :
    (ops.foldl memOp mi).pendingFrees.Perm
      (ops.filterMap MemOp.release ++ mi.pendingFrees) := by
  induction ops generalizing mi with
  | nil => exact List.Perm.refl _
  | cons op ops ih =>
    refine (ih (memOp mi op)).trans ?_
    cases op with
    | stmMalloc addr => exact List.Perm.refl _
    | stmShmalloc addr => exact List.Perm.refl _
    | stmFree addr => exact List.perm_middle
    | stmShfree addr =>
      refine List.Perm.trans ?_ List.perm_middle
      exact List.Perm.append_left _ List.perm_middle

theorem mem_pendingAllocs_memOps {a : Attempt} {mi : MemInfo} {b : Block} :
    b ∈ (a.ops.foldl memOp mi).pendingAllocs ↔ b ∈ a.allocs ∨ b ∈ mi.pendingAllocs := by
  rw [(pendingAllocs_memOps a.ops mi).mem_iff, List.mem_append]
  rfl

theorem mem_pendingFrees_memOps {a : Attempt} {mi : MemInfo} {b : Block} :
    b ∈ (a.ops.foldl memOp mi).pendingFrees ↔ b ∈ a.frees ∨ b ∈ mi.pendingFrees := by
  rw [(pendingFrees_memOps a.ops mi).mem_iff, List.mem_append]
  rfl

theorem finish_settling {m : CommitMacro} (hm : m.callsOnCommit = true) (mi : MemInfo) :
    finish mi (.commit m) = memInfoOnCommit mi := if_pos hm

theorem finish_deferring {m : CommitMacro} (hm : m.callsOnCommit = false) (mi : MemInfo) :
    finish mi (.commit m) = (mi, []) := by
  simp only [finish, hm, Bool.false_eq_true, if_false]

/-- What an ending releases was on one of the lists, and an abort releases allocations. -/
theorem mem_finish {mi : MemInfo} {e : Ending} {b : Block} (hb : b ∈ (finish mi e).2) :
    (e = .abort ∧ b ∈ mi.pendingAllocs) ∨ (e.isCommit = true ∧ b ∈ mi.pendingFrees) := by
  cases e with
  | abort => exact Or.inl ⟨rfl, hb⟩
  | commit m =>
    cases hm : m.callsOnCommit with
    | true =>
      rw [finish_settling hm] at hb
      exact Or.inr ⟨rfl, hb⟩
    | false =>
      rw [finish_deferring hm] at hb
      cases hb

theorem finish_lists (mi : MemInfo) (e : Ending) :
    (finish mi e).1 = mi ∨ (finish mi e).1 = memInfoNew := by
  cases e with
  | abort => exact Or.inr rfl
  | commit m =>
    cases hm : m.callsOnCommit with
    | true =>
      rw [finish_settling hm]
      exact Or.inr rfl
    | false =>
      rw [finish_deferring hm]
      exact Or.inl rfl

theorem mem_pending_finish {mi : MemInfo} {e : Ending} {b : Block} :
    (b ∈ (finish mi e).1.pendingAllocs → b ∈ mi.pendingAllocs) ∧
      (b ∈ (finish mi e).1.pendingFrees → b ∈ mi.pendingFrees) := by
  rcases finish_lists mi e with heq | heq
  · rw [heq]
    exact ⟨id, id⟩
  · rw [heq]
    constructor
    · intro hb
      cases hb
    · intro hb
      cases hb

/-- Only what is pending or is named by an attempt is ever released; an abort
releases only allocations. -/
theorem released_cases {mi : MemInfo} {as : List Attempt} {y : Attempt × List Block}
    (hy : y ∈ runAttempts mi as) {b : Block} (hb : b ∈ y.2) :
    (y.1.ending = .abort ∧ (b ∈ mi.pendingAllocs ∨ ∃ a ∈ as, b ∈ a.allocs)) ∨
    (y.1.ending.isCommit = true ∧ (b ∈ mi.pendingFrees ∨ ∃ a ∈ as, b ∈ a.frees)) := by
  induction as generalizing mi with
  | nil => cases hy
  | cons a as ih =>
    rcases List.mem_cons.mp hy with rfl | hy
    · rcases mem_finish hb with ⟨hend, hmem⟩ | ⟨hend, hmem⟩
      · rcases mem_pendingAllocs_memOps.mp hmem with hmem | hmem
        · exact Or.inl ⟨hend, Or.inr ⟨a, List.mem_cons_self, hmem⟩⟩
        · exact Or.inl ⟨hend, Or.inl hmem⟩
      · rcases mem_pendingFrees_memOps.mp hmem with hmem | hmem
        · exact Or.inr ⟨hend, Or.inr ⟨a, List.mem_cons_self, hmem⟩⟩
        · exact Or.inr ⟨hend, Or.inl hmem⟩
    · rcases ih hy with ⟨hend, hmem⟩ | ⟨hend, hmem⟩
      · refine Or.inl ⟨hend, ?_⟩
        rcases hmem with hmem | ⟨x, hx, hmem⟩
        · rcases mem_pendingAllocs_memOps.mp (mem_pending_finish.1 hmem) with hmem | hmem
          · exact Or.inr ⟨a, List.mem_cons_self, hmem⟩
          · exact Or.inl hmem
        · exact Or.inr ⟨x, List.mem_cons_of_mem a hx, hmem⟩
      · refine Or.inr ⟨hend, ?_⟩
        rcases hmem with hmem | ⟨x, hx, hmem⟩
        · rcases mem_pendingFrees_memOps.mp (mem_pending_finish.2 hmem) with hmem | hmem
          · exact Or.inr ⟨a, List.mem_cons_self, hmem⟩
          · exact Or.inl hmem
        · exact Or.inr ⟨x, List.mem_cons_of_mem a hx, hmem⟩

theorem mem_runAttempts {mi : MemInfo} {as : List Attempt} {y : Attempt × List Block}
    (hy : y ∈ runAttempts mi as) : y.1 ∈ as := by
  induction as generalizing mi with
  | nil => cases hy
  | cons a as ih =>
    rcases List.mem_cons.mp hy with rfl | hy
    · exact List.mem_cons_self
    · exact List.mem_cons_of_mem a (ih hy)

theorem exists_run_of_mem {as : List Attempt} {a : Attempt} (ha : a ∈ as) (mi : MemInfo) :
    ∃ y ∈ runAttempts mi as, y.1 = a := by
  induction as generalizing mi with
  | nil => cases ha
  | cons x as ih =>
    rcases List.mem_cons.mp ha with rfl | ha
    · exact ⟨_, List.mem_cons_self, rfl⟩
    · obtain ⟨y, hy, hya⟩ := ih ha (finish (x.ops.foldl memOp mi) x.ending).1
      exact ⟨y, List.mem_cons_of_mem _ hy, hya⟩

/-! ### The law with blocks pending -/

/-- The law for the rest of a run, when `PA` and `PF` are what earlier commits
allocated and freed and left on the lists. -/
structure PendingLaw (PA PF : List Block) (run : List (Attempt × List Block)) : Prop where
  keptPending : ∀ b ∈ PA, ∀ y ∈ run, y.1.ending = .abort → b ∉ y.2
  disposedPending : ∀ b ∈ PF, (releases run).count b = 1
  kept : run.Pairwise fun x y => x.1.ending.isCommit = true → y.1.ending = .abort →
    ∀ b ∈ x.1.allocs, b ∉ y.2
  disposed : ∀ x ∈ run, x.1.ending.isCommit = true → ∀ b ∈ x.1.frees,
    (releases run).count b = 1
  rolledBack : ∀ x ∈ run, x.1.ending = .abort → ∀ b ∈ x.1.allocs, (releases run).count b = 1
  restored : ∀ x ∈ run, x.1.ending = .abort → ∀ b ∈ x.1.frees, b ∉ PF →
    (∀ y ∈ run, y.1.ending.isCommit = true → b ∉ y.1.frees) →
    (∀ y ∈ run, y.1.ending = .abort → b ∉ y.1.allocs) → (releases run).count b = 0

theorem memoryLaw_iff_pendingLaw {run : List (Attempt × List Block)} :
    MemoryLaw run ↔ PendingLaw [] [] run := by
  constructor
  · intro h
    exact ⟨by simp, by simp, h.kept, h.disposed, h.rolledBack,
      fun x hx hend b hb _ => h.restored x hx hend b hb⟩
  · intro h
    exact ⟨h.kept, h.disposed, h.rolledBack,
      fun x hx hend b hb => h.restored x hx hend b hb (by simp)⟩

theorem count_releases_cons (a : Attempt) (r : List Block) (run : List (Attempt × List Block))
    (b : Block) :
    (releases ((a, r) :: run)).count b = r.count b + (releases run).count b := by
  simp [releases]

theorem count_releases_eq_zero {run : List (Attempt × List Block)} {b : Block}
    (h : ∀ y ∈ run, b ∉ y.2) : (releases run).count b = 0 := by
  rw [List.count_eq_zero]
  intro hb
  obtain ⟨y, hy, hby⟩ := List.mem_flatMap.mp hb
  exact h y hy hby

/-- A commit that settles nothing passes its blocks on to the rest of the run. -/
theorem pendingLaw_deferring {a : Attempt} {run : List (Attempt × List Block)}
    {PA PF PA' PF' : List Block} (hend : a.ending.isCommit = true)
    (hPA : ∀ b, b ∈ PA' ↔ b ∈ a.allocs ∨ b ∈ PA) (hPF : ∀ b, b ∈ PF' ↔ b ∈ a.frees ∨ b ∈ PF) :
    PendingLaw PA PF ((a, []) :: run) ↔ PendingLaw PA' PF' run := by
  have hcount : ∀ b, (releases ((a, []) :: run)).count b = (releases run).count b := by
    intro b
    rw [count_releases_cons, List.count_nil, Nat.zero_add]
  have hnot : a.ending ≠ .abort := by
    intro h
    rw [h] at hend
    cases hend
  constructor
  · intro h
    obtain ⟨hkept, hrest⟩ := List.pairwise_cons.mp h.kept
    refine ⟨?_, ?_, hrest, ?_, ?_, ?_⟩
    · -- what is pending was allocated by this attempt or before it
      intro b hb y hy hy'
      rcases (hPA b).mp hb with hb | hb
      · exact hkept y hy hend hy' b hb
      · exact h.keptPending b hb y (List.mem_cons_of_mem _ hy) hy'
    · intro b hb
      rw [← hcount]
      rcases (hPF b).mp hb with hb | hb
      · exact h.disposed (a, []) List.mem_cons_self hend b hb
      · exact h.disposedPending b hb
    · intro x hx hx' b hb
      rw [← hcount]
      exact h.disposed x (List.mem_cons_of_mem _ hx) hx' b hb
    · intro x hx hx' b hb
      rw [← hcount]
      exact h.rolledBack x (List.mem_cons_of_mem _ hx) hx' b hb
    · intro x hx hx' b hb hnone hcommit habort
      rw [← hcount]
      rw [hPF, not_or] at hnone
      refine h.restored x (List.mem_cons_of_mem _ hx) hx' b hb hnone.2 ?_ ?_
      · intro y hy hy'
        rcases List.mem_cons.mp hy with rfl | hy
        · exact hnone.1
        · exact hcommit y hy hy'
      · intro y hy hy'
        rcases List.mem_cons.mp hy with rfl | hy
        · exact absurd hy' hnot
        · exact habort y hy hy'
  · intro h
    constructor
    case keptPending =>
      intro b hb y hy hy'
      rcases List.mem_cons.mp hy with rfl | hy
      · exact absurd hy' hnot
      · exact h.keptPending b ((hPA b).mpr (Or.inr hb)) y hy hy'
    case disposedPending =>
      intro b hb
      rw [hcount]
      exact h.disposedPending b ((hPF b).mpr (Or.inr hb))
    case kept =>
      refine List.pairwise_cons.mpr ⟨?_, h.kept⟩
      intro y hy _ hy' b hb
      exact h.keptPending b ((hPA b).mpr (Or.inl hb)) y hy hy'
    case disposed =>
      intro x hx hx' b hb
      rw [hcount]
      rcases List.mem_cons.mp hx with rfl | hx
      · exact h.disposedPending b ((hPF b).mpr (Or.inl hb))
      · exact h.disposed x hx hx' b hb
    case rolledBack =>
      intro x hx hx' b hb
      rw [hcount]
      rcases List.mem_cons.mp hx with rfl | hx
      · exact absurd hx' hnot
      · exact h.rolledBack x hx hx' b hb
    case restored =>
      intro x hx hx' b hb hnone hcommit habort
      rw [hcount]
      rcases List.mem_cons.mp hx with rfl | hx
      · exact absurd hx' hnot
      · refine h.restored x hx hx' b hb ?_ (fun y hy => hcommit y (List.mem_cons_of_mem _ hy))
          fun y hy => habort y (List.mem_cons_of_mem _ hy)
        rw [hPF, not_or]
        exact ⟨hcommit (a, []) List.mem_cons_self hend, hnone⟩

section Settled

variable {h' : Blocks} {as : List Attempt} (hc : h'.Consistent) (hl : Legal h' as)

include hc hl

/-- With the lists empty, a used block is not allocated or released by an abort. -/
theorem used_rest {b : Block} (hb : b ∈ h'.used) {y : Attempt × List Block}
    (hy : y ∈ runAttempts memInfoNew as) :
    b ∉ y.1.allocs ∧ (y.1.ending = .abort → b ∉ y.2) := by
  have hfresh := hl.not_allocated hc hb
  refine ⟨hfresh y.1 (mem_runAttempts hy), ?_⟩
  intro hend hmem
  rcases released_cases hy hmem with ⟨-, hpending | ⟨a, ha, hba⟩⟩ | ⟨hcommit, -⟩
  · cases hpending
  · exact hfresh a ha hba
  · rw [hend] at hcommit
    cases hcommit

/-- With the lists empty, a dead block is not freed or released at all. -/
theorem dead_rest {b : Block} (hb : b ∈ h'.used) (hdead : b ∉ h'.live)
    {y : Attempt × List Block} (hy : y ∈ runAttempts memInfoNew as) :
    b ∉ y.1.frees ∧ b ∉ y.2 := by
  have hfree := hl.not_freed hc hb hdead
  refine ⟨hfree y.1 (mem_runAttempts hy), ?_⟩
  intro hmem
  rcases released_cases hy hmem with ⟨-, hpending | ⟨a, ha, hba⟩⟩ | ⟨-, hpending | ⟨a, ha, hba⟩⟩
  · cases hpending
  · exact hl.not_allocated hc hb a ha hba
  · cases hpending
  · exact hfree a ha hba

theorem count_dead_rest {b : Block} (hb : b ∈ h'.used) (hdead : b ∉ h'.live) :
    (releases (runAttempts memInfoNew as)).count b = 0 :=
  count_releases_eq_zero fun _ hy => (dead_rest hc hl hb hdead hy).2

/-- A commit that settles the lists releases what was freed, once and for all. -/
theorem pendingLaw_settling {a : Attempt} {r PA PF : List Block}
    (hend : a.ending.isCommit = true) (hnodup : r.Nodup)
    (hr : ∀ b, b ∈ r ↔ b ∈ a.frees ∨ b ∈ PF)
    (hdead : ∀ b ∈ r, b ∈ h'.used ∧ b ∉ h'.live)
    (hPA : ∀ b ∈ PA, b ∈ h'.used) (hallocs : ∀ b ∈ a.allocs, b ∈ h'.used) :
    PendingLaw PA PF ((a, r) :: runAttempts memInfoNew as) ↔
      PendingLaw [] [] (runAttempts memInfoNew as) := by
  have hnot : a.ending ≠ .abort := by
    intro h
    rw [h] at hend
    cases hend
  have hone : ∀ b ∈ r, (releases ((a, r) :: runAttempts memInfoNew as)).count b = 1 := by
    intro b hb
    rw [count_releases_cons, List.count_eq_one_of_mem hnodup hb,
      count_dead_rest hc hl (hdead b hb).1 (hdead b hb).2]
  have hsame : ∀ b, b ∉ r → (releases ((a, r) :: runAttempts memInfoNew as)).count b =
      (releases (runAttempts memInfoNew as)).count b := by
    intro b hb
    rw [count_releases_cons, List.count_eq_zero_of_not_mem hb, Nat.zero_add]
  -- what later attempts name is not in `r`
  have hfrees : ∀ x ∈ runAttempts memInfoNew as, ∀ b ∈ x.1.frees, b ∉ r := by
    intro x hx b hb hbr
    exact (dead_rest hc hl (hdead b hbr).1 (hdead b hbr).2 hx).1 hb
  have hlater : ∀ x ∈ runAttempts memInfoNew as, ∀ b ∈ x.1.allocs, b ∉ r := by
    intro x hx b hb hbr
    exact (used_rest hc hl (hdead b hbr).1 hx).1 hb
  constructor
  · intro h
    refine ⟨by simp, by simp, (List.pairwise_cons.mp h.kept).2, ?_, ?_, ?_⟩
    · intro x hx hx' b hb
      rw [← hsame b (hfrees x hx b hb)]
      exact h.disposed x (List.mem_cons_of_mem _ hx) hx' b hb
    · intro x hx hx' b hb
      rw [← hsame b (hlater x hx b hb)]
      exact h.rolledBack x (List.mem_cons_of_mem _ hx) hx' b hb
    · intro x hx hx' b hb _ hcommit habort
      have hbr := hfrees x hx b hb
      rw [← hsame b hbr]
      rw [hr, not_or] at hbr
      refine h.restored x (List.mem_cons_of_mem _ hx) hx' b hb hbr.2 ?_ ?_
      · intro y hy hy'
        rcases List.mem_cons.mp hy with rfl | hy
        · exact hbr.1
        · exact hcommit y hy hy'
      · intro y hy hy'
        rcases List.mem_cons.mp hy with rfl | hy
        · exact absurd hy' hnot
        · exact habort y hy hy'
  · intro h
    constructor
    case keptPending =>
      intro b hb y hy hy'
      rcases List.mem_cons.mp hy with rfl | hy
      · exact absurd hy' hnot
      · exact (used_rest hc hl (hPA b hb) hy).2 hy'
    case disposedPending =>
      intro b hb
      exact hone b ((hr b).mpr (Or.inr hb))
    case kept =>
      refine List.pairwise_cons.mpr ⟨?_, h.kept⟩
      intro y hy _ hy' b hb
      exact (used_rest hc hl (hallocs b hb) hy).2 hy'
    case disposed =>
      intro x hx hx' b hb
      rcases List.mem_cons.mp hx with rfl | hx
      · exact hone b ((hr b).mpr (Or.inl hb))
      · rw [hsame b (hfrees x hx b hb)]
        exact h.disposed x hx hx' b hb
    case rolledBack =>
      intro x hx hx' b hb
      rcases List.mem_cons.mp hx with rfl | hx
      · exact absurd hx' hnot
      · rw [hsame b (hlater x hx b hb)]
        exact h.rolledBack x hx hx' b hb
    case restored =>
      intro x hx hx' b hb _ hcommit habort
      rcases List.mem_cons.mp hx with rfl | hx
      · exact absurd hx' hnot
      · rw [hsame b (hfrees x hx b hb)]
        exact h.restored x hx hx' b hb (by simp)
          (fun y hy => hcommit y (List.mem_cons_of_mem _ hy))
          fun y hy => habort y (List.mem_cons_of_mem _ hy)

/-- An abort is lawful exactly when no commit left blocks on the lists. -/
theorem pendingLaw_aborting {a : Attempt} {r PA PF : List Block} (hend : a.ending = .abort)
    (hnodup : PA = [] → r.Nodup) (hr : ∀ b, b ∈ r ↔ b ∈ a.allocs ∨ b ∈ PA)
    (hdead : ∀ b ∈ a.allocs, b ∈ h'.used ∧ b ∉ h'.live)
    (hPF : ∀ b ∈ PF, b ∈ h'.used ∧ b ∉ h'.live ∧ b ∉ a.allocs)
    (hfreed : ∀ b ∈ a.frees, b ∈ h'.used) :
    PendingLaw PA PF ((a, r) :: runAttempts memInfoNew as) ↔
      PA = [] ∧ PF = [] ∧ PendingLaw [] [] (runAttempts memInfoNew as) := by
  have hnot : a.ending.isCommit ≠ true := by
    rw [hend]
    decide
  have hsame : ∀ b, b ∉ r → (releases ((a, r) :: runAttempts memInfoNew as)).count b =
      (releases (runAttempts memInfoNew as)).count b := by
    intro b hb
    rw [count_releases_cons, List.count_eq_zero_of_not_mem hb, Nat.zero_add]
  -- what the attempt allocated is dead, and no later attempt names it
  have hlater : ∀ x ∈ runAttempts memInfoNew as, ∀ b,
      b ∈ x.1.frees ∨ b ∈ x.1.allocs → b ∉ a.allocs := by
    rintro x hx b (hb | hb) hba
    · exact (dead_rest hc hl (hdead b hba).1 (hdead b hba).2 hx).1 hb
    · exact (used_rest hc hl (hdead b hba).1 hx).1 hb
  constructor
  · intro h
    -- a block that a commit left on the list would be released here
    have hPAnil : PA = [] := by
      apply List.eq_nil_iff_forall_not_mem.mpr
      intro b hb
      exact h.keptPending b hb (a, r) List.mem_cons_self hend ((hr b).mpr (Or.inr hb))
    have hr' : ∀ b, b ∈ r ↔ b ∈ a.allocs := by
      intro b
      rw [hr, hPAnil]
      simp
    -- and one that was left to be freed is forgotten
    have hPFnil : PF = [] := by
      apply List.eq_nil_iff_forall_not_mem.mpr
      intro b hb
      have hcount := h.disposedPending b hb
      obtain ⟨hused, hlive, hba⟩ := hPF b hb
      rw [hsame b (fun hbr => hba ((hr' b).mp hbr)), count_dead_rest hc hl hused hlive] at hcount
      cases hcount
    refine ⟨hPAnil, hPFnil, by simp, by simp, (List.pairwise_cons.mp h.kept).2, ?_, ?_, ?_⟩
    · intro x hx hx' b hb
      rw [← hsame b (fun hbr => hlater x hx b (Or.inl hb) ((hr' b).mp hbr))]
      exact h.disposed x (List.mem_cons_of_mem _ hx) hx' b hb
    · intro x hx hx' b hb
      rw [← hsame b (fun hbr => hlater x hx b (Or.inr hb) ((hr' b).mp hbr))]
      exact h.rolledBack x (List.mem_cons_of_mem _ hx) hx' b hb
    · intro x hx hx' b hb _ hcommit habort
      have hba := hlater x hx b (Or.inl hb)
      rw [← hsame b (fun hbr => hba ((hr' b).mp hbr))]
      refine h.restored x (List.mem_cons_of_mem _ hx) hx' b hb (by simp [hPFnil]) ?_ ?_
      · intro y hy hy'
        rcases List.mem_cons.mp hy with rfl | hy
        · exact absurd hy' hnot
        · exact hcommit y hy hy'
      · intro y hy hy'
        rcases List.mem_cons.mp hy with rfl | hy
        · exact hba
        · exact habort y hy hy'
  · rintro ⟨rfl, rfl, h⟩
    have hr' : ∀ b, b ∈ r ↔ b ∈ a.allocs := by
      intro b
      rw [hr]
      simp
    refine ⟨by simp, by simp, ?_, ?_, ?_, ?_⟩
    · refine List.pairwise_cons.mpr ⟨?_, h.kept⟩
      intro y _ hcommit
      exact absurd hcommit hnot
    · intro x hx hx' b hb
      rcases List.mem_cons.mp hx with rfl | hx
      · exact absurd hx' hnot
      · rw [hsame b (fun hbr => hlater x hx b (Or.inl hb) ((hr' b).mp hbr))]
        exact h.disposed x hx hx' b hb
    · intro x hx hx' b hb
      rcases List.mem_cons.mp hx with rfl | hx
      · rw [count_releases_cons, List.count_eq_one_of_mem (hnodup rfl) ((hr' b).mpr hb),
          count_dead_rest hc hl (hdead b hb).1 (hdead b hb).2]
      · rw [hsame b (fun hbr => hlater x hx b (Or.inr hb) ((hr' b).mp hbr))]
        exact h.rolledBack x hx hx' b hb
    · intro x hx hx' b hb _ hcommit habort
      have hba : b ∉ a.allocs := habort (a, r) List.mem_cons_self hend
      rw [hsame b (fun hbr => hba ((hr' b).mp hbr))]
      have hcommit' := fun y hy => hcommit y (List.mem_cons_of_mem (a, r) hy)
      have habort' := fun y hy => habort y (List.mem_cons_of_mem (a, r) hy)
      by_cases hfree : ∃ y ∈ runAttempts memInfoNew as, y.1.ending = .abort ∧ b ∈ y.1.frees
      · obtain ⟨y, hy, hy', hby⟩ := hfree
        exact h.restored y hy hy' b hby (by simp) hcommit' habort'
      · -- nothing later names the block, except perhaps an abort's own allocations
        rcases List.mem_cons.mp hx with rfl | hx
        · apply count_releases_eq_zero
          intro y hy hby
          have hused := hfreed b hb
          rcases released_cases hy hby with ⟨hend', -⟩ | ⟨hend', hpending | ⟨z, hz, hbz⟩⟩
          · exact (used_rest hc hl hused hy).2 hend' hby
          · cases hpending
          · obtain ⟨w, hw, rfl⟩ := exists_run_of_mem hz memInfoNew
            cases hwend : w.1.ending with
            | abort => exact hfree ⟨w, hw, hwend, hbz⟩
            | commit m => exact hcommit' w hw (by rw [hwend]; rfl) hbz
        · exact absurd ⟨x, hx, hx', hb⟩ hfree

end Settled

/-! ### The condition, one attempt at a time -/

theorem nextSettling_abort {a : Attempt} (hend : a.ending = .abort) (as : List Attempt) :
    nextSettling (a :: as) = some .abort := by
  simp [nextSettling, hend]

theorem nextSettling_settling {a : Attempt} {m : CommitMacro} (hend : a.ending = .commit m)
    (hm : m.callsOnCommit = true) (as : List Attempt) :
    nextSettling (a :: as) = some (.commit m) := by
  simp [nextSettling, hend, hm]

theorem nextSettling_deferring {a : Attempt} {m : CommitMacro} (hend : a.ending = .commit m)
    (hm : m.callsOnCommit = false) (as : List Attempt) :
    nextSettling (a :: as) = nextSettling as := by
  simp [nextSettling, hend, hm]

theorem caughtUp_cons {a : Attempt} {as : List Attempt} :
    CaughtUp (a :: as) ↔
      (∀ m, a.ending = .commit m → m.callsOnCommit = false →
        (a.allocs ≠ [] → nextSettling as ≠ some .abort) ∧
        (a.frees ≠ [] → ∃ m', nextSettling as = some (.commit m'))) ∧ CaughtUp as := by
  constructor
  · intro h
    refine ⟨fun m => h [] a as m rfl, ?_⟩
    intro before x after m hsplit
    exact h (a :: before) x after m (by rw [hsplit]; rfl)
  · rintro ⟨hhead, hrest⟩ before x after m hsplit
    cases before with
    | nil =>
      rw [List.nil_append, List.cons.injEq] at hsplit
      obtain ⟨rfl, rfl⟩ := hsplit
      exact hhead m
    | cons y before =>
      rw [List.cons_append, List.cons.injEq] at hsplit
      exact hrest before x after m hsplit.2

/-- What the lists hold, and what the program still knows of it. -/
structure Known (h : Blocks) (mi : MemInfo) : Prop where
  consistent : h.Consistent
  allocs_used : ∀ b ∈ mi.pendingAllocs, b ∈ h.used
  frees_dead : ∀ b ∈ mi.pendingFrees, b ∈ h.used ∧ b ∉ h.live
  frees_nodup : mi.pendingFrees.Nodup

theorem known_memInfoNew {h : Blocks} (hc : h.Consistent) : Known h memInfoNew :=
  ⟨hc, fun b hb => by simp [memInfoNew, MemInfo.pendingAllocs] at hb,
    fun b hb => by simp [memInfoNew, MemInfo.pendingFrees] at hb, List.nodup_nil⟩

theorem ne_nil_iff_of_mem_iff {l l₁ l₂ : List Block} (h : ∀ b, b ∈ l ↔ b ∈ l₁ ∨ b ∈ l₂) :
    l ≠ [] ↔ l₁ ≠ [] ∨ l₂ ≠ [] := by
  simp only [ne_eq, List.eq_nil_iff_forall_not_mem, not_forall, not_not, ← exists_or]
  exact exists_congr h

/-- The blocks on the lists and those of an attempt, once the attempt is over. -/
structure Settles (h' : Blocks) (mi : MemInfo) (a : Attempt) : Prop where
  consistent : h'.Consistent
  allocs_used : ∀ b ∈ a.allocs, b ∈ h'.used
  allocs_nodup : a.allocs.Nodup
  frees_used : ∀ b ∈ a.frees, b ∈ h'.used
  frees_nodup : (a.ops.foldl memOp mi).pendingFrees.Nodup
  pending_used : ∀ b ∈ mi.pendingAllocs, b ∈ h'.used
  pending_dead : ∀ b ∈ mi.pendingFrees, b ∈ h'.used ∧ b ∉ h'.live ∧ b ∉ a.allocs
  committed : a.ending.isCommit = true → ∀ b ∈ a.frees, b ∉ h'.live
  aborted : a.ending = .abort → ∀ b ∈ a.allocs, b ∉ h'.live

theorem Known.settles {h h' : Blocks} {mi : MemInfo} {a : Attempt} (hk : Known h mi)
    (hstep : attemptBlocks h a = some h') : Settles h' mi a := by
  obtain ⟨hc', hfresh, hallocs_nodup, hfrees, hfrees_nodup, hused, hlive, hcommit, habort⟩ :=
    attemptBlocks_spec hk.consistent hstep
  have hstill : ∀ b ∈ h.used, b ∈ h'.used := fun b hb => (hused b).mpr (Or.inl hb)
  refine ⟨hc', ?_, hallocs_nodup, ?_, ?_, ?_, ?_, hcommit, habort⟩
  · exact fun b hb => (hused b).mpr (Or.inr hb)
  · intro b hb
    rw [hused]
    exact (hfrees b hb).imp_left (hk.consistent.live_used b)
  · -- a freed block is not among the pending ones, which are dead
    rw [(pendingFrees_memOps a.ops mi).nodup_iff]
    apply List.Nodup.append hfrees_nodup hk.frees_nodup
    intro b hb hpending
    obtain hx | hx := hfrees b hb
    · exact (hk.frees_dead b hpending).2 hx
    · exact hfresh b hx (hk.frees_dead b hpending).1
  · exact fun b hb => hstill b (hk.allocs_used b hb)
  · intro b hb
    obtain ⟨hb_used, hb_dead⟩ := hk.frees_dead b hb
    refine ⟨hstill b hb_used, ?_, fun hba => hfresh b hba hb_used⟩
    intro hb_live
    obtain hx | hx := hlive b hb_live
    · exact hb_dead hx
    · exact hfresh b hx hb_used

theorem Settles.dead {h' : Blocks} {mi : MemInfo} {a : Attempt} (hs : Settles h' mi a)
    (hcommit : a.ending.isCommit = true) :
    ∀ b ∈ (a.ops.foldl memOp mi).pendingFrees, b ∈ h'.used ∧ b ∉ h'.live := by
  intro b hb
  obtain hb | hb := mem_pendingFrees_memOps.mp hb
  · exact ⟨hs.frees_used b hb, hs.committed hcommit b hb⟩
  · obtain ⟨hused, hdead, -⟩ := hs.pending_dead b hb
    exact ⟨hused, hdead⟩

theorem Settles.known {h' : Blocks} {mi : MemInfo} {a : Attempt} (hs : Settles h' mi a)
    (hcommit : a.ending.isCommit = true) : Known h' (a.ops.foldl memOp mi) := by
  refine ⟨hs.consistent, ?_, hs.dead hcommit, hs.frees_nodup⟩
  intro b hb
  obtain hb | hb := mem_pendingAllocs_memOps.mp hb
  · exact hs.allocs_used b hb
  · exact hs.pending_used b hb

/-- The law for the rest of a run, with blocks pending from the commits before. -/
theorem pendingLaw_iff {h : Blocks} {mi : MemInfo} {as : List Attempt} (hk : Known h mi)
    (hl : Legal h as) :
    PendingLaw mi.pendingAllocs mi.pendingFrees (runAttempts mi as) ↔
      (mi.pendingAllocs ≠ [] → nextSettling as ≠ some .abort) ∧
      (mi.pendingFrees ≠ [] → ∃ m', nextSettling as = some (.commit m')) ∧ CaughtUp as := by
  induction as generalizing h mi with
  | nil =>
    constructor
    · intro hlaw
      refine ⟨fun _ => by simp [nextSettling], ?_, ?_⟩
      · intro hne
        obtain ⟨b, hb⟩ := List.exists_mem_of_ne_nil _ hne
        have := hlaw.disposedPending b hb
        cases this
      · intro before a after m hsplit
        simp at hsplit
    · rintro ⟨-, hfrees, -⟩
      have hnil : mi.pendingFrees = [] := by
        by_contra hne
        obtain ⟨m', hm'⟩ := hfrees hne
        simp [nextSettling] at hm'
      rw [hnil]
      exact ⟨by simp [runAttempts], by simp, List.Pairwise.nil, by simp [runAttempts],
        by simp [runAttempts], by simp [runAttempts]⟩
  | cons a as ih =>
    obtain ⟨h', hstep, hrest⟩ := hl
    have hs := hk.settles hstep
    have hih := ih (known_memInfoNew hs.consistent) hrest
    have hempty : PendingLaw [] [] (runAttempts memInfoNew as) ↔ CaughtUp as := by
      have hlists : memInfoNew.pendingAllocs = [] ∧ memInfoNew.pendingFrees = [] := ⟨rfl, rfl⟩
      rw [hlists.1, hlists.2] at hih
      simpa using hih
    rw [caughtUp_cons]
    cases hend : a.ending with
    | abort =>
      -- the lists have to be empty
      have hrun : runAttempts mi (a :: as) =
          (a, (a.ops.foldl memOp mi).pendingAllocs) :: runAttempts memInfoNew as := by
        simp only [runAttempts, hend, finish, memInfoOnAbort]
      rw [hrun, pendingLaw_aborting hs.consistent hrest hend ?_
        (fun b => mem_pendingAllocs_memOps)
        (fun b hb => ⟨hs.allocs_used b hb, hs.aborted hend b hb⟩) hs.pending_dead hs.frees_used,
        hempty, nextSettling_abort hend]
      · constructor
        · rintro ⟨hPA, hPF, hrest⟩
          exact ⟨fun hne => absurd hPA hne, fun hne => absurd hPF hne,
            fun m hm => (by cases hm), hrest⟩
        · rintro ⟨hPA, hPF, -, hrest⟩
          refine ⟨?_, ?_, hrest⟩
          · by_contra hne
            exact hPA hne rfl
          · by_contra hne
            obtain ⟨m', hm'⟩ := hPF hne
            cases hm'
      · intro hPA
        rw [(pendingAllocs_memOps a.ops mi).nodup_iff, hPA, List.append_nil]
        exact hs.allocs_nodup
    | commit m =>
      have hiscommit : a.ending.isCommit = true := by
        rw [hend]
        rfl
      cases hm : m.callsOnCommit with
      | true =>
        -- the lists are settled, and the rest starts with empty ones
        have hrun : runAttempts mi (a :: as) =
            (a, (a.ops.foldl memOp mi).pendingFrees) :: runAttempts memInfoNew as := by
          simp only [runAttempts, hend, finish_settling hm, memInfoOnCommit]
        rw [hrun, pendingLaw_settling hs.consistent hrest hiscommit hs.frees_nodup
          (fun b => mem_pendingFrees_memOps) (hs.dead hiscommit) hs.pending_used hs.allocs_used,
          hempty, nextSettling_settling hend hm]
        constructor
        · intro hrest
          refine ⟨fun _ habs => (by cases habs), fun _ => ⟨m, rfl⟩, ?_, hrest⟩
          intro m' hm' hfalse
          rw [Ending.commit.injEq] at hm'
          rw [← hm', hm] at hfalse
          cases hfalse
        · rintro ⟨-, -, -, hrest⟩
          exact hrest
      | false =>
        -- the lists grow, and the rest has to settle them
        have hrun : runAttempts mi (a :: as) =
            (a, []) :: runAttempts (a.ops.foldl memOp mi) as := by
          simp only [runAttempts, hend, finish_deferring hm]
        rw [hrun, pendingLaw_deferring hiscommit (fun b => mem_pendingAllocs_memOps)
          (fun b => mem_pendingFrees_memOps), ih (hs.known hiscommit) hrest,
          ne_nil_iff_of_mem_iff (fun b => mem_pendingAllocs_memOps),
          ne_nil_iff_of_mem_iff (fun b => mem_pendingFrees_memOps),
          nextSettling_deferring hend hm]
        constructor
        · rintro ⟨hA, hF, hrest⟩
          exact ⟨fun hne => hA (Or.inr hne), fun hne => hF (Or.inr hne),
            fun m' _ _ => ⟨fun hne => hA (Or.inl hne), fun hne => hF (Or.inl hne)⟩, hrest⟩
        · rintro ⟨hA, hF, hhead, hrest⟩
          obtain ⟨hA', hF'⟩ := hhead m rfl hm
          exact ⟨fun hne => hne.elim hA' hA, fun hne => hne.elim hF' hF, hrest⟩

/-- **Blocks are settled exactly when no commit leaves its lists to an abort.**
`blocks` are the blocks that live before the first attempt. -/
theorem memoryLaw_iff_caughtUp (blocks : List Block) (hblocks : blocks.Nodup)
    (as : List Attempt) (hlegal : Legal ⟨blocks, blocks⟩ as) :
    MemoryLaw (runAttempts memInfoNew as) ↔ CaughtUp as := by
  have hknown : Known ⟨blocks, blocks⟩ memInfoNew := known_memInfoNew ⟨hblocks, fun _ hb => hb⟩
  have hlists : memInfoNew.pendingAllocs = [] ∧ memInfoNew.pendingFrees = [] := ⟨rfl, rfl⟩
  have hiff := pendingLaw_iff hknown hlegal
  rw [hlists.1, hlists.2] at hiff
  rw [memoryLaw_iff_pendingLaw]
  simpa using hiff

/-- A list node is replaced and its block freed with `TX_COMMIT`; the next
transaction aborts once and then commits with `TX_COMMIT_MEM`. -/
def replaceThenAbort : List Attempt :=
  [⟨[.stmShmalloc 2, .stmShfree 1], .commit .txCommit⟩,
   ⟨[.stmShmalloc 3], .abort⟩,
   ⟨[.stmShmalloc 4], .commit .txCommitMem⟩]

theorem memoryLaw_replaceThenMem :
    MemoryLaw (runAttempts memInfoNew
      [⟨[.stmShmalloc 2, .stmShfree 1], .commit .txCommit⟩,
       ⟨[.stmShmalloc 4], .commit .txCommitMem⟩]) ↔
    CaughtUp
      [⟨[.stmShmalloc 2, .stmShfree 1], .commit .txCommit⟩,
       ⟨[.stmShmalloc 4], .commit .txCommitMem⟩] :=
  memoryLaw_iff_caughtUp [⟨true, 1⟩] (by decide) _ (by decide)

/-- The abort releases block 2, which the first transaction committed, and
forgets block 1, which it freed. -/
theorem txCommit_leaves_blocks_to_abort :
    Legal ⟨[⟨true, 1⟩], [⟨true, 1⟩]⟩ replaceThenAbort ∧
      ¬ MemoryLaw (runAttempts memInfoNew replaceThenAbort) ∧
      (releases (runAttempts memInfoNew replaceThenAbort)) = [⟨true, 3⟩, ⟨true, 2⟩] := by
  refine ⟨by decide, ?_, by decide⟩
  intro h
  have := h.disposed _ List.mem_cons_self rfl ⟨true, 1⟩ (by decide)
  exact absurd this (by decide)

end TM2C
