import Mathlib.Logic.Function.Basic
import TM2C.Lib.AppendLog
import TM2C.Lib.Transition

/-!
# Atomic blocks

A block is the body of a transaction: a program of loads, stores and updates of a memory that
ends with a result.  A transactional memory buffers the writes of a block in a log and replays
the log at the end; `AtomicBlock.solo` is what a block then does when it runs alone, and
`AtomicBlock.atomic` what it does when each of its steps acts on the memory at once.  The two
are the same for blocks that write no address twice (`solo_eq_atomic`).

Threads run one block after the other.  Which one is next depends on the state of the thread
and on an input, and the result of a block leads to the next state.  `atomicStep` runs a
block in one step, which is the meaning that a transactional memory is there to implement.
-/

namespace AtomicBlocks

open AppendLog Transition

/-- The body of a transaction.  A `peek` reads the memory behind the back of the
transactional memory. -/
inductive AtomicBlock (α β ρ : Type*) where
  | ret (result : ρ)
  | load (address : α) (next : β → AtomicBlock α β ρ)
  | store (address : α) (value : β) (next : AtomicBlock α β ρ)
  | update (address : α) (f : β → β) (next : AtomicBlock α β ρ)
  | peek (address : α) (next : β → AtomicBlock α β ρ)

namespace AtomicBlock

variable {α β ρ : Type*} [DecidableEq α]

/-- Run the block with its writes in a log.  A load looks into the log, where it finds the
oldest entry, and an update does not. -/
def buffered (mem : α → β) : List (α × β) → AtomicBlock α β ρ → ρ × List (α × β)
  | log, .ret result => (result, log)
  | log, .load address next => buffered mem log (next ((first log address).getD (mem address)))
  | log, .store address value next => buffered mem (log ++ [(address, value)]) next
  | log, .update address f next => buffered mem (log ++ [(address, f (mem address))]) next
  | log, .peek address next => buffered mem log (next (mem address))

/-- The result of a block that runs alone, and the memory that it leaves. -/
def solo (mem : α → β) (block : AtomicBlock α β ρ) : ρ × (α → β) :=
  let run := block.buffered mem []
  (run.1, replay Function.update mem run.2)

/-- Run the block with its writes in the memory. -/
def atomic (mem : α → β) : AtomicBlock α β ρ → ρ × (α → β)
  | .ret result => (result, mem)
  | .load address next => atomic mem (next (mem address))
  | .store address value next => atomic (Function.update mem address value) next
  | .update address f next => atomic (Function.update mem address (f (mem address))) next
  | .peek address next => atomic mem (next (mem address))

/-- Besides the addresses `written`, the block writes every address at most once, and it peeks
only at addresses that it has not written. -/
def WritesOnce (written : List α) : AtomicBlock α β ρ → Prop
  | .ret _ => True
  | .load _ next => ∀ value, WritesOnce written (next value)
  | .store address _ next => address ∉ written ∧ WritesOnce (address :: written) next
  | .update address _ next => address ∉ written ∧ WritesOnce (address :: written) next
  | .peek address next => address ∉ written ∧ ∀ value, WritesOnce written (next value)

/-- The block has no store, so that a lock comes with each of its writes. -/
def OnlyUpdates : AtomicBlock α β ρ → Prop
  | .ret _ => True
  | .load _ next => ∀ value, OnlyUpdates (next value)
  | .store _ _ _ => False
  | .update _ _ next => OnlyUpdates next
  | .peek _ next => ∀ value, OnlyUpdates (next value)

/-- The block has at most `n` operations, and it peeks only at what it has updated. -/
def Within : AtomicBlock α β ρ → ℕ → List α → Prop
  | .ret _, _, _ => True
  | .load _ next, n, updated => 0 < n ∧ ∀ value, Within (next value) (n - 1) updated
  | .store _ _ next, n, updated => 0 < n ∧ Within next (n - 1) updated
  | .update address _ next, n, updated => 0 < n ∧ Within next (n - 1) (address :: updated)
  | .peek address next, n, updated =>
    0 < n ∧ address ∈ updated ∧ ∀ value, Within (next value) (n - 1) updated

theorem replay_update_apply (mem : α → β) (log : List (α × β)) (address : α) :
    replay Function.update mem log address = (last log address).getD (mem address) := by
  refine get_replay Function.update (fun m a => m a) ?_ ?_ mem
  · intro m a value
    exact Function.update_self ..
  · intro e _ hne m
    exact Function.update_of_ne (Ne.symm hne) ..

/-- A log that binds no address twice reads the same from both ends, also with a new address. -/
theorem first_eq_last_concat {log : List (α × β)} {address : α} (value : β)
    (hsame : ∀ a, first log a = last log a) (hnew : first log address = none) (a : α) :
    first (log ++ [(address, value)]) a = last (log ++ [(address, value)]) a := by
  rw [first_append, last_append, first_singleton, last_singleton]
  by_cases ha : address = a
  · subst ha
    rw [hnew, if_pos rfl, Option.none_or, Option.some_or]
  · rw [if_neg ha, Option.or_none, Option.none_or, hsame]

theorem first_concat_of_notMem {log : List (α × β)} {written : List α} {address : α} (value : β)
    (hlog : ∀ a, a ∉ written → first log a = none) (a : α) (ha : a ∉ address :: written) :
    first (log ++ [(address, value)]) a = none := by
  rw [List.mem_cons, not_or] at ha
  rw [first_append, hlog a ha.2, first_singleton, if_neg (Ne.symm ha.1), Option.none_or]

/-- The block continued from a log that binds no address twice. -/
theorem buffered_eq_atomic {block : AtomicBlock α β ρ} {mem : α → β} {log : List (α × β)}
    {written : List α} (hlog : ∀ a, a ∉ written → first log a = none)
    (hsame : ∀ a, first log a = last log a) (honce : block.WritesOnce written) :
    ((block.buffered mem log).1, replay Function.update mem (block.buffered mem log).2) =
      block.atomic (replay Function.update mem log) := by
  have hread : ∀ {log : List (α × β)}, (∀ a, first log a = last log a) → ∀ a,
      replay Function.update mem log a = (first log a).getD (mem a) := by
    intro log hsame a
    rw [replay_update_apply, hsame]
  induction block generalizing log written with
  | ret result => rfl
  | load address next ih =>
    rw [buffered, atomic, hread hsame]
    exact ih _ hlog hsame (honce _)
  | store address value next ih =>
    obtain ⟨hnew, honce⟩ := honce
    have hreplay : replay Function.update mem (log ++ [(address, value)]) =
        Function.update (replay Function.update mem log) address value := replay_append ..
    rw [buffered, atomic, ← hreplay]
    exact ih (first_concat_of_notMem value hlog)
      (first_eq_last_concat value hsame (hlog _ hnew)) honce
  | update address f next ih =>
    obtain ⟨hnew, honce⟩ := honce
    have hreplay : replay Function.update mem (log ++ [(address, f (mem address))]) =
        Function.update (replay Function.update mem log) address (f (mem address)) :=
      replay_append ..
    rw [buffered, atomic, hread hsame, hlog _ hnew, Option.getD_none, ← hreplay]
    exact ih (first_concat_of_notMem _ hlog) (first_eq_last_concat _ hsame (hlog _ hnew)) honce
  | peek address next ih =>
    rw [buffered, atomic, hread hsame, hlog _ honce.1, Option.getD_none]
    exact ih _ hlog hsame (honce.2 _)

/-- **Blocks that write no address twice act on the memory at once.** -/
theorem solo_eq_atomic {block : AtomicBlock α β ρ} (mem : α → β) (honce : block.WritesOnce []) :
    block.solo mem = block.atomic mem :=
  buffered_eq_atomic (fun _ _ => rfl) (fun _ => rfl) honce

end AtomicBlock

/-! ### Threads -/

/-- What a thread in a state of `σ` runs next, given an input, and what it makes of the result. -/
structure Program (σ ι α β ρ : Type*) where
  next : σ → ι → Option (AtomicBlock α β ρ)
  resume : σ → ι → ρ → σ

/-- The memory and the threads. -/
structure AtomicState (σ α β : Type*) where
  mem : α → β
  thread : Nat → σ

variable {σ ι α β ρ : Type*} [DecidableEq α]

/-- Thread `e.1` runs its next block on the input `e.2`. -/
def atomicStep (program : Program σ ι α β ρ) (s : AtomicState σ α β) (e : Nat × ι) :
    Option (AtomicState σ α β) :=
  (program.next (s.thread e.1) e.2).map fun block =>
    let run := block.solo s.mem
    ⟨run.2, Function.update s.thread e.1 (program.resume (s.thread e.1) e.2 run.1)⟩

theorem atomicStep_eq_some {program : Program σ ι α β ρ} {s s' : AtomicState σ α β} {e : Nat × ι}
    (h : atomicStep program s e = some s') : ∃ block,
      program.next (s.thread e.1) e.2 = some block ∧ s'.mem = (block.solo s.mem).2 ∧
      s'.thread = Function.update s.thread e.1
        (program.resume (s.thread e.1) e.2 (block.solo s.mem).1) := by
  obtain ⟨block, hnext, rfl⟩ := Option.map_eq_some_iff.mp h
  exact ⟨block, hnext, rfl, rfl⟩

end AtomicBlocks
