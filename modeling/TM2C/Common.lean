import Mathlib.Logic.Function.Basic

/-!
# Types and build options shared by application and service nodes

`include/common.h`, `include/tm2c_types.h`, `include/tm2c.h` and the `settings`
file: the conflict codes, the kind of a lock request, the ways to commit, and the
compile-time options that the modelled functions look at.  Node ids (`nodeid_t`) and addresses
(`tm_intern_addr_t`, a machine address or an offset in the PGAS build) are
natural numbers throughout.

The two encodings of an entry of the lock table, `BIT_OPTS` or not, are not part of `Config` but
instances of one class (`RwEntry.lean`), and the platforms are where they differ (`Platform` and
`Platforms.lean`).  `setAt` writes one place of a table with two indices, such as the messages
from a node to a service node.
-/

namespace TM2C

/-- `TM2C_CONFLICT_T`; the last two are states of an abort flag only. -/
inductive Conflict where
  | noConflict
  | readAfterWrite
  | writeAfterRead
  | writeAfterWrite
  | persistingWrites
  | txCommitted
deriving DecidableEq, Repr

/-- `RW`: a read or a write request. -/
inductive RW where
  | read
  | write
deriving DecidableEq, Repr

/-- The commit macros. -/
inductive CommitMacro where
  | txCommit
  | txCommitMem
  | txCommitNoStats
  | txCommitNoPub
  | txCommitNoPubNoStats
deriving DecidableEq, Repr

/-- `CONTENTION_MANAGER` of the settings file.  `greedy` comes with the value of
`GREEDY_GLOBAL_TS`. -/
inductive ContentionManager where
  | nocm
  | backoffRetry
  | wholly
  | greedy (globalTs : Bool)
  | faircm
deriving DecidableEq, Repr

/-- `!defined(NOCM) && !defined(BACKOFF_RETRY)` -/
def ContentionManager.isReal : ContentionManager → Bool
  | .nocm | .backoffRetry => false
  | .wholly | .greedy _ | .faircm => true

/-- The build options. -/
structure Config where
  cm : ContentionManager
  pgas : Bool
  eagerWriteAcq : Bool
  /-- `NUM_UES`, the number of nodes of both kinds -/
  numUes : Nat
deriving DecidableEq, Repr

/-! ### Tables with two indices -/

def setAt {α : Type} (f : Nat → Nat → α) (v d : Nat) (x : α) : Nat → Nat → α :=
  fun w e => if w = v ∧ e = d then x else f w e

theorem setAt_self {α : Type} (f : Nat → Nat → α) (v d : Nat) (x : α) :
    setAt f v d x v = Function.update (f v) d x := by
  funext e
  simp [setAt, Function.update_apply]

theorem setAt_of_ne {α : Type} (f : Nat → Nat → α) {v w : Nat} (hne : w ≠ v) (d : Nat) (x : α) :
    setAt f v d x w = f w := by
  funext e
  simp [setAt, hne]

theorem setAt_column {α : Type} (f : Nat → Nat → α) (v d : Nat) (x : α) :
    (fun w => setAt f v d x w d) = Function.update (fun w => f w d) v x := by
  funext w
  simp [setAt, Function.update_apply]

theorem setAt_column_of_ne {α : Type} (f : Nat → Nat → α) (v : Nat) {d e : Nat} (hne : e ≠ d)
    (x : α) : (fun w => setAt f v d x w e) = fun w => f w e := by
  funext w
  simp [setAt, hne]

end TM2C
