import Mathlib.Data.Bool.Basic
import Mathlib.Logic.Function.Basic

/-!
# Reader-writer lock maps

A lock map gives every resource an optional writer and a set of readers.  The
three operations are the release of everything an owner holds and the two
acquisitions, which never fail: whether an acquisition is allowed is the
business of the caller.  `Exclusive` is mutual exclusion, and the rules below
say when an acquisition keeps it.

What is left after the release of several owners depends on who they are and not on the order, so
that a list of victims serves as a set.  What an owner holds after an operation is given by one
equivalence for each, which is what the proofs about systems rewrite with.
-/

/-- Locks held by owners of type `ν` on resources of type `α`. -/
@[ext]
structure LockMap (α ν : Type*) where
  writer : α → Option ν
  reader : α → ν → Bool

namespace LockMap

variable {α ν : Type*}

def empty : LockMap α ν := ⟨fun _ => none, fun _ _ => false⟩

@[simp] theorem writer_empty (a : α) : (empty : LockMap α ν).writer a = none := rfl

@[simp] theorem reader_empty (a : α) (n : ν) : (empty : LockMap α ν).reader a n = false := rfl

/-- A writer excludes every reader but itself.  There is at most one writer by
the type of the map. -/
def Exclusive (m : LockMap α ν) : Prop :=
  ∀ a w n, m.writer a = some w → m.reader a n = true → n = w

/-- The owner holds a lock on the resource. -/
def Holds (m : LockMap α ν) (a : α) (n : ν) : Prop :=
  m.writer a = some n ∨ m.reader a n = true

theorem exclusive_empty : Exclusive (empty : LockMap α ν) := by
  intro a w n hw
  simp at hw

section Release

variable [DecidableEq ν]

/-- Drop every lock of one owner. -/
def release (m : LockMap α ν) (n : ν) : LockMap α ν where
  writer a := if m.writer a = some n then none else m.writer a
  reader a k := decide (k ≠ n) && m.reader a k

/-- Drop every lock of several owners, one after the other. -/
def releaseAll (m : LockMap α ν) (vs : List ν) : LockMap α ν := vs.foldl release m

@[simp] theorem releaseAll_nil (m : LockMap α ν) : m.releaseAll [] = m := rfl

@[simp] theorem releaseAll_cons (m : LockMap α ν) (v : ν) (vs : List ν) :
    m.releaseAll (v :: vs) = (m.release v).releaseAll vs := rfl

theorem writer_release_eq_some {m : LockMap α ν} {n w : ν} {a : α} :
    (m.release n).writer a = some w ↔ m.writer a = some w ∧ w ≠ n := by
  unfold release
  by_cases h : m.writer a = some n
  · simp only [h, if_true]
    constructor
    · intro hnone
      simp at hnone
    · rintro ⟨hw, hwn⟩
      exact absurd (Option.some.inj hw).symm hwn
  · simp only [if_neg h]
    constructor
    · intro hw
      exact ⟨hw, fun hwn => h (hwn ▸ hw)⟩
    · exact And.left

theorem reader_release_eq_true {m : LockMap α ν} {n k : ν} {a : α} :
    (m.release n).reader a k = true ↔ m.reader a k = true ∧ k ≠ n := by
  simp [release, and_comm]

theorem writer_releaseAll_eq_some {m : LockMap α ν} {vs : List ν} {w : ν} {a : α} :
    (m.releaseAll vs).writer a = some w ↔ m.writer a = some w ∧ w ∉ vs := by
  induction vs generalizing m with
  | nil => simp
  | cons v vs ih =>
    rw [releaseAll_cons, ih, writer_release_eq_some, List.mem_cons, not_or, and_assoc]

theorem reader_releaseAll_eq_true {m : LockMap α ν} {vs : List ν} {k : ν} {a : α} :
    (m.releaseAll vs).reader a k = true ↔ m.reader a k = true ∧ k ∉ vs := by
  induction vs generalizing m with
  | nil => simp
  | cons v vs ih =>
    rw [releaseAll_cons, ih, reader_release_eq_true, List.mem_cons, not_or, and_assoc]

/-- The owner itself holds nothing any more, and nobody else lost a lock. -/
theorem holds_release {m : LockMap α ν} {n k : ν} {a : α} :
    (m.release n).Holds a k ↔ m.Holds a k ∧ k ≠ n := by
  unfold Holds
  rw [writer_release_eq_some, reader_release_eq_true, or_and_right]

theorem holds_releaseAll {m : LockMap α ν} {vs : List ν} {k : ν} {a : α} :
    (m.releaseAll vs).Holds a k ↔ m.Holds a k ∧ k ∉ vs := by
  unfold Holds
  rw [writer_releaseAll_eq_some, reader_releaseAll_eq_true, or_and_right]

theorem Exclusive.release {m : LockMap α ν} (h : m.Exclusive) (n : ν) :
    (m.release n).Exclusive := by
  intro a w k hw hk
  exact h a w k (writer_release_eq_some.mp hw).1 (reader_release_eq_true.mp hk).1

theorem Exclusive.releaseAll {m : LockMap α ν} (h : m.Exclusive) (vs : List ν) :
    (m.releaseAll vs).Exclusive := by
  intro a w k hw hk
  exact h a w k (writer_releaseAll_eq_some.mp hw).1 (reader_releaseAll_eq_true.mp hk).1

end Release

section Acquire

variable [DecidableEq α] [DecidableEq ν]

def acquireRead (m : LockMap α ν) (a : α) (n : ν) : LockMap α ν where
  writer := m.writer
  reader b k := (decide (b = a) && decide (k = n)) || m.reader b k

def acquireWrite (m : LockMap α ν) (a : α) (n : ν) : LockMap α ν where
  writer b := if b = a then some n else m.writer b
  reader := m.reader

@[simp] theorem writer_acquireRead (m : LockMap α ν) (a b : α) (n : ν) :
    (m.acquireRead a n).writer b = m.writer b := rfl

theorem reader_acquireRead_eq_true {m : LockMap α ν} {a b : α} {n k : ν} :
    (m.acquireRead a n).reader b k = true ↔ (b = a ∧ k = n) ∨ m.reader b k = true := by
  simp [acquireRead]

omit [DecidableEq ν] in
@[simp] theorem reader_acquireWrite (m : LockMap α ν) (a b : α) (n k : ν) :
    (m.acquireWrite a n).reader b k = m.reader b k := rfl

omit [DecidableEq ν] in
theorem writer_acquireWrite (m : LockMap α ν) (a b : α) (n : ν) :
    (m.acquireWrite a n).writer b = if b = a then some n else m.writer b := rfl

/-- Reading is safe where nobody else writes. -/
theorem Exclusive.acquireRead {m : LockMap α ν} (h : m.Exclusive) {a : α} {n : ν}
    (hfree : ∀ w, m.writer a = some w → w = n) : (m.acquireRead a n).Exclusive := by
  intro b w k hw hk
  rcases reader_acquireRead_eq_true.mp hk with ⟨rfl, rfl⟩ | hk
  · exact (hfree w hw).symm
  · exact h b w k hw hk

omit [DecidableEq ν] in
/-- Writing is safe where nobody else reads. -/
theorem Exclusive.acquireWrite {m : LockMap α ν} (h : m.Exclusive) {a : α} {n : ν}
    (hfree : ∀ k, m.reader a k = true → k = n) : (m.acquireWrite a n).Exclusive := by
  intro b w k hw hk
  rw [writer_acquireWrite] at hw
  by_cases hba : b = a
  · subst hba
    rw [if_pos rfl] at hw
    rw [← Option.some.inj hw]
    exact hfree k hk
  · rw [if_neg hba] at hw
    exact h b w k hw hk

theorem holds_acquireRead {m : LockMap α ν} {a b : α} {n k : ν} :
    (m.acquireRead a n).Holds b k ↔ (b = a ∧ k = n) ∨ m.Holds b k := by
  unfold Holds
  rw [reader_acquireRead_eq_true, writer_acquireRead]
  exact or_left_comm

end Acquire

end LockMap
