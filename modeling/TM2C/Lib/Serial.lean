import Mathlib.Data.List.Perm.Basic

/-!
# Serial histories

A transaction is whatever has a state that it may have seen and a state that it leaves.
`Valid ok leave s ts` says that the transactions `ts`, one after the other from the state
`s`, each saw the state left by those before it; `Serialisable` asks for an order in
which that is so.  A history that grows at its end stays valid when the new transaction
agrees with the state that the others leave.

The state may be anything, and so may a transaction: words, bytes, or a list of requests with the
values that they returned.  What a system has to show is only that a committed transaction saw
what the earlier ones left, at the moment at which it takes its place in the order.
-/

namespace Serial

variable {σ τ : Type*} (ok : σ → τ → Prop) (leave : σ → τ → σ)

/-- The state after the transactions. -/
def after (s : σ) (ts : List τ) : σ := ts.foldl leave s

def Valid (s : σ) : List τ → Prop
  | [] => True
  | t :: ts => ok s t ∧ Valid (leave s t) ts

def Serialisable (s : σ) (ts : List τ) : Prop :=
  ∃ order : List τ, order.Perm ts ∧ Valid ok leave s order

@[simp] theorem after_concat (s : σ) (ts : List τ) (t : τ) :
    after leave s (ts ++ [t]) = leave (after leave s ts) t := List.foldl_concat ..

theorem valid_append {s : σ} {ts us : List τ} :
    Valid ok leave s (ts ++ us) ↔ Valid ok leave s ts ∧ Valid ok leave (after leave s ts) us := by
  induction ts generalizing s with
  | nil => exact (and_iff_right trivial).symm
  | cons t ts ih =>
    rw [List.cons_append, Valid, Valid, ih, and_assoc]
    rfl

/-- **The history grows at its end.** -/
theorem valid_concat {s : σ} {ts : List τ} {t : τ} :
    Valid ok leave s (ts ++ [t]) ↔ Valid ok leave s ts ∧ ok (after leave s ts) t := by
  rw [valid_append]
  exact and_congr_right fun _ => and_iff_left trivial

theorem Valid.serialisable {s : σ} {ts : List τ} (h : Valid ok leave s ts) :
    Serialisable ok leave s ts := ⟨ts, List.Perm.refl ts, h⟩

/-- Of two transactions one goes first. -/
theorem Serialisable.pair {s : σ} {t u : τ} (h : Serialisable ok leave s [t, u]) :
    (ok s t ∧ ok (leave s t) u) ∨ (ok s u ∧ ok (leave s u) t) := by
  obtain ⟨order, hperm, hvalid⟩ := h
  have hlength := hperm.length_eq
  match order with
  | [x, y] =>
    obtain ⟨hx, hy, -⟩ := hvalid
    have hmem : x ∈ [t, u] := hperm.subset List.mem_cons_self
    rw [List.mem_cons, List.mem_singleton] at hmem
    rcases hmem with rfl | rfl
    · obtain rfl := List.singleton_perm_singleton.mp ((List.perm_cons x).mp hperm)
      exact Or.inl ⟨hx, hy⟩
    · have hswap : [x, y].Perm [x, t] := hperm.trans (List.Perm.swap x t [])
      obtain rfl := List.singleton_perm_singleton.mp ((List.perm_cons x).mp hswap)
      exact Or.inr ⟨hx, hy⟩
  | [] => cases hlength
  | [_] => cases hlength
  | _ :: _ :: _ :: _ => cases hlength

end Serial
