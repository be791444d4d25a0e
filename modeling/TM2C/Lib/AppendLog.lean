import Mathlib.Data.List.Induction

/-!
# Append-only logs of bindings

A log of bindings can be read in two ways, from its oldest entry (`first`) or
from its newest one (`last`), and it can be replayed onto a memory, oldest entry
first.  Replaying a log makes its newest bindings visible (`get_replay`), so a
reader of the log agrees with the replay exactly where the reading order does
not matter.  A log that overwrites its bindings in place instead of appending
(`assign`) is replayed to the same memory when writes to different keys commute
(`replay_assignAll`).
-/

namespace AppendLog

variable {κ ν μ : Type*}

/-- Apply the bindings of the log, oldest first. -/
def replay (put : μ → κ → ν → μ) (m : μ) (log : List (κ × ν)) : μ :=
  log.foldl (fun m e => put m e.1 e.2) m

@[simp] theorem replay_nil (put : μ → κ → ν → μ) (m : μ) : replay put m [] = m := rfl

theorem replay_append (put : μ → κ → ν → μ) (m : μ) (log log' : List (κ × ν)) :
    replay put m (log ++ log') = replay put (replay put m log) log' := by
  simp [replay]

variable [DecidableEq κ]

/-- The oldest binding of `k`. -/
def first (log : List (κ × ν)) (k : κ) : Option ν :=
  (log.find? fun e => decide (e.1 = k)).map Prod.snd

/-- The newest binding of `k`. -/
def last (log : List (κ × ν)) (k : κ) : Option ν := first log.reverse k

@[simp] theorem first_nil (k : κ) : first ([] : List (κ × ν)) k = none := rfl

@[simp] theorem last_nil (k : κ) : last ([] : List (κ × ν)) k = none := rfl

theorem first_append (log log' : List (κ × ν)) (k : κ) :
    first (log ++ log') k = (first log k).or (first log' k) := by
  unfold first
  rw [List.find?_append]
  cases log.find? (fun e => decide (e.1 = k)) <;> rfl

theorem last_append (log log' : List (κ × ν)) (k : κ) :
    last (log ++ log') k = (last log' k).or (last log k) := by
  unfold last
  rw [List.reverse_append, first_append]

@[simp] theorem first_singleton (e : κ × ν) (k : κ) :
    first [e] k = if e.1 = k then some e.2 else none := by
  unfold first
  by_cases h : e.1 = k <;> simp [h]

@[simp] theorem last_singleton (e : κ × ν) (k : κ) :
    last [e] k = if e.1 = k then some e.2 else none := first_singleton e k

theorem first_eq_none_iff {log : List (κ × ν)} {k : κ} :
    first log k = none ↔ ∀ e ∈ log, e.1 ≠ k := by
  simp [first]

theorem last_eq_none_iff {log : List (κ × ν)} {k : κ} :
    last log k = none ↔ ∀ e ∈ log, e.1 ≠ k := by
  simp [last, first_eq_none_iff]

/-- A key is bound read from the one end exactly when it is read from the other. -/
theorem first_eq_none_iff_last {log : List (κ × ν)} {k : κ} :
    first log k = none ↔ last log k = none := by
  rw [first_eq_none_iff, last_eq_none_iff]

theorem mem_keys_of_last {log : List (κ × ν)} {k : κ} {v : ν} (h : last log k = some v) :
    k ∈ log.map Prod.fst := by
  by_contra hnot
  have hnone : last log k = none := by
    rw [last_eq_none_iff]
    intro e he heq
    exact hnot (List.mem_map.mpr ⟨e, he, heq⟩)
  rw [hnone] at h
  simp at h

/-- A log reads the same from both ends once its newest bindings are also its
oldest ones. -/
theorem first_eq_last_iff {log : List (κ × ν)} :
    (∀ k, first log k = last log k) ↔ ∀ k v, first log k = some v → last log k = some v := by
  constructor
  · intro h k v hfirst
    rw [← h k, hfirst]
  · intro h k
    cases hfirst : first log k with
    | none => rw [first_eq_none_iff_last.mp hfirst]
    | some v => rw [h k v hfirst]

/-- Replaying a log leaves at `k` its newest binding, and what was there before
when it has none.  The other keys of the log must not touch `k`. -/
theorem get_replay (put : μ → κ → ν → μ) (get : μ → κ → ν)
    (hsame : ∀ m k v, get (put m k v) k = v) {k : κ} {log : List (κ × ν)}
    (hapart : ∀ e ∈ log, e.1 ≠ k → ∀ m, get (put m e.1 e.2) k = get m k) (m : μ) :
    get (replay put m log) k = (last log k).getD (get m k) := by
  induction log using List.reverseRecOn with
  | nil => rfl
  | append_singleton log e ih =>
    have hlog : ∀ x ∈ log, x.1 ≠ k → ∀ m, get (put m x.1 x.2) k = get m k :=
      fun x hx => hapart x (List.mem_append_left _ hx)
    rw [replay_append, last_append, last_singleton]
    by_cases he : e.1 = k
    · subst he
      simp [replay, hsame]
    · have hput := hapart e (by simp) he (replay put m log)
      simp only [replay, List.foldl_cons, List.foldl_nil, if_neg he, Option.none_or]
      exact hput.trans (ih hlog)

/-! ### Overwriting in place -/

/-- Overwrite the oldest binding of `k`, or append one. -/
def assign : List (κ × ν) → κ → ν → List (κ × ν)
  | [], k, v => [(k, v)]
  | e :: log, k, v => if e.1 = k then (k, v) :: log else e :: assign log k v

/-- The log that assigning the bindings one after the other leaves. -/
def assignAll (log : List (κ × ν)) : List (κ × ν) :=
  log.foldl (fun log e => assign log e.1 e.2) []

theorem assign_of_notMem {log : List (κ × ν)} {k : κ} (h : k ∉ log.map Prod.fst) (v : ν) :
    assign log k v = log ++ [(k, v)] := by
  induction log with
  | nil => rfl
  | cons e log ih =>
    rw [List.map_cons, List.mem_cons, not_or] at h
    rw [assign, if_neg (Ne.symm h.1), ih h.2]
    rfl

theorem keys_assign_of_mem {log : List (κ × ν)} {k : κ} (h : k ∈ log.map Prod.fst) (v : ν) :
    (assign log k v).map Prod.fst = log.map Prod.fst := by
  induction log with
  | nil => cases h
  | cons e log ih =>
    by_cases he : e.1 = k
    · rw [assign, if_pos he, List.map_cons, List.map_cons, he]
    · have hmem := (List.mem_cons.mp h).resolve_left (Ne.symm he)
      rw [assign, if_neg he, List.map_cons, ih hmem, List.map_cons]

theorem assignAll_concat (log : List (κ × ν)) (e : κ × ν) :
    assignAll (log ++ [e]) = assign (assignAll log) e.1 e.2 := by
  unfold assignAll
  rw [List.foldl_append]
  rfl

/-- The keys are bound in the order of their first occurrences. -/
theorem keys_assignAll (log : List (κ × ν)) :
    (assignAll log).map Prod.fst = (log.map Prod.fst).eraseDups := by
  induction log using List.reverseRecOn with
  | nil => rfl
  | append_singleton log e ih =>
    rw [assignAll_concat, List.map_append, List.eraseDups_append]
    by_cases hmem : e.1 ∈ log.map Prod.fst
    · have hbound : e.1 ∈ (assignAll log).map Prod.fst := by
        rw [ih]
        exact List.mem_eraseDups.mpr hmem
      have hnone : ([e].map Prod.fst).removeAll (log.map Prod.fst) = [] := by
        simp [List.removeAll, hmem]
      rw [keys_assign_of_mem hbound, ih, hnone, List.eraseDups_nil, List.append_nil]
    · have hbound : e.1 ∉ (assignAll log).map Prod.fst := by
        rw [ih]
        exact fun h => hmem (List.mem_eraseDups.mp h)
      have hone : ([e].map Prod.fst).removeAll (log.map Prod.fst) = [e.1] := by
        simp [List.removeAll, hmem]
      rw [assign_of_notMem hbound, List.map_append, ih, hone]
      rfl

theorem nodup_keys_assignAll (log : List (κ × ν)) : ((assignAll log).map Prod.fst).Nodup := by
  induction log using List.reverseRecOn with
  | nil => exact List.nodup_nil
  | append_singleton log e ih =>
    rw [assignAll_concat]
    by_cases hmem : e.1 ∈ (assignAll log).map Prod.fst
    · rw [keys_assign_of_mem hmem]
      exact ih
    · rw [assign_of_notMem hmem, List.map_append]
      refine List.nodup_append.mpr ⟨ih, List.pairwise_singleton _ _, ?_⟩
      intro k hk k' hk'
      obtain rfl := List.mem_singleton.mp hk'
      rintro rfl
      exact hmem hk

theorem length_assignAll_le (log : List (κ × ν)) : (assignAll log).length ≤ log.length := by
  induction log using List.reverseRecOn with
  | nil => exact Nat.le_refl 0
  | append_singleton log e ih =>
    have hstep : (assign (assignAll log) e.1 e.2).length ≤ (assignAll log).length + 1 := by
      by_cases hmem : e.1 ∈ (assignAll log).map Prod.fst
      · have hkeys := congrArg List.length (keys_assign_of_mem hmem e.2)
        rw [List.length_map, List.length_map] at hkeys
        omega
      · rw [assign_of_notMem hmem, List.length_append]
        exact Nat.le_refl _
    rw [assignAll_concat, List.length_append]
    exact Nat.le_trans hstep (Nat.succ_le_succ ih)

/-- Writes to different keys of `ks` commute, and the second write to one of them hides the
first. -/
structure Independent (put : μ → κ → ν → μ) (ks : List κ) : Prop where
  comm : ∀ k ∈ ks, ∀ k' ∈ ks, k ≠ k' → ∀ m v v',
    put (put m k v) k' v' = put (put m k' v') k v
  overwrite : ∀ k ∈ ks, ∀ m v v', put (put m k v) k v' = put m k v'

section Replay

variable {put : μ → κ → ν → μ} {ks : List κ} {log : List (κ × ν)} {k : κ}

omit [DecidableEq κ] in
/-- A write can be made before the others instead of after them. -/
theorem replay_put (hput : Independent put ks) (hk : k ∈ ks) (hlog : ∀ e ∈ log, e.1 ∈ ks)
    (hne : k ∉ log.map Prod.fst) (m : μ) (v : ν) :
    replay put (put m k v) log = put (replay put m log) k v := by
  induction log generalizing m with
  | nil => rfl
  | cons e log ih =>
    obtain ⟨he, hlog⟩ := List.forall_mem_cons.mp hlog
    rw [List.map_cons, List.mem_cons, not_or] at hne
    have hcomm : put (put m k v) e.1 e.2 = put (put m e.1 e.2) k v :=
      hput.comm k hk e.1 he hne.1 m v e.2
    calc replay put (put m k v) (e :: log)
        = replay put (put (put m e.1 e.2) k v) log := congrArg (replay put · log) hcomm
      _ = put (replay put (put m e.1 e.2) log) k v := ih hlog hne.2 _

/-- An assignment is replayed like a write at the end. -/
theorem replay_assign (hput : Independent put ks) (hk : k ∈ ks) (hlog : ∀ e ∈ log, e.1 ∈ ks)
    (hnodup : (log.map Prod.fst).Nodup) (m : μ) (v : ν) :
    replay put m (assign log k v) = put (replay put m log) k v := by
  induction log generalizing m with
  | nil => rfl
  | cons e log ih =>
    obtain ⟨he, hlog⟩ := List.forall_mem_cons.mp hlog
    rw [List.map_cons, List.nodup_cons] at hnodup
    by_cases hek : e.1 = k
    · subst hek
      rw [assign, if_pos rfl]
      calc replay put (put m e.1 v) log
          = put (replay put m log) e.1 v := replay_put hput hk hlog hnodup.1 m v
        _ = put (put (replay put m log) e.1 e.2) e.1 v := (hput.overwrite e.1 he _ e.2 v).symm
        _ = put (replay put (put m e.1 e.2) log) e.1 v :=
          congrArg (put · e.1 v) (replay_put hput hk hlog hnodup.1 m e.2).symm
    · rw [assign, if_neg hek]
      exact ih hlog hnodup.2 (put m e.1 e.2)

/-- **Overwriting in place is replayed like appending.** -/
theorem replay_assignAll (hput : Independent put (log.map Prod.fst)) (m : μ) :
    replay put m (assignAll log) = replay put m log := by
  have hall : ∀ front, front <+: log →
      replay put m (assignAll front) = replay put m front := by
    intro front
    induction front using List.reverseRecOn with
    | nil => exact fun _ => rfl
    | append_singleton front e ih =>
      intro hcopy
      have hfront : front <+: log := (List.prefix_append front [e]).trans hcopy
      have hkeys : ∀ x ∈ assignAll front, x.1 ∈ log.map Prod.fst := by
        intro x hx
        have hx := List.mem_map_of_mem (f := Prod.fst) hx
        rw [keys_assignAll, List.mem_eraseDups] at hx
        exact (hfront.map Prod.fst).subset hx
      have he : e.1 ∈ log.map Prod.fst :=
        List.mem_map_of_mem (hcopy.subset (List.mem_append_right _ List.mem_cons_self))
      rw [assignAll_concat, replay_assign hput he hkeys (nodup_keys_assignAll front), ih hfront,
        replay_append]
      rfl
  exact hall log List.prefix_rfl

end Replay

end AppendLog
