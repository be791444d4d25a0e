import Mathlib.Logic.Basic

/-!
# Labelled transition relations and their finite runs

A transition relation `R : σ → ε → σ → Prop` relates a state, an event and a
next state.  `Exec R s es t` says that the events `es`, taken in order, lead
from `s` to `t`.  The rules below are the only inductions over runs that the
developments built on them need: an invariant of every step is an invariant of
every run, also when the steps are restricted by a guard.
-/

namespace Transition

variable {σ ε : Type*}

/-- `Exec R s es t`: the events `es` lead from `s` to `t`. -/
inductive Exec (R : σ → ε → σ → Prop) : σ → List ε → σ → Prop
  | nil (s : σ) : Exec R s [] s
  | cons {s t u : σ} {e : ε} {es : List ε} :
      R s e t → Exec R t es u → Exec R s (e :: es) u

/-- The steps of `R` taken in states where the guard `C` allows the event. -/
def restrict (C : σ → ε → Prop) (R : σ → ε → σ → Prop) : σ → ε → σ → Prop :=
  fun s e t => C s e ∧ R s e t

/-- The graph of a total step function. -/
def graph (f : σ → ε → σ) : σ → ε → σ → Prop := fun s e t => f s e = t

/-- The graph of a step function that rejects the events its state does not enable. -/
def partialGraph (f : σ → ε → Option σ) : σ → ε → σ → Prop := fun s e t => f s e = some t

/-- A step function that also rejects the events that the guard does not allow. -/
def guarded (C : σ → ε → Prop) [∀ s e, Decidable (C s e)] (f : σ → ε → Option σ) :
    σ → ε → Option σ :=
  fun s e => if C s e then f s e else none

section Runs

variable {R : σ → ε → σ → Prop} {s t u : σ} {es fs : List ε}

@[simp] theorem exec_nil_iff : Exec R s [] t ↔ s = t := by
  constructor
  · intro h
    cases h
    rfl
  · rintro rfl
    exact Exec.nil s

@[simp] theorem exec_cons_iff {e : ε} :
    Exec R s (e :: es) u ↔ ∃ t, R s e t ∧ Exec R t es u := by
  constructor
  · intro h
    cases h with
    | cons hstep hrest => exact ⟨_, hstep, hrest⟩
  · rintro ⟨t, hstep, hrest⟩
    exact Exec.cons hstep hrest

theorem Exec.append (hexec : Exec R s es t) (hexec' : Exec R t fs u) : Exec R s (es ++ fs) u := by
  induction hexec with
  | nil s => exact hexec'
  | cons h _ ih => exact Exec.cons h (ih hexec')

/-- **Invariant rule.**  What every step preserves, every run preserves. -/
theorem Exec.invariant (I : σ → Prop) (hstep : ∀ s e t, I s → R s e t → I t)
    (hexec : Exec R s es t) (hs : I s) : I t := by
  induction hexec with
  | nil s => exact hs
  | cons h _ ih => exact ih (hstep _ _ _ hs h)

/-- The invariant rule for a relation between the first and the current state. -/
theorem Exec.relation (P : σ → σ → Prop) (hrefl : ∀ s, P s s)
    (htrans : ∀ s t u, P s t → P t u → P s u) (hstep : ∀ s e t, R s e t → P s t)
    (hexec : Exec R s es t) : P s t := by
  induction hexec with
  | nil s => exact hrefl s
  | cons h _ ih => exact htrans _ _ _ (hstep _ _ _ h) ih

theorem Exec.mono {R' : σ → ε → σ → Prop} (hexec : Exec R s es t)
    (h : ∀ s e t, R s e t → R' s e t) : Exec R' s es t := by
  induction hexec with
  | nil s => exact Exec.nil s
  | cons hstep _ ih => exact Exec.cons (h _ _ _ hstep) ih

/-- A run of guarded steps is a run. -/
theorem Exec.of_restrict {C : σ → ε → Prop} (hexec : Exec (restrict C R) s es t) :
    Exec R s es t :=
  hexec.mono fun _ _ _ h => h.2

/-- **Simulation.**  When every step is matched by a step between the images of
its states or leaves the image alone, so is every run. -/
theorem Exec.simulation {τ ι : Type*} {Q : τ → ι → τ → Prop} (f : σ → τ)
    (hstep : ∀ s e t, R s e t → f t = f s ∨ ∃ i, Q (f s) i (f t)) (hexec : Exec R s es t) :
    ∃ is, Exec Q (f s) is (f t) := by
  induction hexec with
  | nil s => exact ⟨[], Exec.nil (f s)⟩
  | cons h _ ih =>
    obtain ⟨is, his⟩ := ih
    obtain heq | ⟨i, hi⟩ := hstep _ _ _ h
    · exact ⟨is, heq ▸ his⟩
    · exact ⟨i :: is, Exec.cons hi his⟩

/-- **Simulation with labels.**  The steps that match are those of the events with a label, in
their order; the invariant `I` may help. -/
theorem Exec.simulation_labels {τ ι κ : Type*} {Q : τ → ι → τ → Prop} {I : σ → Prop} (f : σ → τ)
    (label : ε → Option κ) (name : ι → κ) (hI : ∀ s e t, I s → R s e t → I t)
    (hstep : ∀ s e t, I s → R s e t → (label e = none ∧ f t = f s) ∨
      ∃ i, label e = some (name i) ∧ Q (f s) i (f t))
    (hexec : Exec R s es t) (hs : I s) :
    ∃ is, Exec Q (f s) is (f t) ∧ is.map name = es.filterMap label := by
  induction hexec with
  | nil s => exact ⟨[], Exec.nil (f s), rfl⟩
  | @cons s t u e es h _ ih =>
    obtain ⟨is, his, hnames⟩ := ih (hI _ _ _ hs h)
    obtain ⟨hnone, heq⟩ | ⟨i, hsome, hi⟩ := hstep _ _ _ hs h
    · refine ⟨is, heq ▸ his, ?_⟩
      rw [List.filterMap_cons_none hnone, hnames]
    · refine ⟨i :: is, Exec.cons hi his, ?_⟩
      rw [List.filterMap_cons_some hsome, List.map_cons, hnames]

/-- **Ranking rule.**  Where every step lowers the rank, a run is no longer than its first rank,
and what keeps the system from stopping short of a goal leads there. -/
theorem Exec.length_le_of_rank {I : σ → Prop} {rank : σ → Nat → Prop}
    (hI : ∀ s e t, I s → R s e t → I t)
    (hrank : ∀ s e t n, I s → rank s n → R s e t → ∃ m, m < n ∧ rank t m)
    (hexec : Exec R s es t) (hs : I s) {n : Nat} (hn : rank s n) : es.length ≤ n := by
  induction hexec generalizing n with
  | nil s => exact Nat.zero_le n
  | cons h _ ih =>
    obtain ⟨m, hm, hrest⟩ := hrank _ _ _ _ hs hn h
    exact Nat.lt_of_le_of_lt (ih (hI _ _ _ hs h) hrest) hm

theorem exists_exec_of_rank {I G : σ → Prop} {rank : σ → Nat → Prop}
    (hI : ∀ s e t, I s → R s e t → I t)
    (hrank : ∀ s e t n, I s → rank s n → R s e t → ∃ m, m < n ∧ rank t m)
    (hgo : ∀ s, I s → G s ∨ ∃ e t, R s e t) {s : σ} (hs : I s) {n : Nat} (hn : rank s n) :
    ∃ es t, Exec R s es t ∧ G t := by
  induction n using Nat.strongRecOn generalizing s with
  | ind n ih =>
    obtain hgoal | ⟨e, t, hstep⟩ := hgo s hs
    · exact ⟨[], s, Exec.nil s, hgoal⟩
    · obtain ⟨m, hm, ht⟩ := hrank _ _ _ _ hs hn hstep
      obtain ⟨es, u, hexec, hgoal⟩ := ih m hm (hI _ _ _ hs hstep) ht
      exact ⟨e :: es, u, Exec.cons hstep hexec, hgoal⟩

/-- What the end of a run says about its states guards every step: `I` is kept
forwards and `B`, where `I` holds, backwards. -/
theorem Exec.restrict_of_backward {I B : σ → Prop} {C : σ → ε → Prop}
    (hI : ∀ s e t, I s → R s e t → I t) (hB : ∀ s e t, I s → R s e t → B t → B s)
    (hC : ∀ s e t, I s → B s → R s e t → C s e) (hexec : Exec R s es t) (hs : I s) (ht : B t) :
    B s ∧ Exec (restrict C R) s es t := by
  induction hexec with
  | nil s => exact ⟨ht, Exec.nil s⟩
  | cons hstep _ ih =>
    obtain ⟨hmid, hrest⟩ := ih (hI _ _ _ hs hstep) ht
    have hfirst := hB _ _ _ hs hstep hmid
    exact ⟨hfirst, Exec.cons ⟨hC _ _ _ hs hfirst hstep, hstep⟩ hrest⟩

/-- A run whose events all satisfy `C` is a run of the steps `C` guards. -/
theorem Exec.restrict_of_forall {C : ε → Prop} (hexec : Exec R s es t)
    (hall : ∀ e ∈ es, C e) : Exec (restrict (fun _ e => C e) R) s es t := by
  induction hexec with
  | nil s => exact Exec.nil s
  | cons h _ ih =>
    exact Exec.cons ⟨hall _ List.mem_cons_self, h⟩
      (ih fun e he => hall e (List.mem_cons_of_mem _ he))

/-- A total step function runs through every list of events. -/
theorem exec_graph_foldl (f : σ → ε → σ) (s : σ) (es : List ε) :
    Exec (graph f) s es (es.foldl f s) := by
  induction es generalizing s with
  | nil => exact Exec.nil s
  | cons e es ih => exact Exec.cons rfl (ih (f s e))

/-- What holds of the states after every prefix of the events guards every step. -/
theorem Exec.restrict_of_prefixes {C : σ → ε → Prop} {f : σ → ε → σ} {P : σ → Prop}
    (hexec : Exec (restrict C (graph f)) s es t) (hP : ∀ fs, fs <+: es → P (fs.foldl f s)) :
    Exec (restrict (fun s e => C s e ∧ P (f s e)) (graph f)) s es t := by
  induction hexec with
  | nil s => exact Exec.nil s
  | @cons s t u e es hstep _ ih =>
    obtain ⟨hguard, rfl⟩ := hstep
    refine Exec.cons ⟨⟨hguard, hP [e] ⟨es, rfl⟩⟩, rfl⟩ (ih ?_)
    intro fs hfs
    exact hP (e :: fs) (List.cons_prefix_cons.mpr ⟨rfl, hfs⟩)

/-- A partial step function runs through the events it accepts. -/
theorem exec_partialGraph_iff {f : σ → ε → Option σ} :
    Exec (partialGraph f) s es t ↔ es.foldlM f s = some t := by
  induction es generalizing s with
  | nil => simp
  | cons e es ih =>
    rw [exec_cons_iff, List.foldlM_cons, Option.bind_eq_bind, Option.bind_eq_some_iff]
    simp only [ih, partialGraph]

/-- A guarded step function runs through the events that the guard and the step accept. -/
theorem exec_guarded_iff {C : σ → ε → Prop} [∀ s e, Decidable (C s e)] {f : σ → ε → Option σ} :
    Exec (restrict C (partialGraph f)) s es t ↔ es.foldlM (guarded C f) s = some t := by
  rw [← exec_partialGraph_iff]
  constructor
  · intro hexec
    exact hexec.mono fun s e t h => (if_pos h.1).trans h.2
  · intro hexec
    exact hexec.mono fun s e t h => Option.ite_none_right_eq_some.mp h

/-- **First failures.**  Where a step from a state with `P` leads to a state with `P` just
when the guard allows it, `P` holds in all states of a run just when the run is guarded. -/
theorem Exec.forall_prefix_iff {f : σ → ε → Option σ} {C : σ → ε → Prop} {I P : σ → Prop}
    (hI : ∀ s e t, I s → f s e = some t → I t)
    (hstep : ∀ s e t, I s → P s → f s e = some t → (P t ↔ C s e))
    (hexec : Exec (partialGraph f) s es t) (hs : I s) (hP : P s) :
    (∀ fs u, fs <+: es → Exec (partialGraph f) s fs u → P u) ↔
      Exec (restrict C (partialGraph f)) s es t := by
  induction hexec with
  | nil s =>
    refine iff_of_true ?_ (Exec.nil s)
    intro fs u hfs hexec
    rw [List.prefix_nil.mp hfs, exec_nil_iff] at hexec
    exact hexec ▸ hP
  | @cons s t u e es hfirst hrest ih =>
    constructor
    · intro hall
      have hone : [e] <+: e :: es := ⟨es, rfl⟩
      have ht : P t := hall [e] t hone (Exec.cons hfirst (Exec.nil t))
      refine Exec.cons ⟨(hstep s e t hs hP hfirst).mp ht, hfirst⟩
        ((ih (hI s e t hs hfirst) ht).mp ?_)
      intro fs v hfs hexec
      exact hall (e :: fs) v (List.cons_prefix_cons.mpr ⟨rfl, hfs⟩) (Exec.cons hfirst hexec)
    · intro hguarded fs v hfs hexec
      obtain ⟨t', ⟨hguard, hfirst'⟩, hguarded'⟩ := exec_cons_iff.mp hguarded
      obtain rfl := Option.some.inj (Eq.trans (Eq.symm hfirst) hfirst')
      have ht := (hstep s e t hs hP hfirst).mpr hguard
      cases fs with
      | nil => exact exec_nil_iff.mp hexec ▸ hP
      | cons e' fs =>
        obtain ⟨rfl, hfs'⟩ := List.cons_prefix_cons.mp hfs
        obtain ⟨t', hfirst'', hexec'⟩ := exec_cons_iff.mp hexec
        obtain rfl := Option.some.inj (Eq.trans (Eq.symm hfirst) hfirst'')
        exact (ih (hI s e' t hs hfirst) ht).mpr hguarded' fs v hfs' hexec'

end Runs

end Transition
