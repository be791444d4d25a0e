import TM2C.SystemInvariant

/-!
# Nobody else writes what a committing transaction accessed

An attempt that is alive holds every lock it was granted, and an attempt that
persists is alive and was granted a write lock for each of its writes.  The
locks exclude each other, so whoever persists a write to an address leaves no
other attempt alive that was granted the address.  An attempt that commits was
alive ever since it started.

The states are those of `System`, where a lock table is a lock map and the `abort_node` of a
service node goes victim by victim.  `Inv` of `SystemInvariant` gives all that is used: that an
attempt that is alive holds what it was granted (`NodeInv`), that the lock maps exclude, and that
the phase `persisting` is only entered with the flag set by the node's own compare-and-swap.

A run is split at the grant.  From there to `set_tx_committed` the attempt is alive in every
state, because it is alive at the end and no step revives an attempt (`alive_of_step`, backwards
along the run).  A write of another node to the address would need a write lock on it, beside a
lock of an attempt that is alive, and `Inv.eq_of_granted` says that the two are the same node.
-/

namespace TM2C

open Transition

namespace System

/-- The next entry that the node persists has the address. -/
def Persists (s : System) (w address : Nat) : Prop :=
  ∃ i we, (s.node w).phase = .persisting i ∧ (s.node w).writeSet.writeEntries[i]? = some we ∧
    we.address = address

/-- If this event persists a write to the address, it is the node's own. -/
def PersistedBy (t address : Nat) (s : System) (e : SystemEvent) : Prop :=
  ∀ w, e = .node w .writeEntryPersist → s.Persists w address → w = t

theorem NodeInv.alive_of_persisting {cl : Cluster} {s : System} {v i : Nat} (h : NodeInv cl s v)
    (hphase : (s.node v).phase = .persisting i) : s.Alive v where
  active := by rw [hphase, Phase.active]
  flag := Or.inr (h.flag.mpr ⟨i, hphase⟩)
  reply := by
    have hquiet := h.link.quiet_of_phase (by simp [hphase])
    exact Or.inl hquiet.reply

theorem NodeInv.granted_of_persists {cl : Cluster} {s : System} {w address : Nat}
    (h : NodeInv cl s w) (hpersists : s.Persists w address) :
    s.Alive w ∧ (address, RW.write) ∈ s.granted w := by
  obtain ⟨i, we, hphase, hwe, rfl⟩ := hpersists
  refine ⟨h.alive_of_persisting hphase, ?_⟩
  have hwrites := h.writes.2
  rw [hphase] at hwrites
  exact hwrites we (List.mem_of_getElem? hwe)

/-- An attempt alive with a write lock is the only one alive that was granted the address. -/
theorem Inv.eq_of_granted {cl : Cluster} {s : System} (h : Inv cl s) {w v address : Nat} {rw : RW}
    (hw : s.Alive w) (hgw : (address, RW.write) ∈ s.granted w) (hv : s.Alive v)
    (hgv : (address, rw) ∈ s.granted v) : w = v := by
  have hwriter := ((h.node w).held hw _ hgw).1
  have hother := ((h.node v).held hv _ hgv).1
  exact eq_of_holdsAs (h.service _).exclusive hwriter hother

/-! ### An attempt that is alive was alive -/

theorem Handles.alive {cl : Cluster} {s s' : System} {d v now : Nat}
    (h : Handles cl s d v now s') (halive : s'.Alive v) : s.Alive v := by
  obtain ⟨hactive, hflag, hreply⟩ := halive
  cases h with
  | release => exact ⟨hactive, hflag, hreply⟩
  | refuse _ _ _ hverdict =>
    simp only [Function.update_self, Option.some.injEq, reduceCtorEq, false_or] at hreply
    exact absurd hreply (refuse_ne_noConflict hverdict)
  | accept => exact ⟨hactive, hflag, hreply⟩

theorem alive_of_step {cl : Cluster} {s s' : System} {e : SystemEvent} {v : Nat} (h : Inv cl s)
    (hstep : s.step cl e = some s') (hstart : ∀ now, e ≠ .node v (.txStart now))
    (halive : s'.Alive v) : s.Alive v ∧ ∀ g ∈ s.granted v, g ∈ s'.granted v := by
  cases e with
  | node u a =>
    have hacts := acts_of_act hstep
    by_cases hu : v = u
    · subst hu
      obtain ⟨⟨now, rfl⟩, -⟩ | ⟨hs, heq⟩ := hacts.alive halive
      · exact absurd rfl (hstart now)
      · exact ⟨hs, fun g hg => heq ▸ hg⟩
    · have hsame := hacts.sameFor hu
      exact ⟨hsame.alive halive, fun g hg => hsame.granted ▸ hg⟩
  | handle d u now =>
    have hhandles := handles_of_handle hstep
    by_cases hu : v = u
    · subst hu
      refine ⟨hhandles.alive halive, ?_⟩
      cases hhandles <;> exact fun g hg => hg
    · have hsame := hhandles.sameFor hu
      exact ⟨hsame.alive halive, fun g hg => hsame.granted ▸ hg⟩
  | abortNode d =>
    obtain ⟨sender, address, rw, conflict, victim, victims, -, ⟨-, rfl⟩ | ⟨-, rfl⟩⟩ :=
      abortNode_eq_some hstep
    · exact ⟨halive, fun g hg => hg⟩
    · obtain ⟨hactive, hflag, hreply⟩ := halive
      refine ⟨⟨hactive, ?_, hreply⟩, fun g hg => hg⟩
      by_cases hv : v = victim
      · subst hv
        simp only [Function.update_self, casAbortFlag] at hflag
        by_cases hno : s.abortFlag v = .noConflict
        · exact Or.inl hno
        · rwa [if_neg hno] at hflag
      · simpa only [Function.update_of_ne hv] using hflag
  | grant d =>
    obtain ⟨sender, address, rw, conflict, hserving, rfl⟩ := grant_eq_some hstep
    obtain ⟨hactive, hflag, hreply⟩ := halive
    by_cases hv : v = sender
    · subst hv
      refine ⟨⟨hactive, hflag, Or.inl ?_⟩, ?_⟩
      · exact (h.node v).link.reply_of_serving hserving
      · intro g hg
        simp only [Function.update_self, List.mem_append]
        exact Or.inl hg
    · simp only [Function.update_of_ne hv] at hreply ⊢
      exact ⟨⟨hactive, hflag, hreply⟩, fun g hg => hg⟩

theorem Inv.exec {cl : Cluster} {s s' : System} {es : List SystemEvent} (h : Inv cl s)
    (hexec : Exec (partialGraph (step cl)) s es s') : Inv cl s' :=
  hexec.invariant (Inv cl) (fun _ _ _ hs hstep => inv_step hs hstep) h

/-- **Commit isolation.**  Between the step that grants an address to an attempt
and the `set_tx_committed` of the attempt, every write to the address that is
persisted is the attempt's own. -/
theorem commitIsolation (cl : Cluster) (mem : Nat → BitVec 32) {before during : List SystemEvent}
    {d t address : Nat} {rw : RW} {conflict : Conflict} {s₀ s₁ s₂ s₃ : System}
    (hbefore : Exec (partialGraph (step cl)) (systemInit mem) before s₀)
    (hserving : (s₀.service d).serving = some ⟨t, address, rw, conflict, []⟩)
    (hgrant : s₀.step cl (.grant d) = some s₁)
    (hduring : Exec (partialGraph (step cl)) s₁ during s₂)
    (hattempt : ∀ e ∈ during, ∀ now, e ≠ .node t (.txStart now))
    (hcommit : s₂.step cl (.node t .setTxCommitted) = some s₃) :
    Exec (restrict (PersistedBy t address) (partialGraph (step cl))) s₁ during s₂ := by
  have h₀ : Inv cl s₀ := (inv_init cl mem).exec hbefore
  have h₁ : Inv cl s₁ := inv_step h₀ hgrant
  have h₂ : Inv cl s₂ := h₁.exec hduring
  have hgranted : (address, rw) ∈ s₁.granted t := by
    obtain ⟨sender, address', rw', conflict', hserving', rfl⟩ := grant_eq_some hgrant
    rw [hserving, Option.some.injEq, Serving.mk.injEq] at hserving'
    obtain ⟨rfl, rfl, rfl, -⟩ := hserving'
    simp
  have halive : s₂.Alive t := by
    have hacts : Acts cl s₂ t .setTxCommitted s₃ := acts_of_act hcommit
    cases hacts with
    | abort _ ha => cases ha
    | request _ _ ha => cases ha
    | insert _ _ ha => cases ha
    | committed hphase => exact (h₂.node t).alive_of_persisting hphase
  have hguarded : s₁.Alive t ∧ Exec (restrict (PersistedBy t address)
      (restrict (fun _ e => ∀ now, e ≠ .node t (.txStart now)) (partialGraph (step cl))))
      s₁ during s₂ := by
    refine (hduring.restrict_of_forall hattempt).restrict_of_backward
      (I := fun s => Inv cl s ∧ (s.Alive t → (address, rw) ∈ s.granted t))
      (B := fun s => s.Alive t) ?_ ?_ ?_ ⟨h₁, fun _ => hgranted⟩ halive
    · rintro s e s' ⟨hs, hg⟩ ⟨hstart, hstep⟩
      refine ⟨inv_step hs hstep, ?_⟩
      intro halive'
      obtain ⟨halive, hmono⟩ := alive_of_step hs hstep hstart halive'
      exact hmono _ (hg halive)
    · rintro s e s' ⟨hs, -⟩ ⟨hstart, hstep⟩ halive'
      exact (alive_of_step hs hstep hstart halive').1
    · rintro s e s' ⟨hs, hg⟩ halive - w - hpersists
      obtain ⟨hw, hgw⟩ := (hs.node w).granted_of_persists hpersists
      exact hs.eq_of_granted hw hgw halive (hg halive)
  exact hguarded.2.mono fun _ _ _ h => ⟨h.1, h.2.2⟩

/-- One service node, and node 0 wins every tie. -/
def pairCluster : Cluster := ⟨⟨.wholly, false, false, 4⟩, 1, fun _ => 0⟩

def loadStoreBefore : List SystemEvent :=
  [.node 0 (.txStart 0), .node 0 (.txLoad 64), .node 0 (.send 0), .handle 0 0 0]

/-- Node 1 is refused while node 0 writes what it has read. -/
def loadStoreDuring : List SystemEvent :=
  [.node 0 .recv, .node 0 (.deref 64), .node 0 (.txStore 64 1), .node 0 .txCommit,
    .node 0 .chkAborted, .node 0 (.send 0), .handle 0 0 0, .grant 0, .node 1 (.txStart 0),
    .node 1 (.txLoad 64), .node 1 (.send 0), .node 0 .recv, .handle 0 1 0,
    .node 0 .setTxPersisting, .node 1 .recv, .node 0 .writeEntryPersist]

theorem commitIsolation_loadStore : ∃ s₁ s₂, (64, RW.read) ∈ s₁.granted 0 ∧ s₂.mem 64 = 1 ∧
    Exec (restrict (PersistedBy 0 64) (partialGraph (step pairCluster))) s₁ loadStoreDuring
      s₂ := by
  let s₀ := (loadStoreBefore.foldlM (step pairCluster) (systemInit fun _ => 0)).get
    (by decide +kernel)
  let s₁ := (s₀.step pairCluster (.grant 0)).get (by decide +kernel)
  let s₂ := (loadStoreDuring.foldlM (step pairCluster) s₁).get (by decide +kernel)
  let s₃ := (s₂.step pairCluster (.node 0 .setTxCommitted)).get (by decide +kernel)
  have hbefore : Exec (partialGraph (step pairCluster)) (systemInit fun _ => 0)
      loadStoreBefore s₀ := exec_partialGraph_iff.mpr (Option.some_get _).symm
  have hserving : (s₀.service 0).serving = some ⟨0, 64, .read, .readAfterWrite, []⟩ := by
    decide +kernel
  have hgrant : s₀.step pairCluster (.grant 0) = some s₁ := (Option.some_get _).symm
  have hduring : Exec (partialGraph (step pairCluster)) s₁ loadStoreDuring s₂ :=
    exec_partialGraph_iff.mpr (Option.some_get _).symm
  have hcommit : s₂.step pairCluster (.node 0 .setTxCommitted) = some s₃ :=
    (Option.some_get _).symm
  refine ⟨s₁, s₂, by decide +kernel, by decide +kernel, ?_⟩
  exact commitIsolation pairCluster (fun _ => 0) hbefore hserving hgrant hduring
    (by simp [loadStoreDuring]) hcommit

end System

end TM2C
