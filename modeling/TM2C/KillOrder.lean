import Mathlib.Logic.Relation
import TM2C.SystemInvariant

/-!
# The order of kills

Under WHOLLY and FAIRCM a node sends a counter with every message, which grows
only when it commits.  A service node compares the counter of a request, which
is the current one for as long as the request is served, with the last counters
it received, which are at most the current ones.  So it aborts only nodes that
come after the requester by their current counters and ids, and no two service
nodes can order kills against each other.

`CounterInv` has one field for each place in which a counter travels: the timestamp that a
service node has stored is at most the counter of its node, that of a message on its way is, too,
and equals it unless the message is an `RMV_NODE`; while a service node serves a request, the
requester precedes the victims that are left, by the counters of the nodes; and so does a killer
its victim, for all pairs in the ghost field `kills`, from which a node goes when its attempt is
over.

A counter only changes when its node has committed and released everything (`Acts.counter`), and
then no message of it is on its way and no service node serves it, by the `Quiet` part of the
invariant of the system.  That is why the equation survives.  The order by counter and id is a
strict linear order, so that kills have no cycle, whatever its length.
-/

namespace TM2C

open Transition

/-- `tx_committed` or `tx_duration`. -/
def TxNode.counter (cfg : Config) (n : TxNode) : Nat :=
  match cfg.cm with
  | .wholly => n.txCommitted
  | .faircm => n.txDuration
  | .greedy _ | .nocm | .backoffRetry => 0

/-- The contention managers that send the counter. -/
def Config.Counts (cfg : Config) : Prop := cfg.cm = .wholly ∨ cfg.cm = .faircm

theorem Config.Counts.txMetadata {cfg : Config} (h : cfg.Counts) (now : Nat) (n : TxNode) :
    n.txMetadata cfg now = n.counter cfg := by
  obtain hcm | hcm := h <;> simp only [TxNode.txMetadata, TxNode.counter, hcm]

theorem Config.Counts.updateTimestamp {cfg : Config} (h : cfg.Counts) (now sender metadata : Nat)
    (timestamp : Nat → Nat) :
    TM2C.updateTimestamp cfg now sender metadata timestamp =
      Function.update timestamp sender metadata := by
  obtain hcm | hcm := h <;> simp only [TM2C.updateTimestamp, hcm]

theorem Config.Counts.timestamp_serveRelease {cfg : Config} (h : cfg.Counts) (n : LockService)
    (v : Nat) : (serveRelease cfg n v).timestamp = n.timestamp := by
  obtain hcm | hcm := h <;> simp only [serveRelease, hcm]

namespace System

def counter (cl : Cluster) (s : System) (v : Nat) : Nat := (s.node v).counter cl.cfg

/-! ### The counters over a step -/

/-- The counter of a node grows when it commits, after its last release was sent. -/
theorem Acts.counter {cl : Cluster} {s s' : System} {v : Nat} {a : Action}
    (h : Acts cl s v a s') :
    s'.counter cl = s.counter cl ∨
      ((∃ seq, (s.node v).phase = .releasing seq) ∧ s.counter cl v ≤ s'.counter cl v ∧
        s'.channel = s.channel ∧
        s'.kills = s.kills.filter fun k => decide (k.1 ≠ v ∧ k.2 ≠ v)) := by
  have hsame : ∀ {n : TxNode}, n.txCommitted = (s.node v).txCommitted →
      n.txDuration = (s.node v).txDuration → (s.setNode v n).counter cl = s.counter cl := by
    intro n hcommitted hduration
    funext u
    unfold System.counter
    by_cases hu : u = v
    · subst hu
      rw [node_setNode_self, TxNode.counter, TxNode.counter, hcommitted, hduration]
    · rw [node_setNode_of_ne _ _ _ hu]
  cases h with
  | finish hphase =>
    refine Or.inr ⟨⟨_, hphase⟩, ?_, rfl, rfl⟩
    unfold System.counter TxNode.counter
    cases hcm : cl.cfg.cm with
    | faircm => simp [TxNode.updateDuration, hcm]
    | _ => simp
  | buffered => exact Or.inl rfl
  | deref => exact Or.inl rfl
  | _ => exact Or.inl (hsame rfl rfl)

theorem Acts.sent {cl : Cluster} {s s' : System} {v : Nat} {a : Action}
    (h : Acts cl s v a s') {u d : Nat} {req : Req} (hreq : req ∈ s'.channel u d) :
    req ∈ s.channel u d ∨
      (u = v ∧ ∃ now, req.txMetadata = (s.node v).txMetadata cl.cfg now) := by
  have hpush : ∀ e r, req ∈ s.push v e r u d → req ∈ s.channel u d ∨ (u = v ∧ req = r) := by
    intro e r hr
    by_cases hu : u = v
    · subst hu
      by_cases hd : d = e
      · subst hd
        simp only [push, Function.update_self, List.mem_append, List.mem_singleton] at hr
        exact hr.imp_right fun hr => ⟨rfl, hr⟩
      · exact Or.inl (by simpa [push, Function.update_of_ne hd] using hr)
    · exact Or.inl (by simpa [push, Function.update_of_ne hu] using hr)
  cases h with
  | send =>
    obtain hreq | ⟨hu, rfl⟩ := hpush _ _ hreq
    · exact Or.inl hreq
    · exact Or.inr ⟨hu, _, rfl⟩
  | rlsAll =>
    simp only at hreq
    split at hreq
    · obtain hreq | ⟨hu, rfl⟩ := hpush _ _ hreq
      · exact Or.inl hreq
      · exact Or.inr ⟨hu, _, rfl⟩
    · exact Or.inl hreq
  | _ => exact Or.inl hreq

/-! ### The invariant -/

structure CounterInv (cl : Cluster) (s : System) : Prop where
  stamped : ∀ d v, (s.service d).state.timestamp v ≤ s.counter cl v
  sent : ∀ v d, ∀ req ∈ s.channel v d, req.txMetadata ≤ s.counter cl v ∧
    (req.type ≠ .rmvNode → req.txMetadata = s.counter cl v)
  serving : ∀ d sv, (s.service d).serving = some sv → ∀ victim ∈ sv.victims,
    Precedes (s.counter cl) sv.sender victim
  kills : ∀ k ∈ s.kills, Precedes (s.counter cl) k.1 k.2

theorem counterInv_init (cl : Cluster) (mem : Nat → BitVec 32) :
    CounterInv cl (systemInit mem) where
  stamped := fun _ _ => Nat.zero_le _
  sent := fun _ _ _ hreq => absurd hreq List.not_mem_nil
  serving := by
    intro d sv hsv
    cases hsv
  kills := fun _ hk => absurd hk List.not_mem_nil

theorem counterInv_act {cl : Cluster} {s s' : System} {v : Nat} {a : Action}
    (hcounts : cl.cfg.Counts) (hinv : Inv cl s) (h : CounterInv cl s)
    (hacts : Acts cl s v a s') : CounterInv cl s' := by
  obtain hsame | ⟨⟨seq, hphase⟩, hgrow, hchannel, hkills⟩ := hacts.counter
  -- the counters stay, and a request that is sent carries the sender's own
  · constructor
    case stamped =>
      rw [hacts.service_eq, hsame]
      exact h.stamped
    case sent =>
      intro u d req hreq
      rw [hsame]
      obtain hreq | ⟨rfl, now, hnow⟩ := hacts.sent hreq
      · exact h.sent u d req hreq
      · have heq : req.txMetadata = s.counter cl u := hnow.trans (hcounts.txMetadata now _)
        exact ⟨heq.le, fun _ => heq⟩
    case serving =>
      rw [hacts.service_eq, hsame]
      exact h.serving
    case kills =>
      intro k hk
      rw [hsame]
      refine h.kills k ?_
      cases hacts with
      | finish => exact (List.mem_filter.mp hk).1
      | _ => exact hk
  -- the attempt of `v` is over and its counter grows, when nothing of it is under way
  · have hother : ∀ u, u ≠ v → s'.counter cl u = s.counter cl u := by
      intro u hu
      unfold System.counter
      rw [(hacts.sameFor hu).node]
    have hmono : ∀ u, s.counter cl u ≤ s'.counter cl u := by
      intro u
      by_cases hu : u = v
      · exact hu ▸ hgrow
      · exact (hother u hu).ge
    constructor
    case stamped =>
      intro d u
      rw [hacts.service_eq]
      exact (h.stamped d u).trans (hmono u)
    case sent =>
      intro u d req hreq
      rw [hchannel] at hreq
      obtain ⟨hle, heq⟩ := h.sent u d req hreq
      refine ⟨hle.trans (hmono u), ?_⟩
      intro htype
      have hu : u ≠ v := by
        rintro rfl
        have hquiet := (hinv.node u).link.quiet_of_phase (by simp [hphase])
        exact htype (hquiet.releases d req hreq)
      rw [hother u hu]
      exact heq htype
    case serving =>
      intro d sv hsv victim hvictim
      rw [hacts.service_eq] at hsv
      have hsender : sv.sender ≠ v := by
        rintro rfl
        have hquiet := (hinv.node sv.sender).link.quiet_of_phase (by simp [hphase])
        exact hquiet.unserved d sv hsv rfl
      exact (h.serving d sv hsv victim hvictim).mono (hother _ hsender).le (hmono victim)
    case kills =>
      intro k hk
      rw [hkills, List.mem_filter, decide_eq_true_iff] at hk
      obtain ⟨hk, hattacker, -⟩ := hk
      exact (h.kills k hk).mono (hother _ hattacker).le (hmono k.2)

theorem counterInv_handle {cl : Cluster} {s s' : System} {d v now : Nat}
    (hcounts : cl.cfg.Counts) (h : CounterInv cl s) (hhandles : Handles cl s d v now s') :
    CounterInv cl s' := by
  have hcounter : s'.counter cl = s.counter cl := by
    cases hhandles <;> rfl
  obtain ⟨req, rest, -, hchannel, hpopped, hself⟩ := hhandles.service_self
  obtain ⟨hle, hcurrent⟩ := h.sent v d req (hchannel ▸ List.mem_cons_self)
  -- the timestamp of the message is no greater than the counter it was read from
  have hstamped : ∀ u, (s.stamped cl.cfg d v now req).timestamp u ≤ s.counter cl u := by
    intro u
    simp only [stamped, hcounts.updateTimestamp]
    by_cases hu : u = v
    · subst hu
      rw [Function.update_self]
      exact hle
    · rw [Function.update_of_ne hu]
      exact h.stamped d u
  constructor
  case stamped =>
    intro e u
    rw [hcounter]
    by_cases he : e = d
    · subst he
      obtain hself | ⟨rw, victims, -, -, hself⟩ := hself
      · rw [hself, hcounts.timestamp_serveRelease]
        exact hstamped u
      · rw [hself]
        exact hstamped u
    · rw [hhandles.service_of_ne he]
      exact h.stamped e u
  case sent =>
    intro u e r hr
    rw [hcounter]
    refine h.sent u e r ?_
    rw [hpopped] at hr
    by_cases hu : u = v
    · subst hu
      by_cases he : e = d
      · subst he
        rw [pop_self] at hr
        exact hchannel ▸ List.mem_cons_of_mem _ hr
      · rwa [pop_self_of_ne he] at hr
    · rwa [pop_of_ne hu] at hr
  case serving =>
    intro e sv hsv victim hvictim
    rw [hcounter]
    by_cases he : e = d
    · subst he
      obtain hself | ⟨rw, victims, hrw, hverdict, hself⟩ := hself
      · rw [hself] at hsv
        cases hsv
      · rw [hself, Option.some.injEq] at hsv
        subst hsv
        -- the requester has asked with its counter as it is now
        have hsender : (s.stamped cl.cfg e v now req).timestamp v = s.counter cl v := by
          simp only [stamped, hcounts.updateTimestamp, Function.update_self]
          exact hcurrent hrw.not_release
        exact (precedes_of_verdict hverdict hvictim).mono hsender.ge (hstamped victim)
    · rw [hhandles.service_of_ne he] at hsv
      exact h.serving e sv hsv victim hvictim
  case kills =>
    intro k hk
    rw [hcounter]
    refine h.kills k ?_
    cases hhandles <;> exact hk

theorem counterInv_abortNode {cl : Cluster} {s s' : System} {d : Nat} (h : CounterInv cl s)
    (hstep : s.abortNode d = some s') : CounterInv cl s' := by
  obtain ⟨sender, address, rw, conflict, victim, victims, hserving, ⟨-, rfl⟩ | ⟨-, rfl⟩⟩ :=
    abortNode_eq_some hstep
  · exact h
  have hvictims := h.serving d _ hserving
  refine ⟨?_, h.sent, ?_, ?_⟩
  · intro e u
    by_cases he : e = d
    · subst he
      simp only [service_setService_self]
      exact h.stamped e u
    · simp only [service_setService_of_ne _ _ _ he]
      exact h.stamped e u
  · intro e sv hsv u hu
    by_cases he : e = d
    · subst he
      simp only [service_setService_self, Option.some.injEq] at hsv
      subst hsv
      exact hvictims u (List.mem_cons_of_mem _ hu)
    · simp only [service_setService_of_ne _ _ _ he] at hsv
      exact h.serving e sv hsv u hu
  · intro k hk
    obtain rfl | hk := List.mem_cons.mp hk
    · exact hvictims victim List.mem_cons_self
    · exact h.kills k hk

theorem counterInv_grant {cl : Cluster} {s s' : System} {d : Nat} (h : CounterInv cl s)
    (hstep : s.grant d = some s') : CounterInv cl s' := by
  obtain ⟨sender, address, rw, conflict, hserving, rfl⟩ := grant_eq_some hstep
  refine ⟨?_, h.sent, ?_, h.kills⟩
  · intro e u
    by_cases he : e = d
    · subst he
      simp only [service_setService_self]
      exact h.stamped e u
    · simp only [service_setService_of_ne _ _ _ he]
      exact h.stamped e u
  · intro e sv hsv u hu
    by_cases he : e = d
    · subst he
      simp only [service_setService_self] at hsv
      cases hsv
    · simp only [service_setService_of_ne _ _ _ he] at hsv
      exact h.serving e sv hsv u hu

theorem counterInv_step {cl : Cluster} {s s' : System} {e : SystemEvent}
    (hcounts : cl.cfg.Counts) (hinv : Inv cl s) (h : CounterInv cl s)
    (hstep : s.step cl e = some s') : CounterInv cl s' := by
  cases e with
  | node v a => exact counterInv_act hcounts hinv h (acts_of_act hstep)
  | handle d v now => exact counterInv_handle hcounts h (handles_of_handle hstep)
  | abortNode d => exact counterInv_abortNode h hstep
  | grant d => exact counterInv_grant h hstep

/-! ### Every run -/

/-- The order of the kills in a state.  A victim is a node that the service node
still has to call `abort_node` on. -/
structure KillOrder (cl : Cluster) (s : System) : Prop where
  below : ∀ d sv, (s.service d).serving = some sv → ∀ victim ∈ sv.victims,
    Precedes (s.counter cl) sv.sender victim
  not_mutual : ∀ a v, (a, v) ∈ s.kills → (v, a) ∉ s.kills
  acyclic : ∀ a, ¬ Relation.TransGen (fun a v => (a, v) ∈ s.kills) a a
  least : ∀ v, (∀ u, u < cl.cfg.numUes → u ≠ v → Precedes (s.counter cl) v u) →
    ∀ d sv, (s.service d).serving = some sv → v ∉ sv.victims

theorem CounterInv.precedes_of_kills {cl : Cluster} {s : System} (h : CounterInv cl s) {a v : Nat}
    (hkills : Relation.TransGen (fun a v => (a, v) ∈ s.kills) a v) :
    Precedes (s.counter cl) a v := by
  induction hkills with
  | single hk => exact h.kills _ hk
  | tail _ hk ih => exact precedes_trans ih (h.kills _ hk)

theorem CounterInv.ordered {cl : Cluster} {s : System} (hinv : Inv cl s)
    (h : CounterInv cl s) : KillOrder cl s where
  below := h.serving
  not_mutual := by
    intro a v hav hva
    exact precedes_irrefl _ a (precedes_trans (h.kills _ hav) (h.kills _ hva))
  acyclic := fun a hcycle => precedes_irrefl _ a (h.precedes_of_kills hcycle)
  least := by
    intro v hleast d sv hsv hv
    have hbelow := h.serving d sv hsv v hv
    have hne : sv.sender ≠ v := by
      intro heq
      rw [heq] at hbelow
      exact precedes_irrefl _ v hbelow
    have hlt := (hinv.service d).sender_lt sv hsv
    exact precedes_irrefl _ v (precedes_trans (hleast sv.sender hlt hne) hbelow)

/-- The counters only grow. -/
theorem counter_le_of_step {cl : Cluster} {s s' : System} {e : SystemEvent}
    (hstep : s.step cl e = some s') (v : Nat) : s.counter cl v ≤ s'.counter cl v := by
  cases e with
  | node u a =>
    have hacts := acts_of_act hstep
    by_cases hv : v = u
    · subst hv
      obtain hsame | ⟨-, hgrow, -⟩ := hacts.counter
      · rw [hsame]
      · exact hgrow
    · unfold System.counter
      rw [(hacts.sameFor hv).node]
  | handle d u now => cases handles_of_handle hstep <;> exact le_rfl
  | abortNode d =>
    obtain ⟨_, _, _, _, _, _, -, ⟨-, rfl⟩ | ⟨-, rfl⟩⟩ := abortNode_eq_some hstep
    · exact le_rfl
    · exact le_rfl
  | grant d =>
    obtain ⟨_, _, _, _, -, rfl⟩ := grant_eq_some hstep
    exact le_rfl

theorem counter_le_of_exec {cl : Cluster} {s s' : System} {es : List SystemEvent}
    (hexec : Exec (partialGraph (step cl)) s es s') (v : Nat) :
    s.counter cl v ≤ s'.counter cl v :=
  hexec.relation (fun s s' => s.counter cl v ≤ s'.counter cl v) (fun _ => le_rfl)
    (fun _ _ _ => le_trans) fun _ _ _ hstep => counter_le_of_step hstep v

/-- **Kill order.**  Whoever is aborted comes after its killer by the counters
of the moment, so that the kills of transactions that are under way never form a
cycle. -/
theorem killOrder (cl : Cluster) (hcounts : cl.cfg.Counts) (mem : Nat → BitVec 32)
    {es : List SystemEvent} {s : System}
    (hexec : Exec (partialGraph (step cl)) (systemInit mem) es s) : KillOrder cl s := by
  have hs : Inv cl s ∧ CounterInv cl s := by
    refine hexec.invariant (fun s => Inv cl s ∧ CounterInv cl s) ?_
      ⟨inv_init cl mem, counterInv_init cl mem⟩
    rintro s e s' ⟨hinv, h⟩ hstep
    exact ⟨inv_step hinv hstep, counterInv_step hcounts hinv h hstep⟩
  exact hs.2.ordered hs.1

/-- Two service nodes, one for the even and one for the odd addresses. -/
def fairCluster : Cluster := ⟨⟨.faircm, false, false, 4⟩, 2, fun address => address % 2⟩

/-- Node 0 kills the reader of 64. -/
def killReader : List SystemEvent :=
  [.node 1 (.txStart 0), .node 1 (.txLoad 64), .node 1 (.send 0), .handle 0 1 0, .grant 0,
    .node 1 .recv, .node 1 (.deref 64), .node 0 (.txStart 0), .node 0 (.txStore 64 1),
    .node 0 .txCommit, .node 0 .chkAborted, .node 0 (.send 0), .handle 0 0 0, .abortNode 0]

theorem killOrder_killReader : ∃ s : System, s.kills = [(0, 1)] ∧ KillOrder fairCluster s := by
  let s := (killReader.foldlM (step fairCluster) (systemInit fun _ => 0)).get (by decide +kernel)
  have hexec : Exec (partialGraph (step fairCluster)) (systemInit fun _ => 0) killReader s :=
    exec_partialGraph_iff.mpr (Option.some_get _).symm
  exact ⟨s, by decide +kernel, killOrder fairCluster (Or.inr rfl) (fun _ => 0) hexec⟩

end System

end TM2C
