import TM2C.Atomicity

/-!
# Requests and locks are accounted for

A node that waits for an answer has its request in a channel, with the service node or in the
reply, and what it holds at a service node it is still to release there, or its release is under
way.  For this `nodes_contacted` must not wrap around: a node contacts a service node less than
`2 ^ 16` times in an attempt.

`Accounted` says this of one node, with what it needs to go through: a channel carries something
only between the cores there are, a counter that the release has passed is zero, and a node that
was refused holds nothing at the node that refused it.  Only the last field, on the locks, is
about `nodes_contacted` in earnest: a lock is covered by the counter, or by an `RMV_NODE` that is
on its way.

The steps are those of `SystemSteps`.  Of a step of a node its own accounts change and nobody
else's, by `SameFor`; when a service node takes a message, the accounts of all are affected,
because a release lets go of locks.  The hypothesis that a counter has room is asked for one step
at a time, where the step sends a request; where transactions bound the number of their requests
it is discharged.
-/

namespace TM2C

namespace System

/-- `tm2c_rpc_rls_all` is past the service node. -/
def Cleared : Phase → Nat → Prop
  | .idle, _ | .restarting, _ => True
  | .releasing seq, d | .aborting seq, d => d < seq
  | _, _ => False

/-- The request that the node waits for. -/
def Requested (s : System) (v d : Nat) : Prop :=
  (∃ req ∈ s.channel v d, req.type ≠ .rmvNode) ∨
    (∃ sv, (s.service d).serving = some sv ∧ sv.sender = v) ∨ s.reply v ≠ none

structure Accounted (cl : Cluster) (s : System) (v : Nat) : Prop where
  channel : ∀ d, s.channel v d ≠ [] → v < cl.cfg.numUes ∧ d < cl.numDslNodes
  contacted : ∀ d, 0 < (s.node v).nodesContacted d → d < cl.numDslNodes
  cleared : ∀ d, Cleared (s.node v).phase d → (s.node v).nodesContacted d = 0
  request : ∀ p a, (s.node v).phase = .waiting p a →
    0 < (s.node v).nodesContacted (cl.responsibleNode a) ∧ s.Requested v (cl.responsibleNode a)
  refused : ∀ p a conflict, (s.node v).phase = .waiting p a → s.reply v = some conflict →
    conflict ≠ .noConflict → ∀ b, ¬ (s.locks (cl.responsibleNode a)).Holds b v
  locks : ∀ d a, (s.locks d).Holds a v →
    0 < (s.node v).nodesContacted d ∨ ∃ req ∈ s.channel v d, req.type = .rmvNode

theorem accounted_init (cl : Cluster) (mem : Nat → BitVec 32) (v : Nat) :
    Accounted cl (systemInit mem) v where
  channel := fun _ h => absurd rfl h
  contacted := fun _ h => absurd h (Nat.lt_irrefl 0)
  cleared := fun _ _ => rfl
  request := by
    intro p a hphase
    cases hphase
  refused := by
    intro p a conflict hphase
    cases hphase
  locks := by
    rintro d a (hwriter | hreader)
    · cases hwriter
    · cases hreader

namespace Accounted

variable {cl : Cluster} {s s' : System} {u v : Nat}

/-- A step of others. -/
theorem frame (h : Accounted cl s u) (hnode : s'.node u = s.node u)
    (hchannel : s'.channel u = s.channel u) (hreply : s'.reply u = s.reply u)
    (hserved : ∀ d sv, (s.service d).serving = some sv → sv.sender = u →
      ∃ sv', (s'.service d).serving = some sv' ∧ sv'.sender = u)
    (hlocks : ∀ d a, (s'.locks d).Holds a u → (s.locks d).Holds a u) : Accounted cl s' u where
  channel := by
    rw [hchannel]
    exact h.channel
  contacted := by
    rw [hnode]
    exact h.contacted
  cleared := by
    rw [hnode]
    exact h.cleared
  request := by
    rw [hnode]
    intro p a hphase
    obtain ⟨hpos, hrequested⟩ := h.request p a hphase
    refine ⟨hpos, ?_⟩
    unfold Requested at hrequested ⊢
    rw [hchannel, hreply]
    refine hrequested.imp_right (Or.imp_left ?_)
    rintro ⟨sv, hsv, hsender⟩
    exact hserved _ sv hsv hsender
  refused := by
    rw [hnode, hreply]
    intro p a conflict hphase hconflict hno b hb
    exact h.refused p a conflict hphase hconflict hno b (hlocks _ b hb)
  locks := by
    rw [hnode, hchannel]
    intro d a ha
    exact h.locks d a (hlocks d a ha)

/-- A step of the node itself that neither sends anything nor leaves it waiting. -/
theorem move (h : Accounted cl s v)
    (hcontacted : (s'.node v).nodesContacted = (s.node v).nodesContacted)
    (hchannel : s'.channel = s.channel) (hservice : s'.service = s.service)
    (hwaiting : ∀ p a, (s'.node v).phase ≠ .waiting p a)
    (hcleared : ∀ d, Cleared (s'.node v).phase d → (s.node v).nodesContacted d = 0) :
    Accounted cl s' v where
  channel := by
    rw [hchannel]
    exact h.channel
  contacted := by
    rw [hcontacted]
    exact h.contacted
  cleared := by
    rw [hcontacted]
    exact hcleared
  request := fun p a hphase => absurd hphase (hwaiting p a)
  refused := fun p a _ hphase => absurd hphase (hwaiting p a)
  locks := by
    unfold System.locks
    rw [hcontacted, hchannel, hservice]
    exact h.locks

theorem sent (h : Accounted cl s v) {p : Purpose} {a : Nat} {req : Req} {n : TxNode}
    (hlt : v < cl.cfg.numUes) (hnode : cl.responsibleNode a < cl.numDslNodes)
    (hroom : (s.node v).nodesContacted (cl.responsibleNode a) + 1 < 2 ^ 16)
    (hphase : n.phase = .waiting p a)
    (hcontacted : n.nodesContacted = Function.update (s.node v).nodesContacted
      (cl.responsibleNode a) (((s.node v).nodesContacted (cl.responsibleNode a) + 1) % 2 ^ 16))
    (hreply : s.reply v = none) (hreq : req.type ≠ .rmvNode) :
    Accounted cl { s.setNode v n with channel := s.push v (cl.responsibleNode a) req } v := by
  rw [Nat.mod_eq_of_lt hroom] at hcontacted
  have hchannel : ∀ d r, r ∈ s.channel v d → r ∈ s.push v (cl.responsibleNode a) req v d := by
    intro d r hr
    by_cases hd : d = cl.responsibleNode a
    · subst hd
      simp only [push, Function.update_self, List.mem_append]
      exact Or.inl hr
    · simpa only [push, Function.update_self, Function.update_of_ne hd] using hr
  have hpos : ∀ d, 0 < (s.node v).nodesContacted d → 0 < n.nodesContacted d := by
    intro d hd
    rw [hcontacted]
    by_cases hda : d = cl.responsibleNode a
    · rw [hda, Function.update_self]
      exact Nat.succ_pos _
    · rwa [Function.update_of_ne hda]
  constructor
  case channel =>
    intro d hd
    refine ⟨hlt, ?_⟩
    by_cases hda : d = cl.responsibleNode a
    · exact hda ▸ hnode
    · simp only [push, Function.update_self, Function.update_of_ne hda] at hd
      exact (h.channel d hd).2
  case contacted =>
    intro d hd
    simp only [node_setNode_self, hcontacted] at hd
    by_cases hda : d = cl.responsibleNode a
    · exact hda ▸ hnode
    · rw [Function.update_of_ne hda] at hd
      exact h.contacted d hd
  case cleared =>
    intro d hd
    simp only [node_setNode_self, hphase] at hd
    exact absurd hd id
  case request =>
    intro p' a' hphase'
    simp only [node_setNode_self, hphase, Phase.waiting.injEq] at hphase'
    obtain ⟨-, rfl⟩ := hphase'
    refine ⟨?_, Or.inl ⟨req, ?_, hreq⟩⟩
    · simp only [node_setNode_self, hcontacted, Function.update_self]
      exact Nat.succ_pos _
    · simp [push]
  case refused =>
    intro p' a' conflict _ hconflict
    simp only [reply_setNode, hreply] at hconflict
    cases hconflict
  case locks =>
    intro d b hb
    simp only [node_setNode_self]
    obtain hd | ⟨r, hr, htype⟩ := h.locks d b hb
    · exact Or.inl (hpos d hd)
    · exact Or.inr ⟨r, hchannel d r hr, htype⟩

/-- A refusal: the service node has released what the node held there. -/
theorem received (h : Accounted cl s v) {p : Purpose} {a : Nat} {conflict : Conflict} {n : TxNode}
    (hwaits : (s.node v).phase = .waiting p a) (hreply : s.reply v = some conflict)
    (hno : conflict ≠ .noConflict) (hphase : n.phase = .aborting 0)
    (hcontacted : n.nodesContacted =
      Function.update (s.node v).nodesContacted (cl.responsibleNode a) 0) :
    Accounted cl ({ s with reply := Function.update s.reply v none }.setNode v n) v where
  channel := h.channel
  contacted := by
    intro d hd
    simp only [node_setNode_self, hcontacted] at hd
    by_cases hda : d = cl.responsibleNode a
    · rw [hda, Function.update_self] at hd
      exact absurd hd (Nat.lt_irrefl 0)
    · rw [Function.update_of_ne hda] at hd
      exact h.contacted d hd
  cleared := by
    intro d hd
    simp only [node_setNode_self, hphase] at hd
    exact absurd hd (Nat.not_lt_zero d)
  request := by
    intro p' a' hphase'
    simp only [node_setNode_self, hphase] at hphase'
    cases hphase'
  refused := by
    intro p' a' conflict' hphase'
    simp only [node_setNode_self, hphase] at hphase'
    cases hphase'
  locks := by
    intro d b hb
    simp only [node_setNode_self, hcontacted]
    by_cases hda : d = cl.responsibleNode a
    · subst hda
      exact absurd hb (h.refused p a conflict hwaits hreply hno b)
    · rw [Function.update_of_ne hda]
      exact h.locks d b hb

/-- One turn of `tm2c_rpc_rls_all`. -/
theorem rlsAll (h : Accounted cl s v) {seq : Nat} {req : Req} {n : TxNode} {channel}
    (hlt : v < cl.cfg.numUes) (hseq : seq < cl.numDslNodes) (hreq : req.type = .rmvNode)
    (hold : ∀ d, d < seq → Cleared (s.node v).phase d)
    (hphase : n.phase = .releasing (seq + 1) ∨ n.phase = .aborting (seq + 1))
    (hcontacted : n.nodesContacted = Function.update (s.node v).nodesContacted seq 0)
    (hchannel : channel =
      if (s.node v).nodesContacted seq > 0 then s.push v seq req else s.channel) :
    Accounted cl { s.setNode v n with channel := channel } v := by
  have hmem : ∀ d r, r ∈ s.channel v d → r ∈ channel v d := by
    intro d r hr
    rw [hchannel]
    split
    · by_cases hd : d = seq
      · subst hd
        simp only [push, Function.update_self, List.mem_append]
        exact Or.inl hr
      · simpa only [push, Function.update_self, Function.update_of_ne hd] using hr
    · exact hr
  have hof_ne : ∀ d, d ≠ seq → channel v d = s.channel v d := by
    intro d hd
    rw [hchannel]
    split
    · simp only [push, Function.update_self, Function.update_of_ne hd]
    · rfl
  have hwaiting : ∀ p a, n.phase ≠ .waiting p a := by
    obtain hphase | hphase := hphase <;> simp [hphase]
  constructor
  case channel =>
    -- the messages to other service nodes are what they were
    intro d hd
    refine ⟨hlt, ?_⟩
    by_cases hds : d = seq
    · exact hds ▸ hseq
    · simp only [hof_ne d hds] at hd
      exact (h.channel d hd).2
  case contacted =>
    intro d hd
    simp only [node_setNode_self, hcontacted] at hd
    by_cases hds : d = seq
    · exact hds ▸ hseq
    · rw [Function.update_of_ne hds] at hd
      exact h.contacted d hd
  case cleared =>
    -- the counter of this service node is cleared now
    intro d hd
    simp only [node_setNode_self] at hd ⊢
    rw [hcontacted]
    by_cases hds : d = seq
    · rw [hds, Function.update_self]
    · rw [Function.update_of_ne hds]
      refine h.cleared d (hold d ?_)
      obtain hphase | hphase := hphase <;>
        (rw [hphase] at hd; exact Nat.lt_of_le_of_ne (Nat.le_of_lt_succ hd) hds)
  case request =>
    intro p a hphase'
    simp only [node_setNode_self] at hphase'
    exact absurd hphase' (hwaiting p a)
  case refused =>
    intro p a conflict hphase'
    simp only [node_setNode_self] at hphase'
    exact absurd hphase' (hwaiting p a)
  case locks =>
    -- what is held there is covered by the release that was sent
    intro d b hb
    simp only [node_setNode_self, hcontacted]
    by_cases hds : d = seq
    · subst hds
      right
      obtain hpos | ⟨r, hr, htype⟩ := h.locks d b hb
      · refine ⟨req, ?_, hreq⟩
        simp [hchannel, hpos, push]
      · exact ⟨r, hmem d r hr, htype⟩
    · rw [Function.update_of_ne hds]
      obtain hd | ⟨r, hr, htype⟩ := h.locks d b hb
      · exact Or.inl hd
      · exact Or.inr ⟨r, hmem d r hr, htype⟩

end Accounted

/-! ### Every step -/

section Steps

variable {cl : Cluster} {s s' : System} {v : Nat}

theorem lt_of_rlsAll {now seq : Nat} (hstep : s.act cl v (.rlsAll now) = some s')
    (hphase : (s.node v).phase = .releasing seq ∨ (s.node v).phase = .aborting seq) :
    seq < cl.numDslNodes := by
  by_contra hlt
  obtain hphase | hphase := hphase <;> simp [act, hphase, hlt] at hstep

theorem le_of_finish {now seq : Nat} (hstep : s.act cl v (.finish now) = some s')
    (hphase : (s.node v).phase = .releasing seq ∨ (s.node v).phase = .aborting seq) :
    cl.numDslNodes ≤ seq := by
  by_contra hlt
  obtain hphase | hphase := hphase <;> simp [act, hphase, hlt] at hstep

/-- A step of the node; what it sends has room in `nodes_contacted`. -/
theorem Accounted.act {a : Action} (hacc : Accounted cl s v) (hstep : s.act cl v a = some s')
    (hinv : NodeInv cl s v) (hnodes : ∀ a, cl.responsibleNode a < cl.numDslNodes)
    (hroom : ∀ p a, (s.node v).phase = .sending p a →
      (s.node v).nodesContacted (cl.responsibleNode a) + 1 < 2 ^ 16) : Accounted cl s' v := by
  -- the steps that change only the phase
  have hactive : ∀ {phase : Phase}, s'.node v = { s.node v with phase := phase } →
      (∀ p a, phase ≠ .waiting p a) → (∀ d, ¬ Cleared phase d) → s'.channel = s.channel →
      s'.service = s.service → Accounted cl s' v := by
    intro phase hnode hwaiting hcleared hchannel hservice
    refine hacc.move (by rw [hnode]) hchannel hservice (by rwa [hnode]) ?_
    intro d hd
    rw [hnode] at hd
    exact absurd hd (hcleared d)
  have hfinished : ∀ {seq d : Nat}, cl.numDslNodes ≤ seq → (∀ d < seq, Cleared (s.node v).phase d) →
      (s.node v).nodesContacted d = 0 := by
    intro seq d hseq hpast
    by_contra hd
    have hlt := hacc.contacted d (Nat.pos_of_ne_zero hd)
    exact hd (hacc.cleared d (hpast d (by omega)))
  cases acts_of_act hstep with
  | start hphase =>
    refine hacc.move (by simp [txRunning]) rfl rfl (by simp [txRunning]) ?_
    intro d hd
    simp only [txRunning, node_setNode_self] at hd
    exact absurd hd id
  | buffered => exact hacc
  | abort hphase =>
    refine hactive (node_setNode_self ..) (by simp) (fun d hd => ?_) rfl rfl
    exact Nat.not_lt_zero d hd
  | request => exact hactive (node_setNode_self ..) (by simp) (fun d hd => hd) rfl rfl
  | insert =>
    refine hacc.move (by simp) rfl rfl (by simp) ?_
    intro d hd
    simp only [node_setNode_self] at hd
    exact absurd hd id
  | commit => exact hactive (node_setNode_self ..) (by simp) (fun d hd => hd) rfl rfl
  | send hphase =>
    rename_i p address
    refine hacc.sent (hinv.lt (by simp [hphase])) (hnodes address) (hroom p address hphase) rfl rfl
      (hinv.link.quiet_of_phase (by simp [hphase])).reply ?_
    cases p <;> simp [Purpose.reqType]
  | refused hphase hreply hno => exact hacc.received hphase hreply hno rfl rfl
  | answered hphase hreply =>
    rename_i p address
    refine hactive (node_setNode_self ..) ?_ ?_ rfl rfl
    · cases p <;> simp [Purpose.next]
    · cases p <;> exact fun d hd => hd
  | deref hphase =>
    exact hacc.move rfl rfl rfl (by simp [hphase]) hacc.cleared
  | persisting => exact hactive (node_setNode_self ..) (by simp) (fun d hd => hd) rfl rfl
  | persist => exact hactive (node_setNode_self ..) (by simp) (fun d hd => hd) rfl rfl
  | committed =>
    refine hactive (node_setNode_self ..) (by simp) (fun d hd => ?_) rfl rfl
    exact Nat.not_lt_zero d hd
  | rlsAll hphase =>
    -- `Accounted.rlsAll`, for a commit as for an abort
    rename_i now seq next
    have hold : ∀ d, d < seq → Cleared (s.node v).phase d := by
      intro d hd
      obtain ⟨hphase, -⟩ | ⟨hphase, -⟩ := hphase <;> simpa [Cleared, hphase] using hd
    have hseq := lt_of_rlsAll hstep (hphase.imp And.left And.left)
    have hlt := hinv.lt (by obtain ⟨hphase, -⟩ | ⟨hphase, -⟩ := hphase <;> simp [hphase])
    exact hacc.rlsAll hlt hseq rfl hold (hphase.imp And.right And.right) rfl rfl
  -- all service nodes are behind, so every counter is cleared
  | finish hphase =>
    have hseq := le_of_finish hstep (Or.inl hphase)
    refine hacc.move (by simp) rfl rfl (by simp) fun d _ => hfinished hseq ?_
    intro e he
    simpa [Cleared, hphase] using he
  | restart hphase =>
    have hseq := le_of_finish hstep (Or.inr hphase)
    refine hacc.move (by simp) rfl rfl (by simp) fun d _ => hfinished hseq ?_
    intro e he
    simpa [Cleared, hphase] using he

/-! What a node is left with when its first message is taken. -/

theorem mem_channel_of_pop {d e : Nat} {req r : Req} {rest : List Req}
    (hchannel : s.channel v d = req :: rest) (hr : r ∈ s.pop v d rest v e) :
    r ∈ s.channel v e := by
  by_cases he : e = d
  · subst he
    rw [pop_self] at hr
    rw [hchannel]
    exact List.mem_cons_of_mem _ hr
  · rwa [pop_self_of_ne he] at hr

theorem mem_pop_of_ne {d e : Nat} {req r : Req} {rest : List Req}
    (hchannel : s.channel v d = req :: rest) (hr : r ∈ s.channel v e) (hne : e = d → r ≠ req) :
    r ∈ s.pop v d rest v e := by
  by_cases he : e = d
  · subst he
    rw [pop_self]
    rw [hchannel] at hr
    exact (List.mem_cons.mp hr).resolve_left (hne rfl)
  · rwa [pop_self_of_ne he]

theorem Accounted.channel_pop (hacc : Accounted cl s v) {d e : Nat} {req : Req} {rest : List Req}
    (hchannel : s.channel v d = req :: rest) (he : s.pop v d rest v e ≠ []) :
    v < cl.cfg.numUes ∧ e < cl.numDslNodes := by
  obtain ⟨r, hr⟩ := List.exists_mem_of_ne_nil _ he
  exact hacc.channel e (List.ne_nil_of_mem (mem_channel_of_pop hchannel hr))

/-- Nothing of the node is left where its locks are released. -/
theorem holds_released {d e b : Nat} {n : ServiceNode}
    (hn : n.state.locks = (s.locks d).release v) (hb : ((s.setService d n).locks e).Holds b v) :
    e ≠ d ∧ (s.locks e).Holds b v := by
  by_cases he : e = d
  · subst he
    rw [System.locks, service_setService_self, hn, LockMap.holds_release] at hb
    exact absurd rfl hb.2
  · rw [locks_setService_of_ne he] at hb
    exact ⟨he, hb⟩

/-- The locks that are left elsewhere are accounted for by the messages that are left. -/
theorem Accounted.locks_pop (hacc : Accounted cl s v) {d e b : Nat} {req : Req} {rest : List Req}
    (hchannel : s.channel v d = req :: rest) (he : e ≠ d) (hb : (s.locks e).Holds b v) :
    0 < (s.node v).nodesContacted e ∨ ∃ r ∈ s.pop v d rest v e, r.type = .rmvNode := by
  refine (hacc.locks e b hb).imp_right ?_
  rintro ⟨r, hr, hr'⟩
  exact ⟨r, mem_pop_of_ne hchannel hr fun h => absurd h he, hr'⟩

/-- The sender of a message that is taken. -/
theorem Accounted.handle {d now : Nat} (hacc : Accounted cl s v) (h : Handles cl s d v now s')
    (hlink : Link cl s v) : Accounted cl s' v := by
  cases h with
  | release hserving hch htype =>
    rename_i req rest
    constructor
    case channel => exact fun e he => hacc.channel_pop hch he
    case contacted => exact hacc.contacted
    case cleared => exact hacc.cleared
    case request =>
      -- a request is still where it was: it is not the release that was taken
      intro p a hphase
      obtain ⟨hpos, hrequested⟩ := hacc.request p a hphase
      refine ⟨hpos, ?_⟩
      obtain ⟨r, hr, hne⟩ | ⟨sv, hsv, hsender⟩ | hreply := hrequested
      · refine Or.inl ⟨r, mem_pop_of_ne hch hr ?_, hne⟩
        rintro - rfl
        exact hne htype
      · refine Or.inr (Or.inl ⟨sv, ?_, hsender⟩)
        have hne : cl.responsibleNode a ≠ d := by
          rintro rfl
          rw [hserving] at hsv
          cases hsv
        rwa [service_setService_of_ne _ _ _ hne]
      · exact Or.inr (Or.inr hreply)
    case refused =>
      intro p a conflict hphase hreply hno b hb
      exact hacc.refused p a conflict hphase hreply hno b (holds_released rfl hb).2
    case locks =>
      intro e b hb
      obtain ⟨he, hb⟩ := holds_released rfl hb
      exact hacc.locks_pop hch he hb
  | refuse hserving hch hrw hverdict =>
    obtain ⟨p, a, ts, hwaits, -, -, rfl, -⟩ := hlink.of_request hch hrw.not_release
    constructor
    case channel => exact fun e he => hacc.channel_pop hch he
    case contacted => exact hacc.contacted
    case cleared => exact hacc.cleared
    case request =>
      -- the request is answered
      intro p' a' hphase
      refine ⟨(hacc.request p' a' hphase).1, Or.inr (Or.inr ?_)⟩
      simp
    case refused =>
      -- and the service node has released what it had granted
      intro p' a' conflict hphase _ _ b hb
      rw [show (s.node v).phase = _ from hphase, Phase.waiting.injEq] at hwaits
      exact (holds_released rfl hb).1 (congrArg cl.responsibleNode hwaits.2)
    case locks =>
      intro e b hb
      obtain ⟨he, hb⟩ := holds_released rfl hb
      exact hacc.locks_pop hch he hb
  | accept hserving hch hrw hverdict =>
    obtain ⟨p, a, ts, hwaits, hreply, -, rfl, -⟩ := hlink.of_request hch hrw.not_release
    constructor
    case channel => exact fun e he => hacc.channel_pop hch he
    case contacted => exact hacc.contacted
    case cleared => exact hacc.cleared
    case request =>
      -- the request is with the service node
      intro p' a' hphase
      refine ⟨(hacc.request p' a' hphase).1, Or.inr (Or.inl ?_)⟩
      rw [show (s.node v).phase = _ from hphase, Phase.waiting.injEq] at hwaits
      rw [hwaits.2, service_setService_self]
      exact ⟨_, rfl, rfl⟩
    case refused =>
      intro p' a' conflict _ hconflict
      rw [show s.reply v = _ from hconflict] at hreply
      cases hreply
    case locks =>
      -- no lock has changed, and the message that was taken is no release
      intro e b hb
      have hb' : (s.locks e).Holds b v := by
        by_cases he : e = cl.responsibleNode a
        · rw [he] at hb ⊢
          rwa [System.locks, service_setService_self] at hb
        · rwa [locks_setService_of_ne he] at hb
      refine (hacc.locks e b hb').imp_right ?_
      rintro ⟨r, hr, hr'⟩
      refine ⟨r, mem_pop_of_ne hch hr ?_, hr'⟩
      rintro - rfl
      exact hrw.not_release hr'

/-- The victim of a request loses its locks, and nobody anything else. -/
theorem Accounted.abortNode {d : Nat} (hacc : Accounted cl s v) (hstep : s.abortNode d = some s') :
    Accounted cl s' v := by
  obtain ⟨sender, address, rw, conflict, victim, victims, hserving, ⟨-, rfl⟩ | ⟨-, rfl⟩⟩ :=
    abortNode_eq_some hstep
  · exact hacc
  · refine hacc.frame rfl rfl rfl ?_ ?_
    · intro e sv hsv hsender
      by_cases he : e = d
      · subst he
        rw [hserving, Option.some.injEq] at hsv
        subst hsv
        exact ⟨⟨sender, address, rw, conflict, victims⟩, service_setService_self .. ▸ rfl, hsender⟩
      · exact ⟨sv, by simpa only [service_setService_of_ne _ _ _ he] using hsv, hsender⟩
    · intro e a ha
      by_cases he : e = d
      · subst he
        simp only [System.locks, service_setService_self, LockMap.holds_release] at ha
        exact ha.1
      · simpa only [System.locks, service_setService_of_ne _ _ _ he] using ha

theorem Accounted.grant {d : Nat} (hacc : Accounted cl s v) (hlink : Link cl s v)
    (hstep : s.grant d = some s') : Accounted cl s' v := by
  obtain ⟨sender, address, rw, conflict, hserving, rfl⟩ := grant_eq_some hstep
  have hlocks : ∀ e a, ((s.setService d ⟨{ (s.service d).state with
      locks := acquire (s.service d).state.locks sender address rw }, none⟩).locks e).Holds a v →
      (e = d ∧ v = sender) ∨ (s.locks e).Holds a v := by
    intro e a ha
    by_cases he : e = d
    · subst he
      simp only [System.locks, service_setService_self] at ha
      exact (holds_acquire ha).imp_left fun h => ⟨rfl, h⟩
    · rw [locks_setService_of_ne he] at ha
      exact Or.inr ha
  by_cases hv : v = sender
  · subst hv
    obtain ⟨p, hwaits, -, hd, -⟩ := hlink.of_serving hserving
    simp only at hwaits hd
    refine ⟨hacc.channel, hacc.contacted, hacc.cleared, ?_, ?_, ?_⟩
    · intro p' a' hphase
      refine ⟨(hacc.request p' a' hphase).1, Or.inr (Or.inr ?_)⟩
      simp
    · intro p' a' conflict' _ hreply hno
      simp only [Function.update_self, Option.some.injEq] at hreply
      exact absurd hreply.symm hno
    · intro e a ha
      obtain ⟨rfl, -⟩ | ha := hlocks e a ha
      · exact Or.inl (hd ▸ (hacc.request p address hwaits).1)
      · exact hacc.locks e a ha
  · refine hacc.frame rfl rfl (Function.update_of_ne hv ..) ?_ ?_
    · intro e sv hsv hsender
      have he : e ≠ d := by
        rintro rfl
        rw [hserving, Option.some.injEq] at hsv
        subst hsv
        exact hv hsender.symm
      exact ⟨sv, by simpa only [service_setService_of_ne _ _ _ he] using hsv, hsender⟩
    · intro e a ha
      exact (hlocks e a ha).resolve_left fun h => hv h.2

/-- The nodes that do not move. -/
theorem Accounted.of_acts {u : Nat} {a : Action} (hacc : Accounted cl s u) (h : Acts cl s v a s')
    (hu : u ≠ v) : Accounted cl s' u := by
  have hsame := h.sameFor hu
  refine hacc.frame hsame.node hsame.channel hsame.reply ?_ ?_
  · rw [h.service_eq]
    exact fun _ sv hsv hsender => ⟨sv, hsv, hsender⟩
  · unfold System.locks
    rw [h.service_eq]
    exact fun _ _ ha => ha

theorem Accounted.of_handles {u d now : Nat} (hacc : Accounted cl s u)
    (h : Handles cl s d v now s') (hu : u ≠ v) : Accounted cl s' u := by
  have hsame := h.sameFor hu
  obtain ⟨req, rest, hserving, -, -, hself⟩ := h.service_self
  refine hacc.frame hsame.node hsame.channel hsame.reply ?_ ?_
  · intro e sv hsv hsender
    have he : e ≠ d := by
      rintro rfl
      rw [hserving] at hsv
      cases hsv
    exact ⟨sv, by rwa [h.service_of_ne he], hsender⟩
  · intro e a ha
    by_cases he : e = d
    · subst he
      obtain hself | ⟨_, _, -, -, hself⟩ := hself
      · rw [System.locks, hself] at ha
        exact (LockMap.holds_release.mp ha).1
      · rwa [System.locks, hself] at ha
    · rwa [System.locks, h.service_of_ne he] at ha

end Steps

end System

end TM2C
