import TM2C.SystemSteps

/-!
# What holds in every state of the system

The phase of a node, its abort flag, its messages, what the service nodes are
doing for it and the locks it was granted fit together, and the locks of every
service node exclude each other.  A step leaves the view of all nodes but one
alone, so each step is checked for that node only.

`Link` is the part on messages: the request that a node waits for is in exactly one place, last
in its channel, with the service node, or answered; a node that does not wait has nothing under
way but releases (`Quiet`).  `NodeInv` joins it to the flag, which reads `PERSISTING_WRITES`
exactly in the phase `persisting`, to the write locks that the phase has so far, and to what
carries all the theorems on isolation: an attempt that is alive holds every lock that it was
granted, and no release of it is on its way there.  `ServiceInv` has the exclusion of the lock
map, and that the lock being served can be had once the victims are gone.

`SameFor` collects what a step must leave alone for the invariant of another node to survive; the
steps of a node do so by inspection.  The steps of a service node are the interesting ones: the
abort of a victim ends its being alive before its locks are taken, and a grant adds to what was
granted as it adds to the lock map.
-/

namespace TM2C

open Transition

namespace System

def locks (s : System) (d : Nat) : LockMap Nat Nat := (s.service d).state.locks

/-- The attempt of the node can still commit: it was neither killed nor refused. -/
structure Alive (s : System) (v : Nat) : Prop where
  active : (s.node v).phase.active = true
  flag : s.abortFlag v = .noConflict ∨ s.abortFlag v = .persistingWrites
  reply : s.reply v = none ∨ s.reply v = some .noConflict

/-! ### Requests and replies -/

def Releases (reqs : List Req) : Prop := ∀ req ∈ reqs, req.type = .rmvNode

def Unserved (s : System) (v : Nat) : Prop :=
  ∀ d sv, (s.service d).serving = some sv → sv.sender ≠ v

/-- Nothing is under way for the node but releases. -/
structure Quiet (s : System) (v : Nat) : Prop where
  reply : s.reply v = none
  unserved : s.Unserved v
  releases : ∀ d, Releases (s.channel v d)

/-- The request that a node waits for is in one place: last in its channel, with
the service node, or in the reply. -/
inductive Link (cl : Cluster) (s : System) (v : Nat) : Prop
  | quiet (hphase : ∀ p a, (s.node v).phase ≠ .waiting p a) (h : s.Quiet v)
  | requested {p : Purpose} {a ts : Nat} {before : List Req}
      (hphase : (s.node v).phase = .waiting p a) (hreply : s.reply v = none)
      (hunserved : s.Unserved v)
      (hhome : s.channel v (cl.responsibleNode a) = before ++ [⟨p.reqType, a, 0, ts⟩])
      (hbefore : Releases before)
      (helse : ∀ d, d ≠ cl.responsibleNode a → Releases (s.channel v d))
  | served {p : Purpose} {a : Nat} (hphase : (s.node v).phase = .waiting p a)
      (hreply : s.reply v = none)
      (hserved : ∀ d sv, (s.service d).serving = some sv → sv.sender = v →
        d = cl.responsibleNode a ∧ sv.address = a ∧ sv.rw = p.rw)
      (hhome : s.channel v (cl.responsibleNode a) = [])
      (hreleases : ∀ d, Releases (s.channel v d))
  | replied {p : Purpose} {a : Nat} {response : Conflict}
      (hphase : (s.node v).phase = .waiting p a) (hreply : s.reply v = some response)
      (hunserved : s.Unserved v) (hreleases : ∀ d, Releases (s.channel v d))
      (hgranted : response = .noConflict → (a, p.rw) ∈ s.granted v)

theorem Link.quiet_of_phase {cl : Cluster} {s : System} {v : Nat} (h : Link cl s v)
    (hphase : ∀ p a, (s.node v).phase ≠ .waiting p a) : s.Quiet v := by
  cases h with
  | quiet _ h => exact h
  | requested hp => exact absurd hp (hphase _ _)
  | served hp => exact absurd hp (hphase _ _)
  | replied hp => exact absurd hp (hphase _ _)

theorem Link.of_reply {cl : Cluster} {s : System} {v : Nat} {response : Conflict}
    (h : Link cl s v) (hreply : s.reply v = some response) :
    s.Unserved v ∧ (∀ d, Releases (s.channel v d)) ∧ ∀ p a, (s.node v).phase = .waiting p a →
      response = .noConflict → (a, p.rw) ∈ s.granted v := by
  cases h with
  | quiet _ h =>
    rw [h.reply] at hreply
    cases hreply
  | requested _ hr =>
    rw [hr] at hreply
    cases hreply
  | served _ hr =>
    rw [hr] at hreply
    cases hreply
  | replied hphase hr hunserved hreleases hgranted =>
    rw [hr, Option.some.injEq] at hreply
    subst hreply
    refine ⟨hunserved, hreleases, ?_⟩
    intro p a hp
    rw [hphase, Phase.waiting.injEq] at hp
    obtain ⟨rfl, rfl⟩ := hp
    exact hgranted

theorem Link.of_serving {cl : Cluster} {s : System} {d : Nat} {sv : Serving}
    (h : Link cl s sv.sender) (hserving : (s.service d).serving = some sv) :
    ∃ p, (s.node sv.sender).phase = .waiting p sv.address ∧ sv.rw = p.rw ∧
      d = cl.responsibleNode sv.address ∧ s.channel sv.sender d = [] ∧
      (∀ d, Releases (s.channel sv.sender d)) ∧
      ∀ d' sv', (s.service d').serving = some sv' → sv'.sender = sv.sender → d' = d := by
  cases h with
  | quiet _ h => exact absurd rfl (h.unserved d sv hserving)
  | requested _ _ hunserved => exact absurd rfl (hunserved d sv hserving)
  | served hphase _ hserved hhome hreleases =>
    obtain ⟨rfl, rfl, hrw⟩ := hserved d sv hserving rfl
    exact ⟨_, hphase, hrw, rfl, hhome, hreleases, fun d' sv' h h' => (hserved d' sv' h h').1⟩
  | replied _ _ hunserved => exact absurd rfl (hunserved d sv hserving)

theorem Link.reply_of_serving {cl : Cluster} {s : System} {d : Nat} {sv : Serving}
    (h : Link cl s sv.sender) (hserving : (s.service d).serving = some sv) :
    s.reply sv.sender = none := by
  cases h with
  | quiet _ h => exact h.reply
  | requested _ hreply => exact hreply
  | served _ hreply => exact hreply
  | replied _ _ hunserved => exact absurd rfl (hunserved d sv hserving)

/-! ### The write locks of an attempt -/

/-- The entries of the write set that were granted, at each point of the code. -/
def WritesGranted (eager : Bool) (n : TxNode) (granted : List (Nat × RW)) : Prop :=
  (eager = true → ∀ we ∈ n.writeSet.writeEntries, (we.address, RW.write) ∈ granted) ∧
  match n.phase with
  | .idle | .restarting => n.writeSet.writeEntries = []
  | .locked a _ => (a, RW.write) ∈ granted
  | .storingAll i => ∀ we ∈ n.writeSet.writeEntries.take i, (we.address, RW.write) ∈ granted
  | .sending (.storeAll i) a | .waiting (.storeAll i) a =>
    (∀ we ∈ n.writeSet.writeEntries.take i, (we.address, RW.write) ∈ granted) ∧
      ∃ we, n.writeSet.writeEntries[i]? = some we ∧ we.address = a
  | .persisting _ => ∀ we ∈ n.writeSet.writeEntries, (we.address, RW.write) ∈ granted
  | _ => True

theorem WritesGranted.mono {eager : Bool} {n : TxNode} {granted granted' : List (Nat × RW)}
    (h : WritesGranted eager n granted) (hsub : ∀ g ∈ granted, g ∈ granted') :
    WritesGranted eager n granted' := by
  obtain ⟨heager, hphase⟩ := h
  refine ⟨fun he we hwe => hsub _ (heager he we hwe), ?_⟩
  generalize n.phase = phase at hphase ⊢
  cases phase with
  | idle => exact hphase
  | restarting => exact hphase
  | running => trivial
  | sending p a =>
    cases p with
    | txLoad => trivial
    | txStore value => trivial
    | storeAll i => exact ⟨fun we hwe => hsub _ (hphase.1 we hwe), hphase.2⟩
  | waiting p a =>
    cases p with
    | txLoad => trivial
    | txStore value => trivial
    | storeAll i => exact ⟨fun we hwe => hsub _ (hphase.1 we hwe), hphase.2⟩
  | locked a value => exact hsub _ hphase
  | storingAll i => exact fun we hwe => hsub _ (hphase we hwe)
  | persisting i => exact fun we hwe => hsub _ (hphase we hwe)
  | releasing seq => trivial
  | aborting seq => trivial

/-! ### The invariant -/

structure NodeInv (cl : Cluster) (s : System) (v : Nat) : Prop where
  lt : (s.node v).phase ≠ .idle → v < cl.cfg.numUes
  link : Link cl s v
  flag : s.abortFlag v = .persistingWrites ↔ ∃ i, (s.node v).phase = .persisting i
  writes : WritesGranted cl.cfg.eagerWriteAcq (s.node v) (s.granted v)
  room : (s.node v).writeSet.HasRoom
  held : s.Alive v → ∀ g ∈ s.granted v,
    HoldsAs (s.locks (cl.responsibleNode g.1)) g.1 v g.2 ∧
      ∀ req ∈ s.channel v (cl.responsibleNode g.1), req.type ≠ .rmvNode

/-- The requester can have its lock once its victims are gone. -/
structure Acquirable (locks : LockMap Nat Nat) (sv : Serving) : Prop where
  writer : ∀ w, (locks.releaseAll sv.victims).writer sv.address = some w →
    sv.rw = .write ∧ w = sv.sender
  reader : sv.rw = .write → ∀ k, (locks.releaseAll sv.victims).reader sv.address k = true →
    k = sv.sender

structure ServiceInv (cfg : Config) (n : ServiceNode) : Prop where
  exclusive : n.state.locks.Exclusive
  bounded : Bounded cfg n.state.locks
  sender_lt : ∀ sv, n.serving = some sv → sv.sender < cfg.numUes
  conflict : ∀ sv, n.serving = some sv →
    sv.conflict ≠ .noConflict ∧ sv.conflict ≠ .persistingWrites
  acquirable : ∀ sv, n.serving = some sv → Acquirable n.state.locks sv

structure Inv (cl : Cluster) (s : System) : Prop where
  node : ∀ v, NodeInv cl s v
  service : ∀ d, ServiceInv cl.cfg (s.service d)

theorem inv_init (cl : Cluster) (mem : Nat → BitVec 32) : Inv cl (systemInit mem) where
  node v := by
    refine ⟨fun h => absurd rfl h, Link.quiet ?_ ⟨rfl, ?_, ?_⟩, ?_, ?_, hasRoom_writeSetNew, ?_⟩
    · intro p a hc
      cases hc
    · intro d sv hc
      cases hc
    · intro d req hreq
      cases hreq
    · constructor
      · intro hc
        cases hc
      · rintro ⟨i, hc⟩
        cases hc
    · exact ⟨fun _ we hwe => absurd hwe List.not_mem_nil, rfl⟩
    · intro halive
      cases halive.active
  service d := by
    refine ⟨LockMap.exclusive_empty, ?_, ?_, ?_, ?_⟩
    · rintro a n (hc | hc) <;> cases hc
    · intro sv hc
      cases hc
    · intro sv hc
      cases hc
    · intro sv hc
      cases hc

/-! ### The nodes that a step does not concern -/

/-- The view that a node has of the two states, with the locks it holds. -/
structure SameFor (s s' : System) (v : Nat) : Prop where
  node : s'.node v = s.node v
  abortFlag : s'.abortFlag v = s.abortFlag v
  reply : s'.reply v = s.reply v
  channel : s'.channel v = s.channel v
  granted : s'.granted v = s.granted v
  serving : ∀ d sv, (s'.service d).serving = some sv → sv.sender = v →
    ∃ sv', (s.service d).serving = some sv' ∧ sv'.sender = v ∧ sv'.address = sv.address ∧
      sv'.rw = sv.rw
  locks : ∀ d a rw, HoldsAs (s.locks d) a v rw → HoldsAs (s'.locks d) a v rw

theorem Unserved.of_serving {s s' : System} {v : Nat} (h : s.Unserved v)
    (hserving : ∀ d sv, (s'.service d).serving = some sv → sv.sender = v →
      ∃ sv', (s.service d).serving = some sv' ∧ sv'.sender = v ∧ sv'.address = sv.address ∧
        sv'.rw = sv.rw) : s'.Unserved v := by
  intro d sv hsv hv
  obtain ⟨sv', hsv', hv', -⟩ := hserving d sv hsv hv
  exact h d sv' hsv' hv'

theorem Link.frame {cl : Cluster} {s s' : System} {v : Nat} (h : Link cl s v)
    (hnode : s'.node v = s.node v) (hreply : s'.reply v = s.reply v)
    (hchannel : s'.channel v = s.channel v) (hgranted : s'.granted v = s.granted v)
    (hserving : ∀ d sv, (s'.service d).serving = some sv → sv.sender = v →
      ∃ sv', (s.service d).serving = some sv' ∧ sv'.sender = v ∧ sv'.address = sv.address ∧
        sv'.rw = sv.rw) : Link cl s' v := by
  cases h with
  | quiet hphase h =>
    refine Link.quiet ?_ ⟨?_, h.unserved.of_serving hserving, ?_⟩
    · rw [hnode]
      exact hphase
    · rw [hreply, h.reply]
    · rw [hchannel]
      exact h.releases
  | requested hphase hr hunserved hhome hbefore helse =>
    refine Link.requested ((congrArg TxNode.phase hnode).trans hphase) (hreply.trans hr)
      (hunserved.of_serving hserving) ((congrFun hchannel _).trans hhome) hbefore ?_
    rw [hchannel]
    exact helse
  | served hphase hr hserved hhome hreleases =>
    refine Link.served ((congrArg TxNode.phase hnode).trans hphase) (hreply.trans hr) ?_
      ((congrFun hchannel _).trans hhome) ?_
    · intro d sv hsv hv
      obtain ⟨sv', hsv', hv', haddress, hrw⟩ := hserving d sv hsv hv
      rw [← haddress, ← hrw]
      exact hserved d sv' hsv' hv'
    · rw [hchannel]
      exact hreleases
  | replied hphase hr hunserved hreleases hg =>
    refine Link.replied ((congrArg TxNode.phase hnode).trans hphase) (hreply.trans hr)
      (hunserved.of_serving hserving) ?_ ?_
    · rw [hchannel]
      exact hreleases
    · rw [hgranted]
      exact hg

theorem SameFor.alive {s s' : System} {v : Nat} (h : SameFor s s' v) (halive : s'.Alive v) :
    s.Alive v where
  active := h.node ▸ halive.active
  flag := h.abortFlag ▸ halive.flag
  reply := h.reply ▸ halive.reply

theorem NodeInv.frame {cl : Cluster} {s s' : System} {v : Nat} (h : NodeInv cl s v)
    (hsame : SameFor s s' v) : NodeInv cl s' v where
  lt := by
    rw [hsame.node]
    exact h.lt
  link := h.link.frame hsame.node hsame.reply hsame.channel hsame.granted hsame.serving
  flag := by
    rw [hsame.node, hsame.abortFlag]
    exact h.flag
  writes := by
    rw [hsame.node, hsame.granted]
    exact h.writes
  room := by
    rw [hsame.node]
    exact h.room
  held := by
    intro halive g hg
    rw [hsame.granted] at hg
    obtain ⟨hlock, hchannel⟩ := h.held (hsame.alive halive) g hg
    rw [hsame.channel]
    exact ⟨hsame.locks _ _ _ hlock, hchannel⟩

/-- The steps of a node do not concern the others. -/
theorem Acts.sameFor {cl : Cluster} {s s' : System} {u v : Nat} {a : Action}
    (h : Acts cl s u a s') (hne : v ≠ u) : SameFor s s' v where
  node := by
    cases h <;> first | rfl | exact Function.update_of_ne hne ..
  abortFlag := by
    cases h <;> first | rfl | exact Function.update_of_ne hne ..
  reply := by
    cases h <;> first | rfl | exact Function.update_of_ne hne ..
  channel := by
    cases h with
    | rlsAll =>
      simp only [push]
      split
      · exact Function.update_of_ne hne ..
      · rfl
    | send => exact Function.update_of_ne hne ..
    | _ => rfl
  granted := by
    cases h <;> first | rfl | exact Function.update_of_ne hne ..
  serving := by
    rw [h.service_eq]
    intro d sv hsv hv
    exact ⟨sv, hsv, hv, rfl, rfl⟩
  locks := by
    intro d a rw hlock
    unfold System.locks
    rwa [h.service_eq]

/-! ### The steps of a node -/

/-- Outside `TX_START` an attempt that is alive was alive. -/
theorem Acts.alive {cl : Cluster} {s s' : System} {v : Nat} {a : Action} (h : Acts cl s v a s')
    (halive : s'.Alive v) :
    ((∃ now, a = .txStart now) ∧ s'.granted v = []) ∨ (s.Alive v ∧ s'.granted = s.granted) := by
  obtain ⟨hactive, hflag, hreply⟩ := halive
  have hkeep : ∀ {phase : Phase}, (s.node v).phase = phase → phase.active = true →
      s'.granted = s.granted → (s.abortFlag v = .noConflict ∨ s.abortFlag v = .persistingWrites) →
      (s.reply v = none ∨ s.reply v = some .noConflict) →
      ((∃ now, a = .txStart now) ∧ s'.granted v = []) ∨
        (s.Alive v ∧ s'.granted = s.granted) :=
    fun hphase hactive hg hf hr => Or.inr ⟨⟨hphase ▸ hactive, hf, hr⟩, hg⟩
  cases h with
  | start => exact Or.inl ⟨⟨_, rfl⟩, Function.update_self ..⟩
  | buffered => exact Or.inr ⟨⟨hactive, hflag, hreply⟩, rfl⟩
  | abort =>
    simp only [enter, node_setNode_self] at hactive
    cases hactive
  | request _ hfrom =>
    obtain ⟨hphase, -⟩ | ⟨i, we, hphase, -⟩ := hfrom
    · exact hkeep hphase rfl rfl hflag hreply
    · exact hkeep hphase rfl rfl hflag hreply
  | insert _ hfrom =>
    obtain ⟨hphase, -⟩ | hphase := hfrom
    · exact hkeep hphase rfl rfl hflag hreply
    · exact hkeep hphase rfl rfl hflag hreply
  | commit hphase => exact hkeep hphase rfl rfl hflag hreply
  | send hphase => exact hkeep hphase rfl rfl hflag hreply
  | refused =>
    simp only [node_setNode_self] at hactive
    cases hactive
  | answered hphase hr => exact hkeep hphase rfl rfl hflag (Or.inr hr)
  | deref => exact Or.inr ⟨⟨hactive, hflag, hreply⟩, rfl⟩
  | persisting hphase _ hf => exact hkeep hphase rfl rfl (Or.inl hf) hreply
  | persist hphase => exact hkeep hphase rfl rfl hflag hreply
  | committed =>
    simp only [enter, node_setNode_self] at hactive
    cases hactive
  | rlsAll hphase =>
    simp only [node_setNode_self] at hactive
    obtain ⟨-, rfl⟩ | ⟨-, rfl⟩ := hphase <;> cases hactive
  | finish =>
    simp only [node_setNode_self] at hactive
    cases hactive
  | restart =>
    simp only [node_setNode_self] at hactive
    cases hactive

theorem Acts.lt {cl : Cluster} {s s' : System} {v : Nat} {a : Action} (h : Acts cl s v a s')
    (hlt : (s.node v).phase ≠ .idle → v < cl.cfg.numUes) (hphase : (s'.node v).phase ≠ .idle) :
    v < cl.cfg.numUes := by
  by_cases hidle : (s.node v).phase = .idle
  · cases h with
    | start hfrom => simpa [hidle] using hfrom
    | buffered => exact absurd hidle hphase
    | _ => simp_all
  · exact hlt hidle

/-- Outside of an exchange with a service node only releases are sent. -/
theorem Link.quiet_step {cl : Cluster} {s s' : System} {v : Nat} (h : Link cl s v)
    (hold : ∀ p a, (s.node v).phase ≠ .waiting p a) (hnew : ∀ p a, (s'.node v).phase ≠ .waiting p a)
    (hreply : s'.reply v = s.reply v) (hservice : s'.service = s.service)
    (hchannel : ∀ d, Releases (s.channel v d) → Releases (s'.channel v d)) : Link cl s' v := by
  have hquiet := h.quiet_of_phase hold
  refine Link.quiet hnew ⟨hreply.trans hquiet.reply, ?_, ?_⟩
  · unfold Unserved
    rw [hservice]
    exact hquiet.unserved
  · exact fun d => hchannel d (hquiet.releases d)

theorem Link.sent {cl : Cluster} {s s' : System} {v address : Nat} {p : Purpose} {ts : Nat}
    (h : Link cl s v) (hold : (s.node v).phase = .sending p address)
    (hnew : (s'.node v).phase = .waiting p address) (hreply : s'.reply = s.reply)
    (hservice : s'.service = s.service)
    (hchannel : s'.channel =
      s.push v (cl.responsibleNode address) ⟨p.reqType, address, 0, ts⟩) : Link cl s' v := by
  have hquiet := h.quiet_of_phase (by simp [hold])
  have hhome : s'.channel v (cl.responsibleNode address) =
      s.channel v (cl.responsibleNode address) ++ [⟨p.reqType, address, 0, ts⟩] := by
    simp only [hchannel, push, Function.update_self]
  refine Link.requested hnew ((congrFun hreply v).trans hquiet.reply) ?_ hhome
    (hquiet.releases (cl.responsibleNode address)) ?_
  · unfold Unserved
    rw [hservice]
    exact hquiet.unserved
  · intro d hd
    simpa [hchannel, push, Function.update_of_ne hd] using hquiet.releases d

theorem Link.received {cl : Cluster} {s s' : System} {v : Nat} {response : Conflict}
    (h : Link cl s v) (hsome : s.reply v = some response) (hreply : s'.reply v = none)
    (hnew : ∀ p a, (s'.node v).phase ≠ .waiting p a) (hservice : s'.service = s.service)
    (hchannel : s'.channel = s.channel) : Link cl s' v := by
  obtain ⟨hunserved, hreleases, -⟩ := h.of_reply hsome
  refine Link.quiet hnew ⟨hreply, ?_, ?_⟩
  · unfold Unserved
    rw [hservice]
    exact hunserved
  · rw [hchannel]
    exact hreleases

theorem Releases.push_release {s : System} {v d e : Nat} {req : Req} (hreq : req.type = .rmvNode)
    (h : Releases (s.channel v d)) : Releases (s.push v e req v d) := by
  intro r hr
  by_cases hd : d = e
  · subst hd
    simp only [push, Function.update_self, List.mem_append, List.mem_singleton] at hr
    obtain hr | rfl := hr
    · exact h r hr
    · exact hreq
  · simp only [push, Function.update_self, Function.update_of_ne hd] at hr
    exact h r hr

theorem Acts.link {cl : Cluster} {s s' : System} {v : Nat} {a : Action} (h : Acts cl s v a s')
    (hlink : Link cl s v) : Link cl s' v := by
  cases h with
  | start hfrom =>
    refine hlink.quiet_step ?_ (by simp [txRunning]) rfl rfl fun _ h => h
    obtain ⟨hfrom, -⟩ | hfrom := hfrom <;> simp [hfrom]
  | buffered => exact hlink
  | abort hfrom =>
    refine hlink.quiet_step ?_ (by simp) rfl rfl fun _ h => h
    obtain hfrom | ⟨_, _, hfrom⟩ | ⟨_, hfrom⟩ := hfrom <;> simp [hfrom]
  | request _ hfrom =>
    refine hlink.quiet_step ?_ (by simp) rfl rfl fun _ h => h
    obtain ⟨hfrom, -⟩ | ⟨_, _, hfrom, -⟩ := hfrom <;> simp [hfrom]
  | insert _ hfrom =>
    refine hlink.quiet_step ?_ (by simp) rfl rfl fun _ h => h
    obtain ⟨hfrom, -⟩ | hfrom := hfrom <;> simp [hfrom]
  | commit hfrom => exact hlink.quiet_step (by simp [hfrom]) (by simp) rfl rfl fun _ h => h
  | send hfrom =>
    exact hlink.sent hfrom (congrArg TxNode.phase (node_setNode_self ..)) rfl rfl rfl
  | refused hfrom hreply =>
    exact hlink.received hreply (Function.update_self ..) (by simp) rfl rfl
  | answered hfrom hreply =>
    rename_i p address
    refine hlink.received hreply (Function.update_self ..) ?_ rfl rfl
    cases p <;> simp [Purpose.next]
  | deref hfrom => exact hlink.quiet_step (by simp [hfrom]) (by simp [hfrom]) rfl rfl fun _ h => h
  | persisting hfrom => exact hlink.quiet_step (by simp [hfrom]) (by simp) rfl rfl fun _ h => h
  | persist hfrom => exact hlink.quiet_step (by simp [hfrom]) (by simp) rfl rfl fun _ h => h
  | committed hfrom => exact hlink.quiet_step (by simp [hfrom]) (by simp) rfl rfl fun _ h => h
  | rlsAll hfrom =>
    refine hlink.quiet_step ?_ ?_ rfl rfl ?_
    · obtain ⟨hfrom, -⟩ | ⟨hfrom, -⟩ := hfrom <;> simp [hfrom]
    · obtain ⟨-, rfl⟩ | ⟨-, rfl⟩ := hfrom <;> simp
    · intro d hreleases
      simp only
      split
      · exact hreleases.push_release rfl
      · exact hreleases
  | finish hfrom => exact hlink.quiet_step (by simp [hfrom]) (by simp) rfl rfl fun _ h => h
  | restart hfrom => exact hlink.quiet_step (by simp [hfrom]) (by simp) rfl rfl fun _ h => h

theorem Acts.flag {cl : Cluster} {s s' : System} {v : Nat} {a : Action} (h : Acts cl s v a s')
    (hflag : s.abortFlag v = .persistingWrites ↔ ∃ i, (s.node v).phase = .persisting i) :
    s'.abortFlag v = .persistingWrites ↔ ∃ i, (s'.node v).phase = .persisting i := by
  cases h with
  | start => simp [txRunning]
  | buffered => exact hflag
  | abort hfrom =>
    obtain hfrom | ⟨_, _, hfrom⟩ | ⟨_, hfrom⟩ := hfrom <;> simpa [hfrom] using hflag
  | request hf => simp [hf]
  | insert hf => simp [hf]
  | commit hfrom => simpa [hfrom] using hflag
  | send hfrom => simpa [hfrom] using hflag
  | refused hfrom => simpa [hfrom] using hflag
  | answered hfrom =>
    rename_i p _ _
    cases p <;> simpa [hfrom, Purpose.next] using hflag
  | deref => exact hflag
  | persisting => simp
  | persist hfrom => simpa [hfrom] using hflag
  | committed => simp
  | rlsAll hfrom =>
    obtain ⟨hfrom, rfl⟩ | ⟨hfrom, rfl⟩ := hfrom <;> simpa [hfrom] using hflag
  | finish hfrom => simpa [hfrom] using hflag
  | restart hfrom => simpa [hfrom] using hflag

theorem Acts.writes {cl : Cluster} {s s' : System} {v : Nat} {a : Action} (h : Acts cl s v a s')
    (hlink : Link cl s v)
    (hwrites : WritesGranted cl.cfg.eagerWriteAcq (s.node v) (s.granted v)) :
    WritesGranted cl.cfg.eagerWriteAcq (s'.node v) (s'.granted v) := by
  obtain ⟨heager, hphase⟩ := hwrites
  cases h with
  | start hfrom =>
    have hempty : (s.node v).writeSet.writeEntries = [] := by
      obtain ⟨hfrom, -⟩ | hfrom := hfrom
      · simpa [hfrom] using hphase
      · simpa [hfrom] using hphase
    simp [WritesGranted, txRunning, hempty]
  | buffered => exact ⟨heager, hphase⟩
  | abort => exact ⟨by simpa using heager, by simp⟩
  | request _ hfrom =>
    refine ⟨by simpa using heager, ?_⟩
    obtain ⟨-, hp⟩ | ⟨i, we, hfrom, rfl, hwe, rfl⟩ := hfrom
    · rename_i p _ _ _
      cases p with
      | txLoad => simp
      | txStore value => simp
      | storeAll i => exact absurd rfl (hp i)
    · simp only [hfrom] at hphase
      simpa using ⟨hphase, we, hwe, rfl⟩
  | insert _ hfrom _ hws =>
    -- with `EAGER_WRITE_ACQ` the lock came before the entry
    refine ⟨?_, by simp⟩
    intro he
    obtain ⟨-, hlazy⟩ | hfrom := hfrom
    · rw [he] at hlazy
      cases hlazy
    · simp only [hfrom] at hphase
      simp only [node_setNode_self]
      exact forall_writeSetInsert hws (heager he) hphase
  | commit hfrom hi =>
    rename_i i
    refine ⟨by simpa using heager, ?_⟩
    simp only [enter, node_setNode_self]
    intro we hwe
    cases i with
    | zero => simp at hwe
    | succ i => exact heager (hi (Nat.succ_pos i)) we (List.mem_of_mem_take hwe)
  | send hfrom =>
    rename_i now p address
    refine ⟨by simpa using heager, ?_⟩
    simp only [hfrom] at hphase
    cases p with
    | txLoad => simp
    | txStore value => simp
    | storeAll i => simpa using hphase
  | refused => exact ⟨by simpa using heager, by simp⟩
  | answered hfrom hreply =>
    rename_i p address
    have hgranted := (hlink.of_reply hreply).2.2 p address hfrom rfl
    refine ⟨by simpa using heager, ?_⟩
    simp only [hfrom] at hphase
    cases p with
    | txLoad => simp [Purpose.next]
    | txStore value => simpa [Purpose.next, Purpose.rw] using hgranted
    | storeAll i =>
      -- one more entry is locked
      obtain ⟨hupto, we, hwe, rfl⟩ := hphase
      simp only [enter, node_setNode_self, Purpose.next]
      intro we' hwe'
      rw [List.take_add_one, hwe, List.mem_append] at hwe'
      obtain hwe' | hwe' := hwe'
      · exact hupto we' hwe'
      · rw [Option.toList_some, List.mem_singleton] at hwe'
        exact hwe' ▸ hgranted
  | deref => exact ⟨heager, hphase⟩
  | persisting hfrom hi =>
    -- the loop of `tm2c_rpc_store_all` has been through all entries
    simp only [hfrom, List.take_of_length_le hi] at hphase
    exact ⟨by simpa using heager, by simpa using hphase⟩
  | persist hfrom =>
    simp only [hfrom] at hphase
    exact ⟨by simpa using heager, by simpa using hphase⟩
  | committed => exact ⟨by simpa using heager, by simp⟩
  | rlsAll hfrom =>
    refine ⟨by simpa using heager, ?_⟩
    obtain ⟨-, rfl⟩ | ⟨-, rfl⟩ := hfrom
    · simp
    · simp
  | finish => simp [WritesGranted, writeSetEmpty]
  | restart => simp [WritesGranted, writeSetEmpty]

/-- Only the loop of `tm2c_rpc_rls_all` sends a release. -/
theorem Acts.release_mem {cl : Cluster} {s s' : System} {v : Nat} {a : Action}
    (h : Acts cl s v a s') (hactive : (s'.node v).phase.active = true) {d : Nat} {req : Req}
    (hreq : req ∈ s'.channel v d) (htype : req.type = .rmvNode) : req ∈ s.channel v d := by
  cases h with
  | send =>
    rename_i now p address _
    by_cases hd : d = cl.responsibleNode address
    · subst hd
      simp only [push, Function.update_self, List.mem_append, List.mem_singleton] at hreq
      obtain hreq | rfl := hreq
      · exact hreq
      · cases p <;> cases htype
    · simpa [push, Function.update_of_ne hd] using hreq
  | rlsAll hfrom =>
    simp only [node_setNode_self] at hactive
    obtain ⟨-, rfl⟩ | ⟨-, rfl⟩ := hfrom <;> cases hactive
  | _ => exact hreq

/-- A write set only grows where its array can, and keeps the array when it is emptied. -/
theorem Acts.room {cl : Cluster} {s s' : System} {v : Nat} {a : Action} (h : Acts cl s v a s')
    (hroom : (s.node v).writeSet.HasRoom) : (s'.node v).writeSet.HasRoom := by
  cases h with
  | insert _ _ _ hws =>
    rw [node_setNode_self]
    exact hroom.insert hws
  | finish | restart =>
    simp only [node_setNode_self]
    exact hroom.empty
  | _ => simpa [txRunning] using hroom

theorem Acts.held {cl : Cluster} {s s' : System} {v : Nat} {a : Action} (h : Acts cl s v a s')
    (hinv : NodeInv cl s v) (halive : s'.Alive v) : ∀ g ∈ s'.granted v,
      HoldsAs (s'.locks (cl.responsibleNode g.1)) g.1 v g.2 ∧
        ∀ req ∈ s'.channel v (cl.responsibleNode g.1), req.type ≠ .rmvNode := by
  intro g hg
  obtain ⟨-, hempty⟩ | ⟨hs, heq⟩ := h.alive halive
  · rw [hempty] at hg
    cases hg
  · rw [heq] at hg
    obtain ⟨hlock, hchannel⟩ := hinv.held hs g hg
    refine ⟨?_, ?_⟩
    · unfold System.locks
      rwa [h.service_eq]
    · intro req hreq htype
      exact hchannel req (h.release_mem halive.active hreq htype) htype

theorem Acts.nodeInv {cl : Cluster} {s s' : System} {v : Nat} {a : Action} (h : Acts cl s v a s')
    (hinv : NodeInv cl s v) : NodeInv cl s' v where
  lt := h.lt hinv.lt
  link := h.link hinv.link
  flag := h.flag hinv.flag
  writes := h.writes hinv.link hinv.writes
  room := h.room hinv.room
  held := h.held hinv

/-! ### Taking a message -/

theorem pop_of_ne {s : System} {u v d : Nat} {rest : List Req} (h : v ≠ u) :
    s.pop u d rest v = s.channel v := Function.update_of_ne h ..

@[simp] theorem pop_self (s : System) (v d : Nat) (rest : List Req) :
    s.pop v d rest v d = rest := by
  simp [pop]

theorem pop_self_of_ne {s : System} {v d e : Nat} {rest : List Req} (h : e ≠ d) :
    s.pop v d rest v e = s.channel v e := by
  simp [pop, Function.update_of_ne h]

/-- A release that leaves its channel. -/
theorem Link.pop {cl : Cluster} {s : System} {v d : Nat} {req : Req} {rest : List Req}
    (h : Link cl s v) (hchannel : s.channel v d = req :: rest) (htype : req.type = .rmvNode) :
    Link cl { s with channel := s.pop v d rest } v := by
  have hreleases : ∀ e, Releases (s.channel v e) → Releases (s.pop v d rest v e) := by
    intro e he
    by_cases hd : e = d
    · subst hd
      rw [hchannel] at he
      rw [pop_self]
      exact fun r hr => he r (List.mem_cons_of_mem _ hr)
    · rwa [pop_self_of_ne hd]
  cases h with
  | quiet hphase h =>
    exact Link.quiet hphase ⟨h.reply, h.unserved, fun e => hreleases e (h.releases e)⟩
  | requested hphase hreply hunserved hhome hbefore helse =>
    rename_i p a ts before
    by_cases hd : cl.responsibleNode a = d
    · subst hd
      cases before with
      | nil =>
        rw [hchannel, List.nil_append, List.cons.injEq] at hhome
        rw [hhome.1] at htype
        cases p <;> cases htype
      | cons r before =>
        rw [hchannel, List.cons_append, List.cons.injEq] at hhome
        refine Link.requested hphase hreply hunserved ((pop_self ..).trans hhome.2)
          (fun r hr => hbefore r (List.mem_cons_of_mem _ hr)) ?_
        exact fun e he => hreleases e (helse e he)
    · exact Link.requested hphase hreply hunserved ((pop_self_of_ne hd).trans hhome) hbefore
        fun e he => hreleases e (helse e he)
  | served hphase hreply hserved hhome hr =>
    rename_i p a
    have hd : cl.responsibleNode a ≠ d := by
      rintro rfl
      rw [hhome] at hchannel
      cases hchannel
    exact Link.served hphase hreply hserved ((pop_self_of_ne hd).trans hhome)
      fun e => hreleases e (hr e)
  | replied hphase hreply hunserved hr hgranted =>
    exact Link.replied hphase hreply hunserved (fun e => hreleases e (hr e)) hgranted

/-- A request at the head of a channel is the one that the node waits for. -/
theorem Link.of_request {cl : Cluster} {s : System} {v d : Nat} {req : Req} {rest : List Req}
    (h : Link cl s v) (hchannel : s.channel v d = req :: rest) (htype : req.type ≠ .rmvNode) :
    ∃ p a ts, (s.node v).phase = .waiting p a ∧ s.reply v = none ∧ s.Unserved v ∧
      d = cl.responsibleNode a ∧ req = ⟨p.reqType, a, 0, ts⟩ ∧ rest = [] ∧
      ∀ e, e ≠ d → Releases (s.channel v e) := by
  have hnot : ∀ {e}, Releases (s.channel v e) → e ≠ d := by
    rintro e he rfl
    rw [hchannel] at he
    exact htype (he req List.mem_cons_self)
  cases h with
  | quiet _ h => exact absurd rfl (hnot (h.releases d))
  | requested hphase hreply hunserved hhome hbefore helse =>
    rename_i p a ts before
    have hd : cl.responsibleNode a = d := by
      by_contra hd
      exact hnot (helse d (Ne.symm hd)) rfl
    subst hd
    cases before with
    | nil =>
      rw [hchannel, List.nil_append, List.cons.injEq] at hhome
      exact ⟨p, a, ts, hphase, hreply, hunserved, rfl, hhome.1, hhome.2, helse⟩
    | cons r before =>
      rw [hchannel, List.cons_append, List.cons.injEq] at hhome
      rw [hhome.1] at htype
      exact absurd (hbefore r List.mem_cons_self) htype
  | served _ _ _ _ hr => exact absurd rfl (hnot (hr d))
  | replied _ _ _ hr => exact absurd rfl (hnot (hr d))

theorem locks_setService_of_ne {s : System} {d e : Nat} {n : ServiceNode} (h : e ≠ d) :
    (s.setService d n).locks e = s.locks e := by
  unfold System.locks
  rw [service_setService_of_ne _ _ _ h]

theorem Handles.sameFor {cl : Cluster} {s s' : System} {d u v now : Nat}
    (h : Handles cl s d u now s') (hne : v ≠ u) : SameFor s s' v where
  node := by cases h <;> rfl
  abortFlag := by cases h <;> rfl
  reply := by
    cases h <;> first | rfl | exact Function.update_of_ne hne ..
  channel := by
    cases h <;> exact pop_of_ne hne
  granted := by cases h <;> rfl
  serving := by
    intro e sv hsv hv
    by_cases he : e = d
    · subst he
      obtain ⟨req, rest, -, -, -, hself | ⟨rw, victims, -, -, hself⟩⟩ := h.service_self
      · rw [hself] at hsv
        cases hsv
      · rw [hself, Option.some.injEq] at hsv
        subst hsv
        exact absurd hv.symm hne
    · rw [h.service_of_ne he] at hsv
      exact ⟨sv, hsv, hv, rfl, rfl⟩
  locks := by
    intro e a rw hlock
    unfold System.locks
    by_cases he : e = d
    · subst he
      obtain ⟨req, rest, -, -, -, hself | ⟨rw', victims, -, -, hself⟩⟩ := h.service_self
      · rw [hself]
        exact holdsAs_release.mpr ⟨hlock, hne⟩
      · rw [hself]
        exact hlock
    · rw [h.service_of_ne he]
      exact hlock

theorem Handles.link {cl : Cluster} {s s' : System} {d v now : Nat}
    (h : Handles cl s d v now s') (hlink : Link cl s v) : Link cl s' v := by
  have hunserved : s.Unserved v → ∀ n : ServiceNode, n.serving = none →
      (s.setService d n).Unserved v := by
    intro hs n hn e sv hsv
    by_cases he : e = d
    · subst he
      rw [service_setService_self, hn] at hsv
      cases hsv
    · rw [service_setService_of_ne _ _ _ he] at hsv
      exact hs e sv hsv
  have hempty : ∀ e, e ≠ d → Releases (s.channel v e) → Releases (s.pop v d [] v e) := by
    intro e he hr
    rwa [pop_self_of_ne he]
  cases h with
  | release hserving hchannel htype =>
    refine (hlink.pop hchannel htype).frame rfl rfl rfl rfl ?_
    intro e sv hsv hv
    by_cases he : e = d
    · subst he
      rw [service_setService_self] at hsv
      cases hsv
    · rw [service_setService_of_ne _ _ _ he] at hsv
      exact ⟨sv, hsv, hv, rfl, rfl⟩
  | refuse hserving hchannel hrw hverdict =>
    obtain ⟨p, a, ts, hphase, -, hs, rfl, rfl, rfl, helse⟩ :=
      hlink.of_request hchannel hrw.not_release
    -- a refusal is a reply, and leaves no other message
    refine Link.replied hphase (Function.update_self ..) ?_ ?_ ?_
    · exact hunserved hs ⟨_, none⟩ rfl
    · intro e
      by_cases he : e = cl.responsibleNode a
      · subst he
        intro r hr
        simp at hr
      · exact hempty e he (helse e he)
    · intro hc
      exact absurd hc (refuse_ne_noConflict hverdict)
  | accept hserving hchannel hrw hverdict =>
    obtain ⟨p, a, ts, hphase, hreply, hs, rfl, rfl, rfl, helse⟩ :=
      hlink.of_request hchannel hrw.not_release
    refine Link.served hphase hreply ?_ (pop_self ..) ?_
    · intro e sv hsv hv
      by_cases he : e = cl.responsibleNode a
      · subst he
        rw [service_setService_self, Option.some.injEq] at hsv
        subst hsv
        exact ⟨rfl, rfl, hrw.rw_eq⟩
      · rw [service_setService_of_ne _ _ _ he] at hsv
        exact absurd hv (hs e sv hsv)
    · intro e
      by_cases he : e = cl.responsibleNode a
      · subst he
        intro r hr
        simp at hr
      · exact hempty e he (helse e he)

theorem Handles.held {cl : Cluster} {s s' : System} {d v now : Nat}
    (h : Handles cl s d v now s') (hinv : NodeInv cl s v) (halive : s'.Alive v) :
    ∀ g ∈ s'.granted v, HoldsAs (s'.locks (cl.responsibleNode g.1)) g.1 v g.2 ∧
      ∀ req ∈ s'.channel v (cl.responsibleNode g.1), req.type ≠ .rmvNode := by
  cases h with
  | release hserving hchannel htype =>
    intro g hg
    obtain ⟨hlock, hrest⟩ := hinv.held ⟨halive.active, halive.flag, halive.reply⟩ g hg
    have hd : cl.responsibleNode g.1 ≠ d := by
      rintro rfl
      exact hrest _ (hchannel ▸ List.mem_cons_self) htype
    simp only [channel_setService, pop_self_of_ne hd]
    rw [locks_setService_of_ne hd]
    exact ⟨hlock, hrest⟩
  | refuse hserving hchannel hrw hverdict =>
    -- the reply ends the attempt
    have hreply := halive.reply
    simp only [Function.update_self, Option.some.injEq, reduceCtorEq, false_or] at hreply
    exact absurd hreply (refuse_ne_noConflict hverdict)
  | accept hserving hchannel hrw hverdict =>
    intro g hg
    obtain ⟨hlock, hrest⟩ := hinv.held ⟨halive.active, halive.flag, halive.reply⟩ g hg
    by_cases hd : cl.responsibleNode g.1 = d
    · subst hd
      refine ⟨?_, ?_⟩
      · simp only [System.locks, service_setService_self, stamped]
        exact hlock
      · intro r hr
        simp only [channel_setService, pop_self] at hr
        exact hrest r (hchannel ▸ List.mem_cons_of_mem _ hr)
    · simp only [channel_setService, pop_self_of_ne hd]
      rw [locks_setService_of_ne hd]
      exact ⟨hlock, hrest⟩

theorem Handles.nodeInv {cl : Cluster} {s s' : System} {d v now : Nat}
    (h : Handles cl s d v now s') (hinv : NodeInv cl s v) : NodeInv cl s' v where
  lt := by
    cases h <;> exact hinv.lt
  link := h.link hinv.link
  flag := by
    cases h <;> exact hinv.flag
  writes := by
    cases h <;> exact hinv.writes
  room := by
    cases h <;> exact hinv.room
  held := h.held hinv

theorem attackConflict_ne (locks : LockMap Nat Nat) (id addr : Nat) (rw : RW) :
    attackConflict locks id addr rw ≠ .noConflict ∧
      attackConflict locks id addr rw ≠ .persistingWrites := by
  cases rw with
  | read => exact ⟨by simp [attackConflict], by simp [attackConflict]⟩
  | write =>
    cases hw : locks.writer addr with
    | none => exact ⟨by simp [attackConflict, hw], by simp [attackConflict, hw]⟩
    | some w =>
      by_cases hne : w = id
      · exact ⟨by simp [attackConflict, hw, hne], by simp [attackConflict, hw, hne]⟩
      · exact ⟨by simp [attackConflict, hw, hne], by simp [attackConflict, hw, hne]⟩

theorem ServiceInv.release {cfg : Config} {n : ServiceNode} (h : ServiceInv cfg n)
    {state : LockService} (hlocks : state.locks = n.state.locks) (v : Nat) :
    ServiceInv cfg ⟨serveRelease cfg state v, none⟩ where
  exclusive := by
    simp only [serveRelease, hlocks]
    exact h.exclusive.release v
  bounded := by
    intro a k hk
    simp only [serveRelease, hlocks] at hk
    exact h.bounded a k (LockMap.holds_release.mp hk).1
  sender_lt := fun sv hsv => by cases hsv
  conflict := fun sv hsv => by cases hsv
  acquirable := fun sv hsv => by cases hsv

theorem Handles.serviceInv {cl : Cluster} {s s' : System} {d v now : Nat}
    (h : Handles cl s d v now s') (hnode : NodeInv cl s v)
    (hinv : ∀ e, ServiceInv cl.cfg (s.service e)) (e : Nat) :
    ServiceInv cl.cfg (s'.service e) := by
  by_cases he : e = d
  · subst he
    obtain ⟨req, rest, -, hchannel, -, hself | ⟨rw, victims, hrw, hverdict, hself⟩⟩ :=
      h.service_self
    · rw [hself]
      exact (hinv e).release (by rfl) v
    · rw [hself]
      obtain ⟨p, a, ts, hphase, -⟩ := hnode.link.of_request hchannel hrw.not_release
      refine ⟨(hinv e).exclusive, (hinv e).bounded, ?_, ?_, ?_⟩
      · intro sv hsv
        obtain rfl := Option.some.inj hsv
        exact hnode.lt (by simp [hphase])
      · intro sv hsv
        obtain rfl := Option.some.inj hsv
        exact attackConflict_ne ..
      · intro sv hsv
        obtain rfl := Option.some.inj hsv
        refine ⟨fun w hw => writer_of_granted hverdict hw, ?_⟩
        rintro rfl k hk
        exact reader_of_granted (hinv e).exclusive (hinv e).bounded hverdict hk
  · rw [h.service_of_ne he]
    exact hinv e

/-! ### Aborting a victim and granting -/

/-- What was acquirable with the victim in the way still is without it. -/
theorem ServiceInv.released {cfg : Config} {n : ServiceNode} {sender address victim : Nat} {rw : RW}
    {conflict : Conflict} {victims : List Nat} (h : ServiceInv cfg n)
    (hserving : n.serving = some ⟨sender, address, rw, conflict, victim :: victims⟩) :
    ServiceInv cfg ⟨{ n.state with locks := n.state.locks.release victim },
      some ⟨sender, address, rw, conflict, victims⟩⟩ := by
  have hacq := h.acquirable _ hserving
  refine ⟨h.exclusive.release victim, ?_, ?_, ?_, ?_⟩
  · intro a k hk
    exact h.bounded a k (LockMap.holds_release.mp hk).1
  · have hlt := h.sender_lt _ hserving
    intro sv' hsv
    obtain rfl := Option.some.inj hsv
    exact hlt
  · have hconflict := h.conflict _ hserving
    intro sv' hsv
    obtain rfl := Option.some.inj hsv
    exact hconflict
  · intro sv' hsv
    obtain rfl := Option.some.inj hsv
    exact ⟨hacq.writer, hacq.reader⟩

/-- An acquirable lock is acquired. -/
theorem ServiceInv.acquired {cfg : Config} {n : ServiceNode} {sender address : Nat} {rw : RW}
    {conflict : Conflict} (h : ServiceInv cfg n)
    (hserving : n.serving = some ⟨sender, address, rw, conflict, []⟩) :
    ServiceInv cfg ⟨{ n.state with
      locks := acquire n.state.locks sender address rw }, none⟩ := by
  have hacq := h.acquirable _ hserving
  refine ⟨?_, ?_, ?_, ?_, ?_⟩
  · cases rw with
    | read => exact h.exclusive.acquireRead fun w hw => (hacq.writer w hw).2
    | write => exact h.exclusive.acquireWrite fun k hk => hacq.reader rfl k hk
  · intro a k hk
    obtain rfl | hk := holds_acquire hk
    · exact h.sender_lt _ hserving
    · exact h.bounded a k hk
  · intro sv' hsv
    cases hsv
  · intro sv' hsv
    cases hsv
  · intro sv' hsv
    cases hsv

theorem Inv.abortNode {cl : Cluster} {s s' : System} {d : Nat} (h : Inv cl s)
    (hstep : s.abortNode d = some s') : Inv cl s' := by
  obtain ⟨sender, address, rw, conflict, victim, victims, hserving, ⟨-, rfl⟩ | ⟨hflag, rfl⟩⟩ :=
    abortNode_eq_some hstep
  · exact h
  have hserve : ∀ v e sv, ((s.setService d
      ⟨{ (s.service d).state with locks := (s.service d).state.locks.release victim },
        some ⟨sender, address, rw, conflict, victims⟩⟩).service e).serving = some sv →
      sv.sender = v → ∃ sv', (s.service e).serving = some sv' ∧ sv'.sender = v ∧
        sv'.address = sv.address ∧ sv'.rw = sv.rw := by
    intro v e sv hsv hv
    by_cases he : e = d
    · subst he
      rw [service_setService_self, Option.some.injEq] at hsv
      subst hsv
      exact ⟨_, hserving, hv, rfl, rfl⟩
    · rw [service_setService_of_ne _ _ _ he] at hsv
      exact ⟨sv, hsv, hv, rfl, rfl⟩
  have hdead := casAbortFlag_ne hflag ((h.service d).conflict _ hserving)
  constructor
  · intro v
    by_cases hv : v = victim
    · -- the victim is not alive any more, and its locks at this service node are gone
      subst hv
      have hinv := h.node v
      refine ⟨hinv.lt, hinv.link.frame rfl rfl rfl rfl (hserve v), ?_, hinv.writes, hinv.room,
        ?_⟩
      · simp only [Function.update_self]
        exact ⟨fun hc => absurd hc hdead.2, fun hc => absurd (hinv.flag.mpr hc) hflag⟩
      · intro halive
        have := halive.flag
        simp only [Function.update_self] at this
        obtain hc | hc := this
        · exact absurd hc hdead.1
        · exact absurd hc hdead.2
    · refine (h.node v).frame ⟨rfl, Function.update_of_ne hv .., rfl, rfl, rfl, hserve v, ?_⟩
      intro e a rw' hlock
      unfold System.locks
      by_cases he : e = d
      · subst he
        simp only [service_setService_self]
        exact holdsAs_release.mpr ⟨hlock, hv⟩
      · simp only [service_setService_of_ne _ _ _ he]
        exact hlock
  · intro e
    by_cases he : e = d
    · subst he
      simp only [service_setService_self]
      exact (h.service e).released hserving
    · simp only [service_setService_of_ne _ _ _ he]
      exact h.service e

theorem Inv.grant {cl : Cluster} {s s' : System} {d : Nat} (h : Inv cl s)
    (hstep : s.grant d = some s') : Inv cl s' := by
  obtain ⟨sender, address, rw, conflict, hserving, rfl⟩ := grant_eq_some hstep
  have hacq := (h.service d).acquirable _ hserving
  have hnode := h.node sender
  obtain ⟨p, hphase, hrw, hd, hempty, hreleases, honly⟩ := hnode.link.of_serving hserving
  simp only at hphase hrw hd hempty hreleases honly
  -- nobody else loses a lock
  have hkeep : ∀ e v a rw', HoldsAs (s.locks e) a v rw' →
      HoldsAs ((s.setService d ⟨{ (s.service d).state with
        locks := acquire (s.service d).state.locks sender address rw },
        none⟩).locks e) a v rw' := by
    intro e v a rw' hlock
    by_cases he : e = d
    · subst he
      simp only [System.locks, service_setService_self]
      exact holdsAs_acquire_of_holdsAs hlock fun _ w hw => (hacq.writer w hw).2
    · rwa [locks_setService_of_ne he]
  constructor
  · intro v
    by_cases hv : v = sender
    · -- the sender has its answer, and holds what it was granted
      subst hv
      refine ⟨hnode.lt, ?_, hnode.flag, ?_, hnode.room, ?_⟩
      · refine Link.replied hphase (Function.update_self ..) ?_ hreleases ?_
        · intro e sv hsv hsender
          by_cases he : e = d
          · subst he
            simp only [service_setService_self] at hsv
            cases hsv
          · simp only [service_setService_of_ne _ _ _ he] at hsv
            exact he (honly e sv hsv hsender)
        · intro _
          simp [hrw]
      · refine hnode.writes.mono ?_
        intro g hg
        simp only [Function.update_self, List.mem_append]
        exact Or.inl hg
      · intro halive g hg
        have hreply : s.reply v = none := hnode.link.reply_of_serving hserving
        simp only [Function.update_self, List.mem_append, List.mem_singleton] at hg
        obtain hg | rfl := hg
        · obtain ⟨hlock, hrest⟩ := hnode.held ⟨halive.active, halive.flag, Or.inl hreply⟩ g hg
          exact ⟨hkeep _ _ _ _ hlock, hrest⟩
        · refine ⟨?_, ?_⟩
          · subst hd
            simp only [System.locks, service_setService_self]
            exact holdsAs_acquire ..
          · intro req hreq
            simp only [channel_setService, ← hd, hempty] at hreq
            cases hreq
    · refine (h.node v).frame ⟨rfl, rfl, Function.update_of_ne hv .., rfl,
        Function.update_of_ne hv .., ?_, fun e a rw' => hkeep e v a rw'⟩
      intro e sv hsv hsender
      by_cases he : e = d
      · subst he
        simp only [service_setService_self] at hsv
        cases hsv
      · simp only [service_setService_of_ne _ _ _ he] at hsv
        exact ⟨sv, hsv, hsender, rfl, rfl⟩
  · intro e
    by_cases he : e = d
    · subst he
      simp only [service_setService_self]
      exact (h.service e).acquired hserving
    · simp only [service_setService_of_ne _ _ _ he]
      exact h.service e

/-! ### Every step -/

theorem inv_step {cl : Cluster} {s s' : System} {e : SystemEvent} (h : Inv cl s)
    (hstep : s.step cl e = some s') : Inv cl s' := by
  cases e with
  | node v a =>
    have hacts := acts_of_act hstep
    constructor
    · intro u
      by_cases hu : u = v
      · subst hu
        exact hacts.nodeInv (h.node u)
      · exact (h.node u).frame (hacts.sameFor hu)
    · intro d
      rw [hacts.service_eq]
      exact h.service d
  | handle d v now =>
    have hhandles := handles_of_handle hstep
    constructor
    · intro u
      by_cases hu : u = v
      · subst hu
        exact hhandles.nodeInv (h.node u)
      · exact (h.node u).frame (hhandles.sameFor hu)
    · exact hhandles.serviceInv (h.node v) h.service
  | abortNode d => exact h.abortNode hstep
  | grant d => exact h.grant hstep

end System

end TM2C
