import TM2C.Atomicity

/-!
# Serial runs

A transaction that runs alone is never refused: the service nodes grant what nobody else holds,
the node releases everything at the end, and it leaves the system as it found it but for the
memory.  So every run of atomic blocks is the run of a system.  The counters `nodes_contacted`
have 16 bits, which bounds the number of requests of a transaction.

The states are taken apart by what a node that is alone goes through.  `AtRest` is a node for
which nothing is under way, `Alone` a system in which all others are, and all locks belong to the
one that is not.  Then every request is granted in four steps (`Exchange`), because there is
nobody in the way, and every release is taken at once.  `Running` adds the budget: what
`nodes_contacted` may still grow by, with two requests at most for each operation that is left,
one when it is executed and one for its entry at the commit.

The lemmas for single operations are put together by the structure of the block, which gives
`Running.run`, and with the commit and the release `TxInv.solo`: the transaction runs from rest
to rest, and the memory and the variables of its node are afterwards what the block alone makes
of them.  `Resting` is kept, so that the runs can be joined.
-/

namespace TM2C

open AtomicBlocks Transition

namespace System

@[simp] theorem reply_setService (s : System) (d : Nat) (n : ServiceNode) :
    (s.setService d n).reply = s.reply := rfl

@[simp] theorem abortFlag_setService (s : System) (d : Nat) (n : ServiceNode) :
    (s.setService d n).abortFlag = s.abortFlag := rfl

/-! ### A node that is alone -/

/-- A node between its attempts, for which nothing is under way. -/
structure AtRest (s : System) (u : Nat) : Prop where
  phase : (s.node u).phase = .idle ∨ (s.node u).phase = .restarting
  nodesContacted : ∀ d, (s.node u).nodesContacted d = 0
  reply : s.reply u = none
  channel : ∀ d, s.channel u d = []

/-- All nodes but `v` are at rest, and `v` is to release every lock that there is. -/
structure Alone (cl : Cluster) (s : System) (v : Nat) : Prop where
  others : ∀ u, u ≠ v → s.AtRest u
  serving : ∀ d, (s.service d).serving = none
  locks : ∀ d a w, (s.locks d).Holds a w → w = v ∧ 0 < (s.node v).nodesContacted d
  contacted : ∀ d, 0 < (s.node v).nodesContacted d → d < cl.numDslNodes
  reply : s.reply v = none
  channel : ∀ d, s.channel v d = []

theorem AtRest.frame {s s' : System} {u : Nat} (h : s.AtRest u) (hnode : s'.node u = s.node u)
    (hreply : s'.reply u = s.reply u) (hchannel : s'.channel u = s.channel u) : s'.AtRest u where
  phase := by
    rw [hnode]
    exact h.phase
  nodesContacted := by
    rw [hnode]
    exact h.nodesContacted
  reply := by rw [hreply, h.reply]
  channel := by
    rw [hchannel]
    exact h.channel

/-- Nobody stands in the way of a request, unless it is to read what the node itself writes. -/
theorem verdict_of_alone {cfg : Config} {timestamp : Nat → Nat} {locks : LockMap Nat Nat}
    {v a : Nat} {rw : RW} (halone : ∀ a w, locks.Holds a w → w = v)
    (hwriter : rw = .read → locks.writer a = none) :
    verdict cfg timestamp locks v a rw = .grant [] := by
  have hreaders : ∀ conflict,
      attackReaders cfg timestamp v (locks.reader a) conflict = .grant [] := by
    intro conflict
    refine if_pos ?_
    rw [List.filter_eq_nil_iff]
    intro n _ hn
    rw [Bool.and_eq_true, decide_eq_true_eq] at hn
    exact hn.2 (halone a n (Or.inr hn.1))
  cases rw with
  | read => rw [verdict, hwriter rfl]
  | write =>
    cases hw : locks.writer a with
    | none => simp only [verdict, hw, hreaders]
    | some w =>
      have heq := halone a w (Or.inl hw)
      simp only [verdict, hw, heq, ne_eq, not_true_eq_false, if_false, hreaders]

variable {cl : Cluster} {s t u : System} {v : Nat}

/-- A run of steps that are no operations of a transaction. -/
def Underneath (cl : Cluster) (s t : System) : Prop :=
  ∃ es, Exec (partialGraph (step cl)) s es t ∧ ∀ e ∈ es, e.underneath = true

theorem Underneath.refl (cl : Cluster) (s : System) : Underneath cl s s :=
  ⟨[], Exec.nil s, fun _ he => absurd he List.not_mem_nil⟩

theorem Underneath.step {e : SystemEvent} (he : e.underneath = true) (hstep : s.step cl e = some t)
    (h : Underneath cl t u) : Underneath cl s u := by
  obtain ⟨es, hexec, hes⟩ := h
  exact ⟨e :: es, Exec.cons hstep hexec, List.forall_mem_cons.mpr ⟨he, hes⟩⟩

theorem Underneath.trans (h : Underneath cl s t) (h' : Underneath cl t u) :
    Underneath cl s u := by
  obtain ⟨es, hexec, hes⟩ := h
  obtain ⟨es', hexec', hes'⟩ := h'
  refine ⟨es ++ es', hexec.append hexec', ?_⟩
  intro e he
  obtain he | he := List.mem_append.mp he
  · exact hes e he
  · exact hes' e he

/-- What an exchange with a service node gives a node that is alone. -/
structure Exchange (cl : Cluster) (s : System) (v a : Nat) (p : Purpose) (s' : System) :
    Prop where
  alone : s'.Alone cl v
  phase : (s'.node v).phase = p.next a
  writeSet : (s'.node v).writeSet = (s.node v).writeSet
  abortFlag : s'.abortFlag = s.abortFlag
  granted : s'.granted v = s.granted v ++ [(a, p.rw)]
  contacted : ∀ d, (s'.node v).nodesContacted d ≤ (s.node v).nodesContacted d + 1
  writer : ∀ d b, (s'.locks d).writer b = some v →
    (s.locks d).writer b = some v ∨ (b = a ∧ p.rw = .write)

theorem writer_acquire {locks : LockMap Nat Nat} {a b n w : Nat} {rw : RW}
    (h : (acquire locks n a rw).writer b = some w) :
    locks.writer b = some w ∨ (b = a ∧ w = n ∧ rw = .write) := by
  cases rw with
  | read => exact Or.inl h
  | write =>
    rw [acquire, LockMap.writer_acquireWrite] at h
    split at h
    · rename_i hb
      exact Or.inr ⟨hb, (Option.some.inj h).symm, rfl⟩
    · exact Or.inl h

theorem handle_of_grant {d now : Nat} {p : Purpose} {req : Req} {rest : List Req}
    {victims : List Nat} (hserving : (s.service d).serving = none)
    (hchannel : s.channel v d = req :: rest) (htype : req.type = p.reqType)
    (hverdict : verdict cl.cfg (s.stamped cl.cfg d v now req).timestamp
      (s.stamped cl.cfg d v now req).locks v req.address p.rw = .grant victims) :
    s.handle cl d v now = some ({ s with channel := s.pop v d rest }.setService d
      ⟨s.stamped cl.cfg d v now req, some ⟨v, req.address, p.rw,
        attackConflict (s.stamped cl.cfg d v now req).locks v req.address p.rw, victims⟩⟩) := by
  have hrw : p.rw = .read ∧ p.reqType = .load ∨ p.rw = .write ∧ p.reqType = .store := by
    cases p with
    | txLoad => exact Or.inl ⟨rfl, rfl⟩
    | txStore value => exact Or.inr ⟨rfl, rfl⟩
    | storeAll i => exact Or.inr ⟨rfl, rfl⟩
  obtain ⟨hrw, hreq⟩ | ⟨hrw, hreq⟩ := hrw
  · rw [hreq] at htype
    rw [hrw] at hverdict ⊢
    simp only [handle, hserving, hchannel, htype, serveRequest, hverdict]
  · rw [hreq] at htype
    rw [hrw] at hverdict ⊢
    simp only [handle, hserving, hchannel, htype, serveRequest, hverdict]

/-- What the four steps of an exchange leave: the message is sent, handled and granted, and the
answer is taken. -/
structure Exchanged (cl : Cluster) (s : System) (v a : Nat) (p : Purpose) (s' : System) :
    Prop where
  node : s'.node v = { s.node v with
    phase := p.next a
    nodesContacted := Function.update (s.node v).nodesContacted (cl.responsibleNode a)
      ((s.node v).nodesContacted (cl.responsibleNode a) + 1) }
  others : ∀ u, u ≠ v → s'.node u = s.node u ∧ s'.reply u = s.reply u ∧ s'.channel u = s.channel u
  reply : s'.reply v = none
  channel : ∀ e, s'.channel v e = []
  serving : (s'.service (cl.responsibleNode a)).serving = none
  locks : s'.locks (cl.responsibleNode a) = acquire (s.locks (cl.responsibleNode a)) v a p.rw
  services : ∀ e, e ≠ cl.responsibleNode a → s'.service e = s.service e
  abortFlag : s'.abortFlag = s.abortFlag
  granted : s'.granted v = s.granted v ++ [(a, p.rw)]

theorem Alone.exchanged (h : s.Alone cl v) {p : Purpose} {a : Nat}
    (hphase : (s.node v).phase = .sending p a)
    (hcount : (s.node v).nodesContacted (cl.responsibleNode a) + 1 < 2 ^ 16)
    (hwriter : p.rw = .read → (s.locks (cl.responsibleNode a)).writer a = none) :
    ∃ s', Underneath cl s s' ∧ Exchanged cl s v a p s' := by
  obtain ⟨d, hd⟩ : ∃ d, d = cl.responsibleNode a := ⟨_, rfl⟩
  rw [← hd] at hcount hwriter
  -- the message
  obtain ⟨req, hreq⟩ : ∃ req : Req, req = ⟨p.reqType, a, 0, (s.node v).txMetadata cl.cfg 0⟩ :=
    ⟨_, rfl⟩
  obtain ⟨s₁, hs₁⟩ : ∃ s₁ : System, s₁ = { s.setNode v { s.node v with
      phase := .waiting p a
      nodesContacted := Function.update (s.node v).nodesContacted d
        ((s.node v).nodesContacted d + 1) } with
      channel := s.push v d req } := ⟨_, rfl⟩
  have hsend : s.act cl v (.send 0) = some s₁ := by
    simp only [act, hphase, ← hd, hs₁, hreq, Nat.mod_eq_of_lt hcount]
  -- the service node takes it
  have hchannel : s₁.channel v d = [req] := by
    simp only [hs₁, push, Function.update_self, h.channel, List.nil_append]
  have hserving : (s₁.service d).serving = none := by
    rw [hs₁]
    exact h.serving d
  have hverdict : verdict cl.cfg (s₁.stamped cl.cfg d v 0 req).timestamp
      (s₁.stamped cl.cfg d v 0 req).locks v req.address p.rw = .grant [] := by
    rw [hs₁, hreq]
    exact verdict_of_alone (fun b w hw => (h.locks d b w hw).1) hwriter
  have htype : req.type = p.reqType := by rw [hreq]
  have hhandle := handle_of_grant hserving hchannel htype hverdict
  generalize attackConflict _ v req.address p.rw = conflict at hhandle
  obtain ⟨s₂, hs₂⟩ : ∃ s₂, s₂ = { s₁ with channel := s₁.pop v d [] }.setService d
    ⟨s₁.stamped cl.cfg d v 0 req, some ⟨v, req.address, p.rw, conflict, []⟩⟩ := ⟨_, rfl⟩
  rw [← hs₂] at hhandle
  -- it grants it
  obtain ⟨s₃, hs₃⟩ : ∃ s₃, s₃ = { s₂.setService d
      ⟨{ (s₂.service d).state with
        locks := acquire (s₂.service d).state.locks v req.address p.rw }, none⟩ with
    reply := Function.update s₂.reply v (some .noConflict)
    granted := Function.update s₂.granted v (s₂.granted v ++ [(req.address, p.rw)]) } := ⟨_, rfl⟩
  have hgrant : s₂.grant d = some s₃ := by
    have hserving₂ : (s₂.service d).serving = some ⟨v, req.address, p.rw, conflict, []⟩ := by
      rw [hs₂, service_setService_self]
    simp only [grant, hserving₂, hs₃]
  -- and the node takes the answer
  obtain ⟨s₄, hs₄⟩ : ∃ s₄, s₄ = { s₃ with reply := Function.update s₃.reply v none }.enter v
    (p.next a) := ⟨_, rfl⟩
  have hrecv : s₃.act cl v .recv = some s₄ := by
    have hphase₃ : (s₃.node v).phase = .waiting p a := by
      simp only [hs₃, hs₂, hs₁, node_setService, node_setNode_self]
    have hreply₃ : s₃.reply v = some .noConflict := by
      simp only [hs₃, Function.update_self]
    simp only [act, hphase₃, hreply₃, hs₄, ne_eq, not_true_eq_false, if_false]
  have hrun : Underneath cl s s₄ := by
    refine Underneath.step (e := .node v (.send 0)) rfl hsend ?_
    refine Underneath.step (e := .handle d v 0) rfl hhandle ?_
    refine Underneath.step (e := .grant d) rfl hgrant ?_
    exact Underneath.step (e := .node v .recv) rfl hrecv (Underneath.refl cl s₄)
  have haddress : req.address = a := by rw [hreq]
  have hservice : s₄.service d = ⟨{ s₁.stamped cl.cfg d v 0 req with
      locks := acquire (s.locks d) v a p.rw }, none⟩ := by
    simp [hs₄, hs₃, hs₂, hs₁, haddress, stamped]
    rfl
  refine ⟨s₄, hrun, ?_, ?_, ?_, ?_, ?_, ?_, ?_, ?_, ?_⟩
  · simp [hs₄, hs₃, hs₂, hs₁, hd]
  · intro u hu
    simp [hs₄, hs₃, hs₂, hs₁, hu, push, pop]
  · simp [hs₄]
  · intro e
    by_cases he : e = d
    · simp [hs₄, hs₃, hs₂, hs₁, pop, he]
    · simp [hs₄, hs₃, hs₂, hs₁, pop, push, he, h.channel]
  · rw [← hd, hservice]
  · rw [← hd, System.locks, hservice]
  · intro e he
    simp [hs₄, hs₃, hs₂, hs₁, service_setService_of_ne _ _ _ (hd ▸ he)]
  · simp [hs₄, hs₃, hs₂, hs₁]
  · simp [hs₄, hs₃, hs₂, hs₁, haddress]

theorem Exchanged.locks_of_ne {a : Nat} {p : Purpose} {s' : System}
    (hs : Exchanged cl s v a p s') {e : Nat} (he : e ≠ cl.responsibleNode a) :
    s'.locks e = s.locks e := by
  rw [System.locks, hs.services e he, System.locks]

theorem Exchanged.nodesContacted {a : Nat} {p : Purpose} {s' : System}
    (hs : Exchanged cl s v a p s') : (s'.node v).nodesContacted =
      Function.update (s.node v).nodesContacted (cl.responsibleNode a)
        ((s.node v).nodesContacted (cl.responsibleNode a) + 1) := by
  rw [hs.node]

/-- A node that is alone still is after an exchange. -/
theorem Alone.of_exchanged (h : s.Alone cl v) {p : Purpose} {a : Nat} {s' : System}
    (hnode : cl.responsibleNode a < cl.numDslNodes) (hs : Exchanged cl s v a p s') :
    s'.Alone cl v := by
  refine ⟨?_, ?_, ?_, ?_, hs.reply, hs.channel⟩
  · intro u hu
    obtain ⟨hnode, hreply, hchannel⟩ := hs.others u hu
    exact (h.others u hu).frame hnode hreply hchannel
  · intro e
    by_cases he : e = cl.responsibleNode a
    · rw [he, hs.serving]
    · rw [hs.services e he]
      exact h.serving e
  · intro e b w hw
    rw [hs.nodesContacted]
    by_cases he : e = cl.responsibleNode a
    · -- the lock is the one just granted, or was there before
      subst he
      rw [hs.locks] at hw
      rw [Function.update_self]
      obtain rfl | hw := holds_acquire hw
      · exact ⟨rfl, Nat.succ_pos _⟩
      · exact ⟨(h.locks _ b w hw).1, Nat.succ_pos _⟩
    · rw [hs.locks_of_ne he] at hw
      rw [Function.update_of_ne he]
      exact h.locks e b w hw
  · intro e he
    rw [hs.nodesContacted] at he
    by_cases hed : e = cl.responsibleNode a
    · exact hed ▸ hnode
    · rw [Function.update_of_ne hed] at he
      exact h.contacted e he

theorem Alone.exchange (h : s.Alone cl v) {p : Purpose} {a : Nat}
    (hphase : (s.node v).phase = .sending p a) (hnode : cl.responsibleNode a < cl.numDslNodes)
    (hcount : (s.node v).nodesContacted (cl.responsibleNode a) + 1 < 2 ^ 16)
    (hwriter : p.rw = .read → (s.locks (cl.responsibleNode a)).writer a = none) :
    ∃ s', Underneath cl s s' ∧ Exchange cl s v a p s' := by
  obtain ⟨s', hrun, hs⟩ := h.exchanged hphase hcount hwriter
  refine ⟨s', hrun, h.of_exchanged hnode hs, ?_, ?_, hs.abortFlag, hs.granted, ?_, ?_⟩
  · rw [hs.node]
  · rw [hs.node]
  · intro e
    rw [hs.nodesContacted]
    by_cases he : e = cl.responsibleNode a
    · rw [he, Function.update_self]
    · rw [Function.update_of_ne he]
      exact Nat.le_succ _
  · intro e b hw
    by_cases he : e = cl.responsibleNode a
    · subst he
      rw [hs.locks] at hw
      exact (writer_acquire hw).imp_right fun h => ⟨h.1, h.2.2⟩
    · rw [hs.locks_of_ne he] at hw
      exact Or.inl hw

/-! ### Releases -/

/-- What one turn of `tm2c_rpc_rls_all` leaves of a node that is alone, with the release
handled. -/
structure Released (cl : Cluster) (s : System) (v seq : Nat) (s' : System) : Prop where
  alone : s'.Alone cl v
  phase : (s'.node v).phase = .releasing (seq + 1)
  contacted : (s'.node v).nodesContacted = Function.update (s.node v).nodesContacted seq 0

theorem Alone.release (h : s.Alone cl v) {seq : Nat} (hphase : (s.node v).phase = .releasing seq)
    (hseq : seq < cl.numDslNodes) : ∃ s', Underneath cl s s' ∧ Released cl s v seq s' := by
  obtain ⟨n, hn⟩ : ∃ n : TxNode, n = { s.node v with
      phase := .releasing (seq + 1)
      nodesContacted := Function.update (s.node v).nodesContacted seq 0 } := ⟨_, rfl⟩
  have hcontacted : n.nodesContacted = Function.update (s.node v).nodesContacted seq 0 := by
    rw [hn]
  by_cases hzero : (s.node v).nodesContacted seq = 0
  · -- the service node was not contacted
    have hrls : s.act cl v (.rlsAll 0) = some (s.setNode v n) := by
      simp only [act, hphase, if_pos hseq, hzero, Nat.lt_irrefl, if_false, hn, gt_iff_lt]
      rfl
    refine ⟨s.setNode v n, Underneath.step (e := .node v (.rlsAll 0)) rfl hrls
      (Underneath.refl cl _), ?_, ?_, ?_⟩
    · refine ⟨fun u hu => (h.others u hu).frame (node_setNode_of_ne _ _ _ hu) rfl rfl, h.serving,
        ?_, ?_, h.reply, h.channel⟩
      · intro d a w hw
        obtain ⟨rfl, hpos⟩ := h.locks d a w hw
        refine ⟨rfl, ?_⟩
        have hd : d ≠ seq := by
          rintro rfl
          omega
        rwa [node_setNode_self, hcontacted, Function.update_of_ne hd]
      · intro d hd
        rw [node_setNode_self, hcontacted] at hd
        by_cases hds : d = seq
        · exact hds ▸ hseq
        · rw [Function.update_of_ne hds] at hd
          exact h.contacted d hd
    · rw [node_setNode_self, hn]
    · rw [node_setNode_self, hcontacted]
  · -- it is, and releases what the node holds
    have hpos : (s.node v).nodesContacted seq > 0 := Nat.pos_of_ne_zero hzero
    obtain ⟨req, hreq⟩ : ∃ req : Req, req = ⟨.rmvNode, 0, 0, (s.node v).txMetadata cl.cfg 0⟩ :=
      ⟨_, rfl⟩
    obtain ⟨s₁, hs₁⟩ : ∃ s₁ : System, s₁ = { s.setNode v n with channel := s.push v seq req } :=
      ⟨_, rfl⟩
    have hrls : s.act cl v (.rlsAll 0) = some s₁ := by
      simp only [act, hphase, if_pos hseq, if_pos hpos, hs₁, hn, hreq]
    have hchannel : s₁.channel v seq = [req] := by
      simp only [hs₁, push, Function.update_self, h.channel, List.nil_append]
    have hserving : (s₁.service seq).serving = none := by
      rw [hs₁]
      exact h.serving seq
    have htype : req.type = .rmvNode := by rw [hreq]
    obtain ⟨s₂, hs₂⟩ : ∃ s₂, s₂ = { s₁ with channel := s₁.pop v seq [] }.setService seq
      ⟨serveRelease cl.cfg (s₁.stamped cl.cfg seq v 0 req) v, none⟩ := ⟨_, rfl⟩
    have hhandle : s₁.handle cl seq v 0 = some s₂ := by
      simp only [handle, hserving, hchannel, htype, hs₂]
    have hnode : s₂.node v = n := by simp [hs₂, hs₁]
    have hlocks : s₂.locks seq = (s.locks seq).release v := by
      simp [System.locks, hs₂, hs₁, serveRelease, stamped]
    have hservice_of_ne : ∀ e, e ≠ seq → s₂.service e = s.service e := by
      intro e he
      simp [hs₂, hs₁, service_setService_of_ne _ _ _ he]
    refine ⟨s₂, Underneath.step (e := .node v (.rlsAll 0)) rfl hrls
      (Underneath.step (e := .handle seq v 0) rfl hhandle (Underneath.refl cl s₂)), ?_, ?_, ?_⟩
    · constructor
      · intro u hu
        refine (h.others u hu).frame ?_ ?_ ?_
        · simp [hs₂, hs₁, hu]
        · simp [hs₂, hs₁]
        · simp [hs₂, hs₁, hu, pop, push]
      · intro e
        by_cases he : e = seq
        · rw [he, hs₂, service_setService_self]
        · rw [hservice_of_ne e he]
          exact h.serving e
      · intro d a w hw
        by_cases hd : d = seq
        · subst hd
          rw [hlocks, LockMap.holds_release] at hw
          exact absurd (h.locks d a w hw.1).1 hw.2
        · rw [System.locks, hservice_of_ne d hd] at hw
          rw [hnode, hcontacted, Function.update_of_ne hd]
          exact h.locks d a w hw
      · intro d hd
        rw [hnode, hcontacted] at hd
        by_cases hds : d = seq
        · exact hds ▸ hseq
        · rw [Function.update_of_ne hds] at hd
          exact h.contacted d hd
      · simp [hs₂, hs₁, h.reply]
      · intro e
        by_cases he : e = seq
        · simp [hs₂, hs₁, pop, he]
        · simp [hs₂, hs₁, pop, push, he, h.channel]
    · rw [hnode, hn]
    · rw [hnode, hcontacted]

theorem Alone.releaseAll (h : s.Alone cl v) {seq : Nat} (remaining : Nat)
    (hremaining : seq + remaining = cl.numDslNodes)
    (hphase : (s.node v).phase = .releasing seq)
    (hzero : ∀ d < seq, (s.node v).nodesContacted d = 0) :
    ∃ s', Underneath cl s s' ∧ s'.Alone cl v ∧
      (s'.node v).phase = .releasing cl.numDslNodes ∧ ∀ d, (s'.node v).nodesContacted d = 0 := by
  induction remaining generalizing s seq with
  | zero =>
    obtain rfl : seq = cl.numDslNodes := hremaining
    refine ⟨s, Underneath.refl cl s, h, hphase, ?_⟩
    intro d
    by_contra hd
    exact hd (hzero d (h.contacted d (Nat.pos_of_ne_zero hd)))
  | succ remaining ih =>
    obtain ⟨t, hrun, hreleased⟩ := h.release hphase (by omega)
    obtain ⟨u, hrun', hu⟩ := ih hreleased.alone (by omega) hreleased.phase (by
      intro d hd
      rw [hreleased.contacted]
      by_cases hds : d = seq
      · rw [hds, Function.update_self]
      · rw [Function.update_of_ne hds]
        exact hzero d (by omega))
    exact ⟨u, hrun.trans hrun', hu⟩

/-- No attempt is under way. -/
structure Settled (s : System) : Prop where
  nodes : ∀ u, s.AtRest u
  serving : ∀ d, (s.service d).serving = none
  locks : ∀ d a w, ¬ (s.locks d).Holds a w

/-- The whole system at rest. -/
structure Quiescent (s : System) : Prop extends Settled s where
  idle : ∀ u, (s.node u).phase = .idle

/-- After a commit the node releases all, and no attempt is under way. -/
theorem Alone.finish (h : s.Alone cl v) (hphase : (s.node v).phase = .releasing 0) :
    ∃ s', Underneath cl s s' ∧ s'.Settled := by
  obtain ⟨t, hrun, halone, hphase, hzero⟩ := h.releaseAll cl.numDslNodes (Nat.zero_add _) hphase
    fun d hd => absurd hd (Nat.not_lt_zero d)
  have hfinish : ∃ u, t.act cl v (.finish 0) = some u ∧ (u.node v).phase = .idle ∧
      (∀ d, (u.node v).nodesContacted d = 0) ∧ (∀ w, w ≠ v → u.node w = t.node w) ∧
      u.reply = t.reply ∧ u.channel = t.channel ∧ u.service = t.service := by
    simp only [act, hphase, Nat.le_refl, if_true, Option.some.injEq, exists_eq_left']
    exact ⟨by simp, by simpa using hzero, fun w hw => by simp [hw], rfl, rfl, rfl⟩
  obtain ⟨u, hact, hidle, hzero', hothers, hreply, hchannel, hservice⟩ := hfinish
  refine ⟨u, hrun.trans (Underneath.step (e := .node v (.finish 0)) rfl hact
    (Underneath.refl cl u)), ?_, ?_, ?_⟩
  · intro w
    by_cases hw : w = v
    · subst hw
      exact ⟨Or.inl hidle, hzero', by rw [hreply, halone.reply],
        fun d => by rw [hchannel, halone.channel]⟩
    · exact (halone.others w hw).frame (hothers w hw) (by rw [hreply]) (by rw [hchannel])
  · rw [hservice]
    exact halone.serving
  · intro d a w hw
    have hlock := (halone.locks d a w (by rwa [System.locks, ← hservice])).2
    rw [hzero] at hlock
    exact Nat.lt_irrefl 0 hlock

theorem Alone.frame {s' : System} (h : s.Alone cl v) (hnode : ∀ u, u ≠ v → s'.node u = s.node u)
    (hcontacted : (s'.node v).nodesContacted = (s.node v).nodesContacted)
    (hreply : s'.reply = s.reply) (hchannel : s'.channel = s.channel)
    (hservice : s'.service = s.service) : s'.Alone cl v where
  others := fun u hu => (h.others u hu).frame (hnode u hu) (by rw [hreply]) (by rw [hchannel])
  serving := by
    rw [hservice]
    exact h.serving
  locks := by
    unfold System.locks
    rw [hservice, hcontacted]
    exact h.locks
  contacted := by
    rw [hcontacted]
    exact h.contacted
  reply := by rw [hreply, h.reply]
  channel := by
    rw [hchannel]
    exact h.channel

/-! ### Persisting -/

theorem Alone.persistLoop (h : s.Alone cl v) {i : Nat} (remaining : Nat)
    (hremaining : i + remaining = (s.node v).writeSet.writeEntries.length)
    (hphase : (s.node v).phase = .persisting i) :
    ∃ s', Underneath cl s s' ∧ s'.Alone cl v ∧
      (s'.node v).phase = .persisting (s'.node v).writeSet.writeEntries.length := by
  induction remaining generalizing s i with
  | zero =>
    obtain rfl : i = _ := hremaining
    exact ⟨s, Underneath.refl cl s, h, hphase⟩
  | succ remaining ih =>
    have hlt : i < (s.node v).writeSet.writeEntries.length := by omega
    obtain ⟨we, hwe⟩ : ∃ we, (s.node v).writeSet.writeEntries[i]? = some we :=
      ⟨_, List.getElem?_eq_getElem hlt⟩
    obtain ⟨t, ht⟩ : ∃ t, t = { s.enter v (.persisting (i + 1)) with
      mem := Function.update s.mem we.address we.i } := ⟨_, rfl⟩
    have hact : s.act cl v .writeEntryPersist = some t := by
      simp only [act, hphase, hwe, Option.map_some, ht]
    have hwriteSet : (t.node v).writeSet = (s.node v).writeSet := by simp [ht]
    have halone : t.Alone cl v := by
      rw [ht]
      exact h.frame (fun u hu => node_setNode_of_ne _ _ _ hu) (by simp) rfl rfl rfl
    obtain ⟨u, hrun, hu⟩ := ih halone (i := i + 1) (by rw [hwriteSet]; omega) (by simp [ht])
    exact ⟨u, Underneath.step (e := .node v .writeEntryPersist) rfl hact hrun, hu⟩

/-- With all locks, the write set is persisted. -/
theorem Alone.persist (h : s.Alone cl v) (hflag : s.abortFlag v = .noConflict)
    (hphase : (s.node v).phase = .storingAll (s.node v).writeSet.writeEntries.length) :
    ∃ s', Underneath cl s s' ∧ s'.Alone cl v ∧
      (s'.node v).phase = .persisting (s'.node v).writeSet.writeEntries.length := by
  obtain ⟨t, ht⟩ : ∃ t, t = { s.enter v (.persisting 0) with
    abortFlag := Function.update s.abortFlag v .persistingWrites } := ⟨_, rfl⟩
  have hact : s.act cl v .setTxPersisting = some t := by
    simp only [act, hphase, Nat.le_refl, if_true, hflag, ht]
    rfl
  have halone : t.Alone cl v := by
    rw [ht]
    exact h.frame (fun u hu => node_setNode_of_ne _ _ _ hu) (by simp) rfl rfl rfl
  obtain ⟨u, hrun, hu⟩ := halone.persistLoop (i := 0) _ (Nat.zero_add _) (by simp [ht])
  exact ⟨u, Underneath.step (e := .node v .setTxPersisting) rfl hact hrun, hu⟩

end System

/-! ### An attempt that is alone -/

namespace TxSystem

variable {σ ι ρ : Type} {cl : Cluster} {program : TxProgram σ ι ρ} {s s' s'' : TxSystem σ ι ρ}
  {v : Nat} {t : TxAttempt ι ρ} {n : Nat} {updated : List Nat}

/-- A run in which nothing begins or commits and only the attempt of `v` changes. -/
def Runs (cl : Cluster) (program : TxProgram σ ι ρ) (v : Nat) (s s' : TxSystem σ ι ρ) : Prop :=
  ∃ es, Exec (partialGraph (step cl program)) s es s' ∧
    (∀ e ∈ es, e.starts = false ∧ e.commits = none) ∧
    s'.thread = s.thread ∧ ∀ u, u ≠ v → s'.attempt u = s.attempt u

theorem Runs.refl (cl : Cluster) (program : TxProgram σ ι ρ) (v : Nat) (s : TxSystem σ ι ρ) :
    Runs cl program v s s :=
  ⟨[], Exec.nil s, fun _ he => absurd he List.not_mem_nil, rfl, fun _ _ => rfl⟩

theorem Runs.trans (h : Runs cl program v s s') (h' : Runs cl program v s' s'') :
    Runs cl program v s s'' := by
  obtain ⟨es, hexec, hes, hthread, hattempt⟩ := h
  obtain ⟨es', hexec', hes', hthread', hattempt'⟩ := h'
  refine ⟨es ++ es', hexec.append hexec', ?_, hthread'.trans hthread, ?_⟩
  · intro e he
    obtain he | he := List.mem_append.mp he
    · exact hes e he
    · exact hes' e he
  · exact fun u hu => (hattempt' u hu).trans (hattempt u hu)

theorem Runs.single {e : TxEvent ι} (hstep : s.step cl program e = some s')
    (he : e.starts = false ∧ e.commits = none) (hthread : s'.thread = s.thread)
    (hattempt : ∀ u, u ≠ v → s'.attempt u = s.attempt u) : Runs cl program v s s' := by
  refine ⟨[e], Exec.cons hstep (Exec.nil _), ?_, hthread, hattempt⟩
  intro e' he'
  obtain rfl := List.mem_singleton.mp he'
  exact he

/-- An operation of the attempt. -/
theorem Runs.operation {t' : TxAttempt ι ρ} {system : System} (ht : s.attempt v = some t)
    (hop : s.operation cl v t = some (s.proceed v t' system)) :
    Runs cl program v s (s.proceed v t' system) := by
  have hstep : s.step cl program (.operation v) = some (s.proceed v t' system) := by
    simp only [step, ht, Option.bind_some, hop]
  exact Runs.single hstep ⟨rfl, rfl⟩ rfl fun u hu => attempt_proceed_of_ne s v t' system hu

theorem Runs.underneath {system : System} (h : System.Underneath cl s.system system) :
    Runs cl program v s { s with system := system } := by
  obtain ⟨es, hexec, hes⟩ := h
  refine ⟨es.map .system, ?_, ?_, rfl, fun _ _ => rfl⟩
  · generalize hsystem : s.system = system₀ at hexec
    induction hexec generalizing s with
    | nil => subst hsystem; exact Exec.nil _
    | @cons a b c e es hstep _ ih =>
      subst hsystem
      obtain ⟨he, hes⟩ := List.forall_mem_cons.mp hes
      refine Exec.cons (t := { s with system := b }) ?_ (ih (s := { s with system := b }) hes rfl)
      have hstep' : s.system.step cl e = some b := hstep
      simp only [partialGraph, step, if_pos he, hstep', Option.map_some]
  · intro e he
    obtain ⟨e, -, rfl⟩ := List.mem_map.mp he
    exact ⟨rfl, rfl⟩

/-- The attempt of a node that is alone, between two operations, at most `n` of which are left. -/
structure Running (cl : Cluster) (s : TxSystem σ ι ρ) (v : Nat) (t : TxAttempt ι ρ) (n : Nat)
    (updated : List Nat) : Prop where
  attempt : s.attempt v = some t
  alone : s.system.Alone cl v
  flag : s.system.abortFlag v = .noConflict
  phase : (s.system.node v).phase = .running
  loaded : t.loaded = false
  rest : t.rest.Within n updated
  writes : ∀ d a, (s.system.locks d).writer a = some v →
    writeSetContains (s.system.node v).writeSet a ≠ none
  room : (s.system.node v).writeSet.HasRoom
  budget : ∀ d, (s.system.node v).nodesContacted d +
    (s.system.node v).writeSet.writeEntries.length + 2 * n < 2 ^ 16
  updated : ∀ a ∈ updated, (a, RW.write) ∈ s.system.granted v

/-- The same transaction, further on. -/
structure SameTx (t t' : TxAttempt ι ρ) : Prop where
  input : t'.input = t.input
  pub : t'.pub = t.pub
  block : t'.block = t.block

theorem SameTx.refl (t : TxAttempt ι ρ) : SameTx t t := ⟨rfl, rfl, rfl⟩

theorem SameTx.trans {t t' t'' : TxAttempt ι ρ} (h : SameTx t t') (h' : SameTx t' t'') :
    SameTx t t'' := ⟨h'.input.trans h.input, h'.pub.trans h.pub, h'.block.trans h.block⟩

namespace Running

/-- A request of the attempt and its answer. -/
theorem request (h : Running cl s v t n updated) (hpos : 0 < n)
    (hnodes : ∀ a, cl.responsibleNode a < cl.numDslNodes) {p : Purpose} {a : Nat}
    (hbuffered : p.rw = .read → writeSetContains (s.system.node v).writeSet a = none) :
    ∃ system, System.Underneath cl (s.system.enter v (.sending p a)) system ∧
      System.Exchange cl (s.system.enter v (.sending p a)) v a p system := by
  have halone : (s.system.enter v (.sending p a)).Alone cl v :=
    h.alone.frame (fun u hu => System.node_setNode_of_ne _ _ _ hu) (by simp) rfl rfl rfl
  refine halone.exchange (by simp) (hnodes a) ?_ ?_
  · have hbudget := h.budget (cl.responsibleNode a)
    simp only [System.enter, System.node_setNode_self]
    omega
  · intro hread
    rw [Option.eq_none_iff_forall_ne_some]
    intro w hw
    obtain ⟨rfl, -⟩ := h.alone.locks _ a w (Or.inl hw)
    exact h.writes _ a hw (hbuffered hread)

theorem load (h : Running cl s v t n updated)
    (hnodes : ∀ a, cl.responsibleNode a < cl.numDslNodes) {a : Nat}
    {next : BitVec 32 → AtomicBlock Nat (BitVec 32) ρ} (hrest : t.rest = .load a next) :
    ∃ s' t', Runs cl program v s s' ∧ Running cl s' v t' (n - 1) updated ∧
      (∃ value, t'.rest = next value) ∧ SameTx t t' := by
  have hwithin := h.rest
  rw [hrest, AtomicBlock.Within] at hwithin
  obtain ⟨hpos, hwithin⟩ := hwithin
  cases hcontains : writeSetContains (s.system.node v).writeSet a with
  | some we =>
    -- the node has stored to the word, and nothing is sent
    have hop : s.operation cl v t =
        some (s.proceed v { t with rest := next we.i } s.system) := by
      simp only [operation, h.phase, hrest, h.loaded, System.act, hcontains]
      rfl
    refine ⟨_, { t with rest := next we.i }, Runs.operation h.attempt hop, ?_, ⟨we.i, rfl⟩, rfl,
      rfl, rfl⟩
    exact ⟨attempt_proceed_self .., h.alone, h.flag, h.phase, h.loaded, hwithin _, h.writes,
      h.room, fun d => by have := h.budget d; simp only [system_proceed]; omega, h.updated⟩
  | none =>
    -- the request and its answer
    obtain ⟨system, hunder, hexchange⟩ := h.request hpos hnodes (p := .txLoad) fun _ => hcontains
    have hop : s.operation cl v t = some (s.proceed v { t with loaded := true }
        (s.system.enter v (.sending .txLoad a))) := by
      simp only [operation, h.phase, hrest, h.loaded, System.act, hcontains, System.chkAborted,
        h.flag]
      rfl
    have hask : Runs cl program v s (s.proceed v { t with loaded := true } system) :=
      (Runs.operation h.attempt hop).trans (Runs.underneath hunder)
    -- the answer grants the lock, and the value is read
    have hgranted : (a, RW.read) ∈ system.granted v := by
      rw [hexchange.granted]
      exact List.mem_append_right _ (List.mem_singleton.mpr rfl)
    have hphase : (system.node v).phase = .running := hexchange.phase
    have hderef : (s.proceed v { t with loaded := true } system).operation cl v
        { t with loaded := true } = some ((s.proceed v { t with loaded := true } system).proceed v
          { t with rest := next (system.mem a), loaded := false } { system with
            reads := Function.update system.reads v (system.reads v ++
              [⟨a, system.mem a, decide (system.abortFlag v = .noConflict)⟩]) }) := by
      simp only [operation, system_proceed, hphase, hrest, System.act, hgranted, if_true]
      rfl
    refine ⟨_, { t with rest := next (system.mem a), loaded := false },
      hask.trans (Runs.operation (attempt_proceed_self ..) hderef), ?_, ⟨_, rfl⟩, rfl, rfl, rfl⟩
    refine ⟨attempt_proceed_self .., ?_, ?_, hphase, rfl, hwithin _, ?_, ?_, ?_, ?_⟩
    · exact hexchange.alone.frame (fun _ _ => rfl) rfl rfl rfl rfl
    · exact (congrFun hexchange.abortFlag v).trans h.flag
    · intro d b hb
      simp only [system_proceed]
      rw [hexchange.writeSet]
      obtain hold | ⟨-, hwrite⟩ := hexchange.writer d b hb
      · simpa using h.writes d b hold
      · cases hwrite
    · simp only [system_proceed]
      rw [hexchange.writeSet]
      simpa using h.room
    · intro d
      have hbudget := h.budget d
      have hcontacted := hexchange.contacted d
      simp only [System.enter, System.node_setNode_self] at hcontacted
      simp only [system_proceed]
      rw [hexchange.writeSet]
      simp only [System.enter, System.node_setNode_self]
      omega
    · intro b hb
      simp only [system_proceed]
      rw [hexchange.granted]
      exact List.mem_append_left _ (h.updated b hb)

theorem contains_insert {ws ws' : WriteSet} {value : BitVec 32} {a b : Nat}
    (hws : writeSetInsert ws .typeInt value a = some ws')
    (h : writeSetContains ws b ≠ none ∨ b = a) : writeSetContains ws' b ≠ none := by
  simp only [writeSetContains, ne_eq, List.find?_eq_none, decide_eq_true_eq, not_forall,
    not_not] at h ⊢
  simp only [writeEntries_of_writeSetInsert hws, List.mem_append, List.mem_singleton]
  obtain ⟨we, hwe, heq⟩ | rfl := h
  · exact ⟨we, Or.inl hwe, heq⟩
  · exact ⟨_, Or.inr rfl, rfl⟩

/-- A transaction within its budget does not fill its write set. -/
theorem exists_insert (h : Running cl s v t n updated) {ws : WriteSet}
    (hws : ws = (s.system.node v).writeSet) (value : BitVec 32) (a : Nat) :
    ∃ ws', writeSetInsert ws .typeInt value a = some ws' := by
  subst hws
  refine (h.room.insert_iff .typeInt value a).mpr ?_
  have hbudget := h.budget 0
  omega

/-- The write lock is there, and the write is buffered. -/
theorem insert (h : Running cl s v t n updated) {a : Nat} {x value : BitVec 32}
    {system : System} {ws : WriteSet} (hexchange : System.Exchange cl
      (s.system.enter v (.sending (.txStore x) a)) v a (.txStore x) system)
    (hpos : 0 < n) {t' : TxAttempt ι ρ} {updated' : List Nat} (hloaded : t'.loaded = false)
    (hrest : t'.rest.Within (n - 1) updated') (hupdated : ∀ b ∈ updated', b = a ∨ b ∈ updated)
    (hws : writeSetInsert (system.node v).writeSet .typeInt value a = some ws)
    (hs' : s'.system = system.setNode v { system.node v with phase := .running, writeSet := ws })
    (ht' : s'.attempt v = some t') : Running cl s' v t' (n - 1) updated' := by
  have hwriteSet : (system.node v).writeSet = (s.system.node v).writeSet := by
    rw [hexchange.writeSet]
    simp
  rw [hwriteSet] at hws
  refine ⟨ht', ?_, ?_, ?_, hloaded, hrest, ?_, ?_, ?_, ?_⟩
  · rw [hs']
    exact hexchange.alone.frame (fun u hu => System.node_setNode_of_ne _ _ _ hu) (by simp) rfl rfl
      rfl
  · rw [hs']
    exact (congrFun hexchange.abortFlag v).trans h.flag
  · rw [hs', System.node_setNode_self]
  · intro d b hb
    rw [hs', System.node_setNode_self]
    rw [hs'] at hb
    refine contains_insert hws ?_
    obtain hold | ⟨hba, -⟩ := hexchange.writer d b hb
    · exact Or.inl (h.writes d b hold)
    · exact Or.inr hba
  · rw [hs', System.node_setNode_self]
    exact h.room.insert hws
  · intro d
    have hbudget := h.budget d
    have hcontacted := hexchange.contacted d
    simp only [System.enter, System.node_setNode_self] at hcontacted
    rw [hs', System.node_setNode_self]
    simp only [writeEntries_of_writeSetInsert hws, List.length_append, List.length_singleton]
    omega
  · intro b hb
    rw [hs', System.granted_setNode, hexchange.granted, List.mem_append, List.mem_singleton]
    obtain rfl | hb := hupdated b hb
    · exact Or.inr rfl
    · exact Or.inl (h.updated b hb)

theorem store (h : Running cl s v t n updated)
    (hnodes : ∀ a, cl.responsibleNode a < cl.numDslNodes) {a : Nat} {value : BitVec 32}
    {next : AtomicBlock Nat (BitVec 32) ρ} (hrest : t.rest = .store a value next) :
    ∃ s' t', Runs cl program v s s' ∧ Running cl s' v t' (n - 1) updated ∧ t'.rest = next ∧
      SameTx t t' := by
  have hwithin := h.rest
  rw [hrest, AtomicBlock.Within] at hwithin
  obtain ⟨hpos, hwithin⟩ := hwithin
  cases heager : cl.cfg.eagerWriteAcq with
  | false =>
    -- the write is buffered, and its lock is left to the commit
    obtain ⟨ws, hws⟩ := h.exists_insert rfl value a
    have hop : s.operation cl v t = some (s.proceed v { t with rest := next }
        (s.system.setNode v { s.system.node v with phase := .running, writeSet := ws })) := by
      simp only [operation, h.phase, hrest, System.act, System.bufferStore, h.flag, heager, hws]
      rfl
    refine ⟨_, { t with rest := next }, Runs.operation h.attempt hop, ?_, rfl, rfl, rfl, rfl⟩
    refine ⟨attempt_proceed_self .., ?_, h.flag, ?_, h.loaded, hwithin, ?_, ?_, ?_, h.updated⟩
    · exact h.alone.frame (fun u hu => System.node_setNode_of_ne _ _ _ hu) (by simp) rfl rfl rfl
    · simp
    · intro d b hb
      simp only [system_proceed, System.node_setNode_self]
      exact contains_insert hws (Or.inl (h.writes d b hb))
    · simp only [system_proceed, System.node_setNode_self]
      exact h.room.insert hws
    · intro d
      have hbudget := h.budget d
      simp only [system_proceed, System.node_setNode_self, writeEntries_of_writeSetInsert hws,
        List.length_append, List.length_singleton]
      omega
  | true =>
    obtain ⟨system, hunder, hexchange⟩ := h.request hpos hnodes (p := .txStore value) (a := a)
      (by rintro ⟨⟩)
    have hop : s.operation cl v t = some (s.proceed v t
        (s.system.enter v (.sending (.txStore value) a))) := by
      simp only [operation, h.phase, hrest, System.act, System.chkAborted, h.flag, heager]
      rfl
    have hask : Runs cl program v s (s.proceed v t system) :=
      (Runs.operation h.attempt hop).trans (Runs.underneath hunder)
    have hphase : (system.node v).phase = .locked a value := hexchange.phase
    have hflag : system.abortFlag v = .noConflict :=
      (congrFun hexchange.abortFlag v).trans h.flag
    obtain ⟨ws, hws⟩ := h.exists_insert (hexchange.writeSet.trans (by simp)) value a
    have hinsert : (s.proceed v t system).operation cl v t =
        some ((s.proceed v t system).proceed v { t with rest := next }
          (system.setNode v { system.node v with phase := .running, writeSet := ws })) := by
      simp only [operation, system_proceed, hphase, hrest, System.act, System.bufferStore, hflag,
        hws]
      rfl
    refine ⟨_, { t with rest := next },
      hask.trans (Runs.operation (attempt_proceed_self ..) hinsert), ?_, rfl, rfl, rfl, rfl⟩
    exact h.insert hexchange hpos h.loaded hwithin (fun b hb => Or.inr hb) hws rfl
      (attempt_proceed_self ..)

theorem update (h : Running cl s v t n updated)
    (hnodes : ∀ a, cl.responsibleNode a < cl.numDslNodes) {a : Nat} {f : BitVec 32 → BitVec 32}
    {next : AtomicBlock Nat (BitVec 32) ρ} (hrest : t.rest = .update a f next) :
    ∃ s' t', Runs cl program v s s' ∧ Running cl s' v t' (n - 1) (a :: updated) ∧
      t'.rest = next ∧ SameTx t t' := by
  have hwithin := h.rest
  rw [hrest, AtomicBlock.Within] at hwithin
  obtain ⟨hpos, hwithin⟩ := hwithin
  obtain ⟨system, hunder, hexchange⟩ := h.request hpos hnodes (p := .txStore 0) (a := a)
    (by rintro ⟨⟩)
  have hop : s.operation cl v t = some (s.proceed v t
      (s.system.enter v (.sending (.txStore 0) a))) := by
    simp only [operation, h.phase, hrest, System.txWlock, System.chkAborted, h.flag]
    rfl
  have hask : Runs cl program v s (s.proceed v t system) :=
    (Runs.operation h.attempt hop).trans (Runs.underneath hunder)
  have hphase : (system.node v).phase = .locked a 0 := hexchange.phase
  obtain ⟨ws, hws⟩ := h.exists_insert (hexchange.writeSet.trans (by simp)) (f (system.mem a)) a
  have hinsert : (s.proceed v t system).operation cl v t =
      some ((s.proceed v t system).proceed v { t with rest := next }
        (system.setNode v { system.node v with phase := .running, writeSet := ws })) := by
    simp only [operation, system_proceed, hphase, hrest, System.insertTemp, hws, Option.map_some]
  refine ⟨_, { t with rest := next },
    hask.trans (Runs.operation (attempt_proceed_self ..) hinsert), ?_, rfl, rfl, rfl, rfl⟩
  exact h.insert hexchange hpos h.loaded hwithin (fun b hb => List.mem_cons.mp hb) hws rfl
    (attempt_proceed_self ..)

theorem peek (h : Running cl s v t n updated) {a : Nat}
    {next : BitVec 32 → AtomicBlock Nat (BitVec 32) ρ} (hrest : t.rest = .peek a next) :
    ∃ s' t', Runs cl program v s s' ∧ Running cl s' v t' (n - 1) updated ∧
      (∃ value, t'.rest = next value) ∧ SameTx t t' := by
  have hwithin := h.rest
  rw [hrest, AtomicBlock.Within] at hwithin
  obtain ⟨-, hupdated, hwithin⟩ := hwithin
  have hany : ((s.system.granted v).any fun g => decide (g.1 = a)) = true :=
    List.any_eq_true.mpr ⟨_, h.updated a hupdated, decide_eq_true rfl⟩
  have hop : s.operation cl v t =
      some (s.proceed v { t with rest := next (s.system.mem a) } s.system) := by
    simp only [operation, h.phase, hrest, hany, if_true]
  refine ⟨_, { t with rest := next (s.system.mem a) }, Runs.operation h.attempt hop, ?_,
    ⟨_, rfl⟩, rfl, rfl, rfl⟩
  exact ⟨attempt_proceed_self .., h.alone, h.flag, h.phase, h.loaded, hwithin _, h.writes, h.room,
    fun d => by have := h.budget d; simp only [system_proceed]; omega, h.updated⟩

variable (program) in
/-- All operations of the block. -/
theorem run (hnodes : ∀ a, cl.responsibleNode a < cl.numDslNodes)
    {block : AtomicBlock Nat (BitVec 32) ρ} (h : Running cl s v t n updated)
    (hblock : t.rest = block) :
    ∃ s' t' n' updated' result, Runs cl program v s s' ∧ Running cl s' v t' n' updated' ∧
      t'.rest = .ret result ∧ SameTx t t' := by
  induction block generalizing s t n updated with
  | ret result =>
    exact ⟨s, t, n, updated, result, Runs.refl cl program v s, h, hblock, SameTx.refl t⟩
  | load a next ih =>
    obtain ⟨s', t', hrun, h', ⟨value, hrest⟩, hsame⟩ := h.load hnodes hblock
    obtain ⟨s'', t'', n', updated', result, hrun', h'', hret, hsame'⟩ := ih value h' hrest
    exact ⟨s'', t'', n', updated', result, hrun.trans hrun', h'', hret, hsame.trans hsame'⟩
  | store a value next ih =>
    obtain ⟨s', t', hrun, h', hrest, hsame⟩ := h.store hnodes hblock
    obtain ⟨s'', t'', n', updated', result, hrun', h'', hret, hsame'⟩ := ih h' hrest
    exact ⟨s'', t'', n', updated', result, hrun.trans hrun', h'', hret, hsame.trans hsame'⟩
  | update a f next ih =>
    obtain ⟨s', t', hrun, h', hrest, hsame⟩ := h.update hnodes hblock
    obtain ⟨s'', t'', n', updated', result, hrun', h'', hret, hsame'⟩ := ih h' hrest
    exact ⟨s'', t'', n', updated', result, hrun.trans hrun', h'', hret, hsame.trans hsame'⟩
  | peek a next ih =>
    obtain ⟨s', t', hrun, h', ⟨value, hrest⟩, hsame⟩ := h.peek hblock
    obtain ⟨s'', t'', n', updated', result, hrun', h'', hret, hsame'⟩ := ih value h' hrest
    exact ⟨s'', t'', n', updated', result, hrun.trans hrun', h'', hret, hsame.trans hsame'⟩

end Running

/-! ### Its commit -/

/-- The attempt in `tm2c_rpc_store_all`, before entry `i`. -/
structure Storing (cl : Cluster) (s : TxSystem σ ι ρ) (v : Nat) (t : TxAttempt ι ρ) (i : Nat) :
    Prop where
  attempt : s.attempt v = some t
  alone : s.system.Alone cl v
  flag : s.system.abortFlag v = .noConflict
  phase : (s.system.node v).phase = .storingAll i
  le : i ≤ (s.system.node v).writeSet.writeEntries.length
  budget : ∀ d, (s.system.node v).nodesContacted d +
    ((s.system.node v).writeSet.writeEntries.length - i) < 2 ^ 16

variable (program) in
theorem Running.txCommit (h : Running cl s v t n updated) {result : ρ}
    (hrest : t.rest = .ret result) :
    ∃ s' i, Runs cl program v s s' ∧ Storing cl s' v t i := by
  have hstoring : ∀ i, i ≤ (s.system.node v).writeSet.writeEntries.length →
      Storing cl (s.proceed v t (s.system.enter v (.storingAll i))) v t i := by
    intro i hi
    refine ⟨attempt_proceed_self .., ?_, h.flag, ?_, ?_, ?_⟩
    · exact h.alone.frame (fun u hu => System.node_setNode_of_ne _ _ _ hu) (by simp) rfl rfl rfl
    · simp
    · simpa using hi
    · intro d
      have hbudget := h.budget d
      simp only [system_proceed, System.enter, System.node_setNode_self]
      omega
  cases hpub : t.pub with
  | true =>
    obtain ⟨i, hi, hact⟩ : ∃ i, i ≤ (s.system.node v).writeSet.writeEntries.length ∧
        s.system.act cl v .txCommit = some (s.system.enter v (.storingAll i)) := by
      cases heager : cl.cfg.eagerWriteAcq with
      | true => exact ⟨_, Nat.le_refl _, by simp [System.act, h.phase, heager]⟩
      | false => exact ⟨0, Nat.zero_le _, by simp [System.act, h.phase, heager]⟩
    have hop : s.operation cl v t = some (s.proceed v t (s.system.enter v (.storingAll i))) := by
      simp only [operation, h.phase, hrest, hpub, if_true, hact, Option.map_some]
    exact ⟨_, i, Runs.operation h.attempt hop, hstoring i hi⟩
  | false =>
    have hop : s.operation cl v t = some (s.proceed v t (s.system.enter v
        (.storingAll (s.system.node v).writeSet.writeEntries.length))) := by
      simp only [operation, h.phase, hrest, hpub, System.txCommitNoPub]
      rfl
    exact ⟨_, _, Runs.operation h.attempt hop, hstoring _ (Nat.le_refl _)⟩

variable (program) in
/-- The rest of the loop of `tm2c_rpc_store_all`. -/
theorem Storing.run (hnodes : ∀ a, cl.responsibleNode a < cl.numDslNodes) {i : Nat}
    (h : Storing cl s v t i) (remaining : Nat)
    (hremaining : i + remaining = (s.system.node v).writeSet.writeEntries.length) :
    ∃ s', Runs cl program v s s' ∧
      Storing cl s' v t (s'.system.node v).writeSet.writeEntries.length := by
  induction remaining generalizing s i with
  | zero =>
    obtain rfl : i = _ := hremaining
    exact ⟨s, Runs.refl cl program v s, h⟩
  | succ remaining ih =>
    have hlt : i < (s.system.node v).writeSet.writeEntries.length := by omega
    obtain ⟨we, hwe⟩ : ∃ we, (s.system.node v).writeSet.writeEntries[i]? = some we :=
      ⟨_, List.getElem?_eq_getElem hlt⟩
    have hact : s.system.act cl v .chkAborted =
        some (s.system.enter v (.sending (.storeAll i) we.address)) := by
      simp only [System.act, h.phase, hwe, Option.map_some, System.chkAborted, h.flag]
      rfl
    have hstep : s.step cl program (.storeAll v) = some { s with
        system := s.system.enter v (.sending (.storeAll i) we.address) } := by
      simp only [step, h.phase, Phase.inStoreAll, if_true, hact, Option.map_some]
    have halone : (s.system.enter v (.sending (.storeAll i) we.address)).Alone cl v :=
      h.alone.frame (fun u hu => System.node_setNode_of_ne _ _ _ hu) (by simp) rfl rfl rfl
    obtain ⟨system, hunder, hexchange⟩ := halone.exchange (p := .storeAll i) (a := we.address)
      (by simp) (hnodes we.address) (by
        have hbudget := h.budget (cl.responsibleNode we.address)
        simp only [System.enter, System.node_setNode_self]
        omega) (by rintro ⟨⟩)
    have hwriteSet : (system.node v).writeSet = (s.system.node v).writeSet := by
      rw [hexchange.writeSet]
      simp
    -- one entry is locked, and the loop goes on behind it
    have hfirst : Runs cl program v s { s with system := system } := by
      have hask : Runs cl program v s { s with
          system := s.system.enter v (.sending (.storeAll i) we.address) } :=
        Runs.single hstep ⟨rfl, rfl⟩ rfl fun _ _ => rfl
      exact hask.trans (Runs.underneath hunder)
    have hnext : Storing cl { s with system := system } v t (i + 1) := by
      refine ⟨h.attempt, hexchange.alone, (congrFun hexchange.abortFlag v).trans h.flag,
        hexchange.phase, ?_, ?_⟩
      · rw [hwriteSet]
        exact hlt
      · intro d
        have hbudget := h.budget d
        have hcontacted := hexchange.contacted d
        simp only [System.enter, System.node_setNode_self] at hcontacted
        simp only
        rw [hwriteSet]
        omega
    obtain ⟨s', hrun, h'⟩ := ih hnext (by
      simp only
      rw [hwriteSet]
      omega)
    exact ⟨s', hfirst.trans hrun, h'⟩

variable (program) in
/-- A transaction that nothing is in the way of commits. -/
theorem Running.commit (hnodes : ∀ a, cl.responsibleNode a < cl.numDslNodes)
    (h : Running cl s v t n updated) {result : ρ} (hrest : t.rest = .ret result) :
    ∃ s₁ system s₂, Runs cl program v s s₁ ∧ s₁.attempt v = some t ∧
      s₁.system.act cl v .setTxCommitted = some system ∧
      Runs cl program v { system := system
                          thread := Function.update s₁.thread v
                            (program.resume (s₁.thread v) t.input result)
                          attempt := Function.update s₁.attempt v none } s₂ ∧
      s₂.system.Settled ∧ s₂.attempt v = none := by
  obtain ⟨s', i, hrun, hstoring⟩ := h.txCommit program hrest
  obtain ⟨s'', hrun', hstored⟩ := hstoring.run program hnodes _
    (Nat.add_sub_cancel' hstoring.le)
  obtain ⟨system, hpersist, halone, hphase⟩ := hstored.alone.persist hstored.flag hstored.phase
  have hact : system.act cl v .setTxCommitted = some { system.enter v (.releasing 0) with
      abortFlag := Function.update system.abortFlag v .txCommitted
      committed := System.persisted (system.node v).writeSet.writeEntries.length
        (system.node v).writeSet system.committed
      history := System.persisted (system.node v).writeSet.writeEntries.length
        (system.node v).writeSet system.committed :: system.history } := by
    simp only [System.act, hphase, Nat.le_refl, if_true]
  have halone' : ({ system.enter v (.releasing 0) with
      abortFlag := Function.update system.abortFlag v .txCommitted
      committed := System.persisted (system.node v).writeSet.writeEntries.length
        (system.node v).writeSet system.committed
      history := System.persisted (system.node v).writeSet.writeEntries.length
        (system.node v).writeSet system.committed :: system.history } : System).Alone cl v :=
    halone.frame (fun u hu => System.node_setNode_of_ne _ _ _ hu) (by simp) rfl rfl rfl
  obtain ⟨rest, hfinish, hsettled⟩ := halone'.finish (by simp)
  refine ⟨{ s'' with system := system }, _, _,
    (hrun.trans hrun').trans (Runs.underneath hpersist), hstored.attempt, hact,
    Runs.underneath (s := ⟨_, _, _⟩) hfinish, hsettled, ?_⟩
  exact Function.update_self ..

theorem running_of_start (hinv : System.Inv cl s.system) (h : s.system.Settled)
    {startTs : Nat} (ht : t.rest = t.block) (hloaded : t.loaded = false)
    (hwithin : t.block.Within n []) (hn : 2 * n < 2 ^ 16) :
    Running cl (s.proceed v t (s.system.txRunning v startTs)) v t n [] := by
  have hempty : (s.system.node v).writeSet.writeEntries = [] := by
    have hwrites := (hinv.node v).writes.2
    obtain hphase | hphase := (h.nodes v).phase
    · rwa [hphase] at hwrites
    · rwa [hphase] at hwrites
  refine ⟨attempt_proceed_self .., ?_, Function.update_self .., ?_, hloaded, ?_, ?_, ?_, ?_, ?_⟩
  · refine ⟨?_, h.serving, fun d a w hw => absurd hw (h.locks d a w), ?_, (h.nodes v).reply,
      (h.nodes v).channel⟩
    · intro u hu
      exact (h.nodes u).frame (System.node_setNode_of_ne _ _ _ hu) rfl rfl
    · intro d hd
      simp [System.txRunning, (h.nodes v).nodesContacted] at hd
  · simp [System.txRunning]
  · rwa [ht]
  · exact fun d a hw => absurd (Or.inl hw) (h.locks d a v)
  · simpa [System.txRunning] using (hinv.node v).room
  · intro d
    simpa [System.txRunning, hempty, (h.nodes v).nodesContacted] using hn
  · exact fun a ha => absurd ha List.not_mem_nil

end TxSystem

/-! ### Serial runs -/

namespace System

variable {σ ι ρ : Type} {cl : Cluster} {program : TxProgram σ ι ρ} {s s' : TxSystem σ ι ρ} {v : Nat}

/-- Nothing that the program sees changes where nothing commits. -/
theorem TxInv.runs (hlocks : program.Locks cl.cfg) (h : TxInv cl program s)
    (hrun : TxSystem.Runs cl program v s s') :
    TxInv cl program s' ∧ s'.abstraction = s.abstraction := by
  obtain ⟨es, hexec, hes, -⟩ := hrun
  have hcommits : es.filterMap TxEvent.commits = [] :=
    List.filterMap_eq_nil_iff.mpr fun e he => (hes e he).2
  have hstep : ∀ s e s', TxInv cl program s → partialGraph (TxSystem.step cl program) s e s' →
      TxInv cl program s' := fun _ _ _ h hs => (txInv_step hlocks h hs).1
  obtain ⟨inputs, hatomic, hnames⟩ : ∃ inputs : List (Nat × ι),
      Exec (partialGraph (atomicStep program.toProgram)) s.abstraction inputs s'.abstraction ∧
        inputs.map Prod.fst = es.filterMap TxEvent.commits :=
    hexec.simulation_labels TxSystem.abstraction TxEvent.commits Prod.fst hstep
      (fun _ _ _ h hs => (txInv_step hlocks h hs).2) h
  rw [hcommits, List.map_eq_nil_iff] at hnames
  rw [hnames, exec_nil_iff] at hatomic
  exact ⟨hexec.invariant _ hstep h, hatomic.symm⟩

/-- No transaction is under way, and none has left anything behind. -/
structure Resting (cl : Cluster) (program : TxProgram σ ι ρ) (s : TxSystem σ ι ρ) : Prop where
  inv : TxInv cl program s
  settled : s.system.Settled
  attempt : ∀ u, s.attempt u = none

theorem Resting.idle (h : Resting cl program s) (u : Nat) : (s.system.node u).phase = .idle := by
  obtain hidle | ⟨seq, hphase⟩ := h.inv.between u (h.attempt u)
  · exact hidle
  · have hrest := (h.settled.nodes u).phase
    rw [hphase] at hrest
    simp at hrest

theorem Resting.quiescent (h : Resting cl program s) : s.system.Quiescent :=
  ⟨h.settled, h.idle⟩

/-- An attempt that begins where no other is under way commits. -/
theorem TxInv.solo (hlocks : program.Locks cl.cfg)
    (hnodes : ∀ a, cl.responsibleNode a < cl.numDslNodes) (h : TxInv cl program s)
    (hsettled : s.system.Settled) {e : TxEvent ι} (he : e.commits = none) {t : TxAttempt ι ρ}
    {startTs : Nat}
    (hstart : s.step cl program e = some (s.proceed v t (s.system.txRunning v startTs)))
    (hrest : t.rest = t.block) (hloaded : t.loaded = false) {n : Nat}
    (hwithin : t.block.Within n []) (hn : 2 * n < 2 ^ 16) :
    ∃ es s', Exec (partialGraph (TxSystem.step cl program)) s (e :: es) s' ∧
      (∀ e ∈ es, e.starts = false) ∧ (e :: es).filterMap TxEvent.commits = [v] ∧
      TxInv cl program s' ∧ s'.system.Settled ∧ s'.attempt v = none ∧
      (∀ u, u ≠ v → s'.attempt u = s.attempt u) ∧
      s'.system.committed = (t.block.solo s.system.committed).2 ∧
      s'.thread = Function.update s.thread v
        (program.resume (s.thread v) t.input (t.block.solo s.system.committed).1) := by
  obtain ⟨s₀, hs₀⟩ : ∃ s₀, s₀ = s.proceed v t (s.system.txRunning v startTs) := ⟨_, rfl⟩
  have hrunning : TxSystem.Running cl s₀ v t n [] := by
    rw [hs₀]
    exact TxSystem.running_of_start h.inv hsettled hrest hloaded hwithin hn
  rw [← hs₀] at hstart
  -- the body of the transaction, and `TX_COMMIT` behind it
  obtain ⟨s₁, t₁, n₁, updated, result, hrun, hrunning₁, hrest₁, hsame⟩ :=
    hrunning.run program hnodes rfl
  obtain ⟨s₂, system, s₃, hrun', ht₂, hact, hrun'', hsettled₃, hnone⟩ :=
    hrunning₁.commit program hnodes hrest₁
  -- what the program sees changes with the commit alone
  obtain ⟨hinv₀, hsame₀⟩ : TxInv cl program s₀ ∧ s₀.abstraction = s.abstraction := by
    obtain ⟨hinv, ⟨-, hsame⟩ | ⟨_, hcommits, -⟩⟩ := txInv_step hlocks h hstart
    · exact ⟨hinv, hsame⟩
    · rw [he] at hcommits
      cases hcommits
  obtain ⟨hinv₂, hsame₂⟩ := hinv₀.runs hlocks (hrun.trans hrun')
  obtain ⟨hsolo, hinv⟩ := hinv₂.commit ht₂ hrest₁ hact
  obtain ⟨hinv₃, hsame₃⟩ := hinv.runs hlocks hrun''
  obtain ⟨es, hexec, hes, -, hothers⟩ := hrun.trans hrun'
  obtain ⟨es', hexec', hes', -, hothers'⟩ := hrun''
  have hcommit : s₂.step cl program (.txCommitted v) = some
      { system := system
        thread := Function.update s₂.thread v (program.resume (s₂.thread v) t₁.input result)
        attempt := Function.update s₂.attempt v none } := by
    obtain ⟨input₁, pub₁, block₁, rest₁, loaded₁⟩ := t₁
    obtain rfl : rest₁ = .ret result := hrest₁
    simp only [TxSystem.step, ht₂, hact, Option.map_some]
  have hthread₂ : s₂.thread = s.thread := congrArg AtomicState.thread (hsame₂.trans hsame₀)
  have hmem₂ : s₂.system.committed = s.system.committed :=
    congrArg AtomicState.mem (hsame₂.trans hsame₀)
  rw [hsame.block, hmem₂] at hsolo
  -- the run is the start, the body with the commit, and the release
  refine ⟨es ++ .txCommitted v :: es', s₃,
    Exec.cons hstart (hexec.append (Exec.cons hcommit hexec')), ?_, ?_, hinv₃, hsettled₃, hnone,
    ?_, ?_, ?_⟩
  · intro e he
    obtain he | he := List.mem_append.mp he
    · exact (hes e he).1
    · obtain rfl | he := List.mem_cons.mp he
      · rfl
      · exact (hes' e he).1
  · have hlast : (TxEvent.txCommitted v :: es').filterMap TxEvent.commits = [v] := by
      rw [List.filterMap_cons_some (show TxEvent.commits (.txCommitted v) = some v from rfl),
        List.filterMap_eq_nil_iff.mpr fun e he => (hes' e he).2]
    rw [List.filterMap_cons_none he, List.filterMap_append,
      List.filterMap_eq_nil_iff.mpr fun e he => (hes e he).2, hlast, List.nil_append]
  · intro u hu
    rw [hothers' u hu]
    simp only [Function.update_of_ne hu]
    rw [hothers u hu, hs₀, TxSystem.attempt_proceed_of_ne _ _ _ _ hu]
  · rw [hsolo]
    exact congrArg AtomicState.mem hsame₃
  · rw [hsolo, ← hthread₂, ← hsame.input]
    exact congrArg AtomicState.thread hsame₃

/-- From rest, any transaction can be run to its commit, and the system is at rest again. -/
theorem Resting.solo (hlocks : program.Locks cl.cfg)
    (hnodes : ∀ a, cl.responsibleNode a < cl.numDslNodes) (h : Resting cl program s)
    (hv : v < cl.cfg.numUes) {input : ι} {block : AtomicBlock Nat (BitVec 32) ρ}
    (hnext : program.next (s.thread v) input = some block) {n : Nat}
    (hwithin : block.Within n []) (hn : 2 * n < 2 ^ 16) :
    ∃ es s', Exec (partialGraph (TxSystem.step cl program)) s es s' ∧
      es.filterMap TxEvent.commits = [v] ∧ Resting cl program s' ∧
      atomicStep program.toProgram s.abstraction (v, input) = some s'.abstraction := by
  have hstart : s.step cl program (.txStart v input 0) = some (s.proceed v
      ⟨input, program.pub (s.thread v) input, block, block, false⟩
      (s.system.txRunning v ((s.system.node v).initMetadata cl.cfg true 0))) := by
    simp only [TxSystem.step, h.idle v, hnext, act, if_pos hv, Option.map_some]
  obtain ⟨es, s', hexec, -, hcommits, hinv, hsettled, hnone, hothers, hmem, hthread⟩ :=
    h.inv.solo hlocks hnodes h.settled rfl hstart rfl rfl hwithin hn
  refine ⟨_, s', hexec, hcommits, ⟨hinv, hsettled, ?_⟩, ?_⟩
  · intro u
    by_cases hu : u = v
    · exact hu ▸ hnone
    · rw [hothers u hu, h.attempt u]
  · simp only [atomicStep, TxSystem.abstraction, hnext, Option.map_some, hmem, hthread]

/-- At rest the shared memory is the committed one. -/
theorem Resting.mem_eq (h : Resting cl program s) : s.system.mem = s.system.committed :=
  h.inv.mem_eq fun v i => by
    rw [h.idle v]
    simp

theorem resting_init (cl : Cluster) (program : TxProgram σ ι ρ) (mem : Nat → BitVec 32)
    (thread : Nat → σ) : Resting cl program (txSystemInit ι ρ mem thread) where
  inv := txInv_init cl program mem thread
  settled := by
    refine ⟨fun _ => ⟨Or.inl rfl, fun _ => rfl, rfl, fun _ => rfl⟩, fun _ => rfl, ?_⟩
    rintro d a w (hwriter | hreader)
    · cases hwriter
    · cases hreader
  attempt := fun _ => rfl

/-- One transaction after the other. -/
theorem Resting.serial (hlocks : program.Locks cl.cfg)
    (hnodes : ∀ a, cl.responsibleNode a < cl.numDslNodes)
    (hwithin : ∀ thread input block, program.next thread input = some block →
      ∃ n, 2 * n < 2 ^ 16 ∧ block.Within n [])
    {inputs : List (Nat × ι)} (hues : ∀ input ∈ inputs, input.1 < cl.cfg.numUes)
    {a b : AtomicState σ Nat (BitVec 32)}
    (hatomic : Exec (partialGraph (atomicStep program.toProgram)) b inputs a)
    (h : Resting cl program s) (hb : s.abstraction = b) :
    ∃ es s', Exec (partialGraph (TxSystem.step cl program)) s es s' ∧
      es.filterMap TxEvent.commits = inputs.map Prod.fst ∧ Resting cl program s' ∧
      s'.abstraction = a := by
  induction hatomic generalizing s with
  | nil b => exact ⟨[], s, Exec.nil s, rfl, h, hb⟩
  | @cons b c d input inputs hstep _ ih =>
    subst hb
    obtain ⟨hlt, hues⟩ := List.forall_mem_cons.mp hues
    obtain ⟨block, hblock, -⟩ := Option.map_eq_some_iff.mp hstep
    obtain ⟨n, hn, hblockWithin⟩ := hwithin _ _ _ hblock
    obtain ⟨es, s', hes, hcommits, hs', hsame⟩ := h.solo hlocks hnodes hlt hblock hblockWithin hn
    have hc : s'.abstraction = c := Option.some.inj (hsame.symm.trans hstep)
    obtain ⟨es', s'', hes', hcommits', hs'', hd⟩ := ih hues hs' hc
    refine ⟨es ++ es', s'', hes.append hes', ?_, hs'', hd⟩
    rw [List.filterMap_append, hcommits, hcommits', List.map_cons, List.singleton_append]

/-- **Every run of atomic blocks is one of the system.**  Where no transaction has so many
operations that a node could contact the service nodes `2 ^ 16` times, the system can run the
transactions of any run in which each takes one step, with the same results and the same memory.
In the end it is at rest: no lock is held, no message is on its way, and no transaction is under
way. -/
theorem atomic_runs_realised (cl : Cluster) (program : TxProgram σ ι ρ)
    (hlocks : program.Locks cl.cfg) (hnodes : ∀ a, cl.responsibleNode a < cl.numDslNodes)
    (hwithin : ∀ thread input block, program.next thread input = some block →
      ∃ n, 2 * n < 2 ^ 16 ∧ block.Within n [])
    (mem : Nat → BitVec 32) (thread : Nat → σ) {inputs : List (Nat × ι)}
    {a : AtomicState σ Nat (BitVec 32)}
    (hatomic : Exec (partialGraph (atomicStep program.toProgram)) ⟨mem, thread⟩ inputs a)
    (hues : ∀ input ∈ inputs, input.1 < cl.cfg.numUes) :
    ∃ es s, Exec (partialGraph (TxSystem.step cl program)) (txSystemInit ι ρ mem thread) es s ∧
      es.filterMap TxEvent.commits = inputs.map Prod.fst ∧
      s.system.mem = a.mem ∧ s.thread = a.thread ∧
      s.system.Quiescent ∧ ∀ u, s.attempt u = none := by
  obtain ⟨es, s, hexec, hcommits, hs, rfl⟩ :=
    (resting_init cl program mem thread).serial hlocks hnodes hwithin hues hatomic rfl
  exact ⟨es, s, hexec, hcommits, hs.mem_eq, rfl, hs.quiescent, hs.attempt⟩

theorem within_countProgram (thread : List (BitVec 32)) (input : Unit)
    (block : AtomicBlock Nat (BitVec 32) (BitVec 32))
    (hnext : countProgram.next thread input = some block) :
    ∃ n, 2 * n < 2 ^ 16 ∧ block.Within n [] := by
  obtain rfl := Option.some.inj hnext
  exact ⟨2, by decide, by decide, by decide, List.mem_singleton.mpr rfl, fun _ => trivial⟩

theorem atomic_runs_realised_countTwice :
    ∃ es s, Exec (partialGraph (TxSystem.step pairCluster countProgram))
        (txSystemInit Unit (BitVec 32) (fun _ => 0) fun _ => []) es s ∧
      es.filterMap TxEvent.commits = [0, 1] ∧ s.system.mem 64 = 2 ∧ s.thread 1 = [1] ∧
      s.system.Quiescent ∧ ∀ u, s.attempt u = none := by
  let a := ([(0, ()), (1, ())].foldlM (atomicStep countProgram.toProgram)
    ⟨fun _ => 0, fun _ => []⟩).get (by decide +kernel)
  have hatomic : Exec (partialGraph (atomicStep countProgram.toProgram))
      ⟨fun _ => 0, fun _ => []⟩ [(0, ()), (1, ())] a :=
    exec_partialGraph_iff.mpr (Option.some_get _).symm
  obtain ⟨es, s, hexec, hcommits, hmem, hthread, hrest⟩ :=
    atomic_runs_realised pairCluster countProgram (locks_countProgram _) (fun _ => Nat.one_pos)
      within_countProgram (fun _ => 0) (fun _ => []) hatomic (by decide)
  refine ⟨es, s, hexec, hcommits, ?_, ?_, hrest⟩
  · rw [hmem]
    decide +kernel
  · rw [hthread]
    decide +kernel

end System

end TM2C
