import TM2C.System

/-!
# The transitions of the system

What each step does to the state, by cases: the transitions of an application
node, the handling of a message, the abort of a victim and the grant.

`System.act` and `System.handle` are functions that return `none` where a step is impossible.
`Acts` and `Handles` are the same as relations with one constructor for each branch of the code
that succeeds, with its guards, so that later proofs go through the steps by name and never
unfold the functions.  `acts_of_act` and `handles_of_handle` are the inversions.  The abort of a
victim and the grant have a single branch or two, and an equation each.

Beside them are the small facts that every invariant uses: what a step leaves unchanged for the
other nodes, in the channels, at the other service nodes, and among the ghost fields.
-/

namespace TM2C

namespace System

section Fields

variable (s : System) (v : Nat) (n : TxNode)

@[simp] theorem node_setNode_self : (s.setNode v n).node v = n := Function.update_self ..

@[simp] theorem node_setNode_of_ne {u : Nat} (h : u ≠ v) : (s.setNode v n).node u = s.node u :=
  Function.update_of_ne h ..

@[simp] theorem abortFlag_setNode : (s.setNode v n).abortFlag = s.abortFlag := rfl

@[simp] theorem reply_setNode : (s.setNode v n).reply = s.reply := rfl

@[simp] theorem channel_setNode : (s.setNode v n).channel = s.channel := rfl

@[simp] theorem service_setNode : (s.setNode v n).service = s.service := rfl

@[simp] theorem mem_setNode : (s.setNode v n).mem = s.mem := rfl

@[simp] theorem granted_setNode : (s.setNode v n).granted = s.granted := rfl

@[simp] theorem reads_setNode : (s.setNode v n).reads = s.reads := rfl

@[simp] theorem committed_setNode : (s.setNode v n).committed = s.committed := rfl

@[simp] theorem history_setNode : (s.setNode v n).history = s.history := rfl

@[simp] theorem kills_setNode : (s.setNode v n).kills = s.kills := rfl

end Fields

section SetService

variable (s : System) (d : Nat) (n : ServiceNode)

@[simp] theorem service_setService_self : (s.setService d n).service d = n :=
  Function.update_self ..

theorem service_setService_of_ne {e : Nat} (h : e ≠ d) :
    (s.setService d n).service e = s.service e := Function.update_of_ne h ..

@[simp] theorem node_setService : (s.setService d n).node = s.node := rfl

@[simp] theorem channel_setService : (s.setService d n).channel = s.channel := rfl

@[simp] theorem granted_setService : (s.setService d n).granted = s.granted := rfl

end SetService

/-! ### What a node can do -/

/-- The actions that run `TXCHKABORTED` or `TX_ABORT`. -/
def mayAbort : Action → Bool
  | .txLoad _ | .txStore _ _ | .txAbort | .chkAborted | .setTxPersisting => true
  | _ => false

/-- The transitions of a node, by their effect. -/
inductive Acts (cl : Cluster) (s : System) (v : Nat) : Action → System → Prop
  | start {now startTs : Nat}
      (hphase : ((s.node v).phase = .idle ∧ v < cl.cfg.numUes) ∨ (s.node v).phase = .restarting) :
      Acts cl s v (.txStart now) (s.txRunning v startTs)
  | buffered {address : Nat} : Acts cl s v (.txLoad address) s
  | abort {a : Action}
      (hphase : (s.node v).phase = .running ∨
        (∃ address value, (s.node v).phase = .locked address value) ∨
        ∃ i, (s.node v).phase = .storingAll i)
      (ha : mayAbort a = true) :
      Acts cl s v a (s.enter v (.aborting 0))
  | request {a : Action} {p : Purpose} {address : Nat} (hflag : s.abortFlag v = .noConflict)
      (hfrom : ((s.node v).phase = .running ∧ ∀ i, p ≠ .storeAll i) ∨
        ∃ i we, (s.node v).phase = .storingAll i ∧ p = .storeAll i ∧
          (s.node v).writeSet.writeEntries[i]? = some we ∧ address = we.address)
      (ha : mayAbort a = true) :
      Acts cl s v a (s.enter v (.sending p address))
  | insert {a : Action} {address : Nat} {value : BitVec 32} {ws : WriteSet}
      (hflag : s.abortFlag v = .noConflict)
      (hfrom : ((s.node v).phase = .running ∧ cl.cfg.eagerWriteAcq = false) ∨
        (s.node v).phase = .locked address value)
      (ha : mayAbort a = true)
      (hws : writeSetInsert (s.node v).writeSet .typeInt value address = some ws) :
      Acts cl s v a (s.setNode v { s.node v with phase := .running, writeSet := ws })
  | commit {i : Nat} (hphase : (s.node v).phase = .running)
      (hi : 0 < i → cl.cfg.eagerWriteAcq = true) :
      Acts cl s v .txCommit (s.enter v (.storingAll i))
  | send {now : Nat} {p : Purpose} {address : Nat}
      (hphase : (s.node v).phase = .sending p address) :
      Acts cl s v (.send now) { s.setNode v { s.node v with
          phase := .waiting p address
          nodesContacted := Function.update (s.node v).nodesContacted
            (cl.responsibleNode address)
            (((s.node v).nodesContacted (cl.responsibleNode address) + 1) % 2 ^ 16) } with
        channel := s.push v (cl.responsibleNode address)
          ⟨p.reqType, address, 0, (s.node v).txMetadata cl.cfg now⟩ }
  | refused {p : Purpose} {address : Nat} {response : Conflict}
      (hphase : (s.node v).phase = .waiting p address) (hreply : s.reply v = some response)
      (hno : response ≠ .noConflict) :
      Acts cl s v .recv ({ s with reply := Function.update s.reply v none }.setNode v
        { s.node v with
          phase := .aborting 0
          nodesContacted := Function.update (s.node v).nodesContacted
            (cl.responsibleNode address) 0 })
  | answered {p : Purpose} {address : Nat}
      (hphase : (s.node v).phase = .waiting p address) (hreply : s.reply v = some .noConflict) :
      Acts cl s v .recv
        ({ s with reply := Function.update s.reply v none }.enter v (p.next address))
  | deref {address : Nat} (hphase : (s.node v).phase = .running)
      (hgranted : (address, RW.read) ∈ s.granted v) :
      Acts cl s v (.deref address) { s with
        reads := Function.update s.reads v
          (s.reads v ++ [⟨address, s.mem address, decide (s.abortFlag v = .noConflict)⟩]) }
  | persisting {i : Nat} (hphase : (s.node v).phase = .storingAll i)
      (hi : (s.node v).writeSet.writeEntries.length ≤ i) (hflag : s.abortFlag v = .noConflict) :
      Acts cl s v .setTxPersisting { s.enter v (.persisting 0) with
        abortFlag := Function.update s.abortFlag v .persistingWrites }
  | persist {i : Nat} {we : WriteEntry} (hphase : (s.node v).phase = .persisting i)
      (hwe : (s.node v).writeSet.writeEntries[i]? = some we) :
      Acts cl s v .writeEntryPersist
        { s.enter v (.persisting (i + 1)) with mem := Function.update s.mem we.address we.i }
  | committed {i : Nat} (hphase : (s.node v).phase = .persisting i)
      (hi : (s.node v).writeSet.writeEntries.length ≤ i) :
      Acts cl s v .setTxCommitted { s.enter v (.releasing 0) with
        abortFlag := Function.update s.abortFlag v .txCommitted
        committed := persisted i (s.node v).writeSet s.committed
        history := persisted i (s.node v).writeSet s.committed :: s.history }
  | rlsAll {now seq : Nat} {next : Phase}
      (hphase : ((s.node v).phase = .releasing seq ∧ next = .releasing (seq + 1)) ∨
        ((s.node v).phase = .aborting seq ∧ next = .aborting (seq + 1))) :
      Acts cl s v (.rlsAll now) { s.setNode v { s.node v with
          phase := next
          nodesContacted := Function.update (s.node v).nodesContacted seq 0 } with
        channel :=
          if (s.node v).nodesContacted seq > 0 then
            s.push v seq ⟨.rmvNode, 0, 0, (s.node v).txMetadata cl.cfg now⟩
          else s.channel }
  | finish {now seq : Nat} (hphase : (s.node v).phase = .releasing seq) :
      Acts cl s v (.finish now) { s.setNode v { s.node v with
          phase := .idle
          writeSet := writeSetEmpty (s.node v).writeSet
          txCommitted := (s.node v).txCommitted + 1
          txDuration := (s.node v).updateDuration cl.cfg now } with
        kills := s.kills.filter fun k => decide (k.1 ≠ v ∧ k.2 ≠ v) }
  | restart {now seq : Nat} (hphase : (s.node v).phase = .aborting seq) :
      Acts cl s v (.finish now) (s.setNode v { s.node v with
        phase := .restarting
        writeSet := writeSetEmpty (s.node v).writeSet })

theorem acts_chkAborted {cl : Cluster} {s next : System} {v : Nat} {a : Action}
    (habort : Acts cl s v a (s.enter v (.aborting 0)))
    (hnext : s.abortFlag v = .noConflict → Acts cl s v a next) :
    Acts cl s v a (s.chkAborted v next) := by
  unfold chkAborted
  split
  · exact habort
  · rename_i hflag
    exact hnext (not_not.mp hflag)

section ActsOfAct

variable {cl : Cluster} {s s' : System} {v : Nat}

/-- A store that is to be buffered tests the flag before it needs room. -/
theorem bufferStore_eq_some {address : Nat} {value : BitVec 32}
    (h : s.bufferStore v address value = some s') :
    ∃ next, s' = s.chkAborted v next ∧ (s.abortFlag v = .noConflict →
      ∃ ws, writeSetInsert (s.node v).writeSet .typeInt value address = some ws ∧
        next = s.setNode v { s.node v with phase := .running, writeSet := ws }) := by
  unfold bufferStore at h
  by_cases hflag : s.abortFlag v = .noConflict
  · rw [if_neg (not_not.mpr hflag)] at h
    obtain ⟨ws, hws, rfl⟩ := Option.map_eq_some_iff.mp h
    exact ⟨_, (if_neg (not_not.mpr hflag)).symm, fun _ => ⟨ws, hws, rfl⟩⟩
  · rw [if_pos hflag] at h
    obtain rfl := Option.some.inj h
    exact ⟨s, (if_pos hflag).symm, fun hnot => absurd hnot hflag⟩

theorem acts_bufferStore {a : Action} {address : Nat} {value : BitVec 32}
    (hfrom : ((s.node v).phase = .running ∧ cl.cfg.eagerWriteAcq = false) ∨
      (s.node v).phase = .locked address value)
    (ha : mayAbort a = true) (h : s.bufferStore v address value = some s') :
    Acts cl s v a s' := by
  obtain ⟨next, rfl, hnext⟩ := bufferStore_eq_some h
  refine acts_chkAborted (Acts.abort ?_ ha) ?_
  · rcases hfrom with ⟨hphase, -⟩ | hphase
    · exact Or.inl hphase
    · exact Or.inr (Or.inl ⟨address, value, hphase⟩)
  · intro hflag
    obtain ⟨ws, hws, rfl⟩ := hnext hflag
    exact Acts.insert hflag hfrom ha hws

theorem acts_txStart {now : Nat} (h : s.act cl v (.txStart now) = some s') :
    Acts cl s v (.txStart now) s' := by
  simp only [act] at h
  split at h
  · rename_i hphase
    split at h
    · rename_i hlt
      obtain rfl := Option.some.inj h
      exact Acts.start (Or.inl ⟨hphase, hlt⟩)
    · cases h
  · rename_i hphase
    obtain rfl := Option.some.inj h
    exact Acts.start (Or.inr hphase)
  · cases h

theorem acts_txLoad {address : Nat} (h : s.act cl v (.txLoad address) = some s') :
    Acts cl s v (.txLoad address) s' := by
  simp only [act] at h
  split at h
  · rename_i hphase
    split at h
    · obtain rfl := Option.some.inj h
      exact Acts.buffered
    · obtain rfl := Option.some.inj h
      refine acts_chkAborted (Acts.abort (Or.inl hphase) rfl) ?_
      intro hflag
      exact Acts.request hflag (Or.inl ⟨hphase, fun i hc => by cases hc⟩) rfl
  · cases h

/-- An eager store asks for its lock, a lazy one goes into the write set. -/
theorem acts_txStore {address : Nat} {value : BitVec 32}
    (h : s.act cl v (.txStore address value) = some s') :
    Acts cl s v (.txStore address value) s' := by
  simp only [act] at h
  split at h
  · rename_i hphase
    split at h
    · obtain rfl := Option.some.inj h
      refine acts_chkAborted (Acts.abort (Or.inl hphase) rfl) ?_
      intro hflag
      exact Acts.request hflag (Or.inl ⟨hphase, fun i hc => by cases hc⟩) rfl
    · rename_i heager
      exact acts_bufferStore (Or.inl ⟨hphase, by simpa using heager⟩) rfl h
  · cases h

theorem acts_txCommit (h : s.act cl v .txCommit = some s') : Acts cl s v .txCommit s' := by
  simp only [act] at h
  split at h
  · rename_i hphase
    obtain rfl := Option.some.inj h
    refine Acts.commit hphase ?_
    split
    · rename_i heager
      exact fun _ => heager
    · exact fun hlt => absurd hlt (Nat.lt_irrefl 0)
  · cases h

theorem acts_txAbort (h : s.act cl v .txAbort = some s') : Acts cl s v .txAbort s' := by
  simp only [act] at h
  split at h
  · rename_i hphase
    obtain rfl := Option.some.inj h
    exact Acts.abort (Or.inl hphase) rfl
  · cases h

/-- The second half of an eager store, or the next entry of `tm2c_rpc_store_all`. -/
theorem acts_of_chkAborted (h : s.act cl v .chkAborted = some s') :
    Acts cl s v .chkAborted s' := by
  simp only [act] at h
  split at h
  · rename_i address value hphase
    exact acts_bufferStore (Or.inr hphase) rfl h
  · rename_i i hphase
    obtain ⟨we, hwe, rfl⟩ := Option.map_eq_some_iff.mp h
    refine acts_chkAborted (Acts.abort (Or.inr (Or.inr ⟨i, hphase⟩)) rfl) ?_
    intro hflag
    exact Acts.request hflag (Or.inr ⟨i, we, hphase, rfl, hwe, rfl⟩) rfl
  · cases h

theorem acts_send {now : Nat} (h : s.act cl v (.send now) = some s') :
    Acts cl s v (.send now) s' := by
  simp only [act] at h
  split at h
  · rename_i p address hphase
    obtain rfl := Option.some.inj h
    exact Acts.send hphase
  · cases h

theorem acts_recv (h : s.act cl v .recv = some s') : Acts cl s v .recv s' := by
  simp only [act] at h
  split at h
  · rename_i p address response hphase hreply
    split at h
    · rename_i hno
      obtain rfl := Option.some.inj h
      exact Acts.refused hphase hreply hno
    · rename_i hok
      obtain rfl := Option.some.inj h
      exact Acts.answered hphase (by rw [hreply, not_not.mp hok])
  · cases h

theorem acts_deref {address : Nat} (h : s.act cl v (.deref address) = some s') :
    Acts cl s v (.deref address) s' := by
  simp only [act] at h
  split at h
  · rename_i hphase
    split at h
    · rename_i hgranted
      obtain rfl := Option.some.inj h
      exact Acts.deref hphase hgranted
    · cases h
  · cases h

theorem acts_setTxPersisting (h : s.act cl v .setTxPersisting = some s') :
    Acts cl s v .setTxPersisting s' := by
  simp only [act] at h
  split at h
  · rename_i i hphase
    split at h
    · rename_i hi
      obtain rfl := Option.some.inj h
      split
      · exact Acts.abort (Or.inr (Or.inr ⟨i, hphase⟩)) rfl
      · rename_i hflag
        exact Acts.persisting hphase hi (not_not.mp hflag)
    · cases h
  · cases h

theorem acts_writeEntryPersist (h : s.act cl v .writeEntryPersist = some s') :
    Acts cl s v .writeEntryPersist s' := by
  simp only [act] at h
  split at h
  · rename_i i hphase
    obtain ⟨we, hwe, rfl⟩ := Option.map_eq_some_iff.mp h
    exact Acts.persist hphase hwe
  · cases h

theorem acts_setTxCommitted (h : s.act cl v .setTxCommitted = some s') :
    Acts cl s v .setTxCommitted s' := by
  simp only [act] at h
  split at h
  · rename_i i hphase
    split at h
    · rename_i hi
      obtain rfl := Option.some.inj h
      exact Acts.committed hphase hi
    · cases h
  · cases h

theorem acts_rlsAll {now : Nat} (h : s.act cl v (.rlsAll now) = some s') :
    Acts cl s v (.rlsAll now) s' := by
  simp only [act] at h
  split at h
  · rename_i seq hphase
    split at h
    · obtain rfl := Option.some.inj h
      exact Acts.rlsAll (Or.inl ⟨hphase, rfl⟩)
    · cases h
  · rename_i seq hphase
    split at h
    · obtain rfl := Option.some.inj h
      exact Acts.rlsAll (Or.inr ⟨hphase, rfl⟩)
    · cases h
  · cases h

theorem acts_finish {now : Nat} (h : s.act cl v (.finish now) = some s') :
    Acts cl s v (.finish now) s' := by
  simp only [act] at h
  split at h
  · rename_i seq hphase
    split at h
    · obtain rfl := Option.some.inj h
      exact Acts.finish hphase
    · cases h
  · rename_i seq hphase
    split at h
    · obtain rfl := Option.some.inj h
      exact Acts.restart hphase
    · cases h
  · cases h

theorem acts_of_act {a : Action} (h : s.act cl v a = some s') : Acts cl s v a s' := by
  cases a with
  | txStart now => exact acts_txStart h
  | txLoad address => exact acts_txLoad h
  | txStore address value => exact acts_txStore h
  | txCommit => exact acts_txCommit h
  | txAbort => exact acts_txAbort h
  | chkAborted => exact acts_of_chkAborted h
  | send now => exact acts_send h
  | recv => exact acts_recv h
  | deref address => exact acts_deref h
  | setTxPersisting => exact acts_setTxPersisting h
  | writeEntryPersist => exact acts_writeEntryPersist h
  | setTxCommitted => exact acts_setTxCommitted h
  | rlsAll now => exact acts_rlsAll h
  | finish now => exact acts_finish h

end ActsOfAct

theorem Acts.service_eq {cl : Cluster} {s s' : System} {v : Nat} {a : Action}
    (h : Acts cl s v a s') : s'.service = s.service := by
  cases h <;> rfl

/-! ### What a service node can do -/

/-- The request asks for a lock of this kind. -/
def Asks (req : Req) (rw : RW) : Prop :=
  (req.type = .load ∧ rw = .read) ∨ (req.type = .store ∧ rw = .write)

theorem Asks.not_release {req : Req} {rw : RW} (h : Asks req rw) : req.type ≠ .rmvNode := by
  obtain ⟨htype, -⟩ | ⟨htype, -⟩ := h
  · rw [htype]
    decide
  · rw [htype]
    decide

theorem Asks.rw_eq {p : Purpose} {address value ts : Nat} {rw : RW}
    (h : Asks ⟨p.reqType, address, value, ts⟩ rw) : rw = p.rw := by
  obtain ⟨htype, rfl⟩ | ⟨htype, rfl⟩ := h
  · cases p <;> first | rfl | cases htype
  · cases p <;> first | rfl | cases htype

/-- What taking a message does. -/
inductive Handles (cl : Cluster) (s : System) (d v now : Nat) : System → Prop
  | release {req : Req} {rest : List Req} (hserving : (s.service d).serving = none)
      (hchannel : s.channel v d = req :: rest) (htype : req.type = .rmvNode) :
      Handles cl s d v now ({ s with channel := s.pop v d rest }.setService d
        ⟨serveRelease cl.cfg (s.stamped cl.cfg d v now req) v, none⟩)
  | refuse {req : Req} {rest : List Req} {rw : RW} {conflict : Conflict}
      (hserving : (s.service d).serving = none) (hchannel : s.channel v d = req :: rest)
      (hrw : Asks req rw)
      (hverdict : verdict cl.cfg (s.stamped cl.cfg d v now req).timestamp
        (s.service d).state.locks v req.address rw = .refuse conflict) :
      Handles cl s d v now { { s with channel := s.pop v d rest }.setService d
          ⟨serveRelease cl.cfg (s.stamped cl.cfg d v now req) v, none⟩ with
        reply := Function.update s.reply v (some conflict) }
  | accept {req : Req} {rest : List Req} {rw : RW} {victims : List Nat}
      (hserving : (s.service d).serving = none) (hchannel : s.channel v d = req :: rest)
      (hrw : Asks req rw)
      (hverdict : verdict cl.cfg (s.stamped cl.cfg d v now req).timestamp
        (s.service d).state.locks v req.address rw = .grant victims) :
      Handles cl s d v now ({ s with channel := s.pop v d rest }.setService d
        ⟨s.stamped cl.cfg d v now req, some ⟨v, req.address, rw,
          attackConflict (s.service d).state.locks v req.address rw, victims⟩⟩)

theorem handles_serveRequest {cl : Cluster} {s : System} {d v now : Nat} {req : Req}
    {rest : List Req} {rw : RW} (hserving : (s.service d).serving = none)
    (hchannel : s.channel v d = req :: rest) (hrw : Asks req rw) :
    Handles cl s d v now ({ s with channel := s.pop v d rest }.serveRequest cl.cfg d
      (s.stamped cl.cfg d v now req) v req.address rw) := by
  unfold serveRequest
  split
  · rename_i conflict hverdict
    exact Handles.refuse hserving hchannel hrw hverdict
  · rename_i victims hverdict
    exact Handles.accept hserving hchannel hrw hverdict

theorem handles_of_handle {cl : Cluster} {s s' : System} {d v now : Nat}
    (h : s.handle cl d v now = some s') : Handles cl s d v now s' := by
  simp only [handle] at h
  split at h
  · rename_i req rest hserving hchannel
    split at h
    · rename_i htype
      obtain rfl := Option.some.inj h
      exact Handles.release hserving hchannel htype
    · rename_i htype
      obtain rfl := Option.some.inj h
      exact handles_serveRequest hserving hchannel (Or.inl ⟨htype, rfl⟩)
    · rename_i htype
      obtain rfl := Option.some.inj h
      exact handles_serveRequest hserving hchannel (Or.inr ⟨htype, rfl⟩)
    · cases h
  · cases h

/-- The service node deletes the sender, or it begins to serve its request. -/
theorem Handles.service_self {cl : Cluster} {s s' : System} {d v now : Nat}
    (h : Handles cl s d v now s') : ∃ req rest, (s.service d).serving = none ∧
      s.channel v d = req :: rest ∧ s'.channel = s.pop v d rest ∧
      (s'.service d = ⟨serveRelease cl.cfg (s.stamped cl.cfg d v now req) v, none⟩ ∨
        ∃ rw victims, Asks req rw ∧
          verdict cl.cfg (s.stamped cl.cfg d v now req).timestamp (s.service d).state.locks v
            req.address rw = .grant victims ∧
          s'.service d = ⟨s.stamped cl.cfg d v now req, some ⟨v, req.address, rw,
            attackConflict (s.service d).state.locks v req.address rw, victims⟩⟩) := by
  cases h with
  | release hserving hchannel _ =>
    exact ⟨_, _, hserving, hchannel, rfl, Or.inl (service_setService_self ..)⟩
  | refuse hserving hchannel _ _ =>
    exact ⟨_, _, hserving, hchannel, rfl, Or.inl (service_setService_self ..)⟩
  | accept hserving hchannel hrw hverdict =>
    exact ⟨_, _, hserving, hchannel, rfl,
      Or.inr ⟨_, _, hrw, hverdict, service_setService_self ..⟩⟩

theorem Handles.service_of_ne {cl : Cluster} {s s' : System} {d v now e : Nat}
    (h : Handles cl s d v now s') (he : e ≠ d) : s'.service e = s.service e := by
  cases h <;> exact service_setService_of_ne _ _ _ he

theorem abortNode_eq_some {s s' : System} {d : Nat} (h : s.abortNode d = some s') :
    ∃ sender address rw conflict victim victims,
      (s.service d).serving = some ⟨sender, address, rw, conflict, victim :: victims⟩ ∧
      ((s.abortFlag victim = .persistingWrites ∧ s' = s) ∨
        (s.abortFlag victim ≠ .persistingWrites ∧
          s' = { s.setService d
              ⟨{ (s.service d).state with locks := (s.service d).state.locks.release victim },
                some ⟨sender, address, rw, conflict, victims⟩⟩ with
            abortFlag := Function.update s.abortFlag victim
              (casAbortFlag (s.abortFlag victim) conflict)
            kills := (sender, victim) :: s.kills })) := by
  unfold abortNode at h
  split at h
  · rename_i sender address rw conflict victim victims hserving
    refine ⟨sender, address, rw, conflict, victim, victims, hserving, ?_⟩
    split at h
    · rename_i hflag
      exact Or.inl ⟨hflag, (Option.some.inj h).symm⟩
    · rename_i hflag
      exact Or.inr ⟨hflag, (Option.some.inj h).symm⟩
  · cases h

theorem grant_eq_some {s s' : System} {d : Nat} (h : s.grant d = some s') :
    ∃ sender address rw conflict,
      (s.service d).serving = some ⟨sender, address, rw, conflict, []⟩ ∧
      s' = { s.setService d
          ⟨{ (s.service d).state with
            locks := acquire (s.service d).state.locks sender address rw }, none⟩ with
        reply := Function.update s.reply sender (some .noConflict)
        granted := Function.update s.granted sender (s.granted sender ++ [(address, rw)]) } := by
  unfold grant at h
  split at h
  · rename_i sender address rw conflict hserving
    exact ⟨sender, address, rw, conflict, hserving, (Option.some.inj h).symm⟩
  · cases h

end System

end TM2C
