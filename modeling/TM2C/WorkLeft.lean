import TM2C.Accounts
import TM2C.Lib.Chunks

/-!
# The work that is left

What is still to be done for the attempts, the messages and the requests that are under way is
measured by a number, and every step of a node or of a service node lowers it.  The bound on the
operations of a transaction keeps `nodes_contacted` from wrapping around, so that the attempt is
over once it has passed through `tm2c_rpc_rls_all`.

The work of a node is read off its phase and the rest of its block.  `Left` says that a number is
enough: for the operations still to come, each with its request and its entry at the commit, for
the entries to be locked or to be written, and for the releases to be sent; a number that is
enough stays so when it grows.  `WorkLeft` adds the messages in the channels and what the service
nodes are doing.  An abort may end an attempt at any moment, and then the release is all that is
left.

There is one lemma for each kind of step: for the operations (`lowers_operation`), for sending a
request (`lowers_send`), for the other steps of a node (`lowers_act`) and for those of a service
node.  Each gives, for every number that is enough before the step, a smaller one that is enough
after it.
-/

namespace TM2C

open AtomicBlocks Transition

/-! ### Work -/

/-- A message is taken, its victims are aborted one by one, and it is granted. -/
def messageWork (cfg : Config) : Nat := cfg.numUes + 4

def ServiceNode.work (n : ServiceNode) : Nat :=
  match n.serving with
  | some sv => sv.victims.length + 2
  | none => 0

/-- An entry in `tm2c_rpc_store_all`. -/
def requestWork (cfg : Config) : Nat := messageWork cfg + 3

/-- An operation of a transaction, also for the entry that it leaves in the write set. -/
def operationWork (cfg : Config) : Nat := 2 * messageWork cfg + 8

/-- `tm2c_rpc_rls_all` from service node `seq` on. -/
def releaseWork (cl : Cluster) (seq : Nat) : Nat :=
  (cl.numDslNodes - seq) * (messageWork cl.cfg + 1) + 1

/-- `write_set_persist` with so many entries left. -/
def persistWork (cl : Cluster) (entries : Nat) : Nat := entries + releaseWork cl 0 + 1

/-- `tm2c_rpc_store_all` with so many of the entries left. -/
def storeAllWork (cl : Cluster) (entries left : Nat) : Nat :=
  left * requestWork cl.cfg + persistWork cl entries + 1

/-- A transaction with so many operations left. -/
def blockWork (cl : Cluster) (operations entries : Nat) : Nat :=
  operations * operationWork cl.cfg + storeAllWork cl entries entries + 1

/-- How far an operation of a transaction is. -/
inductive Stage where
  | ready
  | asking
  | asked
  | granted
deriving DecidableEq, Repr

/-- The requests that the operation has sent. -/
def Stage.sent : Stage → Nat
  | .ready | .asking => 0
  | .asked | .granted => 1

/-- What is left of the operation. -/
def Stage.work (cfg : Config) : Stage → Nat
  | .ready => operationWork cfg
  | .asking => operationWork cfg - 1
  | .asked => messageWork cfg + 6
  | .granted => messageWork cfg + 5

variable {σ ι ρ : Type}

/-- A transaction with at most `k` operations left, the first of which may be under way. -/
structure InBlock (cl : Cluster) (n : TxNode) (granted : List (Nat × RW)) (t : TxAttempt ι ρ)
    (stage : Stage) (k w : Nat) : Prop where
  pos : stage ≠ .ready → 0 < k
  rest : ∃ updated, t.rest.Within k updated ∧ ∀ a ∈ updated, (a, RW.write) ∈ granted
  room : ∀ d, n.nodesContacted d + n.writeSet.writeEntries.length + 2 * k < 2 ^ 16 + stage.sent
  work : blockWork cl k n.writeSet.writeEntries.length + stage.work cl.cfg ≤
    w + operationWork cl.cfg

/-- Within its budget an attempt does not fill its write set. -/
theorem InBlock.exists_insert {cl : Cluster} {n : TxNode} {granted : List (Nat × RW)}
    {t : TxAttempt ι ρ} {stage : Stage} {k w : Nat} (h : InBlock cl n granted t stage k w)
    (hroom : n.writeSet.HasRoom) (value : BitVec 32) (address : Nat) :
    ∃ ws, writeSetInsert n.writeSet .typeInt value address = some ws := by
  refine (hroom.insert_iff .typeInt value address).mpr ?_
  have hbudget := h.room 0
  have hsent : stage.sent ≤ 2 ^ 16 := by
    cases stage <;> decide
  omega

def EndsIn (cl : Cluster) (n : TxNode) (granted : List (Nat × RW))
    (attempt : Option (TxAttempt ι ρ)) (stage : TxAttempt ι ρ → Stage) (w : Nat) : Prop :=
  ∃ t k, attempt = some t ∧ InBlock cl n granted t (stage t) k w

/-- The work `w` is enough for what is left of the attempt of a node. -/
def Left (cl : Cluster) (n : TxNode) (granted : List (Nat × RW))
    (attempt : Option (TxAttempt ι ρ)) (w : Nat) : Prop :=
  let entries := n.writeSet.writeEntries.length
  match n.phase with
  | .idle | .restarting => True
  | .running =>
    EndsIn cl n granted attempt (fun t => if t.loaded then .granted else .ready) w
  | .sending (.storeAll i) _ =>
    i < entries ∧ (∀ d, n.nodesContacted d + (entries - i) < 2 ^ 16) ∧
      storeAllWork cl entries (entries - (i + 1)) + messageWork cl.cfg + 2 ≤ w
  | .waiting (.storeAll i) _ =>
    (∀ d, n.nodesContacted d + (entries - (i + 1)) < 2 ^ 16) ∧
      storeAllWork cl entries (entries - (i + 1)) + 1 ≤ w
  | .sending _ _ => EndsIn cl n granted attempt (fun _ => .asking) w
  | .waiting _ _ => EndsIn cl n granted attempt (fun _ => .asked) w
  | .locked _ _ => EndsIn cl n granted attempt (fun _ => .granted) w
  | .storingAll i =>
    (∀ d, n.nodesContacted d + (entries - i) < 2 ^ 16) ∧
      storeAllWork cl entries (entries - i) ≤ w
  | .persisting i => persistWork cl (entries - i) ≤ w
  | .releasing seq | .aborting seq => releaseWork cl seq ≤ w

/-- The messages of a node that are on their way. -/
def System.sent (s : System) (cl : Cluster) (v : Nat) : Nat :=
  ∑ d ∈ Finset.range cl.numDslNodes, (s.channel v d).length

/-- The work `m` is enough for all that is under way. -/
def TxSystem.WorkLeft (cl : Cluster) (s : TxSystem σ ι ρ) (m : Nat) : Prop :=
  ∃ w : Nat → Nat,
    (∀ v, Left cl (s.system.node v) (s.system.granted v) (s.attempt v) (w v)) ∧
    ∑ v ∈ Finset.range cl.cfg.numUes, (w v + messageWork cl.cfg * s.system.sent cl v) +
      ∑ d ∈ Finset.range cl.numDslNodes, (s.system.service d).work ≤ m

/-! ### Steps of an attempt -/

section Work

variable (cl : Cluster)

variable {cl} in
theorem releaseWork_succ {seq : Nat} (hseq : seq < cl.numDslNodes) :
    releaseWork cl seq = releaseWork cl (seq + 1) + (messageWork cl.cfg + 1) := by
  obtain ⟨left, hleft⟩ : ∃ left, cl.numDslNodes - seq = left + 1 :=
    ⟨cl.numDslNodes - seq - 1, by omega⟩
  rw [releaseWork, releaseWork, hleft, show cl.numDslNodes - (seq + 1) = left by omega,
    Nat.succ_mul]
  omega

theorem storeAllWork_succ (entries left : Nat) :
    storeAllWork cl entries (left + 1) = storeAllWork cl entries left + requestWork cl.cfg := by
  rw [storeAllWork, storeAllWork, Nat.succ_mul]
  omega

theorem releaseWork_lt_storeAllWork (entries left : Nat) :
    releaseWork cl 0 + 1 < storeAllWork cl entries left := by
  rw [storeAllWork, persistWork]
  omega

theorem storeAllWork_mono (entries : Nat) {left left' : Nat} (h : left ≤ left') :
    storeAllWork cl entries left ≤ storeAllWork cl entries left' := by
  have := Nat.mul_le_mul_right (requestWork cl.cfg) h
  rw [storeAllWork, storeAllWork]
  omega

theorem storeAllWork_lt_blockWork {entries left : Nat} (h : left ≤ entries) (operations : Nat) :
    storeAllWork cl entries left < blockWork cl operations entries := by
  have := storeAllWork_mono cl entries h
  rw [blockWork]
  omega

theorem blockWork_succ (operations entries : Nat) :
    blockWork cl (operations + 1) entries =
      blockWork cl operations entries + operationWork cl.cfg := by
  rw [blockWork, blockWork, Nat.succ_mul]
  omega

theorem blockWork_le {entries entries' : Nat} (h : entries' ≤ entries + 1) (operations : Nat) :
    blockWork cl operations entries' ≤
      blockWork cl operations entries + (messageWork cl.cfg + 4) := by
  have := Nat.mul_le_mul_right (requestWork cl.cfg) h
  rw [Nat.succ_mul] at this
  simp only [blockWork, storeAllWork, persistWork, requestWork] at this ⊢
  omega

end Work

section Block

variable {cl : Cluster} {n m : TxNode} {granted granted' : List (Nat × RW)}
  {t u : TxAttempt ι ρ} {stage : Stage} {k w : Nat}

theorem InBlock.releaseWork_lt (h : InBlock cl n granted t stage k w) : releaseWork cl 0 < w := by
  have hwork := h.work
  have hstore := releaseWork_lt_storeAllWork cl n.writeSet.writeEntries.length
    n.writeSet.writeEntries.length
  by_cases hstage : stage = .ready
  · subst hstage
    have hlt := storeAllWork_lt_blockWork cl (Nat.le_refl n.writeSet.writeEntries.length) k
    simp only [Stage.work] at hwork
    omega
  · obtain ⟨k, rfl⟩ : ∃ j, k = j + 1 := ⟨k - 1, by have := h.pos hstage; omega⟩
    have hlt := storeAllWork_lt_blockWork cl (Nat.le_refl n.writeSet.writeEntries.length) k
    rw [blockWork_succ] at hwork
    omega

/-- The first operation is done, and may have put an entry into the write set. -/
theorem InBlock.next (h : InBlock cl n granted t stage (k + 1) w)
    (hstage : stage = .ready ∨ stage = .granted)
    (hrest : ∃ updated, u.rest.Within k updated ∧ ∀ a ∈ updated, (a, RW.write) ∈ granted')
    (hcontacted : m.nodesContacted = n.nodesContacted)
    (hentries : m.writeSet.writeEntries.length ≤ n.writeSet.writeEntries.length + 1) :
    ∃ w' < w, InBlock cl m granted' u .ready k w' := by
  have hblock := blockWork_le cl hentries k
  have hwork := h.work
  rw [blockWork_succ] at hwork
  refine ⟨w - 1, ?_, fun hc => absurd rfl hc, hrest, ?_, ?_⟩
  · have := h.releaseWork_lt
    omega
  · intro d
    have hroom := h.room d
    rw [hcontacted]
    obtain rfl | rfl := hstage <;> simp only [Stage.sent] at hroom ⊢ <;> omega
  · simp only [Stage.work]
    obtain rfl | rfl := hstage <;> simp only [Stage.work, operationWork] at hwork ⊢ <;> omega

/-- `TXCHKABORTED` is passed. -/
theorem InBlock.ask (h : InBlock cl n granted t .ready (k + 1) w) (hrest : u.rest = t.rest)
    (hcontacted : m.nodesContacted = n.nodesContacted) (hwriteSet : m.writeSet = n.writeSet) :
    ∃ w' < w, InBlock cl m granted u .asking (k + 1) w' := by
  have hwork := h.work
  refine ⟨w - 1, ?_, fun _ => Nat.succ_pos k, by rw [hrest]; exact h.rest, ?_, ?_⟩
  · have := h.releaseWork_lt
    omega
  · rw [hcontacted, hwriteSet]
    exact h.room
  · rw [hwriteSet]
    rw [blockWork_succ] at hwork ⊢
    simp only [Stage.work, operationWork] at hwork ⊢
    omega

/-- The request is sent; its message is paid for. -/
theorem InBlock.send (h : InBlock cl n granted t .asking k w) {d₀ : Nat}
    (hcontacted : m.nodesContacted = Function.update n.nodesContacted d₀
      ((n.nodesContacted d₀ + 1) % 2 ^ 16)) (hwriteSet : m.writeSet = n.writeSet) :
    ∃ w', w' + messageWork cl.cfg < w ∧ InBlock cl m granted t .asked k w' := by
  have hpos := h.pos (by simp)
  obtain ⟨k, rfl⟩ : ∃ j, k = j + 1 := ⟨k - 1, by omega⟩
  have hwork := h.work
  rw [blockWork_succ] at hwork
  refine ⟨w - messageWork cl.cfg - 1, ?_, fun _ => hpos, h.rest, ?_, ?_⟩
  · have := h.releaseWork_lt
    have hlt := storeAllWork_lt_blockWork cl (Nat.le_refl n.writeSet.writeEntries.length) k
    simp only [Stage.work, operationWork] at hwork
    omega
  · intro d
    have hroom := h.room d
    rw [hcontacted, hwriteSet]
    simp only [Stage.sent] at hroom ⊢
    by_cases hd : d = d₀
    · subst hd
      have := Nat.mod_le (n.nodesContacted d + 1) (2 ^ 16)
      rw [Function.update_self]
      omega
    · rw [Function.update_of_ne hd]
      omega
  · rw [hwriteSet, blockWork_succ]
    simp only [Stage.work, operationWork] at hwork ⊢
    omega

/-- The request is granted. -/
theorem InBlock.recv (h : InBlock cl n granted t .asked k w)
    (hcontacted : m.nodesContacted = n.nodesContacted) (hwriteSet : m.writeSet = n.writeSet) :
    ∃ w' < w, InBlock cl m granted t .granted k w' := by
  have hwork := h.work
  refine ⟨w - 1, ?_, fun _ => h.pos (by simp), h.rest, ?_, ?_⟩
  · have := h.releaseWork_lt
    omega
  · rw [hcontacted, hwriteSet]
    exact h.room
  · have := h.releaseWork_lt
    rw [hwriteSet]
    simp only [Stage.work] at hwork ⊢
    omega

end Block

section Attempt

variable {cl : Cluster} {n : TxNode} {granted : List (Nat × RW)} {t : TxAttempt ι ρ} {w : Nat}

/-- There is always enough work left to abort. -/
theorem Left.releaseWork_lt {attempt : Option (TxAttempt ι ρ)} (h : Left cl n granted attempt w)
    (hactive : n.phase.active = true) : releaseWork cl 0 < w := by
  have hblock : ∀ {stage : TxAttempt ι ρ → Stage}, EndsIn cl n granted attempt stage w →
      releaseWork cl 0 < w := by
    rintro stage ⟨t, k, -, hblock⟩
    exact hblock.releaseWork_lt
  have hstore : ∀ {left : Nat},
      storeAllWork cl n.writeSet.writeEntries.length left ≤ w → releaseWork cl 0 < w := by
    intro left hw
    have := releaseWork_lt_storeAllWork cl n.writeSet.writeEntries.length left
    omega
  rw [Left] at h
  cases hphase : n.phase with
  | idle => simp [hphase, Phase.active] at hactive
  | restarting => simp [hphase, Phase.active] at hactive
  | releasing seq => simp [hphase, Phase.active] at hactive
  | aborting seq => simp [hphase, Phase.active] at hactive
  | running =>
    rw [hphase] at h
    exact hblock h
  | locked a value =>
    rw [hphase] at h
    exact hblock h
  | storingAll i =>
    rw [hphase] at h
    exact hstore h.2
  | persisting i =>
    rw [hphase] at h
    simp only [persistWork] at h
    omega
  | sending p a =>
    rw [hphase] at h
    cases p with
    | txLoad => exact hblock h
    | txStore value => exact hblock h
    | storeAll i => exact hstore (Nat.le_of_add_right_le (Nat.le_of_add_right_le h.2.2))
  | waiting p a =>
    rw [hphase] at h
    cases p with
    | txLoad => exact hblock h
    | txStore value => exact hblock h
    | storeAll i => exact hstore (Nat.le_of_succ_le h.2)

theorem Left.block (h : Left cl n granted (some t) w) (hphase : n.phase = .running) :
    ∃ k, InBlock cl n granted t (if t.loaded then .granted else .ready) k w := by
  rw [Left, hphase] at h
  obtain ⟨t', k, ht, hblock⟩ := h
  obtain rfl := Option.some.inj ht
  exact ⟨k, hblock⟩

theorem left_of_block {k : Nat} (h : InBlock cl n granted t .ready k w)
    (hphase : n.phase = .running) (hloaded : t.loaded = false) :
    Left cl n granted (some t) w := by
  rw [Left, hphase]
  refine ⟨t, k, rfl, ?_⟩
  simp only [hloaded]
  exact h

theorem Left.abort {s : System} {v : Nat} {attempt : Option (TxAttempt ι ρ)}
    (h : Left cl (s.node v) (s.granted v) attempt w) (hactive : (s.node v).phase.active = true)
    (attempt' : Option (TxAttempt ι ρ)) :
    ∃ w' < w, Left cl ((s.enter v (.aborting 0)).node v) ((s.enter v (.aborting 0)).granted v)
      attempt' w' := by
  refine ⟨releaseWork cl 0, h.releaseWork_lt hactive, ?_⟩
  rw [Left, System.enter, System.node_setNode_self]

theorem Left.chkAborted {s next : System} {v : Nat} {attempt attempt' : Option (TxAttempt ι ρ)}
    (h : Left cl (s.node v) (s.granted v) attempt w) (hactive : (s.node v).phase.active = true)
    (hnext : ∃ w' < w, Left cl (next.node v) (next.granted v) attempt' w') :
    ∃ w' < w, Left cl ((s.chkAborted v next).node v) ((s.chkAborted v next).granted v)
      attempt' w' := by
  unfold System.chkAborted
  split
  · exact h.abort hactive attempt'
  · exact hnext

end Attempt

namespace System

theorem channel_act {cl : Cluster} {s s' : System} {v : Nat} {a : Action}
    (hstep : s.act cl v a = some s') (hsend : ∀ now, a ≠ .send now)
    (hrls : ∀ now, a ≠ .rlsAll now) : s'.channel = s.channel := by
  cases acts_of_act hstep with
  | send => exact absurd rfl (hsend _)
  | rlsAll => exact absurd rfl (hrls _)
  | _ => rfl

theorem channel_chkAborted {s next : System} {v : Nat} (h : next.channel = s.channel) :
    (s.chkAborted v next).channel = s.channel := by
  unfold chkAborted
  split
  · rfl
  · exact h

end System

/-- The step uses up work of the node. -/
def Lowers (cl : Cluster) (s s' : TxSystem σ ι ρ) (v : Nat) : Prop :=
  ∀ w, Left cl (s.system.node v) (s.system.granted v) (s.attempt v) w →
    ∃ w', w' + messageWork cl.cfg * s'.system.sent cl v <
        w + messageWork cl.cfg * s.system.sent cl v ∧
      Left cl (s'.system.node v) (s'.system.granted v) (s'.attempt v) w'

section Operations

variable {cl : Cluster} {program : TxProgram σ ι ρ} {s s' : TxSystem σ ι ρ} {v : Nat}
  {t : TxAttempt ι ρ}

theorem lowers_of_channel (hchannel : s'.system.channel = s.system.channel)
    (h : ∀ w, Left cl (s.system.node v) (s.system.granted v) (s.attempt v) w →
      ∃ w' < w, Left cl (s'.system.node v) (s'.system.granted v) (s'.attempt v) w') :
    Lowers cl s s' v := by
  intro w hleft
  obtain ⟨w', hw, hleft'⟩ := h w hleft
  refine ⟨w', ?_, hleft'⟩
  rw [System.sent, hchannel, ← System.sent]
  omega

/-- The attempt proceeds within its transaction. -/
theorem lowers_proceed {system : System} {t' : TxAttempt ι ρ} (ht : s.attempt v = some t)
    (hchannel : system.channel = s.system.channel)
    (h : ∀ w, Left cl (s.system.node v) (s.system.granted v) (some t) w →
      ∃ w' < w, Left cl (system.node v) (system.granted v) (some t') w') :
    Lowers cl s (s.proceed v t' system) v := by
  refine lowers_of_channel hchannel ?_
  rw [ht, TxSystem.attempt_proceed_self]
  exact h

section OneOperation

variable {s s' : System} {w address : Nat} {value : BitVec 32}

theorem Left.deref {next : BitVec 32 → AtomicBlock Nat (BitVec 32) ρ}
    (h : Left cl (s.node v) (s.granted v) (some t) w) (hphase : (s.node v).phase = .running)
    (hrest : t.rest = .load address next) (hloaded : t.loaded = true)
    (hstep : s.act cl v (.deref address) = some s') (value : BitVec 32) :
    ∃ w' < w, Left cl (s'.node v) (s'.granted v)
      (some { t with rest := next value, loaded := false }) w' := by
  obtain ⟨k, hblock⟩ := h.block hphase
  rw [if_pos hloaded] at hblock
  obtain ⟨k, rfl⟩ : ∃ j, k = j + 1 := ⟨k - 1, by have := hblock.pos (by simp); omega⟩
  obtain ⟨updated, hwithin, hupdated⟩ := hblock.rest
  rw [hrest] at hwithin
  cases System.acts_of_act hstep with
  | abort _ ha => cases ha
  | request _ _ ha => cases ha
  | insert _ _ ha => cases ha
  | deref =>
    obtain ⟨w', hw, hnext⟩ := hblock.next (m := s.node v)
      (u := { t with rest := next value, loaded := false }) (Or.inr rfl)
      ⟨updated, hwithin.2 value, hupdated⟩ rfl (Nat.le_succ _)
    exact ⟨w', hw, left_of_block hnext hphase rfl⟩

/-- A request that an operation begins with. -/
theorem Left.ask {k : Nat} {p : Purpose} {u : TxAttempt ι ρ}
    (h : InBlock cl (s.node v) (s.granted v) t .ready (k + 1) w) (hp : ∀ i, p ≠ .storeAll i)
    (hrest : u.rest = t.rest) :
    ∃ w' < w, Left cl ((s.enter v (.sending p address)).node v) (s.granted v) (some u) w' := by
  obtain ⟨w', hw, hask⟩ := h.ask (m := (s.enter v (.sending p address)).node v) hrest (by simp)
    (by simp)
  refine ⟨w', hw, ?_⟩
  rw [Left, System.enter, System.node_setNode_self]
  rw [System.enter, System.node_setNode_self] at hask
  cases p with
  | txLoad => exact ⟨u, k + 1, rfl, hask⟩
  | txStore value => exact ⟨u, k + 1, rfl, hask⟩
  | storeAll i => exact absurd rfl (hp i)

theorem Left.txLoad {next : BitVec 32 → AtomicBlock Nat (BitVec 32) ρ}
    (h : Left cl (s.node v) (s.granted v) (some t) w) (hphase : (s.node v).phase = .running)
    (hrest : t.rest = .load address next) (hloaded : t.loaded = false)
    (hstep : s.act cl v (.txLoad address) = some s') :
    ∃ w' < w, Left cl (s'.node v) (s'.granted v)
      (some (match writeSetContains (s.node v).writeSet address with
        | some we => { t with rest := next we.i }
        | none => { t with loaded := true })) w' := by
  obtain ⟨k, hblock⟩ := h.block hphase
  rw [if_neg (by simp [hloaded])] at hblock
  obtain ⟨updated, hwithin, hupdated⟩ := hblock.rest
  rw [hrest] at hwithin
  obtain ⟨k, rfl⟩ : ∃ j, k = j + 1 := ⟨k - 1, by have := hwithin.1; omega⟩
  simp only [System.act, hphase] at hstep
  cases hcontains : writeSetContains (s.node v).writeSet address with
  | some we =>
    simp only [hcontains, Option.some.injEq] at hstep
    subst hstep
    obtain ⟨w', hw, hnext⟩ := hblock.next (m := s.node v) (u := { t with rest := next we.i })
      (Or.inl rfl) ⟨updated, hwithin.2 we.i, hupdated⟩ rfl (Nat.le_succ _)
    exact ⟨w', hw, left_of_block hnext hphase hloaded⟩
  | none =>
    simp only [hcontains, Option.some.injEq] at hstep
    subst hstep
    exact h.chkAborted (by rw [hphase, Phase.active]) (Left.ask hblock (by simp) rfl)

/-- `writeSetInsert` in a running attempt ends its operation. -/
theorem Left.insert {k : Nat} {stage : Stage} {u : TxAttempt ι ρ} {ws : WriteSet}
    (h : InBlock cl (s.node v) (s.granted v) t stage (k + 1) w)
    (hstage : stage = .ready ∨ stage = .granted)
    (hrest : ∃ updated, u.rest.Within k updated ∧ ∀ a ∈ updated, (a, RW.write) ∈ s.granted v)
    (hloaded : u.loaded = false)
    (hws : writeSetInsert (s.node v).writeSet .typeInt value address = some ws) :
    ∃ w' < w, Left cl
      ((s.setNode v { s.node v with phase := .running, writeSet := ws }).node v)
      ((s.setNode v { s.node v with phase := .running, writeSet := ws }).granted v)
      (some u) w' := by
  rw [System.node_setNode_self, System.granted_setNode]
  obtain ⟨w', hw, hnext⟩ := h.next
    (m := { s.node v with phase := .running, writeSet := ws }) hstage hrest rfl (by
      rw [writeEntries_of_writeSetInsert hws]
      simp)
  exact ⟨w', hw, left_of_block hnext rfl hloaded⟩

theorem Left.bufferStore {k : Nat} {stage : Stage} {next : AtomicBlock Nat (BitVec 32) ρ}
    (h : Left cl (s.node v) (s.granted v) (some t) w) (hactive : (s.node v).phase.active = true)
    (hblock : InBlock cl (s.node v) (s.granted v) t stage (k + 1) w)
    (hstage : stage = .ready ∨ stage = .granted)
    (hrest : ∃ updated, next.Within k updated ∧ ∀ a ∈ updated, (a, RW.write) ∈ s.granted v)
    (hloaded : t.loaded = false) (hstep : s.bufferStore v address value = some s') :
    ∃ w' < w, Left cl (s'.node v) (s'.granted v) (some { t with rest := next }) w' := by
  obtain ⟨system, rfl, hsystem⟩ := System.bufferStore_eq_some hstep
  by_cases hflag : s.abortFlag v = .noConflict
  · obtain ⟨ws, hws, rfl⟩ := hsystem hflag
    exact h.chkAborted hactive
      (Left.insert (u := { t with rest := next }) hblock hstage hrest hloaded hws)
  · rw [System.chkAborted, if_pos hflag]
    exact Left.abort h hactive _

theorem Left.txStore {next : AtomicBlock Nat (BitVec 32) ρ}
    (h : Left cl (s.node v) (s.granted v) (some t) w) (hphase : (s.node v).phase = .running)
    (hrest : t.rest = .store address value next) (hloaded : t.loaded = false)
    (hstep : s.act cl v (.txStore address value) = some s') :
    ∃ w' < w, Left cl (s'.node v) (s'.granted v)
      (some (if cl.cfg.eagerWriteAcq then t else { t with rest := next })) w' := by
  obtain ⟨k, hblock⟩ := h.block hphase
  rw [if_neg (by simp [hloaded])] at hblock
  obtain ⟨updated, hwithin, hupdated⟩ := hblock.rest
  rw [hrest] at hwithin
  obtain ⟨k, rfl⟩ : ∃ j, k = j + 1 := ⟨k - 1, by have := hwithin.1; omega⟩
  have hactive : (s.node v).phase.active = true := by rw [hphase, Phase.active]
  simp only [System.act, hphase] at hstep
  cases heager : cl.cfg.eagerWriteAcq with
  | true =>
    simp only [heager, if_true, Option.some.injEq] at hstep ⊢
    subst hstep
    exact h.chkAborted hactive (Left.ask hblock (by simp) rfl)
  | false =>
    simp only [heager, Bool.false_eq_true, if_false] at hstep ⊢
    exact h.bufferStore hactive hblock (Or.inl rfl) ⟨updated, hwithin.2, hupdated⟩ hloaded hstep

theorem Left.granted {a : Nat} {x : BitVec 32}
    (h : Left cl (s.node v) (s.granted v) (some t) w) (hphase : (s.node v).phase = .locked a x) :
    ∃ k, InBlock cl (s.node v) (s.granted v) t .granted (k + 1) w := by
  rw [Left, hphase] at h
  obtain ⟨t', k, ht, hblock⟩ := h
  obtain rfl := Option.some.inj ht
  obtain ⟨k, rfl⟩ : ∃ j, k = j + 1 := ⟨k - 1, by have := hblock.pos (by simp); omega⟩
  exact ⟨k, hblock⟩

theorem Left.stored {a : Nat} {x : BitVec 32} {next : AtomicBlock Nat (BitVec 32) ρ}
    (h : Left cl (s.node v) (s.granted v) (some t) w) (hphase : (s.node v).phase = .locked a x)
    (hrest : t.rest = .store address value next) (hloaded : t.loaded = false)
    (hstep : s.act cl v .chkAborted = some s') :
    ∃ w' < w, Left cl (s'.node v) (s'.granted v) (some { t with rest := next }) w' := by
  obtain ⟨k, hblock⟩ := h.granted hphase
  obtain ⟨updated, hwithin, hupdated⟩ := hblock.rest
  rw [hrest] at hwithin
  simp only [System.act, hphase] at hstep
  exact h.bufferStore (by rw [hphase, Phase.active]) hblock (Or.inr rfl)
    ⟨updated, hwithin.2, hupdated⟩ hloaded hstep

theorem Left.txWlock {f : BitVec 32 → BitVec 32} {next : AtomicBlock Nat (BitVec 32) ρ}
    (h : Left cl (s.node v) (s.granted v) (some t) w) (hphase : (s.node v).phase = .running)
    (hrest : t.rest = .update address f next) (hloaded : t.loaded = false) :
    ∃ w' < w, Left cl ((s.txWlock v address).node v) ((s.txWlock v address).granted v)
      (some t) w' := by
  obtain ⟨k, hblock⟩ := h.block hphase
  rw [if_neg (by simp [hloaded])] at hblock
  obtain ⟨updated, hwithin, -⟩ := hblock.rest
  rw [hrest] at hwithin
  obtain ⟨k, rfl⟩ : ∃ j, k = j + 1 := ⟨k - 1, by have := hwithin.1; omega⟩
  exact h.chkAborted (by rw [hphase, Phase.active]) (Left.ask hblock (by simp) rfl)

/-- What `TX_LOAD_STORE` has locked can be read behind its back. -/
theorem Left.insertTemp {x : BitVec 32} {f : BitVec 32 → BitVec 32}
    {next : AtomicBlock Nat (BitVec 32) ρ} (h : Left cl (s.node v) (s.granted v) (some t) w)
    (hphase : (s.node v).phase = .locked address x) (hrest : t.rest = .update address f next)
    (hgranted : (address, RW.write) ∈ s.granted v) (hloaded : t.loaded = false)
    (hstep : s.insertTemp v address f = some s') :
    ∃ w' < w, Left cl (s'.node v) (s'.granted v) (some { t with rest := next }) w' := by
  obtain ⟨k, hblock⟩ := h.granted hphase
  obtain ⟨updated, hwithin, hupdated⟩ := hblock.rest
  rw [hrest] at hwithin
  obtain ⟨ws, hws, rfl⟩ := Option.map_eq_some_iff.mp hstep
  refine Left.insert (u := { t with rest := next }) hblock (Or.inr rfl)
    ⟨address :: updated, hwithin.2, ?_⟩ hloaded hws
  intro b hb
  obtain rfl | hb := List.mem_cons.mp hb
  · exact hgranted
  · exact hupdated b hb

theorem Left.peek {next : BitVec 32 → AtomicBlock Nat (BitVec 32) ρ}
    (h : Left cl (s.node v) (s.granted v) (some t) w) (hphase : (s.node v).phase = .running)
    (hrest : t.rest = .peek address next) (hloaded : t.loaded = false) (value : BitVec 32) :
    ∃ w' < w, Left cl (s.node v) (s.granted v) (some { t with rest := next value }) w' := by
  obtain ⟨k, hblock⟩ := h.block hphase
  rw [if_neg (by simp [hloaded])] at hblock
  obtain ⟨updated, hwithin, hupdated⟩ := hblock.rest
  rw [hrest] at hwithin
  obtain ⟨k, rfl⟩ : ∃ j, k = j + 1 := ⟨k - 1, by have := hwithin.1; omega⟩
  obtain ⟨w', hw, hnext⟩ := hblock.next (m := s.node v) (u := { t with rest := next value })
    (Or.inl rfl) ⟨updated, hwithin.2.2 value, hupdated⟩ rfl (Nat.le_succ _)
  exact ⟨w', hw, left_of_block hnext hphase hloaded⟩

/-- The commit begins, with some of the write locks already there. -/
theorem Left.storingAll {i : Nat} (h : Left cl (s.node v) (s.granted v) (some t) w)
    (hphase : (s.node v).phase = .running) (hloaded : t.loaded = false) :
    ∃ w' < w, Left cl ((s.enter v (.storingAll i)).node v) (s.granted v) (some t) w' := by
  obtain ⟨k, hblock⟩ := h.block hphase
  rw [if_neg (by simp [hloaded])] at hblock
  obtain ⟨entries, hentries⟩ : ∃ entries, entries = (s.node v).writeSet.writeEntries.length :=
    ⟨_, rfl⟩
  have hlt := storeAllWork_lt_blockWork cl (Nat.sub_le entries i) k
  have hwork := hblock.work
  rw [← hentries] at hwork
  simp only [Stage.work] at hwork
  refine ⟨storeAllWork cl entries (entries - i), by omega, ?_⟩
  rw [Left, System.enter, System.node_setNode_self]
  simp only [← hentries]
  refine ⟨?_, Nat.le_refl _⟩
  intro d
  have hroom := hblock.room d
  rw [← hentries, Stage.sent] at hroom
  omega

end OneOperation

/-- The operations of a transaction. -/
theorem lowers_operation (hinv : System.TxInv cl program s) (ht : s.attempt v = some t)
    (hstep : s.operation cl v t = some s') : Lowers cl s s' v := by
  have hattempt := hinv.attempt v t ht
  unfold TxSystem.operation at hstep
  simp only at hstep
  -- the cases of `TxSystem.operation`, in its order
  split at hstep
  · -- `TX_LOAD`, with its lock or without
    rename_i address next hphase hrest
    split at hstep
    · rename_i hloaded
      obtain ⟨system, hact, rfl⟩ := Option.map_eq_some_iff.mp hstep
      refine lowers_proceed ht (System.channel_act hact (by simp) (by simp)) fun w hleft => ?_
      exact hleft.deref hphase hrest hloaded hact _
    · rename_i hloaded
      obtain ⟨system, hact, rfl⟩ := Option.map_eq_some_iff.mp hstep
      refine lowers_proceed ht (System.channel_act hact (by simp) (by simp)) fun w hleft => ?_
      exact hleft.txLoad hphase hrest (by simpa using hloaded) hact
  · -- `TX_STORE`
    rename_i address value next hphase hrest
    have hloaded := System.control_running hattempt hphase (by simp [hrest])
    obtain ⟨system, hact, rfl⟩ := Option.map_eq_some_iff.mp hstep
    refine lowers_proceed ht (System.channel_act hact (by simp) (by simp)) fun w hleft => ?_
    exact hleft.txStore hphase hrest hloaded hact
  · -- its end, where it asked for the lock
    rename_i hphase hrest
    obtain ⟨hloaded, -⟩ := System.control_locked hattempt hphase
    obtain ⟨system, hact, rfl⟩ := Option.map_eq_some_iff.mp hstep
    refine lowers_proceed ht (System.channel_act hact (by simp) (by simp)) fun w hleft => ?_
    exact hleft.stored hphase hrest hloaded hact
  · -- `TX_LOAD_STORE`
    rename_i hphase hrest
    have hloaded := System.control_running hattempt hphase (by simp [hrest])
    obtain rfl := Option.some.inj hstep
    refine lowers_proceed ht ?_ fun w hleft => hleft.txWlock hphase hrest hloaded
    exact System.channel_chkAborted rfl
  · -- its end, for the address that was locked
    rename_i a x address f next hphase hrest
    obtain ⟨hloaded, hop⟩ := System.control_locked hattempt hphase
    obtain rfl : address = a := by
      obtain ⟨next', heq⟩ | ⟨f', next', heq⟩ := hop
      · rw [hrest] at heq
        cases heq
      · rw [hrest] at heq
        cases heq
        rfl
    have hgranted : (address, RW.write) ∈ s.system.granted v := by
      have hwrites := (hinv.inv.node v).writes.2
      rwa [hphase] at hwrites
    obtain ⟨system, hact, rfl⟩ := Option.map_eq_some_iff.mp hstep
    have hchannel : system.channel = s.system.channel := by
      obtain ⟨ws, -, rfl⟩ := Option.map_eq_some_iff.mp hact
      rfl
    exact lowers_proceed ht hchannel fun w hleft =>
      hleft.insertTemp hphase hrest hgranted hloaded hact
  · rename_i hphase hrest
    have hloaded := System.control_running hattempt hphase (by simp [hrest])
    split at hstep
    · -- a read without the transactional memory
      obtain rfl := Option.some.inj hstep
      exact lowers_proceed ht rfl fun w hleft => hleft.peek hphase hrest hloaded _
    · cases hstep
  · -- the commit begins
    rename_i hphase hrest
    have hloaded := System.control_running hattempt hphase (by simp [hrest])
    split at hstep
    · obtain ⟨system, hact, rfl⟩ := Option.map_eq_some_iff.mp hstep
      refine lowers_proceed ht (System.channel_act hact (by simp) (by simp)) fun w hleft => ?_
      simp only [System.act, hphase, Option.some.injEq] at hact
      subst hact
      exact hleft.storingAll hphase hloaded
    · obtain rfl := Option.some.inj hstep
      exact lowers_proceed ht rfl fun w hleft => hleft.storingAll hphase hloaded
  · cases hstep

/-- The loop of `tm2c_rpc_store_all`. -/
theorem lowers_storeAll {system : System} (hphase : (s.system.node v).phase.inStoreAll = true)
    (hact : s.system.act cl v .chkAborted = some system) :
    Lowers cl s { s with system := system } v := by
  obtain ⟨i, hphase⟩ : ∃ i, (s.system.node v).phase = .storingAll i := by
    unfold Phase.inStoreAll at hphase
    split at hphase
    · exact ⟨_, by assumption⟩
    · cases hphase
  refine lowers_of_channel (System.channel_act hact (by simp) (by simp)) fun w hleft => ?_
  have hactive : (s.system.node v).phase.active = true := by rw [hphase, Phase.active]
  simp only [System.act, hphase] at hact
  obtain ⟨we, hwe, rfl⟩ := Option.map_eq_some_iff.mp hact
  refine hleft.chkAborted hactive ?_
  rw [Left, hphase] at hleft
  obtain ⟨hroom, hwork⟩ := hleft
  have hlt : i < (s.system.node v).writeSet.writeEntries.length :=
    (List.getElem?_eq_some_iff.mp hwe).1
  obtain ⟨left, hleft⟩ : ∃ left, (s.system.node v).writeSet.writeEntries.length - i = left + 1 :=
    ⟨(s.system.node v).writeSet.writeEntries.length - i - 1, by omega⟩
  rw [hleft, storeAllWork_succ, requestWork] at hwork
  refine ⟨w - 1, by omega, ?_⟩
  rw [Left, System.enter, System.node_setNode_self]
  refine ⟨hlt, hroom, ?_⟩
  simp only
  rw [show (s.system.node v).writeSet.writeEntries.length - (i + 1) = left by omega]
  omega

theorem lowers_txCommitted {system : System} {thread : Nat → σ}
    {attempt : Nat → Option (TxAttempt ι ρ)}
    (hact : s.system.act cl v .setTxCommitted = some system) :
    Lowers cl s ⟨system, thread, attempt⟩ v := by
  refine lowers_of_channel (System.channel_act hact (by simp) (by simp)) fun w hleft => ?_
  cases System.acts_of_act hact with
  | abort _ ha => cases ha
  | request _ _ ha => cases ha
  | insert _ _ ha => cases ha
  | committed hphase =>
    refine ⟨releaseWork cl 0, hleft.releaseWork_lt (by rw [hphase, Phase.active]), ?_⟩
    simp only [System.enter, System.node_setNode_self, Left, Nat.le_refl]

theorem sum_length_push {cl : Cluster} (s : System) (v : Nat) {d : Nat} (req : Req)
    (hd : d < cl.numDslNodes) :
    ∑ e ∈ Finset.range cl.numDslNodes, (s.push v d req v e).length = s.sent cl v + 1 := by
  have hpush : s.push v d req v = Function.update (s.channel v) d (s.channel v d ++ [req]) :=
    Function.update_self ..
  have hsum := Chunks.sum_apply_update List.length (s.channel v) (s.channel v d ++ [req]) hd
  rw [hpush, System.sent]
  rw [List.length_append, List.length_singleton] at hsum
  omega

section Underneath

variable {system : System}

theorem lowers_send {now : Nat} (hnodes : ∀ a, cl.responsibleNode a < cl.numDslNodes)
    (hact : s.system.act cl v (.send now) = some system) :
    Lowers cl s { s with system := system } v := by
  intro w hleft
  cases System.acts_of_act hact with
  | abort _ ha => cases ha
  | request _ _ ha => cases ha
  | insert _ _ ha => cases ha
  | send hphase =>
    rename_i p address
    have hsent := sum_length_push s.system v
      ⟨p.reqType, address, 0, (s.system.node v).txMetadata cl.cfg now⟩ (hnodes address)
    -- the message is work too, and what the attempt has left pays for it
    have hmessage : ∀ {w'}, w' + messageWork cl.cfg < w →
        w' + messageWork cl.cfg * (s.system.sent cl v + 1) <
          w + messageWork cl.cfg * s.system.sent cl v := by
      intro w' hw
      rw [Nat.mul_succ]
      omega
    simp only [System.sent, hsent, System.node_setNode_self]
    generalize hn : ({ s.system.node v with phase := _, nodesContacted := _ } : TxNode) = n
    have hwaiting : n.phase = .waiting p address := by rw [← hn]
    have hcontacted : n.nodesContacted = Function.update (s.system.node v).nodesContacted
        (cl.responsibleNode address)
        (((s.system.node v).nodesContacted (cl.responsibleNode address) + 1) % 2 ^ 16) := by
      rw [← hn]
    have hwriteSet : n.writeSet = (s.system.node v).writeSet := by rw [← hn]
    have hblock : EndsIn cl (s.system.node v) (s.system.granted v) (s.attempt v)
        (fun _ => .asking) w → ∃ w', w' + messageWork cl.cfg < w ∧
          EndsIn cl n (s.system.granted v) (s.attempt v) (fun _ => .asked) w' := by
      rintro ⟨t, k, ht, hblock⟩
      obtain ⟨w', hw, hasked⟩ := hblock.send hcontacted hwriteSet
      exact ⟨w', hw, t, k, ht, hasked⟩
    rw [Left, hphase] at hleft
    cases p with
    | txLoad =>
      obtain ⟨w', hw, hasked⟩ := hblock hleft
      refine ⟨w', hmessage hw, ?_⟩
      rwa [Left, hwaiting]
    | txStore value =>
      obtain ⟨w', hw, hasked⟩ := hblock hleft
      refine ⟨w', hmessage hw, ?_⟩
      rwa [Left, hwaiting]
    | storeAll i =>
      -- one entry less to lock, and `nodes_contacted` has room for it
      obtain ⟨hlt, hroom, hwork⟩ := hleft
      refine ⟨w - messageWork cl.cfg - 1, hmessage (by omega), ?_⟩
      rw [Left, hwaiting, hwriteSet]
      refine ⟨?_, by omega⟩
      intro d
      have hd := hroom d
      rw [hcontacted]
      by_cases hda : d = cl.responsibleNode address
      · subst hda
        have := Nat.mod_le ((s.system.node v).nodesContacted (cl.responsibleNode address) + 1)
          (2 ^ 16)
        rw [Function.update_self]
        omega
      · rw [Function.update_of_ne hda]
        omega

theorem lowers_recv (hinv : System.TxInv cl program s)
    (hact : s.system.act cl v .recv = some system) : Lowers cl s { s with system := system } v := by
  refine lowers_of_channel (System.channel_act hact (by simp) (by simp)) fun w hleft => ?_
  cases System.acts_of_act hact with
  | abort _ ha => cases ha
  | request _ _ ha => cases ha
  | insert _ _ ha => cases ha
  | refused hphase =>
    refine ⟨releaseWork cl 0, hleft.releaseWork_lt (by rw [hphase, Phase.active]), ?_⟩
    simp only [System.node_setNode_self, Left, Nat.le_refl]
  | answered hphase hreply =>
    rename_i p address
    simp only [System.enter, System.node_setNode_self]
    generalize hn : ({ s.system.node v with phase := _ } : TxNode) = n
    have hnext : n.phase = p.next address := by rw [← hn]
    have hcontacted : n.nodesContacted = (s.system.node v).nodesContacted := by rw [← hn]
    have hwriteSet : n.writeSet = (s.system.node v).writeSet := by rw [← hn]
    rw [Left, hphase] at hleft
    cases p with
    | txLoad =>
      obtain ⟨t, k, ht, hblock⟩ := hleft
      obtain ⟨w', hw, hgranted⟩ := hblock.recv hcontacted hwriteSet
      have hcontrol := (hinv.attempt v t ht).control
      rw [Control, hphase] at hcontrol
      refine ⟨w', hw, ?_⟩
      rw [Left, hnext]
      refine ⟨t, k, ht, ?_⟩
      simp only [hcontrol.1, if_true]
      exact hgranted
    | txStore value =>
      obtain ⟨t, k, ht, hblock⟩ := hleft
      obtain ⟨w', hw, hgranted⟩ := hblock.recv hcontacted hwriteSet
      refine ⟨w', hw, ?_⟩
      rw [Left, hnext]
      exact ⟨t, k, ht, hgranted⟩
    | storeAll i =>
      refine ⟨w - 1, by omega, ?_⟩
      rw [Left, hnext, hcontacted, hwriteSet]
      exact ⟨hleft.1, Nat.le_sub_of_add_le hleft.2⟩

theorem lowers_rlsAll {now : Nat} (hact : s.system.act cl v (.rlsAll now) = some system) :
    Lowers cl s { s with system := system } v := by
  intro w hleft
  cases System.acts_of_act hact with
  | abort _ ha => cases ha
  | request _ _ ha => cases ha
  | insert _ _ ha => cases ha
  | rlsAll hphase =>
    rename_i seq next
    have hseq := System.lt_of_rlsAll hact (hphase.imp And.left And.left)
    have hwork : releaseWork cl seq ≤ w := by
      obtain ⟨hphase, -⟩ | ⟨hphase, -⟩ := hphase
      · rwa [Left, hphase] at hleft
      · rwa [Left, hphase] at hleft
    rw [releaseWork_succ hseq] at hwork
    refine ⟨w - (messageWork cl.cfg + 1), ?_, ?_⟩
    · have hsent := sum_length_push s.system v
        ⟨.rmvNode, 0, 0, (s.system.node v).txMetadata cl.cfg now⟩ hseq
      simp only [System.sent]
      split
      · rw [hsent, System.sent, Nat.mul_succ]
        omega
      · omega
    · simp only [System.node_setNode_self]
      obtain ⟨-, rfl⟩ | ⟨-, rfl⟩ := hphase
      · simp only [Left]
        omega
      · simp only [Left]
        omega

/-- The other steps of a node below the operations of its transaction. -/
theorem lowers_act (hinv : System.TxInv cl program s)
    (hnodes : ∀ a, cl.responsibleNode a < cl.numDslNodes) {a : Action}
    (hact : s.system.act cl v a = some system) (ha : (SystemEvent.node v a).underneath = true) :
    Lowers cl s { s with system := system } v := by
  -- an attempt that is given up has only its release left
  have habort : (s.system.node v).phase.active = true →
      system = s.system.enter v (.aborting 0) → Lowers cl s { s with system := system } v := by
    rintro hactive rfl
    refine lowers_of_channel rfl fun w hleft => ⟨_, hleft.releaseWork_lt hactive, ?_⟩
    simp only [System.enter, System.node_setNode_self, Left, Nat.le_refl]
  cases a with
  -- these belong to the operations
  | txStart now => cases ha
  | txLoad address => cases ha
  | txStore address value => cases ha
  | txCommit => cases ha
  | chkAborted => cases ha
  | deref address => cases ha
  | setTxCommitted => cases ha
  | send now => exact lowers_send hnodes hact
  | recv => exact lowers_recv hinv hact
  | rlsAll now => exact lowers_rlsAll hact
  | txAbort =>
    simp only [System.act] at hact
    split at hact
    · rename_i hphase
      exact habort (by rw [hphase, Phase.active]) (Option.some.inj hact).symm
    · cases hact
  | setTxPersisting =>
    have hchannel := System.channel_act hact (by simp) (by simp)
    simp only [System.act] at hact
    split at hact
    · rename_i i hphase
      split at hact
      · obtain rfl := Option.some.inj hact
        refine lowers_of_channel hchannel fun w hleft => ?_
        have hlt := hleft.releaseWork_lt (by rw [hphase, Phase.active])
        split
        · -- killed in the meantime
          refine ⟨_, hlt, ?_⟩
          simp only [System.enter, System.node_setNode_self, Left, Nat.le_refl]
        · rw [Left, hphase] at hleft
          have hwork := hleft.2
          rw [storeAllWork] at hwork
          refine ⟨persistWork cl (s.system.node v).writeSet.writeEntries.length, by omega, ?_⟩
          simp only [System.enter, System.node_setNode_self, Left, Nat.sub_zero, Nat.le_refl]
      · cases hact
    · cases hact
  | writeEntryPersist =>
    refine lowers_of_channel (System.channel_act hact (by simp) (by simp)) fun w hleft => ?_
    cases System.acts_of_act hact with
    | abort _ ha => cases ha
    | request _ _ ha => cases ha
    | insert _ _ ha => cases ha
    | persist hphase hwe =>
      rename_i i we
      have hlt : i < (s.system.node v).writeSet.writeEntries.length :=
        (List.getElem?_eq_some_iff.mp hwe).1
      rw [Left, hphase] at hleft
      simp only [persistWork] at hleft
      refine ⟨w - 1, by omega, ?_⟩
      simp only [System.enter, System.node_setNode_self, Left, persistWork]
      omega
  | finish now =>
    refine lowers_of_channel (System.channel_act hact (by simp) (by simp)) fun w hleft => ?_
    cases System.acts_of_act hact with
    | abort _ ha => cases ha
    | request _ _ ha => cases ha
    | insert _ _ ha => cases ha
    | finish hphase =>
      rw [Left, hphase] at hleft
      simp only [releaseWork] at hleft
      refine ⟨0, by omega, ?_⟩
      simp only [System.node_setNode_self, Left]
    | restart hphase =>
      rw [Left, hphase] at hleft
      simp only [releaseWork] at hleft
      refine ⟨0, by omega, ?_⟩
      simp only [System.node_setNode_self, Left]

end Underneath

end Operations

/-! ### The work of the whole system -/

section Total

variable {cl : Cluster} {program : TxProgram σ ι ρ} {s s' : TxSystem σ ι ρ} {u v m : Nat}

/-- A sum in which one summand changes. -/
theorem sum_add_of_eq_off {count : Nat} {f g : Nat → Nat} (hv : v < count)
    (h : ∀ u, u ≠ v → g u = f u) :
    ∑ u ∈ Finset.range count, g u + f v = ∑ u ∈ Finset.range count, f u + g v := by
  have hupdate : g = Function.update f v (g v) := by
    funext u
    by_cases hu : u = v
    · rw [hu, Function.update_self]
    · rw [Function.update_of_ne hu, h u hu]
  have hsum := Chunks.sum_apply_update id f (g v) hv
  rw [← hupdate] at hsum
  exact hsum

theorem Left.mono {n : TxNode} {granted granted' : List (Nat × RW)}
    {attempt : Option (TxAttempt ι ρ)} {w : Nat} (h : Left cl n granted attempt w)
    (hsub : ∀ g ∈ granted, g ∈ granted') : Left cl n granted' attempt w := by
  have hblock : ∀ {stage : TxAttempt ι ρ → Stage}, EndsIn cl n granted attempt stage w →
      EndsIn cl n granted' attempt stage w := by
    rintro stage ⟨t, k, ht, hblock⟩
    obtain ⟨updated, hwithin, hupdated⟩ := hblock.rest
    exact ⟨t, k, ht, hblock.pos, ⟨updated, hwithin, fun a ha => hsub _ (hupdated a ha)⟩,
      hblock.room, hblock.work⟩
  unfold Left at h ⊢
  split at h <;> first | exact h | exact hblock h

/-- What a step of the node leaves alone. -/
structure SameOthers (s s' : TxSystem σ ι ρ) (v : Nat) : Prop where
  node : ∀ u, u ≠ v → s'.system.node u = s.system.node u
  granted : ∀ u, u ≠ v → s'.system.granted u = s.system.granted u
  channel : ∀ u, u ≠ v → s'.system.channel u = s.system.channel u
  attempt : ∀ u, u ≠ v → s'.attempt u = s.attempt u
  service : s'.system.service = s.system.service

theorem TxSystem.WorkLeft.node (h : s.WorkLeft cl m) (hv : v < cl.cfg.numUes)
    (hothers : SameOthers s s' v) (hlowers : Lowers cl s s' v) :
    ∃ m' < m, s'.WorkLeft cl m' := by
  obtain ⟨w, hleft, hm⟩ := h
  obtain ⟨w', hw, hleft'⟩ := hlowers (w v) (hleft v)
  have hsum := sum_add_of_eq_off (f := fun u => w u + messageWork cl.cfg * s.system.sent cl u)
    (g := fun u => Function.update w v w' u + messageWork cl.cfg * s'.system.sent cl u) hv (by
      intro u hu
      simp only [Function.update_of_ne hu, System.sent, hothers.channel u hu])
  simp only [Function.update_self] at hsum
  rw [← hothers.service] at hm
  refine ⟨_, ?_, Function.update w v w', ?_, Nat.le_refl _⟩
  · omega
  · intro u
    by_cases hu : u = v
    · subst hu
      rwa [Function.update_self]
    · rw [Function.update_of_ne hu, hothers.node u hu, hothers.granted u hu, hothers.attempt u hu]
      exact hleft u

theorem length_le_of_grant {cfg : Config} {timestamp : Nat → Nat} {locks : LockMap Nat Nat}
    {id addr : Nat} {rw : RW} {victims : List Nat}
    (h : verdict cfg timestamp locks id addr rw = .grant victims) :
    victims.length ≤ cfg.numUes + 1 := by
  have hwriter : ∀ {w conflict}, attackWriter cfg timestamp id w conflict = .grant victims →
      victims.length ≤ cfg.numUes + 1 := by
    intro w conflict h
    unfold attackWriter at h
    split at h
    · obtain rfl := Verdict.grant.inj h
      simp
    · cases h
  have hreaders : ∀ {readers conflict}, attackReaders cfg timestamp id readers conflict =
      .grant victims → victims.length ≤ cfg.numUes + 1 := by
    intro readers conflict h
    simp only [attackReaders] at h
    split at h
    · obtain rfl := Verdict.grant.inj h
      simp
    · split at h
      · obtain rfl := Verdict.grant.inj h
        refine (List.length_filter_le _ _).trans ?_
        rw [List.length_range]
        exact Nat.le_succ _
      · cases h
  unfold verdict at h
  split at h
  · split at h
    · exact hwriter h
    · obtain rfl := Verdict.grant.inj h
      simp
  · split at h
    · split at h
      · exact hwriter h
      · exact hreaders h
    · exact hreaders h

/-- The node is not concerned but for its messages and what it was granted. -/
theorem TxSystem.WorkLeft.service {system : System} {d : Nat} (h : s.WorkLeft cl m)
    (hd : d < cl.numDslNodes) (hnode : system.node = s.system.node)
    (hgranted : ∀ u, ∀ g ∈ s.system.granted u, g ∈ system.granted u)
    (hservice : ∀ e, e ≠ d → system.service e = s.system.service e)
    (hpaid : ∑ v ∈ Finset.range cl.cfg.numUes, messageWork cl.cfg * system.sent cl v +
        (system.service d).work <
      ∑ v ∈ Finset.range cl.cfg.numUes, messageWork cl.cfg * s.system.sent cl v +
        (s.system.service d).work) :
    ∃ m' < m, ({ s with system := system } : TxSystem σ ι ρ).WorkLeft cl m' := by
  obtain ⟨w, hleft, hm⟩ := h
  have hsum := sum_add_of_eq_off (f := fun e => (s.system.service e).work)
    (g := fun e => (system.service e).work) hd fun e he => by rw [hservice e he]
  rw [Finset.sum_add_distrib] at hm
  refine ⟨_, ?_, w, ?_, Nat.le_refl _⟩
  · simp only [Finset.sum_add_distrib]
    omega
  · intro u
    rw [hnode]
    exact (hleft u).mono (hgranted u)

theorem TxSystem.WorkLeft.handle {system : System} {d now : Nat} (h : s.WorkLeft cl m)
    (hhandles : System.Handles cl s.system d v now system) (hv : v < cl.cfg.numUes)
    (hd : d < cl.numDslNodes) :
    ∃ m' < m, ({ s with system := system } : TxSystem σ ι ρ).WorkLeft cl m' := by
  obtain ⟨req, rest, hserving, hchannel, hpop, hself⟩ := hhandles.service_self
  have hidle : (s.system.service d).work = 0 := by
    rw [ServiceNode.work, hserving]
  have hwork : (system.service d).work < messageWork cl.cfg := by
    rw [messageWork]
    obtain hself | ⟨rw, victims, -, hverdict, hself⟩ := hself
    · simp only [hself, ServiceNode.work]
      omega
    · have := length_le_of_grant hverdict
      simp only [hself, ServiceNode.work]
      omega
  have hsent : system.sent cl v + 1 = s.system.sent cl v := by
    have hsum := sum_add_of_eq_off (f := fun e => (s.system.channel v e).length)
      (g := fun e => (system.channel v e).length) hd fun e he => by
        rw [hpop, System.pop_self_of_ne he]
    simp only [hchannel, hpop, System.pop_self, List.length_cons] at hsum
    simp only [System.sent, hpop]
    omega
  have hmessages := sum_add_of_eq_off (f := fun u => messageWork cl.cfg * s.system.sent cl u)
    (g := fun u => messageWork cl.cfg * system.sent cl u) hv fun u hu => by
      rw [System.sent, hpop, System.pop_of_ne hu, ← System.sent]
  refine h.service hd ?_ ?_ (fun e he => hhandles.service_of_ne he) ?_
  · cases hhandles <;> rfl
  · cases hhandles <;> exact fun _ _ hg => hg
  · simp only [← hsent, Nat.mul_succ] at hmessages
    omega

theorem TxSystem.WorkLeft.abortNode {system : System} {d : Nat} (h : s.WorkLeft cl m)
    (hstep : s.system.abortNode d = some system) (hd : d < cl.numDslNodes) :
    system = s.system ∨
      ∃ m' < m, ({ s with system := system } : TxSystem σ ι ρ).WorkLeft cl m' := by
  obtain ⟨sender, address, rw, conflict, victim, victims, hserving, ⟨-, heq⟩ | ⟨-, rfl⟩⟩ :=
    System.abortNode_eq_some hstep
  · exact Or.inl heq
  · refine Or.inr (h.service hd rfl (fun _ _ hg => hg)
      (fun e he => System.service_setService_of_ne _ _ _ he) ?_)
    simp only [System.service_setService_self, ServiceNode.work, hserving, List.length_cons]
    exact Nat.add_lt_add_left (Nat.lt_succ_self _) _

theorem TxSystem.WorkLeft.grant {system : System} {d : Nat} (h : s.WorkLeft cl m)
    (hstep : s.system.grant d = some system) (hd : d < cl.numDslNodes) :
    ∃ m' < m, ({ s with system := system } : TxSystem σ ι ρ).WorkLeft cl m' := by
  obtain ⟨sender, address, rw, conflict, hserving, rfl⟩ := System.grant_eq_some hstep
  refine h.service hd rfl ?_ (fun e he => System.service_setService_of_ne _ _ _ he) ?_
  · intro u g hg
    by_cases hu : u = sender
    · subst hu
      simp only [Function.update_self, List.mem_append]
      exact Or.inl hg
    · simpa only [Function.update_of_ne hu] using hg
  · simp only [System.service_setService_self, ServiceNode.work, hserving, List.length_nil]
    exact Nat.add_lt_add_left (by omega) _

end Total

end TM2C
