import TM2C.SerialRuns
import TM2C.WorkLeft

/-!
# Attempts end

Every step of an attempt, of a message or of a service node uses up some of the work that is
left, so that the system comes to a stop where no attempt begins.  It does not stop before all
attempts are over: of what is left some step can always be taken, if only by the node that a
service node is waiting for.

The work left is a number, `WorkLeft` of `WorkLeft.lean`, that bounds what the nodes have still
to do: operations, requests, releases, the victims that service nodes have yet to abort.  Every
step other than the start of an attempt lowers it (`UsesWork`), except the rounds in which a
service node finds the flag of its victim at `PERSISTING_WRITES`, which change nothing.  `LiveInv`
joins it to the invariant of atomicity and to the accounts.

Progress is by the kinds of a phase.  A node that waits for an answer has its request somewhere,
by `Accounted`: in the channel of a service node, and then this one can take it or has an abort
or a grant to finish; or in the reply, and then the node takes that.  A service node that waits
for a victim leaves a step to the victim.  To finish one transaction, the others are first run to
the end of their attempts, and then the transaction runs alone, which no conflict can refuse.
-/

namespace TM2C

open AtomicBlocks Transition

/-! ### Every step -/

section Steps

variable {cl : Cluster} {program : TxProgram σ ι ρ} {s s' : TxSystem σ ι ρ} {v m : Nat}

/-- What a step of the node does to the accounts of all. -/
structure NodeStep (cl : Cluster) (s : System) (v : Nat) (s' : System) : Prop where
  ne_idle : (s.node v).phase ≠ .idle
  accounted : ∀ u, System.Accounted cl s u → System.Accounted cl s' u
  node : ∀ u, u ≠ v → s'.node u = s.node u
  granted : ∀ u, u ≠ v → s'.granted u = s.granted u
  channel : ∀ u, u ≠ v → s'.channel u = s.channel u
  service : s'.service = s.service

theorem Left.room_of_sending {n : TxNode} {granted : List (Nat × RW)}
    {attempt : Option (TxAttempt ι ρ)} {w a : Nat} {p : Purpose}
    (h : Left cl n granted attempt w) (hphase : n.phase = .sending p a) (d : Nat) :
    n.nodesContacted d + 1 < 2 ^ 16 := by
  have hblock : EndsIn cl n granted attempt (fun _ => .asking) w →
      n.nodesContacted d + 1 < 2 ^ 16 := by
    rintro ⟨t, k, -, hblock⟩
    have hpos := hblock.pos (by simp)
    have hroom := hblock.room d
    simp only [Stage.sent] at hroom
    omega
  rw [Left, hphase] at h
  cases p with
  | txLoad => exact hblock h
  | txStore value => exact hblock h
  | storeAll i =>
    obtain ⟨hlt, hroom, -⟩ := h
    have hd := hroom d
    omega

theorem nodeStep_of_act {s s' : System} {a : Action} (hinv : System.Inv cl s)
    (hnodes : ∀ a, cl.responsibleNode a < cl.numDslNodes)
    (hroom : ∀ p a, (s.node v).phase = .sending p a →
      (s.node v).nodesContacted (cl.responsibleNode a) + 1 < 2 ^ 16)
    (hact : s.act cl v a = some s') (hstart : ∀ now, a ≠ .txStart now) :
    NodeStep cl s v s' := by
  have hacts := System.acts_of_act hact
  refine ⟨?_, ?_, ?_, ?_, ?_, hacts.service_eq⟩
  · intro hidle
    cases a with
    | txStart now => exact hstart now rfl
    | _ => simp [System.act, hidle] at hact
  · intro u hacc
    by_cases hu : u = v
    · subst hu
      exact hacc.act hact (hinv.node u) hnodes hroom
    · exact hacc.of_acts hacts hu
  · exact fun u hu => (hacts.sameFor hu).node
  · exact fun u hu => (hacts.sameFor hu).granted
  · exact fun u hu => (hacts.sameFor hu).channel

/-- The steps of a transaction that are no actions of the system. -/
theorem nodeStep_setNode {s : System} {n : TxNode} (hidle : (s.node v).phase ≠ .idle)
    (hcontacted : n.nodesContacted = (s.node v).nodesContacted)
    (hwaiting : ∀ p a, n.phase ≠ .waiting p a) (hcleared : ∀ d, ¬ System.Cleared n.phase d) :
    NodeStep cl s v (s.setNode v n) where
  ne_idle := hidle
  accounted := by
    intro u hacc
    by_cases hu : u = v
    · subst hu
      refine hacc.move (by rw [System.node_setNode_self, hcontacted]) rfl rfl
        (by rwa [System.node_setNode_self]) fun d hd => ?_
      rw [System.node_setNode_self] at hd
      exact absurd hd (hcleared d)
    · exact hacc.frame (System.node_setNode_of_ne _ _ _ hu) rfl rfl
        (fun _ sv hsv hsender => ⟨sv, hsv, hsender⟩) fun _ _ ha => ha
  node := fun u hu => System.node_setNode_of_ne _ _ _ hu
  granted := fun _ _ => rfl
  channel := fun _ _ => rfl
  service := rfl

theorem nodeStep_operation (hinv : System.Inv cl s.system)
    (hnodes : ∀ a, cl.responsibleNode a < cl.numDslNodes)
    (hroom : ∀ p a, (s.system.node v).phase = .sending p a →
      (s.system.node v).nodesContacted (cl.responsibleNode a) + 1 < 2 ^ 16)
    {t : TxAttempt ι ρ} (hstep : s.operation cl v t = some s') :
    ∃ t' system, s' = s.proceed v t' system ∧ NodeStep cl s.system v system := by
  unfold TxSystem.operation at hstep
  simp only at hstep
  split at hstep
  · split at hstep
    · obtain ⟨system, hact, rfl⟩ := Option.map_eq_some_iff.mp hstep
      exact ⟨_, system, rfl, nodeStep_of_act hinv hnodes hroom hact (by simp)⟩
    · obtain ⟨system, hact, rfl⟩ := Option.map_eq_some_iff.mp hstep
      exact ⟨_, system, rfl, nodeStep_of_act hinv hnodes hroom hact (by simp)⟩
  · obtain ⟨system, hact, rfl⟩ := Option.map_eq_some_iff.mp hstep
    exact ⟨_, system, rfl, nodeStep_of_act hinv hnodes hroom hact (by simp)⟩
  · obtain ⟨system, hact, rfl⟩ := Option.map_eq_some_iff.mp hstep
    exact ⟨_, system, rfl, nodeStep_of_act hinv hnodes hroom hact (by simp)⟩
  · rename_i hphase hrest
    obtain rfl := Option.some.inj hstep
    refine ⟨_, _, rfl, ?_⟩
    unfold System.txWlock System.chkAborted
    split
    · exact nodeStep_setNode (by simp [hphase]) rfl (by simp) fun d hd => Nat.not_lt_zero d hd
    · exact nodeStep_setNode (by simp [hphase]) rfl (by simp) fun d hd => hd
  · rename_i hphase hrest
    obtain ⟨system, hact, rfl⟩ := Option.map_eq_some_iff.mp hstep
    obtain ⟨ws, -, rfl⟩ := Option.map_eq_some_iff.mp hact
    exact ⟨_, _, rfl, nodeStep_setNode (by simp [hphase]) rfl (by simp) fun d hd => hd⟩
  · rename_i hphase hrest
    split at hstep
    · obtain rfl := Option.some.inj hstep
      refine ⟨_, s.system, rfl, ?_⟩
      exact ⟨by simp [hphase], fun _ h => h, fun _ _ => rfl, fun _ _ => rfl, fun _ _ => rfl, rfl⟩
    · cases hstep
  · rename_i hphase hrest
    split at hstep
    · obtain ⟨system, hact, rfl⟩ := Option.map_eq_some_iff.mp hstep
      exact ⟨_, system, rfl, nodeStep_of_act hinv hnodes hroom hact (by simp)⟩
    · obtain rfl := Option.some.inj hstep
      exact ⟨_, _, rfl, nodeStep_setNode (by simp [hphase]) rfl (by simp) fun d hd => hd⟩
  · cases hstep

/-- What holds in every state that can be reached. -/
structure LiveInv (cl : Cluster) (program : TxProgram σ ι ρ) (s : TxSystem σ ι ρ) : Prop where
  inv : System.TxInv cl program s
  accounted : ∀ v, System.Accounted cl s.system v
  work : ∃ m, s.WorkLeft cl m

/-- A step that uses up work. -/
structure UsesWork (cl : Cluster) (s s' : TxSystem σ ι ρ) : Prop where
  accounted : ∀ v, System.Accounted cl s'.system v
  work : ∀ m, s.WorkLeft cl m → ∃ m' < m, s'.WorkLeft cl m'

theorem LiveInv.uses_node (h : LiveInv cl program s) (hnode : NodeStep cl s.system v s'.system)
    (hattempt : ∀ u, u ≠ v → s'.attempt u = s.attempt u) (hlowers : Lowers cl s s' v) :
    UsesWork cl s s' where
  accounted := fun u => hnode.accounted u (h.accounted u)
  work := fun _ hm => hm.node ((h.inv.inv.node v).lt hnode.ne_idle)
    ⟨hnode.node, hnode.granted, hnode.channel, hattempt, hnode.service⟩ hlowers

theorem LiveInv.room (h : LiveInv cl program s) (v : Nat) (p : Purpose) (a : Nat)
    (hphase : (s.system.node v).phase = .sending p a) :
    (s.system.node v).nodesContacted (cl.responsibleNode a) + 1 < 2 ^ 16 := by
  obtain ⟨_, w, hleft, -⟩ := h.work
  exact (hleft v).room_of_sending hphase _

theorem LiveInv.uses_act (h : LiveInv cl program s)
    (hnodes : ∀ a, cl.responsibleNode a < cl.numDslNodes) {a : Action} {system : System}
    (hact : s.system.act cl v a = some system) (ha : (SystemEvent.node v a).underneath = true) :
    UsesWork cl s { s with system := system } := by
  refine h.uses_node (nodeStep_of_act h.inv.inv hnodes (h.room v) hact ?_) (fun _ _ => rfl)
    (lowers_act h.inv hnodes hact ha)
  rintro now rfl
  cases ha

theorem LiveInv.uses_system (h : LiveInv cl program s)
    (hnodes : ∀ a, cl.responsibleNode a < cl.numDslNodes) {e : SystemEvent} {system : System}
    (hstep : s.system.step cl e = some system) (he : e.underneath = true)
    (hspin : ∀ d, e = .abortNode d → system ≠ s.system) :
    UsesWork cl s { s with system := system } := by
  have hserving : ∀ {d : Nat} {sv : Serving}, (s.system.service d).serving = some sv →
      d < cl.numDslNodes := by
    intro d sv hsv
    obtain ⟨_, -, -, rfl, -⟩ := (h.inv.inv.node sv.sender).link.of_serving hsv
    exact hnodes _
  cases e with
  | node v a => exact h.uses_act hnodes hstep he
  | handle d v now =>
    have hhandles := System.handles_of_handle hstep
    obtain ⟨req, rest, -, hchannel, -⟩ := hhandles.service_self
    obtain ⟨hv, hd⟩ := (h.accounted v).channel d (by simp [hchannel])
    refine ⟨?_, fun _ hm => hm.handle hhandles hv hd⟩
    intro u
    by_cases hu : u = v
    · subst hu
      exact (h.accounted u).handle hhandles (h.inv.inv.node u).link
    · exact (h.accounted u).of_handles hhandles hu
  | abortNode d =>
    obtain ⟨_, _, _, _, _, _, hsv, -⟩ := System.abortNode_eq_some hstep
    exact ⟨fun u => (h.accounted u).abortNode hstep,
      fun _ hm => (hm.abortNode hstep (hserving hsv)).resolve_left (hspin d rfl)⟩
  | grant d =>
    obtain ⟨_, _, _, _, hsv, -⟩ := System.grant_eq_some hstep
    exact ⟨fun u => (h.accounted u).grant (h.inv.inv.node u).link hstep,
      fun _ hm => hm.grant hstep (hserving hsv)⟩

/-- Only a service node that waits for its victim takes a step for nothing. -/
theorem LiveInv.uses (h : LiveInv cl program s)
    (hnodes : ∀ a, cl.responsibleNode a < cl.numDslNodes) {e : TxEvent ι}
    (hstep : s.step cl program e = some s') (he : e.starts = false)
    (hspin : ∀ d, e = .system (.abortNode d) → s' ≠ s) : UsesWork cl s s' := by
  cases e with
  | txStart v input now => cases he
  | restart v now => cases he
  | operation v =>
    obtain ⟨t, ht, hop⟩ := Option.bind_eq_some_iff.mp hstep
    have hlowers := lowers_operation h.inv ht hop
    obtain ⟨t', system, rfl, hnode⟩ := nodeStep_operation h.inv.inv hnodes (h.room v) hop
    exact h.uses_node hnode (fun u hu => TxSystem.attempt_proceed_of_ne _ _ _ _ hu) hlowers
  | storeAll v =>
    simp only [TxSystem.step] at hstep
    split at hstep
    · rename_i hphase
      obtain ⟨system, hact, rfl⟩ := Option.map_eq_some_iff.mp hstep
      exact h.uses_node (nodeStep_of_act h.inv.inv hnodes (h.room v) hact (by simp))
        (fun _ _ => rfl) (lowers_storeAll hphase hact)
    · cases hstep
  | txCommitted v =>
    simp only [TxSystem.step] at hstep
    split at hstep
    · obtain ⟨system, hact, rfl⟩ := Option.map_eq_some_iff.mp hstep
      exact h.uses_node (nodeStep_of_act h.inv.inv hnodes (h.room v) hact (by simp))
        (fun u hu => Function.update_of_ne hu ..) (lowers_txCommitted hact)
    · cases hstep
  | system e =>
    simp only [TxSystem.step] at hstep
    split at hstep
    · rename_i hunder
      obtain ⟨system, hact, rfl⟩ := Option.map_eq_some_iff.mp hstep
      refine h.uses_system hnodes hact hunder ?_
      rintro d rfl rfl
      exact hspin d rfl rfl
    · cases hstep

/-- An attempt begins. -/
theorem LiveInv.start (h : LiveInv cl program s)
    (hnodes : ∀ a, cl.responsibleNode a < cl.numDslNodes) {now : Nat} {t : TxAttempt ι ρ}
    {system : System} (hact : s.system.act cl v (.txStart now) = some system) {n : Nat}
    (hrest : t.rest.Within n []) (hn : 2 * n < 2 ^ 16) (hloaded : t.loaded = false) :
    (∀ u, System.Accounted cl system u) ∧ ∃ m, (s.proceed v t system).WorkLeft cl m := by
  have hacts := System.acts_of_act hact
  constructor
  · intro u
    by_cases hu : u = v
    · subst hu
      exact (h.accounted u).act hact (h.inv.inv.node u) hnodes (h.room u)
    · exact (h.accounted u).of_acts hacts hu
  obtain ⟨m, w, hleft, -⟩ := h.work
  refine ⟨_, Function.update w v (blockWork cl n 0), ?_, Nat.le_refl _⟩
  intro u
  by_cases hu : u = v
  · subst hu
    rw [Function.update_self, TxSystem.attempt_proceed_self]
    cases hacts with
    | abort _ ha => cases ha
    | request _ _ ha => cases ha
    | insert _ _ ha => cases ha
    | start hphase =>
      have hempty : (s.system.node u).writeSet.writeEntries = [] := by
        have hwrites := (h.inv.inv.node u).writes.2
        obtain ⟨hphase, -⟩ | hphase := hphase
        · rwa [hphase] at hwrites
        · rwa [hphase] at hwrites
      have hzero : ∀ d, (s.system.node u).nodesContacted d = 0 := by
        intro d
        refine (h.accounted u).cleared d ?_
        obtain ⟨hphase, -⟩ | hphase := hphase <;> simp [hphase, System.Cleared]
      refine left_of_block (k := n) ⟨fun hc => absurd rfl hc, ⟨[], hrest, ?_⟩, ?_, ?_⟩ ?_ hloaded
      · exact fun _ ha => absurd ha List.not_mem_nil
      · intro d
        simpa [System.txRunning, hempty, hzero, Stage.sent] using hn
      · simp [System.txRunning, hempty, Stage.work]
      · simp [System.txRunning]
  · have hsame := hacts.sameFor hu
    rw [Function.update_of_ne hu, TxSystem.attempt_proceed_of_ne _ _ _ _ hu,
      TxSystem.system_proceed, hsame.node, hsame.granted]
    exact hleft u

theorem liveInv_init (cl : Cluster) (program : TxProgram σ ι ρ) (mem : Nat → BitVec 32)
    (thread : Nat → σ) : LiveInv cl program (txSystemInit ι ρ mem thread) where
  inv := System.txInv_init cl program mem thread
  accounted := System.accounted_init cl mem
  work := ⟨_, fun _ => 0, fun _ => trivial, Nat.le_refl _⟩

theorem liveInv_step (hlocks : program.Locks cl.cfg)
    (hnodes : ∀ a, cl.responsibleNode a < cl.numDslNodes)
    (hwithin : ∀ thread input block, program.next thread input = some block →
      ∃ n, 2 * n < 2 ^ 16 ∧ block.Within n [])
    (h : LiveInv cl program s) {e : TxEvent ι} (hstep : s.step cl program e = some s') :
    LiveInv cl program s' := by
  have hinv := (System.txInv_step hlocks h.inv hstep).1
  by_cases he : e.starts = true
  · cases e with
    | txStart v input now =>
      simp only [TxSystem.step] at hstep
      split at hstep
      · rename_i block hphase hnext
        obtain ⟨system, hact, rfl⟩ := Option.map_eq_some_iff.mp hstep
        obtain ⟨n, hn, hblock⟩ := hwithin _ _ _ hnext
        obtain ⟨haccounted, hwork⟩ := h.start hnodes hact
          (t := ⟨input, program.pub (s.thread v) input, block, block, false⟩) hblock hn rfl
        exact ⟨hinv, haccounted, hwork⟩
      · cases hstep
    | restart v now =>
      simp only [TxSystem.step] at hstep
      split at hstep
      · rename_i t hphase ht
        obtain ⟨system, hact, rfl⟩ := Option.map_eq_some_iff.mp hstep
        obtain ⟨n, hn, hblock⟩ := hwithin _ _ _ (h.inv.next v t ht)
        obtain ⟨haccounted, hwork⟩ := h.start hnodes hact
          (t := { t with rest := t.block, loaded := false }) hblock hn rfl
        exact ⟨hinv, haccounted, hwork⟩
      · cases hstep
    | operation v => cases he
    | storeAll v => cases he
    | txCommitted v => cases he
    | system e => cases he
  · by_cases hsame : s' = s
    · rwa [hsame]
    · have huses := h.uses hnodes hstep (by simpa using he) fun _ _ => hsame
      obtain ⟨m, hm⟩ := h.work
      obtain ⟨m', -, hm'⟩ := huses.work m hm
      exact ⟨hinv, huses.accounted, m', hm'⟩

/-! ### Something can always be done -/

/-- What uses up work changes something. -/
theorem UsesWork.ne (h : UsesWork cl s s') (hwork : ∃ m, s.WorkLeft cl m) : s' ≠ s := by
  rintro rfl
  obtain ⟨m, hm⟩ := hwork
  induction m using Nat.strongRecOn with
  | ind m ih =>
    obtain ⟨m', hlt, hm'⟩ := h.work m hm
    exact ih m' hlt hm'

variable (cl program) in
/-- A step in which no attempt begins, and that is not taken for nothing. -/
def Advances (s : TxSystem σ ι ρ) (e : TxEvent ι) (s' : TxSystem σ ι ρ) : Prop :=
  s.step cl program e = some s' ∧ e.starts = false ∧ s' ≠ s

/-- What is to be buffered has room. -/
theorem exists_bufferStore {system : System} {address : Nat} {value : BitVec 32}
    (h : ∃ ws, writeSetInsert (system.node v).writeSet .typeInt value address = some ws) :
    ∃ system', system.bufferStore v address value = some system' := by
  obtain ⟨ws, hws⟩ := h
  simp only [System.bufferStore, hws]
  split <;> exact ⟨_, rfl⟩

/-- The next operation of a transaction can always be taken. -/
theorem LiveInv.operation (h : LiveInv cl program s) {t : TxAttempt ι ρ}
    (ht : s.attempt v = some t) (hphase : (s.system.node v).phase = .running) :
    ∃ s', s.operation cl v t = some s' := by
  have hattempt := h.inv.attempt v t ht
  obtain ⟨_, w, hleft, -⟩ := h.work
  have hblock := hleft v
  rw [ht] at hblock
  obtain ⟨k, hblock⟩ := hblock.block hphase
  unfold TxSystem.operation
  simp only [hphase]
  cases hrest : t.rest with
  | load a next =>
    by_cases hloaded : t.loaded = true
    · have hcontrol := hattempt.control
      rw [Control, hphase] at hcontrol
      obtain ⟨a', next', heq, hgranted, -⟩ := hcontrol hloaded
      rw [hrest] at heq
      cases heq
      simp only [hloaded, System.act, hphase, hgranted, if_true, Option.map_some]
      exact ⟨_, rfl⟩
    · simp only [hloaded, System.act, hphase]
      cases writeSetContains (s.system.node v).writeSet a with
      | some we => exact ⟨_, rfl⟩
      | none => exact ⟨_, rfl⟩
  | store a value next =>
    simp only [System.act, hphase]
    split
    · exact ⟨_, rfl⟩
    · obtain ⟨system, hsystem⟩ :=
        exists_bufferStore (hblock.exists_insert (h.inv.inv.node v).room value a)
      rw [hsystem]
      exact ⟨_, rfl⟩
  | update a f next => exact ⟨_, rfl⟩
  | peek a next =>
    -- the block peeks only at what it has updated
    obtain ⟨updated, hwithin, hupdated⟩ := hblock.rest
    rw [hrest] at hwithin
    have hany : ((s.system.granted v).any fun g => decide (g.1 = a)) = true :=
      List.any_eq_true.mpr ⟨_, hupdated a hwithin.2.1, by simp⟩
    exact ⟨_, if_pos hany⟩
  | ret result =>
    simp only [System.act, hphase]
    split <;> exact ⟨_, rfl⟩

variable (cl program) in
/-- Some step can be taken in which no attempt begins and no victim is aborted. -/
def CanStep (s : TxSystem σ ι ρ) : Prop :=
  ∃ e s', s.step cl program e = some s' ∧ e.starts = false ∧ ∀ d, e ≠ .system (.abortNode d)

theorem canStep_of_act (v : Nat) (a : Action) (hact : ∃ system, s.system.act cl v a = some system)
    (hunder : (SystemEvent.node v a).underneath = true) : CanStep cl program s := by
  obtain ⟨system, hact⟩ := hact
  have hstep : s.system.step cl (.node v a) = some system := hact
  refine ⟨.system (.node v a), { s with system := system }, ?_, rfl, by simp⟩
  simp only [TxSystem.step, if_pos hunder, hstep, Option.map_some]

theorem canStep_of_operation {t : TxAttempt ι ρ} (ht : s.attempt v = some t)
    (hop : ∃ s', s.operation cl v t = some s') : CanStep cl program s := by
  obtain ⟨s', hop⟩ := hop
  refine ⟨.operation v, s', ?_, rfl, by simp⟩
  simp only [TxSystem.step, ht, Option.bind_some, hop]

/-- `tm2c_rpc_rls_all` takes its next turn or is done. -/
theorem canStep_of_releasing {seq : Nat} (hphase : (s.system.node v).phase = .releasing seq ∨
    (s.system.node v).phase = .aborting seq) : CanStep cl program s := by
  by_cases hseq : seq < cl.numDslNodes
  · refine canStep_of_act v (.rlsAll 0) ?_ rfl
    obtain hphase | hphase := hphase
    · exact ⟨_, by simp only [System.act, hphase, if_pos hseq]; rfl⟩
    · exact ⟨_, by simp only [System.act, hphase, if_pos hseq]; rfl⟩
  · refine canStep_of_act v (.finish 0) ?_ rfl
    obtain hphase | hphase := hphase
    · exact ⟨_, by simp only [System.act, hphase, if_pos (Nat.le_of_not_lt hseq)]; rfl⟩
    · exact ⟨_, by simp only [System.act, hphase, if_pos (Nat.le_of_not_lt hseq)]; rfl⟩

theorem LiveInv.exists_attempt (h : LiveInv cl program s)
    (hactive : (s.system.node v).phase.active = true) : ∃ t, s.attempt v = some t := by
  refine Option.ne_none_iff_exists'.mp fun hnone => ?_
  obtain hphase | ⟨seq, hphase⟩ := h.inv.between v hnone
  · rw [hphase] at hactive
    cases hactive
  · rw [hphase] at hactive
    cases hactive

/-- What is locked is buffered next. -/
theorem LiveInv.canStep_of_locked (h : LiveInv cl program s) {a : Nat} {value : BitVec 32}
    (hphase : (s.system.node v).phase = .locked a value) : CanStep cl program s := by
  obtain ⟨t, ht⟩ := h.exists_attempt (by rw [hphase, Phase.active])
  refine canStep_of_operation ht ?_
  obtain ⟨_, w, hleft, -⟩ := h.work
  have hblock := hleft v
  rw [ht] at hblock
  obtain ⟨k, hblock⟩ := hblock.granted hphase
  have hinsert := hblock.exists_insert (h.inv.inv.node v).room
  obtain ⟨-, ⟨next, hrest⟩ | ⟨f, next, hrest⟩⟩ :=
    System.control_locked (h.inv.attempt v t ht) hphase
  · -- in `TX_STORE`
    obtain ⟨system, hsystem⟩ := exists_bufferStore (hinsert value a)
    simp only [TxSystem.operation, System.act, hphase, hrest, hsystem]
    exact ⟨_, rfl⟩
  · -- in `TX_LOAD_STORE`
    obtain ⟨ws, hws⟩ := hinsert (f (s.system.mem a)) a
    simp only [TxSystem.operation, hphase, hrest, System.insertTemp, hws]
    exact ⟨_, rfl⟩

/-- The next entry is written to the memory, or the transaction commits. -/
theorem LiveInv.canStep_of_persisting (h : LiveInv cl program s) {i : Nat}
    (hphase : (s.system.node v).phase = .persisting i) : CanStep cl program s := by
  by_cases hi : i < (s.system.node v).writeSet.writeEntries.length
  · refine canStep_of_act v .writeEntryPersist ?_ rfl
    simp only [System.act, hphase, List.getElem?_eq_getElem hi, Option.map_some]
    exact ⟨_, rfl⟩
  · obtain ⟨t, ht⟩ := h.exists_attempt (by rw [hphase, Phase.active])
    have hcontrol := (h.inv.attempt v t ht).control
    rw [Control, hphase] at hcontrol
    obtain ⟨result, hrest⟩ := hcontrol
    obtain ⟨input, pub, block, rest, loaded⟩ := t
    obtain rfl : rest = .ret result := hrest
    refine ⟨.txCommitted v, ?_⟩
    simp only [TxSystem.step, ht, System.act, hphase, if_pos (Nat.le_of_not_lt hi),
      Option.map_some]
    exact ⟨_, rfl, rfl, by simp⟩

/-- The next step of a node in an attempt that waits for nothing, by its phase. -/
theorem LiveInv.next (h : LiveInv cl program s) (hidle : (s.system.node v).phase ≠ .idle)
    (hrestarting : (s.system.node v).phase ≠ .restarting)
    (hreply : ∀ p a, (s.system.node v).phase = .waiting p a → s.system.reply v ≠ none) :
    CanStep cl program s := by
  cases hphase : (s.system.node v).phase with
  | idle => exact absurd hphase hidle
  | restarting => exact absurd hphase hrestarting
  | running =>
    obtain ⟨t, ht⟩ := h.exists_attempt (by rw [hphase, Phase.active])
    exact canStep_of_operation ht (h.operation ht hphase)
  | sending p a =>
    refine canStep_of_act v (.send 0) ?_ rfl
    exact ⟨_, by simp only [System.act, hphase]; rfl⟩
  | waiting p a =>
    obtain ⟨response, hresponse⟩ := Option.ne_none_iff_exists'.mp (hreply p a hphase)
    refine canStep_of_act v .recv ?_ rfl
    simp only [System.act, hphase, hresponse]
    split <;> exact ⟨_, rfl⟩
  | locked a value => exact h.canStep_of_locked hphase
  | storingAll i =>
    by_cases hi : i < (s.system.node v).writeSet.writeEntries.length
    · refine ⟨.storeAll v, ?_⟩
      simp only [TxSystem.step, hphase, Phase.inStoreAll, if_true, System.act,
        List.getElem?_eq_getElem hi, Option.map_some]
      exact ⟨_, rfl, rfl, by simp⟩
    · refine canStep_of_act v .setTxPersisting ?_ rfl
      simp only [System.act, hphase, if_pos (Nat.le_of_not_lt hi)]
      exact ⟨_, rfl⟩
  | persisting i => exact h.canStep_of_persisting hphase
  | releasing seq => exact canStep_of_releasing (Or.inl hphase)
  | aborting seq => exact canStep_of_releasing (Or.inr hphase)

/-- A service node can take whatever message comes first. -/
theorem handle_of_link {s : System} {d : Nat} {req : Req} {rest : List Req}
    (hlink : System.Link cl s v) (hserving : (s.service d).serving = none)
    (hchannel : s.channel v d = req :: rest) (now : Nat) :
    ∃ s', s.handle cl d v now = some s' := by
  have hmem : req ∈ s.channel v d := by simp [hchannel]
  have hrelease : System.Releases (s.channel v d) → ∃ s', s.handle cl d v now = some s' := by
    intro hreleases
    simp only [System.handle, hserving, hchannel, hreleases req hmem]
    exact ⟨_, rfl⟩
  cases hlink with
  | quiet _ hquiet => exact hrelease (hquiet.releases d)
  | served _ _ _ _ hreleases => exact hrelease (hreleases d)
  | replied _ _ _ hreleases => exact hrelease (hreleases d)
  | @requested p a ts before _ _ _ hhome hbefore helse =>
    by_cases hd : d = cl.responsibleNode a
    · subst hd
      rw [hhome] at hmem
      obtain hmem | hmem := List.mem_append.mp hmem
      · simp only [System.handle, hserving, hchannel, hbefore req hmem]
        exact ⟨_, rfl⟩
      · obtain rfl := List.mem_singleton.mp hmem
        cases p with
        | txLoad => exact ⟨_, by simp only [System.handle, hserving, hchannel]; rfl⟩
        | txStore value => exact ⟨_, by simp only [System.handle, hserving, hchannel]; rfl⟩
        | storeAll i => exact ⟨_, by simp only [System.handle, hserving, hchannel]; rfl⟩
    · exact hrelease (helse d hd)

theorem LiveInv.advances (h : LiveInv cl program s)
    (hnodes : ∀ a, cl.responsibleNode a < cl.numDslNodes) {e : TxEvent ι}
    (hstep : s.step cl program e = some s') (he : e.starts = false)
    (hspin : ∀ d, e ≠ .system (.abortNode d)) : Advances cl program s e s' :=
  ⟨hstep, he, (h.uses hnodes hstep he fun d hd => absurd hd (hspin d)).ne h.work⟩

theorem LiveInv.advances_system (h : LiveInv cl program s)
    (hnodes : ∀ a, cl.responsibleNode a < cl.numDslNodes) {e : SystemEvent} {system : System}
    (hstep : s.system.step cl e = some system) (he : e.underneath = true)
    (hspin : ∀ d, e ≠ .abortNode d) : ∃ e s', Advances cl program s e s' := by
  refine ⟨.system e, { s with system := system }, h.advances hnodes ?_ rfl (by simpa using hspin)⟩
  simp only [TxSystem.step, if_pos he, hstep, Option.map_some]

/-- The service node makes the request of `sv` wait for nothing but a node that is persisting. -/
theorem LiveInv.advances_service (h : LiveInv cl program s)
    (hnodes : ∀ a, cl.responsibleNode a < cl.numDslNodes) {d : Nat} {sv : Serving}
    (hserving : (s.system.service d).serving = some sv) : ∃ e s', Advances cl program s e s' := by
  obtain ⟨sender, address, rw, conflict, victims⟩ := sv
  cases victims with
  | nil =>
    have hgrant : ∃ system, s.system.step cl (.grant d) = some system := by
      simp only [System.step, System.grant, hserving]
      exact ⟨_, rfl⟩
    exact h.advances_system hnodes hgrant.choose_spec rfl (by simp)
  | cons victim victims =>
    by_cases hflag : s.system.abortFlag victim = .persistingWrites
    · obtain ⟨i, hphase⟩ := (h.inv.inv.node victim).flag.mp hflag
      obtain ⟨e, s', hstep, he, hspin⟩ := h.next (v := victim) (by simp [hphase])
        (by simp [hphase]) (by simp [hphase])
      exact ⟨e, s', h.advances hnodes hstep he hspin⟩
    · have habort : ∃ system, s.system.step cl (.abortNode d) = some system ∧
          (system.service d).serving ≠ (s.system.service d).serving := by
        simp only [System.step, System.abortNode, hserving, if_neg hflag, Option.some.injEq,
          exists_eq_left']
        simp
      obtain ⟨system, hstep, hne⟩ := habort
      refine ⟨.system (.abortNode d), { s with system := system }, ?_, rfl, ?_⟩
      · simp only [TxSystem.step, SystemEvent.underneath, if_true, hstep, Option.map_some]
      · intro heq
        exact hne (congrArg (fun t : TxSystem σ ι ρ => (t.system.service d).serving) heq)

/-- **Progress.**  Where an attempt is under way some step can be taken. -/
theorem LiveInv.progress (h : LiveInv cl program s)
    (hnodes : ∀ a, cl.responsibleNode a < cl.numDslNodes) :
    s.system.Settled ∨ ∃ e s', Advances cl program s e s' := by
  by_cases hserving : ∃ d sv, (s.system.service d).serving = some sv
  · obtain ⟨d, sv, hserving⟩ := hserving
    exact Or.inr (h.advances_service hnodes hserving)
  have hserving : ∀ d, (s.system.service d).serving = none := by
    intro d
    rw [Option.eq_none_iff_forall_ne_some]
    exact fun sv hsv => hserving ⟨d, sv, hsv⟩
  by_cases hchannel : ∃ v d req rest, s.system.channel v d = req :: rest
  · obtain ⟨v, d, req, rest, hchannel⟩ := hchannel
    obtain ⟨system, hhandle⟩ := handle_of_link (h.inv.inv.node v).link (hserving d) hchannel 0
    exact Or.inr (h.advances_system hnodes (e := .handle d v 0) hhandle rfl (by simp))
  have hchannel : ∀ v d, s.system.channel v d = [] := by
    intro v d
    rw [List.eq_nil_iff_forall_not_mem]
    intro req hreq
    obtain ⟨first, rest, heq⟩ := List.exists_cons_of_ne_nil (List.ne_nil_of_mem hreq)
    exact hchannel ⟨v, d, first, rest, heq⟩
  by_cases hbusy : ∃ v, (s.system.node v).phase ≠ .idle ∧ (s.system.node v).phase ≠ .restarting
  · obtain ⟨v, hidle, hrestarting⟩ := hbusy
    obtain ⟨e, s', hstep, he, hspin⟩ := h.next hidle hrestarting (by
      intro p a hphase
      obtain ⟨-, ⟨req, hreq, -⟩ | ⟨sv, hsv, -⟩ | hreply⟩ := (h.accounted v).request p a hphase
      · simp [hchannel] at hreq
      · simp [hserving] at hsv
      · exact hreply)
    exact Or.inr ⟨e, s', h.advances hnodes hstep he hspin⟩
  have hphase : ∀ v, (s.system.node v).phase = .idle ∨ (s.system.node v).phase = .restarting := by
    intro v
    by_contra hv
    exact hbusy ⟨v, not_or.mp hv⟩
  have hcontacted : ∀ v d, (s.system.node v).nodesContacted d = 0 := by
    intro v d
    refine (h.accounted v).cleared d ?_
    obtain hv | hv := hphase v <;> simp [hv, System.Cleared]
  refine Or.inl ⟨fun v => ⟨hphase v, hcontacted v, ?_, hchannel v⟩, hserving, ?_⟩
  · refine ((h.inv.inv.node v).link.quiet_of_phase ?_).reply
    obtain hv | hv := hphase v <;> simp [hv]
  · intro d a v hlock
    obtain hpos | ⟨req, hreq, -⟩ := (h.accounted v).locks d a hlock
    · simp [hcontacted] at hpos
    · simp [hchannel] at hreq

theorem liveInv_exec (hlocks : program.Locks cl.cfg)
    (hnodes : ∀ a, cl.responsibleNode a < cl.numDslNodes)
    (hwithin : ∀ thread input block, program.next thread input = some block →
      ∃ n, 2 * n < 2 ^ 16 ∧ block.Within n [])
    {mem : Nat → BitVec 32} {thread : Nat → σ} {es : List (TxEvent ι)}
    (hexec : Exec (partialGraph (TxSystem.step cl program)) (txSystemInit ι ρ mem thread) es s) :
    LiveInv cl program s :=
  hexec.invariant (LiveInv cl program)
    (fun _ _ _ h hstep => liveInv_step hlocks hnodes hwithin h hstep)
    (liveInv_init cl program mem thread)

/-- The work that is left is a ranking of the steps that advance. -/
theorem Advances.workLeft (hnodes : ∀ a, cl.responsibleNode a < cl.numDslNodes)
    (s : TxSystem σ ι ρ) (e : TxEvent ι) (s' : TxSystem σ ι ρ) (m : Nat)
    (h : LiveInv cl program s) (hm : s.WorkLeft cl m) (hstep : Advances cl program s e s') :
    ∃ m', m' < m ∧ s'.WorkLeft cl m' := by
  obtain ⟨hstep, he, hne⟩ := hstep
  exact (h.uses hnodes hstep he fun _ _ => hne).work m hm

theorem Advances.liveInv (hlocks : program.Locks cl.cfg)
    (hnodes : ∀ a, cl.responsibleNode a < cl.numDslNodes)
    (hwithin : ∀ thread input block, program.next thread input = some block →
      ∃ n, 2 * n < 2 ^ 16 ∧ block.Within n [])
    (s : TxSystem σ ι ρ) (e : TxEvent ι) (s' : TxSystem σ ι ρ) (h : LiveInv cl program s)
    (hstep : Advances cl program s e s') : LiveInv cl program s' :=
  liveInv_step hlocks hnodes hwithin h hstep.1

/-- **Attempts end.**  From any state that can be reached, only so many steps can be taken in
which no attempt begins and no service node waits in vain, and until no attempt is under way, one
more can be taken: nothing is deadlocked, and no attempt goes on for ever. -/
theorem attempts_end (cl : Cluster) (program : TxProgram σ ι ρ)
    (hlocks : program.Locks cl.cfg) (hnodes : ∀ a, cl.responsibleNode a < cl.numDslNodes)
    (hwithin : ∀ thread input block, program.next thread input = some block →
      ∃ n, 2 * n < 2 ^ 16 ∧ block.Within n [])
    (mem : Nat → BitVec 32) (thread : Nat → σ) {es : List (TxEvent ι)} {s : TxSystem σ ι ρ}
    (hexec : Exec (partialGraph (TxSystem.step cl program)) (txSystemInit ι ρ mem thread) es s) :
    (∃ bound, ∀ es' s', Exec (Advances cl program) s es' s' → es'.length ≤ bound) ∧
      (s.system.Settled ∨ ∃ e s', Advances cl program s e s') := by
  have h := liveInv_exec hlocks hnodes hwithin hexec
  refine ⟨?_, h.progress hnodes⟩
  obtain ⟨m, hm⟩ := h.work
  refine ⟨m, fun es' s' hexec' => ?_⟩
  exact hexec'.length_le_of_rank (Advances.liveInv hlocks hnodes hwithin)
    (Advances.workLeft hnodes) h hm

end Steps

/-- The service node is to kill node 1, which is persisting, before it serves node 0. -/
def waitForPersisting : List (TxEvent Unit) :=
  [.txStart 1 () 0] ++ System.countOnce 1 0 ++
  [.system (.node 1 .setTxPersisting), .txStart 0 () 0, .operation 0,
    .system (.node 0 (.send 0)), .system (.handle 0 0 0)]

theorem attempts_end_waitForPersisting :
    ∃ s : TxSystem (List (BitVec 32)) Unit (BitVec 32),
      (s.system.service 0).serving.map Serving.victims = some [1] ∧
      s.system.abortFlag 1 = .persistingWrites ∧
      (∃ bound, ∀ es' s', Exec (Advances System.pairCluster System.countProgram) s es' s' →
        es'.length ≤ bound) ∧
      (s.system.Settled ∨ ∃ e s', Advances System.pairCluster System.countProgram s e s') := by
  let s := (waitForPersisting.foldlM (TxSystem.step System.pairCluster System.countProgram)
    (txSystemInit Unit (BitVec 32) (fun _ => 0) fun _ => [])).get (by decide +kernel)
  have hexec : Exec (partialGraph (TxSystem.step System.pairCluster System.countProgram))
      (txSystemInit Unit (BitVec 32) (fun _ => 0) fun _ => []) waitForPersisting s :=
    exec_partialGraph_iff.mpr (Option.some_get _).symm
  exact ⟨s, by decide +kernel, by decide +kernel,
    attempts_end System.pairCluster System.countProgram (System.locks_countProgram _)
      (fun _ => Nat.one_pos) System.within_countProgram (fun _ => 0) (fun _ => []) hexec⟩

/-! ### Every transaction can be finished -/

section Completion

variable {cl : Cluster} {program : TxProgram σ ι ρ} {s s' s'' : TxSystem σ ι ρ} {u v : Nat}

variable (cl program) in
/-- A run in which no transaction begins. -/
def Completes (s : TxSystem σ ι ρ) (es : List (TxEvent ι)) (s' : TxSystem σ ι ρ) : Prop :=
  Exec (partialGraph (TxSystem.step cl program)) s es s' ∧
    ∀ v input now, TxEvent.txStart v input now ∉ es

theorem Completes.trans {es es' : List (TxEvent ι)} (h : Completes cl program s es s')
    (h' : Completes cl program s' es' s'') : Completes cl program s (es ++ es') s'' := by
  refine ⟨h.1.append h'.1, fun v input now hmem => ?_⟩
  obtain hmem | hmem := List.mem_append.mp hmem
  · exact h.2 v input now hmem
  · exact h'.2 v input now hmem

/-- The transaction of a node that is under way. -/
def TxSystem.pending (s : TxSystem σ ι ρ) (u : Nat) : Nat := if (s.attempt u).isSome then 1 else 0

theorem LiveInv.pending_step (h : LiveInv cl program s)
    (hnodes : ∀ a, cl.responsibleNode a < cl.numDslNodes) {e : TxEvent ι}
    (hstep : s.step cl program e = some s') (he : ∀ v input now, e ≠ .txStart v input now)
    (u : Nat) : e.commits.toList.count u + s'.pending u = s.pending u := by
  have hproceed : ∀ {v : Nat} {t t' : TxAttempt ι ρ} {system : System}, s.attempt v = some t →
      s' = s.proceed v t' system → s'.pending u = s.pending u := by
    rintro v t t' system ht rfl
    by_cases hu : u = v
    · simp only [TxSystem.pending, hu, TxSystem.attempt_proceed_self, ht, Option.isSome_some]
    · simp only [TxSystem.pending, TxSystem.attempt_proceed_of_ne _ _ _ _ hu]
  have hsame : s'.attempt = s.attempt → s'.pending u = s.pending u := by
    intro heq
    rw [TxSystem.pending, heq, TxSystem.pending]
  cases e with
  | txStart v input now => exact absurd rfl (he v input now)
  | restart v now =>
    simp only [TxSystem.step] at hstep
    split at hstep
    · rename_i t hphase ht
      obtain ⟨system, hact, rfl⟩ := Option.map_eq_some_iff.mp hstep
      exact (Nat.zero_add _).trans (hproceed ht rfl)
    · cases hstep
  | operation v =>
    obtain ⟨t, ht, hop⟩ := Option.bind_eq_some_iff.mp hstep
    obtain ⟨t', system, heq, -⟩ := nodeStep_operation h.inv.inv hnodes (h.room v) hop
    exact (Nat.zero_add _).trans (hproceed ht heq)
  | storeAll v =>
    simp only [TxSystem.step] at hstep
    split at hstep
    · obtain ⟨system, hact, rfl⟩ := Option.map_eq_some_iff.mp hstep
      exact (Nat.zero_add _).trans (hsame rfl)
    · cases hstep
  | txCommitted v =>
    simp only [TxSystem.step] at hstep
    split at hstep
    · rename_i ht
      obtain ⟨system, hact, rfl⟩ := Option.map_eq_some_iff.mp hstep
      by_cases hu : u = v
      · simp [TxEvent.commits, TxSystem.pending, hu, ht]
      · simp [TxEvent.commits, TxSystem.pending, hu, Ne.symm hu]
    · cases hstep
  | system e =>
    simp only [TxSystem.step] at hstep
    split at hstep
    · obtain ⟨system, hact, rfl⟩ := Option.map_eq_some_iff.mp hstep
      exact (Nat.zero_add _).trans (hsame rfl)
    · cases hstep

/-- The transactions that are under way are those that commit, or remain under way. -/
theorem LiveInv.pending_run (hlocks : program.Locks cl.cfg)
    (hnodes : ∀ a, cl.responsibleNode a < cl.numDslNodes)
    (hwithin : ∀ thread input block, program.next thread input = some block →
      ∃ n, 2 * n < 2 ^ 16 ∧ block.Within n [])
    {es : List (TxEvent ι)} (h : LiveInv cl program s) (hrun : Completes cl program s es s')
    (u : Nat) : (es.filterMap TxEvent.commits).count u + s'.pending u = s.pending u := by
  obtain ⟨hexec, hes⟩ := hrun
  induction hexec with
  | nil s => exact Nat.zero_add _
  | @cons s t s' e es hstep _ ih =>
    have hfirst := h.pending_step hnodes hstep
      (fun v input now he => hes v input now (he ▸ List.mem_cons_self)) u
    have hrest := ih (liveInv_step hlocks hnodes hwithin h hstep)
      fun v input now hmem => hes v input now (List.mem_cons_of_mem _ hmem)
    have hcons : (e :: es).filterMap TxEvent.commits =
        e.commits.toList ++ es.filterMap TxEvent.commits := by
      cases hcommits : e.commits with
      | none => rw [List.filterMap_cons_none hcommits, Option.toList_none, List.nil_append]
      | some w => rw [List.filterMap_cons_some hcommits, Option.toList_some, List.singleton_append]
    rw [hcons, List.count_append]
    omega

/-- An attempt that is to start again is run alone. -/
theorem LiveInv.finish (hlocks : program.Locks cl.cfg)
    (hnodes : ∀ a, cl.responsibleNode a < cl.numDslNodes)
    (hwithin : ∀ thread input block, program.next thread input = some block →
      ∃ n, 2 * n < 2 ^ 16 ∧ block.Within n [])
    (h : LiveInv cl program s) (hsettled : s.system.Settled) {t : TxAttempt ι ρ}
    (ht : s.attempt v = some t) :
    ∃ es s', Completes cl program s es s' ∧ s'.system.Settled ∧ s'.attempt v = none ∧
      ∀ u, u ≠ v → s'.attempt u = s.attempt u := by
  have hphase : (s.system.node v).phase = .restarting := by
    refine (hsettled.nodes v).phase.resolve_left fun hidle => ?_
    have hcontrol := (h.inv.attempt v t ht).control
    rwa [Control, hidle] at hcontrol
  have hstart : s.step cl program (.restart v 0) = some (s.proceed v
      { t with rest := t.block, loaded := false }
      (s.system.txRunning v ((s.system.node v).initMetadata cl.cfg false 0))) := by
    simp only [TxSystem.step, hphase, ht, System.act, Option.map_some]
  obtain ⟨n, hn, hblock⟩ := hwithin _ _ _ (h.inv.next v t ht)
  obtain ⟨es, s', hexec, hes, -, -, hsettled', hnone, hothers, -, -⟩ :=
    h.inv.solo hlocks hnodes hsettled rfl hstart rfl rfl hblock hn
  refine ⟨.restart v 0 :: es, s', ⟨hexec, ?_⟩, hsettled', hnone, hothers⟩
  intro w input now hmem
  obtain heq | hmem := List.mem_cons.mp hmem
  · cases heq
  · have hstarts := hes _ hmem
    cases hstarts

/-- One attempt after the other. -/
theorem LiveInv.finishAll (hlocks : program.Locks cl.cfg)
    (hnodes : ∀ a, cl.responsibleNode a < cl.numDslNodes)
    (hwithin : ∀ thread input block, program.next thread input = some block →
      ∃ n, 2 * n < 2 ^ 16 ∧ block.Within n [])
    (h : LiveInv cl program s) (hsettled : s.system.Settled) (count : Nat) :
    ∃ es s', Completes cl program s es s' ∧ s'.system.Settled ∧
      ∀ u, u < count → s'.attempt u = none := by
  induction count with
  | zero =>
    exact ⟨[], s, ⟨Exec.nil s, fun _ _ _ => List.not_mem_nil⟩, hsettled,
      fun u hu => absurd hu (Nat.not_lt_zero u)⟩
  | succ count ih =>
    obtain ⟨es, s', hrun, hsettled', hnone⟩ := ih
    cases ht : s'.attempt count with
    | none =>
      refine ⟨es, s', hrun, hsettled', fun u hu => ?_⟩
      obtain hu | rfl := Nat.lt_succ_iff_lt_or_eq.mp hu
      · exact hnone u hu
      · exact ht
    | some t =>
      have h' : LiveInv cl program s' := hrun.1.invariant (LiveInv cl program)
        (fun _ _ _ h hstep => liveInv_step hlocks hnodes hwithin h hstep) h
      obtain ⟨es', s'', hrun', hsettled'', hlast, hothers⟩ :=
        h'.finish hlocks hnodes hwithin hsettled' ht
      refine ⟨es ++ es', s'', hrun.trans hrun', hsettled'', fun u hu => ?_⟩
      by_cases hcount : u = count
      · exact hcount ▸ hlast
      · rw [hothers u hcount]
        exact hnone u (by omega)

theorem completes_of_advances {es : List (TxEvent ι)} (hexec : Exec (Advances cl program) s es s') :
    Completes cl program s es s' := by
  refine ⟨hexec.mono fun _ _ _ h => h.1, ?_⟩
  induction hexec with
  | nil s => exact fun _ _ _ => List.not_mem_nil
  | cons hstep _ ih =>
    intro v input now hmem
    obtain rfl | hmem := List.mem_cons.mp hmem
    · cases hstep.2.1
    · exact ih v input now hmem

/-- **Every transaction can be finished.**  From any state that can be reached, without any other
transaction beginning, the system can come to rest: each node whose transaction is under way
commits it once, the others commit nothing, and in the end no lock is held, no message is on its
way and no node is in a transaction. -/
theorem transactions_complete (cl : Cluster) (program : TxProgram σ ι ρ)
    (hlocks : program.Locks cl.cfg) (hnodes : ∀ a, cl.responsibleNode a < cl.numDslNodes)
    (hwithin : ∀ thread input block, program.next thread input = some block →
      ∃ n, 2 * n < 2 ^ 16 ∧ block.Within n [])
    (mem : Nat → BitVec 32) (thread : Nat → σ) {es : List (TxEvent ι)} {s : TxSystem σ ι ρ}
    (hexec : Exec (partialGraph (TxSystem.step cl program)) (txSystemInit ι ρ mem thread) es s) :
    ∃ es' s', Completes cl program s es' s' ∧ s'.system.Quiescent ∧ (∀ v, s'.attempt v = none) ∧
      ∀ v, (es'.filterMap TxEvent.commits).count v = if (s.attempt v).isSome then 1 else 0 := by
  have hstep : ∀ s e s', LiveInv cl program s → partialGraph (TxSystem.step cl program) s e s' →
      LiveInv cl program s' := fun _ _ _ h hs => liveInv_step hlocks hnodes hwithin h hs
  have h := liveInv_exec hlocks hnodes hwithin hexec
  obtain ⟨m, hm⟩ := h.work
  -- the attempts that are under way end, and those that are to start again are run alone
  obtain ⟨es₁, s₁, hadvances, hsettled₁⟩ := exists_exec_of_rank
    (Advances.liveInv hlocks hnodes hwithin) (Advances.workLeft hnodes)
    (fun _ h => h.progress hnodes) h hm
  have hrun₁ := completes_of_advances hadvances
  have h₁ := hrun₁.1.invariant (LiveInv cl program) hstep h
  obtain ⟨es₂, s₂, hrun₂, hsettled₂, hnone⟩ :=
    h₁.finishAll hlocks hnodes hwithin hsettled₁ cl.cfg.numUes
  have h₂ := hrun₂.1.invariant (LiveInv cl program) hstep h₁
  have hattempt : ∀ v, s₂.attempt v = none := by
    intro v
    rw [Option.eq_none_iff_forall_ne_some]
    intro t ht
    have hcontrol := (h₂.inv.attempt v t ht).control
    have hlt : v < cl.cfg.numUes := by
      refine (h₂.inv.inv.node v).lt fun hidle => ?_
      rwa [Control, hidle] at hcontrol
    rw [hnone v hlt] at ht
    cases ht
  have hrest : System.Resting cl program s₂ := ⟨h₂.inv, hsettled₂, hattempt⟩
  refine ⟨es₁ ++ es₂, s₂, hrun₁.trans hrun₂, hrest.quiescent, hattempt, fun v => ?_⟩
  have hcount := h.pending_run hlocks hnodes hwithin (hrun₁.trans hrun₂) v
  simpa only [TxSystem.pending, hattempt, Option.isSome_none, Bool.false_eq_true, if_false,
    Nat.add_zero] using hcount

end Completion

theorem transactions_complete_waitForPersisting :
    ∃ s es s', (s.system.service 0).serving.map Serving.victims = some [1] ∧
      s.system.abortFlag 1 = .persistingWrites ∧
      Completes System.pairCluster System.countProgram s es s' ∧ s'.system.Quiescent ∧
      (∀ v, s'.attempt v = none) ∧ (es.filterMap TxEvent.commits).count 0 = 1 ∧
      (es.filterMap TxEvent.commits).count 1 = 1 := by
  let s := (waitForPersisting.foldlM (TxSystem.step System.pairCluster System.countProgram)
    (txSystemInit Unit (BitVec 32) (fun _ => 0) fun _ => [])).get (by decide +kernel)
  have hexec : Exec (partialGraph (TxSystem.step System.pairCluster System.countProgram))
      (txSystemInit Unit (BitVec 32) (fun _ => 0) fun _ => []) waitForPersisting s :=
    exec_partialGraph_iff.mpr (Option.some_get _).symm
  obtain ⟨es, s', hrun, hquiescent, hnone, hcount⟩ :=
    transactions_complete System.pairCluster System.countProgram (System.locks_countProgram _)
      (fun _ => Nat.one_pos) System.within_countProgram (fun _ => 0) (fun _ => []) hexec
  exact ⟨s, es, s', by decide +kernel, by decide +kernel, hrun, hquiescent, hnone,
    (hcount 0).trans (by decide +kernel), (hcount 1).trans (by decide +kernel)⟩

end TM2C
