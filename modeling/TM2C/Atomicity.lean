import TM2C.Transactions

/-!
# Transactions are atomic

An attempt that is alive has done what its transaction does alone, up to the operations that it
has left: from every memory that agrees with the committed one where the attempt holds locks,
the whole block and the rest of it, begun with the write set, come to the same end.  Commits of
others do not touch what an attempt that is alive has locked.  So the transaction that commits
acts on the committed memory as if it ran alone.

The invariant of an attempt, `AttemptInv`, has the code of the attempt in step with the phase of
its node (`Control`), the operations of a transaction without published writes restricted to
`TX_LOAD_STORE`, and the field `replays`, which is the argument: the memories are quantified
over, so that a commit of somebody else need not be mentioned.  It changes the committed memory
outside what the attempt has locked, and `replays` speaks of every memory that agrees there.

A step of the node takes one operation off the rest and records it in the write set (`Proceeds`);
a step below the operations (a message, a grant, an abort) leaves the rest as it is and can only
end the attempt or enlarge what it was granted.  The invariant of the system is `TxInv`, and its
step lemma says that a step leaves what the program sees of the system (`abstraction`) as it is,
or is a commit and takes it where the block alone does.
-/

namespace TM2C

open AtomicBlocks Transition

namespace System

/-! ### `TX_LOAD_STORE` and `TX_COMMIT_NO_PUB` -/

theorem Acts.inv {cl : Cluster} {s s' : System} {v : Nat} {a : Action} (h : Acts cl s v a s')
    (hinv : Inv cl s) : Inv cl s' where
  node := by
    intro u
    by_cases hu : u = v
    · subst hu
      exact h.nodeInv (hinv.node u)
    · exact (hinv.node u).frame (h.sameFor hu)
  service := by
    intro d
    rw [h.service_eq]
    exact hinv.service d

theorem acts_txWlock (cl : Cluster) {s : System} {v address : Nat}
    (hphase : (s.node v).phase = .running) :
    Acts cl s v (.txStore address 0) (s.txWlock v address) := by
  refine acts_chkAborted (Acts.abort (Or.inl hphase) rfl) ?_
  intro hflag
  exact Acts.request hflag (Or.inl ⟨hphase, fun i hc => by cases hc⟩) rfl

/-- The points of an attempt where it neither waits for an answer nor persists. -/
def Inside (phase : Phase) : Prop :=
  phase.active = true ∧ (∀ p a, phase ≠ .waiting p a) ∧ ∀ i, phase ≠ .persisting i

theorem alive_of_setNode {s : System} {u v : Nat} {n : TxNode}
    (hactive : (s.node v).phase.active = true) (halive : (s.setNode v n).Alive u) : s.Alive u := by
  obtain ⟨hactive', hflag, hreply⟩ := halive
  refine ⟨?_, hflag, hreply⟩
  by_cases hu : u = v
  · exact hu ▸ hactive
  · rwa [node_setNode_of_ne _ _ _ hu] at hactive'

theorem sameFor_setNode {s : System} {u v : Nat} (n : TxNode) (hu : u ≠ v) :
    SameFor s (s.setNode v n) u :=
  ⟨node_setNode_of_ne s v n hu, rfl, rfl, rfl, rfl, fun _ sv h h' => ⟨sv, h, h', rfl, rfl⟩,
    fun _ _ _ h => h⟩

/-- A node that changes its phase and its write set, but nothing that the others see. -/
theorem Inv.setNode {cl : Cluster} {s : System} {v : Nat} {n : TxNode} (h : Inv cl s)
    (hold : Inside (s.node v).phase) (hnew : Inside n.phase)
    (hwrites : WritesGranted cl.cfg.eagerWriteAcq n (s.granted v)) (hroom : n.writeSet.HasRoom) :
    Inv cl (s.setNode v n) where
  node := by
    intro u
    by_cases hu : u = v
    · subst hu
      have hnode := h.node u
      refine ⟨?_, ?_, ?_, ?_, ?_, ?_⟩
      · intro _
        refine hnode.lt ?_
        intro hidle
        have hactive := hold.1
        rw [hidle] at hactive
        cases hactive
      · refine hnode.link.quiet_step hold.2.1 ?_ rfl rfl fun _ h => h
        rw [node_setNode_self]
        exact hnew.2.1
      · rw [node_setNode_self, abortFlag_setNode, hnode.flag]
        exact iff_of_false (not_exists.mpr hold.2.2) (not_exists.mpr hnew.2.2)
      · rw [node_setNode_self]
        exact hwrites
      · rw [node_setNode_self]
        exact hroom
      · intro halive
        exact hnode.held (alive_of_setNode hold.1 halive)
    · exact (h.node u).frame (sameFor_setNode n hu)
  service := h.service

theorem MemInv.setNode {s : System} {v : Nat} {n : TxNode} (h : MemInv s)
    (hold : ∀ i, (s.node v).phase ≠ .persisting i) (hnew : ∀ i, n.phase ≠ .persisting i) :
    MemInv (s.setNode v n) := by
  refine h.frame rfl rfl ?_
  intro w a
  by_cases hw : w = v
  · subst hw
    rw [node_setNode_self, TxNode.written_of_not_persisting hnew,
      TxNode.written_of_not_persisting hold]
  · rw [node_setNode_of_ne _ _ _ hw]

/-- `TX_LOAD_STORE` inserts an address that is locked. -/
theorem inv_insertTemp {cl : Cluster} {s s' : System} {v address : Nat} {value : BitVec 32}
    {f : BitVec 32 → BitVec 32} (h : Inv cl s) (hphase : (s.node v).phase = .locked address value)
    (hstep : s.insertTemp v address f = some s') : Inv cl s' := by
  obtain ⟨ws, hws, rfl⟩ := Option.map_eq_some_iff.mp hstep
  refine h.setNode (by simp [hphase, Inside, Phase.active]) (by simp [Inside, Phase.active]) ?_
    ((h.node v).room.insert hws)
  obtain ⟨heager, hgranted⟩ := (h.node v).writes
  rw [hphase] at hgranted
  exact ⟨fun he => forall_writeSetInsert hws (heager he) hgranted, trivial⟩

theorem memInv_insertTemp {s s' : System} {v address : Nat} {value : BitVec 32}
    {f : BitVec 32 → BitVec 32} (h : MemInv s) (hphase : (s.node v).phase = .locked address value)
    (hstep : s.insertTemp v address f = some s') : MemInv s' := by
  obtain ⟨ws, -, rfl⟩ := Option.map_eq_some_iff.mp hstep
  exact h.setNode (by simp [hphase]) (by simp)

theorem inv_txCommitNoPub {cl : Cluster} {s : System} {v : Nat} (h : Inv cl s)
    (hphase : (s.node v).phase = .running)
    (hgranted : ∀ we ∈ (s.node v).writeSet.writeEntries, (we.address, RW.write) ∈ s.granted v) :
    Inv cl (s.txCommitNoPub v) := by
  refine h.setNode (by simp [hphase, Inside, Phase.active]) (by simp [Inside, Phase.active]) ?_
    (h.node v).room
  refine ⟨fun _ => hgranted, ?_⟩
  simp only [List.take_length]
  exact hgranted

theorem memInv_txCommitNoPub {s : System} {v : Nat} (h : MemInv s)
    (hphase : (s.node v).phase = .running) : MemInv (s.txCommitNoPub v) :=
  h.setNode (by simp [hphase]) (by simp)

/-- The memory at an address that the attempt has locked, wherever it stands before it commits. -/
theorem mem_eq_committed_of_granted {cl : Cluster} {s : System} (hinv : Inv cl s) (h : MemInv s)
    {v address : Nat} {rw : RW} (halive : s.Alive v)
    (hphase : ∀ i, (s.node v).phase ≠ .persisting i) (hgranted : (address, rw) ∈ s.granted v) :
    s.mem address = s.committed address := by
  refine h.unwritten address ?_
  intro w
  by_contra hw
  obtain ⟨halive', hgranted', i, hpersisting⟩ := (hinv.node w).granted_of_written hw
  have hwv := hinv.eq_of_granted halive' hgranted' halive hgranted
  exact hphase i (hwv ▸ hpersisting)

end System

/-! ### The invariant of an attempt -/

variable {σ ι ρ : Type}

/-- Where a node is in the operation that its attempt is about to finish. -/
def Control (n : TxNode) (granted : List (Nat × RW)) (t : TxAttempt ι ρ) : Prop :=
  match n.phase with
  | .running => t.loaded = true → ∃ a next, t.rest = .load a next ∧ (a, RW.read) ∈ granted ∧
      writeSetContains n.writeSet a = none
  | .sending .txLoad a | .waiting .txLoad a =>
    t.loaded = true ∧ ∃ next, t.rest = .load a next ∧ writeSetContains n.writeSet a = none
  | .sending (.txStore value) a | .waiting (.txStore value) a | .locked a value =>
    t.loaded = false ∧
      ((∃ next, t.rest = .store a value next) ∨ ∃ f next, t.rest = .update a f next)
  | .sending (.storeAll _) _ | .waiting (.storeAll _) _ | .storingAll _ | .persisting _ =>
    ∃ result, t.rest = .ret result
  | .aborting _ | .restarting => True
  | .idle | .releasing _ => False

theorem Control.mono {n : TxNode} {granted granted' : List (Nat × RW)} {t : TxAttempt ι ρ}
    (h : Control n granted t) (hsub : ∀ g ∈ granted, g ∈ granted') : Control n granted' t := by
  unfold Control at h ⊢
  split at h <;> try exact h
  intro hloaded
  obtain ⟨a, next, hrest, hgranted, hnone⟩ := h hloaded
  exact ⟨a, next, hrest, hsub _ hgranted, hnone⟩

structure AttemptInv (cl : Cluster) (s : System) (v : Nat) (t : TxAttempt ι ρ) : Prop where
  control : Control (s.node v) (s.granted v) t
  block : t.pub = true ∨ cl.cfg.eagerWriteAcq = true ∨ t.block.OnlyUpdates
  locks : t.pub = true ∨ cl.cfg.eagerWriteAcq = true ∨ ((s.node v).phase.active = true →
    t.rest.OnlyUpdates ∧
      ∀ we ∈ (s.node v).writeSet.writeEntries, (we.address, RW.write) ∈ s.granted v)
  replays : s.Alive v → ∀ mem : Nat → BitVec 32,
    (∀ g ∈ s.granted v, mem g.1 = s.committed g.1) →
      t.block.buffered mem [] = t.rest.buffered mem (s.node v).writeSet.log

namespace AttemptInv

variable {cl : Cluster} {s s' : System} {v : Nat} {t : TxAttempt ι ρ}

/-- A step that leaves the attempt where it is, and commits nothing that it has locked. -/
theorem frame (h : AttemptInv cl s v t) (hnode : s'.node v = s.node v)
    (hgranted : ∀ g ∈ s.granted v, g ∈ s'.granted v) (halive : s'.Alive v → s.Alive v)
    (hcommitted : s'.Alive v → ∀ g ∈ s.granted v, s'.committed g.1 = s.committed g.1) :
    AttemptInv cl s' v t where
  control := by
    rw [hnode]
    exact h.control.mono hgranted
  block := h.block
  locks := by
    rw [hnode]
    refine h.locks.imp_right (Or.imp_right ?_)
    intro hlocks hactive
    obtain ⟨hrest, hwe⟩ := hlocks hactive
    exact ⟨hrest, fun we h => hgranted _ (hwe we h)⟩
  replays := by
    intro hs' mem hmem
    rw [hnode]
    refine h.replays (halive hs') mem ?_
    intro g hg
    rw [hmem g (hgranted g hg), hcommitted hs' g hg]

/-- A step of the node within its attempt, which finishes no operation. -/
theorem move (h : AttemptInv cl s v t) (loaded : Bool)
    (hcontrol : Control (s'.node v) (s'.granted v) { t with loaded := loaded })
    (hwriteSet : (s'.node v).writeSet = (s.node v).writeSet) (hgranted : s'.granted = s.granted)
    (hcommitted : s'.committed = s.committed)
    (hactive : (s'.node v).phase.active = true → (s.node v).phase.active = true)
    (halive : s'.Alive v → s.Alive v) : AttemptInv cl s' v { t with loaded := loaded } where
  control := hcontrol
  block := h.block
  locks := by
    rw [hwriteSet, hgranted]
    exact h.locks.imp_right (Or.imp_right fun hlocks hs' => hlocks (hactive hs'))
  replays := by
    intro hs'
    rw [hwriteSet, hgranted, hcommitted]
    exact h.replays (halive hs')

/-- The attempt is given up. -/
theorem stopped (h : AttemptInv cl s v t) {t' : TxAttempt ι ρ} (hpub : t'.pub = t.pub)
    (hblock : t'.block = t.block)
    (hphase : (∃ seq, (s'.node v).phase = .aborting seq) ∨ (s'.node v).phase = .restarting) :
    AttemptInv cl s' v t' := by
  have hactive : (s'.node v).phase.active ≠ true := by
    obtain ⟨seq, hphase⟩ | hphase := hphase <;> simp [hphase, Phase.active]
  refine ⟨?_, ?_, ?_, fun halive => absurd halive.active hactive⟩
  · obtain ⟨seq, hphase⟩ | hphase := hphase <;> simp [Control, hphase]
  · rw [hpub, hblock]
    exact h.block
  · rw [hpub]
    exact h.block.imp_right (Or.imp_right fun _ hs' => absurd hs' hactive)

theorem aborting (h : AttemptInv cl s v t) {t' : TxAttempt ι ρ} (hpub : t'.pub = t.pub)
    (hblock : t'.block = t.block) {seq : Nat} (hphase : (s'.node v).phase = .aborting seq) :
    AttemptInv cl s' v t' :=
  h.stopped hpub hblock (Or.inl ⟨seq, hphase⟩)

/-- `TXCHKABORTED` -/
theorem chkAborted (h : AttemptInv cl s v t) (t' : TxAttempt ι ρ) (hpub : t'.pub = t.pub)
    (hblock : t'.block = t.block) {next : System}
    (hnext : s.abortFlag v = .noConflict → AttemptInv cl next v t') :
    AttemptInv cl (s.chkAborted v next) v t' := by
  unfold System.chkAborted
  split
  · exact h.aborting hpub hblock (congrArg TxNode.phase (System.node_setNode_self ..))
  · rename_i hflag
    exact hnext (not_not.mp hflag)

/-- The first operation of the rest is done: what it wrote is in the write set. -/
theorem advance (h : AttemptInv cl s v t) {t' : TxAttempt ι ρ} (hpub : t'.pub = t.pub)
    (hblock : t'.block = t.block) (hloaded : t'.loaded = false)
    (hphase : (s'.node v).phase = .running) (hgranted : s'.granted = s.granted)
    (hcommitted : s'.committed = s.committed) (hactive : (s.node v).phase.active = true)
    (halive : s'.Alive v → s.Alive v)
    (hlocks : t.rest.OnlyUpdates →
      (∀ we ∈ (s.node v).writeSet.writeEntries, (we.address, RW.write) ∈ s.granted v) →
      t'.rest.OnlyUpdates ∧
        ∀ we ∈ (s'.node v).writeSet.writeEntries, (we.address, RW.write) ∈ s.granted v)
    (hreplays : s.Alive v → ∀ mem : Nat → BitVec 32,
      (∀ g ∈ s.granted v, mem g.1 = s.committed g.1) →
        t.rest.buffered mem (s.node v).writeSet.log =
          t'.rest.buffered mem (s'.node v).writeSet.log) : AttemptInv cl s' v t' where
  control := by
    simp only [Control, hphase, hloaded]
    intro hc
    cases hc
  block := by
    rw [hpub, hblock]
    exact h.block
  locks := by
    rw [hpub, hgranted]
    refine h.locks.imp_right (Or.imp_right fun hold _ => ?_)
    obtain ⟨hrest, hwe⟩ := hold hactive
    exact hlocks hrest hwe
  replays := by
    intro hs' mem hmem
    rw [hgranted, hcommitted] at hmem
    rw [hblock, h.replays (halive hs') mem hmem]
    exact hreplays (halive hs') mem hmem

end AttemptInv

/-! ### The operations of an attempt -/

namespace System

/-- The state of the system and the attempt of the node after a part of an operation. -/
structure Proceeds (cl : Cluster) (s : System) (v : Nat) (t t' : TxAttempt ι ρ) (s' : System) :
    Prop where
  input : t'.input = t.input
  block : t'.block = t.block
  inv : Inv cl s'
  memory : MemInv s'
  others : ∀ u, u ≠ v → SameFor s s' u
  committed : s'.committed = s.committed
  attempt : AttemptInv cl s' v t'

section Operations

variable {cl : Cluster} {s s' : System} {v : Nat} {t t' : TxAttempt ι ρ}

theorem proceeds_of_acts {a : Action} (hinv : Inv cl s) (hmem : MemInv s)
    (hacts : Acts cl s v a s') (hpersist : a ≠ .writeEntryPersist) (hcommit : a ≠ .setTxCommitted)
    (hinput : t'.input = t.input) (hblock : t'.block = t.block) (h : AttemptInv cl s' v t') :
    Proceeds cl s v t t' s' where
  input := hinput
  block := hblock
  inv := hacts.inv hinv
  memory := memInv_act hinv hmem hacts
  others := fun _ hu => hacts.sameFor hu
  committed := (hacts.memory_eq hpersist hcommit).2.1
  attempt := h

theorem control_running (h : AttemptInv cl s v t) (hphase : (s.node v).phase = .running)
    (hrest : ∀ a next, t.rest ≠ .load a next) : t.loaded = false := by
  have hcontrol := h.control
  rw [Control, hphase] at hcontrol
  by_contra hloaded
  obtain ⟨a, next, heq, -⟩ := hcontrol (by simpa using hloaded)
  exact hrest a next heq

theorem control_locked (h : AttemptInv cl s v t) {address : Nat} {value : BitVec 32}
    (hphase : (s.node v).phase = .locked address value) : t.loaded = false ∧
      ((∃ next, t.rest = .store address value next) ∨
        ∃ f next, t.rest = .update address f next) := by
  have hcontrol := h.control
  rwa [Control, hphase] at hcontrol

/-- The answer of `tx_load` is dereferenced. -/
theorem proceeds_deref (hinv : Inv cl s) (hmem : MemInv s) (h : AttemptInv cl s v t)
    {address : Nat} {next : BitVec 32 → AtomicBlock Nat (BitVec 32) ρ}
    (hrest : t.rest = .load address next) (hloaded : t.loaded = true)
    (hstep : s.act cl v (.deref address) = some s') :
    Proceeds cl s v t { t with rest := next (s.mem address), loaded := false } s' := by
  have hacts := acts_of_act hstep
  refine proceeds_of_acts hinv hmem hacts (by simp) (by simp) rfl rfl ?_
  cases hacts with
  | abort _ ha => cases ha
  | request _ _ ha => cases ha
  | insert _ _ ha => cases ha
  | deref hphase hgranted =>
    have hcontrol := h.control
    rw [Control, hphase] at hcontrol
    obtain ⟨a, next', heq, -, hnone⟩ := hcontrol hloaded
    obtain ⟨rfl, rfl⟩ := AtomicBlock.load.inj (hrest.symm.trans heq)
    refine h.advance rfl rfl rfl hphase rfl rfl (by rw [hphase, Phase.active]) ?_ ?_ ?_
    · exact fun halive => ⟨halive.active, halive.flag, halive.reply⟩
    · intro honly hwe
      rw [hrest] at honly
      exact ⟨honly _, hwe⟩
    · intro halive mem hagree
      have hfirst : AppendLog.first (s.node v).writeSet.log address = none := by
        rw [← writeSetContains_eq_first, hnone, Option.map_none]
      have hvalue : mem address = s.mem address := by
        rw [hagree _ hgranted]
        exact (mem_eq_committed_of_granted hinv hmem halive (by simp [hphase]) hgranted).symm
      rw [hrest, AtomicBlock.buffered, hfirst, Option.getD_none, hvalue]

theorem proceeds_txLoad (hinv : Inv cl s) (hmem : MemInv s) (h : AttemptInv cl s v t)
    {address : Nat} {next : BitVec 32 → AtomicBlock Nat (BitVec 32) ρ}
    (hphase : (s.node v).phase = .running) (hrest : t.rest = .load address next)
    (hloaded : t.loaded = false) (hstep : s.act cl v (.txLoad address) = some s') :
    Proceeds cl s v t
      (match writeSetContains (s.node v).writeSet address with
        | some we => { t with rest := next we.i }
        | none => { t with loaded := true }) s' := by
  have hacts := acts_of_act hstep
  simp only [act, hphase] at hstep
  cases hcontains : writeSetContains (s.node v).writeSet address with
  | some we =>
    simp only [hcontains, Option.some.injEq] at hstep
    subst hstep
    refine proceeds_of_acts hinv hmem hacts (by simp) (by simp) rfl rfl ?_
    refine h.advance rfl rfl hloaded hphase rfl rfl (by rw [hphase, Phase.active]) id ?_ ?_
    · intro honly hwe
      rw [hrest] at honly
      exact ⟨honly _, hwe⟩
    · intro _ mem _
      have hfirst : AppendLog.first (s.node v).writeSet.log address = some we.i := by
        rw [← writeSetContains_eq_first, hcontains, Option.map_some]
      rw [hrest, AtomicBlock.buffered, hfirst, Option.getD_some]
  | none =>
    simp only [hcontains, Option.some.injEq] at hstep
    subst hstep
    refine proceeds_of_acts hinv hmem hacts (by simp) (by simp) rfl rfl ?_
    refine h.chkAborted { t with loaded := true } rfl rfl ?_
    intro _
    refine h.move _ ?_ ?_ rfl rfl ?_ ?_
    · simpa [Control] using ⟨⟨next, hrest⟩, hcontains⟩
    · simp
    · simp [hphase, Phase.active]
    · exact alive_of_setNode (by rw [hphase, Phase.active])

/-- A request for a write lock, by `TX_STORE` or by `TX_LOAD_STORE`. -/
theorem attemptInv_request (h : AttemptInv cl s v t) {address : Nat} {value : BitVec 32}
    (hphase : (s.node v).phase = .running) (hrest : (∃ next, t.rest = .store address value next) ∨
      ∃ f next, t.rest = .update address f next) :
    AttemptInv cl (s.enter v (.sending (.txStore value) address)) v t := by
  have hloaded : t.loaded = false := by
    refine control_running h hphase ?_
    intro a next heq
    obtain ⟨_, hrest⟩ | ⟨_, _, hrest⟩ := hrest <;> rw [hrest] at heq <;> cases heq
  refine h.move t.loaded ?_ ?_ rfl rfl ?_ ?_
  · simpa [Control] using ⟨hloaded, hrest⟩
  · simp
  · simp [hphase, Phase.active]
  · exact alive_of_setNode (by rw [hphase, Phase.active])

/-- A store is done when it is buffered. -/
theorem attemptInv_bufferStore (h : AttemptInv cl s v t) (hloaded : t.loaded = false)
    (hactive : (s.node v).phase.active = true) {address : Nat} {value : BitVec 32}
    {next : AtomicBlock Nat (BitVec 32) ρ} (hrest : t.rest = .store address value next)
    (hstep : s.bufferStore v address value = some s') :
    AttemptInv cl s' v { t with rest := next } := by
  obtain ⟨system, rfl, hsystem⟩ := System.bufferStore_eq_some hstep
  refine h.chkAborted { t with rest := next } rfl rfl ?_
  intro hflag
  obtain ⟨ws, hws, rfl⟩ := hsystem hflag
  refine h.advance rfl rfl hloaded (by simp) rfl rfl hactive (alive_of_setNode hactive) ?_ ?_
  · intro honly
    rw [hrest] at honly
    cases honly
  · intro _ mem _
    rw [hrest, AtomicBlock.buffered, node_setNode_self, log_of_writeSetInsert hws]

theorem proceeds_txStore (hinv : Inv cl s) (hmem : MemInv s) (h : AttemptInv cl s v t)
    {address : Nat} {value : BitVec 32} {next : AtomicBlock Nat (BitVec 32) ρ}
    (hphase : (s.node v).phase = .running) (hrest : t.rest = .store address value next)
    (hstep : s.act cl v (.txStore address value) = some s') :
    Proceeds cl s v t (if cl.cfg.eagerWriteAcq then t else { t with rest := next }) s' := by
  have hacts := acts_of_act hstep
  have hloaded := control_running h hphase (by simp [hrest])
  simp only [act, hphase] at hstep
  cases heager : cl.cfg.eagerWriteAcq with
  | true =>
    simp only [heager, if_true, Option.some.injEq] at hstep ⊢
    subst hstep
    refine proceeds_of_acts hinv hmem hacts (by simp) (by simp) rfl rfl ?_
    refine h.chkAborted t rfl rfl ?_
    exact fun _ => attemptInv_request h hphase (Or.inl ⟨next, hrest⟩)
  | false =>
    simp only [heager, Bool.false_eq_true, if_false] at hstep ⊢
    refine proceeds_of_acts hinv hmem hacts (by simp) (by simp) rfl rfl ?_
    exact attemptInv_bufferStore h hloaded (by rw [hphase, Phase.active]) hrest hstep

/-- `TX_STORE` after `tx_wlock`. -/
theorem proceeds_stored (hinv : Inv cl s) (hmem : MemInv s) (h : AttemptInv cl s v t)
    {a address : Nat} {value value' : BitVec 32} {next : AtomicBlock Nat (BitVec 32) ρ}
    (hphase : (s.node v).phase = .locked a value') (hrest : t.rest = .store address value next)
    (hstep : s.act cl v .chkAborted = some s') :
    Proceeds cl s v t { t with rest := next } s' := by
  have hacts := acts_of_act hstep
  obtain ⟨hloaded, hop⟩ := control_locked h hphase
  obtain ⟨next', heq⟩ | ⟨f, next', heq⟩ := hop
  · rw [hrest] at heq
    obtain ⟨rfl, rfl, rfl⟩ := AtomicBlock.store.inj heq
    simp only [act, hphase] at hstep
    refine proceeds_of_acts hinv hmem hacts (by simp) (by simp) rfl rfl ?_
    exact attemptInv_bufferStore h hloaded (by rw [hphase, Phase.active]) hrest hstep
  · rw [hrest] at heq
    cases heq

theorem proceeds_txWlock (hinv : Inv cl s) (hmem : MemInv s) (h : AttemptInv cl s v t)
    {address : Nat} {f : BitVec 32 → BitVec 32} {next : AtomicBlock Nat (BitVec 32) ρ}
    (hphase : (s.node v).phase = .running) (hrest : t.rest = .update address f next) :
    Proceeds cl s v t t (s.txWlock v address) := by
  refine proceeds_of_acts hinv hmem (acts_txWlock cl hphase) (by simp) (by simp) rfl rfl ?_
  refine h.chkAborted t rfl rfl ?_
  exact fun _ => attemptInv_request h hphase (Or.inr ⟨f, next, hrest⟩)

/-- `TX_LOAD_STORE` computes from what is committed, if the attempt is alive. -/
theorem proceeds_insertTemp (hinv : Inv cl s) (hmem : MemInv s) (h : AttemptInv cl s v t)
    {a address : Nat} {value : BitVec 32} {f : BitVec 32 → BitVec 32}
    {next : AtomicBlock Nat (BitVec 32) ρ} (hphase : (s.node v).phase = .locked a value)
    (hrest : t.rest = .update address f next) (hstep : s.insertTemp v address f = some s') :
    Proceeds cl s v t { t with rest := next } s' := by
  obtain ⟨hloaded, hop⟩ := control_locked h hphase
  obtain ⟨next', heq⟩ | ⟨f', next', heq⟩ := hop
  · rw [hrest] at heq
    cases heq
  rw [hrest] at heq
  obtain ⟨rfl, rfl, rfl⟩ := AtomicBlock.update.inj heq
  have hgranted : (address, RW.write) ∈ s.granted v := by
    have hwrites := (hinv.node v).writes.2
    rwa [hphase] at hwrites
  have hactive : (s.node v).phase.active = true := by rw [hphase, Phase.active]
  have hinv' := inv_insertTemp hinv hphase hstep
  have hmem' := memInv_insertTemp hmem hphase hstep
  obtain ⟨ws, hws, rfl⟩ := Option.map_eq_some_iff.mp hstep
  refine ⟨rfl, rfl, hinv', hmem', fun u hu => sameFor_setNode _ hu, rfl, ?_⟩
  refine h.advance rfl rfl hloaded (by simp) rfl rfl hactive (alive_of_setNode hactive) ?_ ?_
  · intro honly hwe
    rw [hrest] at honly
    refine ⟨honly, ?_⟩
    rw [node_setNode_self]
    exact forall_writeSetInsert hws hwe hgranted
  · intro halive mem hagree
    have hvalue : mem address = s.mem address := by
      rw [hagree _ hgranted]
      exact (mem_eq_committed_of_granted hinv hmem halive (by simp [hphase]) hgranted).symm
    rw [hrest, AtomicBlock.buffered, node_setNode_self, log_of_writeSetInsert hws, hvalue]

theorem proceeds_peek (hinv : Inv cl s) (hmem : MemInv s) (h : AttemptInv cl s v t)
    {address : Nat} {next : BitVec 32 → AtomicBlock Nat (BitVec 32) ρ}
    (hphase : (s.node v).phase = .running) (hrest : t.rest = .peek address next)
    (hgranted : (s.granted v).any (fun g => decide (g.1 = address)) = true) :
    Proceeds cl s v t { t with rest := next (s.mem address) } s := by
  have hloaded := control_running h hphase (by simp [hrest])
  refine ⟨rfl, rfl, hinv, hmem, fun u _ => ⟨rfl, rfl, rfl, rfl, rfl, ?_, ?_⟩, rfl, ?_⟩
  · exact fun _ sv hsv hv => ⟨sv, hsv, hv, rfl, rfl⟩
  · exact fun _ _ _ hlock => hlock
  refine h.advance rfl rfl hloaded hphase rfl rfl (by rw [hphase, Phase.active]) id ?_ ?_
  · intro honly hwe
    rw [hrest] at honly
    exact ⟨honly _, hwe⟩
  · intro halive mem hagree
    obtain ⟨⟨a, rw⟩, hg, heq⟩ := List.any_eq_true.mp hgranted
    obtain rfl : a = address := of_decide_eq_true heq
    have hvalue : mem a = s.mem a := by
      rw [hagree _ hg]
      exact (mem_eq_committed_of_granted hinv hmem halive (by simp [hphase]) hg).symm
    rw [hrest, AtomicBlock.buffered, hvalue]

theorem attemptInv_storingAll (h : AttemptInv cl s v t) {result : ρ} {i : Nat}
    (hphase : (s.node v).phase = .running) (hrest : t.rest = .ret result) :
    AttemptInv cl (s.enter v (.storingAll i)) v t := by
  refine h.move t.loaded ?_ ?_ rfl rfl ?_ ?_
  · simpa [Control] using ⟨result, hrest⟩
  · simp
  · simp [hphase, Phase.active]
  · exact alive_of_setNode (by rw [hphase, Phase.active])

theorem proceeds_txCommit (hinv : Inv cl s) (hmem : MemInv s) (h : AttemptInv cl s v t)
    {result : ρ} (hphase : (s.node v).phase = .running) (hrest : t.rest = .ret result)
    (hstep : s.act cl v .txCommit = some s') : Proceeds cl s v t t s' := by
  have hacts := acts_of_act hstep
  refine proceeds_of_acts hinv hmem hacts (by simp) (by simp) rfl rfl ?_
  cases hacts with
  | abort _ ha => cases ha
  | request _ _ ha => cases ha
  | insert _ _ ha => cases ha
  | commit => exact attemptInv_storingAll h hphase hrest

theorem proceeds_txCommitNoPub (hinv : Inv cl s) (hmem : MemInv s) (h : AttemptInv cl s v t)
    {result : ρ} (hpub : t.pub = false) (hphase : (s.node v).phase = .running)
    (hrest : t.rest = .ret result) : Proceeds cl s v t t (s.txCommitNoPub v) := by
  have hgranted : ∀ we ∈ (s.node v).writeSet.writeEntries,
      (we.address, RW.write) ∈ s.granted v := by
    obtain hpub' | heager | hlocks := h.locks
    · rw [hpub] at hpub'
      cases hpub'
    · exact (hinv.node v).writes.1 heager
    · exact (hlocks (by rw [hphase, Phase.active])).2
  exact ⟨rfl, rfl, inv_txCommitNoPub hinv hphase hgranted, memInv_txCommitNoPub hmem hphase,
    fun u hu => sameFor_setNode _ hu, rfl, attemptInv_storingAll h hphase hrest⟩

end Operations

/-! ### Below the operations -/

/-- Between its transactions a node waits or releases its locks. -/
def Between (phase : Phase) : Prop := phase = .idle ∨ ∃ seq, phase = .releasing seq

section Underneath

variable {cl : Cluster} {s s' : System} {v : Nat} {t : TxAttempt ι ρ}

/-- The node takes a step of its attempt that is no operation. -/
theorem attemptInv_act (hinv : Inv cl s) (h : AttemptInv cl s v t) {a : Action}
    (hstep : s.act cl v a = some s') (ha : (SystemEvent.node v a).underneath = true) :
    AttemptInv cl s' v t := by
  have hacts := acts_of_act hstep
  have hcontrol := h.control
  -- no step makes an attempt alive again
  have halive : s'.Alive v → s.Alive v := by
    intro hs'
    obtain ⟨⟨now, rfl⟩, -⟩ | ⟨hs, -⟩ := hacts.alive hs'
    · cases ha
    · exact hs
  cases a with
  -- these are operations or the ends of a transaction
  | txStart now => cases ha
  | txLoad address => cases ha
  | txStore address value => cases ha
  | txCommit => cases ha
  | chkAborted => cases ha
  | deref address => cases ha
  | setTxCommitted => cases ha
  | txAbort =>
    simp only [act] at hstep
    split at hstep
    · obtain rfl := Option.some.inj hstep
      exact h.aborting rfl rfl (congrArg TxNode.phase (node_setNode_self ..))
    · cases hstep
  | send now =>
    cases hacts with
    | abort _ hmay => cases hmay
    | request _ _ hmay => cases hmay
    | insert _ _ hmay => cases hmay
    | send hphase =>
      rename_i p address
      rw [Control, hphase] at hcontrol
      refine h.move t.loaded ?_ (by simp) rfl rfl (by simp [hphase, Phase.active])
        halive
      cases p <;> simpa [Control] using hcontrol
  | recv =>
    cases hacts with
    | abort _ hmay => cases hmay
    | request _ _ hmay => cases hmay
    | insert _ _ hmay => cases hmay
    | refused => exact h.aborting rfl rfl (congrArg TxNode.phase (node_setNode_self ..))
    | answered hphase hreply =>
      -- the request was granted, and the attempt knows what it locks
      rename_i p address
      have hgranted := (hinv.node v).link.of_reply hreply
      have hlock := hgranted.2.2 p address hphase rfl
      rw [Control, hphase] at hcontrol
      refine h.move t.loaded ?_ (by simp) rfl rfl (by simp [hphase, Phase.active])
        halive
      cases p with
      | txLoad =>
        obtain ⟨-, next, hrest, hnone⟩ := hcontrol
        simp only [Control, enter, node_setNode_self, Purpose.next]
        exact fun _ => ⟨address, next, hrest, hlock, hnone⟩
      | txStore value => simpa [Control, Purpose.next] using hcontrol
      | storeAll i => simpa [Control, Purpose.next] using hcontrol
  | setTxPersisting =>
    simp only [act] at hstep
    split at hstep
    · rename_i i hphase
      rw [Control, hphase] at hcontrol
      split at hstep
      · obtain rfl := Option.some.inj hstep
        split
        · -- a node that was killed does not persist
          exact h.aborting rfl rfl (congrArg TxNode.phase (node_setNode_self ..))
        · rename_i hflag
          rw [if_neg hflag] at halive
          refine h.move t.loaded ?_ (by simp) rfl rfl
            (by simp [hphase, Phase.active]) halive
          simpa [Control] using hcontrol
      · cases hstep
    · cases hstep
  | writeEntryPersist =>
    cases hacts with
    | abort _ hmay => cases hmay
    | request _ _ hmay => cases hmay
    | insert _ _ hmay => cases hmay
    | persist hphase =>
      rw [Control, hphase] at hcontrol
      refine h.move t.loaded ?_ (by simp) rfl rfl (by simp [hphase, Phase.active])
        halive
      simpa [Control] using hcontrol
  | rlsAll now =>
    cases hacts with
    | abort _ hmay => cases hmay
    | request _ _ hmay => cases hmay
    | insert _ _ hmay => cases hmay
    | rlsAll hphase =>
      -- a node that releases after a commit has no attempt any more
      obtain ⟨hphase, rfl⟩ | ⟨hphase, rfl⟩ := hphase
      · rw [Control, hphase] at hcontrol
        exact absurd hcontrol id
      · exact h.aborting rfl rfl (congrArg TxNode.phase (node_setNode_self ..))
  | finish now =>
    cases hacts with
    | abort _ hmay => cases hmay
    | request _ _ hmay => cases hmay
    | insert _ _ hmay => cases hmay
    | finish hphase =>
      rw [Control, hphase] at hcontrol
      exact absurd hcontrol id
    | restart =>
      exact h.stopped rfl rfl (Or.inr (congrArg TxNode.phase (node_setNode_self ..)))

/-- The loop of `tm2c_rpc_store_all`. -/
theorem attemptInv_storeAll (h : AttemptInv cl s v t)
    (hphase : (s.node v).phase.inStoreAll = true) (hstep : s.act cl v .chkAborted = some s') :
    AttemptInv cl s' v t := by
  obtain ⟨i, hphase⟩ : ∃ i, (s.node v).phase = .storingAll i := by
    unfold Phase.inStoreAll at hphase
    split at hphase
    · exact ⟨_, by assumption⟩
    · cases hphase
  have hcontrol := h.control
  rw [Control, hphase] at hcontrol
  simp only [act, hphase] at hstep
  obtain ⟨we, hwe, rfl⟩ := Option.map_eq_some_iff.mp hstep
  refine h.chkAborted t rfl rfl ?_
  intro _
  refine h.move t.loaded ?_ (by simp) rfl rfl (by simp [hphase, Phase.active])
    (alive_of_setNode (by rw [hphase, Phase.active]))
  simpa [Control] using hcontrol

/-- Nor does a node leave the time between two transactions. -/
theorem between_act (h : Between (s.node v).phase) {a : Action}
    (hstep : s.act cl v a = some s') (ha : (SystemEvent.node v a).underneath = true) :
    Between (s'.node v).phase := by
  have hacts := acts_of_act hstep
  have hstill : ∀ {phase : Phase}, (s.node v).phase = phase → ¬ Between phase →
      Between (s'.node v).phase := fun hphase hnot => absurd (hphase ▸ h) hnot
  cases hacts with
  | start => cases ha
  | buffered => exact h
  | abort hphase =>
    obtain hphase | ⟨_, _, hphase⟩ | ⟨_, hphase⟩ := hphase <;>
      exact hstill hphase (by simp [Between])
  | request _ hphase =>
    obtain ⟨hphase, -⟩ | ⟨_, _, hphase, -⟩ := hphase <;> exact hstill hphase (by simp [Between])
  | insert _ hphase =>
    obtain ⟨hphase, -⟩ | hphase := hphase <;> exact hstill hphase (by simp [Between])
  | rlsAll hphase =>
    obtain ⟨-, rfl⟩ | ⟨hphase, -⟩ := hphase
    · exact Or.inr ⟨_, congrArg TxNode.phase (node_setNode_self ..)⟩
    · exact hstill hphase (by simp [Between])
  | finish => exact Or.inl (congrArg TxNode.phase (node_setNode_self ..))
  | restart hphase => exact hstill hphase (by simp [Between])
  | commit hphase => exact hstill hphase (by simp [Between])
  | send hphase => exact hstill hphase (by simp [Between])
  | refused hphase => exact hstill hphase (by simp [Between])
  | answered hphase => exact hstill hphase (by simp [Between])
  | deref hphase => exact h
  | persisting hphase => exact hstill hphase (by simp [Between])
  | persist hphase => exact hstill hphase (by simp [Between])
  | committed hphase => exact hstill hphase (by simp [Between])

end Underneath

/-! ### The invariant of the system -/

structure TxInv (cl : Cluster) (program : TxProgram σ ι ρ) (s : TxSystem σ ι ρ) : Prop where
  inv : Inv cl s.system
  memory : MemInv s.system
  between : ∀ v, s.attempt v = none → Between (s.system.node v).phase
  next : ∀ v t, s.attempt v = some t → program.next (s.thread v) t.input = some t.block
  attempt : ∀ v t, s.attempt v = some t → AttemptInv cl s.system v t

theorem txInv_init (cl : Cluster) (program : TxProgram σ ι ρ) (mem : Nat → BitVec 32)
    (thread : Nat → σ) : TxInv cl program (txSystemInit ι ρ mem thread) where
  inv := inv_init cl mem
  memory := memInv_init mem
  between := fun _ _ => Or.inl rfl
  next := by
    intro v t ht
    cases ht
  attempt := by
    intro v t ht
    cases ht

theorem SameFor.attemptInv {cl : Cluster} {s s' : System} {u : Nat} {t : TxAttempt ι ρ}
    (hsame : SameFor s s' u) (hcommitted : s'.committed = s.committed)
    (h : AttemptInv cl s u t) : AttemptInv cl s' u t := by
  refine h.frame hsame.node ?_ hsame.alive ?_
  · intro g hg
    rwa [hsame.granted]
  · intro _ g _
    rw [hcommitted]

namespace TxInv

variable {cl : Cluster} {program : TxProgram σ ι ρ} {s s' : TxSystem σ ι ρ}

/-- A step of one node that begins or continues an attempt. -/
theorem proceed (h : TxInv cl program s) {v : Nat} {t : TxAttempt ι ρ} {system : System}
    (hinv : Inv cl system) (hmem : MemInv system)
    (hothers : ∀ u, u ≠ v → SameFor s.system system u)
    (hcommitted : system.committed = s.system.committed)
    (hnext : program.next (s.thread v) t.input = some t.block) (ht : AttemptInv cl system v t) :
    TxInv cl program (s.proceed v t system) where
  inv := hinv
  memory := hmem
  between := by
    intro u hu
    by_cases huv : u = v
    · subst huv
      rw [TxSystem.attempt_proceed_self] at hu
      cases hu
    · rw [TxSystem.attempt_proceed_of_ne _ _ _ _ huv] at hu
      rw [TxSystem.system_proceed, (hothers u huv).node]
      exact h.between u hu
  next := by
    intro u t' hu
    by_cases huv : u = v
    · subst huv
      rw [TxSystem.attempt_proceed_self, Option.some.injEq] at hu
      exact hu ▸ hnext
    · rw [TxSystem.attempt_proceed_of_ne _ _ _ _ huv] at hu
      exact h.next u t' hu
  attempt := by
    intro u t' hu
    by_cases huv : u = v
    · subst huv
      rw [TxSystem.attempt_proceed_self, Option.some.injEq] at hu
      exact hu ▸ ht
    · rw [TxSystem.attempt_proceed_of_ne _ _ _ _ huv] at hu
      exact (hothers u huv).attemptInv hcommitted (h.attempt u t' hu)

/-- What a step does that commits nothing. -/
structure Kept (cl : Cluster) (program : TxProgram σ ι ρ) (s s' : TxSystem σ ι ρ) : Prop where
  inv : TxInv cl program s'
  same : s'.abstraction = s.abstraction

theorem of_proceeds (h : TxInv cl program s) {v : Nat} {t t' : TxAttempt ι ρ} {system : System}
    (ht : s.attempt v = some t) (hp : Proceeds cl s.system v t t' system) :
    Kept cl program s (s.proceed v t' system) where
  inv := by
    refine h.proceed hp.inv hp.memory hp.others hp.committed ?_ hp.attempt
    rw [hp.input, hp.block]
    exact h.next v t ht
  same := by
    rw [TxSystem.abstraction, TxSystem.abstraction, TxSystem.system_proceed, hp.committed]
    rfl

/-- A step of one node below its operations. -/
theorem of_act (h : TxInv cl program s) {v : Nat} {a : Action} {system : System}
    (hstep : s.system.act cl v a = some system) (hcommit : a ≠ .setTxCommitted)
    (hbetween : Between (s.system.node v).phase → Between (system.node v).phase)
    (hattempt : ∀ t : TxAttempt ι ρ, AttemptInv cl s.system v t → AttemptInv cl system v t) :
    Kept cl program s { s with system := system } := by
  have hacts := acts_of_act hstep
  have hcommitted : system.committed = s.system.committed := by
    cases hacts with
    | committed => exact absurd rfl hcommit
    | _ => rfl
  refine ⟨⟨hacts.inv h.inv, memInv_act h.inv h.memory hacts, ?_, h.next, ?_⟩, ?_⟩
  · intro u hu
    have hphase := h.between u hu
    by_cases huv : u = v
    · subst huv
      exact hbetween hphase
    · rwa [(hacts.sameFor huv).node]
  · intro u t ht
    have ha := h.attempt u t ht
    by_cases huv : u = v
    · subst huv
      exact hattempt t ha
    · exact (hacts.sameFor huv).attemptInv hcommitted ha
  · rw [TxSystem.abstraction, TxSystem.abstraction, hcommitted]

/-- A step of a service node. -/
theorem of_service (h : TxInv cl program s) {e : SystemEvent} {system : System}
    (hstep : s.system.step cl e = some system) (hnode : ∀ v a, e ≠ .node v a) :
    Kept cl program s { s with system := system } := by
  obtain ⟨hnodes, hmem, hcommitted, hgranted⟩ : system.node = s.system.node ∧
      system.mem = s.system.mem ∧ system.committed = s.system.committed ∧
      ∀ v, ∀ g ∈ s.system.granted v, g ∈ system.granted v := by
    cases e with
    | node v a => exact absurd rfl (hnode v a)
    | handle d v now =>
      cases handles_of_handle hstep <;> exact ⟨rfl, rfl, rfl, fun _ _ hg => hg⟩
    | abortNode d =>
      obtain ⟨_, _, _, _, _, _, -, ⟨-, rfl⟩ | ⟨-, rfl⟩⟩ := abortNode_eq_some hstep <;>
        exact ⟨rfl, rfl, rfl, fun _ _ hg => hg⟩
    | grant d =>
      obtain ⟨sender, _, _, _, -, rfl⟩ := grant_eq_some hstep
      refine ⟨rfl, rfl, rfl, ?_⟩
      intro v g hg
      by_cases hv : v = sender
      · subst hv
        simp only [Function.update_self, List.mem_append]
        exact Or.inl hg
      · simpa only [Function.update_of_ne hv] using hg
  refine ⟨⟨inv_step h.inv hstep, ?_, ?_, h.next, ?_⟩, ?_⟩
  · exact h.memory.frame hmem hcommitted fun w a => by rw [hnodes]
  · rw [hnodes]
    exact h.between
  · intro v t ht
    refine (h.attempt v t ht).frame (congrFun hnodes v) (hgranted v) ?_ ?_
    · exact fun hs' => (alive_of_step h.inv hstep (fun now => hnode _ _) hs').1
    · intro _ g _
      rw [hcommitted]
  · rw [TxSystem.abstraction, TxSystem.abstraction, hcommitted]

theorem operation (h : TxInv cl program s) {v : Nat} {t : TxAttempt ι ρ}
    (ht : s.attempt v = some t) (hstep : s.operation cl v t = some s') : Kept cl program s s' := by
  have ha := h.attempt v t ht
  unfold TxSystem.operation at hstep
  simp only at hstep
  split at hstep
  · rename_i address next hphase hrest
    split at hstep
    · rename_i hloaded
      obtain ⟨system, hact, rfl⟩ := Option.map_eq_some_iff.mp hstep
      exact h.of_proceeds ht (proceeds_deref h.inv h.memory ha hrest hloaded hact)
    · rename_i hloaded
      obtain ⟨system, hact, rfl⟩ := Option.map_eq_some_iff.mp hstep
      exact h.of_proceeds ht
        (proceeds_txLoad h.inv h.memory ha hphase hrest (by simpa using hloaded) hact)
  · rename_i hphase hrest
    obtain ⟨system, hact, rfl⟩ := Option.map_eq_some_iff.mp hstep
    exact h.of_proceeds ht (proceeds_txStore h.inv h.memory ha hphase hrest hact)
  · rename_i hphase hrest
    obtain ⟨system, hact, rfl⟩ := Option.map_eq_some_iff.mp hstep
    exact h.of_proceeds ht (proceeds_stored h.inv h.memory ha hphase hrest hact)
  · rename_i hphase hrest
    obtain rfl := Option.some.inj hstep
    exact h.of_proceeds ht (proceeds_txWlock h.inv h.memory ha hphase hrest)
  · rename_i hphase hrest
    obtain ⟨system, hact, rfl⟩ := Option.map_eq_some_iff.mp hstep
    exact h.of_proceeds ht (proceeds_insertTemp h.inv h.memory ha hphase hrest hact)
  · rename_i hphase hrest
    split at hstep
    · rename_i hgranted
      obtain rfl := Option.some.inj hstep
      exact h.of_proceeds ht (proceeds_peek h.inv h.memory ha hphase hrest hgranted)
    · cases hstep
  · rename_i hphase hrest
    split at hstep
    · obtain ⟨system, hact, rfl⟩ := Option.map_eq_some_iff.mp hstep
      exact h.of_proceeds ht (proceeds_txCommit h.inv h.memory ha hphase hrest hact)
    · rename_i hpub
      obtain rfl := Option.some.inj hstep
      exact h.of_proceeds ht
        (proceeds_txCommitNoPub h.inv h.memory ha (by simpa using hpub) hphase hrest)
  · cases hstep

end TxInv

/-! ### The start and the end of an attempt -/

section Ends

variable {cl : Cluster} {s s' : System} {v : Nat}

theorem attemptInv_start (hinv : Inv cl s)
    (hphase : (s.node v).phase = .idle ∨ (s.node v).phase = .restarting) {t : TxAttempt ι ρ}
    (hrest : t.rest = t.block) (hloaded : t.loaded = false)
    (hblock : t.pub = true ∨ cl.cfg.eagerWriteAcq = true ∨ t.block.OnlyUpdates) (startTs : Nat) :
    AttemptInv cl (s.txRunning v startTs) v t := by
  have hempty : (s.node v).writeSet.writeEntries = [] := by
    have hwrites := (hinv.node v).writes.2
    obtain hphase | hphase := hphase
    · rwa [hphase] at hwrites
    · rwa [hphase] at hwrites
  refine ⟨?_, hblock, ?_, ?_⟩
  · simp [Control, txRunning, hloaded]
  · refine hblock.imp_right (Or.imp_right fun honly _ => ?_)
    simpa [txRunning, hempty, hrest] using honly
  · intro _ mem _
    simp [txRunning, WriteSet.log, hempty, hrest]

/-- A commit leaves alone what others have locked. -/
theorem persisted_of_granted (hinv : Inv cl s) {u i : Nat} (hne : u ≠ v)
    (hphase : (s.node v).phase = .persisting i) (halive : s.Alive u) {g : Nat × RW}
    (hg : g ∈ s.granted u) :
    persisted i (s.node v).writeSet s.committed g.1 = s.committed g.1 := by
  have hnone : (s.node v).written g.1 = none := by
    by_contra hw
    obtain ⟨halive', hgranted', -⟩ := (hinv.node v).granted_of_written hw
    exact hne (hinv.eq_of_granted halive' hgranted' halive hg).symm
  rw [persisted_apply, ← TxNode.written_of_persisting hphase, hnone, Option.getD_none]

/-- The transaction that commits did what it does alone. -/
theorem solo_of_committed (hinv : Inv cl s) {t : TxAttempt ι ρ} (h : AttemptInv cl s v t)
    {i : Nat} (hphase : (s.node v).phase = .persisting i)
    (hi : (s.node v).writeSet.writeEntries.length ≤ i) {result : ρ}
    (hrest : t.rest = .ret result) :
    t.block.solo s.committed = (result, persisted i (s.node v).writeSet s.committed) := by
  have hlog : (s.node v).writeSet.log.take i = (s.node v).writeSet.log := by
    refine List.take_of_length_le ?_
    rwa [WriteSet.log, List.length_map]
  have hrun := h.replays ((hinv.node v).alive_of_persisting hphase) s.committed fun _ _ => rfl
  rw [hrest, AtomicBlock.buffered] at hrun
  rw [AtomicBlock.solo, hrun, persisted_eq_replay, hlog]

end Ends

/-! ### Every run -/

section Runs

variable {cl : Cluster} {program : TxProgram σ ι ρ} {s s' : TxSystem σ ι ρ}

theorem TxInv.start (h : TxInv cl program s) {v now : Nat} {t : TxAttempt ι ρ} {system : System}
    (hact : s.system.act cl v (.txStart now) = some system)
    (hphase : (s.system.node v).phase = .idle ∨ (s.system.node v).phase = .restarting)
    (hrest : t.rest = t.block) (hloaded : t.loaded = false)
    (hblock : t.pub = true ∨ cl.cfg.eagerWriteAcq = true ∨ t.block.OnlyUpdates)
    (hnext : program.next (s.thread v) t.input = some t.block) :
    TxInv.Kept cl program s (s.proceed v t system) := by
  have hacts := acts_of_act hact
  have hcommitted := (hacts.memory_eq (by simp) (by simp)).2.1
  constructor
  · refine h.proceed (hacts.inv h.inv) (memInv_act h.inv h.memory hacts)
      (fun u hu => hacts.sameFor hu) hcommitted hnext ?_
    cases hacts with
    | abort _ hmay => cases hmay
    | request _ _ hmay => cases hmay
    | insert _ _ hmay => cases hmay
    | start => exact attemptInv_start h.inv hphase hrest hloaded hblock _
  · rw [TxSystem.abstraction, TxSystem.abstraction, TxSystem.system_proceed, hcommitted]
    rfl

/-- A commit: the thread goes on with the result, and no attempt of others has noticed. -/
theorem TxInv.commit (h : TxInv cl program s) {v : Nat} {t : TxAttempt ι ρ} {result : ρ}
    {system : System} (ht : s.attempt v = some t) (hrest : t.rest = .ret result)
    (hstep : s.system.act cl v .setTxCommitted = some system) :
    t.block.solo s.system.committed = (result, system.committed) ∧
      TxInv cl program
        { system := system
          thread := Function.update s.thread v (program.resume (s.thread v) t.input result)
          attempt := Function.update s.attempt v none } := by
  have hacts := acts_of_act hstep
  have hinv := hacts.inv h.inv
  have hmem := memInv_act h.inv h.memory hacts
  have hothers : ∀ {u}, u ≠ v → SameFor s.system system u := fun hu => hacts.sameFor hu
  cases hacts with
  | abort _ hmay => cases hmay
  | request _ _ hmay => cases hmay
  | insert _ _ hmay => cases hmay
  | committed hphase hi =>
    refine ⟨solo_of_committed h.inv (h.attempt v t ht) hphase hi hrest, hinv, hmem, ?_, ?_, ?_⟩
    · intro u hu
      by_cases huv : u = v
      · exact Or.inr ⟨0, by simp [huv]⟩
      · simp only [Function.update_of_ne huv] at hu
        rw [(hothers huv).node]
        exact h.between u hu
    · intro u t' hu
      by_cases huv : u = v
      · subst huv
        simp only [Function.update_self, reduceCtorEq] at hu
      · simp only [Function.update_of_ne huv] at hu ⊢
        exact h.next u t' hu
    · intro u t' hu
      by_cases huv : u = v
      · subst huv
        simp only [Function.update_self, reduceCtorEq] at hu
      · simp only [Function.update_of_ne huv] at hu
        have hsame := hothers huv
        refine (h.attempt u t' hu).frame hsame.node (fun g hg => hg) hsame.alive ?_
        exact fun hs' g hg => persisted_of_granted h.inv huv hphase (hsame.alive hs') hg

/-- One step either commits nothing or is the step of the transaction that it commits. -/
theorem txInv_step (hlocks : program.Locks cl.cfg) (h : TxInv cl program s) {e : TxEvent ι}
    (hstep : s.step cl program e = some s') : TxInv cl program s' ∧
      ((e.commits = none ∧ s'.abstraction = s.abstraction) ∨ ∃ input : Nat × ι,
        e.commits = some input.1 ∧
          atomicStep program.toProgram s.abstraction input = some s'.abstraction) := by
  have hkept : TxInv.Kept cl program s s' → e.commits = none → TxInv cl program s' ∧
      ((e.commits = none ∧ s'.abstraction = s.abstraction) ∨ ∃ input : Nat × ι,
        e.commits = some input.1 ∧
          atomicStep program.toProgram s.abstraction input = some s'.abstraction) :=
    fun h he => ⟨h.inv, Or.inl ⟨he, h.same⟩⟩
  cases e with
  | txStart v input now =>
    refine hkept ?_ rfl
    simp only [TxSystem.step] at hstep
    split at hstep
    · rename_i block hphase hnext
      obtain ⟨system, hact, rfl⟩ := Option.map_eq_some_iff.mp hstep
      exact h.start hact (Or.inl hphase) rfl rfl (hlocks _ _ _ hnext) hnext
    · cases hstep
  | restart v now =>
    refine hkept ?_ rfl
    simp only [TxSystem.step] at hstep
    split at hstep
    · rename_i t hphase ht
      obtain ⟨system, hact, rfl⟩ := Option.map_eq_some_iff.mp hstep
      exact h.start hact (Or.inr hphase) rfl rfl (h.attempt v t ht).block (h.next v t ht)
    · cases hstep
  | operation v =>
    refine hkept ?_ rfl
    obtain ⟨t, ht, hop⟩ := Option.bind_eq_some_iff.mp hstep
    exact h.operation ht hop
  | storeAll v =>
    refine hkept ?_ rfl
    simp only [TxSystem.step] at hstep
    split at hstep
    · rename_i hphase
      obtain ⟨system, hact, rfl⟩ := Option.map_eq_some_iff.mp hstep
      refine h.of_act hact (by simp) ?_ fun t ha => attemptInv_storeAll ha hphase hact
      intro hbetween
      obtain hidle | ⟨seq, hrls⟩ := hbetween
      · rw [hidle] at hphase
        cases hphase
      · rw [hrls] at hphase
        cases hphase
    · cases hstep
  -- the one step that the program sees
  | txCommitted v =>
    simp only [TxSystem.step] at hstep
    split at hstep
    · rename_i input pub block result loaded ht
      obtain ⟨system, hact, rfl⟩ := Option.map_eq_some_iff.mp hstep
      obtain ⟨hsolo, hinv⟩ := h.commit ht rfl hact
      refine ⟨hinv, Or.inr ⟨(v, input), rfl, ?_⟩⟩
      have hnext := h.next v _ ht
      simp only at hnext hsolo
      simp only [atomicStep, TxSystem.abstraction, hnext, Option.map_some, hsolo]
    · cases hstep
  | system e =>
    refine hkept ?_ rfl
    simp only [TxSystem.step] at hstep
    split at hstep
    · rename_i hunder
      obtain ⟨system, hact, rfl⟩ := Option.map_eq_some_iff.mp hstep
      by_cases hnode : ∀ v a, e ≠ .node v a
      · -- a service node may kill the attempt, and leaves it otherwise
        exact h.of_service hact hnode
      · push Not at hnode
        obtain ⟨v, a, rfl⟩ := hnode
        refine h.of_act hact ?_ (fun hb => between_act hb hact hunder)
          fun t ha => attemptInv_act h.inv ha hact hunder
        rintro rfl
        cases hunder
    · cases hstep

/-- The program sees the run of its transactions, one step each, in the order of the commits. -/
theorem abstraction_exec (hlocks : program.Locks cl.cfg) {mem : Nat → BitVec 32}
    {thread : Nat → σ} {es : List (TxEvent ι)}
    (hexec : Exec (partialGraph (TxSystem.step cl program)) (txSystemInit ι ρ mem thread) es s) :
    ∃ inputs, Exec (partialGraph (atomicStep program.toProgram)) ⟨mem, thread⟩ inputs
      s.abstraction ∧ inputs.map Prod.fst = es.filterMap TxEvent.commits := by
  have hstep : ∀ s e s', TxInv cl program s → partialGraph (TxSystem.step cl program) s e s' →
      TxInv cl program s' := fun _ _ _ h hs => (txInv_step hlocks h hs).1
  exact hexec.simulation_labels TxSystem.abstraction TxEvent.commits Prod.fst hstep
    (fun _ _ _ h hs => (txInv_step hlocks h hs).2) (txInv_init cl program mem thread)

/-- What every transaction that runs alone preserves, the system preserves. -/
theorem abstraction_invariant (hlocks : program.Locks cl.cfg) {mem : Nat → BitVec 32}
    {thread : Nat → σ} {es : List (TxEvent ι)}
    (hexec : Exec (partialGraph (TxSystem.step cl program)) (txSystemInit ι ρ mem thread) es s)
    {P : AtomicState σ Nat (BitVec 32) → Prop}
    (hP : ∀ s input s', P s → atomicStep program.toProgram s input = some s' → P s')
    (hinit : P ⟨mem, thread⟩) : P s.abstraction := by
  obtain ⟨inputs, hatomic, -⟩ := abstraction_exec hlocks hexec
  exact hatomic.invariant P hP hinit

/-- The shared memory is the committed one where no node is persisting its writes. -/
theorem TxInv.mem_eq (h : TxInv cl program s)
    (hphase : ∀ v i, (s.system.node v).phase ≠ .persisting i) :
    s.system.mem = s.system.committed := by
  funext a
  exact h.memory.unwritten a fun w => TxNode.written_of_not_persisting (hphase w) a

theorem mem_eq_of_not_persisting (hlocks : program.Locks cl.cfg) {mem : Nat → BitVec 32}
    {thread : Nat → σ} {es : List (TxEvent ι)}
    (hexec : Exec (partialGraph (TxSystem.step cl program)) (txSystemInit ι ρ mem thread) es s)
    (hphase : ∀ v i, (s.system.node v).phase ≠ .persisting i) :
    s.system.mem = s.system.committed := by
  have hs := hexec.invariant (TxInv cl program)
    (fun _ _ _ h hstep => (txInv_step hlocks h hstep).1) (txInv_init cl program mem thread)
  exact hs.mem_eq hphase

/-- No node persists its writes once all programs have ended. -/
theorem mem_eq_of_finished (hlocks : program.Locks cl.cfg) {mem : Nat → BitVec 32}
    {thread : Nat → σ} {es : List (TxEvent ι)}
    (hexec : Exec (partialGraph (TxSystem.step cl program)) (txSystemInit ι ρ mem thread) es s)
    (hfinished : ∀ v input, program.next (s.thread v) input = none) :
    s.system.mem = s.system.committed := by
  have hs := hexec.invariant (TxInv cl program)
    (fun _ _ _ h hstep => (txInv_step hlocks h hstep).1) (txInv_init cl program mem thread)
  refine hs.mem_eq fun v i hphase => ?_
  have hnone : s.attempt v = none := by
    rw [Option.eq_none_iff_forall_ne_some]
    intro t ht
    have hnext := hs.next v t ht
    rw [hfinished] at hnext
    cases hnext
  obtain hidle | ⟨seq, hrls⟩ := hs.between v hnone
  · rw [hidle] at hphase
    cases hphase
  · rw [hrls] at hphase
    cases hphase

/-- **Transactions are atomic.**  In every run of the system, the committed memory and the
variables of the nodes are those of a run in which every transaction that committed takes one
step, in the order of the commits.  Where no node is persisting its writes, the shared memory is
the committed one. -/
theorem transactions_atomic (cl : Cluster) (program : TxProgram σ ι ρ)
    (hlocks : program.Locks cl.cfg) (mem : Nat → BitVec 32) (thread : Nat → σ)
    {es : List (TxEvent ι)} {s : TxSystem σ ι ρ}
    (hexec : Exec (partialGraph (TxSystem.step cl program)) (txSystemInit ι ρ mem thread) es s) :
    (∃ inputs, Exec (partialGraph (atomicStep program.toProgram)) ⟨mem, thread⟩ inputs
      ⟨s.system.committed, s.thread⟩ ∧ inputs.map Prod.fst = es.filterMap TxEvent.commits) ∧
    ((∀ v i, (s.system.node v).phase ≠ .persisting i) → s.system.mem = s.system.committed) :=
  ⟨abstraction_exec hlocks hexec, mem_eq_of_not_persisting hlocks hexec⟩

/-- Every transaction adds one to 64 and returns what it found there. -/
def countProgram : TxProgram (List (BitVec 32)) Unit (BitVec 32) where
  next _ _ := some (.update 64 (· + 1) (.peek 64 .ret))
  resume results _ result := results ++ [result]
  pub _ _ := false

theorem locks_countProgram (cfg : Config) : countProgram.Locks cfg := by
  intro thread input block hnext
  obtain rfl := Option.some.inj hnext
  exact Or.inr (Or.inr fun _ => trivial)

/-- The operations of `countProgram` in a node, where `victims` nodes stand in the way. -/
def countOnce (v victims : Nat) : List (TxEvent Unit) :=
  [.operation v, .system (.node v (.send 0)), .system (.handle 0 v 0)] ++
    List.replicate victims (.system (.abortNode 0)) ++
    [.system (.grant 0), .system (.node v .recv), .operation v, .operation v, .operation v]

/-- Node 1 is killed before it persists, starts again, and comes second. -/
def countTwice : List (TxEvent Unit) :=
  [.txStart 1 () 0] ++ countOnce 1 0 ++ [.txStart 0 () 0] ++ countOnce 0 1 ++
  [.system (.node 0 .setTxPersisting), .system (.node 1 .setTxPersisting),
    .system (.node 0 .writeEntryPersist), .txCommitted 0, .system (.node 0 (.rlsAll 0)),
    .system (.node 1 (.rlsAll 0)), .system (.node 1 (.finish 0)), .system (.handle 0 0 0),
    .system (.handle 0 1 0), .restart 1 0] ++ countOnce 1 0 ++
  [.system (.node 1 .setTxPersisting), .system (.node 1 .writeEntryPersist), .txCommitted 1]

theorem transactions_atomic_countTwice :
    ∃ s : TxSystem (List (BitVec 32)) Unit (BitVec 32), s.thread 0 = [0] ∧ s.thread 1 = [1] ∧
      (∃ inputs, Exec (partialGraph (atomicStep countProgram.toProgram))
        ⟨fun _ => 0, fun _ => []⟩ inputs ⟨s.system.committed, s.thread⟩ ∧
          inputs.map Prod.fst = [0, 1]) ∧
      ((∀ v i, (s.system.node v).phase ≠ .persisting i) → s.system.mem = s.system.committed) := by
  let s := (countTwice.foldlM (TxSystem.step pairCluster countProgram)
    (txSystemInit Unit (BitVec 32) (fun _ => 0) fun _ => [])).get (by decide +kernel)
  have hexec : Exec (partialGraph (TxSystem.step pairCluster countProgram))
      (txSystemInit Unit (BitVec 32) (fun _ => 0) fun _ => []) countTwice s :=
    exec_partialGraph_iff.mpr (Option.some_get _).symm
  exact ⟨s, by decide +kernel, by decide +kernel,
    transactions_atomic pairCluster countProgram (locks_countProgram _) (fun _ => 0) (fun _ => [])
      hexec⟩

end Runs

end System

end TM2C
