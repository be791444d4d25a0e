import TM2C.CommitIsolation

/-!
# Snapshots

The memory is the last committed one, overwritten by the entries that attempts
in `write_set_persist` have already written.  What an attempt reads while its
abort flag is `NO_CONFLICT` is therefore committed, and stays so for as long as
the attempt is alive: the values are those of one committed memory.  `tx_load`
does not test the flag between the grant and the read, so what an attempt reads
after it was killed may be newer.

`MemInv` says how the shared memory differs from the committed one: at the entries that some
attempt in `write_set_persist` has written, and nowhere else, by the last entry for each address.
Two such attempts never have the same address, because both have its write lock.  `ReadInv` says
what was read.  The reads of an attempt that is alive are still in the committed memory, since
nobody else commits what it has locked; and for every attempt, alive or not, there is a memory in
the history of committed ones that has all values it read before it was killed.  That memory is
fixed when the attempt dies, and is the present one until then.

The step lemmas go through the accesses to shared memory one by one: a read, a write of one
entry, the end of the writes, when the committed memory takes them over all at once, and the
start of an attempt, which forgets the reads.  All other steps are frames.
-/

namespace TM2C

open Transition

/-! ### The entries written so far -/

/-- What the node has written to an address since it began to persist. -/
def TxNode.written (n : TxNode) (address : Nat) : Option (BitVec 32) :=
  match n.phase with
  | .persisting i => AppendLog.last (n.writeSet.log.take i) address
  | _ => none

theorem TxNode.written_of_not_persisting {n : TxNode} (h : ∀ i, n.phase ≠ .persisting i)
    (address : Nat) : n.written address = none := by
  unfold TxNode.written
  split
  · rename_i i hphase
    exact absurd hphase (h i)
  · rfl

theorem TxNode.written_of_persisting {n : TxNode} {i : Nat} (h : n.phase = .persisting i)
    (address : Nat) : n.written address = AppendLog.last (n.writeSet.log.take i) address := by
  simp only [TxNode.written, h]

namespace System

theorem persisted_eq_replay (k : Nat) (writeSet : WriteSet) (mem : Nat → BitVec 32) :
    persisted k writeSet mem = AppendLog.replay Function.update mem (writeSet.log.take k) := by
  simp only [persisted, AppendLog.replay, WriteSet.log, ← List.map_take, List.foldl_map]

theorem persisted_apply (k : Nat) (writeSet : WriteSet) (mem : Nat → BitVec 32) (a : Nat) :
    persisted k writeSet mem a = (AppendLog.last (writeSet.log.take k) a).getD (mem a) := by
  rw [persisted_eq_replay]
  refine AppendLog.get_replay Function.update (fun m a => m a) ?_ ?_ mem
  · intro m b x
    exact Function.update_self ..
  · intro e _ hne m
    exact Function.update_of_ne (Ne.symm hne) ..

theorem NodeInv.granted_of_written {cl : Cluster} {s : System} {w address : Nat}
    (h : NodeInv cl s w) (hwritten : (s.node w).written address ≠ none) :
    s.Alive w ∧ (address, RW.write) ∈ s.granted w ∧ ∃ i, (s.node w).phase = .persisting i := by
  unfold TxNode.written at hwritten
  split at hwritten
  · rename_i i hphase
    refine ⟨h.alive_of_persisting hphase, ?_, i, hphase⟩
    rw [Ne, AppendLog.last_eq_none_iff] at hwritten
    push Not at hwritten
    obtain ⟨e, he, rfl⟩ := hwritten
    obtain ⟨we, hwe, rfl⟩ := List.mem_map.mp (List.mem_of_mem_take he)
    have hwrites := h.writes.2
    rw [hphase] at hwrites
    exact hwrites we hwe
  · exact absurd rfl hwritten

/-! ### The memory -/

/-- The memory is the committed one but for the entries being persisted. -/
structure MemInv (s : System) : Prop where
  written : ∀ w a x, (s.node w).written a = some x → s.mem a = x
  unwritten : ∀ a, (∀ w, (s.node w).written a = none) → s.mem a = s.committed a

theorem memInv_init (mem : Nat → BitVec 32) : MemInv (systemInit mem) where
  written := by
    intro w a x hx
    cases hx
  unwritten := fun a _ => rfl

theorem MemInv.frame {s s' : System} (h : MemInv s) (hmem : s'.mem = s.mem)
    (hcommitted : s'.committed = s.committed)
    (hwritten : ∀ w a, (s'.node w).written a = (s.node w).written a) : MemInv s' where
  written := by
    intro w a x hx
    rw [hwritten] at hx
    rw [hmem]
    exact h.written w a x hx
  unwritten := by
    intro a ha
    rw [hmem, hcommitted]
    exact h.unwritten a fun w => (hwritten w a).symm.trans (ha w)

theorem Acts.memory_eq {cl : Cluster} {s s' : System} {v : Nat} {a : Action}
    (h : Acts cl s v a s') (hpersist : a ≠ .writeEntryPersist) (hcommit : a ≠ .setTxCommitted) :
    s'.mem = s.mem ∧ s'.committed = s.committed ∧ s'.history = s.history := by
  cases h with
  | persist => exact absurd rfl hpersist
  | committed => exact absurd rfl hcommit
  | _ => exact ⟨rfl, rfl, rfl⟩

theorem Acts.written_eq {cl : Cluster} {s s' : System} {v : Nat} {a : Action}
    (h : Acts cl s v a s') (hpersist : a ≠ .writeEntryPersist) (hcommit : a ≠ .setTxCommitted)
    (w address : Nat) : (s'.node w).written address = (s.node w).written address := by
  by_cases hw : w = v
  · subst hw
    have hnone : ∀ {n : TxNode} {phase : Phase}, (s.node w).phase = phase →
        (∀ i, phase ≠ .persisting i) → (∀ i, n.phase ≠ .persisting i) →
        n.written address = (s.node w).written address := by
      intro n phase hphase hold hnew
      rw [TxNode.written_of_not_persisting hnew,
        TxNode.written_of_not_persisting (fun i => hphase ▸ hold i)]
    cases h with
    | persist => exact absurd rfl hpersist
    | committed => exact absurd rfl hcommit
    | start hfrom =>
      obtain ⟨hfrom, -⟩ | hfrom := hfrom <;> exact hnone hfrom (by simp) (by simp [txRunning])
    | buffered => rfl
    | abort hfrom =>
      obtain hfrom | ⟨_, _, hfrom⟩ | ⟨_, hfrom⟩ := hfrom <;>
        exact hnone hfrom (by simp) (by simp)
    | request _ hfrom =>
      obtain ⟨hfrom, -⟩ | ⟨_, _, hfrom, -⟩ := hfrom <;> exact hnone hfrom (by simp) (by simp)
    | insert _ hfrom =>
      obtain ⟨hfrom, -⟩ | hfrom := hfrom <;> exact hnone hfrom (by simp) (by simp)
    | commit hfrom => exact hnone hfrom (by simp) (by simp)
    | send hfrom => exact hnone hfrom (by simp) (by simp)
    | refused hfrom => exact hnone hfrom (by simp) (by simp)
    | answered hfrom =>
      rename_i p _ _
      exact hnone hfrom (by simp) (by cases p <;> simp [Purpose.next])
    | deref => rfl
    | persisting hfrom =>
      simp [TxNode.written, hfrom]
    | rlsAll hfrom =>
      obtain ⟨hfrom, rfl⟩ | ⟨hfrom, rfl⟩ := hfrom <;> exact hnone hfrom (by simp) (by simp)
    | finish hfrom => exact hnone hfrom (by simp) (by simp)
    | restart hfrom => exact hnone hfrom (by simp) (by simp)
  · rw [(h.sameFor hw).node]

theorem take_log_succ {writeSet : WriteSet} {i : Nat} {we : WriteEntry}
    (hwe : writeSet.writeEntries[i]? = some we) :
    writeSet.log.take (i + 1) = writeSet.log.take i ++ [(we.address, we.i)] := by
  have hget : writeSet.log[i]? = some (we.address, we.i) := by
    rw [WriteSet.log, List.getElem?_map, hwe]
    rfl
  rw [List.take_add_one, hget]
  rfl

theorem memInv_persist {cl : Cluster} {s : System} {v i : Nat} {we : WriteEntry} (hinv : Inv cl s)
    (h : MemInv s) (hphase : (s.node v).phase = .persisting i)
    (hwe : (s.node v).writeSet.writeEntries[i]? = some we) :
    MemInv { s.enter v (.persisting (i + 1)) with
      mem := Function.update s.mem we.address we.i } := by
  obtain ⟨halive, hgranted⟩ := (hinv.node v).granted_of_persists ⟨i, we, hphase, hwe, rfl⟩
  have hself : ∀ a, ((s.enter v (.persisting (i + 1))).node v).written a =
      if we.address = a then some we.i else (s.node v).written a := by
    intro a
    rw [TxNode.written_of_persisting hphase]
    simp only [enter, node_setNode_self, TxNode.written, take_log_succ hwe,
      AppendLog.last_append, AppendLog.last_singleton]
    by_cases ha : we.address = a
    · rw [if_pos ha, if_pos ha, Option.some_or]
    · rw [if_neg ha, if_neg ha, Option.none_or]
  have hother : ∀ w, w ≠ v → (s.enter v (.persisting (i + 1))).node w = s.node w :=
    fun w hw => node_setNode_of_ne s v _ hw
  constructor
  case written =>
    intro w a x hx
    simp only at hx ⊢
    by_cases hw : w = v
    · subst hw
      rw [hself] at hx
      by_cases ha : we.address = a
      · subst ha
        rw [if_pos rfl, Option.some.injEq] at hx
        rw [Function.update_self, hx]
      · rw [if_neg ha] at hx
        rw [Function.update_of_ne (Ne.symm ha)]
        exact h.written w a x hx
    · rw [hother w hw] at hx
      -- two nodes that persist have written to different addresses
      have ha : a ≠ we.address := by
        rintro rfl
        have hsome : (s.node w).written we.address ≠ none := by
          rw [hx]
          exact Option.some_ne_none x
        obtain ⟨halive', hgranted', -⟩ := (hinv.node w).granted_of_written hsome
        exact hw (hinv.eq_of_granted halive' hgranted' halive hgranted)
      rw [Function.update_of_ne ha]
      exact h.written w a x hx
  case unwritten =>
    intro a hnone
    simp only at hnone ⊢
    have hv := hnone v
    rw [hself] at hv
    by_cases ha : we.address = a
    · rw [if_pos ha] at hv
      cases hv
    · rw [if_neg ha] at hv
      rw [Function.update_of_ne (Ne.symm ha)]
      refine h.unwritten a ?_
      intro w
      by_cases hw : w = v
      · exact hw ▸ hv
      · exact hother w hw ▸ hnone w

theorem memInv_commit {s : System} {v i : Nat} (h : MemInv s)
    (hphase : (s.node v).phase = .persisting i) :
    MemInv { s.enter v (.releasing 0) with
      abortFlag := Function.update s.abortFlag v .txCommitted
      committed := persisted i (s.node v).writeSet s.committed
      history := persisted i (s.node v).writeSet s.committed :: s.history } := by
  have hother : ∀ w, w ≠ v → (s.enter v (.releasing 0)).node w = s.node w :=
    fun w hw => node_setNode_of_ne s v _ hw
  constructor
  · intro w a x hx
    simp only at hx ⊢
    by_cases hw : w = v
    · subst hw
      simp [TxNode.written] at hx
    · rw [hother w hw] at hx
      exact h.written w a x hx
  · intro a hnone
    simp only at hnone ⊢
    rw [persisted_apply, ← TxNode.written_of_persisting hphase]
    cases hv : (s.node v).written a with
    | some x => exact h.written v a x hv
    | none =>
      refine h.unwritten a ?_
      intro w
      by_cases hw : w = v
      · exact hw ▸ hv
      · exact hother w hw ▸ hnone w

theorem memInv_act {cl : Cluster} {s s' : System} {v : Nat} {a : Action} (hinv : Inv cl s)
    (h : MemInv s) (hacts : Acts cl s v a s') : MemInv s' := by
  by_cases hpersist : a = .writeEntryPersist
  · subst hpersist
    cases hacts with
    | abort _ ha => cases ha
    | request _ _ ha => cases ha
    | insert _ _ ha => cases ha
    | persist hphase hwe => exact memInv_persist hinv h hphase hwe
  by_cases hcommit : a = .setTxCommitted
  · subst hcommit
    cases hacts with
    | abort _ ha => cases ha
    | request _ _ ha => cases ha
    | insert _ _ ha => cases ha
    | committed hphase => exact memInv_commit h hphase
  obtain ⟨hmem, hcommitted, -⟩ := hacts.memory_eq hpersist hcommit
  exact h.frame hmem hcommitted (hacts.written_eq hpersist hcommit)

/-! ### The reads -/

/-- What was read by attempts that are alive is still committed, and what was
read before a kill was committed at one time. -/
structure ReadInv (s : System) : Prop where
  current : ∀ v, s.Alive v → ∀ r ∈ s.reads v, r.alive = true →
    (r.address, RW.read) ∈ s.granted v ∧ r.value = s.committed r.address
  snapshot : ∀ v, ∃ mem ∈ s.history, ∀ r ∈ s.reads v, r.alive = true → mem r.address = r.value
  committed_mem : s.committed ∈ s.history

theorem readInv_init (mem : Nat → BitVec 32) : ReadInv (systemInit mem) where
  current := fun _ _ _ hr => absurd hr List.not_mem_nil
  snapshot := fun _ => ⟨mem, List.mem_singleton_self mem, fun _ hr => absurd hr List.not_mem_nil⟩
  committed_mem := List.mem_singleton_self mem

/-- A step that commits nothing and reads nothing. -/
theorem ReadInv.frame {s s' : System} (h : ReadInv s) (hcommitted : s'.committed = s.committed)
    (hhistory : s'.history = s.history)
    (hreads : ∀ v, s'.reads v = s.reads v ∧ (s'.Alive v → s.Alive v ∧
      ∀ g ∈ s.granted v, g ∈ s'.granted v) ∨ s'.reads v = []) : ReadInv s' where
  current := by
    intro v halive r hr hflag
    obtain ⟨heq, hback⟩ | hempty := hreads v
    · rw [heq] at hr
      obtain ⟨hs, hmono⟩ := hback halive
      obtain ⟨hg, hvalue⟩ := h.current v hs r hr hflag
      exact ⟨hmono _ hg, hcommitted ▸ hvalue⟩
    · rw [hempty] at hr
      cases hr
  snapshot := by
    intro v
    obtain ⟨heq, -⟩ | hempty := hreads v
    · rw [heq, hhistory]
      exact h.snapshot v
    · refine ⟨s.committed, hhistory ▸ h.committed_mem, ?_⟩
      intro r hr
      rw [hempty] at hr
      cases hr
  committed_mem := by
    rw [hcommitted, hhistory]
    exact h.committed_mem

theorem Acts.reads_eq {cl : Cluster} {s s' : System} {v : Nat} {a : Action} (h : Acts cl s v a s')
    (hstart : ∀ now, a ≠ .txStart now) (hderef : ∀ address, a ≠ .deref address) :
    s'.reads = s.reads := by
  cases h with
  | start => exact absurd rfl (hstart _)
  | deref => exact absurd rfl (hderef _)
  | _ => rfl

theorem readInv_start {s : System} {v startTs : Nat} (h : ReadInv s) :
    ReadInv (s.txRunning v startTs) := by
  refine h.frame rfl rfl ?_
  intro u
  by_cases hu : u = v
  · subst hu
    exact Or.inr (Function.update_self ..)
  · refine Or.inl ⟨Function.update_of_ne hu .., ?_⟩
    rintro ⟨hactive, hflag, hreply⟩
    simp only [txRunning, node_setNode_of_ne _ _ _ hu, Function.update_of_ne hu] at hactive hflag
    refine ⟨⟨hactive, hflag, hreply⟩, ?_⟩
    intro g hg
    exact (congrArg (g ∈ ·) (Function.update_of_ne hu ..)).mpr hg

/-- An address is committed in memory while an attempt that was granted it is in its body. -/
theorem mem_eq_committed {cl : Cluster} {s : System} (hinv : Inv cl s) (h : MemInv s)
    {v address : Nat} {rw : RW} (halive : s.Alive v) (hrunning : (s.node v).phase = .running)
    (hgranted : (address, rw) ∈ s.granted v) : s.mem address = s.committed address := by
  refine h.unwritten address ?_
  intro w
  by_contra hw
  obtain ⟨halive', hgranted', i, hphase⟩ := (hinv.node w).granted_of_written hw
  have hwv := hinv.eq_of_granted halive' hgranted' halive hgranted
  rw [hwv, hrunning] at hphase
  cases hphase

theorem readInv_deref {cl : Cluster} {s : System} {v address : Nat} (hinv : Inv cl s)
    (hmem : MemInv s) (h : ReadInv s) (hphase : (s.node v).phase = .running)
    (hgranted : (address, RW.read) ∈ s.granted v) :
    ReadInv { s with
      reads := Function.update s.reads v
        (s.reads v ++ [⟨address, s.mem address, decide (s.abortFlag v = .noConflict)⟩]) } := by
  have halive : s.abortFlag v = .noConflict → s.Alive v := by
    intro hflag
    have hquiet := (hinv.node v).link.quiet_of_phase (by simp [hphase])
    exact ⟨by rw [hphase, Phase.active], Or.inl hflag, Or.inl hquiet.reply⟩
  have hcurrent : s.Alive v → ∀ r ∈ s.reads v ++
      [⟨address, s.mem address, decide (s.abortFlag v = .noConflict)⟩], r.alive = true →
      (r.address, RW.read) ∈ s.granted v ∧ r.value = s.committed r.address := by
    intro hv r hr hflag
    obtain hr | hr := List.mem_append.mp hr
    · exact h.current v hv r hr hflag
    · rw [List.mem_singleton] at hr
      subst hr
      exact ⟨hgranted, mem_eq_committed hinv hmem hv hphase hgranted⟩
  constructor
  · rintro u ⟨hactive, hflag, hreply⟩
    by_cases hu : u = v
    · subst hu
      simp only [Function.update_self]
      exact hcurrent ⟨hactive, hflag, hreply⟩
    · simp only [Function.update_of_ne hu]
      exact h.current u ⟨hactive, hflag, hreply⟩
  · intro u
    by_cases hu : u = v
    · subst hu
      simp only [Function.update_self]
      by_cases hflag : s.abortFlag u = .noConflict
      · refine ⟨s.committed, h.committed_mem, ?_⟩
        intro r hr hr'
        exact (hcurrent (halive hflag) r hr hr').2.symm
      · obtain ⟨mem, hm, hall⟩ := h.snapshot u
        refine ⟨mem, hm, ?_⟩
        intro r hr hr'
        obtain hr | hr := List.mem_append.mp hr
        · exact hall r hr hr'
        · rw [List.mem_singleton] at hr
          subst hr
          simp [hflag] at hr'
    · simp only [Function.update_of_ne hu]
      exact h.snapshot u
  · exact h.committed_mem

theorem readInv_commit {cl : Cluster} {s : System} {v i : Nat} (hinv : Inv cl s) (h : ReadInv s)
    (hphase : (s.node v).phase = .persisting i) :
    ReadInv { s.enter v (.releasing 0) with
      abortFlag := Function.update s.abortFlag v .txCommitted
      committed := persisted i (s.node v).writeSet s.committed
      history := persisted i (s.node v).writeSet s.committed :: s.history } := by
  constructor
  · rintro u ⟨hactive, hflag, hreply⟩ r hr hr'
    have hu : u ≠ v := by
      rintro rfl
      simp only [enter, node_setNode_self] at hactive
      cases hactive
    simp only [enter, node_setNode_of_ne _ _ _ hu, Function.update_of_ne hu] at hactive hflag
    have halive : s.Alive u := ⟨hactive, hflag, hreply⟩
    obtain ⟨hg, hvalue⟩ := h.current u halive r hr hr'
    refine ⟨hg, ?_⟩
    have hnone : (s.node v).written r.address = none := by
      by_contra hw
      obtain ⟨halive', hgranted', -⟩ := (hinv.node v).granted_of_written hw
      exact hu (hinv.eq_of_granted halive' hgranted' halive hg).symm
    simp only
    rw [persisted_apply, ← TxNode.written_of_persisting hphase, hnone]
    exact hvalue
  · intro u
    obtain ⟨mem, hm, hall⟩ := h.snapshot u
    exact ⟨mem, List.mem_cons_of_mem _ hm, hall⟩
  · exact List.mem_cons_self

/-! ### Every run -/

structure SnapshotInv (cl : Cluster) (s : System) : Prop where
  inv : Inv cl s
  memory : MemInv s
  read : ReadInv s

theorem readInv_act {cl : Cluster} {s s' : System} {v : Nat} {a : Action}
    (h : SnapshotInv cl s) (hstep : s.act cl v a = some s') : ReadInv s' := by
  have hacts := acts_of_act hstep
  by_cases hstart : ∃ now, a = .txStart now
  · obtain ⟨now, rfl⟩ := hstart
    cases hacts with
    | start => exact readInv_start h.read
    | abort _ ha => cases ha
    | request _ _ ha => cases ha
    | insert _ _ ha => cases ha
  by_cases hderef : ∃ address, a = .deref address
  · obtain ⟨address, rfl⟩ := hderef
    cases hacts with
    | deref hphase hgranted => exact readInv_deref h.inv h.memory h.read hphase hgranted
    | abort _ ha => cases ha
    | request _ _ ha => cases ha
    | insert _ _ ha => cases ha
  push Not at hstart hderef
  by_cases hcommit : a = .setTxCommitted
  · subst hcommit
    cases hacts with
    | abort _ ha => cases ha
    | request _ _ ha => cases ha
    | insert _ _ ha => cases ha
    | committed hphase => exact readInv_commit h.inv h.read hphase
  have hsame : s'.committed = s.committed ∧ s'.history = s.history := by
    cases hacts with
    | committed => exact absurd rfl hcommit
    | _ => exact ⟨rfl, rfl⟩
  refine h.read.frame hsame.1 hsame.2 ?_
  intro u
  refine Or.inl ⟨congrFun (hacts.reads_eq hstart hderef) u, ?_⟩
  refine alive_of_step h.inv (e := .node v a) hstep ?_
  intro now hc
  obtain ⟨-, rfl⟩ := SystemEvent.node.inj hc
  exact hstart now rfl

theorem snapshotInv_step {cl : Cluster} {s s' : System} {e : SystemEvent}
    (h : SnapshotInv cl s) (hstep : s.step cl e = some s') : SnapshotInv cl s' := by
  have hinv := inv_step h.inv hstep
  have hframe : (∀ v a, e ≠ .node v a) → s'.mem = s.mem → s'.committed = s.committed →
      s'.history = s.history → s'.node = s.node → s'.reads = s.reads → SnapshotInv cl s' := by
    intro he hmem hcommitted hhistory hnode hreads
    refine ⟨hinv, h.memory.frame hmem hcommitted fun w a => by rw [hnode], ?_⟩
    refine h.read.frame hcommitted hhistory ?_
    intro v
    exact Or.inl ⟨congrFun hreads v, alive_of_step h.inv hstep fun now => he _ _⟩
  cases e with
  | node v a =>
    exact ⟨hinv, memInv_act h.inv h.memory (acts_of_act hstep), readInv_act h hstep⟩
  | handle d v now =>
    have hhandles := handles_of_handle hstep
    refine hframe (by simp) ?_ ?_ ?_ ?_ ?_ <;> cases hhandles <;> rfl
  | abortNode d =>
    obtain ⟨sender, address, rw, conflict, victim, victims, -, ⟨-, rfl⟩ | ⟨-, rfl⟩⟩ :=
      abortNode_eq_some hstep
    · exact h
    · exact hframe (by simp) rfl rfl rfl rfl rfl
  | grant d =>
    obtain ⟨sender, address, rw, conflict, -, rfl⟩ := grant_eq_some hstep
    exact hframe (by simp) rfl rfl rfl rfl rfl

/-- **Snapshots.**  At any point of any run, the values that an attempt has read
before it was killed are the values of their addresses in one committed memory. -/
theorem consistentSnapshot (cl : Cluster) (mem : Nat → BitVec 32) {es : List SystemEvent}
    {s : System} (hexec : Exec (partialGraph (step cl)) (systemInit mem) es s) (v : Nat) :
    ∃ committed ∈ s.history, ∀ r ∈ s.reads v, r.alive = true →
      committed r.address = r.value := by
  have hinit : SnapshotInv cl (systemInit mem) :=
    ⟨inv_init cl mem, memInv_init mem, readInv_init mem⟩
  have hs := hexec.invariant (SnapshotInv cl) (fun _ _ _ h hstep => snapshotInv_step h hstep) hinit
  exact hs.read.snapshot v

/-- A request with its grant, when some victims have to be aborted first. -/
def lockExchange (v victims : Nat) : List SystemEvent :=
  [.node v (.send 0), .handle 0 v 0] ++ List.replicate victims (.abortNode 0) ++
    [.grant 0, .node v .recv]

/-- Node 1 reads 64, passes `TXCHKABORTED` for 72, is killed, and reads 72 after the killer has
committed both. -/
def killedReader : List SystemEvent :=
  [.node 1 (.txStart 0), .node 1 (.txLoad 64)] ++ lockExchange 1 0 ++
  [.node 1 (.deref 64), .node 1 (.txLoad 72), .node 0 (.txStart 0), .node 0 (.txStore 64 1),
    .node 0 (.txStore 72 1), .node 0 .txCommit, .node 0 .chkAborted] ++ lockExchange 0 1 ++
  [.node 0 .chkAborted] ++ lockExchange 0 0 ++
  [.node 0 .setTxPersisting, .node 0 .writeEntryPersist, .node 0 .writeEntryPersist,
    .node 0 .setTxCommitted, .node 0 (.rlsAll 0), .handle 0 0 0] ++ lockExchange 1 0 ++
  [.node 1 (.deref 72)]

theorem consistentSnapshot_killedReader : ∃ s : System,
    s.reads 1 = [⟨64, 0, true⟩, ⟨72, 1, false⟩] ∧
      ∃ committed ∈ s.history, ∀ r ∈ s.reads 1, r.alive = true →
        committed r.address = r.value := by
  let s := (killedReader.foldlM (step pairCluster) (systemInit fun _ => 0)).get
    (by decide +kernel)
  have hexec : Exec (partialGraph (step pairCluster)) (systemInit fun _ => 0) killedReader s :=
    exec_partialGraph_iff.mpr (Option.some_get _).symm
  exact ⟨s, by decide +kernel, consistentSnapshot pairCluster (fun _ => 0) hexec 1⟩

/-- An attempt that was killed reads a mix of old and new values. -/
theorem killed_attempt_mixes_values :
    ¬ ∀ (cl : Cluster) (mem : Nat → BitVec 32) (es : List SystemEvent) (s : System),
      cl.cfg.pgas = false → cl.cfg.cm.isReal = true →
      Exec (partialGraph (step cl)) (systemInit mem) es s →
      ∀ v, ∃ committed ∈ s.history, ∀ r ∈ s.reads v, committed r.address = r.value := by
  intro h
  let s := (killedReader.foldlM (step pairCluster) (systemInit fun _ => 0)).get
    (by decide +kernel)
  have hexec : Exec (partialGraph (step pairCluster)) (systemInit fun _ => 0) killedReader s :=
    exec_partialGraph_iff.mpr (Option.some_get _).symm
  have hmixed : ¬ ∃ committed ∈ s.history, ∀ r ∈ s.reads 1, committed r.address = r.value := by
    decide +kernel
  exact hmixed (h pairCluster (fun _ => 0) killedReader s rfl rfl hexec 1)

end System

end TM2C
