import TM2C.PgasCommit

/-!
# Transactions over several partitions are serialisable

What a node sees of its own transaction is kept phase by phase, what the service nodes hold
is kept message by message, and the partitions differ from what the committed transactions
left only by the commits on their way.  The order of the commits is the serial order.

`PgasView` is what matters to one node: its phase, the requests of its attempt, what the service
nodes hold of them, its channel and its counters.  Its predicate `Ok` goes through the phases,
with one structure for each situation (`Settled`, `Requesting`, `Granted`, `Rejected`, `Refused`,
`Releasing`), and one lemma for each step.  `Handled` describes a message at a service node by
what it does to the held requests: a grant adds one, a refusal or a release drops those of the
sender.

`Memory` is the argument.  It compares the partitions with the logical memory, the one that the
committed transactions leave when they run in the order of their commits: byte by byte these
agree, except where a commit is on its way to the partition, and there they agree after its
writes.  A commit appends the transaction to the serial order, and what other nodes have read is
not affected, because their locks exclude its writes.  When the release arrives, the partition
catches up.
-/

namespace TM2C

open Transition

/-! ### One node -/

/-- What belongs to one node. -/
structure PgasView where
  node : PgasAppNode
  buffer : Nat → Option Req
  reply : Option Conflict
  held : Nat → List TxOp
  attempt : Transaction

def PgasSystem.view (s : PgasSystem) (v : Nat) : PgasView :=
  ⟨s.node v, s.buffer v, s.reply v, s.held v, s.attempt v⟩

namespace PgasView

/-- The service nodes hold what the attempt was granted. -/
def Follows (n : PgasView) : Prop := ∀ d, n.held d = Transaction.opsAt n.attempt d

/-- `nodes_contacted` counts the requests that were granted. -/
def Counted (numDslNodes : Nat) (n : PgasView) : Prop :=
  ∀ d < numDslNodes, n.node.nodesContacted d = (n.held d).length % 2 ^ 16

structure Settled (numDslNodes : Nat) (n : PgasView) : Prop where
  buffer : ∀ d, n.buffer d = none
  reply : n.reply = none
  follows : n.Follows
  counted : n.Counted numDslNodes

/-- A request is on its way. -/
structure Requesting (numDslNodes : Nat) (n : PgasView) (d : Nat) (req : Req) : Prop where
  access : req.IsAccess
  within : d < numDslNodes
  buffer : n.buffer = Function.update (fun _ => none) d (some req)
  reply : n.reply = none
  follows : n.Follows
  counted : ∀ e < numDslNodes, n.node.nodesContacted e =
    ((n.held e).length + if e = d then 1 else 0) % 2 ^ 16

/-- A request was granted, and the node does not know yet. -/
structure Granted (numDslNodes : Nat) (n : PgasView) : Prop where
  buffer : ∀ d, n.buffer d = none
  reply : n.reply = some .noConflict
  follows : n.Follows
  counted : n.Counted numDslNodes

/-- A request was refused, and the node does not know yet. -/
structure Rejected (numDslNodes : Nat) (n : PgasView) (d : Nat) (conflict : Conflict) : Prop where
  buffer : ∀ d, n.buffer d = none
  reply : n.reply = some conflict
  refused : conflict ≠ .noConflict
  attempt : n.attempt = []
  held : n.held d = []
  counted : ∀ e < numDslNodes, e ≠ d → n.node.nodesContacted e = (n.held e).length % 2 ^ 16

structure Refused (numDslNodes : Nat) (n : PgasView) : Prop where
  buffer : ∀ d, n.buffer d = none
  reply : n.reply = none
  attempt : n.attempt = []
  counted : n.Counted numDslNodes

/-- Where the node holds something its release is on its way. -/
structure Releasing (numDslNodes : Nat) (n : PgasView) (conflict : Conflict) : Prop where
  reply : n.reply = none
  attempt : n.attempt = []
  sent : ∀ d, (n.buffer d = none ∧ n.held d = []) ∨
    (d < numDslNodes ∧ n.buffer d = some (PgasSystem.rmvNode conflict) ∧
      n.node.nodesContacted d ≠ 0)

/-- What holds of a node, phase by phase. -/
def Ok (numDslNodes : Nat) (n : PgasView) : Prop :=
  match n.node.phase with
  | .idle | .running => n.Settled numDslNodes
  | .waiting d =>
    (∃ req, n.Requesting numDslNodes d req) ∨ n.Granted numDslNodes ∨
      ∃ conflict, n.Rejected numDslNodes d conflict
  | .refused => n.Refused numDslNodes
  | .rlsAll conflict => n.Releasing numDslNodes conflict

section Phases

variable {numDslNodes : Nat} {n : PgasView} {d : Nat}

theorem Ok.settled (h : n.Ok numDslNodes)
    (hphase : n.node.phase = .idle ∨ n.node.phase = .running) : n.Settled numDslNodes := by
  unfold Ok at h
  rcases hphase with hphase | hphase <;> rwa [hphase] at h

theorem ok_of_settled (h : n.Settled numDslNodes)
    (hphase : n.node.phase = .idle ∨ n.node.phase = .running) : n.Ok numDslNodes := by
  unfold Ok
  rcases hphase with hphase | hphase <;> rwa [hphase]

theorem Ok.waiting (h : n.Ok numDslNodes) (hphase : n.node.phase = .waiting d) :
    (∃ req, n.Requesting numDslNodes d req) ∨ n.Granted numDslNodes ∨
      ∃ conflict, n.Rejected numDslNodes d conflict := by
  unfold Ok at h
  rwa [hphase] at h

theorem Ok.refused (h : n.Ok numDslNodes) (hphase : n.node.phase = .refused) :
    n.Refused numDslNodes := by
  unfold Ok at h
  rwa [hphase] at h

theorem Ok.releasing (h : n.Ok numDslNodes) {conflict : Conflict}
    (hphase : n.node.phase = .rlsAll conflict) : n.Releasing numDslNodes conflict := by
  unfold Ok at h
  rwa [hphase] at h

theorem Ok.of_buffer (h : n.Ok numDslNodes) {req : Req} (hbuffer : n.buffer d = some req) :
    (n.node.phase = .waiting d ∧ n.Requesting numDslNodes d req) ∨
      ∃ conflict, req = PgasSystem.rmvNode conflict ∧ n.node.phase = .rlsAll conflict ∧
        n.Releasing numDslNodes conflict := by
  have hnone : ¬ ∀ e, n.buffer e = none := fun hall => by
    rw [hall d] at hbuffer
    cases hbuffer
  unfold Ok at h
  split at h
  · exact absurd h.buffer hnone
  · exact absurd h.buffer hnone
  · rename_i e hphase
    rcases h with ⟨r, h⟩ | h | ⟨conflict, h⟩
    · rw [h.buffer] at hbuffer
      by_cases hd : d = e
      · subst hd
        rw [Function.update_self] at hbuffer
        obtain rfl := Option.some.inj hbuffer
        exact Or.inl ⟨hphase, h⟩
      · rw [Function.update_of_ne hd] at hbuffer
        cases hbuffer
    · exact absurd h.buffer hnone
    · exact absurd h.buffer hnone
  · exact absurd h.buffer hnone
  · rename_i conflict hphase
    rcases h.sent d with hempty | hsent
    · rw [hempty.1] at hbuffer
      cases hbuffer
    · rw [hsent.2.1] at hbuffer
      exact Or.inr ⟨conflict, (Option.some.inj hbuffer).symm, hphase, h⟩

theorem ok_granted (op : TxOp) {req : Req} {m : PgasView}
    (hphase : n.node.phase = .waiting d) (h : n.Requesting numDslNodes d req)
    (hnode : m.node = n.node) (hbuffer : m.buffer = Function.update n.buffer d none)
    (hreply : m.reply = some .noConflict)
    (hheld : m.held = Function.update n.held d (n.held d ++ [op]))
    (hattempt : m.attempt = n.attempt ++ [(d, op)]) : m.Ok numDslNodes := by
  unfold Ok
  rw [hnode, hphase]
  refine Or.inr (Or.inl ⟨?_, hreply, ?_, ?_⟩)
  · intro e
    rw [hbuffer, h.buffer]
    by_cases he : e = d
    · subst he
      exact Function.update_self ..
    · rw [Function.update_of_ne he, Function.update_of_ne he]
  · intro e
    rw [hattempt, Transaction.opsAt_concat, hheld]
    by_cases he : e = d
    · subst he
      rw [Function.update_self, if_pos rfl, h.follows e]
    · rw [Function.update_of_ne he, if_neg (Ne.symm he), List.append_nil]
      exact h.follows e
  · intro e he
    rw [hnode, h.counted e he, hheld]
    by_cases hed : e = d
    · subst hed
      rw [Function.update_self, if_pos rfl, List.length_append, List.length_singleton]
    · rw [Function.update_of_ne hed, if_neg hed, Nat.add_zero]

theorem ok_rejected {req : Req} {conflict : Conflict} {m : PgasView}
    (hphase : n.node.phase = .waiting d) (h : n.Requesting numDslNodes d req)
    (hne : conflict ≠ .noConflict) (hnode : m.node = n.node)
    (hbuffer : m.buffer = Function.update n.buffer d none) (hreply : m.reply = some conflict)
    (hheld : m.held = Function.update n.held d []) (hattempt : m.attempt = []) :
    m.Ok numDslNodes := by
  unfold Ok
  rw [hnode, hphase]
  refine Or.inr (Or.inr ⟨conflict, ?_, hreply, hne, hattempt, ?_, ?_⟩)
  · intro e
    rw [hbuffer, h.buffer]
    by_cases he : e = d
    · subst he
      exact Function.update_self ..
    · rw [Function.update_of_ne he, Function.update_of_ne he]
  · rw [hheld, Function.update_self]
  · intro e he hed
    rw [hnode, h.counted e he, hheld, Function.update_of_ne hed, if_neg hed, Nat.add_zero]

theorem ok_released {conflict : Conflict} {m : PgasView}
    (hphase : n.node.phase = .rlsAll conflict) (h : n.Releasing numDslNodes conflict)
    (hnode : m.node = n.node) (hbuffer : m.buffer = Function.update n.buffer d none)
    (hreply : m.reply = n.reply) (hheld : m.held = Function.update n.held d [])
    (hattempt : m.attempt = n.attempt) : m.Ok numDslNodes := by
  unfold Ok
  rw [hnode, hphase]
  refine ⟨hreply.trans h.reply, hattempt.trans h.attempt, fun e => ?_⟩
  rw [hbuffer, hheld, hnode]
  by_cases he : e = d
  · subst he
    rw [Function.update_self, Function.update_self]
    exact Or.inl ⟨rfl, rfl⟩
  · rw [Function.update_of_ne he, Function.update_of_ne he]
    exact h.sent e

end Phases

end PgasView

/-! ### One message -/

namespace PgasSystem

variable {cfg : Config} {numDslNodes : Nat} {s s' : PgasSystem} {d v : Nat} {req : Req}

@[simp] theorem response_eq_iff {conflict : Conflict} :
    conflict.response = RESPONSE_NO_CONFLICT ↔ conflict = .noConflict := by
  cases conflict <;> decide

theorem not_isAccess_rmvNode (conflict : Conflict) : ¬ (rmvNode conflict).IsAccess := by
  rintro (h | h | h) <;> cases h

theorem rmvNode_inj {conflict conflict' : Conflict} :
    rmvNode conflict = rmvNode conflict' ↔ conflict = conflict' := by
  cases conflict <;> cases conflict' <;> decide

/-- What comes of a message of node `v` at service node `d`. -/
inductive Handled (cfg : Config) (s : PgasSystem) (d v : Nat) (req : Req) : PgasSystem → Prop where
  | granted (srv : PgasService) (access : req.IsAccess)
      (lock : (tryLock cfg (s.service d).locks v req.address
        (req.txOp (s.service d).mem).rw).1 = .noConflict)
      (grants : (s.service d).Grants srv v (req.txOp (s.service d).mem)) :
      Handled cfg s d v req
        { s with
          service := Function.update s.service d srv
          buffer := setAt s.buffer v d none
          reply := Function.update s.reply v (some .noConflict)
          held := setAt s.held v d (s.held v d ++ [req.txOp (s.service d).mem])
          attempt := Function.update s.attempt v
            (s.attempt v ++ [(d, req.txOp (s.service d).mem)]) }
  | refused (srv : PgasService) (conflict : Conflict) (access : req.IsAccess)
      (refused : conflict ≠ .noConflict) (drops : (s.service d).Drops srv v)
      (mem : srv.mem = (s.service d).mem) :
      Handled cfg s d v req
        { s with
          service := Function.update s.service d srv
          buffer := setAt s.buffer v d none
          reply := Function.update s.reply v (some conflict)
          held := setAt s.held v d []
          attempt := Function.update s.attempt v [] }
  | released (srv : PgasService) (conflict : Conflict) (message : req = rmvNode conflict)
      (drops : (s.service d).Drops srv v)
      (mem : srv.mem = if conflict = .noConflict then
        writeSetPgasPersist (s.service d).mem ((s.service d).writeSets v)
        else (s.service d).mem) :
      Handled cfg s d v req
        { s with
          service := Function.update s.service d srv
          buffer := setAt s.buffer v d none
          held := setAt s.held v d [] }

theorem handle_grant (hreq : req.IsAccess)
    (hlock : (tryLock cfg (s.service d).locks v req.address
      (req.txOp (s.service d).mem).rw).1 = .noConflict) :
    ∃ srv, (s.service d).Grants srv v (req.txOp (s.service d).mem) ∧
      s.handle cfg d v req =
        { s with
          service := Function.update s.service d srv
          buffer := setAt s.buffer v d none
          reply := Function.update s.reply v (some .noConflict)
          held := setAt s.held v d (s.held v d ++ [req.txOp (s.service d).mem])
          attempt := Function.update s.attempt v
            (s.attempt v ++ [(d, req.txOp (s.service d).mem)]) } := by
  obtain ⟨reply, hreply, hresponse, hgrants⟩ := PgasService.dslService_grant hreq hlock
  refine ⟨_, hgrants, ?_⟩
  simp only [handle, hreply, hresponse, if_true]

theorem handled_access (hreq : req.IsAccess) :
    Handled cfg s d v req (s.handle cfg d v req) := by
  by_cases hlock : (tryLock cfg (s.service d).locks v req.address
      (req.txOp (s.service d).mem).rw).1 = .noConflict
  · obtain ⟨srv, hgrants, heq⟩ := handle_grant hreq hlock
    rw [heq]
    exact Handled.granted srv hreq hlock hgrants
  · obtain ⟨reply, hreply, hresponse, hdrops, hmem⟩ := PgasService.dslService_refuse hreq hlock
    simp only [handle, hreply, if_neg hresponse]
    exact Handled.refused _ _ hreq hresponse hdrops hmem

theorem handled_rmvNode (conflict : Conflict) :
    Handled cfg s d v (rmvNode conflict) (s.handle cfg d v (rmvNode conflict)) := by
  exact Handled.released _ conflict rfl (PgasService.drops_update _ _ _)
    (if_congr response_eq_iff rfl rfl)

/-- The view of another node is not touched. -/
theorem Handled.view_of_ne (h : Handled cfg s d v req s') {w : Nat} (hne : w ≠ v) :
    s'.view w = s.view w := by
  cases h with
  | granted srv => simp only [view, setAt_of_ne _ hne, Function.update_of_ne hne]
  | refused srv => simp only [view, setAt_of_ne _ hne, Function.update_of_ne hne]
  | released srv => simp only [view, setAt_of_ne _ hne]

/-- The node stays consistent when its message is handled. -/
theorem Handled.ok (h : Handled cfg s d v req s') (hok : (s.view v).Ok numDslNodes)
    (hbuffer : s.buffer v d = some req) : (s'.view v).Ok numDslNodes := by
  have hcases := hok.of_buffer hbuffer
  have haccess : req.IsAccess → (s.view v).node.phase = .waiting d ∧
      (s.view v).Requesting numDslNodes d req := by
    intro hreq
    rcases hcases with h | ⟨conflict, rfl, -⟩
    · exact h
    · exact absurd hreq (not_isAccess_rmvNode conflict)
  cases h with
  | granted srv hreq =>
    obtain ⟨hphase, hrequest⟩ := haccess hreq
    refine PgasView.ok_granted (req.txOp (s.service d).mem) hphase hrequest rfl ?_ ?_ ?_ ?_
    · exact setAt_self _ _ _ _
    · exact Function.update_self ..
    · exact setAt_self _ _ _ _
    · exact Function.update_self ..
  | refused srv conflict hreq hne =>
    obtain ⟨hphase, hrequest⟩ := haccess hreq
    refine PgasView.ok_rejected hphase hrequest hne rfl ?_ ?_ ?_ ?_
    · exact setAt_self _ _ _ _
    · exact Function.update_self ..
    · exact setAt_self _ _ _ _
    · exact Function.update_self ..
  | released srv conflict hmessage =>
    obtain ⟨-, hrequest⟩ | ⟨conflict', hreq, hphase, hreleasing⟩ := hcases
    · rw [hmessage] at hrequest
      exact absurd hrequest.access (not_isAccess_rmvNode conflict)
    · refine PgasView.ok_released (d := d) hphase hreleasing rfl ?_ rfl ?_ rfl
      · exact setAt_self _ _ _ _
      · exact setAt_self _ _ _ _

/-! ### The partitions -/

/-- The partitions are behind the committed transactions only where commits are on their
way, and what running attempts read is what the committed transactions left. -/
structure Memory (s : PgasSystem) : Prop where
  serial : Serial.Valid Transaction.ReadsFrom Transaction.leave (fun _ _ => 0) s.committed
  settled : ∀ d x, (∀ w, s.Commits w d → ∀ op ∈ s.held w d, ¬ op.Covers x) →
    (s.service d).mem x = s.logical d x
  pending : ∀ d w x, s.Commits w d → (∃ op ∈ s.held w d, op.Covers x) →
    writes (s.service d).mem (s.held w d) x = s.logical d x
  reads : ∀ v, Transaction.ReadsFrom s.logical (s.attempt v)

theorem commits_iff {x : Option Req} (hbuffer : s'.buffer = setAt s.buffer v d x)
    (hv : ¬ s.Commits v d) (hx : x ≠ some (rmvNode .noConflict)) (w e : Nat) :
    s'.Commits w e ↔ s.Commits w e := by
  unfold Commits
  rw [hbuffer, setAt]
  split
  · rename_i heq
    obtain ⟨rfl, rfl⟩ := heq
    exact iff_of_false hx hv
  · exact Iff.rfl

namespace Memory

/-- Nothing is committed and no commit arrives. -/
theorem frame (h : s.Memory) (hcommitted : s'.committed = s.committed)
    (hmem : ∀ d, (s'.service d).mem = (s.service d).mem)
    (hcommits : ∀ w d, s'.Commits w d ↔ s.Commits w d)
    (hheld : ∀ w d, s.Commits w d → s'.held w d = s.held w d)
    (hreads : ∀ v, Transaction.ReadsFrom s.logical (s'.attempt v)) : s'.Memory := by
  have hlogical : s'.logical = s.logical := congrArg (Serial.after _ _) hcommitted
  refine ⟨hcommitted ▸ h.serial, ?_, ?_, hlogical ▸ hreads⟩
  · intro d x hx
    rw [hmem, hlogical]
    apply h.settled
    intro w hw
    rw [← hheld w d hw]
    exact hx w ((hcommits w d).mpr hw)
  · intro d w x hw hx
    rw [hcommits] at hw
    rw [hheld w d hw] at hx ⊢
    rw [hmem, hlogical]
    exact h.pending d w x hw hx

/-- An attempt that ends has read nothing. -/
theorem reads_update (h : s.Memory) (v w : Nat) :
    Transaction.ReadsFrom s.logical (Function.update s.attempt v [] w) := by
  by_cases hw : w = v
  · subst hw
    rw [Function.update_self]
    intro p hp
    cases hp
  · rw [Function.update_of_ne hw]
    exact h.reads w

/-- A request that is granted reads what the committed transactions left. -/
theorem reads_txOp (h : s.Memory) (hnew : ∀ w, s.Commits w d → ∀ x ∈ s.held w d,
    ¬ (req.txOp (s.service d).mem).Clash x) :
    (req.txOp (s.service d).mem).ReadsFrom (s.logical d) := by
  apply (req.readsFrom_txOp (s.service d).mem).congr
  intro k hk
  apply h.settled
  intro w hw x hx
  exact TxOp.not_covers (hnew w hw x hx) hk

/-- A commit arrives. -/
theorem persisted (h : s.Memory) (hv : s.Commits v d)
    (hapart : ∀ w u x y, w ≠ u → x ∈ s.held w d → y ∈ s.held u d → ¬ x.Clash y)
    (hcommitted : s'.committed = s.committed) (hattempt : s'.attempt = s.attempt)
    (hmem : (s'.service d).mem = writes (s.service d).mem (s.held v d))
    (hmem' : ∀ e ≠ d, (s'.service e).mem = (s.service e).mem)
    (hbuffer : s'.buffer = setAt s.buffer v d none) (hheld : s'.held = setAt s.held v d []) :
    s'.Memory := by
  have hlogical : s'.logical = s.logical := congrArg (Serial.after _ _) hcommitted
  have hcommits : ∀ w e, s'.Commits w e ↔ s.Commits w e ∧ ¬ (w = v ∧ e = d) := by
    intro w e
    unfold Commits
    rw [hbuffer, setAt]
    split
    · rename_i heq
      simp [heq]
    · rename_i hne
      simp [hne]
  have hheld' : ∀ w e, ¬ (w = v ∧ e = d) → s'.held w e = s.held w e := by
    intro w e hne
    rw [hheld, setAt, if_neg hne]
  refine ⟨hcommitted ▸ h.serial, ?_, ?_, fun w => by rw [hlogical, hattempt]; exact h.reads w⟩
  · intro e x hx
    have hothers : ∀ w, ¬ (w = v ∧ e = d) → s.Commits w e → ∀ op ∈ s.held w e, ¬ op.Covers x := by
      intro w hne hw
      rw [← hheld' w e hne]
      exact hx w ((hcommits w e).mpr ⟨hw, hne⟩)
    rw [hlogical]
    by_cases hed : e = d
    · subst hed
      rw [hmem]
      by_cases hcovers : ∃ op ∈ s.held v e, op.Covers x
      · exact h.pending e v x hv hcovers
      · have hnone : ∀ op ∈ s.held v e, ¬ op.Covers x := fun op hop hc => hcovers ⟨op, hop, hc⟩
        rw [writes_outside hnone]
        apply h.settled
        intro w hw
        by_cases hwv : w = v
        · exact hwv ▸ hnone
        · exact hothers w (fun hc => hwv hc.1) hw
    · rw [hmem' e hed]
      apply h.settled
      intro w
      exact hothers w fun hc => hed hc.2
  · intro e w x hw hx
    obtain ⟨hw, hne⟩ := (hcommits w e).mp hw
    rw [hheld' w e hne] at hx ⊢
    rw [hlogical, ← h.pending e w x hw hx]
    by_cases hed : e = d
    · -- the write that covers the byte hides what was there
      apply writes_congr
      intro hnone
      obtain ⟨op, hop, hc⟩ := hx
      exact absurd hc (hnone op hop)
    · rw [hmem' e hed]

/-- A transaction commits. -/
theorem commit (h : s.Memory) (hfollows : (s.view v).Follows) (hquiet : ∀ d, s.buffer v d = none)
    (hothers : ∀ w ≠ v, ∀ p ∈ s.attempt w, p.2 ∈ s.held w p.1)
    (hapart : ∀ d w u x y, w ≠ u → x ∈ s.held w d → y ∈ s.held u d → ¬ x.Clash y)
    (hcommitted : s'.committed = s.committed ++ [s.attempt v])
    (hattempt : s'.attempt = Function.update s.attempt v []) (hservice : s'.service = s.service)
    (hheld : s'.held = s.held) (hcommits : ∀ w ≠ v, ∀ d, s'.Commits w d ↔ s.Commits w d)
    (hsent : ∀ d, s.held v d ≠ [] → s'.Commits v d) : s'.Memory := by
  -- the new serial memory has the stores that the partitions hold for `v`
  have hlogical : ∀ d, s'.logical d = writes (s.logical d) (s.held v d) := by
    intro d
    unfold logical
    rw [hcommitted, Serial.after_concat, Transaction.leave_eq]
    exact congrArg (writes _) (hfollows d).symm
  have hv : ∀ d, ¬ s.Commits v d := fun d hc => by
    rw [Commits, hquiet d] at hc
    cases hc
  constructor
  case serial =>
    rw [hcommitted]
    exact (Serial.valid_concat _ _).mpr ⟨h.serial, h.reads v⟩
  case settled =>
    intro d x hx
    rw [hservice, hlogical]
    rw [hheld] at hx
    have hnone : ∀ op ∈ s.held v d, ¬ op.Covers x := by
      intro op hop
      exact hx v (hsent d (List.ne_nil_of_mem hop)) op hop
    rw [writes_outside hnone]
    apply h.settled
    intro w hw
    have hwv : w ≠ v := fun hc => hv d (hc ▸ hw)
    exact hx w ((hcommits w hwv d).mpr hw)
  case pending =>
    intro d w x hw hx
    rw [hservice, hlogical]
    rw [hheld] at hx ⊢
    obtain ⟨op, hop, hcovers⟩ := hx
    by_cases hwv : w = v
    · subst hwv
      apply writes_congr
      intro hnone
      exact absurd hcovers (hnone op hop)
    · have hnone : ∀ y ∈ s.held v d, ¬ y.Covers x := by
        intro y hy
        exact hcovers.not_covers (hapart d w v op y hwv hop hy)
      rw [writes_outside hnone]
      exact h.pending d w x ((hcommits w hwv d).mp hw) ⟨op, hop, hcovers⟩
  case reads =>
    intro w p hp
    rw [hattempt] at hp
    by_cases hwv : w = v
    · subst hwv
      rw [Function.update_self] at hp
      cases hp
    · rw [Function.update_of_ne hwv] at hp
      apply (h.reads w p hp).congr
      intro k hk
      -- another node has a lock on what it read, so `v` has not written there
      rw [hlogical, writes_outside]
      intro y hy
      exact TxOp.not_covers (hapart p.1 w v p.2 y hwv (hothers w hwv p hp) hy) hk

end Memory

/-! ### The invariant -/

structure Inv (cfg : Config) (numDslNodes : Nat) (s : PgasSystem) : Prop where
  ok : ∀ v, (s.view v).Ok numDslNodes
  numbered : ∀ v, (s.node v).phase ≠ .idle → v < cfg.numUes
  keeps : ∀ d, (s.service d).Keeps cfg fun w => s.held w d
  within : ∀ v d, s.held v d ≠ [] → d < numDslNodes
  memory : s.Memory

theorem inv_init : init.Inv cfg numDslNodes where
  ok _ := ⟨fun _ => rfl, rfl, fun _ => rfl, fun _ _ => rfl⟩
  numbered _ h := absurd rfl h
  keeps _ := by
    refine ⟨fun w x hx => ?_, fun w => rfl, fun w u x y hne hx => ?_, fun w hw => absurd rfl hw⟩
    · cases hx
    · cases hx
  within _ _ h := absurd rfl h
  memory := by
    refine ⟨trivial, fun _ _ _ => rfl, fun d w x hw => ?_, fun v p hp => ?_⟩
    · cases hw
    · cases hp

namespace Inv

/-- A commit that is on its way belongs to a node that releases. -/
theorem releasing_of_commits (h : s.Inv cfg numDslNodes) (hv : s.Commits v d) :
    (s.node v).phase = .rlsAll .noConflict := by
  obtain ⟨-, hrequest⟩ | ⟨conflict, hreq, hphase, -⟩ := (h.ok v).of_buffer (d := d) hv
  · exact absurd hrequest.access (not_isAccess_rmvNode .noConflict)
  · obtain rfl := rmvNode_inj.mp hreq
    exact hphase

/-- Only application nodes leave the idle phase. -/
theorem lt_numUes (h : s.Inv cfg numDslNodes) {phase : PgasPhase}
    (hphase : (s.node v).phase = phase) (hne : phase ≠ .idle) : v < cfg.numUes :=
  h.numbered v (hphase ▸ hne)

theorem not_commits (h : s.Inv cfg numDslNodes) {phase : PgasPhase}
    (hphase : (s.node v).phase = phase) (hne : phase ≠ .rlsAll .noConflict) : ¬ s.Commits v d :=
  fun hc => hne (hphase.symm.trans (h.releasing_of_commits hc))

/-- What an attempt was granted is held. -/
theorem mem_held (h : s.Inv cfg numDslNodes) {p : Nat × TxOp} (hp : p ∈ s.attempt v) :
    p.2 ∈ s.held v p.1 := by
  have hfollows : (s.view v).attempt ≠ [] → (s.view v).Follows := by
    intro hne
    have hok := h.ok v
    unfold PgasView.Ok at hok
    split at hok
    · exact hok.follows
    · exact hok.follows
    · rcases hok with ⟨req, hok⟩ | hok | ⟨conflict, hok⟩
      · exact hok.follows
      · exact hok.follows
      · exact absurd hok.attempt hne
    · exact absurd hok.attempt hne
    · exact absurd hok.attempt hne
  have heq : s.held v p.1 = Transaction.opsAt (s.attempt v) p.1 :=
    hfollows (List.ne_nil_of_mem hp) p.1
  rw [heq]
  exact Transaction.mem_opsAt.mpr hp

/-- A step of one node that changes neither what is held nor a service node. -/
theorem frame (h : s.Inv cfg numDslNodes) (v : Nat) (hview : ∀ w ≠ v, s'.view w = s.view w)
    (hok : (s'.view v).Ok numDslNodes) (hnumbered : (s'.node v).phase ≠ .idle → v < cfg.numUes)
    (hservice : s'.service = s.service) (hheld : s'.held = s.held) (hmemory : s'.Memory) :
    s'.Inv cfg numDslNodes where
  ok w := by
    by_cases hw : w = v
    · exact hw ▸ hok
    · rw [hview w hw]
      exact h.ok w
  numbered w hphase := by
    by_cases hw : w = v
    · subst hw
      exact hnumbered hphase
    · have hnode : s'.node w = s.node w := congrArg PgasView.node (hview w hw)
      rw [hnode] at hphase
      exact h.numbered w hphase
  keeps d := by
    rw [hservice, hheld]
    exact h.keeps d
  within w d hw := by
    rw [hheld] at hw
    exact h.within w d hw
  memory := hmemory

/-- A step that only moves one node on. -/
theorem setNode (h : s.Inv cfg numDslNodes) (n : PgasAppNode) (reply : Option Conflict)
    (hok : ({ s.view v with node := n, reply := reply } : PgasView).Ok numDslNodes)
    (hnumbered : n.phase ≠ .idle → v < cfg.numUes) :
    ({ s.setNode v n with reply := Function.update s.reply v reply } : PgasSystem).Inv cfg
      numDslNodes := by
  refine h.frame v ?_ ?_ ?_ rfl rfl ?_
  · intro w hw
    simp only [view, PgasSystem.setNode, Function.update_of_ne hw]
  · simpa only [view, PgasSystem.setNode, Function.update_self] using hok
  · intro hphase
    simp only [PgasSystem.setNode, Function.update_self] at hphase
    exact hnumbered hphase
  · exact h.memory.frame rfl (fun _ => rfl) (fun _ _ => Iff.rfl) (fun _ _ _ => rfl)
      h.memory.reads

theorem txStart (h : s.Inv cfg numDslNodes)
    (hstep : PgasSystem.step cfg numDslNodes s (.txStart v) = some s') :
    s'.Inv cfg numDslNodes := by
  simp only [PgasSystem.step] at hstep
  split at hstep
  · rename_i hguard
    obtain rfl := Option.some.inj hstep
    have hok := (h.ok v).settled (Or.inl hguard.2)
    have hnew := h.setNode (v := v) { s.node v with phase := .running } (s.reply v)
      ⟨hok.buffer, hok.reply, hok.follows, hok.counted⟩ (fun _ => hguard.1)
    rwa [Function.update_eq_self] at hnew
  · cases hstep

theorem request (h : s.Inv cfg numDslNodes) {type : ReqType} {address : Nat} {value : BitVec 64}
    (hstep : PgasSystem.step cfg numDslNodes s (.request v type address value) = some s') :
    s'.Inv cfg numDslNodes := by
  simp only [PgasSystem.step] at hstep
  split at hstep
  · rename_i hguard
    obtain rfl := Option.some.inj hstep
    obtain ⟨hphase, hwithin, htype⟩ := hguard
    have hok := (h.ok v).settled (Or.inr hphase)
    have hnone : s.buffer v = fun _ => none := funext hok.buffer
    refine h.frame v ?_ ?_ ?_ rfl rfl ?_
    · intro w hw
      simp only [view, PgasSystem.setNode, Function.update_of_ne hw, setAt_of_ne _ hw]
    · simp only [view, PgasSystem.setNode, Function.update_self, setAt_self, hnone]
      refine Or.inl ⟨⟨type, internOffset address, value, 0⟩, htype, hwithin, rfl, hok.reply,
        hok.follows, fun e he => ?_⟩
      have hcount := hok.counted e he
      simp only [view] at hcount ⊢
      by_cases hed : e = getResponsibleNode address
      · rw [if_pos hed, ← hed, Function.update_self, hcount, Nat.mod_add_mod]
      · rw [if_neg hed, Function.update_of_ne hed, hcount, Nat.add_zero]
    · exact fun _ => h.lt_numUes hphase nofun
    · have hv : ¬ s.Commits v (getResponsibleNode address) := h.not_commits hphase nofun
      refine h.memory.frame rfl (fun _ => rfl) (commits_iff rfl hv ?_) (fun _ _ _ => rfl)
        h.memory.reads
      intro hc
      have hreq := congrArg Req.type (Option.some.inj hc)
      obtain rfl | rfl | rfl := htype <;> cases hreq
  · cases hstep

theorem recvb (h : s.Inv cfg numDslNodes)
    (hstep : PgasSystem.step cfg numDslNodes s (.recvb v) = some s') :
    s'.Inv cfg numDslNodes := by
  simp only [PgasSystem.step] at hstep
  split at hstep
  · rename_i d response hphase hreply
    have hv : v < cfg.numUes := h.lt_numUes hphase nofun
    have hreply' : (s.view v).reply = some response := hreply
    obtain ⟨req, hok⟩ | hok | ⟨conflict, hok⟩ := (h.ok v).waiting hphase
    · cases hreply'.symm.trans hok.reply
    · obtain rfl := Option.some.inj (hreply'.symm.trans hok.reply)
      simp only [ne_eq, not_true_eq_false, if_false] at hstep
      obtain rfl := Option.some.inj hstep
      exact h.setNode _ none ⟨hok.buffer, rfl, hok.follows, hok.counted⟩ fun _ => hv
    · obtain rfl := Option.some.inj (hreply'.symm.trans hok.reply)
      rw [if_pos hok.refused] at hstep
      obtain rfl := Option.some.inj hstep
      refine h.setNode _ none ⟨hok.buffer, rfl, hok.attempt, fun e he => ?_⟩ fun _ => hv
      by_cases hed : e = d
      · subst hed
        simp only [Function.update_self, hok.held, List.length_nil, Nat.zero_mod]
      · simp only [Function.update_of_ne hed]
        exact hok.counted e he hed
  · cases hstep

theorem processed (h : s.Inv cfg numDslNodes)
    (hstep : PgasSystem.step cfg numDslNodes s (.processed v d) = some s') :
    s'.Inv cfg numDslNodes := by
  simp only [PgasSystem.step] at hstep
  split at hstep
  · rename_i conflict hphase
    split at hstep
    · rename_i hguard
      obtain rfl := Option.some.inj hstep
      have hok := (h.ok v).releasing hphase
      have hnew := h.setNode (v := v)
        { s.node v with nodesContacted := Function.update (s.node v).nodesContacted d 0 }
        (s.reply v) ?_ (fun hne => h.numbered v hne)
      · rwa [Function.update_eq_self] at hnew
      · simp only [PgasView.Ok, hphase]
        refine ⟨hok.reply, hok.attempt, fun e => ?_⟩
        obtain hempty | ⟨hwithin, hsent, hcontacted⟩ := hok.sent e
        · exact Or.inl hempty
        · have hed : e ≠ d := by
            rintro rfl
            exact absurd (hguard.2.symm.trans hsent) nofun
          refine Or.inr ⟨hwithin, hsent, ?_⟩
          simp only [Function.update_of_ne hed]
          exact hcontacted
    · cases hstep
  · cases hstep

theorem released (h : s.Inv cfg numDslNodes)
    (hstep : PgasSystem.step cfg numDslNodes s (.released v) = some s') :
    s'.Inv cfg numDslNodes := by
  simp only [PgasSystem.step] at hstep
  split at hstep
  · rename_i conflict hphase
    split at hstep
    · rename_i hguard
      obtain rfl := Option.some.inj hstep
      have hok := (h.ok v).releasing hphase
      have hempty : ∀ d, (s.view v).buffer d = none ∧ (s.view v).held d = [] := by
        intro d
        obtain hempty | ⟨hwithin, -, hcontacted⟩ := hok.sent d
        · exact hempty
        · exact absurd (hguard d hwithin) hcontacted
      have hsettled : (s.view v).Settled numDslNodes := by
        refine ⟨fun d => (hempty d).1, hok.reply, fun d => ?_, fun d hd => ?_⟩
        · rw [(hempty d).2, hok.attempt]
          rfl
        · rw [(hempty d).2]
          exact hguard d hd
      have hnew := h.setNode (v := v)
        { s.node v with phase := if conflict = .noConflict then .idle else .running }
        (s.reply v) ?_ (fun _ => h.lt_numUes hphase nofun)
      · rwa [Function.update_eq_self] at hnew
      · refine PgasView.ok_of_settled
          ⟨hsettled.buffer, hsettled.reply, hsettled.follows, hsettled.counted⟩ ?_
        by_cases hc : conflict = .noConflict
        · exact Or.inl (if_pos hc)
        · exact Or.inr (if_neg hc)
    · cases hstep
  · cases hstep

theorem rlsAll (h : s.Inv cfg numDslNodes) {conflict : Conflict}
    (hcounts : s.CountsAndLocks cfg numDslNodes (.rlsAll v conflict))
    (hstep : PgasSystem.step cfg numDslNodes s (.rlsAll v conflict) = some s') :
    s'.Inv cfg numDslNodes := by
  simp only [PgasSystem.step] at hstep
  split at hstep
  · rename_i hguard
    obtain rfl := Option.some.inj hstep
    have hv : v < cfg.numUes := by
      rcases hguard with hphase | ⟨hphase, -⟩
      · exact h.lt_numUes hphase nofun
      · exact h.lt_numUes hphase nofun
    have hquiet : (∀ d, s.buffer v d = none) ∧ s.reply v = none ∧
        (s.view v).Counted numDslNodes := by
      rcases hguard with hphase | ⟨hphase, -⟩
      · have hok := (h.ok v).settled (Or.inr hphase)
        exact ⟨hok.buffer, hok.reply, hok.counted⟩
      · have hok := (h.ok v).refused hphase
        exact ⟨hok.buffer, hok.reply, hok.counted⟩
    obtain ⟨hnone, hreply, hcounted⟩ := hquiet
    -- where something is held the counter is positive, and the message is sent
    have hsent : ∀ d, s.held v d ≠ [] → d < numDslNodes ∧ (s.node v).nodesContacted d > 0 := by
      intro d hheld
      have hwithin := h.within v d hheld
      refine ⟨hwithin, Nat.pos_of_ne_zero fun hzero => hheld (hcounts d hwithin ?_)⟩
      exact (hcounted d hwithin).symm.trans hzero
    -- the node, the others, and the memory
    refine h.frame v ?_ ?_ (fun _ => hv) rfl rfl ?_
    · intro w hw
      simp only [view, PgasSystem.setNode, Function.update_of_ne hw, hw, false_and, if_false]
    · simp only [view, PgasSystem.setNode, Function.update_self, PgasView.Ok, true_and]
      refine ⟨hreply, rfl, fun d => ?_⟩
      by_cases hd : d < numDslNodes ∧ (s.node v).nodesContacted d > 0
      · exact Or.inr ⟨hd.1, if_pos hd, Nat.ne_of_gt hd.2⟩
      · refine Or.inl ⟨(if_neg hd).trans (hnone d), ?_⟩
        by_contra hheld
        exact hd (hsent d hheld)
    · by_cases hc : conflict = .noConflict
      · -- the commit takes effect here, before any of its messages is handled
        subst hc
        have hok : (s.view v).Settled numDslNodes := by
          rcases hguard with hphase | ⟨-, hne⟩
          · exact (h.ok v).settled (Or.inr hphase)
          · exact absurd rfl hne
        have hcommitted : (if Conflict.noConflict = .noConflict then s.committed ++ [s.attempt v]
          else s.committed) = s.committed ++ [s.attempt v] := if_pos rfl
        refine h.memory.commit hok.follows hnone (fun w _ p hp => h.mem_held hp)
          (fun d => (h.keeps d).apart) hcommitted rfl rfl rfl (fun w hw d => ?_) (fun d hd => ?_)
        · simp only [Commits, hw, false_and, if_false]
        · exact if_pos ⟨rfl, hsent d hd⟩
      · refine h.memory.frame (if_neg hc) (fun _ => rfl) (fun w d => ?_) (fun _ _ _ => rfl)
          (h.memory.reads_update v)
        simp only [Commits]
        split
        · rename_i heq
          obtain ⟨rfl, -⟩ := heq
          rw [hnone d, Option.some.injEq, rmvNode_inj]
          exact iff_of_false hc (fun hnew => by cases hnew)
        · exact Iff.rfl
  · cases hstep

/-- A step of a service node, seen from the nodes and the other service nodes. -/
theorem service (h : s.Inv cfg numDslNodes) {srv : PgasService} {ops : List TxOp}
    (hview : ∀ w ≠ v, s'.view w = s.view w) (hok : (s'.view v).Ok numDslNodes)
    (hnode : s'.node = s.node) (hservice : s'.service = Function.update s.service d srv)
    (hheld : s'.held = setAt s.held v d ops) (hwithin : d < numDslNodes)
    (hkeeps : srv.Keeps cfg (Function.update (fun w => s.held w d) v ops))
    (hmemory : s'.Memory) : s'.Inv cfg numDslNodes where
  ok w := by
    by_cases hw : w = v
    · exact hw ▸ hok
    · rw [hview w hw]
      exact h.ok w
  numbered w := by
    rw [hnode]
    exact h.numbered w
  keeps e := by
    rw [hservice, hheld]
    by_cases hed : e = d
    · subst hed
      rw [Function.update_self, setAt_column]
      exact hkeeps
    · rw [Function.update_of_ne hed, setAt_column_of_ne _ _ hed]
      exact h.keeps e
  within w e hw := by
    rw [hheld] at hw
    by_cases hed : e = d
    · exact hed ▸ hwithin
    · apply h.within w e
      simpa only [setAt, hed, and_false, if_false] using hw
  memory := hmemory

theorem handled (h : s.Inv cfg numDslNodes) (hreal : cfg.cm.isReal = false)
    (hhandled : Handled cfg s d v req s') (hbuffer : s.buffer v d = some req)
    (hwithin : d < numDslNodes) (hlocks : s.CountsAndLocks cfg numDslNodes (.handle d v)) :
    s'.Inv cfg numDslNodes := by
  have hok := hhandled.ok (h.ok v) hbuffer
  have hview := fun w hw => hhandled.view_of_ne (w := w) hw
  have hnone : (none : Option Req) ≠ some (rmvNode .noConflict) := nofun
  have hrequest : req.IsAccess → (s.node v).phase = .waiting d := by
    intro haccess
    obtain ⟨hphase, -⟩ | ⟨conflict, rfl, -⟩ := (h.ok v).of_buffer (d := d) hbuffer
    · exact hphase
    · exact absurd haccess (not_isAccess_rmvNode conflict)
  -- only a committed release changes a partition, and only `v` holds anything new
  have hmem : ∀ {srv : PgasService}, srv.mem = (s.service d).mem →
      ∀ e, (Function.update s.service d srv e).mem = (s.service e).mem := by
    intro srv hsrv e
    by_cases hed : e = d
    · rw [hed, Function.update_self, hsrv]
    · rw [Function.update_of_ne hed]
  have hheld : ¬ s.Commits v d → ∀ {ops : List TxOp} (w e : Nat), s.Commits w e →
      setAt s.held v d ops w e = s.held w e := by
    intro hnot ops w e hw
    refine if_neg ?_
    rintro ⟨rfl, rfl⟩
    exact hnot hw
  cases hhandled with
  | granted srv haccess hlock hgrants =>
    have hphase := hrequest haccess
    have hnot : ¬ s.Commits v d := h.not_commits hphase nofun
    have hv : v < cfg.numUes := h.lt_numUes hphase nofun
    have htype : req.type ≠ .rmvNode := by
      intro hc
      rcases haccess with ht | ht | ht <;> cases hc.symm.trans ht
    have hclash := hlocks req hbuffer htype hlock
    have hnew := (h.keeps d).grant hreal hv (by rwa [Req.address_txOp]) hclash hgrants
    refine h.service hview hok rfl rfl rfl hwithin hnew ?_
    refine h.memory.frame rfl (hmem hgrants.mem) (commits_iff rfl hnot hnone) (hheld hnot) ?_
    -- what is read now is what the committed transactions left: whoever is still to persist a
    -- byte of it would hold a lock against this one
    intro w p hp
    by_cases hw : w = v
    · subst hw
      simp only [Function.update_self, List.mem_append, List.mem_singleton] at hp
      rcases hp with hp | rfl
      · exact h.memory.reads w p hp
      · apply h.memory.reads_txOp
        intro u hu x hx
        have huw : u ≠ w := fun hc => hnot (hc ▸ hu)
        apply hnew.apart w u _ x (Ne.symm huw)
        · rw [Function.update_self]
          exact List.mem_append_right _ List.mem_cons_self
        · rwa [Function.update_of_ne huw]
    · simp only [Function.update_of_ne hw] at hp
      exact h.memory.reads w p hp
  | refused srv conflict haccess hne hdrops hsrv =>
    have hnot : ¬ s.Commits v d := h.not_commits (hrequest haccess) nofun
    refine h.service hview hok rfl rfl rfl hwithin ((h.keeps d).drop hdrops) ?_
    exact h.memory.frame rfl (hmem hsrv) (commits_iff rfl hnot hnone) (hheld hnot)
      (h.memory.reads_update v)
  | released srv conflict hmessage hdrops hsrv =>
    refine h.service hview hok rfl rfl rfl hwithin ((h.keeps d).drop hdrops) ?_
    by_cases hc : conflict = .noConflict
    · -- the partition catches up with the commit
      subst hc
      rw [if_pos rfl, writeSetPgasPersist_eq ((h.keeps d).buffered v)] at hsrv
      refine h.memory.persisted (hbuffer.trans (congrArg some hmessage)) (h.keeps d).apart rfl rfl
        ?_ (fun e hed => ?_) rfl rfl
      · simp only [Function.update_self, hsrv]
      · simp only [Function.update_of_ne hed]
    · have hnot : ¬ s.Commits v d := by
        intro hcommits
        have heq := Option.some.inj (hbuffer.symm.trans hcommits)
        exact hc (rmvNode_inj.mp (hmessage.symm.trans heq))
      rw [if_neg hc] at hsrv
      exact h.memory.frame rfl (hmem hsrv) (commits_iff rfl hnot hnone) (hheld hnot)
        h.memory.reads

/-- The message of a node at a service node is one of the two kinds. -/
theorem handled_handle (h : s.Inv cfg numDslNodes) (hbuffer : s.buffer v d = some req) :
    d < numDslNodes ∧ Handled cfg s d v req (s.handle cfg d v req) := by
  obtain ⟨-, hrequest⟩ | ⟨conflict, rfl, -, hreleasing⟩ := (h.ok v).of_buffer (d := d) hbuffer
  · exact ⟨hrequest.within, handled_access hrequest.access⟩
  · refine ⟨?_, handled_rmvNode conflict⟩
    obtain hempty | hsent := hreleasing.sent d
    · exact absurd (hempty.1.symm.trans hbuffer) nofun
    · exact hsent.1

theorem step (h : s.Inv cfg numDslNodes) (hreal : cfg.cm.isReal = false) {e : PgasEvent}
    (hguard : s.CountsAndLocks cfg numDslNodes e)
    (hstep : PgasSystem.step cfg numDslNodes s e = some s') : s'.Inv cfg numDslNodes := by
  cases e with
  | txStart v => exact h.txStart hstep
  | request v type address value => exact h.request hstep
  | recvb v => exact h.recvb hstep
  | rlsAll v conflict => exact h.rlsAll hguard hstep
  | processed v d => exact h.processed hstep
  | released v => exact h.released hstep
  | handle d v =>
    simp only [PgasSystem.step] at hstep
    split at hstep
    · cases hstep
    · rename_i req hbuffer
      obtain rfl := Option.some.inj hstep
      obtain ⟨hwithin, hhandled⟩ := h.handled_handle hbuffer
      exact h.handled hreal hhandled hbuffer hwithin hguard

theorem atomic (h : s.Inv cfg numDslNodes) : s.Atomic where
  serialisable := h.memory.serial.serialisable
  unchanged d hd := by
    funext x
    exact h.memory.settled d x fun w hw => absurd hw (hd w)

end Inv

/-- Service nodes act when they handle messages. -/
theorem service_of_step {e : PgasEvent} (hevent : ∀ d v, e ≠ .handle d v)
    (hstep : step cfg numDslNodes s e = some s') : s'.service = s.service := by
  cases e with
  | handle d v => exact absurd rfl (hevent d v)
  | txStart v =>
    obtain ⟨-, h⟩ := Option.ite_none_right_eq_some.mp hstep
    obtain rfl := Option.some.inj h
    rfl
  | request v type address value =>
    obtain ⟨-, h⟩ := Option.ite_none_right_eq_some.mp hstep
    obtain rfl := Option.some.inj h
    rfl
  | rlsAll v conflict =>
    obtain ⟨-, h⟩ := Option.ite_none_right_eq_some.mp hstep
    obtain rfl := Option.some.inj h
    rfl
  | recvb v =>
    simp only [step] at hstep
    split at hstep
    · split at hstep
      · obtain rfl := Option.some.inj hstep
        rfl
      · obtain rfl := Option.some.inj hstep
        rfl
    · cases hstep
  | processed v d =>
    simp only [step] at hstep
    split at hstep
    · obtain ⟨-, h⟩ := Option.ite_none_right_eq_some.mp hstep
      obtain rfl := Option.some.inj h
      rfl
    · cases hstep
  | released v =>
    simp only [step] at hstep
    split at hstep
    · obtain ⟨-, h⟩ := Option.ite_none_right_eq_some.mp hstep
      obtain rfl := Option.some.inj h
      rfl
    · cases hstep

/-- A partition changes when a commit arrives there, and never else. -/
theorem commits_of_mem_ne (h : s.Inv cfg numDslNodes) {e : PgasEvent}
    (hstep : step cfg numDslNodes s e = some s')
    (hne : (s'.service d).mem ≠ (s.service d).mem) : ∃ v, e = .handle d v ∧ s.Commits v d := by
  by_cases hevent : ∀ d v, e ≠ .handle d v
  · rw [service_of_step hevent hstep] at hne
    exact absurd rfl hne
  · obtain ⟨e', v, rfl⟩ : ∃ d v, e = .handle d v := by simpa using hevent
    simp only [step] at hstep
    split at hstep
    · cases hstep
    · rename_i req hbuffer
      obtain rfl := Option.some.inj hstep
      obtain ⟨-, hhandled⟩ := h.handled_handle hbuffer
      generalize s.handle cfg e' v req = s' at hne hhandled
      have hd : d = e' := by
        by_contra hd
        cases hhandled with
        | granted srv => exact hne (congrArg PgasService.mem (Function.update_of_ne hd ..))
        | refused srv => exact hne (congrArg PgasService.mem (Function.update_of_ne hd ..))
        | released srv => exact hne (congrArg PgasService.mem (Function.update_of_ne hd ..))
      subst hd
      cases hhandled with
      | granted srv haccess hlock hgrants =>
        simp only [Function.update_self] at hne
        exact absurd hgrants.mem hne
      | refused srv conflict haccess hc hdrops hmem =>
        simp only [Function.update_self] at hne
        exact absurd hmem hne
      | released srv conflict hmessage hdrops hmem =>
        simp only [Function.update_self] at hne
        by_cases hc : conflict = .noConflict
        · exact ⟨v, rfl, hbuffer.trans (congrArg some (hc ▸ hmessage))⟩
        · rw [if_neg hc] at hmem
          exact absurd hmem hne

theorem inv_run (hreal : cfg.cm.isReal = false) {es : List PgasEvent}
    (hrun : Exec (restrict (CountsAndLocks cfg numDslNodes) (partialGraph (step cfg numDslNodes)))
      init es s) : s.Inv cfg numDslNodes :=
  hrun.invariant (Inv cfg numDslNodes) (fun _ _ _ h hstep => h.step hreal hstep.1 hstep.2) inv_init

/-- **Commits over several service nodes are atomic**: in every run without preemption in
which the counters count and the locks lock, the committed transactions are serialisable,
and a partition changes only when the release of a committed transaction is handled. -/
theorem commits_serialisable (hcm : cfg.cm = .nocm ∨ cfg.cm = .backoffRetry)
    {es : List PgasEvent} (hrun : Exec (restrict (CountsAndLocks cfg numDslNodes)
      (partialGraph (step cfg numDslNodes))) init es s) :
    s.Atomic ∧ ∀ e s' d, step cfg numDslNodes s e = some s' →
      (s'.service d).mem ≠ (s.service d).mem → ∃ v, e = .handle d v ∧ s.Commits v d := by
  have hreal : cfg.cm.isReal = false := by
    rcases hcm with hcm | hcm <;> rw [hcm] <;> rfl
  have hinv := inv_run hreal hrun
  exact ⟨hinv.atomic, fun e s' d hstep hne => commits_of_mem_ne hinv hstep hne⟩

def pgasNocm : Config := ⟨.nocm, true, false, 4⟩

/-- Node 0 writes to both service nodes; node 1 is refused, aborts, and then reads the first
word where the commit has arrived, while the second is still on its way. -/
def twoPartitions : List PgasEvent :=
  [.txStart 0, .request 0 .store 0 5, .handle 0 0, .recvb 0,
    .request 0 .storeInc (2 ^ 25) 7, .handle 1 0, .recvb 0,
    .txStart 1, .request 1 .store 8 3, .handle 0 1, .recvb 1,
    .request 1 .load 0 2, .handle 0 1, .recvb 1, .rlsAll 0 .noConflict, .handle 0 0,
    .rlsAll 1 .readAfterWrite, .released 1, .request 1 .load 0 2, .handle 0 1, .recvb 1,
    .rlsAll 1 .noConflict]

theorem commits_serialisable_twoPartitions :
    ∃ s, Exec (restrict (CountsAndLocks pgasNocm 2) (partialGraph (step pgasNocm 2))) init
        twoPartitions s ∧
      s.committed = [[(0, .store 0 5), (1, .storeInc 0 7 0)], [(0, .load 0 2 5)]] ∧ s.Atomic := by
  have hsome : ∃ s, twoPartitions.foldlM (guarded (CountsAndLocks pgasNocm 2) (step pgasNocm 2))
      init = some s ∧
      s.committed = [[(0, .store 0 5), (1, .storeInc 0 7 0)], [(0, .load 0 2 5)]] :=
    ⟨(twoPartitions.foldlM (guarded (CountsAndLocks pgasNocm 2) (step pgasNocm 2)) init).get
      (by decide +kernel), (Option.some_get _).symm, by decide +kernel⟩
  obtain ⟨s, hsome, hcommitted⟩ := hsome
  have hrun := exec_guarded_iff.mpr hsome
  exact ⟨s, hrun, hcommitted, (commits_serialisable (Or.inl rfl) hrun).1⟩

/-! ### A counter that wraps -/

/-- Node 0 alone runs a transaction that has written at most the first word of the first
partition. -/
structure Alone (s : PgasSystem) (contacted : Nat) (t : Transaction) (ts : List Transaction) :
    Prop where
  phase : (s.node 0).phase = .running
  contacted : (s.node 0).nodesContacted 0 = contacted
  writer : (s.service 0).locks.writer 8 = none
  mine : ∀ a n, (s.service 0).locks.Holds a n → n = 0
  mem : (s.service 0).mem = fun _ => 0
  attempt : s.attempt 0 = t
  committed : s.committed = ts

theorem step_recvb (cfg : Config) (numDslNodes : Nat) (hphase : (s.node v).phase = .waiting d)
    (hreply : s.reply v = some .noConflict) :
    step cfg numDslNodes s (.recvb v) =
      some (({ s with reply := Function.update s.reply v none } : PgasSystem).setNode v
        { s.node v with phase := .running }) := by
  simp only [step, hphase, hreply, ne_eq, not_true_eq_false, if_false]

namespace Alone

variable {contacted : Nat} {t : Transaction} {ts : List Transaction}

/-- A request, its grant and the reply. -/
theorem round (h : s.Alone contacted t ts) (req : Req) (haccess : req.IsAccess)
    (hnode : getResponsibleNode req.address = 0) (hintern : internOffset req.address = req.address)
    (hmeta : req.txMetadata = 0)
    (hlock : (tryLock pgasNocm (s.service 0).locks 0 req.address
      (req.txOp fun _ => 0).rw).1 = .noConflict)
    (hwriter : (acquire (s.service 0).locks 0 req.address
      (req.txOp fun _ => 0).rw).writer 8 = none) :
    ∃ s', Exec (partialGraph (step pgasNocm 1)) s
        [.request 0 req.type req.address req.value, .handle 0 0, .recvb 0] s' ∧
      s'.Alone ((contacted + 1) % 2 ^ 16) (t ++ [(0, req.txOp fun _ => 0)]) ts := by
  have hrequest : ∃ s₁, step pgasNocm 1 s (.request 0 req.type req.address req.value) = some s₁ ∧
      s₁.buffer 0 0 = some req ∧ s₁.service = s.service ∧ s₁.attempt = s.attempt ∧
      s₁.committed = s.committed ∧ (s₁.node 0).phase = .waiting 0 ∧
      (s₁.node 0).nodesContacted 0 = (contacted + 1) % 2 ^ 16 := by
    have hwithin : getResponsibleNode req.address < 1 := by
      rw [hnode]
      exact Nat.one_pos
    refine ⟨_, if_pos ⟨h.phase, hwithin, haccess⟩, ?_, rfl, rfl, rfl, ?_, ?_⟩
    · simp only [hnode, hintern, setAt, and_self, if_true, ← hmeta]
    · simp only [setNode, Function.update_self, hnode]
    · simp only [setNode, Function.update_self, hnode, h.contacted]
  obtain ⟨s₁, hstep₁, hbuffer, hservice, hattempt, hcommitted, hphase, hcontacted⟩ := hrequest
  have hmem : (s₁.service 0).mem = fun _ => 0 := by rw [hservice, h.mem]
  have hlock₁ : (tryLock pgasNocm (s₁.service 0).locks 0 req.address
      (req.txOp (s₁.service 0).mem).rw).1 = .noConflict := by rw [hmem, hservice]; exact hlock
  have hgranted : ∃ s₂, step pgasNocm 1 s₁ (.handle 0 0) = some s₂ ∧ s₂.node = s₁.node ∧
      s₂.reply 0 = some .noConflict ∧ (s₂.service 0).mem = (fun _ => 0) ∧
      (s₂.service 0).locks = acquire (s.service 0).locks 0 req.address (req.txOp fun _ => 0).rw ∧
      s₂.attempt 0 = t ++ [(0, req.txOp fun _ => 0)] ∧ s₂.committed = ts := by
    obtain ⟨srv, hgrants, hhandle⟩ := handle_grant haccess hlock₁
    have hstep : step pgasNocm 1 s₁ (.handle 0 0) = some (s₁.handle pgasNocm 0 0 req) := by
      simp only [step, hbuffer]
    refine ⟨_, hstep, ?_⟩
    rw [hhandle]
    simp only [Function.update_self, hgrants.mem, hgrants.locks, hservice, h.mem, hattempt,
      h.attempt, hcommitted, h.committed, Req.address_txOp, and_self]
  obtain ⟨s₂, hstep₂, hnode₂, hreply₂, hmem₂, hlocks₂, hattempt₂, hcommitted₂⟩ := hgranted
  have hstep₃ := step_recvb pgasNocm 1 (hnode₂ ▸ hphase) hreply₂
  refine ⟨_, Exec.cons hstep₁ (Exec.cons hstep₂ (Exec.cons hstep₃ (Exec.nil _))), ?_⟩
  refine ⟨?_, ?_, ?_, ?_, hmem₂, hattempt₂, hcommitted₂⟩
  · simp only [setNode, Function.update_self]
  · simp only [setNode, Function.update_self, hnode₂, hcontacted]
  · exact (congrArg (fun l => LockMap.writer l 8) hlocks₂).trans hwriter
  · intro a n hn
    have hn' : (s₂.service 0).locks.Holds a n := hn
    rw [hlocks₂] at hn'
    rcases holds_acquire hn' with rfl | hn'
    · rfl
    · exact h.mine a n hn'

theorem loads (h : s.Alone 0 [] ts) (k : Nat) :
    ∃ es s', Exec (partialGraph (step pgasNocm 1)) s es s' ∧
      s'.Alone (k % 2 ^ 16) (List.replicate k (0, .load 8 2 0)) ts := by
  induction k with
  | zero => exact ⟨[], s, Exec.nil s, h⟩
  | succ k ih =>
    obtain ⟨es, s', hexec, hs'⟩ := ih
    have hround := hs'.round ⟨.load, 8, 2, 0⟩ (Or.inl rfl) (by decide) (by decide) rfl ?_
      hs'.writer
    · obtain ⟨s₂, hexec₂, hs₂⟩ := hround
      refine ⟨_, s₂, hexec.append hexec₂, ?_⟩
      rw [Nat.mod_add_mod] at hs₂
      rw [List.replicate_succ']
      exact hs₂
    · have hwriter : (s'.service 0).locks.writer 8 = none := hs'.writer
      simp only [tryLock, verdict, Req.txOp, TxOp.rw, hwriter]

theorem storeInc (h : s.Alone contacted t ts) :
    ∃ es s', Exec (partialGraph (step pgasNocm 1)) s es s' ∧
      s'.Alone ((contacted + 1) % 2 ^ 16) (t ++ [(0, .storeInc 0 1 0)]) ts := by
  have hround := h.round ⟨.storeInc, 0, 1, 0⟩ (Or.inr (Or.inr rfl)) (by decide)
    (by decide) rfl ?_ h.writer
  · obtain ⟨s', hexec, hs'⟩ := hround
    exact ⟨_, s', hexec, hs'⟩
  · have hreaders : ∀ conflict, attackReaders pgasNocm (fun _ => 0) 0
        ((s.service 0).locks.reader 0) conflict = .grant [] := by
      intro conflict
      refine attackReaders_eq_grant.mpr ⟨?_, fun hc => absurd rfl hc⟩
      symm
      rw [List.filter_eq_nil_iff]
      intro n _ hn
      obtain ⟨hread, hne⟩ := Bool.and_eq_true_iff.mp hn
      exact of_decide_eq_true hne (h.mine 0 n (Or.inr hread))
    apply tryLock_fst.mpr
    refine ⟨[], ?_⟩
    change verdict pgasNocm (fun _ => 0) (s.service 0).locks 0 0 .write = .grant []
    cases hwriter : (s.service 0).locks.writer 0 with
    | none => simp only [verdict, hwriter, hreaders]
    | some w =>
      obtain rfl := h.mine 0 w (Or.inl hwriter)
      simp only [verdict, hwriter, hreaders, ne_eq, not_true_eq_false, if_false]

/-- With the counter at zero nothing is sent. -/
theorem commit (h : s.Alone 0 t ts) :
    ∃ es s', Exec (partialGraph (step pgasNocm 1)) s es s' ∧ s'.Alone 0 [] (ts ++ [t]) := by
  have hcommitted : (if Conflict.noConflict = .noConflict then s.committed ++ [s.attempt 0]
      else s.committed) = ts ++ [t] := by rw [if_pos rfl, h.committed, h.attempt]
  have hrls : ∃ s₁, step pgasNocm 1 s (.rlsAll 0 .noConflict) = some s₁ ∧
      s₁.service = s.service ∧ s₁.attempt 0 = [] ∧ s₁.committed = ts ++ [t] ∧
      s₁.node 0 = { s.node 0 with phase := .rlsAll .noConflict } := by
    refine ⟨_, if_pos (Or.inl h.phase), rfl, ?_, hcommitted, ?_⟩
    · simp only [Function.update_self]
    · simp only [setNode, Function.update_self]
  obtain ⟨s₁, hstep₁, hservice, hattempt, hcommitted, hnode⟩ := hrls
  have hzero : ∀ d < 1, (s.node 0).nodesContacted d = 0 := by
    intro d hd
    obtain rfl : d = 0 := by omega
    exact h.contacted
  have hreleased : step pgasNocm 1 s₁ (.released 0) =
      some (s₁.setNode 0 { s₁.node 0 with phase := .idle }) := by
    simp only [step, hnode, if_true]
    exact if_pos hzero
  have hstart : step pgasNocm 1 (s₁.setNode 0 { s₁.node 0 with phase := .idle }) (.txStart 0) =
      some ((s₁.setNode 0 { s₁.node 0 with phase := .idle }).setNode 0
        { s₁.node 0 with phase := .running }) := by
    simp only [step, setNode, Function.update_self]
    exact if_pos ⟨by decide, trivial⟩
  refine ⟨_, _, Exec.cons hstep₁ (Exec.cons hreleased (Exec.cons hstart (Exec.nil _))), ?_⟩
  refine ⟨?_, ?_, ?_, ?_, ?_, hattempt, hcommitted⟩
  · simp only [setNode, Function.update_self]
  · simp only [setNode, Function.update_self, hnode]
    exact h.contacted
  · simp only [setNode, hservice, h.writer]
  · simp only [setNode, hservice]
    exact h.mine
  · simp only [setNode, hservice, h.mem]

end Alone

/-- `2 ^ 16 - 1` loads and an increment. -/
def wrappingTransaction : Transaction :=
  List.replicate 65535 (0, .load 8 2 0) ++ [(0, .storeInc 0 1 0)]

/-- It commits, and the next transaction increments the same word. -/
theorem exec_wrapping : ∃ es s, Exec (partialGraph (step pgasNocm 1)) init es s ∧
    s.committed = [wrappingTransaction, [(0, .storeInc 0 1 0)]] := by
  have hstart : step pgasNocm 1 init (.txStart 0) =
      some (init.setNode 0 ⟨.running, fun _ => 0⟩) := rfl
  have halone : (init.setNode 0 ⟨.running, fun _ => 0⟩).Alone 0 [] [] := by
    refine ⟨rfl, rfl, rfl, fun a n hn => ?_, rfl, rfl, rfl⟩
    rcases hn with hn | hn <;> cases hn
  obtain ⟨es₁, s₁, hexec₁, h₁⟩ := halone.loads 65535
  obtain ⟨es₂, s₂, hexec₂, h₂⟩ := h₁.storeInc
  obtain ⟨es₃, s₃, hexec₃, h₃⟩ := h₂.commit
  obtain ⟨es₄, s₄, hexec₄, h₄⟩ := h₃.storeInc
  have hlast : step pgasNocm 1 s₄ (.rlsAll 0 .noConflict) = some _ :=
    if_pos (Or.inl h₄.phase)
  refine ⟨_, _, Exec.cons hstart ((((hexec₁.append hexec₂).append hexec₃).append hexec₄).append
    (Exec.cons hlast (Exec.nil _))), ?_⟩
  change (if Conflict.noConflict = .noConflict then s₄.committed ++ [s₄.attempt 0]
    else s₄.committed) = _
  rw [if_pos rfl, h₄.committed, h₄.attempt]
  rfl

/-- Loads leave the partition alone. -/
theorem writes_of_reads {ops : List TxOp} (h : ∀ op ∈ ops, op.rw = .read) (mem : ByteMemory) :
    writes mem ops = mem := by
  funext x
  apply writes_outside
  intro op hop hcovers
  cases (h op hop).symm.trans hcovers.1

theorem read_leave_storeInc (k : Nat) :
    pgasDslRead (Transaction.leave (fun _ _ => 0)
      (List.replicate k (0, .load 8 2 0) ++ [(0, .storeInc 0 1 0)]) 0) 0 = 1 := by
  have hreads : ∀ op ∈ Transaction.opsAt (List.replicate k (0, .load 8 2 0)) 0,
      op.rw = .read := by
    intro op hop
    have heq := List.eq_of_mem_replicate (Transaction.mem_opsAt.mp hop)
    obtain rfl := (Prod.mk.inj heq).2
    rfl
  rw [Transaction.leave_eq, Transaction.opsAt_concat, if_pos rfl, writes, List.foldl_concat]
  have hmem := writes_of_reads hreads (fun _ => 0)
  unfold writes at hmem
  rw [hmem]
  exact ByteMemory.load_store_same 8 _ 0 _

/-- **A counter that wraps loses an increment.**  The commit of a transaction with `2 ^ 16`
requests to a service node sends nothing there, and the next transaction reads what it did
not write. -/
theorem lost_increment :
    ¬ ∀ (cfg : Config) (numDslNodes : Nat) (es : List PgasEvent) (s : PgasSystem),
      cfg.cm = .nocm ∨ cfg.cm = .backoffRetry →
      Exec (partialGraph (step cfg numDslNodes)) init es s →
      (∀ t ∈ s.committed, Transaction.Tidy t) →
      Serial.Serialisable Transaction.ReadsFrom Transaction.leave (fun _ _ => 0) s.committed := by
  intro hall
  obtain ⟨es, s, hexec, hcommitted⟩ := exec_wrapping
  have htidy : ∀ t ∈ s.committed, Transaction.Tidy t := by
    intro t ht
    rw [hcommitted, List.mem_cons, List.mem_singleton] at ht
    rcases ht with rfl | rfl
    · refine List.pairwise_append.mpr ⟨?_, List.pairwise_singleton _ _, ?_⟩
      · exact List.pairwise_replicate.mpr (Or.inr fun _ _ => rfl)
      · intro p hp q _ _ _
        rw [List.eq_of_mem_replicate hp]
        rfl
    · exact List.pairwise_singleton _ _
  have hserial := hall pgasNocm 1 es s (Or.inl rfl) hexec htidy
  rw [hcommitted] at hserial
  rcases hserial.pair with ⟨-, hsecond⟩ | ⟨-, hfirst⟩
  · have hbase : (0 : BitVec 64) = pgasDslRead _ 0 :=
      hsecond (0, .storeInc 0 1 0) List.mem_cons_self
    cases hbase.trans (read_leave_storeInc 65535)
  · have hbase : (0 : BitVec 64) = pgasDslRead _ 0 :=
      hfirst (0, .storeInc 0 1 0) (List.mem_append_right _ List.mem_cons_self)
    cases hbase.trans (read_leave_storeInc 0)

/-- Locks on words that overlap do not keep transactions apart. -/
def overlapping : List PgasEvent :=
  [.txStart 0, .request 0 .load 0 2, .handle 0 0, .recvb 0,
    .txStart 1, .request 1 .store 4 1, .handle 0 1, .recvb 1, .rlsAll 1 .noConflict, .handle 0 1,
    .request 0 .load 4 2, .handle 0 0, .recvb 0, .rlsAll 0 .noConflict]

theorem overlapping_words : ∃ s, Exec (partialGraph (step pgasNocm 1)) init overlapping s ∧
    ¬ Serial.Serialisable Transaction.ReadsFrom Transaction.leave (fun _ _ => 0) s.committed := by
  have hsome : ∃ s, overlapping.foldlM (step pgasNocm 1) init = some s ∧
      s.committed = [[(0, .store 4 1)], [(0, .load 0 2 0), (0, .load 4 2 1)]] :=
    ⟨(overlapping.foldlM (step pgasNocm 1) init).get (by decide +kernel),
      (Option.some_get _).symm, by decide +kernel⟩
  obtain ⟨s, hsome, hcommitted⟩ := hsome
  refine ⟨s, exec_partialGraph_iff.mpr hsome, fun hserial => ?_⟩
  rw [hcommitted] at hserial
  rcases hserial.pair with ⟨-, hread⟩ | ⟨hread, -⟩
  · have hvalue := hread (0, .load 0 2 0) List.mem_cons_self
    revert hvalue
    decide +kernel
  · have hvalue := hread (0, .load 4 2 1) (List.mem_cons_of_mem _ List.mem_cons_self)
    revert hvalue
    decide +kernel

end PgasSystem

end TM2C
