import TM2C.SystemSteps

/-!
# A service node of the system is a lock service

A service node of the system takes several steps for a request that wins.  Seen
when the request it serves is done, it is the lock service that handles the same
messages one at a time, with the same replies.

`ServiceNode.completed` is the abstraction: the state of the service node as it will be when the
victims that are left are deleted and the lock is entered.  Taking a message is then the step of
the lock service (`Handles.refines`), and everything between it and the grant changes the
concrete state only, because releasing one victim more before the others makes no difference.  The
reply is sent when the grant is made, and `Replies` says which one that will be.
-/

namespace TM2C

open Transition

/-- The state of the service node once the request being served is granted. -/
def ServiceNode.completed (n : ServiceNode) : LockService :=
  match n.serving with
  | none => n.state
  | some sv =>
    { n.state with
      locks := acquire (n.state.locks.releaseAll sv.victims) sv.sender sv.address sv.rw }

theorem ServiceNode.completed_of_idle {n : ServiceNode} (h : n.serving = none) :
    n.completed = n.state := by
  rw [ServiceNode.completed, h]

namespace System

/-- What becomes of the reply to a message of `v`. -/
def Replies (s s' : System) (d v : Nat) : Option Conflict → Prop
  | none => s'.reply = s.reply
  | some .noConflict => s'.reply = s.reply ∧ ∃ sv, (s'.service d).serving = some sv ∧ sv.sender = v
  | some conflict => s'.reply = Function.update s.reply v (some conflict)

theorem replies_refused {s s' : System} {d v : Nat} {conflict : Conflict}
    (hconflict : conflict ≠ .noConflict)
    (hreply : s'.reply = Function.update s.reply v (some conflict)) :
    Replies s s' d v (some conflict) := by
  cases conflict with
  | noConflict => exact absurd rfl hconflict
  | _ => exact hreply

/-- A message taken by the node is a message handled by the lock service. -/
theorem Handles.refines {cl : Cluster} {s s' : System} {d v now : Nat}
    (h : Handles cl s d v now s') : ∃ req rest, s.channel v d = req :: rest ∧
      (s'.service d).completed = (lockService cl.cfg now (s.service d).completed v req).1 ∧
      Replies s s' d v (lockService cl.cfg now (s.service d).completed v req).2 := by
  have hservice : ∀ {req : Req} {rw : RW}, Asks req rw → (s.service d).serving = none →
      lockService cl.cfg now (s.service d).completed v req =
        (fun r => (r.1, some r.2)) (TM2C.serveRequest cl.cfg (s.stamped cl.cfg d v now req) v
          req.address rw) := by
    intro req rw hrw hserving
    rw [ServiceNode.completed_of_idle hserving]
    obtain ⟨htype, rfl⟩ | ⟨htype, rfl⟩ := hrw
    · simp only [lockService, lockSwitch, htype, stamped]
    · simp only [lockService, lockSwitch, htype, stamped]
  cases h with
  | release hserving hchannel htype =>
    refine ⟨_, _, hchannel, ?_, ?_⟩
    · rw [service_setService_self, ServiceNode.completed_of_idle rfl,
        ServiceNode.completed_of_idle hserving]
      simp only [lockService, lockSwitch, htype, stamped]
    · simp only [lockService, lockSwitch, htype]
      rfl
  | refuse hserving hchannel hrw hverdict =>
    rename_i req rest rw conflict
    have hserve : TM2C.serveRequest cl.cfg (s.stamped cl.cfg d v now req) v req.address rw =
        (serveRelease cl.cfg (s.stamped cl.cfg d v now req) v, conflict) :=
      serveRequest_of_refuse hverdict
    refine ⟨req, rest, hchannel, ?_, ?_⟩
    · rw [hservice hrw hserving, hserve]
      simp only [service_setService_self]
      exact ServiceNode.completed_of_idle rfl
    · rw [hservice hrw hserving, hserve]
      exact replies_refused (refuse_ne_noConflict hverdict) rfl
  | accept hserving hchannel hrw hverdict =>
    rename_i req rest rw victims
    have hserve : TM2C.serveRequest cl.cfg (s.stamped cl.cfg d v now req) v req.address rw =
        ({ s.stamped cl.cfg d v now req with
          locks := acquire ((s.service d).state.locks.releaseAll victims) v req.address rw },
          .noConflict) :=
      serveRequest_of_grant hverdict
    refine ⟨req, rest, hchannel, ?_, ?_⟩
    · rw [hservice hrw hserving, hserve, service_setService_self]
      rfl
    · rw [hservice hrw hserving, hserve]
      exact ⟨rfl, _, congrArg ServiceNode.serving (service_setService_self ..), rfl⟩

/-- One turn of a lock service; a message comes with its time and its sender. -/
def lockTurn (cfg : Config) (n : LockService) (m : Nat × Nat × Req) : LockService :=
  (lockService cfg m.1 n m.2.1 m.2.2).1

/-- A step takes a message to the lock service, or the lock service does not see it. -/
theorem completed_step {cl : Cluster} {s s' : System} {e : SystemEvent}
    (hstep : s.step cl e = some s') (d : Nat) :
    (s'.service d).completed = (s.service d).completed ∨
      ∃ m, graph (lockTurn cl.cfg) (s.service d).completed m (s'.service d).completed := by
  cases e with
  | node v a =>
    left
    rw [(acts_of_act hstep).service_eq]
  | handle e v now =>
    have hhandles := handles_of_handle hstep
    by_cases hd : d = e
    · subst hd
      obtain ⟨req, rest, -, hcompleted, -⟩ := hhandles.refines
      exact Or.inr ⟨(now, v, req), hcompleted.symm⟩
    · left
      rw [hhandles.service_of_ne hd]
  | abortNode e =>
    left
    obtain ⟨sender, address, rw, conflict, victim, victims, hserving, ⟨-, rfl⟩ | ⟨-, rfl⟩⟩ :=
      abortNode_eq_some hstep
    · rfl
    by_cases hd : d = e
    · subst hd
      simp only [service_setService_self, ServiceNode.completed, hserving,
        LockMap.releaseAll_cons]
    · simp only [service_setService_of_ne _ _ _ hd]
  | grant e =>
    left
    obtain ⟨sender, address, rw, conflict, hserving, rfl⟩ := grant_eq_some hstep
    by_cases hd : d = e
    · subst hd
      simp only [service_setService_self, ServiceNode.completed, hserving,
        LockMap.releaseAll_nil]
    · simp only [service_setService_of_ne _ _ _ hd]

/-- **Refinement.**  In every run every service node is a lock service that
handled some messages one at a time. -/
theorem exec_completed {cl : Cluster} {s s' : System} {es : List SystemEvent}
    (hexec : Exec (partialGraph (step cl)) s es s') (d : Nat) :
    ∃ ms, Exec (graph (lockTurn cl.cfg)) (s.service d).completed ms (s'.service d).completed :=
  hexec.simulation (fun s => (s.service d).completed) fun _ _ _ hstep => completed_step hstep d

end System

end TM2C
