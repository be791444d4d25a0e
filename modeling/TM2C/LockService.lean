import Mathlib.Data.List.Basic
import TM2C.Lib.LockMap
import TM2C.Lib.Transition
import TM2C.DslService

/-!
# What a service node is for

The abstract counterpart of a service node outside the PGAS build: a lock map,
the timestamps, and a verdict on every request.  A request is refused, or it is
granted after the locks of some victims were taken away.  Mutual exclusion is
proved here, for the lock map; that the table of slots and logs implements it is
the subject of `TM2C.LockTable`.

`verdict` reads off the lock map and the timestamps what becomes of a request, for all contention
managers in one definition, and `lockService` lets it happen.  Nothing here knows of slots, chains
or logs, and nothing of the answer but the conflict: a request for a lock is refused and the
requester loses all its locks, or the victims lose theirs and the requester gets the one it asked
for.

The invariant is `LockMap.Exclusive` of the library, which says that a writer of an address is
alone with it.  It is kept because a verdict takes as victims everybody who is in the way, or
refuses (`not_mem_victims`, `writer_of_granted`, `reader_of_granted`); these lemmas are stated
once for both kinds of requests.  The lemmas of the last section follow a single lock over a turn,
for the modules that build on the refinement.
-/

namespace TM2C

/-- A victim cannot go on with the flag that it is left. -/
theorem casAbortFlag_ne {flag conflict : Conflict} (hflag : flag ≠ .persistingWrites)
    (hconflict : conflict ≠ .noConflict ∧ conflict ≠ .persistingWrites) :
    casAbortFlag flag conflict ≠ .noConflict ∧ casAbortFlag flag conflict ≠ .persistingWrites := by
  unfold casAbortFlag
  by_cases h : flag = .noConflict
  · rw [if_pos h]
    exact hconflict
  · rw [if_neg h]
    exact ⟨h, hflag⟩

/-- `attacker` goes before `defender`: the smaller timestamp, then the smaller id. -/
def Precedes (timestamp : Nat → Nat) (attacker defender : Nat) : Prop :=
  timestamp attacker < timestamp defender ∨
    (timestamp attacker = timestamp defender ∧ attacker < defender)

instance (timestamp : Nat → Nat) (attacker defender : Nat) :
    Decidable (Precedes timestamp attacker defender) := by
  unfold Precedes
  infer_instance

theorem precedes_irrefl (timestamp : Nat → Nat) (n : Nat) : ¬ Precedes timestamp n n := by
  rintro (h | ⟨-, h⟩) <;> exact Nat.lt_irrefl _ h

theorem precedes_trans {timestamp : Nat → Nat} {n m k : Nat} (hnm : Precedes timestamp n m)
    (hmk : Precedes timestamp m k) : Precedes timestamp n k := by
  unfold Precedes at *
  omega

/-- A defender that advances stays behind an attacker that does not. -/
theorem Precedes.mono {timestamp timestamp' : Nat → Nat} {attacker defender : Nat}
    (h : Precedes timestamp attacker defender)
    (hattacker : timestamp' attacker ≤ timestamp attacker)
    (hdefender : timestamp defender ≤ timestamp' defender) :
    Precedes timestamp' attacker defender := by
  unfold Precedes at *
  omega

/-- What becomes of a request: `refuse` names the conflict, `grant` the nodes
that lose their locks before the requester gets its own. -/
inductive Verdict where
  | refuse (conflict : Conflict)
  | grant (victims : List Nat)
deriving DecidableEq, Repr

/-- Attack the writer: with a real contention manager the one that precedes wins. -/
def attackWriter (cfg : Config) (timestamp : Nat → Nat) (id writer : Nat)
    (conflict : Conflict) : Verdict :=
  if cfg.cm.isReal = true ∧ Precedes timestamp id writer then .grant [writer]
  else .refuse conflict

/-- Attack all readers but oneself: it is enough that one of them precedes to lose. -/
def attackReaders (cfg : Config) (timestamp : Nat → Nat) (id : Nat) (readers : Nat → Bool)
    (conflict : Conflict) : Verdict :=
  let others := (List.range cfg.numUes).filter fun n => readers n && decide (n ≠ id)
  if others = [] then .grant []
  else if cfg.cm.isReal = true ∧ ∀ n ∈ others, Precedes timestamp id n then .grant others
  else .refuse conflict

def verdict (cfg : Config) (timestamp : Nat → Nat) (locks : LockMap Nat Nat) (id addr : Nat) :
    RW → Verdict
  | .read =>
    match locks.writer addr with
    | some w => attackWriter cfg timestamp id w .readAfterWrite
    | none => .grant []
  | .write =>
    match locks.writer addr with
    | some w =>
      if w ≠ id then attackWriter cfg timestamp id w .writeAfterWrite
      else attackReaders cfg timestamp id (locks.reader addr) .writeAfterRead
    | none => attackReaders cfg timestamp id (locks.reader addr) .writeAfterRead

/-- The state of the abstract service node. -/
structure LockService where
  locks : LockMap Nat Nat
  timestamp : Nat → Nat

def acquire (locks : LockMap Nat Nat) (id addr : Nat) : RW → LockMap Nat Nat
  | .read => locks.acquireRead addr id
  | .write => locks.acquireWrite addr id

def serveRequest (cfg : Config) (s : LockService) (id addr : Nat) (rw : RW) :
    LockService × Conflict :=
  match verdict cfg s.timestamp s.locks id addr rw with
  | .refuse conflict =>
    ({ locks := s.locks.release id
       timestamp :=
        match cfg.cm with
        | .greedy _ => Function.update s.timestamp id 0
        | _ => s.timestamp }, conflict)
  | .grant victims =>
    ({ s with locks := acquire (s.locks.releaseAll victims) id addr rw }, .noConflict)

def serveRelease (cfg : Config) (s : LockService) (id : Nat) : LockService where
  locks := s.locks.release id
  timestamp :=
    match cfg.cm with
    | .greedy _ => Function.update s.timestamp id 0
    | _ => s.timestamp

/-- The messages of a transaction that does not release early. -/
def Req.isTransactional (req : Req) : Prop :=
  req.type = .load ∨ req.type = .store ∨ req.type = .rmvNode

instance (req : Req) : Decidable req.isTransactional := by
  unfold Req.isTransactional
  infer_instance

/-- Messages of other types than the three are ignored. -/
def lockSwitch (cfg : Config) (s : LockService) (sender : Nat) (req : Req) :
    LockService × Option Conflict :=
  match req.type with
  | .load => (fun r => (r.1, some r.2)) (serveRequest cfg s sender req.address .read)
  | .store => (fun r => (r.1, some r.2)) (serveRequest cfg s sender req.address .write)
  | .rmvNode => (serveRelease cfg s sender, none)
  | _ => (s, none)

/-- One message. -/
def lockService (cfg : Config) (now : Nat) (s : LockService) (sender : Nat) (req : Req) :
    LockService × Option Conflict :=
  lockSwitch cfg { s with timestamp := updateTimestamp cfg now sender req.txMetadata s.timestamp }
    sender req

/-! ### Verdicts -/

theorem attackWriter_eq_grant {cfg : Config} {timestamp : Nat → Nat} {id w : Nat}
    {conflict : Conflict} {victims : List Nat} :
    attackWriter cfg timestamp id w conflict = .grant victims ↔
      victims = [w] ∧ cfg.cm.isReal = true ∧ Precedes timestamp id w := by
  unfold attackWriter
  by_cases h : cfg.cm.isReal = true ∧ Precedes timestamp id w
  · rw [if_pos h, Verdict.grant.injEq]
    exact ⟨fun hv => ⟨hv.symm, h⟩, fun hv => hv.1.symm⟩
  · rw [if_neg h]
    constructor
    · intro hv
      cases hv
    · rintro ⟨-, hv⟩
      exact absurd hv h

theorem attackReaders_eq_grant {cfg : Config} {timestamp : Nat → Nat} {id : Nat}
    {readers : Nat → Bool} {conflict : Conflict} {victims : List Nat} :
    attackReaders cfg timestamp id readers conflict = .grant victims ↔
      victims = ((List.range cfg.numUes).filter fun n => readers n && decide (n ≠ id)) ∧
        (victims ≠ [] → cfg.cm.isReal = true ∧ ∀ n ∈ victims, Precedes timestamp id n) := by
  unfold attackReaders
  generalize ((List.range cfg.numUes).filter fun n => readers n && decide (n ≠ id)) = others
  by_cases hnil : others = []
  · simp only [hnil, if_true, Verdict.grant.injEq]
    constructor
    · rintro rfl
      exact ⟨rfl, fun h => absurd rfl h⟩
    · rintro ⟨rfl, -⟩
      rfl
  · simp only [if_neg hnil]
    by_cases h : cfg.cm.isReal = true ∧ ∀ n ∈ others, Precedes timestamp id n
    · rw [if_pos h, Verdict.grant.injEq]
      constructor
      · rintro rfl
        exact ⟨rfl, fun _ => h⟩
      · rintro ⟨rfl, -⟩
        rfl
    · rw [if_neg h]
      constructor
      · intro hv
        cases hv
      · rintro ⟨rfl, hv⟩
        exact absurd (hv hnil) h

/-- A requester kills only nodes it precedes, and so never itself. -/
theorem precedes_of_verdict {cfg : Config} {timestamp : Nat → Nat} {locks : LockMap Nat Nat}
    {id addr : Nat} {rw : RW} {victims : List Nat}
    (h : verdict cfg timestamp locks id addr rw = .grant victims) {v : Nat} (hv : v ∈ victims) :
    Precedes timestamp id v := by
  have hreaders : attackReaders cfg timestamp id (locks.reader addr) .writeAfterRead =
      .grant victims → Precedes timestamp id v := by
    intro h
    obtain ⟨-, hall⟩ := attackReaders_eq_grant.mp h
    exact (hall (List.ne_nil_of_mem hv)).2 v hv
  have hwriter : ∀ w conflict, attackWriter cfg timestamp id w conflict = .grant victims →
      Precedes timestamp id v := by
    intro w conflict h
    obtain ⟨rfl, -, hp⟩ := attackWriter_eq_grant.mp h
    rw [List.mem_singleton] at hv
    exact hv ▸ hp
  cases rw with
  | read =>
    simp only [verdict] at h
    cases hw : locks.writer addr with
    | none =>
      rw [hw] at h
      cases h
      simp at hv
    | some w =>
      rw [hw] at h
      exact hwriter w _ h
  | write =>
    simp only [verdict] at h
    cases hw : locks.writer addr with
    | none =>
      rw [hw] at h
      exact hreaders h
    | some w =>
      rw [hw] at h
      by_cases hwid : w ≠ id
      · simp only [if_pos hwid] at h
        exact hwriter w _ h
      · simp only [if_neg hwid] at h
        exact hreaders h

theorem not_mem_victims {cfg : Config} {timestamp : Nat → Nat} {locks : LockMap Nat Nat}
    {id addr : Nat} {rw : RW} {victims : List Nat}
    (h : verdict cfg timestamp locks id addr rw = .grant victims) : id ∉ victims := by
  intro hid
  exact precedes_irrefl timestamp id (precedes_of_verdict h hid)

/-- The victims are lock holders of the address. -/
theorem holds_of_victim {cfg : Config} {timestamp : Nat → Nat} {locks : LockMap Nat Nat}
    {id addr : Nat} {rw : RW} {victims : List Nat}
    (h : verdict cfg timestamp locks id addr rw = .grant victims) {v : Nat} (hv : v ∈ victims) :
    locks.Holds addr v := by
  have hreaders : attackReaders cfg timestamp id (locks.reader addr) .writeAfterRead =
      .grant victims → locks.Holds addr v := by
    intro h
    obtain ⟨rfl, -⟩ := attackReaders_eq_grant.mp h
    obtain ⟨-, hread⟩ := List.mem_filter.mp hv
    exact Or.inr (Bool.and_eq_true_iff.mp hread).1
  have hwriter : ∀ w conflict, locks.writer addr = some w →
      attackWriter cfg timestamp id w conflict = .grant victims → locks.Holds addr v := by
    intro w conflict hw h
    obtain ⟨rfl, -⟩ := attackWriter_eq_grant.mp h
    rw [List.mem_singleton] at hv
    exact Or.inl (hv ▸ hw)
  cases hw : locks.writer addr with
  | none =>
    cases rw with
    | read =>
      simp only [verdict, hw, Verdict.grant.injEq] at h
      rw [← h] at hv
      cases hv
    | write =>
      simp only [verdict, hw] at h
      exact hreaders h
  | some w =>
    cases rw with
    | read =>
      simp only [verdict, hw] at h
      exact hwriter w _ hw h
    | write =>
      simp only [verdict, hw] at h
      by_cases hwid : w ≠ id
      · rw [if_pos hwid] at h
        exact hwriter w _ hw h
      · rw [if_neg hwid] at h
        exact hreaders h

/-- The nodes that can hold locks. -/
def Bounded (cfg : Config) (locks : LockMap Nat Nat) : Prop :=
  ∀ a n, locks.Holds a n → n < cfg.numUes

/-- Once the victims are gone nobody but the requester writes the address. -/
theorem writer_of_granted {cfg : Config} {timestamp : Nat → Nat} {locks : LockMap Nat Nat}
    {id addr : Nat} {rw : RW} {victims : List Nat}
    (h : verdict cfg timestamp locks id addr rw = .grant victims) {w : Nat}
    (hw : (locks.releaseAll victims).writer addr = some w) : rw = .write ∧ w = id := by
  obtain ⟨hlock, hnot⟩ := LockMap.writer_releaseAll_eq_some.mp hw
  cases rw with
  | read =>
    simp only [verdict, hlock] at h
    obtain ⟨rfl, -⟩ := attackWriter_eq_grant.mp h
    simp at hnot
  | write =>
    simp only [verdict, hlock] at h
    by_cases hwid : w = id
    · exact ⟨rfl, hwid⟩
    · rw [if_pos hwid] at h
      obtain ⟨rfl, -⟩ := attackWriter_eq_grant.mp h
      simp at hnot

/-- Once the victims of a writer are gone nobody but the writer reads the address. -/
theorem reader_of_granted {cfg : Config} {timestamp : Nat → Nat} {locks : LockMap Nat Nat}
    {id addr : Nat} {victims : List Nat} (hex : locks.Exclusive) (hbound : Bounded cfg locks)
    (h : verdict cfg timestamp locks id addr .write = .grant victims) {k : Nat}
    (hk : (locks.releaseAll victims).reader addr k = true) : k = id := by
  obtain ⟨hread, hnot⟩ := LockMap.reader_releaseAll_eq_true.mp hk
  have hreaders : attackReaders cfg timestamp id (locks.reader addr) .writeAfterRead =
      .grant victims → k = id := by
    intro h
    obtain ⟨hvs, -⟩ := attackReaders_eq_grant.mp h
    by_contra hne
    apply hnot
    rw [hvs, List.mem_filter, List.mem_range]
    exact ⟨hbound addr k (Or.inr hread), by simp [hread, hne]⟩
  simp only [verdict] at h
  cases hlock : locks.writer addr with
  | none =>
    rw [hlock] at h
    exact hreaders h
  | some w =>
    rw [hlock] at h
    by_cases hwid : w ≠ id
    · -- the readers of an address with a writer are that writer
      simp only [if_pos hwid] at h
      obtain ⟨rfl, -⟩ := attackWriter_eq_grant.mp h
      exact absurd (hex addr w k hlock hread) (by simpa using hnot)
    · simp only [if_neg hwid] at h
      exact hreaders h

/-- A refusal is a release with a reply. -/
theorem serveRequest_of_refuse {cfg : Config} {s : LockService} {id addr : Nat} {rw : RW}
    {conflict : Conflict} (h : verdict cfg s.timestamp s.locks id addr rw = .refuse conflict) :
    serveRequest cfg s id addr rw = (serveRelease cfg s id, conflict) := by
  simp only [serveRequest, h, serveRelease]

theorem serveRequest_of_grant {cfg : Config} {s : LockService} {id addr : Nat} {rw : RW}
    {victims : List Nat} (h : verdict cfg s.timestamp s.locks id addr rw = .grant victims) :
    serveRequest cfg s id addr rw =
      ({ s with locks := acquire (s.locks.releaseAll victims) id addr rw }, .noConflict) := by
  simp only [serveRequest, h]

/-! ### Mutual exclusion -/

theorem exclusive_serveRequest {cfg : Config} {s : LockService} {id addr : Nat} {rw : RW}
    (hex : s.locks.Exclusive) (hbound : Bounded cfg s.locks) :
    (serveRequest cfg s id addr rw).1.locks.Exclusive := by
  unfold serveRequest
  cases h : verdict cfg s.timestamp s.locks id addr rw with
  | refuse conflict => exact hex.release id
  | grant victims =>
    cases rw with
    | read =>
      refine (hex.releaseAll victims).acquireRead ?_
      intro w hw
      cases (writer_of_granted h hw).1
    | write =>
      refine (hex.releaseAll victims).acquireWrite ?_
      intro k hk
      exact reader_of_granted hex hbound h hk

theorem bounded_serveRequest {cfg : Config} {s : LockService} {id addr : Nat} {rw : RW}
    (hid : id < cfg.numUes) (hbound : Bounded cfg s.locks) :
    Bounded cfg (serveRequest cfg s id addr rw).1.locks := by
  unfold serveRequest
  intro a n hn
  cases h : verdict cfg s.timestamp s.locks id addr rw with
  | refuse conflict =>
    rw [h] at hn
    exact hbound a n (LockMap.holds_release.mp hn).1
  | grant victims =>
    rw [h] at hn
    have hrest : (s.locks.releaseAll victims).Holds a n → n < cfg.numUes :=
      fun h => hbound a n (LockMap.holds_releaseAll.mp h).1
    cases rw with
    | read =>
      rcases LockMap.holds_acquireRead.mp hn with ⟨-, rfl⟩ | hn
      · exact hid
      · exact hrest hn
    | write =>
      rcases hn with hw | hr
      · by_cases ha : a = addr
        · simp only [acquire, LockMap.writer_acquireWrite, if_pos ha, Option.some.injEq] at hw
          exact hw ▸ hid
        · simp only [acquire, LockMap.writer_acquireWrite, if_neg ha] at hw
          exact hrest (Or.inl hw)
      · exact hrest (Or.inr hr)

theorem exclusive_lockService {cfg : Config} {now : Nat} {s : LockService} {sender : Nat}
    {req : Req} (hex : s.locks.Exclusive) (hbound : Bounded cfg s.locks) :
    (lockService cfg now s sender req).1.locks.Exclusive := by
  unfold lockService lockSwitch
  cases req.type with
  | load => exact exclusive_serveRequest hex hbound
  | store => exact exclusive_serveRequest hex hbound
  | rmvNode => exact hex.release sender
  | loadRls => exact hex
  | storeFinish => exact hex
  | loadNontx => exact hex
  | storeNontx => exact hex
  | storeInc => exact hex
  | unknown => exact hex

theorem bounded_lockService {cfg : Config} {now : Nat} {s : LockService} {sender : Nat}
    {req : Req} (hsender : sender < cfg.numUes) (hbound : Bounded cfg s.locks) :
    Bounded cfg (lockService cfg now s sender req).1.locks := by
  unfold lockService lockSwitch
  cases req.type with
  | load => exact bounded_serveRequest hsender hbound
  | store => exact bounded_serveRequest hsender hbound
  | rmvNode =>
    intro a n hn
    exact hbound a n (LockMap.holds_release.mp hn).1
  | loadRls => exact hbound
  | storeFinish => exact hbound
  | loadNontx => exact hbound
  | storeNontx => exact hbound
  | storeInc => exact hbound
  | unknown => exact hbound

/-! ### Keeping and losing locks -/

/-- The node holds the lock of the given kind. -/
def HoldsAs (locks : LockMap Nat Nat) (a n : Nat) : RW → Prop
  | .read => locks.reader a n = true
  | .write => locks.writer a = some n

theorem HoldsAs.holds {locks : LockMap Nat Nat} {a n : Nat} {rw : RW}
    (h : HoldsAs locks a n rw) : locks.Holds a n := by
  cases rw with
  | read => exact Or.inr h
  | write => exact Or.inl h

theorem eq_of_holdsAs {locks : LockMap Nat Nat} (hex : locks.Exclusive)
    {a n m : Nat} {rw : RW} (hn : HoldsAs locks a n .write) (hm : HoldsAs locks a m rw) :
    n = m := by
  cases rw with
  | read => exact (hex a n m hn hm).symm
  | write => exact Option.some.inj (Eq.trans (Eq.symm hn) hm)

theorem holdsAs_releaseAll {locks : LockMap Nat Nat} {a n : Nat} {rw : RW} {vs : List Nat} :
    HoldsAs (locks.releaseAll vs) a n rw ↔ HoldsAs locks a n rw ∧ n ∉ vs := by
  cases rw with
  | read => exact LockMap.reader_releaseAll_eq_true
  | write => exact LockMap.writer_releaseAll_eq_some

theorem holdsAs_release {locks : LockMap Nat Nat} {a n m : Nat} {rw : RW} :
    HoldsAs (locks.release m) a n rw ↔ HoldsAs locks a n rw ∧ n ≠ m := by
  cases rw with
  | read => exact LockMap.reader_release_eq_true
  | write => exact LockMap.writer_release_eq_some

theorem holdsAs_acquire (locks : LockMap Nat Nat) (a n : Nat) (rw : RW) :
    HoldsAs (acquire locks n a rw) a n rw := by
  cases rw with
  | read => exact LockMap.reader_acquireRead_eq_true.mpr (Or.inl ⟨rfl, rfl⟩)
  | write => exact if_pos rfl

/-- Acquiring takes a lock away from another node only by overwriting the writer. -/
theorem holdsAs_acquire_of_holdsAs {locks : LockMap Nat Nat} {a b n m : Nat} {rw rw' : RW}
    (h : HoldsAs locks b m rw')
    (hfree : rw = .write → ∀ w, locks.writer a = some w → w = n) :
    HoldsAs (acquire locks n a rw) b m rw' := by
  cases rw with
  | read =>
    cases rw' with
    | read => exact LockMap.reader_acquireRead_eq_true.mpr (Or.inr h)
    | write => exact h
  | write =>
    cases rw' with
    | read => exact h
    | write =>
      simp only [HoldsAs, acquire, LockMap.writer_acquireWrite] at h ⊢
      by_cases hba : b = a
      · subst hba
        rw [if_pos rfl, hfree rfl m h]
      · rw [if_neg hba]
        exact h

theorem holds_acquire {locks : LockMap Nat Nat} {a b n m : Nat} {rw : RW}
    (h : (acquire locks n a rw).Holds b m) : m = n ∨ locks.Holds b m := by
  cases rw with
  | read =>
    rcases LockMap.holds_acquireRead.mp h with ⟨-, rfl⟩ | h
    · exact Or.inl rfl
    · exact Or.inr h
  | write =>
    rcases h with hw | hr
    · simp only [acquire, LockMap.writer_acquireWrite] at hw
      by_cases hba : b = a
      · rw [if_pos hba] at hw
        exact Or.inl (Option.some.inj hw).symm
      · rw [if_neg hba] at hw
        exact Or.inr (Or.inl hw)
    · exact Or.inr (Or.inr hr)

theorem serveRequest_keeps {cfg : Config} {s : LockService} {id addr : Nat} {rw : RW} {a n : Nat}
    {rw' : RW} (h : HoldsAs s.locks a n rw') :
    HoldsAs (serveRequest cfg s id addr rw).1.locks a n rw' ∨
      ∀ b, ¬ (serveRequest cfg s id addr rw).1.locks.Holds b n := by
  unfold serveRequest
  cases hv : verdict cfg s.timestamp s.locks id addr rw with
  | refuse conflict =>
    by_cases hn : n = id
    · right
      intro b hb
      exact (LockMap.holds_release.mp hb).2 hn
    · exact Or.inl (holdsAs_release.mpr ⟨h, hn⟩)
  | grant victims =>
    by_cases hn : n ∈ victims
    · right
      intro b hb
      rcases holds_acquire hb with rfl | hb
      · exact not_mem_victims hv hn
      · exact (LockMap.holds_releaseAll.mp hb).2 hn
    · left
      refine holdsAs_acquire_of_holdsAs (holdsAs_releaseAll.mpr ⟨h, hn⟩) ?_
      intro _ w hw
      exact (writer_of_granted hv hw).2

/-- A node keeps each of its locks over a message, or it is left with none at all. -/
theorem lockService_keeps (cfg : Config) (now : Nat) {s : LockService} (sender : Nat) (req : Req)
    {a n : Nat} {rw : RW} (h : HoldsAs s.locks a n rw) :
    HoldsAs (lockService cfg now s sender req).1.locks a n rw ∨
      ∀ b, ¬ (lockService cfg now s sender req).1.locks.Holds b n := by
  unfold lockService lockSwitch
  cases req.type with
  | load => exact serveRequest_keeps h
  | store => exact serveRequest_keeps h
  | rmvNode =>
    by_cases hn : n = sender
    · right
      intro b hb
      exact (LockMap.holds_release.mp hb).2 hn
    · exact Or.inl (holdsAs_release.mpr ⟨h, hn⟩)
  | loadRls => exact Or.inl h
  | storeFinish => exact Or.inl h
  | loadNontx => exact Or.inl h
  | storeNontx => exact Or.inl h
  | storeInc => exact Or.inl h
  | unknown => exact Or.inl h

/-- An attack that fails is refused with the conflict that it was about. -/
theorem attackWriter_eq_refuse {cfg : Config} {timestamp : Nat → Nat} {id w : Nat}
    {c conflict : Conflict} (h : attackWriter cfg timestamp id w c = .refuse conflict) :
    c = conflict := by
  unfold attackWriter at h
  by_cases hcond : cfg.cm.isReal = true ∧ Precedes timestamp id w
  · rw [if_pos hcond] at h
    cases h
  · rw [if_neg hcond, Verdict.refuse.injEq] at h
    exact h

theorem attackReaders_eq_refuse {cfg : Config} {timestamp : Nat → Nat} {id : Nat}
    {readers : Nat → Bool} {c conflict : Conflict}
    (h : attackReaders cfg timestamp id readers c = .refuse conflict) : c = conflict := by
  simp only [attackReaders] at h
  by_cases hnil : ((List.range cfg.numUes).filter fun n => readers n && decide (n ≠ id)) = []
  · rw [if_pos hnil] at h
    cases h
  · rw [if_neg hnil] at h
    by_cases hcond : cfg.cm.isReal = true ∧
        ∀ n ∈ (List.range cfg.numUes).filter fun n => readers n && decide (n ≠ id),
          Precedes timestamp id n
    · rw [if_pos hcond] at h
      cases h
    · rw [if_neg hcond, Verdict.refuse.injEq] at h
      exact h

theorem refuse_ne_noConflict {cfg : Config} {timestamp : Nat → Nat} {locks : LockMap Nat Nat}
    {id addr : Nat} {rw : RW} {conflict : Conflict}
    (h : verdict cfg timestamp locks id addr rw = .refuse conflict) :
    conflict ≠ .noConflict := by
  cases rw with
  | read =>
    simp only [verdict] at h
    cases hw : locks.writer addr with
    | none =>
      rw [hw] at h
      cases h
    | some w =>
      rw [hw] at h
      rw [← attackWriter_eq_refuse h]
      decide
  | write =>
    simp only [verdict] at h
    cases hw : locks.writer addr with
    | none =>
      rw [hw] at h
      rw [← attackReaders_eq_refuse h]
      decide
    | some w =>
      rw [hw] at h
      by_cases hwid : w ≠ id
      · simp only [if_pos hwid] at h
        rw [← attackWriter_eq_refuse h]
        decide
      · simp only [if_neg hwid] at h
        rw [← attackReaders_eq_refuse h]
        decide

/-- A request answered `NO_CONFLICT` has its lock. -/
theorem holdsAs_of_granted {cfg : Config} {s : LockService} {id addr : Nat} {rw : RW}
    (h : (serveRequest cfg s id addr rw).2 = .noConflict) :
    HoldsAs (serveRequest cfg s id addr rw).1.locks addr id rw := by
  unfold serveRequest at h ⊢
  cases hv : verdict cfg s.timestamp s.locks id addr rw with
  | refuse conflict =>
    rw [hv] at h
    exact absurd h (refuse_ne_noConflict hv)
  | grant victims => exact holdsAs_acquire _ _ _ _

end TM2C
