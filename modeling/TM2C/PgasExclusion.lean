import TM2C.MutualExclusion

/-!
# Mutual exclusion in the PGAS build

With `PGAS` the contention manager flags a victim and drops its buffered writes,
and leaves its locks in the table until the victim's own `RMV_NODE`.  What must
exclude each other are the grants of the nodes that are still alive.  A writer
that takes over an entry with a writer field loses track of the old one: its log
entry then passes for a read lock, and the readers beside a dead writer are never
asked.  As long as that does not happen live grants exclude each other and the
counters are right.

The grants of a run are a list beside the state: a message that is answered without a conflict
adds one, a release or a refusal removes those of the sender, and a preemption those of the
victim, although its locks are still in the table.  `LiveSound` says that the grants left are
locks of the table and exclude each other; that dead nodes hold locks, too, is harmless as long
as these are only in the way.

`pgasInsertR` and `pgasInsertW` take an insertion through the branches of the source: a free
slot, a slot with readers, a slot with a writer, dead or alive.  A write request over another
writer's entry is the one branch that loses something, and the condition on runs names it.  The
counters of the byte array are right in the same runs.
-/

namespace TM2C

open RwEntry LawfulRwEntry Transition

/-- The sender's attempt is over at this service node: it releases, or it is refused
and loses its locks. -/
def endsAttempt (req : Req) : Option Reply → Bool
  | some reply => decide (reply.response ≠ .noConflict)
  | none => decide (req.type = .rmvNode)

/-- The grants that are left are those of nodes whose abort flag has been
`NO_CONFLICT` since, and whose attempt is not over. -/
def servePgas {E : Type} [RwEntry E] (cfg : Config) (s : Serviced E) (e : DslEvent) : Serviced E :=
  let r := dslStep cfg s.dsl e
  let kept : List Grant :=
    match e with
    | .message _ sender req =>
      (if endsAttempt req r.2 then s.grants.filter fun g => decide (g.node ≠ sender)
        else s.grants) ++ grantOf sender req r.2
    | .abortFlag _ _ => s.grants
  ⟨r.1, kept.filter fun g => decide (r.1.abortFlags g.node = .noConflict)⟩

/-- A LOAD, STORE, STORE_INC or RMV_NODE of an application node. -/
def FromPgasApplication (cfg : Config) (bound : Nat) : DslEvent → Prop
  | .message _ sender req => (req.isTransactional ∨ req.type = .storeInc) ∧
      sender < bound ∧ sender < cfg.numUes ∧ (req.type ≠ .rmvNode → req.address ≠ 0)
  | .abortFlag _ _ => True

instance (cfg : Config) (bound : Nat) : DecidablePred (FromPgasApplication cfg bound)
  | .message _ sender req =>
    inferInstanceAs (Decidable ((req.isTransactional ∨ req.type = .storeInc) ∧
      sender < bound ∧ sender < cfg.numUes ∧ (req.type ≠ .rmvNode → req.address ≠ 0)))
  | .abortFlag _ _ => inferInstanceAs (Decidable True)

/-- A STORE or STORE_INC of an address whose entry has a writer is refused. -/
def KeepsWriter {E : Type} [RwEntry E] (cfg : Config) (s : Serviced E) : DslEvent → Prop
  | .message now sender req =>
    req.type = .store ∨ req.type = .storeInc →
      ∀ w ∈ (s.dsl.ht.lockMap true).writer req.address, w ≠ sender ∧
        ¬ Precedes (updateTimestamp cfg now sender req.txMetadata s.dsl.timestamp) sender w
  | .abortFlag _ _ => True

instance {E : Type} [RwEntry E] (cfg : Config) (s : Serviced E) : DecidablePred (KeepsWriter cfg s)
  | .message now sender req =>
    inferInstanceAs (Decidable (req.type = .store ∨ req.type = .storeInc →
      ∀ w ∈ (s.dsl.ht.lockMap true).writer req.address, w ≠ sender ∧
        ¬ Precedes (updateTimestamp cfg now sender req.txMetadata s.dsl.timestamp) sender w))
  | .abortFlag _ _ => inferInstanceAs (Decidable True)

section Insertion

variable {E : Type} [LawfulRwEntry E] {cfg : Config}

theorem abortDefender_pgas (hpgas : cfg.pgas = true) (s : Dsl E) (v : Nat) (conflict : Conflict) :
    (abortDefender cfg s v conflict).ht = s.ht ∧
      (abortDefender cfg s v conflict).abortFlags =
        Function.update s.abortFlags v (casAbortFlag (s.abortFlags v) conflict) := by
  unfold abortDefender
  rw [if_pos hpgas]
  exact ⟨rfl, rfl⟩

/-- Only nodes that were alive and not attacked are alive afterwards. -/
theorem alive_abortDefenders (hpgas : cfg.pgas = true) (conflict : Conflict)
    (hconflict : conflict ≠ .noConflict) (vs : List Nat) (s : Dsl E) :
    (vs.foldl (fun s v => abortDefender cfg s v conflict) s).ht = s.ht ∧
      ∀ n, (vs.foldl (fun s v => abortDefender cfg s v conflict) s).abortFlags n = .noConflict →
        s.abortFlags n = .noConflict ∧ n ∉ vs := by
  induction vs generalizing s with
  | nil => exact ⟨rfl, fun n hn => ⟨hn, List.not_mem_nil⟩⟩
  | cons v vs ih =>
    obtain ⟨hht, hflags⟩ := abortDefender_pgas hpgas s v conflict
    obtain ⟨hht', halive⟩ := ih (abortDefender cfg s v conflict)
    rw [List.foldl_cons]
    refine ⟨hht'.trans hht, ?_⟩
    intro n hn
    obtain ⟨hflag, hnot⟩ := halive n hn
    rw [hflags] at hflag
    by_cases hv : n = v
    · subst hv
      rw [Function.update_self] at hflag
      unfold casAbortFlag at hflag
      split at hflag
      · exact absurd hflag hconflict
      · rename_i hne
        exact absurd hflag hne
    · rw [Function.update_of_ne hv] at hflag
      exact ⟨hflag, by simp [hv, hnot]⟩

/-- A granted request: the lock is entered beside those of nodes that are dead. -/
structure PgasGranted (s : Dsl E) (id addr : Nat) (rw : RW) (s' : Dsl E) : Prop where
  accounted : Accounted true s'.ht
  locks : s'.ht.lockMap true = acquire (s.ht.lockMap true) id addr rw
  unwritten : rw = .write → (s.ht.lockMap true).writer addr = none
  alive : ∀ n, s'.abortFlags n = .noConflict → s.abortFlags n = .noConflict ∧
    (n ≠ id → (s.ht.lockMap true).writer addr ≠ some n ∧
      (rw = .write → (s.ht.lockMap true).reader addr n = false))

theorem pgasInsertR (hpgas : cfg.pgas = true) (hreal : cfg.cm.isReal = true) {s : Dsl E}
    (h : Accounted true s.ht) {id addr : Nat} (hid : id < idBound E) (haddr : addr ≠ 0)
    {r : Conflict × Dsl E} (hr : bucketInsertR cfg s (bucketOf true addr) id addr = r) :
    (r.1 ≠ .noConflict ∧ r.2 = s) ∨ (r.1 = .noConflict ∧ PgasGranted s id addr .read r.2) := by
  unfold bucketInsertR at hr
  cases hfind : bucketFind (s.ht.bucket (bucketOf true addr)) addr with
  | none =>
    -- a slot that is free or new, where nobody has a lock
    simp only [hfind] at hr
    subst hr
    right
    obtain ⟨sl, hzero, hfor⟩ := h.slotFor_alloc haddr hfind
    have h' := h.bucketAlloc (bucketOf true addr)
    obtain ⟨hw, hread⟩ := h'.free _ sl hfor.slot hzero
    have hmap := lockMap_bucketAlloc h (bucketOf true addr)
    have hnone : (s.ht.lockMap true).writer addr = none := by
      rw [← hmap, (hfor.lockMap_eq h').1]
      exact entryWriter_eq_none.mpr hw
    refine ⟨rfl, h'.markReader hfor hid fun _ => hread id, ?_, (fun hc => by cases hc), ?_⟩
    · exact (lockMap_markReader h' hfor hid fun _ => hread id).trans
        (congrArg (fun locks => acquire locks id addr .read) hmap)
    · intro n hn
      exact ⟨hn, fun _ => ⟨by rw [hnone]; simp, (fun hc => by cases hc)⟩⟩
  | some found =>
    obtain ⟨i, sl⟩ := found
    have hfor := h.slotFor_found haddr hfind
    have hwriter := (hfor.lockMap_eq h).1
    simp only [hfind] at hr
    by_cases hw : writer sl.entry = SSHT_NO_WRITER
    · -- the readers share the slot
      rw [if_neg (not_not_intro hw)] at hr
      subst hr
      right
      have hnone : (s.ht.lockMap true).writer addr = none := by
        rw [hwriter]
        exact entryWriter_eq_none.mpr hw
      refine ⟨rfl, h.markReaderFound hfor hid, lockMap_markReaderFound h hfor hid,
        (fun hc => by cases hc), ?_⟩
      intro n hn
      exact ⟨hn, fun _ => ⟨by rw [hnone]; simp, (fun hc => by cases hc)⟩⟩
    · rw [if_pos hw, if_pos hreal, contentionManagerRawWaw_eq] at hr
      have hsome : (s.ht.lockMap true).writer addr = some (writer sl.entry) := by
        rw [hwriter]
        exact entryWriter_eq_some.mpr ⟨rfl, hw⟩
      by_cases hwon : Precedes s.timestamp id (writer sl.entry)
      · -- the writer is killed; its mark stays in the table
        rw [if_pos hwon] at hr
        simp only [if_true] at hr
        subst hr
        right
        rcases alive_abortDefenders hpgas .readAfterWrite (by decide)
          [writer sl.entry] s with ⟨hht, halive⟩
        simp only [List.foldl_cons, List.foldl_nil] at hht halive
        refine ⟨rfl, ?_, ?_, (fun hc => by cases hc), ?_⟩
        · simp only [hht]
          exact h.markReaderFound hfor hid
        · simp only [hht]
          exact lockMap_markReaderFound h hfor hid
        · intro n hn
          obtain ⟨hflag, hnot⟩ := halive n hn
          refine ⟨hflag, fun _ => ⟨?_, (fun hc => by cases hc)⟩⟩
          rw [hsome]
          intro heq
          exact hnot (by rw [Option.some.inj heq]; simp)
      · rw [if_neg hwon] at hr
        simp only [Bool.false_eq_true, if_false] at hr
        subst hr
        exact Or.inl ⟨(fun hc => by cases hc), rfl⟩

theorem pgasInsertW (hpgas : cfg.pgas = true) (hreal : cfg.cm.isReal = true) {s : Dsl E}
    (h : Accounted true s.ht) (hbound : Bounded cfg (s.ht.lockMap true)) {id addr : Nat}
    (hid : id < idBound E) (haddr : addr ≠ 0)
    (hkeep : ∀ w ∈ (s.ht.lockMap true).writer addr, w ≠ id ∧ ¬ Precedes s.timestamp id w)
    {r : Conflict × Dsl E} (hr : bucketInsertW cfg s (bucketOf true addr) id addr = r) :
    (r.1 ≠ .noConflict ∧ r.2 = s) ∨ (r.1 = .noConflict ∧ PgasGranted s id addr .write r.2) := by
  unfold bucketInsertW at hr
  cases hfind : bucketFind (s.ht.bucket (bucketOf true addr)) addr with
  | none =>
    -- a slot that is free or new, where nobody has a lock
    simp only [hfind] at hr
    subst hr
    right
    obtain ⟨sl, hzero, hfor⟩ := h.slotFor_alloc haddr hfind
    have h' := h.bucketAlloc (bucketOf true addr)
    obtain ⟨hw, hread⟩ := h'.free _ sl hfor.slot hzero
    have hmap := lockMap_bucketAlloc h (bucketOf true addr)
    have hsl := hfor.lockMap_eq h'
    rw [hmap] at hsl
    have hnone : (s.ht.lockMap true).writer addr = none :=
      hsl.1.trans (entryWriter_eq_none.mpr hw)
    have hne : writer sl.entry ≠ id := hw ▸ (ne_noWriter hid).symm
    refine ⟨rfl, h'.markWriter hfor hid (Or.inl hw) fun _ => hne, ?_, fun _ => hnone, ?_⟩
    · exact (lockMap_markWriter h' hfor hid (Or.inl hw) fun _ => hne).trans
        (congrArg (fun locks => acquire locks id addr .write) hmap)
    · intro n hn
      exact ⟨hn, fun _ => ⟨by rw [hnone]; simp, fun _ => (hsl.2 n).trans (hread n)⟩⟩
  | some found =>
    obtain ⟨i, sl⟩ := found
    have hfor := h.slotFor_found haddr hfind
    have hsl := hfor.lockMap_eq h
    simp only [hfind] at hr
    by_cases hw : writer sl.entry = SSHT_NO_WRITER
    · have hnone : (s.ht.lockMap true).writer addr = none :=
        hsl.1.trans (entryWriter_eq_none.mpr hw)
      have hne : writer sl.entry ≠ id := hw ▸ (ne_noWriter hid).symm
      rw [if_neg (fun hc => hc.1 hw)] at hr
      by_cases hothers : hasOtherReaders sl.entry id = true
      · rw [if_pos hothers, if_pos hreal, contentionManagerWar_eq] at hr
        split at hr
        · -- all other readers are killed
          simp only [if_true] at hr
          subst hr
          right
          rcases alive_abortDefenders hpgas .writeAfterRead (by decide)
            ((List.range cfg.numUes).filter fun n => isReader sl.entry n && decide (n ≠ id)) s
            with ⟨hht, halive⟩
          refine ⟨rfl, ?_, ?_, fun _ => hnone, ?_⟩
          · simp only [hht]
            exact h.markWriter hfor hid (Or.inl hw) fun _ => hne
          · simp only [hht]
            exact lockMap_markWriter h hfor hid (Or.inl hw) fun _ => hne
          · intro n hn
            obtain ⟨hflag, hnot⟩ := halive n hn
            refine ⟨hflag, fun hnid => ⟨by rw [hnone]; simp, fun _ => ?_⟩⟩
            by_contra hread
            rw [Bool.not_eq_false] at hread
            apply hnot
            rw [List.mem_filter, List.mem_range]
            exact ⟨hbound addr n (Or.inr hread), by simp [← hsl.2, hread, hnid]⟩
        · simp only [Bool.false_eq_true, if_false] at hr
          subst hr
          exact Or.inl ⟨(fun hc => by cases hc), rfl⟩
      · -- nobody else reads the word
        rw [if_neg hothers] at hr
        subst hr
        right
        refine ⟨rfl, h.markWriter hfor hid (Or.inl hw) fun _ => hne,
          lockMap_markWriter h hfor hid (Or.inl hw) fun _ => hne, fun _ => hnone, ?_⟩
        intro n hn
        refine ⟨hn, fun hnid => ⟨by rw [hnone]; simp, fun _ => ?_⟩⟩
        by_contra hread
        rw [Bool.not_eq_false, hsl.2] at hread
        exact hothers ((hasOtherReaders_iff (h.valid _ sl hfor.slot) hid).mpr ⟨n, hnid, hread⟩)
    · -- the writer is kept, so the request is refused
      have hsome : (s.ht.lockMap true).writer addr = some (writer sl.entry) :=
        hsl.1.trans (entryWriter_eq_some.mpr ⟨rfl, hw⟩)
      obtain ⟨hne, hlost⟩ := hkeep _ hsome
      rw [if_pos ⟨hw, hne⟩, if_pos hreal, contentionManagerRawWaw_eq, if_neg hlost] at hr
      simp only [Bool.false_eq_true, if_false] at hr
      subst hr
      exact Or.inl ⟨(fun hc => by cases hc), rfl⟩

end Insertion

/-! ### The invariant -/

section Invariant

variable {E : Type} [LawfulRwEntry E] {cfg : Config}

/-- The live grants are locks of the table and exclude each other. -/
structure LiveSound (cfg : Config) (s : Dsl E) (grants : List Grant) : Prop where
  accounted : Accounted true s.ht
  bounded : Bounded cfg (s.ht.lockMap true)
  granted : ∀ g ∈ grants, HoldsAs (s.ht.lockMap true) g.address g.node g.rw
  exclusive : GrantsExclusive grants

theorem LiveSound.weaken {s s' : Dsl E} {grants grants' : List Grant} (h : LiveSound cfg s grants)
    (hht : s'.ht = s.ht) (hsub : ∀ g ∈ grants', g ∈ grants) : LiveSound cfg s' grants' where
  accounted := hht ▸ h.accounted
  bounded := hht ▸ h.bounded
  granted g hg := hht ▸ h.granted g (hsub g hg)
  exclusive g hg g' hg' := h.exclusive g (hsub g hg) g' (hsub g' hg')

theorem LiveSound.deleteNode {s s' : Dsl E} {grants grants' : List Grant}
    (h : LiveSound cfg s grants) {sender : Nat} (hsender : sender < idBound E)
    (hht : s'.ht = tm2cHtDeleteNode s.ht sender)
    (hsub : ∀ g ∈ grants', g ∈ grants ∧ g.node ≠ sender) : LiveSound cfg s' grants' where
  accounted := hht ▸ h.accounted.deleteNode hsender
  bounded a n hn := by
    rw [hht, lockMap_deleteNode h.accounted hsender] at hn
    exact h.bounded a n (LockMap.holds_release.mp hn).1
  granted g hg := by
    rw [hht, lockMap_deleteNode h.accounted hsender]
    exact holdsAs_release.mpr ⟨h.granted g (hsub g hg).1, (hsub g hg).2⟩
  exclusive g hg g' hg' := h.exclusive g (hsub g hg).1 g' (hsub g' hg').1

theorem LiveSound.grant {s s' s'' : Dsl E} {grants grants' : List Grant}
    (h : LiveSound cfg s grants) {sender addr : Nat} {rw : RW} (hsender : sender < cfg.numUes)
    (hgranted : PgasGranted s sender addr rw s') (hht : s''.ht = s'.ht)
    (hflags : s''.abortFlags = s'.abortFlags)
    (hsub : ∀ g ∈ grants', (g ∈ grants ∨ g = ⟨sender, addr, rw⟩) ∧
      s''.abortFlags g.node = .noConflict) : LiveSound cfg s'' grants' where
  accounted := hht ▸ hgranted.accounted
  bounded a n hn := by
    rw [hht, hgranted.locks] at hn
    rcases holds_acquire hn with rfl | hold
    · exact hsender
    · exact h.bounded a n hold
  granted g hg := by
    rw [hht, hgranted.locks]
    rcases (hsub g hg).1 with hold | rfl
    · refine holdsAs_acquire_of_holdsAs (h.granted g hold) ?_
      intro hwrite w hw
      rw [hgranted.unwritten hwrite] at hw
      cases hw
    · exact holdsAs_acquire _ _ _ _
  exclusive := by
    -- a live node with a conflicting lock would have been attacked
    have hconflict : ∀ g ∈ grants, s''.abortFlags g.node = .noConflict → g.address = addr →
        (g.rw = .write ∨ rw = .write) → g.node = sender := by
      intro g hg hflag haddr hwrite
      by_contra hne
      obtain ⟨hnot, hread⟩ := (hgranted.alive g.node (hflags ▸ hflag)).2 hne
      have hholds := h.granted g hg
      rw [haddr] at hholds
      cases hrw : g.rw with
      | write =>
        rw [hrw] at hholds
        exact hnot hholds
      | read =>
        rw [hrw] at hholds
        have hfalse := hread (hwrite.resolve_left (by rw [hrw]; decide))
        have htrue : (s.ht.lockMap true).reader addr g.node = true := hholds
        rw [hfalse] at htrue
        cases htrue
    intro g hg g' hg' hwrite haddr
    obtain ⟨hold | rfl, hflag⟩ := hsub g hg
    · obtain ⟨hold' | rfl, -⟩ := hsub g' hg'
      · exact h.exclusive g hold g' hold' hwrite haddr
      · exact hconflict g hold hflag haddr (Or.inl hwrite)
    · obtain ⟨hold' | rfl, hflag'⟩ := hsub g' hg'
      · exact (hconflict g' hold' hflag' haddr.symm (Or.inr hwrite)).symm
      · rfl

/-- A request and what follows its reply. -/
theorem LiveSound.request {s s' s'' : Dsl E} {grants grants' : List Grant}
    (h : LiveSound cfg s grants) {sender addr : Nat} {rw : RW} (hid : sender < idBound E)
    (hsender : sender < cfg.numUes) {conflict : Conflict}
    (hinsert : (conflict ≠ .noConflict ∧ s' = s) ∨
      (conflict = .noConflict ∧ PgasGranted s sender addr rw s'))
    (hrefused : conflict ≠ .noConflict → s''.ht = tm2cHtDeleteNode s'.ht sender)
    (hserved : conflict = .noConflict → s''.ht = s'.ht ∧ s''.abortFlags = s'.abortFlags)
    (hsub : ∀ g ∈ grants', s''.abortFlags g.node = .noConflict ∧
      if conflict = .noConflict then g ∈ grants ∨ g = ⟨sender, addr, rw⟩
      else g ∈ grants ∧ g.node ≠ sender) : LiveSound cfg s'' grants' := by
  rcases hinsert with ⟨hno, rfl⟩ | ⟨hok, hgranted⟩
  · refine h.deleteNode hid (hrefused hno) ?_
    intro g hg
    have := (hsub g hg).2
    rwa [if_neg hno] at this
  · obtain ⟨hht, hflags⟩ := hserved hok
    refine h.grant hsender hgranted hht hflags ?_
    intro g hg
    have := (hsub g hg).2
    rw [if_pos hok] at this
    exact ⟨this, (hsub g hg).1⟩

/-- What a request leaves: the insertion, and then the deletion of a refused sender
or the buffered write. -/
theorem dslSwitch_pgasRequest (hpgas : cfg.pgas = true) (s : Dsl E) (sender : Nat) {req : Req}
    {rw : RW} (htype : (req.type = .load ∧ rw = .read) ∨
      ((req.type = .store ∨ req.type = .storeInc) ∧ rw = .write)) :
    let r := tm2cHtInsert cfg s sender req.address rw
    let r' := dslSwitch cfg s sender req
    (r.1 ≠ .noConflict → r'.1.ht = tm2cHtDeleteNode r.2.ht sender) ∧
    (r.1 = .noConflict → r'.1.ht = r.2.ht ∧ r'.1.abortFlags = r.2.abortFlags) ∧
    endsAttempt req r'.2 = decide (r.1 ≠ .noConflict) ∧
    ∀ g ∈ grantOf sender req r'.2, r.1 = .noConflict ∧ g = ⟨sender, req.address, rw⟩ := by
  have hgrant : ∀ (type : ReplyType) (value : BitVec 64) (conflict : Conflict),
      (type = .loadResponse ∧ rw = .read) ∨ (type = .storeResponse ∧ rw = .write) →
      ∀ g ∈ grantOf sender req (some ⟨type, req.address, value, conflict⟩),
        conflict = .noConflict ∧ g = ⟨sender, req.address, rw⟩ := by
    intro type value conflict hkind g hg
    rcases hkind with ⟨rfl, rfl⟩ | ⟨rfl, rfl⟩
    · cases conflict with
      | noConflict => exact ⟨rfl, List.mem_singleton.mp hg⟩
      | readAfterWrite | writeAfterRead | writeAfterWrite | persistingWrites | txCommitted =>
        cases hg
    · cases conflict with
      | noConflict => exact ⟨rfl, List.mem_singleton.mp hg⟩
      | readAfterWrite | writeAfterRead | writeAfterWrite | persistingWrites | txCommitted =>
        cases hg
  rcases hr : tm2cHtInsert cfg s sender req.address rw with ⟨conflict, s'⟩
  rcases htype with ⟨htype, rfl⟩ | ⟨htype | htype, rfl⟩
  · have htry : tryLoad cfg s sender req.address = (conflict, s') := hr
    simp only [dslSwitch, htype, handleLoad, htry]
    refine ⟨?_, ?_, rfl, hgrant _ _ conflict (Or.inl ⟨rfl, rfl⟩)⟩
    · intro hno
      rw [if_pos hno]
      exact ht_refuse cfg s' sender
    · intro hok
      rw [if_neg (not_not_intro hok)]
      exact ⟨rfl, rfl⟩
  · have htry : tryStore cfg s sender req.address = (conflict, s') := hr
    simp only [dslSwitch, htype, handleStore, htry]
    refine ⟨?_, ?_, rfl, hgrant _ _ conflict (Or.inr ⟨rfl, rfl⟩)⟩
    · intro hno
      rw [if_pos hno]
      exact ht_refuse cfg s' sender
    · intro hok
      rw [if_neg (not_not_intro hok), if_pos hpgas]
      exact ⟨rfl, rfl⟩
  · have htry : tryStore cfg s sender req.address = (conflict, s') := hr
    simp only [dslSwitch, htype, handleStoreInc, htry, if_pos hpgas]
    refine ⟨?_, ?_, rfl, hgrant _ _ conflict (Or.inr ⟨rfl, rfl⟩)⟩
    · intro hno
      rw [if_pos hno]
      exact ht_refuse cfg s' sender
    · intro hok
      rw [if_neg (not_not_intro hok)]
      exact ⟨rfl, rfl⟩

theorem LiveSound.step (hpgas : cfg.pgas = true) (hreal : cfg.cm.isReal = true) {s : Serviced E}
    (h : LiveSound cfg s.dsl s.grants) {e : DslEvent}
    (hfrom : FromPgasApplication cfg (idBound E) e) (hkeep : KeepsWriter cfg s e) :
    LiveSound cfg (servePgas cfg s e).dsl (servePgas cfg s e).grants := by
  cases e with
  | abortFlag node flag =>
    exact h.weaken rfl fun g hg => List.mem_of_mem_filter hg
  | message now sender req =>
    obtain ⟨htype, hid, hsender, haddr⟩ := hfrom
    let s₁ : Dsl E :=
      { s.dsl with timestamp := updateTimestamp cfg now sender req.txMetadata s.dsl.timestamp }
    have h₁ : LiveSound cfg s₁ s.grants := h.weaken rfl fun _ hg => hg
    -- the three kinds of request differ in the lock and in what else they do with the write sets
    have hrequest : ∀ rw : RW, ((req.type = .load ∧ rw = .read) ∨
          ((req.type = .store ∨ req.type = .storeInc) ∧ rw = .write)) →
        LiveSound cfg (servePgas cfg s (.message now sender req)).dsl
          (servePgas cfg s (.message now sender req)).grants := by
      intro rw hrw
      have haddr' : req.address ≠ 0 := haddr (by
        rcases hrw with ⟨ht, -⟩ | ⟨ht | ht, -⟩ <;> rw [ht] <;> decide)
      obtain ⟨hrefused, hserved, hends, hnew⟩ := dslSwitch_pgasRequest hpgas s₁ sender hrw
      have hinsert : ((tm2cHtInsert cfg s₁ sender req.address rw).1 ≠ .noConflict ∧
            (tm2cHtInsert cfg s₁ sender req.address rw).2 = s₁) ∨
          ((tm2cHtInsert cfg s₁ sender req.address rw).1 = .noConflict ∧
            PgasGranted s₁ sender req.address rw
              (tm2cHtInsert cfg s₁ sender req.address rw).2) := by
        unfold tm2cHtInsert
        rw [hpgas]
        rcases hrw with ⟨-, rfl⟩ | ⟨ht, rfl⟩
        · exact pgasInsertR hpgas hreal h₁.accounted hid haddr' rfl
        · exact pgasInsertW hpgas hreal h₁.accounted h₁.bounded hid haddr' (hkeep ht) rfl
      refine h₁.request hid hsender hinsert hrefused hserved ?_
      intro g hg
      obtain ⟨hmem, hflag⟩ := List.mem_filter.mp hg
      refine ⟨of_decide_eq_true hflag, ?_⟩
      rcases List.mem_append.mp hmem with hold | hgrant
      · -- a grant of before, which a refusal of its node takes away
        change g ∈ (if endsAttempt req (dslSwitch cfg s₁ sender req).2 = true then _ else _)
          at hold
        rw [hends] at hold
        by_cases hok : (tm2cHtInsert cfg s₁ sender req.address rw).1 = .noConflict
        · rw [if_pos hok]
          rw [if_neg (by simp [hok])] at hold
          exact Or.inl hold
        · rw [if_neg hok]
          rw [if_pos (by simp [hok])] at hold
          obtain ⟨hg', hne⟩ := List.mem_filter.mp hold
          exact ⟨hg', of_decide_eq_true hne⟩
      · obtain ⟨hok, rfl⟩ := hnew g hgrant
        rw [if_pos hok]
        exact Or.inr rfl
    rcases htype with (ht | ht | ht) | ht
    · exact hrequest .read (Or.inl ⟨ht, rfl⟩)
    · exact hrequest .write (Or.inr ⟨Or.inl ht, rfl⟩)
    · -- the release
      refine h₁.deleteNode hid ?_ ?_
      · change (dslSwitch cfg s₁ sender req).1.ht = _
        simp only [dslSwitch, ht]
        exact ht_handleRmvNode cfg s₁ sender req
      · intro g hg
        have hreply : (dslSwitch cfg s₁ sender req).2 = none := by
          simp only [dslSwitch, ht, handleRmvNode]
        have hmem := List.mem_of_mem_filter hg
        change g ∈ (if endsAttempt req (dslSwitch cfg s₁ sender req).2 = true then _ else _) ++
          grantOf sender req (dslSwitch cfg s₁ sender req).2 at hmem
        rw [hreply, if_pos (by simp [endsAttempt, ht])] at hmem
        rcases List.mem_append.mp hmem with hold | hnone
        · obtain ⟨hg', hne⟩ := List.mem_filter.mp hold
          exact ⟨hg', of_decide_eq_true hne⟩
        · cases hnone
    · exact hrequest .write (Or.inr ⟨Or.inr ht, rfl⟩)

theorem liveSound_init (cfg : Config) :
    LiveSound cfg (servicedInit : Serviced E).dsl (servicedInit : Serviced E).grants where
  accounted := accounted_sshtNew true
  bounded a n hn := by
    have hmap : (sshtNew : Ssht E).lockMap true = LockMap.empty := lockMap_sshtNew true
    have hn' : ((sshtNew : Ssht E).lockMap true).Holds a n := hn
    rw [hmap] at hn'
    simp [LockMap.Holds] at hn'
  granted g hg := by cases hg
  exclusive g hg := by cases hg

theorem LiveSound.run (hpgas : cfg.pgas = true) (hreal : cfg.cm.isReal = true)
    {es : List DslEvent} {s : Serviced E}
    (hes : ∀ e ∈ es, FromPgasApplication cfg (idBound E) e)
    (hexec : Exec (restrict (KeepsWriter cfg) (graph (servePgas cfg))) servicedInit es s) :
    LiveSound cfg s.dsl s.grants := by
  refine (hexec.restrict_of_forall hes).invariant (fun s => LiveSound cfg s.dsl s.grants) ?_
    (liveSound_init cfg)
  rintro s e t hs ⟨hfrom, hkeep, rfl⟩
  exact hs.step hpgas hreal hfrom hkeep

end Invariant

/-- Every counter of the table is right. -/
def Counted (t : Ssht ByteEntry) : Prop :=
  ∀ p sl, t.slot? p = some sl → sl.entry.nr = sl.entry.readerSet.card

/-- **Mutual exclusion in the PGAS build.**  In a run in which no writer field is
overwritten, live grants exclude each other and the counters are right. -/
theorem pgasTable_mutualExclusion (cfg : Config) (hpgas : cfg.pgas = true)
    (hreal : cfg.cm.isReal = true) (es : List DslEvent) (s : Serviced ByteEntry)
    (hes : ∀ e ∈ es, FromPgasApplication cfg SSHT_NO_WRITER e)
    (hexec : Exec (restrict (KeepsWriter cfg) (graph (servePgas cfg))) servicedInit es s) :
    GrantsExclusive s.grants ∧ Counted s.dsl.ht := by
  have hlive : LiveSound cfg s.dsl s.grants := LiveSound.run hpgas hreal hes hexec
  exact ⟨hlive.exclusive, fun p sl hslot => (hlive.accounted.valid p sl hslot).nr_eq⟩

def pgasServiceConfig : Config := ⟨.wholly, true, false, 4⟩

/-- A writer is killed by a reader, removes itself, and another writer comes. -/
def killedWriterRun : List DslEvent :=
  [.message 0 1 { type := .store, address := 64, txMetadata := 5 },
   .message 0 2 { type := .load, address := 64, txMetadata := 1 },
   .message 0 1 { type := .rmvNode, address := 0, value := 2, txMetadata := 5 },
   .abortFlag 1 .noConflict,
   .message 0 3 { type := .storeInc, address := 72, txMetadata := 3 }]

theorem pgasTable_mutualExclusion_killedWriterRun :
    GrantsExclusive (killedWriterRun.foldl (servePgas pgasServiceConfig)
        (servicedInit : Serviced ByteEntry)).grants ∧
      Counted (killedWriterRun.foldl (servePgas pgasServiceConfig) servicedInit).dsl.ht :=
  pgasTable_mutualExclusion pgasServiceConfig rfl rfl killedWriterRun _ (by decide)
    (Exec.cons ⟨by decide +kernel, rfl⟩ (Exec.cons ⟨by decide +kernel, rfl⟩
      (Exec.cons ⟨by decide +kernel, rfl⟩ (Exec.cons ⟨by decide +kernel, rfl⟩
        (Exec.cons ⟨by decide +kernel, rfl⟩ (Exec.nil _))))))

/-- The writer is dead, so the third node asks only a dead one. -/
def thirdWriterRun : List DslEvent :=
  [.message 0 1 { type := .store, address := 64, txMetadata := 5 },
   .message 0 2 { type := .load, address := 64, txMetadata := 1 },
   .message 0 3 { type := .store, address := 64, txMetadata := 3 }]

/-- The overwritten writer releases. -/
def overwrittenWriterRun : List DslEvent :=
  [.message 0 1 { type := .store, address := 64, txMetadata := 5 },
   .message 0 2 { type := .store, address := 64, txMetadata := 1 },
   .message 0 1 { type := .rmvNode, address := 0, value := 3, txMetadata := 5 }]

theorem overwritten_writer_breaks_exclusion :
    (∀ e ∈ thirdWriterRun ++ overwrittenWriterRun,
      FromPgasApplication pgasServiceConfig SSHT_NO_WRITER e) ∧
    ¬ GrantsExclusive (thirdWriterRun.foldl (servePgas pgasServiceConfig)
      (servicedInit : Serviced ByteEntry)).grants ∧
    ¬ Counted (overwrittenWriterRun.foldl (servePgas pgasServiceConfig) servicedInit).dsl.ht := by
  refine ⟨by decide, ?_, ?_⟩
  · have hgrants : (thirdWriterRun.foldl (servePgas pgasServiceConfig)
        (servicedInit : Serviced ByteEntry)).grants = [⟨2, 64, .read⟩, ⟨3, 64, .write⟩] := by
      decide +kernel
    rw [hgrants]
    intro h
    have := h ⟨3, 64, .write⟩ (by simp) ⟨2, 64, .read⟩ (by simp) rfl rfl
    exact absurd this (by decide)
  · intro h
    have hslot : (((overwrittenWriterRun.foldl (servePgas pgasServiceConfig)
        servicedInit).dsl.ht.slot? (bucketOf true 64, 0)).map fun sl : Slot ByteEntry =>
          (sl.entry.nr, sl.entry.readerSet.card)) = some (255, 0) := by
      decide +kernel
    obtain ⟨sl, hsl, hcount⟩ := Option.map_eq_some_iff.mp hslot
    have := h _ sl hsl
    rw [Prod.mk.injEq] at hcount
    omega

end TM2C
