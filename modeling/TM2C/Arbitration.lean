import TM2C.Insertion
import TM2C.MutualExclusion

/-!
# Arbitration is all or nothing

What one `tm2c_ht_insert` does to a lock table, with a real contention manager and
outside the PGAS build: the requester gets its lock exactly if it precedes every
other node whose lock is in the way, and then all of these are aborted and deleted
and nobody else is touched; otherwise nothing happens at all.

The three code paths, a reader against a writer, a writer against a writer and a writer
against readers, decide by one rule (`decides_verdict`), which is a statement about the
lock map of the table.  What a grant does to the locks is then the abstract `acquire`
after the victims were released, by the refinement of `TM2C.LockTable`, and what it does
to the abort flags is read off the contention manager (`abortFlags_insert`).  A victim
that is running is aborted with the reason of the request.  One that was aborted before
or has committed keeps its flag.  One that persists its writes is waited for: it commits,
and is aborted only if it has begun anew when the service node looks again.
-/

namespace TM2C

open RwEntry LawfulRwEntry Transition

variable {E : Type} [LawfulRwEntry E] {cfg : Config}

/-- A consistent table: `Valid` says of the byte array that `nr` counts the set reader
flags, so that it is 0 in a free slot. -/
structure Consistent (cfg : Config) (t : Ssht E) : Prop where
  placed : Placed false t
  valid : ∀ p sl, t.slot? p = some sl → Valid sl.entry
  free : ∀ p sl, t.slot? p = some sl → sl.addr = 0 → Empty sl.entry
  exclusive : ∀ p sl n, t.slot? p = some sl → writer sl.entry ≠ SSHT_NO_WRITER →
    isReader sl.entry n = true → n = writer sl.entry
  writer_lt : ∀ p sl, t.slot? p = some sl → writer sl.entry ≠ SSHT_NO_WRITER →
    writer sl.entry < cfg.numUes ∧ writer sl.entry < idBound E
  reader_lt : ∀ p sl n, t.slot? p = some sl → isReader sl.entry n = true → n < cfg.numUes
  logged : ∀ n p, n < idBound E → (t.logs n).count p = t.lockCount p n

/-- The node holds a lock that is in the way of the request of `id`. -/
def InTheWay (locks : LockMap Nat Nat) (id addr : Nat) (rw : RW) (n : Nat) : Prop :=
  n ≠ id ∧
    match rw with
    | .read => locks.writer addr = some n
    | .write => locks.Holds addr n

/-- The reason with which the nodes in the way are aborted. -/
def abortReason (locks : LockMap Nat Nat) (addr : Nat) : RW → Conflict
  | .read => .readAfterWrite
  | .write => if (locks.writer addr).isSome then .writeAfterWrite else .writeAfterRead

/-! ### Consistent tables -/

section Tables

variable {t : Ssht E}

theorem Consistent.accounted (h : Consistent cfg t) : Accounted false t where
  toPlaced := h.placed
  valid := h.valid
  writer_lt := by
    intro p sl hslot
    by_cases hno : writer sl.entry = SSHT_NO_WRITER
    · exact Or.inl hno
    · exact Or.inr (h.writer_lt p sl hslot hno).2
  free := h.free
  covered := fun n p hn => (h.logged n p hn).ge
  counted := fun n p hn _ => (h.logged n p hn).le
  pointed := fun n p hn hpos => (h.logged n p hn) ▸ hpos

theorem Consistent.exclusive_lockMap (h : Consistent cfg t) : (t.lockMap false).Exclusive := by
  have hacc := h.accounted
  intro a w n hw hr
  obtain ⟨p, sl, hslot, haddr, rfl, hne⟩ := (writer_lockMap_eq_some hacc).mp hw
  obtain ⟨q, sl', hslot', haddr', hread⟩ := (reader_lockMap_eq_true hacc).mp hr
  have hzero : sl.addr ≠ 0 := fun hzero => hne (h.free p sl hslot hzero).1
  obtain rfl := h.placed.unique p q sl sl' hslot hslot' hzero (haddr.trans haddr'.symm)
  rw [hslot, Option.some.injEq] at hslot'
  exact h.exclusive p sl n hslot hne (hslot' ▸ hread)

theorem Consistent.bounded (h : Consistent cfg t) : Bounded cfg (t.lockMap false) := by
  have hacc := h.accounted
  intro a n hn
  rcases hn with hw | hr
  · obtain ⟨p, sl, hslot, -, rfl, hne⟩ := (writer_lockMap_eq_some hacc).mp hw
    exact (h.writer_lt p sl hslot hne).1
  · obtain ⟨p, sl, hslot, -, hread⟩ := (reader_lockMap_eq_true hacc).mp hr
    exact h.reader_lt p sl n hslot hread

/-- The tables that a service node with the byte array reaches are consistent. -/
theorem Sound.consistent {s : Serviced E} (h : Sound cfg s) (hexact : exact E = true) :
    Consistent cfg s.dsl.ht where
  placed := h.accounted.toPlaced
  valid := h.accounted.valid
  free := h.accounted.free
  exclusive := fun _ _ _ hslot hno hread => h.reader_eq_writer hslot hno hread
  writer_lt := by
    intro p sl hslot hno
    have hw : (s.dsl.ht.lockMap false).Holds sl.addr (writer sl.entry) :=
      Or.inl ((writer_lockMap_eq_some h.accounted).mpr ⟨p, sl, hslot, rfl, rfl, hno⟩)
    exact ⟨h.bounded _ _ hw, h.accounted.lt_idBound hw⟩
  reader_lt := by
    intro p sl n hslot hread
    exact h.bounded sl.addr n
      (Or.inr ((reader_lockMap_eq_true h.accounted).mpr ⟨p, sl, hslot, rfl, hread⟩))
  logged := fun n p hn =>
    Nat.le_antisymm (h.accounted.counted n p hn hexact) (h.accounted.covered n p hn)

end Tables

/-! ### Verdicts -/

section Verdicts

variable {timestamp : Nat → Nat} {locks : LockMap Nat Nat} {id addr : Nat}

/-- The request is granted, with the nodes that satisfy `P` as its victims, or refused,
as `id` precedes all of them or not. -/
def Decides (timestamp : Nat → Nat) (id : Nat) (P : Nat → Prop) (v : Verdict) : Prop :=
  (∃ victims, v = .grant victims ∧ (∀ n, n ∈ victims ↔ P n) ∧
    ∀ n, P n → Precedes timestamp id n) ∨
  ∃ conflict, v = .refuse conflict ∧ ∃ n, P n ∧ ¬ Precedes timestamp id n

theorem decides_grant_nil {P : Nat → Prop} (hP : ∀ n, ¬ P n) :
    Decides timestamp id P (.grant []) := by
  refine Or.inl ⟨[], rfl, ?_, fun n hn => absurd hn (hP n)⟩
  intro n
  exact iff_of_false List.not_mem_nil (hP n)

theorem decides_attackWriter (hreal : cfg.cm.isReal = true) (conflict : Conflict) {w : Nat}
    {P : Nat → Prop} (hP : ∀ n, P n ↔ n = w) :
    Decides timestamp id P (attackWriter cfg timestamp id w conflict) := by
  unfold attackWriter
  by_cases hprec : Precedes timestamp id w
  · rw [if_pos ⟨hreal, hprec⟩]
    refine Or.inl ⟨[w], rfl, ?_, ?_⟩
    · intro n
      rw [List.mem_singleton, hP]
    · intro n hn
      rw [(hP n).mp hn]
      exact hprec
  · rw [if_neg fun h => hprec h.2]
    exact Or.inr ⟨conflict, rfl, w, (hP w).mpr rfl, hprec⟩

theorem decides_attackReaders (hreal : cfg.cm.isReal = true) (conflict : Conflict)
    {readers : Nat → Bool} {P : Nat → Prop} (hreaders : ∀ n, readers n = true → n < cfg.numUes)
    (hP : ∀ n, P n ↔ n ≠ id ∧ readers n = true) :
    Decides timestamp id P (attackReaders cfg timestamp id readers conflict) := by
  have hothers : ∀ n, n ∈ ((List.range cfg.numUes).filter
      fun n => readers n && decide (n ≠ id)) ↔ P n := by
    intro n
    rw [hP, List.mem_filter, List.mem_range, Bool.and_eq_true, decide_eq_true_eq]
    constructor
    · rintro ⟨-, hread, hne⟩
      exact ⟨hne, hread⟩
    · rintro ⟨hne, hread⟩
      exact ⟨hreaders n hread, hread, hne⟩
  unfold attackReaders
  generalize ((List.range cfg.numUes).filter fun n => readers n && decide (n ≠ id)) = others
    at hothers
  by_cases hnil : others = []
  · simp only [if_pos hnil]
    apply decides_grant_nil
    intro n hn
    rw [← hothers, hnil] at hn
    cases hn
  · by_cases hall : ∀ n ∈ others, Precedes timestamp id n
    · simp only [if_neg hnil, if_pos (And.intro hreal hall)]
      exact Or.inl ⟨others, rfl, hothers, fun n hn => hall n ((hothers n).mpr hn)⟩
    · simp only [if_neg hnil, if_neg fun h : _ ∧ _ => hall h.2]
      rw [not_forall] at hall
      obtain ⟨n, hn⟩ := hall
      rw [not_forall] at hn
      obtain ⟨hmem, hprec⟩ := hn
      exact Or.inr ⟨conflict, rfl, n, (hothers n).mp hmem, hprec⟩

/-- The three code paths decide by the same rule. -/
theorem decides_verdict (hreal : cfg.cm.isReal = true) (hex : locks.Exclusive)
    (hbound : Bounded cfg locks) (hself : locks.writer addr ≠ some id) (rw : RW) :
    Decides timestamp id (InTheWay locks id addr rw)
      (verdict cfg timestamp locks id addr rw) := by
  cases hw : locks.writer addr with
  | none =>
    cases rw with
    | read =>
      simp only [verdict, hw]
      apply decides_grant_nil
      rintro n ⟨-, hn⟩
      simp only [hw] at hn
      cases hn
    | write =>
      simp only [verdict, hw]
      apply decides_attackReaders hreal _ fun n hn => hbound addr n (Or.inr hn)
      intro n
      simp [InTheWay, LockMap.Holds, hw]
  | some w =>
    have hne : w ≠ id := by
      rintro rfl
      exact hself hw
    cases rw with
    | read =>
      simp only [verdict, hw]
      apply decides_attackWriter hreal
      intro n
      simp only [InTheWay, hw, Option.some.injEq]
      constructor
      · rintro ⟨-, hn⟩
        exact hn.symm
      · rintro rfl
        exact ⟨hne, rfl⟩
    | write =>
      simp only [verdict, hw, if_pos hne]
      apply decides_attackWriter hreal
      intro n
      simp only [InTheWay, LockMap.Holds, hw, Option.some.injEq]
      constructor
      · rintro ⟨-, rfl | hread⟩
        · rfl
        · exact hex addr w n hw hread
      · rintro rfl
        exact ⟨hne, Or.inl rfl⟩

end Verdicts

/-! ### Abort flags -/

section Flags

theorem abortNode_ne (flag : Conflict) (found : SettledFlag) {reason : Conflict}
    (h : reason ≠ .noConflict ∧ reason ≠ .persistingWrites) :
    abortNode flag found reason ≠ .noConflict ∧
      abortNode flag found reason ≠ .persistingWrites := by
  refine casAbortFlag_ne ?_ h
  by_cases hflag : flag = .persistingWrites
  · rw [if_pos hflag]
    exact found.2
  · rwa [if_neg hflag]

/-- Whoever is aborted twice is aborted once. -/
theorem abortNode_abortNode (flag : Conflict) (found : SettledFlag) {reason : Conflict}
    (h : reason ≠ .noConflict ∧ reason ≠ .persistingWrites) :
    abortNode (abortNode flag found reason) found reason = abortNode flag found reason := by
  obtain ⟨hset, hsettled⟩ := abortNode_ne flag found h
  generalize abortNode flag found reason = flag' at hset hsettled ⊢
  rw [abortNode, if_neg hsettled, casAbortFlag, if_neg hset]

theorem abortFlags_foldl_abortDefender (hpgas : cfg.pgas = false) (vs : List Nat) (s : Dsl E)
    {reason : Conflict} (h : reason ≠ .noConflict ∧ reason ≠ .persistingWrites) (n : Nat) :
    (vs.foldl (fun s v => abortDefender cfg s v reason) s).abortFlags n =
      if n ∈ vs then abortNode (s.abortFlags n) (s.reread n) reason else s.abortFlags n := by
  induction vs generalizing s with
  | nil => rfl
  | cons v vs ih =>
    have hreread : (abortDefender cfg s v reason).reread = s.reread := by
      simp [abortDefender, hpgas]
    have hstep : (abortDefender cfg s v reason).abortFlags n =
        if n = v then abortNode (s.abortFlags n) (s.reread n) reason else s.abortFlags n := by
      by_cases hn : n = v
      · subst hn
        simp [abortDefender, hpgas]
      · simp [abortDefender, hpgas, hn]
    rw [List.foldl_cons, ih, hstep, hreread]
    by_cases hn : n = v
    · simp [hn, abortNode_abortNode _ _ h]
    · simp [hn]

theorem abortReason_ne (locks : LockMap Nat Nat) (addr : Nat) (rw : RW) :
    abortReason locks addr rw ≠ .noConflict ∧ abortReason locks addr rw ≠ .persistingWrites := by
  unfold abortReason
  cases rw with
  | read => exact ⟨Conflict.noConfusion, Conflict.noConfusion⟩
  | write =>
    simp only
    split <;> exact ⟨Conflict.noConfusion, Conflict.noConfusion⟩

variable {s : Dsl E} {id addr : Nat}

/-- The victims of a request, as their flags see it. -/
theorem abortFlags_bucketInsertR (h : Accounted false s.ht) (haddr : addr ≠ 0)
    {victims : List Nat}
    (hv : verdict cfg s.timestamp (s.ht.lockMap false) id addr .read = .grant victims) :
    (bucketInsertR cfg s (bucketOf false addr) id addr).2.abortFlags =
      (victims.foldl (fun s v => abortDefender cfg s v .readAfterWrite) s).abortFlags := by
  unfold bucketInsertR
  cases hfind : bucketFind (s.ht.bucket (bucketOf false addr)) addr with
  | none =>
    simp only [verdict, (Ssht.lockMap_of_notFound hfind).1, Verdict.grant.injEq] at hv
    rw [← hv]
    rfl
  | some r =>
    obtain ⟨i, sl⟩ := r
    have hwriter := ((h.slotFor_found haddr hfind).lockMap_eq h).1
    simp only [verdict, hwriter] at hv
    by_cases hno : writer sl.entry = SSHT_NO_WRITER
    · rw [entryWriter_eq_none.mpr hno] at hv
      obtain rfl := Verdict.grant.inj hv
      simp only [hno, ne_eq, not_true_eq_false, if_false]
      rfl
    · rw [entryWriter_eq_some.mpr ⟨rfl, hno⟩] at hv
      obtain ⟨rfl, hreal, hprec⟩ := attackWriter_eq_grant.mp hv
      simp only [ne_eq, hno, not_false_eq_true, if_true, hreal, contentionManagerRawWaw_eq,
        if_pos hprec]
      rfl

theorem abortFlags_bucketInsertW (h : Accounted false s.ht)
    (hbound : Bounded cfg (s.ht.lockMap false)) (hid : id < idBound E) (haddr : addr ≠ 0)
    (hself : (s.ht.lockMap false).writer addr ≠ some id) {victims : List Nat}
    (hv : verdict cfg s.timestamp (s.ht.lockMap false) id addr .write = .grant victims) :
    (bucketInsertW cfg s (bucketOf false addr) id addr).2.abortFlags =
      (victims.foldl (fun s' v =>
        abortDefender cfg s' v (abortReason (s.ht.lockMap false) addr .write)) s).abortFlags := by
  unfold bucketInsertW
  cases hfind : bucketFind (s.ht.bucket (bucketOf false addr)) addr with
  | none =>
    obtain ⟨hw, hr⟩ := Ssht.lockMap_of_notFound hfind
    simp only [verdict, hw, hr] at hv
    obtain ⟨hvs, -⟩ := attackReaders_eq_grant.mp hv
    rw [hvs]
    simp
  | some r =>
    obtain ⟨i, sl⟩ := r
    have hfor := h.slotFor_found haddr hfind
    have hwriter := (hfor.lockMap_eq h).1
    rw [verdict_write_found h hfor] at hv
    by_cases hno : writer sl.entry = SSHT_NO_WRITER
    · -- nobody writes, and the readers but the requester are the victims
      have hreason : abortReason (s.ht.lockMap false) addr .write = .writeAfterRead := by
        rw [abortReason, hwriter, entryWriter_eq_none.mpr hno]
        rfl
      rw [if_neg fun h => h.1 hno] at hv
      obtain ⟨hvs, hall⟩ := attackReaders_eq_grant.mp hv
      have hothers := hasOtherReaders_iff_others h hbound hid hfor
      rw [← hvs] at hothers
      simp only [hno, ne_eq, not_true_eq_false, false_and, if_false, hreason]
      by_cases hreaders : hasOtherReaders sl.entry id = true
      · obtain ⟨hreal, hprec⟩ := hall (hothers.mp hreaders)
        rw [hvs] at hprec
        simp only [hreaders, if_true, hreal, contentionManagerWar_eq, if_pos hprec, hvs]
      · have hnil : victims = [] := by
          by_contra hne
          exact hreaders (hothers.mpr hne)
        simp only [hreaders, hnil, List.foldl_nil]
        rfl
    · -- another node writes, and is the only victim
      have hsome := entryWriter_eq_some.mpr ⟨rfl, hno⟩
      rw [hsome] at hwriter
      have hother : writer sl.entry ≠ id := by
        rintro heq
        rw [hwriter, heq] at hself
        exact hself rfl
      have hreason : abortReason (s.ht.lockMap false) addr .write = .writeAfterWrite := by
        rw [abortReason, hwriter]
        rfl
      rw [if_pos ⟨hno, hother⟩] at hv
      obtain ⟨rfl, hreal, hprec⟩ := attackWriter_eq_grant.mp hv
      simp only [ne_eq, hno, hother, not_false_eq_true, and_self, if_true, hreal,
        contentionManagerRawWaw_eq, if_pos hprec, hreason]
      rfl

/-- A request that is granted sets the flags of its victims. -/
theorem abortFlags_insert (hpgas : cfg.pgas = false) (h : Accounted false s.ht)
    (hbound : Bounded cfg (s.ht.lockMap false)) (hid : id < idBound E) (haddr : addr ≠ 0)
    (hself : (s.ht.lockMap false).writer addr ≠ some id) {rw : RW} {victims : List Nat}
    (hv : verdict cfg s.timestamp (s.ht.lockMap false) id addr rw = .grant victims) (n : Nat) :
    (tm2cHtInsert cfg s id addr rw).2.abortFlags n =
      if n ∈ victims then
        abortNode (s.abortFlags n) (s.reread n) (abortReason (s.ht.lockMap false) addr rw)
      else s.abortFlags n := by
  have hreason := abortReason_ne (s.ht.lockMap false) addr rw
  rw [← abortFlags_foldl_abortDefender hpgas victims s hreason n]
  unfold tm2cHtInsert
  rw [hpgas]
  cases rw with
  | read => exact congrFun (abortFlags_bucketInsertR h haddr hv) n
  | write => exact congrFun (abortFlags_bucketInsertW h hbound hid haddr hself hv) n

end Flags

/-! ### The result -/

/-- What a granted request leaves: the nodes in the way have been aborted and have no
locks, the requester has its lock, which is noted in its log, and there is no other
difference. -/
structure GrantedTo (s s' : Dsl E) (id addr : Nat) (rw : RW) : Prop where
  aborted : ∀ n, InTheWay (s.ht.lockMap false) id addr rw n → s.abortFlags n = .noConflict →
    s'.abortFlags n = abortReason (s.ht.lockMap false) addr rw
  -- aborted before, or committed
  settled : ∀ n, InTheWay (s.ht.lockMap false) id addr rw n → s.abortFlags n ≠ .noConflict →
    s.abortFlags n ≠ .persistingWrites → s'.abortFlags n = s.abortFlags n
  -- waited for, and aborted where it has begun anew by then
  persisted : ∀ n, InTheWay (s.ht.lockMap false) id addr rw n →
    s.abortFlags n = .persistingWrites → s'.abortFlags n =
      if (s.reread n).1 = .noConflict then abortReason (s.ht.lockMap false) addr rw
      else (s.reread n).1
  stopped : ∀ n, InTheWay (s.ht.lockMap false) id addr rw n →
    s'.abortFlags n ≠ .noConflict ∧ s'.abortFlags n ≠ .persistingWrites
  not_aborted : ∀ n, ¬ InTheWay (s.ht.lockMap false) id addr rw n →
    s'.abortFlags n = s.abortFlags n
  deleted : ∀ n, InTheWay (s.ht.lockMap false) id addr rw n →
    ∀ a, ¬ (s'.ht.lockMap false).Holds a n
  locked : (rw = .read → (s'.ht.lockMap false).reader addr id = true) ∧
    (rw = .write → (s'.ht.lockMap false).writer addr = some id)
  logged : (s'.ht.logs id).length ≤ 2 ^ 31
  writer : ∀ n a, ¬ InTheWay (s.ht.lockMap false) id addr rw n →
    ¬ (rw = .write ∧ n = id ∧ a = addr) →
    ((s'.ht.lockMap false).writer a = some n ↔ (s.ht.lockMap false).writer a = some n)
  reader : ∀ n a, ¬ InTheWay (s.ht.lockMap false) id addr rw n →
    ¬ (rw = .read ∧ n = id ∧ a = addr) →
    (s'.ht.lockMap false).reader a n = (s.ht.lockMap false).reader a n

theorem grantedTo_of_carries {s s' : Dsl E} {id addr : Nat} {rw : RW} {victims : List Nat}
    (hvictims : ∀ n, n ∈ victims ↔ InTheWay (s.ht.lockMap false) id addr rw n)
    (hflags : ∀ n, s'.abortFlags n = if n ∈ victims then
      abortNode (s.abortFlags n) (s.reread n) (abortReason (s.ht.lockMap false) addr rw)
      else s.abortFlags n)
    (hlog : (s'.ht.logs id).length ≤ 2 ^ 31)
    (hlocks : s'.ht.lockMap false =
      acquire ((s.ht.lockMap false).releaseAll victims) id addr rw) :
    GrantedTo s s' id addr rw where
  aborted := by
    intro n hn hflag
    rw [hflags, if_pos ((hvictims n).mpr hn), hflag]
    rfl
  settled := by
    intro n hn hset hsettled
    rw [hflags, if_pos ((hvictims n).mpr hn), abortNode, if_neg hsettled, casAbortFlag,
      if_neg hset]
  persisted := by
    intro n hn hflag
    rw [hflags, if_pos ((hvictims n).mpr hn), abortNode, if_pos hflag]
    rfl
  stopped := by
    intro n hn
    rw [hflags, if_pos ((hvictims n).mpr hn)]
    exact abortNode_ne _ _ (abortReason_ne (s.ht.lockMap false) addr rw)
  logged := hlog
  not_aborted := by
    intro n hn
    rw [hflags, if_neg fun h => hn ((hvictims n).mp h)]
  deleted := by
    rintro n hn a hholds
    -- what a victim holds afterwards can only be the lock just entered, and that is not its own
    have hout : ¬ ((s.ht.lockMap false).releaseAll victims).Holds a n := by
      rw [LockMap.holds_releaseAll]
      exact fun h => h.2 ((hvictims n).mpr hn)
    rw [hlocks] at hholds
    cases rw with
    | read =>
      rcases LockMap.holds_acquireRead.mp hholds with ⟨-, rfl⟩ | hholds
      · exact hn.1 rfl
      · exact hout hholds
    | write =>
      rcases hholds with hw | hr
      · rw [acquire, LockMap.writer_acquireWrite] at hw
        by_cases ha : a = addr
        · rw [if_pos ha, Option.some.injEq] at hw
          exact hn.1 hw.symm
        · rw [if_neg ha] at hw
          exact hout (Or.inl hw)
      · exact hout (Or.inr hr)
  locked := by
    rw [hlocks]
    constructor
    · rintro rfl
      exact LockMap.reader_acquireRead_eq_true.mpr (Or.inl ⟨rfl, rfl⟩)
    · rintro rfl
      rw [acquire, LockMap.writer_acquireWrite, if_pos rfl]
  writer := by
    intro n a hn hnew
    have hkept : ((s.ht.lockMap false).releaseAll victims).writer a = some n ↔
        (s.ht.lockMap false).writer a = some n := by
      rw [LockMap.writer_releaseAll_eq_some, and_iff_left_iff_imp]
      exact fun _ hmem => hn ((hvictims n).mp hmem)
    rw [hlocks, ← hkept]
    cases rw with
    | read => rfl
    | write =>
      rw [acquire, LockMap.writer_acquireWrite]
      by_cases ha : a = addr
      · -- at the requested address every other writer was in the way
        subst ha
        rw [if_pos rfl, Option.some.injEq, hkept]
        constructor
        · rintro rfl
          exact absurd ⟨rfl, rfl, rfl⟩ hnew
        · intro hw
          by_contra hne
          have hother : n ≠ id := fun h => hne h.symm
          exact hn ⟨hother, Or.inl hw⟩
      · rw [if_neg ha]
  reader := by
    intro n a hn hnew
    have hkept : ((s.ht.lockMap false).releaseAll victims).reader a n = true ↔
        (s.ht.lockMap false).reader a n = true := by
      rw [LockMap.reader_releaseAll_eq_true, and_iff_left_iff_imp]
      exact fun _ hmem => hn ((hvictims n).mp hmem)
    rw [hlocks, Bool.eq_iff_iff, ← hkept]
    cases rw with
    | read =>
      rw [acquire, LockMap.reader_acquireRead_eq_true]
      constructor
      · rintro (⟨rfl, rfl⟩ | hread)
        · exact absurd ⟨rfl, rfl, rfl⟩ hnew
        · exact hread
      · exact Or.inr
    | write => rfl

/-- **Arbitration is all or nothing**, as long as the log of the requester can grow. -/
theorem arbitration_all_or_nothing (cfg : Config) (hpgas : cfg.pgas = false)
    (hreal : cfg.cm.isReal = true) (s : Dsl E) (htable : Consistent cfg s.ht) (id : Nat)
    (hid : id < idBound E) (hlog : (s.ht.logs id).length < 2 ^ 31) (addr : Nat)
    (haddr : addr ≠ 0) (hself : (s.ht.lockMap false).writer addr ≠ some id) (rw : RW) :
    ((tm2cHtInsert cfg s id addr rw).1 = .noConflict ↔
      ∀ n, InTheWay (s.ht.lockMap false) id addr rw n → Precedes s.timestamp id n) ∧
    ((tm2cHtInsert cfg s id addr rw).1 ≠ .noConflict → (tm2cHtInsert cfg s id addr rw).2 = s) ∧
    ((tm2cHtInsert cfg s id addr rw).1 = .noConflict →
      GrantedTo s (tm2cHtInsert cfg s id addr rw).2 id addr rw) := by
  have hacc := htable.accounted
  have hcarries := carries_tm2cHtInsert hpgas (Or.inl hpgas) rw hacc htable.bounded hid haddr
    fun _ _ => hself
  have hdecides : Decides s.timestamp id _
      (verdict cfg s.timestamp (s.ht.lockMap false) id addr rw) :=
    decides_verdict hreal htable.exclusive_lockMap htable.bounded hself rw
  obtain ⟨victims, hv, hvictims, hprec⟩ | ⟨conflict, hv, n, hn, hprec⟩ := hdecides
  · rw [hv] at hcarries
    obtain ⟨hok, -, -, hlocks⟩ := hcarries
    refine ⟨iff_of_true hok hprec, fun hne => absurd hok hne, fun _ => ?_⟩
    exact grantedTo_of_carries hvictims
      (abortFlags_insert hpgas hacc htable.bounded hid haddr hself hv)
      ((length_logs_tm2cHtInsert cfg s id addr rw).trans hlog) hlocks
  · have hne := refuse_ne_noConflict hv
    rw [hv] at hcarries
    have hr : tm2cHtInsert cfg s id addr rw = (conflict, s) := hcarries
    rw [hr]
    exact ⟨iff_of_false hne fun hall => hprec (hall n hn), fun _ => rfl, fun h => absurd h hne⟩

/-- Nodes 2 and 3 read address 64, and node 2 another address, too. -/
def readRun : List DslEvent :=
  [.message 0 2 { type := .load, address := 64, txMetadata := 5 },
   .message 0 3 { type := .load, address := 64, txMetadata := 7 },
   .message 0 2 { type := .load, address := 72, txMetadata := 5 }]

def readBySeveral : Serviced ByteEntry := readRun.foldl (serve serviceConfig) servicedInit

theorem sound_readBySeveral : Sound serviceConfig readBySeveral := by
  have hload : ∀ (s : Serviced ByteEntry) (sender address ts : Nat),
      sender < 4 → address ≠ 0 →
      Expected serviceConfig s
        (.message 0 sender { type := .load, address := address, txMetadata := ts }) := by
    intro s sender address ts hsender haddress
    have hlt : sender < idBound ByteEntry := Nat.lt_trans hsender (by decide)
    exact ⟨Or.inl rfl, hlt, hsender, fun _ => haddress, fun _ h => by cases h⟩
  exact Sound.run rfl (Exec.cons ⟨hload _ 2 64 5 (by decide) (by decide), rfl⟩
    (Exec.cons ⟨hload _ 3 64 7 (by decide) (by decide), rfl⟩
      (Exec.cons ⟨hload _ 2 72 5 (by decide) (by decide), rfl⟩ (Exec.nil _))))

theorem arbitration_all_or_nothing_twoReaders :
    GrantedTo readBySeveral.dsl (tm2cHtInsert serviceConfig readBySeveral.dsl 1 64 .write).2
      1 64 .write :=
  (arbitration_all_or_nothing serviceConfig rfl rfl readBySeveral.dsl
    (sound_readBySeveral.consistent rfl) 1 (by decide) (by decide +kernel) 64 (by decide)
    (by decide +kernel) .write).2.2 (by decide +kernel)

end TM2C
