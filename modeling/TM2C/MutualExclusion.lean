import TM2C.LockTable

/-!
# Mutual exclusion at one service node

Runs of a service node outside the PGAS build, from the empty table, with any
number of application nodes and any contention manager.  The run carries the
list of the requests that were granted and not released since; a node's locks
are released when `tm2c_ht_delete_node` runs for it, which leaves its log empty.

`Sound` is the invariant of a run: the table is accounted for, its lock map is exclusive, and
every grant that was not released is held in it.  One step keeps it for every admissible message,
by the refinement of `LockTable` and the exclusion of `LockService`, and the flag of an
application node is no concern of it.  The two encodings differ in what is admissible: the byte
array cannot take a second write lock of the same node on an address, the bitmap can take
anything.

From the invariant the statements on grants and tables follow in every state: two grants of one
address are two reads or belong to the same node, a count is the number of the readers and
writers, and what `tm2c_ht_delete_node` deletes is what the node had.  The condition for the byte
array is a condition on the state before a step and the message alone, so a run is restricted
step by step.
-/

namespace TM2C

open RwEntry LawfulRwEntry Transition

/-- A granted request. -/
structure Grant where
  node : Nat
  address : Nat
  rw : RW
deriving DecidableEq, Repr

/-- A service node with its granted and unreleased requests. -/
structure Serviced (E : Type) where
  dsl : Dsl E
  grants : List Grant

def servicedInit {E : Type} [RwEntry E] : Serviced E := ⟨dslInit, []⟩

/-- The grant that a reply announces. -/
def grantOf (sender : Nat) (req : Req) : Option Reply → List Grant
  | some ⟨.loadResponse, _, _, .noConflict⟩ => [⟨sender, req.address, .read⟩]
  | some ⟨.storeResponse, _, _, .noConflict⟩ => [⟨sender, req.address, .write⟩]
  | _ => []

def serve {E : Type} [RwEntry E] (cfg : Config) (s : Serviced E) (e : DslEvent) : Serviced E :=
  let r := dslStep cfg s.dsl e
  let kept := s.grants.filter fun g => !(r.1.ht.logs g.node).isEmpty
  match e with
  | .message _ sender req => ⟨r.1, kept ++ grantOf sender req r.2⟩
  | .abortFlag _ _ => ⟨r.1, kept⟩

/-- No granted and unreleased STORE coexists with another node's granted and
unreleased request for the same address. -/
def GrantsExclusive (grants : List Grant) : Prop :=
  ∀ g ∈ grants, ∀ g' ∈ grants, g.rw = .write → g.address = g'.address → g.node = g'.node

/-! ### The invariant of a run -/

section Runs

variable {E : Type} [LawfulRwEntry E] {cfg : Config}

/-- The events of a run: any writes to abort flags, and admissible messages. -/
def Expected (cfg : Config) (s : Serviced E) : DslEvent → Prop
  | .message _ sender req => Admissible cfg s.dsl sender req
  | .abortFlag _ _ => True

structure Sound (cfg : Config) (s : Serviced E) : Prop where
  accounted : Accounted false s.dsl.ht
  exclusive : (s.dsl.ht.lockMap false).Exclusive
  bounded : Bounded cfg (s.dsl.ht.lockMap false)
  granted : ∀ g ∈ s.grants, HoldsAs (s.dsl.ht.lockMap false) g.address g.node g.rw

theorem sound_init (cfg : Config) : Sound cfg (servicedInit : Serviced E) where
  accounted := accounted_sshtNew false
  exclusive := by
    have hmap : (sshtNew : Ssht E).lockMap false = LockMap.empty := lockMap_sshtNew false
    exact hmap ▸ LockMap.exclusive_empty
  bounded := by
    intro a n hn
    have hmap : (sshtNew : Ssht E).lockMap false = LockMap.empty := lockMap_sshtNew false
    have hn' : ((sshtNew : Ssht E).lockMap false).Holds a n := hn
    rw [hmap] at hn'
    simp [LockMap.Holds] at hn'
  granted g hg := by cases hg

/-- A reply that announces a grant is a `NO_CONFLICT` of the abstract service,
whose lock the sender then holds. -/
theorem holdsAs_of_grantOf {s : LockService} {now sender : Nat} {req : Req} {reply : Option Reply}
    (hreply : reply.map Reply.response = (lockService cfg now s sender req).2)
    (hkind : ∀ r, reply = some r →
      (req.type = .load ∧ r.type = .loadResponse) ∨ (req.type = .store ∧ r.type = .storeResponse))
    {g : Grant} (hg : g ∈ grantOf sender req reply) :
    HoldsAs (lockService cfg now s sender req).1.locks g.address g.node g.rw := by
  cases reply with
  | none => cases hg
  | some r =>
    obtain ⟨type, address, value, response⟩ := r
    unfold lockService lockSwitch at hreply ⊢
    rcases hkind _ rfl with ⟨hload, hr⟩ | ⟨hstore, hr⟩
    · simp only at hr
      subst hr
      simp only [hload, Option.map_some, Option.some.injEq] at hreply ⊢
      cases response with
      | noConflict =>
        simp only [grantOf, List.mem_singleton] at hg
        subst hg
        exact holdsAs_of_granted hreply.symm
      | readAfterWrite => cases hg
      | writeAfterRead => cases hg
      | writeAfterWrite => cases hg
      | persistingWrites => cases hg
      | txCommitted => cases hg
    · simp only at hr
      subst hr
      simp only [hstore, Option.map_some, Option.some.injEq] at hreply ⊢
      cases response with
      | noConflict =>
        simp only [grantOf, List.mem_singleton] at hg
        subst hg
        exact holdsAs_of_granted hreply.symm
      | readAfterWrite => cases hg
      | writeAfterRead => cases hg
      | writeAfterWrite => cases hg
      | persistingWrites => cases hg
      | txCommitted => cases hg

omit [LawfulRwEntry E] in
theorem reply_kind [RwEntry E] {s : Dsl E} {now sender : Nat} {req : Req}
    (htype : req.isTransactional) {r : Reply}
    (hr : (dslService cfg now s sender req).2 = some r) :
    (req.type = .load ∧ r.type = .loadResponse) ∨
      (req.type = .store ∧ r.type = .storeResponse) := by
  unfold dslService dslSwitch at hr
  rcases htype with htype | htype | htype
  · simp only [htype, handleLoad, Option.some.injEq] at hr
    exact Or.inl ⟨htype, hr ▸ rfl⟩
  · simp only [htype, handleStore, Option.some.injEq] at hr
    exact Or.inr ⟨htype, hr ▸ rfl⟩
  · simp [htype, handleRmvNode] at hr

theorem Sound.step (hpgas : cfg.pgas = false) {s : Serviced E} (h : Sound cfg s) {e : DslEvent}
    (he : Expected cfg s e) : Sound cfg (serve cfg s e) := by
  cases e with
  | abortFlag node flag =>
    refine ⟨h.accounted, h.exclusive, h.bounded, ?_⟩
    intro g hg
    exact h.granted g (List.mem_of_mem_filter hg)
  | message now sender req =>
    obtain ⟨hacc, hstate, hreply⟩ := dslService_refines hpgas now h.accounted h.bounded he
    have hlocks : (serve cfg s (.message now sender req)).dsl.ht.lockMap false =
        (lockService cfg now s.dsl.abstraction sender req).1.locks :=
      congrArg LockService.locks hstate
    refine ⟨hacc, ?_, ?_, ?_⟩
    · rw [hlocks]
      exact exclusive_lockService h.exclusive h.bounded
    · rw [hlocks]
      exact bounded_lockService he.sender_lt_numUes h.bounded
    · intro g hg
      rw [hlocks]
      rcases List.mem_append.mp hg with hold | hnew
      · obtain ⟨hmem, hlog⟩ := List.mem_filter.mp hold
        rcases lockService_keeps cfg now sender req (s := s.dsl.abstraction)
          (h.granted g hmem) with hkept | hnone
        · exact hkept
        · -- a node that lost its locks has an empty log
          have hid : g.node < idBound E := h.accounted.lt_idBound (h.granted g hmem).holds
          have habsent := hacc.absent hid (by rw [← hlocks] at hnone; exact hnone)
          simp [dslStep, habsent.logs] at hlog
      · exact holdsAs_of_grantOf hreply
          (fun r hr => reply_kind he.transactional hr) hnew

theorem Sound.run (hpgas : cfg.pgas = false) {es : List DslEvent} {s : Serviced E}
    (hexec : Exec (restrict (Expected cfg) (graph (serve cfg))) servicedInit es s) :
    Sound cfg s := by
  refine hexec.invariant (Sound cfg) ?_ (sound_init cfg)
  rintro s e t hs ⟨he, rfl⟩
  exact hs.step hpgas he

theorem Sound.grantsExclusive {s : Serviced E} (h : Sound cfg s) : GrantsExclusive s.grants := by
  intro g hg g' hg' hwrite haddr
  have hwriter := h.granted g hg
  have hother := h.granted g' hg'
  rw [hwrite] at hwriter
  rw [← haddr] at hother
  exact eq_of_holdsAs h.exclusive hwriter hother

/-- In the slot of a writer no other node has its flag set. -/
theorem Sound.reader_eq_writer {s : Serviced E} (h : Sound cfg s) {p : SlotPtr} {sl : Slot E}
    (hslot : s.dsl.ht.slot? p = some sl) (hw : writer sl.entry ≠ SSHT_NO_WRITER) {m : Nat}
    (hm : isReader sl.entry m = true) : m = writer sl.entry :=
  h.exclusive sl.addr (writer sl.entry) m
    ((writer_lockMap_eq_some h.accounted).mpr ⟨p, sl, hslot, rfl, rfl, hw⟩)
    ((reader_lockMap_eq_true h.accounted).mpr ⟨p, sl, hslot, rfl, hm⟩)

end Runs

/-! ### The byte array -/

/-- The representation invariant of the table with the byte array. -/
structure SlotsConsistent (t : Ssht ByteEntry) : Prop where
  nr_eq : ∀ p sl, t.slot? p = some sl → sl.entry.nr = sl.entry.readerSet.card
  free : ∀ p sl, t.slot? p = some sl → sl.addr = 0 →
    sl.entry.nr = 0 ∧ (∀ m, sl.entry.reader m = false) ∧ sl.entry.writer = SSHT_NO_WRITER
  unique : ∀ p q sl sl', t.slot? p = some sl → t.slot? q = some sl' → sl.addr ≠ 0 →
    sl.addr = sl'.addr → p = q
  exclusive : ∀ p sl, t.slot? p = some sl → sl.entry.writer ≠ SSHT_NO_WRITER →
    ∀ m, sl.entry.reader m = true → m = sl.entry.writer

/-- A LOAD, STORE or RMV_NODE of an application node. -/
def FromApplication (cfg : Config) (bound : Nat) : DslEvent → Prop
  | .message _ sender req => req.isTransactional ∧ sender < bound ∧ sender < cfg.numUes ∧
      (req.type ≠ .rmvNode → req.address ≠ 0)
  | .abortFlag _ _ => True

instance (cfg : Config) (bound : Nat) (e : DslEvent) : Decidable (FromApplication cfg bound e) := by
  cases e <;> unfold FromApplication <;> infer_instance

/-- The message is not a STORE to an address whose slot names the sender as writer. -/
def StoresOnce (s : Serviced ByteEntry) : DslEvent → Prop
  | .message _ sender req =>
    req.type = .store → (s.dsl.ht.lockMap false).writer req.address ≠ some sender
  | .abortFlag _ _ => True

instance (s : Serviced ByteEntry) (e : DslEvent) : Decidable (StoresOnce s e) := by
  cases e <;> unfold StoresOnce <;> infer_instance

theorem Sound.slotsConsistent {cfg : Config} {s : Serviced ByteEntry} (h : Sound cfg s) :
    SlotsConsistent s.dsl.ht where
  nr_eq p sl hslot := (h.accounted.valid p sl hslot).nr_eq
  free p sl hslot haddr := by
    obtain ⟨hw, hr⟩ := h.accounted.free p sl hslot haddr
    have hcounted : sl.entry.Counted := h.accounted.valid p sl hslot
    refine ⟨?_, hr, hw⟩
    rw [hcounted.nr_eq, Finset.card_eq_zero, Finset.eq_empty_iff_forall_notMem]
    intro m hm
    have hread := hcounted.mem_readerSet.mp hm
    have hnone : sl.entry.reader m = false := hr m
    rw [hnone] at hread
    cases hread
  unique := h.accounted.unique
  exclusive p sl hslot hw m hm := h.reader_eq_writer hslot hw hm

/-- **Mutual exclusion with the byte array.**  In a run in which no node stores
again to an address it is the writer of, the counters are right, free slots are
empty, addresses have one slot, and grants exclude each other. -/
theorem byteTable_mutualExclusion (cfg : Config) (hpgas : cfg.pgas = false)
    (es : List DslEvent) (s : Serviced ByteEntry)
    (hes : ∀ e ∈ es, FromApplication cfg SSHT_NO_WRITER e)
    (hexec : Exec (restrict StoresOnce (graph (serve cfg))) servicedInit es s) :
    SlotsConsistent s.dsl.ht ∧ GrantsExclusive s.grants := by
  have hsound : Sound cfg s := by
    refine (hexec.restrict_of_forall hes).invariant (Sound cfg) ?_ (sound_init cfg)
    rintro s e t hs ⟨hfrom, honce, rfl⟩
    refine hs.step hpgas ?_
    cases e with
    | abortFlag node flag => trivial
    | message now sender req =>
      obtain ⟨htype, hlt, hnum, haddr⟩ := hfrom
      exact ⟨htype, hlt, hnum, haddr, fun _ => honce⟩
  exact ⟨hsound.slotsConsistent, hsound.grantsExclusive⟩

/-- A node reads and upgrades, is killed by another writer, and comes back. -/
def upgradeRun : List DslEvent :=
  [.message 0 2 { type := .load, address := 64, txMetadata := 5 },
   .message 0 2 { type := .store, address := 64, txMetadata := 5 },
   .message 0 3 { type := .store, address := 64, txMetadata := 1 },
   .message 0 2 { type := .rmvNode, address := 0, txMetadata := 5 }]

def serviceConfig : Config := ⟨.wholly, false, false, 4⟩

theorem byteTable_mutualExclusion_upgradeRun :
    SlotsConsistent (upgradeRun.foldl (serve serviceConfig) servicedInit).dsl.ht ∧
    GrantsExclusive (upgradeRun.foldl (serve serviceConfig)
      (servicedInit : Serviced ByteEntry)).grants :=
  byteTable_mutualExclusion serviceConfig rfl upgradeRun _ (by decide)
    (Exec.cons ⟨by decide +kernel, rfl⟩ (Exec.cons ⟨by decide +kernel, rfl⟩
      (Exec.cons ⟨by decide +kernel, rfl⟩ (Exec.cons ⟨by decide +kernel, rfl⟩ (Exec.nil _)))))

/-- Storing twice leaves two log entries for one lock; the removal of the second
takes a reader off the counter that was never there, and the counter then hides
a reader from the next writer. -/
def storeTwiceRun : List DslEvent :=
  [.message 0 1 { type := .store, address := 64 },
   .message 0 1 { type := .store, address := 64 },
   .message 0 1 { type := .rmvNode, address := 0 },
   .message 0 2 { type := .load, address := 64 },
   .message 0 3 { type := .store, address := 64 }]

theorem storing_twice_breaks_exclusion :
    (∀ e ∈ storeTwiceRun, FromApplication serviceConfig SSHT_NO_WRITER e) ∧
    ¬ SlotsConsistent ((storeTwiceRun.take 3).foldl (serve serviceConfig) servicedInit).dsl.ht ∧
    ¬ GrantsExclusive (storeTwiceRun.foldl (serve serviceConfig)
      (servicedInit : Serviced ByteEntry)).grants := by
  refine ⟨by decide, ?_, ?_⟩
  · intro h
    have hslot : ((((storeTwiceRun.take 3).foldl (serve serviceConfig)
        servicedInit).dsl.ht.slot? (47, 0)).map fun sl : Slot ByteEntry =>
          (sl.entry.nr, sl.entry.readerSet.card)) = some (255, 0) := by
      decide +kernel
    obtain ⟨sl, hsl, hcount⟩ := Option.map_eq_some_iff.mp hslot
    have hnr := h.nr_eq _ sl hsl
    rw [Prod.mk.injEq] at hcount
    rw [hcount.1, hcount.2] at hnr
    exact absurd hnr (by decide)
  · intro h
    have := h ⟨3, 64, .write⟩ (by decide +kernel) ⟨2, 64, .read⟩ (by decide +kernel) rfl rfl
    exact absurd this (by decide)

/-! ### The bitmap -/

/-- The representation invariant of the table with the bitmap. -/
structure BitmapConsistent (t : Ssht BitEntry) : Prop where
  unique : ∀ p q sl sl', t.slot? p = some sl → t.slot? q = some sl' → sl.addr ≠ 0 →
    sl.addr = sl'.addr → p = q
  exclusive : ∀ p sl, t.slot? p = some sl → sl.entry.writer ≠ SSHT_NO_WRITER →
    ∀ m, rwEntrySshtIsMember sl.entry m = true → m = sl.entry.writer
  covered : ∀ n p, n < 64 → t.lockCount p n ≤ (t.logs n).count p
  pointed : ∀ n p, n < 64 → p ∈ t.logs n → 0 < t.lockCount p n

/-- The locks of a node on every address are the same in both tables. -/
def SameLocks (t t' : Ssht BitEntry) (m : Nat) : Prop :=
  ∀ a, ((t'.lockMap false).writer a = some m ↔ (t.lockMap false).writer a = some m) ∧
    (t'.lockMap false).reader a m = (t.lockMap false).reader a m

/-- `tm2c_ht_delete_node` removes all locks of its node and no others. -/
def DeletionExact (t : Ssht BitEntry) : Prop :=
  ∀ n, n < 64 → Absent (tm2cHtDeleteNode t n) n ∧
    ∀ m, m < 64 → m ≠ n → SameLocks t (tm2cHtDeleteNode t n) m

/-- What one message does: a release or a refusal deletes the sender, a grant
deletes the nodes that were killed, and everybody else keeps all locks. -/
def DeletesExactly (cfg : Config) (now : Nat) (s : Dsl BitEntry) (sender : Nat) (req : Req) :
    Prop :=
  let r := dslService cfg now s sender req
  match r.2 with
  | none => r.1.ht = tm2cHtDeleteNode s.ht sender
  | some reply =>
    if reply.response = .noConflict then
      ∃ killed : List Nat, sender ∉ killed ∧ (∀ v ∈ killed, v < 64 ∧ Absent r.1.ht v) ∧
        ∀ m, m < 64 → m ≠ sender → m ∉ killed → SameLocks s.ht r.1.ht m
    else r.1.ht = tm2cHtDeleteNode s.ht sender

theorem Accounted.deletionExact {t : Ssht BitEntry} (h : Accounted false t) : DeletionExact t := by
  intro n hn
  refine ⟨h.covered.absent_deleteNode hn, ?_⟩
  intro m _ hmn a
  rw [lockMap_deleteNode h hn]
  constructor
  · rw [LockMap.writer_release_eq_some]
    exact and_iff_left hmn
  · rw [Bool.eq_iff_iff, LockMap.reader_release_eq_true]
    exact and_iff_left hmn

theorem Sound.bitmapConsistent {cfg : Config} {s : Serviced BitEntry} (h : Sound cfg s) :
    BitmapConsistent s.dsl.ht where
  unique := h.accounted.unique
  exclusive _ _ hslot hw _ hm := h.reader_eq_writer hslot hw hm
  covered := h.accounted.covered
  pointed n p hn hp := h.accounted.pointed n p hn (List.count_pos_iff.mpr hp)

/-- The other nodes after an acquisition that followed the deletion of the victims. -/
theorem sameLocks_of_acquire {t t' : Ssht BitEntry} {id addr : Nat} {rw : RW} {vs : List Nat}
    (hmap : t'.lockMap false = acquire ((t.lockMap false).releaseAll vs) id addr rw)
    (hfree : ∀ w, ((t.lockMap false).releaseAll vs).writer addr = some w → w = id)
    {m : Nat} (hm : m ≠ id) (hvs : m ∉ vs) : SameLocks t t' m := by
  intro a
  have hwriter : ((t.lockMap false).releaseAll vs).writer a = some m ↔
      (t.lockMap false).writer a = some m :=
    LockMap.writer_releaseAll_eq_some.trans (and_iff_left hvs)
  have hreader : ((t.lockMap false).releaseAll vs).reader a m = true ↔
      (t.lockMap false).reader a m = true :=
    LockMap.reader_releaseAll_eq_true.trans (and_iff_left hvs)
  rw [hmap, ← hwriter, Bool.eq_iff_iff, ← hreader]
  cases rw with
  | read =>
    refine ⟨Iff.rfl, ?_⟩
    rw [acquire, LockMap.reader_acquireRead_eq_true]
    exact ⟨fun h => h.resolve_left fun hc => hm hc.2, Or.inr⟩
  | write =>
    refine ⟨?_, Iff.rfl⟩
    rw [acquire, LockMap.writer_acquireWrite]
    by_cases ha : a = addr
    · subst ha
      rw [if_pos rfl, Option.some.injEq]
      exact ⟨fun h => absurd h.symm hm, fun h => absurd (hfree m h) hm⟩
    · rw [if_neg ha]

theorem Sound.deletesExactly {cfg : Config} (hpgas : cfg.pgas = false) {s : Serviced BitEntry}
    (h : Sound cfg s) (now : Nat) {sender : Nat} {req : Req}
    (hreq : Admissible cfg s.dsl sender req) : DeletesExactly cfg now s.dsl sender req := by
  let s' : Dsl BitEntry := { s.dsl with
    timestamp := updateTimestamp cfg now sender req.txMetadata s.dsl.timestamp }
  have hreq' : Admissible cfg s' sender req :=
    ⟨hreq.transactional, hreq.sender_lt, hreq.sender_lt_numUes, hreq.address_ne, hreq.store_once⟩
  have hacc' := (dslSwitch_refines (s := s') hpgas h.accounted h.bounded hreq').1
  have hrequest : ∀ rw : RW, (req.type = .load ∧ rw = .read) ∨ (req.type = .store ∧ rw = .write) →
      DeletesExactly cfg now s.dsl sender req := by
    intro rw hrw
    unfold DeletesExactly
    have hdef : dslService cfg now s.dsl sender req = dslSwitch cfg s' sender req := rfl
    simp only [hdef]
    rcases dslSwitch_request (s := s') hpgas hrw h.accounted h.bounded hreq' with
      ⟨r, hreply, hne, hht⟩ | ⟨r, victims, hreply, hok, hv, hmap⟩
    · simp only [hreply, if_neg hne]
      exact hht
    · simp only [hreply, if_pos hok]
      refine ⟨victims, not_mem_victims hv, ?_, ?_⟩
      · intro v hvmem
        have hlt : v < 64 := h.accounted.lt_idBound (holds_of_victim hv hvmem)
        refine ⟨hlt, hacc'.absent hlt ?_⟩
        intro a ha
        rw [hmap] at ha
        rcases holds_acquire ha with rfl | ha
        · exact not_mem_victims hv hvmem
        · exact (LockMap.holds_releaseAll.mp ha).2 hvmem
      · intro m _ hm hvs
        exact sameLocks_of_acquire (t := s'.ht) hmap
          (fun w hw => (writer_of_granted hv hw).2) hm hvs
  rcases hreq.transactional with htype | htype | htype
  · exact hrequest .read (Or.inl ⟨htype, rfl⟩)
  · exact hrequest .write (Or.inr ⟨htype, rfl⟩)
  · unfold DeletesExactly dslService dslSwitch
    simp only [htype, handleRmvNode, hpgas, Bool.false_eq_true, false_and, if_false,
      emptyWriteSet]
    unfold forgetTimestamp
    cases cfg.cm <;> rfl

/-- **The bitmap table accounts for its locks.**  Whatever is repeated, the logs
cover the locks and point at nothing else, so that deleting a node, in any
state and in the middle of an insertion that kills several, removes its locks
exactly. -/
theorem bitmapTable_accounts (cfg : Config) (hpgas : cfg.pgas = false) (es : List DslEvent)
    (s : Serviced BitEntry) (hes : ∀ e ∈ es, FromApplication cfg 64 e)
    (hexec : Exec (graph (serve cfg)) servicedInit es s) :
    BitmapConsistent s.dsl.ht ∧
    (∀ killed : List Nat, (∀ v ∈ killed, v < 64) → DeletionExact (deleteNodes s.dsl.ht killed)) ∧
    ∀ now sender req, FromApplication cfg 64 (.message now sender req) →
      DeletesExactly cfg now s.dsl sender req := by
  have hadmissible : ∀ (s : Serviced BitEntry) now sender req,
      FromApplication cfg 64 (.message now sender req) → Admissible cfg s.dsl sender req := by
    rintro s now sender req ⟨htype, hlt, hnum, haddr⟩
    exact ⟨htype, hlt, hnum, haddr, fun hexact => by cases hexact⟩
  have hsound : Sound cfg s := by
    refine (hexec.restrict_of_forall hes).invariant (Sound cfg) ?_ (sound_init cfg)
    rintro s e t hs ⟨hfrom, rfl⟩
    refine hs.step hpgas ?_
    cases e with
    | abortFlag node flag => trivial
    | message now sender req => exact hadmissible s now sender req hfrom
  refine ⟨hsound.bitmapConsistent, ?_, ?_⟩
  · intro killed hkilled
    exact (hsound.accounted.deleteNodes hkilled).deletionExact
  · intro now sender req hfrom
    exact hsound.deletesExactly hpgas now (hadmissible s now sender req hfrom)

theorem bitmapTable_accounts_upgradeRun :
    BitmapConsistent (upgradeRun.foldl (serve serviceConfig) servicedInit).dsl.ht :=
  (bitmapTable_accounts serviceConfig rfl upgradeRun _ (by decide)
    (exec_graph_foldl (serve serviceConfig) servicedInit upgradeRun)).1

end TM2C
