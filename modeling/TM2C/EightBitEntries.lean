import TM2C.CoreNumbering
import TM2C.EarlyRelease

/-!
# Eight-bit entries

Without `BIT_OPTS` an entry of the lock table has its reader count and its writer in one
byte each, and the byte 0xFF stands for no writer.  Node ids go up to `MAX_READERS`, 256,
and which of them are application nodes depends on `DSL_PER_NODE`.  The count has room for
all of them; the writer byte has no room for node 255, whose write lock looks like none.

An entry is compared with the requests, not with itself.  After a run of LOADs the readers in the
entry are those who asked, and the count is their number (`CountsReaders`); after a STORE that
was granted, every request of another application node is arbitrated against the writer
(`RecognisesWriter`).  The runs are those whose requests are granted at once, and `Entering` says
which slot such a request enters: the one that the scan of the bucket finds again, or a free one.

The counting side holds because at most 256 application nodes exist, and at least one node is a
service node, so that a count of readers is at most 255.  For the writers, the byte of node `n`
equals 0xFF exactly if `n` is 255.  Whether there is such an application node depends on the
configuration, and the equivalence says so: all writers are recognised if and only if node 255 is
no application node.
-/

namespace TM2C

open RwEntry Transition

/-! ### Nodes, requests and locks -/

/-- The application nodes with `DSL_CORES_ASSIGN == 0`. -/
def IsAppNode (cfg : Config) (dslPerNode n : Nat) : Prop :=
  n < cfg.numUes ∧ isAppCore dslPerNode n = true

instance (cfg : Config) (dslPerNode n : Nat) : Decidable (IsAppNode cfg dslPerNode n) :=
  inferInstanceAs (Decidable (n < cfg.numUes ∧ isAppCore dslPerNode n = true))

/-- A request is granted without an arbitration. -/
def AtOnce (cfg : Config) (timestamp : Nat → Nat) (t : Ssht ByteEntry) (id addr : Nat)
    (rw : RW) : Prop :=
  ∃ slot reason, insertion cfg timestamp t id addr rw = .grant slot reason []

/-- An application node requests a lock, and it is granted at once. -/
def GrantedAtOnce (cfg : Config) (dslPerNode : Nat) (s : Dsl ByteEntry) : DslEvent → Prop
  | .message now sender req => IsAppNode cfg dslPerNode sender ∧ req.address ≠ 0 ∧
    ∃ rw, requestKind cfg req = some rw ∧
      AtOnce cfg (updateTimestamp cfg now sender req.txMetadata s.timestamp) s.ht sender
        req.address rw
  | .abortFlag _ _ => True

/-- Requests that are all granted at once, for any addresses. -/
def GrantedRun (cfg : Config) (dslPerNode : Nat) :
    Dsl ByteEntry → List DslEvent → Dsl ByteEntry → Prop :=
  Exec (restrict (GrantedAtOnce cfg dslPerNode) (graph fun s e => (dslStep cfg s e).1))

/-- The sender of a request for the address. -/
def asker (addr : Nat) : DslEvent → Option Nat
  | .message _ sender req => if req.address = addr then some sender else none
  | .abortFlag _ _ => none

def askers (addr : Nat) (es : List DslEvent) : Finset Nat := (es.filterMap (asker addr)).toFinset

/-- The address is requested for LOADs only. -/
def LoadsOnly (addr : Nat) : DslEvent → Prop
  | .message _ _ req => req.address = addr → req.type = .load
  | .abortFlag _ _ => True

/-- The readers of an entry that nobody writes are a set, which `nr` counts. -/
structure ByteEntry.ReadBy (e : ByteEntry) (R : Finset Nat) : Prop where
  nr : e.nr = R.card
  reader : ∀ n, e.reader n = true ↔ n ∈ R
  writer : e.writer = SSHT_NO_WRITER

/-- The nodes of the set, and nobody else, have locks on the address; what is free in its
bucket has none. -/
structure ReadLocked (pgas : Bool) (t : Ssht ByteEntry) (addr : Nat) (R : Finset Nat) : Prop where
  free : ∀ i sl, t.slot? (bucketOf pgas addr, i) = some sl → sl.addr = 0 → sl.entry.ReadBy ∅
  found : ∀ i sl, bucketFind (t.bucket (bucketOf pgas addr)) addr = some (i, sl) →
    sl.entry.ReadBy R
  present : R.Nonempty → ∃ r, bucketFind (t.bucket (bucketOf pgas addr)) addr = some r

/-- From a table without locks on an address, LOADs of it by application nodes, in any
order and number and between requests for other addresses, are counted exactly, and the
next one is granted, too. -/
def CountsReaders (cfg : Config) (dslPerNode : Nat) : Prop :=
  ∀ (addr : Nat) (s t : Dsl ByteEntry) (es : List DslEvent), addr ≠ 0 →
    ReadLocked cfg.pgas s.ht addr ∅ → GrantedRun cfg dslPerNode s es t →
    (∀ e ∈ es, LoadsOnly addr e) →
    ReadLocked cfg.pgas t.ht addr (askers addr es) ∧
      ∀ timestamp n, AtOnce cfg timestamp t.ht n addr .read

/-- The entry of the address names the writer. -/
def Written (pgas : Bool) (t : Ssht ByteEntry) (addr w : Nat) : Prop :=
  ∃ i sl, bucketFind (t.bucket (bucketOf pgas addr)) addr = some (i, sl) ∧ sl.entry.writer = w

/-- It is recognised: the requests of other application nodes are arbitrated against it. -/
structure WriteLockedBy (cfg : Config) (dslPerNode : Nat) (t : Ssht ByteEntry) (addr w : Nat) :
    Prop where
  entry : Written cfg.pgas t addr w
  arbitrated : ∀ v, IsAppNode cfg dslPerNode v → v ≠ w → ∀ timestamp rw, ∃ p conflict,
    insertion cfg timestamp t v addr rw = attackSlotWriter cfg timestamp p v w conflict

/-- A STORE of the node that was granted, in whatever state and at whatever cost to others,
is recognised for as long as requests are granted at once. -/
def RecognisesWriter (cfg : Config) (dslPerNode w : Nat) : Prop :=
  ∀ (now : Nat) (s t : Dsl ByteEntry) (req : Req) (reply : Reply) (es : List DslEvent),
    req.type = .store → req.address ≠ 0 → (dslService cfg now s w req).2 = some reply →
    reply.response = .noConflict → GrantedRun cfg dslPerNode (dslService cfg now s w req).1 es t →
    WriteLockedBy cfg dslPerNode t.ht req.address w

/-! ### The first slot of an address -/

section FirstSlot

variable {E : Type} {t t' : Ssht E} {bu a i : Nat} {sl : Slot E}

theorem bucketFind_eq_some_iff :
    bucketFind (t.bucket bu) a = some (i, sl) ↔ t.slot? (bu, i) = some sl ∧ sl.addr = a ∧
      ∀ j < i, ∀ sl', t.slot? (bu, j) = some sl' → sl'.addr ≠ a := by
  constructor
  · intro hfind
    obtain ⟨hslot, haddr⟩ := bucketFind_eq_some hfind
    refine ⟨hslot, haddr, ?_⟩
    unfold bucketFind at hfind
    obtain ⟨k, hidx, hk⟩ := Option.bind_eq_some_iff.mp hfind
    obtain ⟨sl₁, -, heq⟩ := Option.map_eq_some_iff.mp hk
    cases heq
    obtain ⟨hlt, -, hbefore⟩ := List.findIdx?_eq_some_iff_getElem.mp hidx
    intro j hj sl' hslot'
    have hget := (List.getElem?_eq_some_iff.mp hslot').2
    have hno := hbefore j hj
    rw [hget] at hno
    simpa using hno
  · rintro ⟨hslot, haddr, hbefore⟩
    obtain ⟨hlt, hget⟩ := List.getElem?_eq_some_iff.mp hslot
    have hidx : ((t.bucket bu).findIdx? fun sl => sl.addr == a) = some i := by
      rw [List.findIdx?_eq_some_iff_getElem]
      refine ⟨hlt, ?_, ?_⟩
      · rw [hget]
        exact beq_iff_eq.mpr haddr
      · intro j hj
        have hno := hbefore j hj _ (List.getElem?_eq_getElem (Nat.lt_trans hj hlt))
        simpa using hno
    unfold bucketFind
    rw [hidx, Option.bind_some]
    exact congrArg (Option.map fun sl => (i, sl)) hslot

/-- The scan for an address sees only the slots with that address. -/
theorem bucketFind_congr
    (h : ∀ i sl, sl.addr = a → (t'.slot? (bu, i) = some sl ↔ t.slot? (bu, i) = some sl)) :
    bucketFind (t'.bucket bu) a = bucketFind (t.bucket bu) a := by
  have hiff : ∀ i sl, bucketFind (t'.bucket bu) a = some (i, sl) ↔
      bucketFind (t.bucket bu) a = some (i, sl) := by
    intro i sl
    rw [bucketFind_eq_some_iff, bucketFind_eq_some_iff]
    constructor
    · rintro ⟨hslot, haddr, hbefore⟩
      refine ⟨(h i sl haddr).mp hslot, haddr, ?_⟩
      intro j hj sl' hslot' haddr'
      exact hbefore j hj sl' ((h j sl' haddr').mpr hslot') haddr'
    · rintro ⟨hslot, haddr, hbefore⟩
      refine ⟨(h i sl haddr).mpr hslot, haddr, ?_⟩
      intro j hj sl' hslot' haddr'
      exact hbefore j hj sl' ((h j sl' haddr').mp hslot') haddr'
  apply Option.ext
  rintro ⟨i, sl⟩
  exact hiff i sl

/-- A slot that gets the address is found where no slot before it has it. -/
theorem bucketFind_entered (hslot : t.slot? (bu, i) = some sl)
    (hbefore : ∀ j < i, ∀ sl', t.slot? (bu, j) = some sl' → sl'.addr ≠ a) (f : Slot E → Slot E)
    (haddr : (f sl).addr = a) :
    bucketFind ((t.modifySlot (bu, i) f).bucket bu) a = some (i, f sl) := by
  rw [bucketFind_eq_some_iff]
  refine ⟨Ssht.slot?_modifySlot_self hslot f, haddr, ?_⟩
  intro j hj sl' hslot'
  rw [Ssht.slot?_modifySlot_of_ne] at hslot'
  · exact hbefore j hj sl' hslot'
  · intro heq
    exact absurd (Prod.mk.inj heq).2 (Nat.ne_of_lt hj)

end FirstSlot

/-! ### Entering a lock -/

section Entering

variable {E : Type} [RwEntry E] {t t₀ : Ssht E} {bu addr i a : Nat} {sl : Slot E} {found : Bool}

/-- The entry with the new lock, in a slot that was found and in a free one. -/
def markedEntry (found : Bool) (e : E) (id : Nat) : RW → E
  | .read => if found then (addReaderFound e id).getD e else addReader e id
  | .write => setWriter e id

/-- A lock goes to the slot that the scan finds, or to a free one, for which the chain of
the bucket may have to grow. -/
structure Entering (t t₀ : Ssht E) (bu addr i : Nat) (sl : Slot E) (found : Bool) : Prop where
  grown : ∀ q, t₀.slot? q = t.slot? q ∨ (t.slot? q = none ∧ t₀.slot? q = some ⟨0, RwEntry.new⟩)
  slot : t₀.slot? (bu, i) = some sl
  before : ∀ j < i, ∀ sl', t₀.slot? (bu, j) = some sl' → sl'.addr ≠ addr
  hit : found = true → bucketFind (t.bucket bu) addr = some (i, sl)
  miss : found = false → bucketFind (t.bucket bu) addr = none ∧ sl.addr = 0

theorem bucket_markReader {p : SlotPtr} (hp : t.slot? p = some sl) (id addr : Nat) :
    (markReader t p id addr).bucket =
      (t.modifySlot p fun _ => ⟨addr, addReader sl.entry id⟩).bucket := by
  have hcongr := Ssht.modifySlot_congr hp (f := fun sl => ⟨addr, addReader sl.entry id⟩)
    (g := fun _ => ⟨addr, addReader sl.entry id⟩) rfl
  change (t.modifySlot p fun sl => ⟨addr, addReader sl.entry id⟩).bucket = _
  rw [hcongr]

theorem bucket_markWriter {p : SlotPtr} (hp : t.slot? p = some sl) (id addr : Nat) :
    (markWriter t p id addr).bucket =
      (t.modifySlot p fun _ => ⟨addr, setWriter sl.entry id⟩).bucket := by
  have hcongr := Ssht.modifySlot_congr hp (f := fun sl => ⟨addr, setWriter sl.entry id⟩)
    (g := fun _ => ⟨addr, setWriter sl.entry id⟩) rfl
  change (t.modifySlot p fun sl => ⟨addr, setWriter sl.entry id⟩).bucket = _
  rw [hcongr]

theorem bucket_markReaderFound {p : SlotPtr} (hp : t.slot? p = some sl) (id addr : Nat) :
    (markReaderFound t p id addr).bucket =
      (t.modifySlot p fun _ => ⟨addr, (addReaderFound sl.entry id).getD sl.entry⟩).bucket := by
  unfold markReaderFound
  simp only [hp]
  cases hadd : addReaderFound sl.entry id with
  | none =>
    have hcongr := Ssht.modifySlot_congr hp (f := fun sl => { sl with addr := addr })
      (g := fun _ => ⟨addr, sl.entry⟩) rfl
    exact congrArg Ssht.bucket hcongr
  | some e => rfl

theorem enterLock_entering {slot : Option SlotPtr} (haddr : addr ≠ 0)
    (hslot : (slot = none ∧ bucketFind (t.bucket bu) addr = none) ∨
      ∃ i sl, slot = some (bu, i) ∧ bucketFind (t.bucket bu) addr = some (i, sl))
    (id : Nat) (rw : RW) :
    ∃ t₀ i sl found, Entering t t₀ bu addr i sl found ∧
      (enterLock t bu slot id addr rw).bucket =
        (t₀.modifySlot (bu, i) fun _ => ⟨addr, markedEntry found sl.entry id rw⟩).bucket := by
  rcases hslot with ⟨rfl, hnone⟩ | ⟨i, sl, rfl, hfind⟩
  · obtain ⟨-, ⟨sl, hsl, hzero⟩, hbu, hgrown⟩ := bucketAlloc_spec t bu
    rcases halloc : bucketAlloc t bu with ⟨t₀, b, i⟩
    rw [halloc] at hsl hbu hgrown
    simp only at hsl hbu hgrown
    subst hbu
    refine ⟨t₀, i, sl, false, ⟨hgrown, hsl, ?_, ?_, fun _ => ⟨hnone, hzero⟩⟩, ?_⟩
    · intro j _ sl' hsl'
      rcases hgrown (b, j) with hold | ⟨-, hnew⟩
      · rw [hold] at hsl'
        exact bucketFind_eq_none hnone sl' (List.mem_of_getElem? hsl')
      · rw [hnew, Option.some.injEq] at hsl'
        rw [← hsl']
        exact Ne.symm haddr
    · intro hc
      cases hc
    · simp only [enterLock, halloc]
      cases rw with
      | read => exact bucket_markReader hsl id addr
      | write => exact bucket_markWriter hsl id addr
  · obtain ⟨hsl, -, hbefore⟩ := bucketFind_eq_some_iff.mp hfind
    refine ⟨t, i, sl, true, ⟨fun q => Or.inl rfl, hsl, hbefore, fun _ => hfind, ?_⟩, ?_⟩
    · intro hc
      cases hc
    · cases rw with
      | read => exact bucket_markReaderFound hsl id addr
      | write => exact bucket_markWriter hsl id addr

theorem Entering.addr_eq (h : Entering t t₀ bu addr i sl found) :
    sl.addr = 0 ∨ sl.addr = addr := by
  cases found with
  | false => exact Or.inl (h.miss rfl).2
  | true => exact Or.inr (bucketFind_eq_some (h.hit rfl)).2

/-- Then the scan finds the slot of the lock. -/
theorem Entering.bucketFind_self (h : Entering t t₀ bu addr i sl found) (e : E) :
    bucketFind ((t₀.modifySlot (bu, i) fun _ => ⟨addr, e⟩).bucket bu) addr =
      some (i, ⟨addr, e⟩) :=
  bucketFind_entered h.slot h.before (fun _ => ⟨addr, e⟩) rfl

/-- Other addresses are found where they were. -/
theorem Entering.bucketFind_of_ne (h : Entering t t₀ bu addr i sl found) (ha : a ≠ 0)
    (hne : a ≠ addr) (e : E) (bu' : Nat) :
    bucketFind ((t₀.modifySlot (bu, i) fun _ => ⟨addr, e⟩).bucket bu') a =
      bucketFind (t.bucket bu') a := by
  have hgrown : ∀ q sl', sl'.addr = a → (t₀.slot? q = some sl' ↔ t.slot? q = some sl') := by
    intro q sl' hsl'
    rcases h.grown q with hold | ⟨hnone, hnew⟩
    · rw [hold]
    · rw [hnone, hnew]
      constructor
      · intro heq
        cases heq
        exact absurd hsl'.symm ha
      · intro hc
        cases hc
  apply bucketFind_congr
  intro j sl' hsl'
  rw [← hgrown _ sl' hsl']
  by_cases hp : (bu', j) = (bu, i)
  · rw [hp, Ssht.slot?_modifySlot_self h.slot, h.slot]
    constructor
    · intro heq
      cases heq
      exact absurd hsl'.symm hne
    · intro heq
      cases heq
      rcases h.addr_eq with hzero | haddr
      · exact absurd (hsl'.symm.trans hzero) ha
      · exact absurd (hsl'.symm.trans haddr) hne
  · rw [Ssht.slot?_modifySlot_of_ne hp]

/-- A slot that is free was free before, or it is new. -/
theorem Entering.free (h : Entering t t₀ bu addr i sl found) (haddr : addr ≠ 0) {e : E}
    {q : SlotPtr} {sl' : Slot E}
    (hq : (t₀.modifySlot (bu, i) fun _ => ⟨addr, e⟩).slot? q = some sl') (hzero : sl'.addr = 0) :
    t.slot? q = some sl' ∨ sl' = ⟨0, RwEntry.new⟩ := by
  rcases Ssht.of_slot?_modifySlot hq with hold | ⟨sl₁, rfl, -, rfl⟩
  · rcases h.grown q with hsame | ⟨-, hnew⟩
    · exact Or.inl (hsame ▸ hold)
    · exact Or.inr (Option.some.inj (hold.symm.trans hnew))
  · exact absurd hzero haddr

end Entering

/-! ### Requests that are granted at once -/

section AtOnce

variable {cfg : Config} {dslPerNode now sender addr id : Nat} {timestamp : Nat → Nat}
  {t : Ssht ByteEntry} {rw : RW}

/-- A request that finds another writer attacks it. -/
theorem insertion_attack {i : Nat} {sl : Slot ByteEntry}
    (hfind : bucketFind (t.bucket (bucketOf cfg.pgas addr)) addr = some (i, sl))
    (hno : sl.entry.writer ≠ SSHT_NO_WRITER) (hne : rw = .write → sl.entry.writer ≠ id) :
    ∃ conflict, insertion cfg timestamp t id addr rw =
      attackSlotWriter cfg timestamp (bucketOf cfg.pgas addr, i) id sl.entry.writer conflict := by
  cases rw with
  | read =>
    refine ⟨.readAfterWrite, ?_⟩
    simp only [insertion, insertionR, hfind]
    exact if_pos hno
  | write =>
    refine ⟨.writeAfterWrite, ?_⟩
    simp only [insertion, insertionW, hfind]
    exact if_pos ⟨hno, hne rfl⟩

/-- An attack has a victim, or it is refused. -/
theorem attackSlotWriter_ne (p : SlotPtr) (w : Nat) (conflict : Conflict) (slot : Option SlotPtr)
    (reason : Conflict) :
    attackSlotWriter cfg timestamp p id w conflict ≠ .grant slot reason [] := by
  unfold attackSlotWriter
  split <;> intro h <;> cases h

/-- A LOAD that finds no writer is granted at once. -/
theorem atOnce_read (h : ∀ i sl, bucketFind (t.bucket (bucketOf cfg.pgas addr)) addr =
    some (i, sl) → sl.entry.writer = SSHT_NO_WRITER) :
    AtOnce cfg timestamp t id addr .read := by
  cases hfind : bucketFind (t.bucket (bucketOf cfg.pgas addr)) addr with
  | none =>
    refine ⟨none, .readAfterWrite, ?_⟩
    simp only [insertion, insertionR, hfind]
  | some r =>
    obtain ⟨i, sl⟩ := r
    refine ⟨some (bucketOf cfg.pgas addr, i), .readAfterWrite, ?_⟩
    simp only [insertion, insertionR, hfind]
    exact if_neg (not_not_intro (h i sl hfind))

/-- All that such a request does to the table is to enter its lock. -/
theorem ht_dslService_atOnce {s : Dsl ByteEntry} {req : Req} {slot : Option SlotPtr}
    {reason : Conflict} (hkind : requestKind cfg req = some rw)
    (h : insertion cfg (updateTimestamp cfg now sender req.txMetadata s.timestamp) s.ht sender
      req.address rw = .grant slot reason []) :
    (dslService cfg now s sender req).1.ht =
      enterLock s.ht (bucketOf cfg.pgas req.address) slot sender req.address rw := by
  have hins : insertion cfg (stamped cfg now s sender req).timestamp
      (stamped cfg now s sender req).ht sender req.address rw = .grant slot reason [] := h
  obtain ⟨reply, -, hresponse, -, hok⟩ :=
    dslSwitch_insert cfg (stamped cfg now s sender req) sender (requestKind_cases hkind)
  rw [tm2cHtInsert_eq, hins] at hresponse hok
  exact hok hresponse

/-- What a step does: nothing to the table, or it enters one lock. -/
theorem GrantedAtOnce.cases {s : Dsl ByteEntry} {e : DslEvent}
    (h : GrantedAtOnce cfg dslPerNode s e) :
    ((dslStep cfg s e).1.ht = s.ht ∧ ∀ a, asker a e = none) ∨
    ∃ now sender req rw t₀ i sl found, e = .message now sender req ∧
      IsAppNode cfg dslPerNode sender ∧ req.address ≠ 0 ∧ requestKind cfg req = some rw ∧
      AtOnce cfg (updateTimestamp cfg now sender req.txMetadata s.timestamp) s.ht sender
        req.address rw ∧
      Entering s.ht t₀ (bucketOf cfg.pgas req.address) req.address i sl found ∧
      (dslStep cfg s e).1.ht.bucket = (t₀.modifySlot (bucketOf cfg.pgas req.address, i)
        fun _ => ⟨req.address, markedEntry found sl.entry sender rw⟩).bucket := by
  cases e with
  | abortFlag node flag => exact Or.inl ⟨rfl, fun a => rfl⟩
  | message now sender req =>
    right
    obtain ⟨happ, haddr, rw, hkind, slot, reason, hins⟩ := h
    have hslot : (slot = none ∧
          bucketFind (s.ht.bucket (bucketOf cfg.pgas req.address)) req.address = none) ∨
        ∃ i sl, slot = some (bucketOf cfg.pgas req.address, i) ∧
          bucketFind (s.ht.bucket (bucketOf cfg.pgas req.address)) req.address = some (i, sl) :=
      (insertion_slot (s := stamped cfg now s sender req) hins).imp
        (fun hnone => ⟨hnone.1, hnone.2.2⟩) id
    obtain ⟨t₀, i, sl, found, hentering, hbucket⟩ := enterLock_entering haddr hslot sender rw
    refine ⟨now, sender, req, rw, t₀, i, sl, found, rfl, happ, haddr, hkind, ⟨slot, reason, hins⟩,
      hentering, ?_⟩
    rw [← hbucket]
    exact congrArg Ssht.bucket (ht_dslService_atOnce hkind hins)

end AtOnce

/-! ### Readers -/

section Readers

variable {cfg : Config} {dslPerNode addr n : Nat} {R : Finset Nat}

theorem ByteEntry.readBy_new : (RwEntry.new : ByteEntry).ReadBy ∅ where
  nr := rfl
  reader n := by simp [RwEntry.new]
  writer := rfl

/-- The nodes that may read are too few for the count to wrap. -/
theorem card_le_of_isAppNode (hnum : cfg.numUes ≤ MAX_READERS)
    (h : ∀ n ∈ R, IsAppNode cfg dslPerNode n) : R.card ≤ 255 := by
  have hsub : R ⊆ (Finset.range MAX_READERS).erase 0 := by
    intro n hn
    obtain ⟨hlt, happ⟩ := h n hn
    refine Finset.mem_erase.mpr ⟨?_, Finset.mem_range.mpr (Nat.lt_of_lt_of_le hlt hnum)⟩
    rintro rfl
    simp [isAppCore] at happ
  have hcard := Finset.card_le_card hsub
  rw [Finset.card_erase_of_mem (Finset.mem_range.mpr (by decide)), Finset.card_range] at hcard
  exact hcard

theorem ByteEntry.ReadBy.marked {e : ByteEntry} (h : e.ReadBy R) {found : Bool}
    (hmiss : found = false → R = ∅) (hcard : (insert n R).card ≤ 255) :
    (markedEntry found e n .read).ReadBy (insert n R) := by
  by_cases hn : n ∈ R
  · -- a reader that is there is left alone
    have hfound : found = true := by
      by_contra hno
      rw [hmiss (Bool.eq_false_of_not_eq_true hno)] at hn
      exact absurd hn (Finset.notMem_empty n)
    have hsame : markedEntry found e n .read = e := by
      simp [markedEntry, hfound, RwEntry.addReaderFound, (h.reader n).mpr hn]
    rw [hsame, Finset.insert_eq_of_mem hn]
    exact h
  · have hflag : e.reader n = false := Bool.eq_false_of_not_eq_true (mt (h.reader n).mp hn)
    have hadd : markedEntry found e n .read = e.addReader n := by
      cases found with
      | false => rfl
      | true => simp [markedEntry, RwEntry.addReaderFound, hflag]
    rw [hadd]
    refine ⟨?_, ?_, h.writer⟩
    · rw [Finset.card_insert_of_notMem hn] at hcard ⊢
      simp only [ByteEntry.addReader, h.nr]
      exact Nat.mod_eq_of_lt (Nat.lt_succ_of_le hcard)
    · intro m
      rw [Finset.mem_insert, ← h.reader m]
      simp only [ByteEntry.addReader, Function.update_apply]
      by_cases hmn : m = n
      · simp [hmn]
      · simp [hmn]

/-- The entry that a LOAD marks is the one of the readers, or it has none. -/
theorem ReadLocked.marked {t t₀ : Ssht ByteEntry} {pgas found : Bool} {i : Nat}
    {sl : Slot ByteEntry} (h : ReadLocked pgas t addr R)
    (hentering : Entering t t₀ (bucketOf pgas addr) addr i sl found)
    (hcard : (insert n R).card ≤ 255) :
    (markedEntry found sl.entry n .read).ReadBy (insert n R) := by
  cases found with
  | true => exact (h.found i sl (hentering.hit rfl)).marked (fun hc => by cases hc) hcard
  | false =>
    obtain ⟨hnone, hzero⟩ := hentering.miss rfl
    have hempty : R = ∅ := by
      rw [← Finset.not_nonempty_iff_eq_empty]
      intro hne
      obtain ⟨r, hr⟩ := h.present hne
      rw [hnone] at hr
      cases hr
    have hslot : sl.entry.ReadBy R := by
      rw [hempty]
      rcases hentering.grown (bucketOf pgas addr, i) with hold | ⟨-, hnew⟩
      · exact h.free i sl (hold ▸ hentering.slot) hzero
      · rw [← Option.some.inj (hnew.symm.trans hentering.slot)]
        exact ByteEntry.readBy_new
    exact hslot.marked (fun _ => hempty) hcard

/-- What one request does to the readers of an address. -/
theorem ReadLocked.step {s : Dsl ByteEntry} (h : ReadLocked cfg.pgas s.ht addr R) (ha : addr ≠ 0)
    (hnum : cfg.numUes ≤ MAX_READERS) (hR : ∀ n ∈ R, IsAppNode cfg dslPerNode n) {e : DslEvent}
    (hgranted : GrantedAtOnce cfg dslPerNode s e) (hloads : LoadsOnly addr e) :
    ReadLocked cfg.pgas (dslStep cfg s e).1.ht addr ((asker addr e).elim R (insert · R)) ∧
      ∀ n ∈ asker addr e, IsAppNode cfg dslPerNode n := by
  rcases hgranted.cases with ⟨hsame, hnone⟩ |
    ⟨now, sender, req, rw, t₀, i, sl, found, rfl, happ, hreq, hkind, -, hentering, hbucket⟩
  · rw [hsame, hnone addr]
    exact ⟨h, fun n hn => by cases hn⟩
  · have hfree : ∀ j sl', (dslStep cfg s (.message now sender req)).1.ht.slot?
        (bucketOf cfg.pgas addr, j) = some sl' → sl'.addr = 0 → sl'.entry.ReadBy ∅ := by
      intro j sl' hsl' hzero
      rw [Ssht.slot?, hbucket] at hsl'
      rcases hentering.free hreq hsl' hzero with hold | rfl
      · exact h.free j sl' hold hzero
      · exact ByteEntry.readBy_new
    by_cases haddr : req.address = addr
    · have hrw : rw = .read := by
        have hload := hloads haddr
        simp only [requestKind, hload, Option.some.injEq] at hkind
        exact hkind.symm
      subst haddr hrw
      have hasker : asker req.address (.message now sender req) = some sender := if_pos rfl
      have hR' : ∀ m ∈ insert sender R, IsAppNode cfg dslPerNode m := by
        intro m hm
        rcases Finset.mem_insert.mp hm with rfl | hm
        · exact happ
        · exact hR m hm
      have hmarked := h.marked hentering (card_le_of_isAppNode hnum hR')
      rw [hasker]
      refine ⟨⟨hfree, ?_, ?_⟩, fun m hm => Option.some.inj hm ▸ happ⟩
      · intro j sl' hfind
        rw [hbucket, hentering.bucketFind_self] at hfind
        cases hfind
        exact hmarked
      · intro _
        rw [hbucket, hentering.bucketFind_self]
        exact ⟨_, rfl⟩
    · have hasker : asker addr (.message now sender req) = none := if_neg haddr
      have hsame : bucketFind ((dslStep cfg s (.message now sender req)).1.ht.bucket
          (bucketOf cfg.pgas addr)) addr =
          bucketFind (s.ht.bucket (bucketOf cfg.pgas addr)) addr := by
        rw [hbucket]
        exact hentering.bucketFind_of_ne ha (Ne.symm haddr) _ _
      rw [hasker]
      refine ⟨⟨hfree, ?_, ?_⟩, fun m hm => by cases hm⟩
      · intro j sl' hfind
        exact h.found j sl' (hsame ▸ hfind)
      · intro hne
        rw [hsame]
        exact h.present hne

theorem askers_cons (addr : Nat) (e : DslEvent) (es : List DslEvent) :
    askers addr (e :: es) = (asker addr e).elim (askers addr es) (insert · (askers addr es)) := by
  unfold askers
  cases hasker : asker addr e with
  | none => rw [List.filterMap_cons_none hasker, Option.elim_none]
  | some n => rw [List.filterMap_cons_some hasker, List.toFinset_cons, Option.elim_some]

theorem ReadLocked.run {s t : Dsl ByteEntry} {es : List DslEvent}
    (hexec : GrantedRun cfg dslPerNode s es t) (ha : addr ≠ 0) (hnum : cfg.numUes ≤ MAX_READERS)
    (hloads : ∀ e ∈ es, LoadsOnly addr e) (hR : ∀ n ∈ R, IsAppNode cfg dslPerNode n)
    (h : ReadLocked cfg.pgas s.ht addr R) :
    ReadLocked cfg.pgas t.ht addr (R ∪ askers addr es) := by
  induction hexec generalizing R with
  | nil s => exact (Finset.union_empty R).symm ▸ h
  | @cons s t u e es hstep _ ih =>
    obtain ⟨hgranted, rfl⟩ := hstep
    obtain ⟨hnext, happ⟩ := h.step ha hnum hR hgranted (hloads e List.mem_cons_self)
    have hrest : ∀ e' ∈ es, LoadsOnly addr e' := fun e' he => hloads e' (List.mem_cons_of_mem e he)
    rw [askers_cons]
    cases hasker : asker addr e with
    | none =>
      rw [hasker] at hnext
      exact ih hrest hR hnext
    | some n =>
      rw [hasker] at hnext
      have hinsert : R ∪ insert n (askers addr es) = insert n R ∪ askers addr es := by
        rw [Finset.union_insert, Finset.insert_union]
      rw [Option.elim_some, hinsert]
      refine ih hrest ?_ hnext
      intro m hm
      rcases Finset.mem_insert.mp hm with rfl | hm
      · exact happ m hasker
      · exact hR m hm

theorem readLocked_dslInit (pgas : Bool) (ha : addr ≠ 0) :
    ReadLocked pgas (dslInit : Dsl ByteEntry).ht addr ∅ where
  free i sl hslot _ := by
    rw [slot?_sshtNew hslot]
    exact ByteEntry.readBy_new
  found i sl hfind := by
    obtain ⟨hslot, haddr⟩ := bucketFind_eq_some hfind
    rw [slot?_sshtNew (p := (bucketOf pgas addr, i)) hslot] at haddr
    exact absurd haddr.symm ha
  present hne := absurd hne Finset.not_nonempty_empty

theorem countsReaders (dslPerNode : Nat) (hnum : cfg.numUes ≤ MAX_READERS) :
    CountsReaders cfg dslPerNode := by
  intro addr s t es ha h hexec hloads
  have hrun := ReadLocked.run hexec ha hnum hloads (fun n hn => absurd hn (Finset.notMem_empty n)) h
  rw [Finset.empty_union] at hrun
  refine ⟨hrun, ?_⟩
  intro timestamp n
  exact atOnce_read fun i sl hfind => (hrun.found i sl hfind).writer

end Readers

/-! ### Writers -/

section Writers

variable {cfg : Config} {dslPerNode addr w : Nat}

theorem addr_iterate_remove {E : Type} [RwEntry E] (n k : Nat) (sl : Slot E) :
    ((sshtBucketRemoveIndex n)^[k] sl).addr = 0 ∨
      ((sshtBucketRemoveIndex n)^[k] sl).addr = sl.addr := by
  induction k generalizing sl with
  | zero => exact Or.inr rfl
  | succ k ih =>
    have hone : (sshtBucketRemoveIndex n sl).addr = 0 ∨
        (sshtBucketRemoveIndex n sl).addr = sl.addr := by
      by_cases hempty : isEmpty (sshtBucketRemoveIndex n sl).entry = true
      · exact Or.inl (if_pos hempty)
      · exact Or.inr (if_neg hempty)
    rw [Function.iterate_succ_apply]
    rcases ih (sshtBucketRemoveIndex n sl) with hzero | hsame
    · exact Or.inl hzero
    · rw [hsame]
      exact hone

/-- Deleting nodes leaves the slots at their addresses or frees them. -/
theorem slot?_deleteNodes {E : Type} [LawfulRwEntry E] (victims : List Nat) (t : Ssht E)
    (p : SlotPtr) :
    ∃ f : Slot E → Slot E, (deleteNodes t victims).slot? p = (t.slot? p).map f ∧
      ∀ sl, (f sl).addr = 0 ∨ (f sl).addr = sl.addr := by
  induction victims generalizing t with
  | nil => exact ⟨id, Option.map_id.symm ▸ rfl, fun sl => Or.inr rfl⟩
  | cons v victims ih =>
    obtain ⟨f, hslot, haddr⟩ := ih (tm2cHtDeleteNode t v)
    refine ⟨f ∘ (sshtBucketRemoveIndex v)^[(t.logs v).count p], ?_, ?_⟩
    · rw [← Option.map_map, ← slot?_deleteNode]
      exact hslot
    · intro sl
      rcases haddr ((sshtBucketRemoveIndex v)^[(t.logs v).count p] sl) with hzero | hsame
      · exact Or.inl hzero
      · rw [Function.comp_apply, hsame]
        exact addr_iterate_remove v _ sl

theorem slot?_abortedTable {E : Type} [LawfulRwEntry E] (cfg : Config) (t : Ssht E)
    (victims : List Nat) (p : SlotPtr) :
    ∃ f : Slot E → Slot E, (abortedTable cfg t victims).slot? p = (t.slot? p).map f ∧
      ∀ sl, (f sl).addr = 0 ∨ (f sl).addr = sl.addr := by
  unfold abortedTable
  split
  · exact ⟨id, Option.map_id.symm ▸ rfl, fun sl => Or.inr rfl⟩
  · exact slot?_deleteNodes victims t p

/-- The slot that was found gets the write lock, whatever the victims leave of it. -/
theorem written_markWriter {t : Ssht ByteEntry} {i : Nat} {sl : Slot ByteEntry} (ha : addr ≠ 0)
    (hfind : bucketFind (t.bucket (bucketOf cfg.pgas addr)) addr = some (i, sl))
    (victims : List Nat) (w : Nat) :
    Written cfg.pgas (markWriter (abortedTable cfg t victims) (bucketOf cfg.pgas addr, i) w addr)
      addr (w % 256) := by
  obtain ⟨hslot, -, hbefore⟩ := bucketFind_eq_some_iff.mp hfind
  obtain ⟨f, hmap, -⟩ := slot?_abortedTable cfg t victims (bucketOf cfg.pgas addr, i)
  rw [hslot, Option.map_some] at hmap
  unfold Written
  rw [bucket_markWriter hmap]
  refine ⟨i, ⟨addr, setWriter (f sl).entry w⟩, bucketFind_entered hmap ?_ _ rfl, rfl⟩
  intro j hj sl' hsl'
  obtain ⟨g, hmap', hg⟩ := slot?_abortedTable cfg t victims (bucketOf cfg.pgas addr, j)
  rw [hmap'] at hsl'
  obtain ⟨sl₀, hsl₀, rfl⟩ := Option.map_eq_some_iff.mp hsl'
  rcases hg sl₀ with hzero | hsame
  · rw [hzero]
    exact Ne.symm ha
  · rw [hsame]
    exact hbefore j hj sl₀ hsl₀

/-- A granted STORE writes the low byte of its sender. -/
theorem written_store {now : Nat} {s : Dsl ByteEntry} {req : Req} {reply : Reply}
    (htype : req.type = .store) (ha : req.address ≠ 0)
    (hreply : (dslService cfg now s w req).2 = some reply)
    (hgranted : reply.response = .noConflict) :
    Written cfg.pgas (dslService cfg now s w req).1.ht req.address (w % 256) := by
  obtain ⟨reply', hreply', hresponse, -, hok⟩ :=
    dslSwitch_insert cfg (stamped cfg now s w req) w (Or.inr (Or.inl ⟨htype, rfl⟩))
  have hsame : reply' = reply := Option.some.inj (hreply'.symm.trans hreply)
  subst hsame
  have hht : (dslService cfg now s w req).1.ht = _ := hok hgranted
  rw [hht]
  rw [hgranted, tm2cHtInsert_eq] at hresponse
  rw [tm2cHtInsert_eq]
  cases hins : insertion cfg (stamped cfg now s w req).timestamp (stamped cfg now s w req).ht w
    req.address .write with
  | refuse conflict =>
    rw [hins] at hresponse
    exact absurd hresponse.symm (insertion_refuse_ne hins)
  | grant slot reason victims =>
    simp only [Insertion.carryOut, ht_abortDefenders]
    rcases insertion_slot hins with ⟨rfl, rfl, hnone⟩ | ⟨i, sl, rfl, hfind⟩
    · have hsame : abortedTable cfg s.ht [] = s.ht := by
        unfold abortedTable
        split <;> rfl
      obtain ⟨t₀, i, sl, found, hentering, hbucket⟩ :=
        enterLock_entering (t := s.ht) ha (Or.inl ⟨rfl, hnone⟩) w .write
      change Written cfg.pgas (enterLock (abortedTable cfg s.ht []) _ none w req.address .write) _ _
      unfold Written
      rw [hsame, hbucket, hentering.bucketFind_self]
      exact ⟨_, _, rfl, rfl⟩
    · exact written_markWriter ha hfind victims w

/-- A writer that is recognised stays: nobody else is granted a request for the address
at once. -/
theorem Written.step {s : Dsl ByteEntry} (h : Written cfg.pgas s.ht addr w) (ha : addr ≠ 0)
    (hlt : w < SSHT_NO_WRITER) {e : DslEvent} (hgranted : GrantedAtOnce cfg dslPerNode s e) :
    Written cfg.pgas (dslStep cfg s e).1.ht addr w := by
  obtain ⟨j, sl₀, hfind, hw⟩ := h
  rcases hgranted.cases with ⟨hsame, -⟩ |
    ⟨now, sender, req, rw, t₀, i, sl, found, rfl, -, -, -, hatOnce, hentering, hbucket⟩
  · rw [hsame]
    exact ⟨j, sl₀, hfind, hw⟩
  · unfold Written
    rw [hbucket]
    by_cases haddr : req.address = addr
    · subst haddr
      rw [hentering.bucketFind_self]
      have hno : sl₀.entry.writer ≠ SSHT_NO_WRITER := hw ▸ Nat.ne_of_lt hlt
      have hself : rw = .write ∧ sl₀.entry.writer = sender := by
        by_contra hother
        obtain ⟨slot, reason, hins⟩ := hatOnce
        obtain ⟨conflict, hattack⟩ := insertion_attack hfind hno
          fun hrw heq => hother ⟨hrw, heq⟩
        exact attackSlotWriter_ne _ _ _ _ _ (hattack.symm.trans hins)
      obtain ⟨rfl, rfl⟩ := hself
      refine ⟨_, _, rfl, ?_⟩
      have hmod : sl₀.entry.writer % 256 = sl₀.entry.writer := by
        unfold SSHT_NO_WRITER at hlt
        omega
      exact hmod.trans hw
    · rw [hentering.bucketFind_of_ne ha (Ne.symm haddr)]
      exact ⟨j, sl₀, hfind, hw⟩

theorem Written.writeLockedBy {t : Ssht ByteEntry} (h : Written cfg.pgas t addr w)
    (hno : w ≠ SSHT_NO_WRITER) : WriteLockedBy cfg dslPerNode t addr w := by
  refine ⟨h, ?_⟩
  intro v _ hne timestamp rw
  obtain ⟨i, sl, hfind, rfl⟩ := h
  obtain ⟨conflict, hattack⟩ := insertion_attack hfind hno fun _ => Ne.symm hne
  exact ⟨_, conflict, hattack⟩

/-- Node 255 stores, and the next node is not stopped. -/
theorem not_recognisesWriter (hratio : 2 ≤ dslPerNode) (hnum : 255 < cfg.numUes) :
    ¬ RecognisesWriter cfg dslPerNode SSHT_NO_WRITER := by
  intro hrec
  let req : Req := { type := .store, address := 64 }
  have htype : req.type = .store := rfl
  obtain ⟨reply, hreply, hresponse, -⟩ :=
    dslSwitch_insert cfg (stamped cfg 0 (dslInit : Dsl ByteEntry) SSHT_NO_WRITER req)
      SSHT_NO_WRITER (Or.inr (Or.inl ⟨htype, rfl⟩))
  have hgranted : reply.response = .noConflict := hresponse.trans rfl
  have hwritten : Written cfg.pgas (dslService cfg 0 dslInit SSHT_NO_WRITER req).1.ht 64 255 :=
    written_store htype (by decide) hreply hgranted
  have hlocked := hrec 0 dslInit _ req reply [] htype (by decide) hreply hgranted (Exec.nil _)
  have happ : IsAppNode cfg dslPerNode 1 := by
    refine ⟨Nat.lt_trans (by decide) hnum, ?_⟩
    rw [isAppCore, Nat.mod_eq_of_lt hratio]
    rfl
  obtain ⟨p, conflict, hattack⟩ := hlocked.arbitrated 1 happ (by decide) (fun _ => 0) .read
  obtain ⟨i, sl, hfind, hw⟩ := hwritten
  have hatOnce : AtOnce cfg (fun _ => 0) (dslService cfg 0 dslInit SSHT_NO_WRITER req).1.ht 1 64
      .read := by
    refine atOnce_read ?_
    intro i' sl' hfind'
    rw [hfind] at hfind'
    cases hfind'
    exact hw
  obtain ⟨slot, reason, hins⟩ := hatOnce
  exact attackSlotWriter_ne _ _ _ _ _ (hattack.symm.trans hins)

theorem recognisesWriter_iff (hnum : cfg.numUes ≤ MAX_READERS) (hratio : 2 ≤ dslPerNode)
    (hw : IsAppNode cfg dslPerNode w) :
    RecognisesWriter cfg dslPerNode w ↔ w ≠ SSHT_NO_WRITER := by
  constructor
  · rintro hrec rfl
    exact not_recognisesWriter hratio hw.1 hrec
  · intro hno now s t req reply es htype ha hreply hgranted hexec
    have hlt : w < SSHT_NO_WRITER := by
      have hle := Nat.lt_of_lt_of_le hw.1 hnum
      unfold MAX_READERS at hle
      unfold SSHT_NO_WRITER at hno ⊢
      omega
    have hmod : w % 256 = w := Nat.mod_eq_of_lt (Nat.lt_trans hlt (by decide))
    have hstored := written_store htype ha hreply hgranted
    rw [hmod] at hstored
    have hrun : Written cfg.pgas t.ht req.address w := by
      refine hexec.invariant (fun s => Written cfg.pgas s.ht req.address w) ?_ hstored
      rintro s e t hs ⟨hstep, rfl⟩
      exact hs.step ha hlt hstep
    exact hrun.writeLockedBy hno

end Writers

/-- **Eight bits and a node too many.**  The count of the readers is right in every
configuration.  Every writer but node 255 is recognised, and so all of them are as long as
that node does not exist or is a service node. -/
theorem eight_bits_suffice_iff (cfg : Config) (dslPerNode : Nat) (hnum : cfg.numUes ≤ MAX_READERS)
    (hratio : 2 ≤ dslPerNode) :
    CountsReaders cfg dslPerNode ∧
    (∀ w, IsAppNode cfg dslPerNode w →
      (RecognisesWriter cfg dslPerNode w ↔ w ≠ SSHT_NO_WRITER)) ∧
    ((∀ w, IsAppNode cfg dslPerNode w → RecognisesWriter cfg dslPerNode w) ↔
      cfg.numUes ≤ 255 ∨ 255 % dslPerNode = 0) := by
  refine ⟨countsReaders dslPerNode hnum, fun w hw => recognisesWriter_iff hnum hratio hw, ?_⟩
  have hiff : cfg.numUes ≤ 255 ∨ 255 % dslPerNode = 0 ↔ ¬ IsAppNode cfg dslPerNode 255 := by
    rw [IsAppNode, isAppCore, decide_eq_true_eq, not_and_or, not_not, Nat.not_lt]
  rw [hiff]
  constructor
  · intro hall happ
    exact (recognisesWriter_iff hnum hratio happ).mp (hall 255 happ) rfl
  · intro hno w hw
    refine (recognisesWriter_iff hnum hratio hw).mpr ?_
    rintro rfl
    exact hno hw

/-- All the nodes that the table has room for, with the default contention manager. -/
def fullConfig : Config := ⟨.faircm, false, false, 256⟩

def storeOf64 : Req := { type := .store, address := 64 }

def loadOf64 : Req := { type := .load, address := 64 }

/-- With the default ratio 3 node 255 is a service node, with the ratio 2 it is not. -/
theorem eight_bits_suffice_iff_fullConfig :
    (∃ t, GrantedRun fullConfig 3 dslInit
        [.message 0 1 loadOf64, .message 0 254 loadOf64, .message 0 1 loadOf64] t ∧
      ReadLocked false t.ht 64 {254, 1}) ∧
    RecognisesWriter fullConfig 3 254 ∧
    (∀ w, IsAppNode fullConfig 3 w → RecognisesWriter fullConfig 3 w) ∧
    ¬ ∀ w, IsAppNode fullConfig 2 w → RecognisesWriter fullConfig 2 w := by
  obtain ⟨hcounts, hwriter, hall⟩ := eight_bits_suffice_iff fullConfig 3 (by decide) (by decide)
  obtain ⟨-, -, hall'⟩ := eight_bits_suffice_iff fullConfig 2 (by decide) (by decide)
  have hrun : ∃ t, GrantedRun fullConfig 3 dslInit
      [.message 0 1 loadOf64, .message 0 254 loadOf64, .message 0 1 loadOf64] t :=
    ⟨_, Exec.cons ⟨⟨by decide, by decide, .read, rfl, _, _, rfl⟩, rfl⟩
      (Exec.cons ⟨⟨by decide, by decide, .read, rfl, _, _, rfl⟩, rfl⟩
        (Exec.cons ⟨⟨by decide, by decide, .read, rfl, _, _, rfl⟩, rfl⟩ (Exec.nil _)))⟩
  obtain ⟨t, hexec⟩ := hrun
  have hread := (hcounts 64 dslInit t _ (by decide) (readLocked_dslInit _ (by decide)) hexec
    (fun e he => by
      simp only [List.mem_cons, List.not_mem_nil, or_false] at he
      rcases he with rfl | rfl | rfl <;> exact fun _ => rfl)).1
  exact ⟨⟨t, hexec, hread⟩, (hwriter 254 (by decide)).mpr (by decide), hall.mpr (by decide),
    fun h => absurd (hall'.mp h) (by decide)⟩

/-- Node 255 writes, and node 1 may read and write at once. -/
theorem last_writer_overlooked :
    fullConfig.numUes ≤ MAX_READERS ∧ IsAppNode fullConfig 2 255 ∧ IsAppNode fullConfig 2 1 ∧
    (dslService fullConfig 0 (dslInit : Dsl ByteEntry) 255 storeOf64).2 =
      some ⟨.storeResponse, 64, 0, .noConflict⟩ ∧
    GrantedAtOnce fullConfig 2 (dslService fullConfig 0 dslInit 255 storeOf64).1
      (.message 0 1 loadOf64) ∧
    GrantedAtOnce fullConfig 2 (dslService fullConfig 0 dslInit 255 storeOf64).1
      (.message 0 1 storeOf64) ∧
    ¬ RecognisesWriter fullConfig 2 255 := by
  refine ⟨by decide, by decide, by decide, by decide +kernel, ?_, ?_,
    not_recognisesWriter (by decide) (by decide)⟩
  · exact ⟨by decide, by decide, .read, rfl, _, _, rfl⟩
  · exact ⟨by decide, by decide, .write, rfl, _, _, rfl⟩

end TM2C
