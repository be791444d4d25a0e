import TM2C.DslService
import TM2C.Lib.Transition

/-!
# The memory behind the PGAS partitions

`src/pgas_dsl.c`, the initialisation of the service threads in `src/tm2c_dsl.c` and
`src/sys_default.c`, and the non-transactional accesses of `src/tm2c_app.c`, for the
builds in which the service nodes are threads of one process.  A global offset is
split into a service node and an offset in its partition; but `pgas_dsl_mem` and
`PGAS_write_sets` are file-scope variables, so the partition of every service node is
the one block that the first of them allocated.

The process is modelled with its global variables and the blocks that it has allocated; each
service thread runs through its initialisation, in any order, and only the first one to pass
`pthread_once` allocates.  `OneBlock` is the invariant after that, kept by every message at every
service node.

An access takes its service node from the upper bits of a global offset and puts the lower ones
into the message, so that all that a word has is its eight bytes in the one block, whatever its
partition.  Two words keep apart, in the sense that a store to one is not seen by a load of the
other (`KeptApart`), exactly when these bytes are disjoint; both directions are proved for every
state of a run, the second one by a store that is seen.
-/

namespace TM2C

open Transition

def PGAS_DSL_MASK_BITS : Nat := 25

def PGAS_DSL_ADDR_MASK : Nat := 0xFFFFFFFFFFFFFFFF >>> (64 - PGAS_DSL_MASK_BITS)

def PGAS_DSL_SIZE_NODE : Nat := 0x1 <<< PGAS_DSL_MASK_BITS

/-- `get_responsible_node` with `PGAS`: the sequence number of a service node. -/
def getResponsibleNode (addr : Nat) : Nat := addr >>> PGAS_DSL_MASK_BITS

/-- The offset that is put into a message. -/
def internOffset (addr : Nat) : Nat := addr &&& PGAS_DSL_ADDR_MASK

/-! ### The process -/

/-- What the service threads share. -/
structure Process where
  -- the blocks returned by `calloc`, oldest first
  blocks : List ByteMemory
  pgasDslMem : Option Nat
  sysDslInitOnceControl : Bool
  pgasWriteSets : Nat → WriteSetPgas

def processNew : Process := ⟨[], none, false, fun _ => writeSetPgasNew⟩

def pgasDslInit (p : Process) : Process :=
  { p with blocks := p.blocks ++ [fun _ => 0], pgasDslMem := some p.blocks.length }

/-- `pthread_once(&sys_dsl_init_once_control, sys_dsl_init_once)` -/
def sysDslInit (p : Process) : Process :=
  if p.sysDslInitOnceControl then p
  else { pgasDslInit p with sysDslInitOnceControl := true }

/-- What `tm2c_dsl_init` of one service thread does before `dsl_service`. -/
def tm2cDslInit (p : Process) : Process :=
  sysDslInit { p with pgasWriteSets := fun _ => writeSetPgasNew }

/-- The block that `pgas_dsl_mem` points to. -/
def Process.mem (p : Process) : ByteMemory :=
  match p.pgasDslMem with
  | some i => p.blocks.getD i fun _ => 0
  | none => fun _ => 0

def Process.setMem (p : Process) (mem : ByteMemory) : Process :=
  match p.pgasDslMem with
  | some i => { p with blocks := p.blocks.set i mem }
  | none => p

/-- The service threads: what they share, and what each has for itself. -/
structure Threads (E : Type) where
  process : Process
  dsl : Nat → Dsl E

variable {E : Type} [RwEntry E]

/-- The service threads when all have passed the barriers of `sys_dsl_init`;
`arrivals` is the order in which they came. -/
def threadsNew (arrivals : List Nat) : Threads E :=
  ⟨arrivals.foldl (fun p _ => tm2cDslInit p) processNew, fun _ => dslInit⟩

/-- Something happens at service node `seq`. -/
structure ThreadEvent where
  seq : Nat
  event : DslEvent

/-- The state that service node `seq` works on: its own table and timestamps, and
the memory and write sets behind the file-scope pointers. -/
def Threads.view (s : Threads E) (seq : Nat) : Dsl E :=
  { s.dsl seq with mem := s.process.mem, writeSets := s.process.pgasWriteSets }

def deliver (cfg : Config) (s : Threads E) (e : ThreadEvent) : Threads E × Option Reply :=
  let r := dslStep cfg (s.view e.seq) e.event
  (⟨{ s.process.setMem r.1.mem with pgasWriteSets := r.1.writeSets },
    Function.update s.dsl e.seq r.1⟩, r.2)

/-! ### Accesses to global offsets -/

/-- The message of `tm2c_rpc_notx_store`. -/
def tm2cRpcNotxStore (addr : Nat) (value : BitVec 64) (txMetadata : Nat) : Nat × Req :=
  (getResponsibleNode addr, ⟨.storeNontx, internOffset addr, value, txMetadata⟩)

/-- The message of `tm2c_rpc_notx_load`. -/
def tm2cRpcNotxLoad (addr : Nat) (words : BitVec 64) (txMetadata : Nat) : Nat × Req :=
  (getResponsibleNode addr, ⟨.loadNontx, internOffset addr, words, txMetadata⟩)

/-- The value of a non-transactional load of two words. -/
def notxLoaded (cfg : Config) (s : Threads E) (now sender txMetadata addr : Nat) :
    Option (BitVec 64) :=
  let m := tm2cRpcNotxLoad addr 2 txMetadata
  (deliver cfg s ⟨m.1, .message now sender m.2⟩).2.map Reply.value

/-- The message of a non-transactional store, or the release of a transaction that
committed and whose one buffered write at the service node this store is. -/
inductive StoresTo (s : Threads E) (addr : Nat) (value : BitVec 64) : ThreadEvent → Prop
  | nontx (now sender txMetadata : Nat) :
      StoresTo s addr value ⟨(tm2cRpcNotxStore addr value txMetadata).1,
        .message now sender (tm2cRpcNotxStore addr value txMetadata).2⟩
  | committed (now sender txMetadata : Nat)
      (hbuffer : (s.process.pgasWriteSets sender).writeEntries = [⟨internOffset addr, value⟩]) :
      StoresTo s addr value ⟨getResponsibleNode addr,
        .message now sender ⟨.rmvNode, 0, RESPONSE_NO_CONFLICT, txMetadata⟩⟩

/-- Whatever is stored to `a`, what is loaded from `b` is as before. -/
def KeptApart (cfg : Config) (s : Threads E) (a b : Nat) : Prop :=
  ∀ value e, StoresTo s a value e → ∀ now sender txMetadata,
    notxLoaded cfg (deliver cfg s e).1 now sender txMetadata b =
      notxLoaded cfg s now sender txMetadata b

/-! ### One block for all service nodes -/

/-- The process after the first service thread has arrived. -/
structure OneBlock (p : Process) : Prop where
  initialised : p.sysDslInitOnceControl = true
  pointer : p.pgasDslMem = some 0
  block : p.blocks.length = 1

theorem OneBlock.mem_setMem {p : Process} (h : OneBlock p) (mem : ByteMemory) :
    (p.setMem mem).mem = mem := by
  unfold Process.setMem Process.mem
  simp only [h.pointer]
  rw [List.getD_eq_getElem?_getD, List.getElem?_set_self (by rw [h.block]; exact Nat.one_pos)]
  rfl

theorem OneBlock.setMem {p : Process} (h : OneBlock p) (mem : ByteMemory)
    (writeSets : Nat → WriteSetPgas) :
    OneBlock { p.setMem mem with pgasWriteSets := writeSets } := by
  unfold Process.setMem
  split
  · exact ⟨h.initialised, h.pointer, by simp [h.block]⟩
  · exact ⟨h.initialised, h.pointer, h.block⟩

theorem oneBlock_tm2cDslInit {p : Process} (h : p = processNew ∨ OneBlock p) :
    OneBlock (tm2cDslInit p) := by
  unfold tm2cDslInit sysDslInit
  obtain rfl | h := h
  · exact ⟨rfl, rfl, rfl⟩
  · simp only [h.initialised, if_true]
    exact ⟨rfl, h.pointer, h.block⟩

/-- Whichever thread comes first allocates, and no other does. -/
theorem oneBlock_arrivals {arrivals : List Nat} (hne : arrivals ≠ []) :
    OneBlock (arrivals.foldl (fun p _ => tm2cDslInit p) processNew) := by
  induction arrivals using List.reverseRecOn with
  | nil => exact absurd rfl hne
  | append_singleton before last ih =>
    rw [List.foldl_append]
    apply oneBlock_tm2cDslInit
    by_cases hbefore : before = []
    · left
      rw [hbefore]
      rfl
    · exact Or.inr (ih hbefore)

theorem oneBlock_run {cfg : Config} {arrivals : List Nat} (hne : arrivals ≠ [])
    {es : List ThreadEvent} {s : Threads E}
    (hexec : Exec (graph fun s e => (deliver cfg s e).1) (threadsNew arrivals) es s) :
    OneBlock s.process := by
  refine hexec.invariant (fun s => OneBlock s.process) ?_ (oneBlock_arrivals hne)
  rintro s e t hs rfl
  exact hs.setMem _ _

/-! ### Loads and stores -/

/-- The offset of a global address is its remainder by the size of a partition. -/
theorem internOffset_eq_mod (addr : Nat) : internOffset addr = addr % PGAS_DSL_SIZE_NODE :=
  Nat.and_two_pow_sub_one_eq_mod addr PGAS_DSL_MASK_BITS

theorem notxLoaded_eq {cfg : Config} (hpgas : cfg.pgas = true) (s : Threads E)
    (now sender txMetadata addr : Nat) :
    notxLoaded cfg s now sender txMetadata addr =
      some (pgasDslRead s.process.mem (internOffset addr)) := by
  simp only [notxLoaded, tm2cRpcNotxLoad, deliver, dslStep, dslService, dslSwitch, hpgas,
    if_true, Option.map_some, Threads.view, readWords]
  rfl

/-- A store changes the shared block as if the partitions were not there. -/
theorem mem_deliver_of_storesTo {cfg : Config} (hpgas : cfg.pgas = true) {s : Threads E}
    (h : OneBlock s.process) {addr : Nat} {value : BitVec 64} {e : ThreadEvent}
    (he : StoresTo s addr value e) :
    (deliver cfg s e).1.process.mem =
      pgasDslWrite s.process.mem (internOffset addr) value := by
  have hmem : ∀ r : Dsl E × Option Reply, dslStep cfg (s.view e.seq) e.event = r →
      (deliver cfg s e).1.process.mem = r.1.mem := by
    rintro r rfl
    exact h.mem_setMem _
  cases he with
  | nontx now sender txMetadata =>
    rw [hmem _ rfl]
    simp only [tm2cRpcNotxStore, dslStep, dslService, dslSwitch, hpgas, if_true, Threads.view]
  | committed now sender txMetadata hbuffer =>
    rw [hmem _ rfl]
    have hforget : ∀ s' : Dsl E, (forgetTimestamp cfg s' sender).mem = s'.mem := by
      intro s'
      unfold forgetTimestamp
      split <;> rfl
    simp only [dslStep, dslService, dslSwitch, handleRmvNode, hforget, emptyWriteSet, hpgas,
      if_true, true_and, Threads.view, writeSetPgasPersist, hbuffer, List.foldl_cons,
      List.foldl_nil]

/-- Where two words overlap, one value or the other stored to the first shows in the second. -/
theorem exists_store_seen (mem : ByteMemory) {x y : Nat} (h : ¬ ByteMemory.Apart x 8 y 8) :
    ∃ value, pgasDslRead (pgasDslWrite mem x value) y ≠ pgasDslRead mem y := by
  unfold ByteMemory.Apart at h
  -- a byte of both words, and a value with another byte in its place
  obtain ⟨z, hxz, hzx, hyz, hzy⟩ : ∃ z, x ≤ z ∧ z < x + 8 ∧ y ≤ z ∧ z < y + 8 :=
    ⟨max x y, by omega, by omega, by omega, by omega⟩
  refine ⟨BitVec.ofNat 64 (((mem z).toNat + 1) % 256 * 256 ^ (z - x)), ?_⟩
  intro hsame
  have hbyte := ByteMemory.byte_of_load (n := 8) hsame ⟨hyz, hzy⟩
  have hinside := ByteMemory.store_inside (n := 8) mem x
    (BitVec.ofNat 64 (((mem z).toNat + 1) % 256 * 256 ^ (z - x))) (k := z - x) (by omega)
  rw [show x + (z - x) = z by omega] at hinside
  have hpow : 256 ^ (z - x) ≤ 256 ^ 7 := Nat.pow_le_pow_right (by decide) (by omega)
  have hpos : 0 < 256 ^ (z - x) := Nat.pow_pos (by decide)
  have hmod : ((mem z).toNat + 1) % 256 < 256 := Nat.mod_lt _ (by decide)
  have hlt : ((mem z).toNat + 1) % 256 * 256 ^ (z - x) < 2 ^ 64 := by
    calc ((mem z).toNat + 1) % 256 * 256 ^ (z - x)
        ≤ 255 * 256 ^ 7 := Nat.mul_le_mul (by omega) hpow
      _ < 2 ^ 64 := by decide
  have hval : mem z = BitVec.ofNat 8 (((mem z).toNat + 1) % 256) := by
    refine (hbyte.symm.trans hinside).trans ?_
    rw [BitVec.toNat_ofNat, Nat.mod_eq_of_lt hlt, Nat.mul_div_cancel _ hpos]
  have hnat := congrArg BitVec.toNat hval
  rw [BitVec.toNat_ofNat] at hnat
  have := (mem z).isLt
  omega

theorem keptApart_iff {cfg : Config} (hpgas : cfg.pgas = true) {s : Threads E}
    (h : OneBlock s.process) (a b : Nat) :
    KeptApart cfg s a b ↔ ByteMemory.Apart (internOffset a) 8 (internOffset b) 8 := by
  constructor
  · intro hkept
    by_contra hmeet
    obtain ⟨value, hseen⟩ := exists_store_seen s.process.mem hmeet
    have hsame := hkept value _ (.nontx 0 0 0) 0 0 0
    rw [notxLoaded_eq hpgas, notxLoaded_eq hpgas, Option.some.injEq,
      mem_deliver_of_storesTo hpgas h (.nontx 0 0 0)] at hsame
    exact hseen hsame
  · intro hapart value e he now sender txMetadata
    rw [notxLoaded_eq hpgas, notxLoaded_eq hpgas, mem_deliver_of_storesTo hpgas h he]
    exact congrArg some (ByteMemory.load_store_apart (n := 8) (k := 8) _ value hapart)

/-- **Two words keep apart exactly when their offsets do.**  In every run of the
service threads, in whatever order they were initialised; which partitions the
words are in makes no difference. -/
theorem pgasWords_keptApart_iff (cfg : Config) (hpgas : cfg.pgas = true) (numDslNodes : Nat)
    (arrivals : List Nat) (harrivals : arrivals.Perm (List.range numDslNodes))
    (es : List ThreadEvent) (s : Threads E)
    (hexec : Exec (graph fun s e => (deliver cfg s e).1) (threadsNew arrivals) es s)
    (a b : Nat) (ha : a < numDslNodes * PGAS_DSL_SIZE_NODE) :
    KeptApart cfg s a b ↔
      ByteMemory.Apart (a % PGAS_DSL_SIZE_NODE) 8 (b % PGAS_DSL_SIZE_NODE) 8 := by
  have hne : arrivals ≠ [] := by
    rintro rfl
    have hzero : numDslNodes = 0 := by simpa using harrivals.length_eq.symm
    rw [hzero, Nat.zero_mul] at ha
    exact Nat.not_lt_zero a ha
  rw [keptApart_iff hpgas (oneBlock_run hne hexec), internOffset_eq_mod, internOffset_eq_mod]

/-- Two service threads, the second of which arrives first. -/
def twoThreads : Threads ByteEntry := threadsNew [1, 0]

def pgasMemoryConfig : Config := ⟨.nocm, true, true, 4⟩

theorem pgasWords_keptApart_twoThreads :
    KeptApart pgasMemoryConfig twoThreads 64 (PGAS_DSL_SIZE_NODE + 128) ↔
      ByteMemory.Apart (64 % PGAS_DSL_SIZE_NODE) 8
        ((PGAS_DSL_SIZE_NODE + 128) % PGAS_DSL_SIZE_NODE) 8 :=
  pgasWords_keptApart_iff pgasMemoryConfig rfl 2 [1, 0] (by decide) [] twoThreads
    (Exec.nil twoThreads) 64 (PGAS_DSL_SIZE_NODE + 128) (by decide)

/-- The word at offset 64 of partition 0 is the word at offset 64 of partition 1. -/
theorem pgas_store_seen_in_other_partition :
    ByteMemory.Apart 64 8 (PGAS_DSL_SIZE_NODE + 64) 8 ∧
    notxLoaded pgasMemoryConfig twoThreads 0 2 0 (PGAS_DSL_SIZE_NODE + 64) = some 0 ∧
    notxLoaded pgasMemoryConfig (deliver pgasMemoryConfig twoThreads
      ⟨0, .message 0 2 (tm2cRpcNotxStore 64 7 0).2⟩).1 0 2 0 (PGAS_DSL_SIZE_NODE + 64) =
        some 7 ∧
    ¬ KeptApart pgasMemoryConfig twoThreads 64 (PGAS_DSL_SIZE_NODE + 64) := by
  have hbefore : notxLoaded pgasMemoryConfig twoThreads 0 2 0 (PGAS_DSL_SIZE_NODE + 64) =
      some 0 := by decide
  have hafter : notxLoaded pgasMemoryConfig (deliver pgasMemoryConfig twoThreads
      ⟨0, .message 0 2 (tm2cRpcNotxStore 64 7 0).2⟩).1 0 2 0 (PGAS_DSL_SIZE_NODE + 64) =
        some 7 := by decide
  refine ⟨by decide, hbefore, hafter, ?_⟩
  intro hkept
  have hsame := hkept 7 _ (.nontx 0 2 0) 0 2 0
  rw [hbefore] at hsame
  exact absurd (hafter.symm.trans hsame) (by decide)

end TM2C
