import TM2C.Atomicity
import TM2C.MapReduce

/-!
# Counting letters in parallel

The workers of `bmarks/mapreduce/mr.c` as programs of transactions.  `get_next_chunk` adds one to
the shared chunk index and reads what the index was before; a worker that gets a chunk behind
the file adds its counters to the shared ones in one last transaction.  When all workers are
done, the shared counters are those of `map_reduce_seq`, and every chunk was handled once.

A worker whose counters overflow is undefined (`none`).

A worker is a phase with its local counters, and its transactions are `AtomicBlock`s, so that
everything about conflicts, aborts and restarts is left to atomicity: the invariant `HandedOut`
is proved of runs in which every transaction acts at once.  It gives each chunk number an owner,
as the numbers are handed out, and says what the local counters are in terms of it (`share` of
the library): the sum over the chunks that the worker owns.

A worker counts at most one number behind the file, so that the chunk index is at most the number
of chunks and workers together, which is where the bound on the `int` comes from.  When all
workers are done, the shared counters are sums of sums, and those are the sums over all chunks
once, hence what the sequential loop has counted.
-/

namespace TM2C

open AtomicBlocks Chunks Transition

namespace MapReduce

/-- Where `chunk_index` and `stats` are. -/
structure Shared where
  chunkIndex : Nat
  stats : Nat
  apart : chunkIndex + 4 ≤ stats ∨ stats + 4 * 27 ≤ chunkIndex

namespace Shared

/-- `&stats[i]` -/
def stat (sh : Shared) (i : Nat) : Nat := sh.stats + 4 * i

theorem stat_injective (sh : Shared) : Function.Injective sh.stat := by
  intro i j h
  simp only [stat] at h
  omega

theorem stat_ne_chunkIndex (sh : Shared) {i : Nat} (hi : i < 27) :
    sh.stat i ≠ sh.chunkIndex := by
  have hapart := sh.apart
  simp only [stat]
  omega

end Shared

inductive MrResult where
  | chunk (ci : BitVec 32)
  | updated
deriving DecidableEq, Repr

/-- `get_next_chunk`; the plain read does not see the write. -/
def getNextChunk (sh : Shared) : AtomicBlock Nat (BitVec 32) MrResult :=
  .update sh.chunkIndex (· + 1) (.peek sh.chunkIndex fun ci => .ret (.chunk ci))

/-- The loop that updates the statistics, with `remaining` counters left from `i` on. -/
def updateStats (sh : Shared) (statsLocal : MrStats) :
    (remaining i : Nat) → AtomicBlock Nat (BitVec 32) MrResult
  | 0, _ => .ret .updated
  | remaining + 1, i =>
    if statsLocal i ≠ 0 then
      .update (sh.stat i) (· + BitVec.ofNat 32 (statsLocal i))
        (updateStats sh statsLocal remaining (i + 1))
    else updateStats sh statsLocal remaining (i + 1)

inductive WorkerPhase where
  | counting
  | updating
  | done
deriving DecidableEq, Repr

/-- The variables of `map_reduce`; `chunks_num` is what it leaves in `chunks_per_core`. -/
structure Worker where
  phase : WorkerPhase
  statsLocal : MrStats
  chunksNum : Nat

/-- `map_reduce`; a worker counts a whole chunk between two transactions. -/
def mapReduceTx (m : MapReduce) (sh : Shared) : TxProgram (Option Worker) Unit MrResult where
  next worker _ :=
    worker.bind fun w =>
      match w.phase with
      | .counting => some (getNextChunk sh)
      | .updating => some (updateStats sh w.statsLocal 27 0)
      | .done => none
  resume worker _ result :=
    worker.bind fun w =>
      match result with
      | .chunk ci =>
        -- an `int` becomes a `size_t`
        let ci := (ci.signExtend 64).toNat
        if m.chunkStart ci < m.fileSize then
          (m.countChunk m.chunkSize (m.chunkStart ci) w.statsLocal).map fun statsLocal =>
            { w with statsLocal := statsLocal, chunksNum := w.chunksNum + 1 }
        else some { w with phase := .updating }
      | .updated => some { w with phase := .done }
  pub _ _ := false

/-- The first `workers` nodes are the workers. -/
def startWorkers (workers v : Nat) : Option Worker :=
  some ⟨if v < workers then .counting else .done, fun _ => 0, 0⟩

/-! ### The transactions -/

theorem mapReduceTx_locks (m : MapReduce) (sh : Shared) (cfg : Config) :
    (m.mapReduceTx sh).Locks cfg := by
  have hupdate : ∀ st remaining i, (updateStats sh st remaining i).OnlyUpdates := by
    intro st remaining
    induction remaining with
    | zero => exact fun _ => trivial
    | succ remaining ih =>
      intro i
      rw [updateStats]
      split
      · exact ih (i + 1)
      · exact ih (i + 1)
  intro worker input block hnext
  obtain ⟨w, -, hphase⟩ := Option.bind_eq_some_iff.mp hnext
  refine Or.inr (Or.inr ?_)
  split at hphase
  · obtain rfl := Option.some.inj hphase
    exact fun _ => trivial
  · obtain rfl := Option.some.inj hphase
    exact hupdate _ _ _
  · cases hphase

theorem getNextChunk_solo (sh : Shared) (mem : Nat → BitVec 32) :
    (getNextChunk sh).solo mem = (.chunk (mem sh.chunkIndex),
      Function.update mem sh.chunkIndex (mem sh.chunkIndex + 1)) := rfl

theorem updateStats_writesOnce (sh : Shared) (st : MrStats) {remaining i : Nat}
    {written : List Nat} (hwritten : ∀ j, i ≤ j → sh.stat j ∉ written) :
    (updateStats sh st remaining i).WritesOnce written := by
  induction remaining generalizing i written with
  | zero => trivial
  | succ remaining ih =>
    rw [updateStats]
    split
    · refine ⟨hwritten i (Nat.le_refl i), ih ?_⟩
      intro j hj hmem
      obtain heq | hmem := List.mem_cons.mp hmem
      · have hji := sh.stat_injective heq
        omega
      · exact hwritten j (by omega) hmem
    · exact ih fun j hj => hwritten j (by omega)

theorem updateStats_atomic (sh : Shared) (st : MrStats) (mem : Nat → BitVec 32)
    (remaining i : Nat) :
    ((updateStats sh st remaining i).atomic mem).1 = .updated ∧
    (∀ k, i ≤ k → k < i + remaining → ((updateStats sh st remaining i).atomic mem).2 (sh.stat k) =
      mem (sh.stat k) + BitVec.ofNat 32 (st k)) ∧
    ∀ a, (∀ k, i ≤ k → k < i + remaining → a ≠ sh.stat k) →
      ((updateStats sh st remaining i).atomic mem).2 a = mem a := by
  induction remaining generalizing mem i with
  | zero => exact ⟨rfl, fun k hk hlt => by omega, fun _ _ => rfl⟩
  | succ remaining ih =>
    rw [updateStats]
    split
    · rw [AtomicBlock.atomic]
      obtain ⟨hresult, hadd, hothers⟩ := ih (Function.update mem (sh.stat i)
        (mem (sh.stat i) + BitVec.ofNat 32 (st i))) (i + 1)
      refine ⟨hresult, ?_, ?_⟩
      · intro k hk hlt
        by_cases hki : k = i
        · subst hki
          rw [hothers, Function.update_self]
          intro j hj _ heq
          have hkj := sh.stat_injective heq
          omega
        · rw [hadd k (by omega) (by omega),
            Function.update_of_ne fun heq => hki (sh.stat_injective heq)]
      · intro a ha
        rw [hothers a fun k hk hlt => ha k (by omega) (by omega),
          Function.update_of_ne (ha i (Nat.le_refl i) (by omega))]
    · rename_i hzero
      rw [not_not] at hzero
      obtain ⟨hresult, hadd, hothers⟩ := ih mem (i + 1)
      refine ⟨hresult, ?_, ?_⟩
      · intro k hk hlt
        by_cases hki : k = i
        · subst hki
          rw [hzero, hothers]
          · exact (BitVec.add_zero _).symm
          · intro j hj _ heq
            have hkj := sh.stat_injective heq
            omega
        · exact hadd k (by omega) (by omega)
      · exact fun a ha => hothers a fun k hk hlt => ha k (by omega) (by omega)

/-! ### What the workers have in hand -/

/-- How often the loops count `k` in a chunk. -/
def chunkCount (m : MapReduce) (k ci : Nat) : Nat :=
  (chunk m.chunkSize m.readBytes ci).countP fun c => charOffset c = k

/-- 1 for the chunks in the file. -/
def insideFile (m : MapReduce) (ci : Nat) : Nat := if ci * m.chunkSize < m.fileSize then 1 else 0

/-- The first `total` chunk numbers are handed out to their owners.  Behind the `n` chunks of the
file there is at most one for each worker that has stopped counting. -/
structure HandedOut (m : MapReduce) (sh : Shared) (workers n : Nat) (worker : Nat → Worker)
    (owner : Nat → Nat) (total : Nat) (s : AtomicState (Option Worker) Nat (BitVec 32)) :
    Prop where
  thread : ∀ v, s.thread v = some (worker v)
  index : s.mem sh.chunkIndex = BitVec.ofNat 32 total
  owned : ∀ ci < total, owner ci < workers
  room : total ≤ n + ∑ v ∈ Finset.range workers,
    if (worker v).phase = .counting then 0 else 1
  statsLocal : ∀ v k, (worker v).statsLocal k = share (m.chunkCount k) owner total v
  chunksNum : ∀ v, (worker v).chunksNum = share m.insideFile owner total v
  behind : ∀ v < workers, (worker v).phase ≠ .counting → m.fileSize ≤ total * m.chunkSize
  others : ∀ v, workers ≤ v → (worker v).phase = .done
  stats : ∀ k < 27, s.mem (sh.stat k) = BitVec.ofNat 32 (∑ v ∈ Finset.range workers,
    if (worker v).phase = .done then (worker v).statsLocal k else 0)

variable {m : MapReduce} {sh : Shared} {workers n : Nat}

theorem sum_chunkCount_le (k total : Nat) : ∑ ci ∈ Finset.range total, m.chunkCount k ci ≤
    m.readBytes.countP fun c => charOffset c = k := by
  simp only [chunkCount]
  rw [sum_countP_chunk]
  exact (List.take_sublist _ _).countP_le

theorem sum_chunkCount_of_le {total : Nat} (htotal : m.fileSize ≤ total * m.chunkSize) (k : Nat) :
    ∑ ci ∈ Finset.range total, m.chunkCount k ci =
      m.readBytes.countP fun c => charOffset c = k := by
  simp only [chunkCount]
  rw [sum_countP_chunk, List.take_of_length_le (length_readBytes.trans_le htotal)]

theorem handedOut_init (m : MapReduce) (sh : Shared) (workers n : Nat) {mem : Nat → BitVec 32}
    (hindex : mem sh.chunkIndex = 0) (hstats : ∀ k < 27, mem (sh.stat k) = 0) :
    HandedOut m sh workers n
      (fun v => ⟨if v < workers then .counting else .done, fun _ => 0, 0⟩) (fun _ => 0) 0
      ⟨mem, startWorkers workers⟩ where
  thread := fun _ => rfl
  index := hindex
  owned := fun _ h => absurd h (Nat.not_lt_zero _)
  room := Nat.zero_le _
  statsLocal := fun _ _ => rfl
  chunksNum := fun _ => rfl
  behind := fun v hv hphase => absurd (if_pos hv) hphase
  others := fun v hv => if_neg (Nat.not_lt.mpr hv)
  stats := by
    intro k hk
    simp only [hstats k hk, ite_self, Finset.sum_const_zero]
    rfl

theorem signExtend_ofNat {total : Nat} (h : total < 2 ^ 31) :
    ((BitVec.ofNat 32 total).signExtend 64).toNat = total := by
  have hnat : (BitVec.ofNat 32 total).toNat = total :=
    Nat.mod_eq_of_lt (h.trans (Nat.pow_lt_pow_right Nat.one_lt_two (by decide)))
  have hmsb : (BitVec.ofNat 32 total).msb = false := by
    rw [BitVec.msb_eq_false_iff_two_mul_lt, hnat]
    omega
  rw [BitVec.signExtend_eq_setWidth_of_msb_false hmsb, BitVec.toNat_setWidth_of_le (by decide),
    hnat]

section Step

variable {worker : Nat → Worker} {owner : Nat → Nat} {total v : Nat}
  {s : AtomicState (Option Worker) Nat (BitVec 32)}

namespace HandedOut

theorem stopped_lt (h : HandedOut m sh workers n worker owner total s)
    (hphase : (worker v).phase = .counting) : v < workers ∧ total + 1 ≤ n + workers := by
  have hv : v < workers := by
    by_contra hv
    have hdone := h.others v (Nat.not_lt.mp hv)
    rw [hphase] at hdone
    cases hdone
  have hsum := sum_apply_update (fun w => if w.phase = .counting then 0 else 1) worker
    ⟨.done, fun _ => 0, 0⟩ hv
  have hle : ∑ u ∈ Finset.range workers, (if (Function.update worker v
      ⟨.done, fun _ => 0, 0⟩ u).phase = .counting then 0 else 1) ≤ workers := by
    calc _ ≤ ∑ _u ∈ Finset.range workers, 1 := Finset.sum_le_sum fun u _ => by split <;> omega
      _ = workers := by rw [Finset.sum_const, Finset.card_range, Nat.nsmul_eq_mul, Nat.mul_one]
  have hroom := h.room
  simp only [hphase, if_true, reduceCtorEq, if_false] at hsum
  exact ⟨hv, by omega⟩

/-- A worker gets the next chunk number and counts its chunk. -/
theorem counting (h : HandedOut m sh workers n worker owner total s) {w : Worker}
    {thread : Nat → Option Worker} (hphase : (worker v).phase = .counting)
    (hthread : thread = Function.update s.thread v (some w))
    (hw : w = { worker v with
      phase := if total * m.chunkSize < m.fileSize then .counting else .updating
      statsLocal := fun k => (worker v).statsLocal k + m.chunkCount k total
      chunksNum := (worker v).chunksNum + m.insideFile total })
    (hn : m.fileSize ≤ n * m.chunkSize) :
    HandedOut m sh workers n (Function.update worker v w) (Function.update owner total v)
      (total + 1) ⟨Function.update s.mem sh.chunkIndex (s.mem sh.chunkIndex + 1), thread⟩ := by
  obtain ⟨hv, -⟩ := h.stopped_lt hphase
  have hdone : w.phase ≠ .done := by
    rw [hw]
    simp only
    split <;> simp
  constructor
  case thread =>
    intro u
    rw [hthread]
    by_cases hu : u = v
    · subst hu
      simp only [Function.update_self]
    · simp only [Function.update_of_ne hu, h.thread]
  case index =>
    simp only [Function.update_self, h.index]
    exact (BitVec.ofNat_add ..).symm
  case owned =>
    intro ci hci
    by_cases heq : ci = total
    · subst heq
      rwa [Function.update_self]
    · rw [Function.update_of_ne heq]
      exact h.owned ci (by omega)
  case room =>
    -- the next number is that of a chunk, or it is the last one the worker takes
    have hsum := sum_apply_update (fun w => if w.phase = .counting then 0 else 1) worker w hv
    have hroom := h.room
    simp only [hphase, if_true] at hsum
    by_cases hin : total * m.chunkSize < m.fileSize
    · have hlt : total < n := by
        by_contra hge
        have hmul := Nat.mul_le_mul_right m.chunkSize (Nat.not_lt.mp hge)
        omega
      omega
    · have hstop : w.phase ≠ .counting := by
        rw [hw]
        simp [hin]
      rw [if_neg hstop] at hsum
      omega
  case statsLocal =>
    refine (Function.forall_update_iff worker (p := fun u w => ∀ k, w.statsLocal k =
      share (m.chunkCount k) (Function.update owner total v) (total + 1) u)).mpr ⟨?_, ?_⟩
    · intro k
      rw [share_succ, if_pos rfl, hw]
      exact congrArg (· + _) (h.statsLocal v k)
    · intro u hu k
      rw [share_succ, if_neg (Ne.symm hu), Nat.add_zero, h.statsLocal u k]
  case chunksNum =>
    refine (Function.forall_update_iff worker (p := fun u w => w.chunksNum =
      share m.insideFile (Function.update owner total v) (total + 1) u)).mpr ⟨?_, ?_⟩
    · rw [share_succ, if_pos rfl, hw]
      exact congrArg (· + _) (h.chunksNum v)
    · intro u hu
      rw [share_succ, if_neg (Ne.symm hu), Nat.add_zero, h.chunksNum u]
  case behind =>
    have hmono : total * m.chunkSize ≤ (total + 1) * m.chunkSize :=
      Nat.mul_le_mul_right _ (Nat.le_succ total)
    refine (Function.forall_update_iff worker (p := fun u w => u < workers →
      w.phase ≠ .counting → m.fileSize ≤ (total + 1) * m.chunkSize)).mpr ⟨?_, ?_⟩
    · intro _ hstop
      rw [hw] at hstop
      by_cases hin : total * m.chunkSize < m.fileSize
      · simp [hin] at hstop
      · omega
    · intro u _ hu hstop
      exact (h.behind u hu hstop).trans hmono
  case others =>
    refine (Function.forall_update_iff worker
      (p := fun u w => workers ≤ u → w.phase = .done)).mpr ⟨?_, fun u _ => h.others u⟩
    intro hv'
    omega
  case stats =>
    intro k hk
    simp only
    rw [Function.update_of_ne (sh.stat_ne_chunkIndex hk), h.stats k hk]
    have hsum := sum_apply_update
      (fun w => if w.phase = .done then w.statsLocal k else 0) worker w hv
    simp only [hphase, reduceCtorEq, if_false, Nat.add_zero, if_neg hdone] at hsum
    rw [hsum]

/-- No counter overflows. -/
theorem room_for_chunk (h : HandedOut m sh workers n worker owner total s)
    (hcounters : ∀ k < 27, (m.readBytes.countP fun c => charOffset c = k) < 2 ^ 31) (v : Nat) :
    ∀ k < 27, (worker v).statsLocal k + m.chunkCount k total < 2 ^ 31 := by
  intro k hk
  have hshare : share (m.chunkCount k) owner total v ≤
      ∑ ci ∈ Finset.range total, m.chunkCount k ci := share_le
  have hall := sum_chunkCount_le (m := m) k (total + 1)
  rw [Finset.sum_range_succ] at hall
  have hcounter := hcounters k hk
  rw [h.statsLocal v k]
  omega

theorem resume_chunk (h : HandedOut m sh workers n worker owner total s)
    (hcounters : ∀ k < 27, (m.readBytes.countP fun c => charOffset c = k) < 2 ^ 31)
    (hphase : (worker v).phase = .counting) (hworkers : n + workers < 2 ^ 31) :
    (m.mapReduceTx sh).resume (some (worker v)) () (.chunk (s.mem sh.chunkIndex)) =
      some { worker v with
        phase := if total * m.chunkSize < m.fileSize then .counting else .updating
        statsLocal := fun k => (worker v).statsLocal k + m.chunkCount k total
        chunksNum := (worker v).chunksNum + m.insideFile total } := by
  have hlt : total < 2 ^ 31 := by
    have hstopped := (h.stopped_lt hphase).2
    omega
  simp only [mapReduceTx, Option.bind_some]
  rw [h.index, signExtend_ofNat hlt, chunkStart_eq hlt]
  by_cases hin : total * m.chunkSize < m.fileSize
  · have hroom := h.room_for_chunk hcounters v
    have hst : ∀ k < 27, (worker v).statsLocal k < 2 ^ 31 := fun k hk =>
      (Nat.le_add_right _ _).trans_lt (hroom k hk)
    have hcount : m.countChunk m.chunkSize (m.chunkStart total) (worker v).statsLocal =
        some fun k => (worker v).statsLocal k + m.chunkCount k total := by
      rw [countChunk_chunkStart hlt, MrStats.countAll_eq hst]
      exact if_pos hroom
    rw [chunkStart_eq hlt] at hcount
    rw [if_pos hin, if_pos hin, hcount, Option.map_some, insideFile, if_pos hin, hphase]
  · have hnil : ∀ k, m.chunkCount k total = 0 := by
      intro k
      rw [chunkCount, chunk_eq_nil (length_readBytes.trans_le (Nat.not_lt.mp hin)),
        List.countP_nil]
    rw [if_neg hin, if_neg hin, insideFile, if_neg hin]
    simp only [hnil, Nat.add_zero]

/-- A worker that has stopped counting adds its counters to the shared ones. -/
theorem updating (h : HandedOut m sh workers n worker owner total s) {w : Worker}
    {thread : Nat → Option Worker} (hphase : (worker v).phase = .updating)
    (hthread : thread = Function.update s.thread v (some w))
    (hw : w = { worker v with phase := .done }) :
    HandedOut m sh workers n (Function.update worker v w) owner total
      ⟨((updateStats sh (worker v).statsLocal 27 0).solo s.mem).2, thread⟩ := by
  have honce : (updateStats sh (worker v).statsLocal 27 0).WritesOnce [] :=
    updateStats_writesOnce sh _ fun _ _ => List.not_mem_nil
  obtain ⟨-, hadd, hothers⟩ := updateStats_atomic sh (worker v).statsLocal s.mem 27 0
  rw [AtomicBlock.solo_eq_atomic s.mem honce]
  have hv : v < workers := by
    by_contra hv
    have hdone := h.others v (Nat.not_lt.mp hv)
    rw [hphase] at hdone
    cases hdone
  constructor
  case thread =>
    intro u
    rw [hthread]
    by_cases hu : u = v
    · subst hu
      simp only [Function.update_self]
    · simp only [Function.update_of_ne hu, h.thread]
  case index =>
    simp only
    rw [hothers _ fun k _ hk => (sh.stat_ne_chunkIndex (by omega)).symm, h.index]
  case owned => exact h.owned
  case room =>
    have hsum := sum_apply_update (fun w => if w.phase = .counting then 0 else 1) worker w hv
    have hroom := h.room
    have hstop : w.phase ≠ .counting := by
      rw [hw]
      simp
    rw [if_neg hstop, hphase, if_neg (by decide)] at hsum
    omega
  case statsLocal =>
    refine (Function.forall_update_iff worker (p := fun u w => ∀ k, w.statsLocal k =
      share (m.chunkCount k) owner total u)).mpr ⟨?_, fun u _ => h.statsLocal u⟩
    rw [hw]
    exact h.statsLocal v
  case chunksNum =>
    refine (Function.forall_update_iff worker (p := fun u w => w.chunksNum =
      share m.insideFile owner total u)).mpr ⟨?_, fun u _ => h.chunksNum u⟩
    rw [hw]
    exact h.chunksNum v
  case behind =>
    refine (Function.forall_update_iff worker (p := fun u w => u < workers →
      w.phase ≠ .counting → m.fileSize ≤ total * m.chunkSize)).mpr ⟨?_, fun u _ => h.behind u⟩
    intro hv _
    exact h.behind v hv (by rw [hphase]; decide)
  case others =>
    refine (Function.forall_update_iff worker
      (p := fun u w => workers ≤ u → w.phase = .done)).mpr ⟨?_, fun u _ => h.others u⟩
    intro _
    rw [hw]
  case stats =>
    intro k hk
    -- the sum over the workers that are done has one summand more
    have hsum := sum_apply_update (fun w => if w.phase = .done then w.statsLocal k else 0) worker
      w hv
    have hdone : w.phase = .done := by rw [hw]
    have hsame : w.statsLocal = (worker v).statsLocal := by rw [hw]
    rw [if_pos hdone, hphase, if_neg (by decide), Nat.add_zero, hsame] at hsum
    simp only
    rw [hadd k (Nat.zero_le k) (by omega), h.stats k hk, hsum, BitVec.ofNat_add]

theorem step (h : HandedOut m sh workers n worker owner total s)
    (hn : m.fileSize ≤ n * m.chunkSize) (hworkers : n + workers < 2 ^ 31)
    (hcounters : ∀ k < 27, (m.readBytes.countP fun c => charOffset c = k) < 2 ^ 31)
    {s' : AtomicState (Option Worker) Nat (BitVec 32)} {input : Nat × Unit}
    (hstep : atomicStep (m.mapReduceTx sh).toProgram s input = some s') :
    ∃ worker owner total, HandedOut m sh workers n worker owner total s' := by
  obtain ⟨block, hnext, hmem, hthread⟩ := atomicStep_eq_some hstep
  obtain ⟨mem', thread'⟩ := s'
  obtain ⟨v, _⟩ := input
  simp only at hmem
  simp only [mapReduceTx, h.thread, Option.bind_some] at hnext
  simp only [h.thread v] at hthread
  cases hphase : (worker v).phase with
  | counting =>
    rw [hphase] at hnext
    obtain rfl := Option.some.inj hnext
    rw [getNextChunk_solo] at hmem hthread
    rw [h.resume_chunk hcounters hphase hworkers] at hthread
    subst hmem
    exact ⟨_, _, _, h.counting hphase hthread rfl hn⟩
  | updating =>
    rw [hphase] at hnext
    obtain rfl := Option.some.inj hnext
    have honce : (updateStats sh (worker v).statsLocal 27 0).WritesOnce [] :=
      updateStats_writesOnce sh _ fun _ _ => List.not_mem_nil
    have hresult := (updateStats_atomic sh (worker v).statsLocal s.mem 27 0).1
    rw [← AtomicBlock.solo_eq_atomic s.mem honce] at hresult
    rw [hresult] at hthread
    subst hmem
    exact ⟨_, _, _, h.updating hphase hthread rfl⟩
  | done =>
    rw [hphase] at hnext
    cases hnext

/-- Every chunk number of the file has been handed out when a worker is done. -/
theorem chunks_le (h : HandedOut m sh workers n worker owner total s) (hpos : 0 < workers)
    (hlt : ∀ i < n, i * m.chunkSize < m.fileSize)
    (hdone : ∀ v < workers, (worker v).phase = .done) : n ≤ total := by
  have htotal := h.behind 0 hpos (by rw [hdone 0 hpos]; decide)
  by_contra hgt
  have hin := hlt total (Nat.not_le.mp hgt)
  omega

/-- A worker has counted the chunks that it owns. -/
theorem handled (h : HandedOut m sh workers n worker owner total s) (hle : n ≤ total)
    (hn : m.fileSize ≤ n * m.chunkSize) (hlt : ∀ i < n, i * m.chunkSize < m.fileSize) (v : Nat) :
    (∀ k, (worker v).statsLocal k = ∑ ci ∈ (Finset.range n).filter (owner · = v),
      m.chunkCount k ci) ∧
    (worker v).chunksNum = ((Finset.range n).filter (owner · = v)).card := by
  have hbehind : ∀ ci, n ≤ ci → m.fileSize ≤ ci * m.chunkSize :=
    fun ci hci => hn.trans (Nat.mul_le_mul_right _ hci)
  refine ⟨?_, ?_⟩
  · intro k
    rw [h.statsLocal, share_eq_of_le hle, share, Finset.sum_filter]
    intro ci hci
    rw [chunkCount, chunk_eq_nil (length_readBytes.trans_le (hbehind ci hci)), List.countP_nil]
  · rw [h.chunksNum, share_eq_of_le hle, share, Finset.card_filter]
    · refine Finset.sum_congr rfl fun ci hci => ?_
      rw [insideFile, if_pos (hlt ci (Finset.mem_range.mp hci))]
    · intro ci hci
      exact if_neg (Nat.not_lt.mpr (hbehind ci hci))

/-- All workers are done. -/
theorem finished (h : HandedOut m sh workers n worker owner total s) (hpos : 0 < workers)
    (hn : m.fileSize ≤ n * m.chunkSize) (hlt : ∀ i < n, i * m.chunkSize < m.fileSize)
    (hdone : ∀ v < workers, (worker v).phase = .done) :
    (∀ k < 27, s.mem (sh.stat k) =
      BitVec.ofNat 32 (m.readBytes.countP fun c => charOffset c = k)) ∧
    ∑ v ∈ Finset.range workers, (worker v).chunksNum = n := by
  have htotal := h.behind 0 hpos (by rw [hdone 0 hpos]; decide)
  have hle := h.chunks_le hpos hlt hdone
  refine ⟨?_, ?_⟩
  · intro k hk
    have hsum : ∑ v ∈ Finset.range workers,
        (if (worker v).phase = .done then (worker v).statsLocal k else 0) =
          m.readBytes.countP fun c => charOffset c = k := by
      rw [← sum_chunkCount_of_le htotal, ← sum_share h.owned]
      refine Finset.sum_congr rfl fun v hv => ?_
      rw [if_pos (hdone v (Finset.mem_range.mp hv)), h.statsLocal]
    rw [h.stats k hk, hsum]
  · have hchunksNum : ∀ v ∈ Finset.range workers, (worker v).chunksNum =
        ((Finset.range n).filter (owner · = v)).card := fun v _ => (h.handled hle hn hlt v).2
    have howned : ∀ ci ∈ Finset.range n, owner ci ∈ Finset.range workers := fun ci hci =>
      Finset.mem_range.mpr (h.owned ci ((Finset.mem_range.mp hci).trans_le hle))
    rw [Finset.sum_congr rfl hchunksNum, ← Finset.card_eq_sum_card_fiberwise howned,
      Finset.card_range]

end HandedOut

end Step

/-- The number of chunks is the file size over the chunk size, rounded up. -/
theorem chunks_eq (m : MapReduce) {n : Nat} (hn : m.fileSize ≤ n * m.chunkSize)
    (hlt : ∀ i < n, i * m.chunkSize < m.fileSize) :
    n = (m.fileSize + m.chunkSize - 1) / m.chunkSize := by
  have hpos := m.chunkSize_pos
  symm
  refine Nat.div_eq_of_lt_le ?_ ?_
  · cases n with
    | zero => rw [Nat.zero_mul]; exact Nat.zero_le _
    | succ n =>
      have hlast := hlt n (Nat.lt_succ_self n)
      rw [Nat.succ_mul]
      omega
  · rw [Nat.succ_mul]
    omega

/-- **The parallel version computes what the sequential one does.**  In every run in which all
workers are done, the shared counters are those of `map_reduce_seq`, and every chunk of the file
was handled by one worker, its owner: a worker has counted what is in its own chunks, and they are
as many as it reports.  No worker is ever undefined.  Where `map_reduce_seq` is not, only
the chunk index has to have room for one number more for each worker. -/
theorem mapReduce_parallel (cl : Cluster) (m : MapReduce) (sh : Shared) (workers : Nat)
    (hchunks : m.fileSize + workers * m.chunkSize ≤ (2 ^ 31 - 1) * m.chunkSize)
    {fuel : Nat} {seqStats : MrStats}
    (hseq : ∀ more, m.mapReduceSeq (fuel + more) = some seqStats) (mem : Nat → BitVec 32)
    (hindex : mem sh.chunkIndex = 0) (hstats : ∀ k < 27, mem (sh.stat k) = 0)
    {es : List (TxEvent Unit)} {s : TxSystem (Option Worker) Unit MrResult}
    (hexec : Exec (partialGraph (TxSystem.step cl (m.mapReduceTx sh)))
      (txSystemInit Unit MrResult mem (startWorkers workers)) es s) :
    (∀ v, s.thread v ≠ none) ∧
    (0 < workers → (∀ v < workers, ∀ w ∈ s.thread v, w.phase = .done) →
      (∀ k < 27, s.system.mem (sh.stat k) = BitVec.ofNat 32 (seqStats k)) ∧
      ∑ v ∈ Finset.range workers, ((s.thread v).map Worker.chunksNum).getD 0 =
        (m.fileSize + m.chunkSize - 1) / m.chunkSize ∧
      ∃ owner : Nat → Nat,
        (∀ ci < (m.fileSize + m.chunkSize - 1) / m.chunkSize, owner ci < workers) ∧
        ∀ v < workers, ∀ w ∈ s.thread v,
          let own := (Finset.range ((m.fileSize + m.chunkSize - 1) / m.chunkSize)).filter
            (owner · = v)
          (∀ k, w.statsLocal k = ∑ ci ∈ own, m.chunkCount k ci) ∧ w.chunksNum = own.card) := by
  -- the run of `map_reduce_seq` gives the number of chunks and the room in the counters
  obtain ⟨n, hn, hlt, -⟩ := m.exists_chunk_behind
  have hrun := hseq (n + 1)
  rw [Nat.add_comm, mapReduceSeq_eq hn hlt] at hrun
  obtain ⟨⟨-, hcounters⟩, heq⟩ := Option.ite_none_right_eq_some.mp hrun
  have hroom : n + workers < 2 ^ 31 := by
    have hpos := m.chunkSize_pos
    cases n with
    | zero =>
      have hle : workers * m.chunkSize ≤ (2 ^ 31 - 1) * m.chunkSize := by omega
      have hworkers := Nat.le_of_mul_le_mul_right hle hpos
      omega
    | succ n =>
      have hlast := hlt n (Nat.lt_succ_self n)
      have hless : (n + workers) * m.chunkSize < (2 ^ 31 - 1) * m.chunkSize := by
        rw [Nat.add_mul]
        omega
      have hsum := Nat.lt_of_mul_lt_mul_right hless
      omega
  -- the workers' transactions run as if alone, so the invariant may be proved of those
  have hlocks := mapReduceTx_locks m sh cl.cfg
  have hhanded : ∃ worker owner total, HandedOut m sh workers n worker owner total
      s.abstraction := by
    refine System.abstraction_invariant hlocks hexec (P := fun s => ∃ worker owner total,
      HandedOut m sh workers n worker owner total s) ?_ ?_
    · rintro s input s' ⟨worker, owner, total, h⟩ hstep
      exact h.step hn hroom hcounters hstep
    · exact ⟨_, _, _, handedOut_init m sh workers n hindex hstats⟩
  obtain ⟨worker, owner, total, h⟩ := hhanded
  have hthread : ∀ v, s.thread v = some (worker v) := h.thread
  refine ⟨fun v => by simp [hthread], ?_⟩
  intro hpos hdone
  have hdone' : ∀ v < workers, (worker v).phase = .done := fun v hv =>
    hdone v hv (worker v) (hthread v)
  obtain ⟨hcount, hnum⟩ := h.finished hpos hn hlt hdone'
  -- no worker has a transaction left, so that everything committed is in memory
  have hmem : s.system.mem = s.system.committed := by
    refine System.mem_eq_of_finished hlocks hexec fun v input => ?_
    have hall : (worker v).phase = .done := by
      by_cases hv : v < workers
      · exact hdone' v hv
      · exact h.others v (Nat.not_lt.mp hv)
    simp only [mapReduceTx, hthread, Option.bind_some, hall]
  have hle := h.chunks_le hpos hlt hdone'
  rw [← chunks_eq m hn hlt]
  refine ⟨?_, ?_, owner, ?_, ?_⟩
  · intro k hk
    rw [hmem, ← Option.some.inj heq]
    exact hcount k hk
  · simp only [hthread, Option.map_some, Option.getD_some]
    exact hnum
  · exact fun ci hci => h.owned ci (hci.trans_le hle)
  · intro v _ w hw
    rw [hthread, Option.mem_some_iff] at hw
    exact hw ▸ h.handled hle hn hlt v

def sharedWords : Shared := ⟨64, 128, by decide⟩

/-- A transaction of a worker with one `TX_LOAD_STORE`, and with a plain read where it counts. -/
def updateOnce (v : Nat) (counting : Bool) : List (TxEvent Unit) :=
  [.txStart v () 0, .operation v, .system (.node v (.send 0)), .system (.handle 0 v 0),
    .system (.grant 0), .system (.node v .recv), .operation v] ++
  (if counting then [.operation v] else []) ++
  [.operation v, .system (.node v .setTxPersisting), .system (.node v .writeEntryPersist),
    .txCommitted v, .system (.node v (.rlsAll 0)), .system (.handle 0 v 0),
    .system (.node v (.finish 0))]

/-- Each of two workers counts one chunk, gets one behind the file, and updates one counter. -/
def twoWorkers : List (TxEvent Unit) :=
  updateOnce 0 true ++ updateOnce 1 true ++ updateOnce 1 true ++ updateOnce 0 true ++
  updateOnce 1 false ++ updateOnce 0 false

theorem mapReduce_parallel_twoWorkers :
    ∃ s : TxSystem (Option Worker) Unit MrResult,
      s.system.mem (sharedWords.stat 1) = 1 ∧ s.system.mem (sharedWords.stat 26) = 1 ∧
      ∀ k < 27, s.system.mem (sharedWords.stat k) =
        BitVec.ofNat 32 (twoLetters.readBytes.countP fun c => charOffset c = k) := by
  let s := (twoWorkers.foldlM (TxSystem.step System.pairCluster
    (twoLetters.mapReduceTx sharedWords))
    (txSystemInit Unit MrResult (fun _ => 0) (startWorkers 2))).get (by decide +kernel)
  have hexec : Exec (partialGraph (TxSystem.step System.pairCluster
      (twoLetters.mapReduceTx sharedWords)))
      (txSystemInit Unit MrResult (fun _ => 0) (startWorkers 2)) twoWorkers s :=
    exec_partialGraph_iff.mpr (Option.some_get _).symm
  have hseq : ∀ more, twoLetters.mapReduceSeq (3 + more) =
      some fun k => twoLetters.readBytes.countP fun c => charOffset c = k := by
    intro more
    rw [mapReduceSeq_eq (m := twoLetters) (n := 2) (by decide) (by decide) more]
    exact if_pos (by decide)
  have hparallel := mapReduce_parallel System.pairCluster twoLetters sharedWords 2 (by decide) hseq
    (fun _ => 0) rfl (fun _ _ => rfl) hexec
  have hdone : ∀ v < 2, ∀ w ∈ s.thread v, w.phase = .done := by decide +kernel
  exact ⟨s, by decide +kernel, by decide +kernel, (hparallel.2 (by decide) hdone).1⟩

end MapReduce

end TM2C
