import Mathlib.Algebra.BigOperators.Group.List.Basic
import Mathlib.Logic.Function.Basic
import TM2C.Lib.Chunks

/-!
# Counting letters in chunks

`bmarks/mapreduce/mr.c` with `PRELOAD_MEMORY`: the file is in shared memory with a sentinel
behind it, and the workers count the letters of one chunk after the other in counters of their
own, which they add to the shared ones at the end.

The counters and the chunk index are `int`s; the functions are undefined (`none`) where one
overflows, where they read behind the sentinel, and where the fuel of the sequential loop or
the chunk numbers that a worker gets run out.

The loops are followed byte by byte: what a worker counts in a chunk is a number of occurrences
in a slice of the bytes that it reads, and the chunks of the library cut those bytes so that each
lies in one of them.  The first byte of the file is the exception.  The loops move on before they
read, so they read the sentinel instead of it, which counts as no letter
(`countP_readBytes_iff`); `Countable` asks that the file begins with no letter, beside the two
bounds on the `int`s.

`CountsFile` is the contract, for `map_reduce_seq` and for any way of handing out the chunk
numbers to the workers (`HandsOut`): the function ends, and each of the 27 counters is the number
of occurrences in the file.  The sum over the workers is independent of the owners, because every
chunk number is handed out once and those behind the file count nothing.  Both directions are
proved: each of the three conditions has a file that breaks the contract without it.
-/

namespace TM2C

open Chunks

def charOffset (c : Int8) : Nat :=
  let a := c.toInt - 97
  let A := c.toInt - 65
  if a < 26 ∧ a ≥ 0 then a.toNat
  else if A < 26 ∧ A ≥ 0 then A.toNat
  else 26

/-- The file and `chunk_size`, a positive `int`. -/
structure MapReduce where
  file : List Int8
  chunkSize : Nat
  chunkSize_pos : 0 < chunkSize
  chunkSize_lt : chunkSize < 2 ^ 31

/-- `stats` and `stats_local`. -/
abbrev MrStats := Nat → Nat

/-- `stats_local[char_offset(c)]++`. -/
def MrStats.count (statsLocal : MrStats) (c : Int8) : Option MrStats :=
  let k := charOffset c
  if k < 27 ∧ statsLocal k + 1 < 2 ^ 31 then
    some (Function.update statsLocal k (statsLocal k + 1))
  else none

/-- The loop that adds `stats_local` to `stats`. -/
def MrStats.add (stats statsLocal : MrStats) : Option MrStats :=
  if ∀ k < 27, stats k + statsLocal k < 2 ^ 31 then some fun k => stats k + statsLocal k else none

namespace MapReduce

def fileSize (m : MapReduce) : Nat := m.file.length

/-- `file_shmem`, with `EOF` at `file_size`. -/
def fileShmem (m : MapReduce) : List Int8 := m.file ++ [-1]

/-- `ci * chunk_size`, a `size_t`. -/
def chunkStart (m : MapReduce) (ci : Nat) : Nat := ci * m.chunkSize % 2 ^ 64

/-- The loop `while (index++ < chunk_size && chunk++ < file_size)` over one chunk; `left` is
what `index` lacks to `chunk_size`. -/
def countChunk (m : MapReduce) : Nat → Nat → MrStats → Option MrStats
  | 0, _, statsLocal => some statsLocal
  | left + 1, chunk, statsLocal =>
    if chunk < m.fileSize then
      (m.fileShmem[chunk + 1]?).bind fun c =>
        (statsLocal.count c).bind fun statsLocal => countChunk m left (chunk + 1) statsLocal
    else some statsLocal

/-- The loop of `map_reduce_seq`.  A round begins with `ci = (*chunk_index)++`, which stands
before the loop and at its end. -/
def seqLoop (m : MapReduce) : Nat → Nat → MrStats → Option MrStats
  | 0, _, _ => none
  | fuel + 1, chunkIndex, statsLocal =>
    if chunkIndex + 1 < 2 ^ 31 then
      if m.chunkStart chunkIndex < m.fileSize then
        (m.countChunk m.chunkSize (m.chunkStart chunkIndex) statsLocal).bind fun statsLocal =>
          seqLoop m fuel (chunkIndex + 1) statsLocal
      else some statsLocal
    else none

def mapReduceSeq (m : MapReduce) (fuel : Nat) : Option MrStats :=
  (m.seqLoop fuel 0 fun _ => 0).bind fun statsLocal => MrStats.add (fun _ => 0) statsLocal

/-- The loop of `map_reduce` in a worker that gets the chunk numbers `cis` one after the
other. -/
def workerLoop (m : MapReduce) : List Nat → MrStats → Option MrStats
  | [], _ => none
  | ci :: cis, statsLocal =>
    if m.chunkStart ci < m.fileSize then
      (m.countChunk m.chunkSize (m.chunkStart ci) statsLocal).bind fun statsLocal =>
        workerLoop m cis statsLocal
    else some statsLocal

/-- All workers, in the order in which they add to `stats`, each with its chunk numbers. -/
def mapReduce (m : MapReduce) (workers : List (List Nat)) : Option MrStats :=
  workers.foldlM (fun stats cis => (m.workerLoop cis fun _ => 0).bind fun statsLocal =>
    MrStats.add stats statsLocal) fun _ => 0

/-- The number of bytes of the file with offset `k`. -/
def occurrences (m : MapReduce) (k : Nat) : Nat := m.file.countP fun c => charOffset c = k

/-- Every chunk number is handed out once, and a worker gets numbers up to the first one that is
behind the file. -/
structure HandsOut (m : MapReduce) (workers : List (List Nat)) : Prop where
  once : workers.flatten.Nodup
  all : ∀ ci, ci * m.chunkSize < m.fileSize → ci ∈ workers.flatten
  int : ∀ ci ∈ workers.flatten, ci < 2 ^ 31
  loop : ∀ cis ∈ workers, ∃ inside last, cis = inside ++ [last] ∧
    (∀ ci ∈ inside, ci * m.chunkSize < m.fileSize) ∧ m.fileSize ≤ last * m.chunkSize

/-- Both functions end and count every byte of the file once and nothing else. -/
structure CountsFile (m : MapReduce) : Prop where
  seq : ∃ stats fuel, (∀ more, m.mapReduceSeq (fuel + more) = some stats) ∧
    ∀ k < 27, stats k = m.occurrences k
  workers : ∀ workers, m.HandsOut workers → ∃ stats, m.mapReduce workers = some stats ∧
    ∀ k < 27, stats k = m.occurrences k

/-- The file is empty or does not begin with a letter, and no `int` overflows: neither the chunk
index nor a counter. -/
structure Countable (m : MapReduce) : Prop where
  first : ∀ c ∈ m.file.head?, charOffset c = 26
  chunks : m.fileSize ≤ (2 ^ 31 - 2) * m.chunkSize
  counters : ∀ k < 27, m.occurrences k < 2 ^ 31

end MapReduce

/-! ### What the loops count -/

theorem charOffset_lt (c : Int8) : charOffset c < 27 := by
  simp only [charOffset]
  split_ifs <;> omega

/-- The counters after the bytes `l`. -/
def MrStats.plus (st : MrStats) (l : List Int8) : MrStats :=
  fun k => st k + l.countP fun c => charOffset c = k

/-- The bytes of a list, counted one after the other. -/
def MrStats.countAll (st : MrStats) (l : List Int8) : Option MrStats := l.foldlM MrStats.count st

theorem MrStats.plus_cons (st : MrStats) (c : Int8) (l : List Int8) :
    st.plus (c :: l) =
      MrStats.plus (Function.update st (charOffset c) (st (charOffset c) + 1)) l := by
  funext k
  simp only [MrStats.plus, List.countP_cons, decide_eq_true_eq]
  by_cases hk : charOffset c = k
  · subst hk
    rw [Function.update_self, if_pos rfl]
    omega
  · rw [Function.update_of_ne (Ne.symm hk), if_neg hk, Nat.add_zero]

/-- Counting succeeds when the counters have room for all. -/
theorem MrStats.countAll_eq {st : MrStats} (hst : ∀ k < 27, st k < 2 ^ 31) (l : List Int8) :
    st.countAll l = if ∀ k < 27, st.plus l k < 2 ^ 31 then some (st.plus l) else none := by
  induction l generalizing st with
  | nil => exact (if_pos hst).symm
  | cons c l ih =>
    rw [MrStats.countAll, List.foldlM_cons, MrStats.plus_cons, Option.bind_eq_bind]
    by_cases hroom : st (charOffset c) + 1 < 2 ^ 31
    · have hcount : st.count c =
          some (Function.update st (charOffset c) (st (charOffset c) + 1)) :=
        if_pos ⟨charOffset_lt c, hroom⟩
      rw [hcount, Option.bind_some]
      refine ih fun k hk => ?_
      by_cases hkc : k = charOffset c
      · subst hkc
        rw [Function.update_self]
        exact hroom
      · rw [Function.update_of_ne hkc]
        exact hst k hk
    · have hcount : st.count c = none := if_neg fun h => hroom h.2
      rw [hcount, Option.bind_none, if_neg]
      intro hall
      have hk := hall (charOffset c) (charOffset_lt c)
      rw [MrStats.plus, Function.update_self] at hk
      omega

theorem MrStats.countAll_append (st : MrStats) (l l' : List Int8) :
    st.countAll (l ++ l') = (st.countAll l).bind fun st => st.countAll l' := by
  rw [MrStats.countAll, List.foldlM_append]
  rfl

namespace MapReduce

variable {m : MapReduce}

/-- What the loops read: the chunks of the file without its first byte, but with `EOF`. -/
def readBytes (m : MapReduce) : List Int8 := m.fileShmem.tail

theorem length_readBytes : m.readBytes.length = m.fileSize := by
  rw [readBytes, List.length_tail, fileShmem, List.length_append, List.length_singleton,
    Nat.add_sub_cancel]
  rfl

theorem getElem?_fileShmem (i : Nat) : m.fileShmem[i + 1]? = m.readBytes[i]? := by
  rw [readBytes, List.getElem?_tail]

/-- The loop over a chunk counts the next bytes, up to the end of the file. -/
theorem countChunk_eq (left chunk : Nat) (st : MrStats) :
    m.countChunk left chunk st = st.countAll ((m.readBytes.drop chunk).take left) := by
  induction left generalizing chunk st with
  | zero => rfl
  | succ left ih =>
    rw [countChunk]
    by_cases hchunk : chunk < m.fileSize
    · have hlt : chunk < m.readBytes.length := length_readBytes.symm ▸ hchunk
      rw [if_pos hchunk, getElem?_fileShmem, List.getElem?_eq_getElem hlt, Option.bind_some,
        List.drop_eq_getElem_cons hlt, List.take_succ_cons, MrStats.countAll, List.foldlM_cons]
      exact congrArg (Option.bind (st.count _)) (funext fun st => ih (chunk + 1) st)
    · rw [if_neg hchunk, List.drop_eq_nil_of_le (length_readBytes.trans_le (not_lt.mp hchunk)),
        List.take_nil]
      rfl

theorem chunkStart_eq {ci : Nat} (hci : ci < 2 ^ 31) : m.chunkStart ci = ci * m.chunkSize := by
  have hlt : ci * m.chunkSize < 2 ^ 31 * 2 ^ 31 := Nat.mul_lt_mul'' hci m.chunkSize_lt
  exact Nat.mod_eq_of_lt (hlt.trans (by decide))

/-- One chunk. -/
theorem countChunk_chunkStart {ci : Nat} (hci : ci < 2 ^ 31) (st : MrStats) :
    m.countChunk m.chunkSize (m.chunkStart ci) st =
      st.countAll (chunk m.chunkSize m.readBytes ci) := by
  rw [chunkStart_eq hci, countChunk_eq]
  rfl

end MapReduce

/-- No counter exceeds an `int`. -/
theorem MrStats.lt_of_countAll {st st' : MrStats} {l : List Int8} (hst : ∀ k < 27, st k < 2 ^ 31)
    (h : st.countAll l = some st') : ∀ k < 27, st' k < 2 ^ 31 := by
  rw [MrStats.countAll_eq hst] at h
  obtain ⟨hall, heq⟩ := Option.ite_none_right_eq_some.mp h
  rw [← Option.some.inj heq]
  exact hall

namespace MapReduce

variable {m : MapReduce}

/-- The sequential loop counts the rest of the file when the chunk index does not overflow; `n`
is the first chunk number behind the file. -/
theorem seqLoop_eq {n : Nat} (hn : m.fileSize ≤ n * m.chunkSize)
    (hlt : ∀ i < n, i * m.chunkSize < m.fileSize) (j : Nat) {ci : Nat} (hci : ci + j = n)
    {st : MrStats} (hst : ∀ k < 27, st k < 2 ^ 31) (more : Nat) :
    m.seqLoop (j + 1 + more) ci st =
      if n + 1 < 2 ^ 31 then st.countAll (m.readBytes.drop (ci * m.chunkSize)) else none := by
  rw [show j + 1 + more = j + more + 1 by omega]
  induction j generalizing ci st with
  | zero =>
    obtain rfl : ci = n := hci
    rw [seqLoop]
    by_cases hroom : ci + 1 < 2 ^ 31
    · have hout : ¬ m.chunkStart ci < m.fileSize := by
        rw [chunkStart_eq (by omega)]
        exact not_lt.mpr hn
      rw [if_pos hroom, if_pos hroom, if_neg hout,
        List.drop_eq_nil_of_le (length_readBytes.trans_le hn)]
      rfl
    · rw [if_neg hroom, if_neg hroom]
  | succ j ih =>
    rw [seqLoop]
    by_cases hroom : ci + 1 < 2 ^ 31
    · have hin : m.chunkStart ci < m.fileSize := by
        rw [chunkStart_eq (by omega)]
        exact hlt ci (by omega)
      rw [if_pos hroom, if_pos hin, countChunk_chunkStart (by omega),
        drop_eq_chunk_append (i := ci), MrStats.countAll_append]
      cases hchunk : st.countAll (chunk m.chunkSize m.readBytes ci) with
      | none => exact (ite_self none).symm
      | some st' =>
        rw [Option.bind_some, Option.bind_some, show j + 1 + more = j + more + 1 by omega]
        exact ih (by omega) (MrStats.lt_of_countAll hst hchunk)
    · rw [if_neg hroom, if_neg (by omega)]

/-- A worker counts the chunks it gets. -/
theorem workerLoop_eq {inside : List Nat} {last : Nat}
    (hinside : ∀ ci ∈ inside, ci * m.chunkSize < m.fileSize)
    (hlast : m.fileSize ≤ last * m.chunkSize) (hint : ∀ ci ∈ inside ++ [last], ci < 2 ^ 31)
    (st : MrStats) :
    m.workerLoop (inside ++ [last]) st =
      st.countAll ((inside ++ [last]).flatMap (chunk m.chunkSize m.readBytes)) := by
  induction inside generalizing st with
  | nil =>
    have hout : ¬ m.chunkStart last < m.fileSize := by
      rw [chunkStart_eq (hint last List.mem_cons_self)]
      exact not_lt.mpr hlast
    rw [List.nil_append, workerLoop, if_neg hout, List.flatMap_cons, List.flatMap_nil,
      chunk_eq_nil (length_readBytes.trans_le hlast)]
    rfl
  | cons ci inside ih =>
    have hci := hint ci List.mem_cons_self
    have hin : m.chunkStart ci < m.fileSize := by
      rw [chunkStart_eq hci]
      exact hinside ci List.mem_cons_self
    rw [List.cons_append, workerLoop, if_pos hin, countChunk_chunkStart hci, List.flatMap_cons,
      MrStats.countAll_append]
    refine congrArg (Option.bind _) (funext fun st => ih ?_ ?_ st)
    · intro c hc
      exact hinside c (List.mem_cons_of_mem ci hc)
    · intro c hc
      exact hint c (List.mem_cons_of_mem ci hc)

end MapReduce

theorem MrStats.plus_append (st : MrStats) (l l' : List Int8) :
    st.plus (l ++ l') = (st.plus l).plus l' := by
  funext k
  simp only [MrStats.plus, List.countP_append, Nat.add_assoc]

theorem MrStats.le_plus (st : MrStats) (l : List Int8) (k : Nat) : st k ≤ st.plus l k :=
  Nat.le_add_right _ _

namespace MapReduce

variable {m : MapReduce}

/-- All workers together count the chunks they get, when the sums fit. -/
theorem foldlM_workers {workers : List (List Nat)} {stats : MrStats}
    (hworkers : ∀ cis ∈ workers, ∀ st, m.workerLoop cis st =
      st.countAll (cis.flatMap (chunk m.chunkSize m.readBytes)))
    (hroom : ∀ k < 27,
      stats.plus (workers.flatten.flatMap (chunk m.chunkSize m.readBytes)) k < 2 ^ 31) :
    workers.foldlM (fun stats cis => (m.workerLoop cis fun _ => 0).bind fun statsLocal =>
      MrStats.add stats statsLocal) stats =
      some (stats.plus (workers.flatten.flatMap (chunk m.chunkSize m.readBytes))) := by
  induction workers generalizing stats with
  | nil => rfl
  | cons cis workers ih =>
    rw [List.flatten_cons, List.flatMap_append, MrStats.plus_append] at hroom ⊢
    generalize hbytes : cis.flatMap (chunk m.chunkSize m.readBytes) = bytes at hroom ⊢
    have hfirst : ∀ k < 27, stats.plus bytes k < 2 ^ 31 := by
      intro k hk
      exact (MrStats.le_plus _ _ k).trans_lt (hroom k hk)
    have hlocal : m.workerLoop cis (fun _ => 0) = some (MrStats.plus (fun _ => 0) bytes) := by
      rw [hworkers cis List.mem_cons_self, hbytes, MrStats.countAll_eq fun _ _ => by decide]
      refine if_pos fun k hk => lt_of_le_of_lt ?_ (hfirst k hk)
      simp only [MrStats.plus]
      omega
    have hadd : MrStats.add stats (MrStats.plus (fun _ => 0) bytes) = some (stats.plus bytes) := by
      simp only [MrStats.add, MrStats.plus, Nat.zero_add]
      exact if_pos hfirst
    rw [List.foldlM_cons, hlocal, Option.bind_some, hadd]
    exact ih (fun c hc => hworkers c (List.mem_cons_of_mem cis hc)) hroom

/-! ### What is counted and what is in the file -/

/-- The first chunk number behind the file. -/
theorem exists_chunk_behind (m : MapReduce) : ∃ n, m.fileSize ≤ n * m.chunkSize ∧
    (∀ i < n, i * m.chunkSize < m.fileSize) ∧
    (n + 1 < 2 ^ 31 ↔ m.fileSize ≤ (2 ^ 31 - 2) * m.chunkSize) := by
  have hex : ∃ n, m.fileSize ≤ n * m.chunkSize :=
    ⟨m.fileSize, Nat.le_mul_of_pos_right _ m.chunkSize_pos⟩
  have hlt : ∀ i < Nat.find hex, i * m.chunkSize < m.fileSize := fun i hi =>
    not_le.mp (Nat.find_min hex hi)
  refine ⟨Nat.find hex, Nat.find_spec hex, hlt, fun hsmall => ?_, fun hsize => ?_⟩
  · exact (Nat.find_spec hex).trans (Nat.mul_le_mul_right _ (by omega))
  · by_contra hlarge
    exact absurd hsize (not_le.mpr (hlt (2 ^ 31 - 2) (by omega)))

/-- The loops count the sentinel instead of the first byte. -/
theorem countP_readBytes_iff (m : MapReduce) :
    (∀ k < 27, m.readBytes.countP (fun c => charOffset c = k) = m.occurrences k) ↔
      ∀ c ∈ m.file.head?, charOffset c = 26 := by
  obtain ⟨file, size, hpos, hlt⟩ := m
  simp only [readBytes, fileShmem, occurrences]
  cases file with
  | nil =>
    constructor
    · intro _ c hc
      cases hc
    · intro _ k _
      rfl
  | cons c file =>
    have hcount : ∀ k, ((c :: file) ++ [-1]).tail.countP (fun c => charOffset c = k) =
        file.countP (fun c => charOffset c = k) + if 26 = k then 1 else 0 := by
      intro k
      rw [List.cons_append, List.tail_cons, List.countP_append, List.countP_singleton]
      simp only [show charOffset (-1) = 26 by decide, decide_eq_true_eq]
    simp only [hcount, List.countP_cons, decide_eq_true_eq]
    constructor
    · intro hall x hx
      obtain rfl : c = x := Option.some.inj hx
      have h26 := hall 26 (by decide)
      by_contra hne
      rw [if_pos rfl, if_neg hne] at h26
      omega
    · intro hfirst k _
      rw [hfirst c rfl]

theorem mapReduceSeq_eq {n : Nat} (hn : m.fileSize ≤ n * m.chunkSize)
    (hlt : ∀ i < n, i * m.chunkSize < m.fileSize) (more : Nat) :
    m.mapReduceSeq (n + 1 + more) =
      if n + 1 < 2 ^ 31 ∧ ∀ k < 27, m.readBytes.countP (fun c => charOffset c = k) < 2 ^ 31 then
        some fun k => m.readBytes.countP fun c => charOffset c = k
      else none := by
  have hzero : ∀ k < 27, (fun _ => 0 : MrStats) k < 2 ^ 31 := fun _ _ => Nat.two_pow_pos 31
  have hplus : MrStats.plus (fun _ => 0) m.readBytes =
      fun k => m.readBytes.countP fun c => charOffset c = k := by
    funext k
    exact Nat.zero_add _
  rw [mapReduceSeq, seqLoop_eq hn hlt n (Nat.zero_add n) hzero more, Nat.zero_mul, List.drop_zero,
    MrStats.countAll_eq hzero, hplus]
  by_cases hroom : n + 1 < 2 ^ 31
  · by_cases hcounters : ∀ k < 27, m.readBytes.countP (fun c => charOffset c = k) < 2 ^ 31
    · rw [if_pos hroom, if_pos hcounters, if_pos ⟨hroom, hcounters⟩, Option.bind_some, MrStats.add]
      simp only [Nat.zero_add]
      exact if_pos hcounters
    · rw [if_pos hroom, if_neg hcounters, if_neg fun h => hcounters h.2, Option.bind_none]
  · rw [if_neg hroom, if_neg fun h => hroom h.1, Option.bind_none]

/-- The workers count what the sequential loop counts. -/
theorem mapReduce_eq {workers : List (List Nat)} (hworkers : m.HandsOut workers)
    (hroom : ∀ k < 27, m.readBytes.countP (fun c => charOffset c = k) < 2 ^ 31) :
    m.mapReduce workers = some fun k => m.readBytes.countP fun c => charOffset c = k := by
  have hperm : (workers.flatten.flatMap (chunk m.chunkSize m.readBytes)).Perm m.readBytes := by
    refine flatMap_chunk_perm m.chunkSize_pos hworkers.once fun i hi => hworkers.all i ?_
    rw [← length_readBytes]
    exact hi
  have htotal : MrStats.plus (fun _ => 0)
      (workers.flatten.flatMap (chunk m.chunkSize m.readBytes)) =
      fun k => m.readBytes.countP fun c => charOffset c = k := by
    funext k
    rw [MrStats.plus, Nat.zero_add]
    exact hperm.countP_eq _
  rw [← htotal]
  refine foldlM_workers ?_ ?_
  · intro cis hcis st
    obtain ⟨inside, last, rfl, hinside, hlast⟩ := hworkers.loop cis hcis
    refine workerLoop_eq hinside hlast ?_ st
    intro ci hci
    exact hworkers.int ci (List.mem_flatten_of_mem hcis hci)
  · rw [htotal]
    exact hroom

end MapReduce

/-- **Chunked counting.**  Both functions count the file exactly when its first byte is no letter,
which the sentinel stands for, and no `int` overflows. -/
theorem map_reduce_counts_iff (m : MapReduce) : m.CountsFile ↔ m.Countable := by
  obtain ⟨n, hn, hlt, hchunks⟩ := m.exists_chunk_behind
  constructor
  · rintro ⟨⟨stats, fuel, hrun, hstats⟩, -⟩
    have hseq := hrun (n + 1)
    rw [Nat.add_comm, MapReduce.mapReduceSeq_eq hn hlt] at hseq
    obtain ⟨⟨hroom, hcounters⟩, heq⟩ := Option.ite_none_right_eq_some.mp hseq
    rw [← Option.some.inj heq] at hstats
    refine ⟨m.countP_readBytes_iff.mp hstats, hchunks.mp hroom, fun k hk => ?_⟩
    rw [← hstats k hk]
    exact hcounters k hk
  · rintro ⟨hfirst, hsize, hcounters⟩
    have hstats := m.countP_readBytes_iff.mpr hfirst
    have hroom : ∀ k < 27, m.readBytes.countP (fun c => charOffset c = k) < 2 ^ 31 := by
      intro k hk
      rw [hstats k hk]
      exact hcounters k hk
    refine ⟨⟨_, n + 1, fun more => ?_, hstats⟩, fun workers hworkers => ?_⟩
    · rw [MapReduce.mapReduceSeq_eq hn hlt, if_pos ⟨hchunks.mpr hsize, hroom⟩]
    · exact ⟨_, MapReduce.mapReduce_eq hworkers hroom, hstats⟩

/-- A file of two letters in chunks of one byte. -/
def twoLetters : MapReduce := ⟨[97, 98], 1, by decide, by decide⟩

/-- The `a` is not counted, and the sentinel is. -/
theorem map_reduce_seq_skips_first :
    (twoLetters.mapReduceSeq 3).map (fun stats => (stats 0, stats 1, stats 26)) =
      some (0, 1, 1) ∧ twoLetters.occurrences 0 = 1 ∧ twoLetters.occurrences 26 = 0 ∧
      ¬ twoLetters.CountsFile := by
  have hrun : ∀ more, (twoLetters.mapReduceSeq (2 + 1 + more)).map
      (fun stats => (stats 0, stats 1, stats 26)) = some (0, 1, 1) := by
    intro more
    have hread : twoLetters.readBytes = [98, -1] := rfl
    rw [MapReduce.mapReduceSeq_eq (m := twoLetters) (n := 2) (by decide) (by decide) more, hread]
    decide
  refine ⟨hrun 0, by decide, by decide, ?_⟩
  rintro ⟨⟨stats, fuel, hseq, hstats⟩, -⟩
  have hsame := hrun fuel
  rw [Nat.add_comm, hseq (2 + 1), Option.map_some, hstats 0 (by decide)] at hsame
  exact absurd hsame (by simp [MapReduce.occurrences, twoLetters, charOffset])

end TM2C
