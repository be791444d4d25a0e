import TM2C.Lib.Interleaving
import TM2C.DslService
import Mathlib.Algebra.Order.BigOperators.Group.Finset

/-!
# The statistics at the end

When an application node is done, `tm2c_rpc_stats` (`src/tm2c_app.c`) sends its
counters to every service node, and the case `TM2C_RPC_STATS` of `dsl_service` adds
them up and leaves the loop when it has counted enough messages.  The default
platform sends two messages that share the words of a union; Niagara sends seven
with one word each and a tag.  The totals are the sums except where the default
platform adds commits and aborts in 32 bits and where Niagara exchanges two tags.

A platform is a `StatsProtocol`: the messages that an application node sends, and what the loop
does with each.  The loop itself is one definition for both.  It counts the messages, in 32 bits,
and returns when it has the number that it expects, so it matters that no service node returns
early or waits for ever: it gets exactly the messages of all application nodes, interleaved in
any order that keeps the order of each sender.

The totals are the sum and the maximum over all messages, which do not depend on the
interleaving, by the library.  What is left is arithmetic: which sums are made in which width, and
which tag goes to which counter.  `Merged` has the sums as they come out, with the counters that
end up under WAR and RAW as parameters, since Niagara exchanges them.  Each platform then has an
exact condition on the counters of the nodes.
-/

namespace TM2C

/-- The counters of `tm2c_tx_node_t` that are sent. -/
structure TxNodeCounters where
  txCommitted : BitVec 32
  txAborted : BitVec 32
  maxRetries : BitVec 32
  abortsWar : BitVec 32
  abortsRaw : BitVec 32
  abortsWaw : BitVec 32
deriving DecidableEq, Repr

/-- `tm2c_stats_*` of a service node, which are `unsigned long`. -/
structure Stats where
  total : BitVec 64 := 0
  commits : BitVec 64 := 0
  aborts : BitVec 64 := 0
  maxRetries : BitVec 64 := 0
  abortsWar : BitVec 64 := 0
  abortsRaw : BitVec 64 := 0
  abortsWaw : BitVec 64 := 0
  received : BitVec 64 := 0
deriving DecidableEq, Repr

/-! ### Messages -/

/-- `TM2C_RPC_STATS_T`.  Of the `double` the code asks only whether it is zero. -/
structure RpcStats where
  txDuration : Nat
  -- the union of `aborts` and `aborts_war`
  word0 : BitVec 32
  -- the union of `commits` and `aborts_raw`
  word1 : BitVec 32
  -- the union of `max_retries` and `aborts_waw`
  word2 : BitVec 32

/-- `TM2C_RPC_STATS_SEND_T`: the counters share one word. -/
structure RpcStatsSend where
  statsType : Nat
  txDuration : Nat
  word : BitVec 32

/-- How a platform sends and counts statistics. -/
structure StatsProtocol (Wire : Type) where
  /-- `sys_sendcmd_all`, what one service node gets -/
  sendcmdAll : RpcStats → List Wire
  /-- the case `TM2C_RPC_STATS` up to the count -/
  record : Stats → Wire → Stats
  /-- the messages that the loop expects of every application node -/
  perNode : BitVec 32
  /-- the statements on the way out of the loop -/
  finish : Stats → Stats

/-- `a < b ? b : a` -/
def larger (a : BitVec 64) (b : BitVec 32) : BitVec 64 :=
  if a < b.setWidth 64 then b.setWidth 64 else a

/-- `src/sys_default.c` and `include/sys_default.h` -/
def statsDefault : StatsProtocol RpcStats where
  sendcmdAll m := [m]
  record s m :=
    if m.txDuration ≠ 0 then
      { s with
        aborts := s.aborts + m.word0.setWidth 64
        commits := s.commits + m.word1.setWidth 64
        maxRetries := larger s.maxRetries m.word2
        -- both summands are `uint32_t`
        total := s.total + (m.word1 + m.word0).setWidth 64 }
    else
      { s with
        abortsRaw := s.abortsRaw + m.word1.setWidth 64
        abortsWar := s.abortsWar + m.word0.setWidth 64
        abortsWaw := s.abortsWaw + m.word2.setWidth 64 }
  perNode := 2
  finish s := s

/-- `src/sys_niagara.c` and `include/sys_niagara.h` -/
def statsNiagara : StatsProtocol RpcStatsSend where
  sendcmdAll m :=
    if m.txDuration ≠ 0 then
      [⟨0, m.txDuration, 0⟩, ⟨1, 0, m.word0⟩, ⟨2, 0, m.word1⟩, ⟨3, 0, m.word2⟩]
    else
      -- `aborts_war`, `aborts_raw` and `aborts_waw`
      [⟨4, 0, m.word0⟩, ⟨5, 0, m.word1⟩, ⟨6, 0, m.word2⟩]
  record s m :=
    match m.statsType with
    | 1 => { s with aborts := s.aborts + m.word.setWidth 64 }
    | 2 => { s with commits := s.commits + m.word.setWidth 64 }
    | 3 => { s with maxRetries := larger s.maxRetries m.word }
    | 4 => { s with abortsRaw := s.abortsRaw + m.word.setWidth 64 }
    | 5 => { s with abortsWar := s.abortsWar + m.word.setWidth 64 }
    | 6 => { s with abortsWaw := s.abortsWaw + m.word.setWidth 64 }
    | _ => s
  perNode := 7
  finish s := { s with total := s.commits + s.aborts }

variable {W : Type}

/-- What a service node gets from an application node. -/
def tm2cRpcStats (p : StatsProtocol W) (stats : TxNodeCounters) (duration : Nat) : List W :=
  p.sendcmdAll
      ⟨if duration = 0 then 1 else duration, stats.txAborted, stats.txCommitted,
        stats.maxRetries⟩ ++
    p.sendcmdAll ⟨0, stats.abortsWar, stats.abortsRaw, stats.abortsWaw⟩

/-! ### The loop -/

/-- A message to a service node.  The requests touch none of the counters. -/
inductive ServiceMessage (W : Type) where
  | request (req : Req)
  | stats (w : W)

/-- The statistics among the messages. -/
def ServiceMessage.stats? : Nat × ServiceMessage W → Option (Nat × W)
  | (_, .request _) => none
  | (sender, .stats w) => some (sender, w)

/-- `dsl_service` waits for more messages or has returned and leaves the rest unread. -/
inductive LoopState (W : Type) where
  | waiting (s : Stats)
  | returned (s : Stats) (unread : List (Nat × ServiceMessage W))

/-- The statistics after a message, which the loop counts. -/
def recordAndCount (p : StatsProtocol W) (s : Stats) (w : W) : Stats :=
  { p.record s w with received := s.received + 1 }

/-- The loop of `dsl_service`, with the counters of the statistics as its state.
`perNode * NUM_APP_NODES` is computed in `uint32_t`. -/
def statsLoop (p : StatsProtocol W) (numAppNodes : BitVec 32) (s : Stats) :
    List (Nat × ServiceMessage W) → LoopState W
  | [] => .waiting s
  | (_, .request _) :: rest => statsLoop p numAppNodes s rest
  | (_, .stats w) :: rest =>
    if (recordAndCount p s w).received ≥ (p.perNode * numAppNodes).setWidth 64 then
      .returned (p.finish (recordAndCount p s w)) rest
    else statsLoop p numAppNodes (recordAndCount p s w) rest

/-- The totals are those of the nodes below `n`. -/
structure Stats.Totals (s : Stats) (n : Nat) (counters : Nat → TxNodeCounters) : Prop where
  commits : s.commits.toNat = ∑ i ∈ Finset.range n, (counters i).txCommitted.toNat
  aborts : s.aborts.toNat = ∑ i ∈ Finset.range n, (counters i).txAborted.toNat
  abortsWar : s.abortsWar.toNat = ∑ i ∈ Finset.range n, (counters i).abortsWar.toNat
  abortsRaw : s.abortsRaw.toNat = ∑ i ∈ Finset.range n, (counters i).abortsRaw.toNat
  abortsWaw : s.abortsWaw.toNat = ∑ i ∈ Finset.range n, (counters i).abortsWaw.toNat
  maxRetries : s.maxRetries.toNat = (Finset.range n).sup fun i => (counters i).maxRetries.toNat
  total : s.total.toNat = s.commits.toNat + s.aborts.toNat

/-- Whatever the durations of the nodes and the order in which their messages
arrive, `dsl_service` returns after the last of the statistics, with the totals. -/
def StatisticsSurvive (p : StatsProtocol W) (numAppNodes : BitVec 32)
    (counters : Nat → TxNodeCounters) :
    Prop :=
  ∀ (duration : Nat → Nat) (before after : List (Nat × ServiceMessage W)) (sender : Nat)
    (last : W),
    Interleaving.Merges numAppNodes.toNat (fun i => tm2cRpcStats p (counters i) (duration i))
      ((before ++ (sender, .stats last) :: after).filterMap ServiceMessage.stats?) →
    after.filterMap ServiceMessage.stats? = [] →
    ∃ s, statsLoop p numAppNodes {} (before ++ (sender, .stats last) :: after) =
        .returned s after ∧
      s.Totals numAppNodes.toNat counters

def StatisticsSurviveOn : Platform → BitVec 32 → (Nat → TxNodeCounters) → Prop
  | .generic => StatisticsSurvive statsDefault
  | .niagara => StatisticsSurvive statsNiagara

/-- No sum of a commit counter and an abort counter overflows on the default
platform, the sums of the two exchanged counters agree on Niagara, and the number
of expected messages fits into 32 bits. -/
def StatisticsFit (platform : Platform) (numAppNodes : BitVec 32)
    (counters : Nat → TxNodeCounters) :
    Prop :=
  match platform with
  | .generic => 2 * numAppNodes.toNat < 2 ^ 32 ∧ ∀ i < numAppNodes.toNat,
      (counters i).txCommitted.toNat + (counters i).txAborted.toNat < 2 ^ 32
  | .niagara => 7 * numAppNodes.toNat < 2 ^ 32 ∧
      ∑ i ∈ Finset.range numAppNodes.toNat, (counters i).abortsRaw.toNat =
        ∑ i ∈ Finset.range numAppNodes.toNat, (counters i).abortsWar.toNat

section Loop

variable {p : StatsProtocol W} {n : BitVec 32} {s s' : Stats} {sender : Nat} {last : W}
  {before after unread events : List (Nat × ServiceMessage W)}

/-- The statistics after several messages. -/
def recordAll (p : StatsProtocol W) (s : Stats) (ws : List W) : Stats :=
  ws.foldl (recordAndCount p) s

theorem recordAll_concat (s : Stats) (ws : List W) (w : W) :
    recordAll p s (ws ++ [w]) = recordAndCount p (recordAll p s ws) w := by
  unfold recordAll
  rw [List.foldl_append]
  rfl

theorem filterMap_stats_concat (h : after.filterMap ServiceMessage.stats? = []) :
    (before ++ (sender, ServiceMessage.stats last) :: after).filterMap ServiceMessage.stats? =
      before.filterMap ServiceMessage.stats? ++ [(sender, last)] := by
  rw [List.filterMap_append, List.filterMap_cons, h]
  rfl

/-- Statistics only. -/
theorem filterMap_stats (l : List (Nat × W)) :
    (l.map fun x => (x.1, ServiceMessage.stats x.2)).filterMap ServiceMessage.stats? = l := by
  rw [List.filterMap_map]
  exact List.filterMap_some

theorem recordAndCount_received (w : W) (h : s.received.toNat < 2 ^ 32) :
    (recordAndCount p s w).received.toNat = s.received.toNat + 1 := by
  have hone : (recordAndCount p s w).received = s.received + 1 := rfl
  have hnat : (1 : BitVec 64).toNat = 1 := rfl
  rw [hone, BitVec.toNat_add, hnat]
  exact Nat.mod_eq_of_lt (by omega)

/-- The test of the loop, as a comparison of numbers. -/
theorem returns_iff (w : W) (h : s.received.toNat < 2 ^ 32) :
    (recordAndCount p s w).received ≥ (p.perNode * n).setWidth 64 ↔
      (p.perNode * n).toNat ≤ s.received.toNat + 1 := by
  rw [ge_iff_le, BitVec.le_def, recordAndCount_received w h, BitVec.toNat_setWidth]
  have hlt := (p.perNode * n).isLt
  rw [Nat.mod_eq_of_lt (by omega)]

/-- The loop returns at the message that makes up the expected number, or at the
first one if none is expected. -/
theorem statsLoop_returned
    (h : s.received.toNat + (before.filterMap ServiceMessage.stats?).length + 1 =
      max (p.perNode * n).toNat 1) :
    statsLoop p n s (before ++ (sender, .stats last) :: after) =
      .returned (p.finish (recordAndCount p
        (recordAll p s ((before.filterMap ServiceMessage.stats?).map Prod.snd)) last)) after := by
  have hlt := (p.perNode * n).isLt
  induction before generalizing s with
  | nil =>
    simp only [List.filterMap_nil, List.length_nil] at h
    have hreturns := (returns_iff (p := p) (n := n) (s := s) last (by omega)).mpr (by omega)
    simp only [List.nil_append, statsLoop, if_pos hreturns]
    rfl
  | cons x before ih =>
    obtain ⟨from', message⟩ := x
    cases message with
    | request req => exact ih h
    | stats w =>
      simp only [List.filterMap_cons, ServiceMessage.stats?, List.length_cons] at h
      have hstays : ¬ (recordAndCount p s w).received ≥ (p.perNode * n).setWidth 64 := by
        rw [returns_iff (p := p) w (by omega)]
        omega
      have hcount := recordAndCount_received (p := p) w (s := s) (by omega)
      simp only [List.cons_append, statsLoop, if_neg hstays]
      exact ih (by rw [hcount]; omega)

/-- When it has returned, it has read as many of the statistics as it expects. -/
theorem statsLoop_returned_count (hs : s.received.toNat < max (p.perNode * n).toNat 1)
    (h : statsLoop p n s events = .returned s' unread) :
    s.received.toNat + (events.filterMap ServiceMessage.stats?).length =
      max (p.perNode * n).toNat 1 + (unread.filterMap ServiceMessage.stats?).length := by
  have hlt := (p.perNode * n).isLt
  induction events generalizing s with
  | nil => cases h
  | cons x events ih =>
    obtain ⟨from', message⟩ := x
    cases message with
    | request req => exact ih hs h
    | stats w =>
      simp only [List.filterMap_cons, ServiceMessage.stats?, List.length_cons]
      have hcount := recordAndCount_received (p := p) w (s := s) (by omega)
      by_cases hreturns : (recordAndCount p s w).received ≥ (p.perNode * n).setWidth 64
      · rw [statsLoop, if_pos hreturns] at h
        cases h
        have hreached := (returns_iff (p := p) w (by omega)).mp hreturns
        omega
      · rw [statsLoop, if_neg hreturns] at h
        have hmore := (returns_iff (p := p) (n := n) w (by omega)).not.mp hreturns
        have hrest := ih (by omega) h
        omega

end Loop

/-! ### Totals -/

section Totals

variable {p : StatsProtocol W} {n : BitVec 32} {counters : Nat → TxNodeCounters}
  {duration : Nat → Nat} {l : List (Nat × W)}

/-- A total to which every message adds its part. -/
theorem recordAll_add {get : Stats → BitVec 64} {part : W → BitVec 32}
    (hrecord : ∀ s w, get (recordAndCount p s w) = get s + (part w).setWidth 64)
    (s : Stats) (ws : List W) :
    get (recordAll p s ws) = get s + BitVec.ofNat 64 (ws.map fun w => (part w).toNat).sum := by
  induction ws generalizing s with
  | nil => simp [recordAll]
  | cons w ws ih =>
    have hstep : recordAll p s (w :: ws) = recordAll p (recordAndCount p s w) ws := rfl
    rw [hstep, ih, hrecord, List.map_cons, List.sum_cons, BitVec.ofNat_add, BitVec.ofNat_toNat,
      BitVec.add_assoc]

/-- A total that is the largest of the parts. -/
theorem recordAll_max {get : Stats → BitVec 64} {part : W → Nat}
    (hrecord : ∀ s w, (get (recordAndCount p s w)).toNat = max (get s).toNat (part w))
    (s : Stats) (ws : List W) :
    (get (recordAll p s ws)).toNat = max (get s).toNat ((ws.map part).foldr Nat.max 0) := by
  induction ws generalizing s with
  | nil => simp [recordAll]
  | cons w ws ih =>
    have hstep : recordAll p s (w :: ws) = recordAll p (recordAndCount p s w) ws := rfl
    rw [hstep, ih, hrecord, List.map_cons, List.foldr_cons, Nat.max_assoc]

theorem sum_toNat_le (f : Nat → BitVec 32) (m : Nat) :
    ∑ i ∈ Finset.range m, (f i).toNat ≤ m * (2 ^ 32 - 1) := by
  have hle := Finset.sum_le_card_nsmul (Finset.range m) (fun i => (f i).toNat) (2 ^ 32 - 1)
    fun i _ => by have := (f i).isLt; omega
  simpa using hle

theorem sum_toNat_lt (f : Nat → BitVec 32) (n : BitVec 32) :
    ∑ i ∈ Finset.range n.toNat, (f i).toNat < 2 ^ 64 := by
  have hle := sum_toNat_le f n.toNat
  have hn := n.isLt
  omega

/-- The sums over the messages are the sums over the nodes. -/
theorem merged_add (get : Stats → BitVec 64) (part : W → BitVec 32) (c : TxNodeCounters → BitVec 32)
    (hrecord : ∀ s w, get (recordAndCount p s w) = get s + (part w).setWidth 64)
    (hzero : get {} = 0#64)
    (hnode : ∀ node d, ((tm2cRpcStats p node d).map fun w => (part w).toNat).sum = (c node).toNat)
    (hmerges : Interleaving.Merges n.toNat
      (fun i => tm2cRpcStats p (counters i) (duration i)) l) :
    (get (recordAll p {} (l.map Prod.snd))).toNat =
      ∑ i ∈ Finset.range n.toNat, (c (counters i)).toNat := by
  rw [recordAll_add hrecord, hmerges.sum, hzero, BitVec.zero_add, BitVec.toNat_ofNat]
  simp only [hnode]
  exact Nat.mod_eq_of_lt (sum_toNat_lt _ n)

theorem merged_max (get : Stats → BitVec 64) (part : W → BitVec 32) (c : TxNodeCounters → BitVec 32)
    (hrecord : ∀ s w, (get (recordAndCount p s w)).toNat = max (get s).toNat (part w).toNat)
    (hzero : get {} = 0#64)
    (hnode : ∀ node d,
      ((tm2cRpcStats p node d).map fun w => (part w).toNat).foldr Nat.max 0 = (c node).toNat)
    (hmerges : Interleaving.Merges n.toNat
      (fun i => tm2cRpcStats p (counters i) (duration i)) l) :
    (get (recordAll p {} (l.map Prod.snd))).toNat =
      (Finset.range n.toNat).sup fun i => (c (counters i)).toNat := by
  rw [recordAll_max hrecord, hmerges.max, hzero]
  simp only [hnode]
  simp

theorem toNat_larger (a : BitVec 64) (b : BitVec 32) :
    (larger a b).toNat = max a.toNat b.toNat := by
  have hb : (b.setWidth 64).toNat = b.toNat := by
    rw [BitVec.toNat_setWidth]
    exact Nat.mod_eq_of_lt (by have := b.isLt; omega)
  unfold larger
  split
  · rename_i h
    rw [BitVec.lt_def, hb] at h
    rw [hb]
    omega
  · rename_i h
    rw [BitVec.lt_def, hb] at h
    omega

end Totals

/-! ### The two platforms -/

section Platforms

variable {n : BitVec 32} {counters : Nat → TxNodeCounters} {duration : Nat → Nat}

/-- The word of a fragment with the tag. -/
def wordOf (tag : Nat) (m : RpcStatsSend) : BitVec 32 := if m.statsType = tag then m.word else 0

/-- One of the words of the message with the duration, or of the one without. -/
def wordIf (timed : Bool) (word : RpcStats → BitVec 32) (m : RpcStats) : BitVec 32 :=
  if decide (m.txDuration ≠ 0) = timed then word m else 0

/-- The words of the first message of a node. -/
theorem words_timed (word : RpcStats → BitVec 32) (node : TxNodeCounters) (d : Nat) :
    ∃ d', ((tm2cRpcStats statsDefault node d).map fun m => (wordIf true word m).toNat) =
      [(word ⟨d', node.txAborted, node.txCommitted, node.maxRetries⟩).toNat, 0] := by
  have hne : (if d = 0 then 1 else d) ≠ 0 := by split <;> simp_all
  have hsent : tm2cRpcStats statsDefault node d =
      ([⟨if d = 0 then 1 else d, node.txAborted, node.txCommitted, node.maxRetries⟩,
        ⟨0, node.abortsWar, node.abortsRaw, node.abortsWaw⟩] : List RpcStats) := rfl
  refine ⟨if d = 0 then 1 else d, ?_⟩
  simp [hsent, wordIf, hne]

/-- The words of the second one. -/
theorem words_untimed (word : RpcStats → BitVec 32) (node : TxNodeCounters) (d : Nat) :
    ((tm2cRpcStats statsDefault node d).map fun m => (wordIf false word m).toNat) =
      [0, (word ⟨0, node.abortsWar, node.abortsRaw, node.abortsWaw⟩).toNat] := by
  have hne : (if d = 0 then 1 else d) ≠ 0 := by split <;> simp_all
  have hsent : tm2cRpcStats statsDefault node d =
      ([⟨if d = 0 then 1 else d, node.txAborted, node.txCommitted, node.maxRetries⟩,
        ⟨0, node.abortsWar, node.abortsRaw, node.abortsWaw⟩] : List RpcStats) := rfl
  simp [hsent, wordIf, hne]

/-- The words of the seven fragments of a node that have the tag. -/
theorem words_tagged (tag : Nat) (node : TxNodeCounters) (d : Nat) :
    ((tm2cRpcStats statsNiagara node d).map fun m => (wordOf tag m).toNat) =
      [0, if 1 = tag then node.txAborted.toNat else 0,
        if 2 = tag then node.txCommitted.toNat else 0,
        if 3 = tag then node.maxRetries.toNat else 0, if 4 = tag then node.abortsWar.toNat else 0,
        if 5 = tag then node.abortsRaw.toNat else 0,
        if 6 = tag then node.abortsWaw.toNat else 0] := by
  have hne : (if d = 0 then 1 else d) ≠ 0 := by split <;> simp_all
  have hsent : tm2cRpcStats statsNiagara node d =
      ([⟨0, if d = 0 then 1 else d, 0⟩, ⟨1, 0, node.txAborted⟩, ⟨2, 0, node.txCommitted⟩,
        ⟨3, 0, node.maxRetries⟩, ⟨4, 0, node.abortsWar⟩, ⟨5, 0, node.abortsRaw⟩,
        ⟨6, 0, node.abortsWaw⟩] : List RpcStatsSend) := by
    simp only [tm2cRpcStats, statsNiagara, ne_eq, hne, not_false_eq_true, if_true,
      not_true_eq_false, if_false]
    rfl
  simp [hsent, wordOf, apply_ite BitVec.toNat]

/-- The sums; `war` and `raw` are the counters that end up as WAR and RAW aborts. -/
structure Merged (s : Stats) (n : Nat) (counters : Nat → TxNodeCounters)
    (war raw : TxNodeCounters → BitVec 32) : Prop where
  commits : s.commits.toNat = ∑ i ∈ Finset.range n, (counters i).txCommitted.toNat
  aborts : s.aborts.toNat = ∑ i ∈ Finset.range n, (counters i).txAborted.toNat
  abortsWar : s.abortsWar.toNat = ∑ i ∈ Finset.range n, (war (counters i)).toNat
  abortsRaw : s.abortsRaw.toNat = ∑ i ∈ Finset.range n, (raw (counters i)).toNat
  abortsWaw : s.abortsWaw.toNat = ∑ i ∈ Finset.range n, (counters i).abortsWaw.toNat
  maxRetries : s.maxRetries.toNat = (Finset.range n).sup fun i => (counters i).maxRetries.toNat

theorem merged_default {l : List (Nat × RpcStats)}
    (hmerges : Interleaving.Merges n.toNat
      (fun i => tm2cRpcStats statsDefault (counters i) (duration i)) l) :
    Merged (recordAll statsDefault {} (l.map Prod.snd)) n.toNat counters TxNodeCounters.abortsWar
      TxNodeCounters.abortsRaw := by
  constructor
  · apply merged_add Stats.commits (wordIf true RpcStats.word1)
      TxNodeCounters.txCommitted _ rfl _ hmerges
    · intro s m
      by_cases h : m.txDuration = 0 <;> simp [recordAndCount, statsDefault, wordIf, h]
    · intro node d
      obtain ⟨d', hwords⟩ := words_timed RpcStats.word1 node d
      exact (congrArg List.sum hwords).trans (by simp)
  · apply merged_add Stats.aborts (wordIf true RpcStats.word0)
      TxNodeCounters.txAborted _ rfl _ hmerges
    · intro s m
      by_cases h : m.txDuration = 0 <;> simp [recordAndCount, statsDefault, wordIf, h]
    · intro node d
      obtain ⟨d', hwords⟩ := words_timed RpcStats.word0 node d
      exact (congrArg List.sum hwords).trans (by simp)
  · apply merged_add Stats.abortsWar (wordIf false RpcStats.word0)
      TxNodeCounters.abortsWar _ rfl _ hmerges
    · intro s m
      by_cases h : m.txDuration = 0 <;> simp [recordAndCount, statsDefault, wordIf, h]
    · intro node d
      have hwords := words_untimed RpcStats.word0 node d
      exact (congrArg List.sum hwords).trans (by simp)
  · apply merged_add Stats.abortsRaw (wordIf false RpcStats.word1)
      TxNodeCounters.abortsRaw _ rfl _ hmerges
    · intro s m
      by_cases h : m.txDuration = 0 <;> simp [recordAndCount, statsDefault, wordIf, h]
    · intro node d
      have hwords := words_untimed RpcStats.word1 node d
      exact (congrArg List.sum hwords).trans (by simp)
  · apply merged_add Stats.abortsWaw (wordIf false RpcStats.word2)
      TxNodeCounters.abortsWaw _ rfl _ hmerges
    · intro s m
      by_cases h : m.txDuration = 0 <;> simp [recordAndCount, statsDefault, wordIf, h]
    · intro node d
      have hwords := words_untimed RpcStats.word2 node d
      exact (congrArg List.sum hwords).trans (by simp)
  · apply merged_max Stats.maxRetries (wordIf true RpcStats.word2)
      TxNodeCounters.maxRetries _ rfl _ hmerges
    · intro s m
      by_cases h : m.txDuration = 0 <;>
        simp [recordAndCount, statsDefault, wordIf, h, toNat_larger]
    · intro node d
      obtain ⟨d', hwords⟩ := words_timed RpcStats.word2 node d
      exact (congrArg (List.foldr Nat.max 0) hwords).trans (by simp)

theorem merged_niagara {l : List (Nat × RpcStatsSend)}
    (hmerges : Interleaving.Merges n.toNat
      (fun i => tm2cRpcStats statsNiagara (counters i) (duration i)) l) :
    Merged (recordAll statsNiagara {} (l.map Prod.snd)) n.toNat counters TxNodeCounters.abortsRaw
      TxNodeCounters.abortsWar := by
  constructor
  · apply merged_add Stats.commits (wordOf 2) TxNodeCounters.txCommitted _ rfl _ hmerges
    · intro s m
      simp only [recordAndCount, statsNiagara, wordOf]
      split <;> simp_all
    · intro node d
      exact (congrArg List.sum (words_tagged 2 node d)).trans (by simp)
  · apply merged_add Stats.aborts (wordOf 1) TxNodeCounters.txAborted _ rfl _ hmerges
    · intro s m
      simp only [recordAndCount, statsNiagara, wordOf]
      split <;> simp_all
    · intro node d
      exact (congrArg List.sum (words_tagged 1 node d)).trans (by simp)
  · apply merged_add Stats.abortsWar (wordOf 5) TxNodeCounters.abortsRaw _ rfl _ hmerges
    · intro s m
      simp only [recordAndCount, statsNiagara, wordOf]
      split <;> simp_all
    · intro node d
      exact (congrArg List.sum (words_tagged 5 node d)).trans (by simp)
  · apply merged_add Stats.abortsRaw (wordOf 4) TxNodeCounters.abortsWar _ rfl _ hmerges
    · intro s m
      simp only [recordAndCount, statsNiagara, wordOf]
      split <;> simp_all
    · intro node d
      exact (congrArg List.sum (words_tagged 4 node d)).trans (by simp)
  · apply merged_add Stats.abortsWaw (wordOf 6) TxNodeCounters.abortsWaw _ rfl _ hmerges
    · intro s m
      simp only [recordAndCount, statsNiagara, wordOf]
      split <;> simp_all
    · intro node d
      exact (congrArg List.sum (words_tagged 6 node d)).trans (by simp)
  · apply merged_max Stats.maxRetries (wordOf 3) TxNodeCounters.maxRetries _ rfl _ hmerges
    · intro s m
      simp only [recordAndCount, statsNiagara, wordOf]
      split <;> simp_all [toNat_larger]
    · intro node d
      exact (congrArg (List.foldr Nat.max 0) (words_tagged 3 node d)).trans (by simp)

/-- If the number of messages fits into 32 bits, `dsl_service` returns in time. -/
theorem statsLoop_merged {p : StatsProtocol W} {before after : List (Nat × ServiceMessage W)}
    {sender : Nat} {last : W}
    (hlength : ∀ node d, (tm2cRpcStats p node d).length = p.perNode.toNat)
    (hfits : p.perNode.toNat * n.toNat < 2 ^ 32)
    (hmerges : Interleaving.Merges n.toNat (fun i => tm2cRpcStats p (counters i) (duration i))
      (before.filterMap ServiceMessage.stats? ++ [(sender, last)])) :
    statsLoop p n {} (before ++ (sender, .stats last) :: after) =
      .returned (p.finish (recordAll p {}
        ((before.filterMap ServiceMessage.stats? ++ [(sender, last)]).map Prod.snd))) after := by
  have hcount := hmerges.length fun i => hlength (counters i) (duration i)
  rw [List.length_append, List.length_singleton, Nat.mul_comm] at hcount
  have hexpected : (p.perNode * n).toNat = p.perNode.toNat * n.toNat := by
    rw [BitVec.toNat_mul, Nat.mod_eq_of_lt hfits]
  have hstart : ({} : Stats).received.toNat = 0 := rfl
  rw [List.map_append, List.map_singleton, recordAll_concat]
  exact statsLoop_returned (by rw [hstart, hexpected]; omega)

/-- So it does exactly then, and the rest is a matter of the totals. -/
theorem statisticsSurvive_iff {p : StatsProtocol W} {totalsFit : Prop}
    (hlength : ∀ node d, (tm2cRpcStats p node d).length = p.perNode.toNat)
    (hperNode : 0 < p.perNode.toNat) (hempty : n.toNat = 0 → totalsFit)
    (htotals : p.perNode.toNat * n.toNat < 2 ^ 32 → ∀ (duration : Nat → Nat) l,
      Interleaving.Merges n.toNat (fun i => tm2cRpcStats p (counters i) (duration i)) l →
      ((p.finish (recordAll p {} (l.map Prod.snd))).Totals n.toNat counters ↔ totalsFit)) :
    StatisticsSurvive p n counters ↔ p.perNode.toNat * n.toNat < 2 ^ 32 ∧ totalsFit := by
  constructor
  · intro hsurvive
    by_cases hn : n.toNat = 0
    · rw [hn]
      exact ⟨by omega, hempty hn⟩
    obtain ⟨l, hmerges⟩ := Interleaving.exists_merges n.toNat
      fun i => tm2cRpcStats p (counters i) 0
    have hcount := hmerges.length fun i => hlength (counters i) 0
    have hpos : 0 < n.toNat * p.perNode.toNat := Nat.mul_pos (by omega) hperNode
    obtain rfl | ⟨init, ⟨sender, last⟩, rfl⟩ := List.eq_nil_or_concat l
    · simp only [List.length_nil] at hcount
      omega
    rw [List.concat_eq_append] at hmerges hcount
    obtain ⟨s, hloop, hs⟩ := hsurvive (fun _ => 0)
      (init.map fun x => (x.1, ServiceMessage.stats x.2)) [] sender last
      (by rwa [filterMap_stats_concat rfl, filterMap_stats]) rfl
    have hfits : p.perNode.toNat * n.toNat < 2 ^ 32 := by
      have hstart : ({} : Stats).received.toNat = 0 := rfl
      have hread := statsLoop_returned_count (by rw [hstart]; omega) hloop
      rw [filterMap_stats_concat rfl, filterMap_stats, hcount, hstart, BitVec.toNat_mul,
        Nat.mul_comm] at hread
      simp only [List.filterMap_nil, List.length_nil] at hread
      omega
    rw [← filterMap_stats init] at hmerges
    rw [statsLoop_merged hlength hfits hmerges] at hloop
    cases hloop
    exact ⟨hfits, (htotals hfits _ _ hmerges).mp hs⟩
  · rintro ⟨hfits, hok⟩ duration before after sender last hmerges hafter
    rw [filterMap_stats_concat hafter] at hmerges
    exact ⟨_, statsLoop_merged hlength hfits hmerges, (htotals hfits duration _ hmerges).mpr hok⟩

theorem total_default {l : List (Nat × RpcStats)}
    (hmerges : Interleaving.Merges n.toNat
      (fun i => tm2cRpcStats statsDefault (counters i) (duration i)) l) :
    (recordAll statsDefault {} (l.map Prod.snd)).total.toNat = ∑ i ∈ Finset.range n.toNat,
      ((counters i).txCommitted + (counters i).txAborted).toNat := by
  apply merged_add Stats.total (wordIf true fun m => m.word1 + m.word0)
    (fun node => node.txCommitted + node.txAborted) _ rfl _ hmerges
  · intro s m
    by_cases h : m.txDuration = 0 <;> simp [recordAndCount, statsDefault, wordIf, h]
  · intro node d
    obtain ⟨d', hwords⟩ := words_timed (fun m => m.word1 + m.word0) node d
    exact (congrArg List.sum hwords).trans (by simp)

/-- Sums in 32 bits are the sums exactly if none of them overflows. -/
theorem sum_wrapped_iff (m : Nat) (a b : Nat → BitVec 32) :
    ∑ i ∈ Finset.range m, (a i + b i).toNat =
        ∑ i ∈ Finset.range m, (a i).toNat + ∑ i ∈ Finset.range m, (b i).toNat ↔
      ∀ i < m, (a i).toNat + (b i).toNat < 2 ^ 32 := by
  have hle : ∀ i ∈ Finset.range m, (a i + b i).toNat ≤ (a i).toNat + (b i).toNat := by
    intro i _
    rw [BitVec.toNat_add]
    exact Nat.mod_le _ _
  rw [← Finset.sum_add_distrib, Finset.sum_eq_sum_iff_of_le hle]
  apply forall_congr'
  intro i
  rw [Finset.mem_range, BitVec.toNat_add, Nat.mod_eq_iff_lt (by decide)]

theorem totals_default_iff {l : List (Nat × RpcStats)}
    (hmerges : Interleaving.Merges n.toNat
      (fun i => tm2cRpcStats statsDefault (counters i) (duration i)) l) :
    (recordAll statsDefault {} (l.map Prod.snd)).Totals n.toNat counters ↔
      ∀ i < n.toNat,
        (counters i).txCommitted.toNat + (counters i).txAborted.toNat < 2 ^ 32 := by
  have hsums := merged_default hmerges
  rw [← sum_wrapped_iff n.toNat (fun i => (counters i).txCommitted)
    (fun i => (counters i).txAborted), ← total_default hmerges, ← hsums.commits, ← hsums.aborts]
  exact ⟨fun h => h.total, fun h => ⟨hsums.commits, hsums.aborts, hsums.abortsWar,
    hsums.abortsRaw, hsums.abortsWaw, hsums.maxRetries, h⟩⟩

theorem totals_niagara_iff {l : List (Nat × RpcStatsSend)}
    (hmerges : Interleaving.Merges n.toNat
      (fun i => tm2cRpcStats statsNiagara (counters i) (duration i)) l)
    (hn : n.toNat < 2 ^ 31) :
    (statsNiagara.finish (recordAll statsNiagara {} (l.map Prod.snd))).Totals n.toNat counters ↔
      ∑ i ∈ Finset.range n.toNat, (counters i).abortsRaw.toNat =
        ∑ i ∈ Finset.range n.toNat, (counters i).abortsWar.toNat := by
  have hsums := merged_niagara hmerges
  constructor
  · intro h
    rw [← hsums.abortsWar]
    exact h.abortsWar
  · intro h
    refine ⟨hsums.commits, hsums.aborts, hsums.abortsWar.trans h, hsums.abortsRaw.trans h.symm,
      hsums.abortsWaw, hsums.maxRetries, ?_⟩
    have hcommits := sum_toNat_le (fun i => (counters i).txCommitted) n.toNat
    have haborts := sum_toNat_le (fun i => (counters i).txAborted) n.toNat
    rw [← hsums.commits] at hcommits
    rw [← hsums.aborts] at haborts
    have hsum : (statsNiagara.finish (recordAll statsNiagara {} (l.map Prod.snd))).total =
      (recordAll statsNiagara {} (l.map Prod.snd)).commits +
        (recordAll statsNiagara {} (l.map Prod.snd)).aborts := rfl
    rw [hsum, BitVec.toNat_add]
    exact Nat.mod_eq_of_lt (by omega)

/-- **Statistics survive the wire** exactly where no 32-bit sum of commits and aborts
overflows on the default platform, and on Niagara where the exchanged counters have
the same sum. -/
theorem statisticsSurviveOn_iff (platform : Platform) (n : BitVec 32)
    (counters : Nat → TxNodeCounters) :
    StatisticsSurviveOn platform n counters ↔ StatisticsFit platform n counters := by
  cases platform with
  | generic =>
    apply statisticsSurvive_iff (fun _ _ => rfl) (by decide)
    · intro hn i hi
      omega
    · intro _ duration l hmerges
      exact totals_default_iff hmerges
  | niagara =>
    apply statisticsSurvive_iff _ (by decide)
    · intro hn
      simp [hn]
    · intro hfits duration l hmerges
      have hseven : statsNiagara.perNode.toNat = 7 := rfl
      rw [hseven] at hfits
      exact totals_niagara_iff hmerges (by omega)
    · intro node d
      have hlength := congrArg List.length (words_tagged 0 node d)
      rw [List.length_map] at hlength
      exact hlength

end Platforms

/-- One node that counted `2^32 - 1` commits and an abort, or one WAR abort. -/
theorem statistics_lost :
    ¬ StatisticsSurviveOn .generic 1 (fun _ => ⟨0xffffffff, 1, 0, 0, 0, 0⟩) ∧
    ¬ StatisticsSurviveOn .niagara 1 (fun _ => ⟨1, 1, 0, 1, 0, 0⟩) := by
  constructor
  · intro h
    obtain ⟨s, hloop, hs⟩ := h (fun _ => 1) [(0, .stats ⟨1, 1, 0xffffffff, 0⟩)] [] 0 ⟨0, 0, 0, 0⟩
      ⟨by decide, fun i hi => by rw [Nat.lt_one_iff.mp hi]; rfl⟩ rfl
    cases hloop
    exact absurd hs.total (by decide)
  · intro h
    obtain ⟨s, hloop, hs⟩ := h (fun _ => 1)
      ([⟨0, 1, 0⟩, ⟨1, 0, 1⟩, ⟨2, 0, 1⟩, ⟨3, 0, 0⟩, ⟨4, 0, 1⟩, ⟨5, 0, 0⟩].map
        fun m => (0, .stats m)) [] 0 ⟨6, 0, 0⟩
      ⟨by decide, fun i hi => by rw [Nat.lt_one_iff.mp hi]; rfl⟩ rfl
    cases hloop
    exact absurd hs.abortsWar (by decide)

end TM2C
