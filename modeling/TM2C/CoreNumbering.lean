import TM2C.PgasAllocators

/-!
# The numbering of the cores and the PGAS regions

`tm2c_app_init_once` lists the service cores, `dsl_id_seq` counts those below a core, and
`pgas_app_init` looks for the nearest one below an application core and for the cores
that share it.  With `DSL_CORES_ASSIGN = 0` every `DSL_PER_NODE`-th core is a service core.

The loops are translated as folds and as the greatest index with a property, and `Numbered` says
that they are inverse to each other: the core with number `s` in the table has the sequence
number `s`.  This holds for every assignment of roles, because the table lists exactly the service
cores in increasing order (`dslNodes_eq_filter`).

`RegionFits` collects what `pgas_app_init` computes for one application core: the cores that
share a service core with it, each once, its place among them, where its region begins and how
long it is, that it lies in the partition of its service core, and that the addresses in it are
routed there.  The regions of two cores lie apart because they are in different partitions, or at
different places of one.  The number of regions is that of the sharing cores, so the quotient of
the partition by it is the length of each.
-/

namespace TM2C

/-- `is_app_core` with `DSL_CORES_ASSIGN == 0`. -/
def isAppCore (dslPerNode id : Nat) : Bool := decide (id % dslPerNode ≠ 0)

/-- `NUM_UES` comes from `atoi`. -/
def ratioTopology (numUes dslPerNode : Nat) (hnum : numUes < 2 ^ 31) : Topology where
  totalNodes := numUes
  isAppCore := isAppCore dslPerNode
  totalNodes_lt := hnum

namespace Topology

variable (t : Topology)

/-- `dsl_nodes` after the loop of `tm2c_app_init_once`; the next free index `dsln` is the
number of its entries. -/
def dslNodes : List Nat :=
  (List.range t.totalNodes).foldl
    (fun dslNodes j => if !t.isAppCore j then dslNodes ++ [j] else dslNodes) []

/-- `dsl_nodes` fills the array that was allocated for it, and is the inverse of
`dsl_id_seq`. -/
structure Numbered : Prop where
  length : t.dslNodes.length = t.numDslNodes
  core : ∀ s < t.numDslNodes, ∃ r < t.totalNodes, t.dslNodes[s]? = some r ∧
    t.isDslCore r = true ∧ t.dslIdSeq r = s
  seq : ∀ r < t.totalNodes, t.isDslCore r = true →
    t.dslIdSeq r < t.numDslNodes ∧ t.dslNodes[t.dslIdSeq r]? = some r

/-- The nearest service core below a core. -/
def NearestBelow (id r : Nat) : Prop :=
  t.isDslCore r = true ∧ r < id ∧ ∀ n, r < n → n < id → t.isAppCore n = true

/-- The region of an application core: it shares its service core with the application cores
that have the same nearest one, each counted once, and its part of the partition is
`PGAS_DSL_SIZE_NODE` over their number, which is not zero.  The region lies in one partition, and
requests for its addresses go to the nearest service core below. -/
structure RegionFits (id : Nat) : Prop where
  sharing : ∀ n, n ∈ t.sharing id ↔
    n < t.totalNodes ∧ t.isAppCore n = true ∧ ∃ r, t.NearestBelow id r ∧ t.NearestBelow n r
  nodup : (t.sharing id).Nodup
  shared : (t.sharing id).length ≠ 0
  start : (pgasAppInit t id).ring.mem = (t.region id).start
  length : (t.region id).size = PGAS_DSL_SIZE_NODE / (t.sharing id).length
  within : ∃ s < t.numDslNodes, (t.region id).Within (partition s)
  responsible : ∀ a, (t.region id).start ≤ a → a < (t.region id).stop →
    ∃ r, t.dslNodes[getResponsibleNode a]? = some r ∧ t.NearestBelow id r

end Topology

/-! ### Numbering -/

section Numbering

variable {t : Topology}

theorem foldl_append_filter (p : Nat → Bool) (l acc : List Nat) :
    l.foldl (fun acc j => if p j then acc ++ [j] else acc) acc = acc ++ l.filter p := by
  induction l generalizing acc with
  | nil => exact (List.append_nil acc).symm
  | cons j l ih =>
    rw [List.foldl_cons, ih]
    by_cases hp : p j = true
    · rw [if_pos hp, List.filter_cons_of_pos hp, List.append_assoc]
      rfl
    · rw [if_neg hp, List.filter_cons_of_neg hp]

theorem Topology.dslNodes_eq_filter (t : Topology) :
    t.dslNodes = (List.range t.totalNodes).filter t.isDslCore := by
  unfold Topology.dslNodes
  exact foldl_append_filter t.isDslCore _ []

theorem Topology.length_dslNodes (t : Topology) : t.dslNodes.length = t.numDslNodes := by
  rw [t.dslNodes_eq_filter, ← List.countP_eq_length_filter]
  rfl

theorem Topology.mem_dslNodes {r : Nat} :
    r ∈ t.dslNodes ↔ r < t.totalNodes ∧ t.isDslCore r = true := by
  rw [t.dslNodes_eq_filter, List.mem_filter, List.mem_range]

/-- A service core stands behind as many entries as there are service cores below it. -/
theorem Topology.dslNodes_dslIdSeq {r : Nat} (hr : r < t.totalNodes)
    (hdsl : t.isDslCore r = true) : t.dslNodes[t.dslIdSeq r]? = some r := by
  have hseq : t.dslIdSeq r = ((List.range r).filter t.isDslCore).length :=
    List.countP_eq_length_filter
  rw [t.dslNodes_eq_filter, range_eq_append hr, List.filter_append,
    List.filter_cons_of_pos hdsl, hseq, List.getElem?_append_right (Nat.le_refl _), Nat.sub_self]
  rfl

/-- No entry of `dsl_nodes` stands at two places. -/
theorem Topology.dslIdSeq_dslNodes {s r : Nat} (h : t.dslNodes[s]? = some r) :
    t.dslIdSeq r = s := by
  obtain ⟨hr, hdsl⟩ := Topology.mem_dslNodes.mp (List.mem_of_getElem? h)
  have hnodup : t.dslNodes.Nodup := by
    rw [t.dslNodes_eq_filter]
    exact List.nodup_range.filter _
  have hlt := (List.getElem?_eq_some_iff.mp (Topology.dslNodes_dslIdSeq hr hdsl)).1
  exact (List.getElem?_inj hlt hnodup).mp ((Topology.dslNodes_dslIdSeq hr hdsl).trans h.symm)

theorem Topology.numbered (t : Topology) : t.Numbered where
  length := t.length_dslNodes
  core := by
    intro s hs
    rw [← t.length_dslNodes] at hs
    have hget : t.dslNodes[s]? = some t.dslNodes[s] := List.getElem?_eq_getElem hs
    obtain ⟨hr, hdsl⟩ := Topology.mem_dslNodes.mp (List.mem_of_getElem? hget)
    exact ⟨t.dslNodes[s], hr, hget, hdsl, Topology.dslIdSeq_dslNodes hget⟩
  seq r hr hdsl := ⟨Topology.dslIdSeq_lt hdsl hr, Topology.dslNodes_dslIdSeq hr hdsl⟩

end Numbering

/-! ### Regions -/

section Regions

variable {t : Topology} {id id' : Nat}

theorem Topology.pos_of_isAppCore (hzero : t.isDslCore 0 = true) (happ : t.isAppCore id = true) :
    0 < id := by
  rcases Nat.eq_zero_or_pos id with rfl | hpos
  · rw [Topology.isDslCore, happ] at hzero
    cases hzero
  · exact hpos

/-- The backward search ends at the nearest service core. -/
theorem Topology.exists_nearest (hzero : t.isDslCore 0 = true) (hpos : 0 < id) :
    ∃ r, t.myRespNodeReal id = some r ∧ t.NearestBelow id r := by
  have hsome : (t.myRespNodeReal id).isSome := by
    unfold Topology.myRespNodeReal
    rw [List.find?_isSome]
    exact ⟨0, List.mem_reverse.mpr (List.mem_range.mpr hpos), hzero⟩
  obtain ⟨r, hr⟩ := Option.isSome_iff_exists.mp hsome
  obtain ⟨hdsl, hlt⟩ := Topology.myRespNodeReal_lt hr
  refine ⟨r, hr, hdsl, hlt, ?_⟩
  intro n hn hnid
  refine Topology.isAppCore_of_between ?_ hnid
  rw [hr]
  exact hn

theorem Topology.myRespNode_eq {r : Nat} (h : t.myRespNodeReal id = some r) :
    t.myRespNode id = t.dslIdSeq r := by
  unfold Topology.myRespNode
  rw [h]
  rfl

/-- Two service cores that are nearest below the same core are the same. -/
theorem Topology.NearestBelow.eq {r r' : Nat} (h : t.NearestBelow id r)
    (h' : t.NearestBelow id r') : r = r' := by
  obtain ⟨hdsl, hlt, hbetween⟩ := h
  obtain ⟨hdsl', hlt', hbetween'⟩ := h'
  have hnot : ∀ n, t.isDslCore n = true → ¬ t.isAppCore n = true := by
    intro n hn happ
    rw [Topology.isDslCore, happ] at hn
    cases hn
  rcases Nat.lt_trichotomy r r' with hrr | heq | hrr
  · exact absurd (hbetween r' hrr hlt') (hnot r' hdsl')
  · exact heq
  · exact absurd (hbetween' r hrr hlt) (hnot r hdsl)

/-- The count of `pgas_app_init` stops at the next service core, so it passes the application
cores for which `r` is the nearest one. -/
theorem Topology.mem_sharing_iff {r n : Nat} (h : t.myRespNodeReal id = some r) :
    n ∈ t.sharing id ↔ n < t.totalNodes ∧ t.isAppCore n = true ∧ t.NearestBelow n r := by
  have hdsl := (Topology.myRespNodeReal_lt h).1
  unfold Topology.sharing
  rw [h, Option.getD_some, mem_takeWhile_range']
  constructor
  · rintro ⟨hlt, htotal, hall⟩
    refine ⟨by omega, hall n hlt (Nat.le_refl n), hdsl, hlt, ?_⟩
    intro m hm hmn
    exact hall m hm (Nat.le_of_lt hmn)
  · rintro ⟨htotal, happ, -, hlt, hbetween⟩
    refine ⟨hlt, by omega, ?_⟩
    intro m hm hmn
    rcases Nat.eq_or_lt_of_le hmn with rfl | hmn
    · exact happ
    · exact hbetween m hm hmn

theorem Topology.nodup_sharing (t : Topology) (id : Nat) : (t.sharing id).Nodup :=
  (List.takeWhile_sublist _).nodup List.nodup_range'

/-- The bits above the mask are the number of the partition. -/
theorem getResponsibleNode_of_within {e : Extent} {s a : Nat} (h : e.Within (partition s))
    (hstart : e.start ≤ a) (hstop : a < e.stop) : getResponsibleNode a = s := by
  obtain ⟨hle, hge⟩ := h
  simp only [partition, Extent.stop] at hle hge hstop
  have hsize : PGAS_DSL_SIZE_NODE = 2 ^ PGAS_DSL_MASK_BITS := rfl
  rw [getResponsibleNode, Nat.shiftRight_eq_div_pow, ← hsize]
  exact Nat.div_eq_of_lt_le (Nat.le_trans hle hstart)
    (Nat.lt_of_lt_of_le hstop (by rw [Nat.succ_mul]; exact hge))

theorem Topology.regionFits (hzero : t.isDslCore 0 = true) (happ : t.isAppCore id = true)
    (hid : id < t.totalNodes) : t.RegionFits id := by
  have hpos := Topology.pos_of_isAppCore hzero happ
  have hshare := Topology.mem_sharing happ hpos hid
  have hwithin := (Topology.region_within hshare).1
  obtain ⟨r, hr, hnearest⟩ := Topology.exists_nearest hzero hpos
  have hseq := t.numbered.seq r (Nat.lt_trans hnearest.2.1 hid) hnearest.1
  rw [← Topology.myRespNode_eq hr] at hseq
  refine ⟨?_, t.nodup_sharing id, ?_, rfl, rfl, ⟨t.myRespNode id, hseq.1, hwithin⟩, ?_⟩
  · intro n
    rw [Topology.mem_sharing_iff hr]
    constructor
    · rintro ⟨hn, happn, hbelow⟩
      exact ⟨hn, happn, r, hnearest, hbelow⟩
    · rintro ⟨hn, happn, r', hr', hbelow⟩
      rw [hnearest.eq hr']
      exact ⟨hn, happn, hbelow⟩
  · exact Nat.ne_of_gt (List.length_pos_of_mem hshare)
  · intro a hstart hstop
    refine ⟨r, ?_, hnearest⟩
    rw [getResponsibleNode_of_within hwithin hstart hstop]
    exact hseq.2

/-- Cores with one service core share its partition, each at its own place. -/
theorem Topology.region_apart_of_shared {r : Nat} (h : t.myRespNodeReal id = some r)
    (h' : t.myRespNodeReal id' = some r) (hshare : id ∈ t.sharing id)
    (hshare' : id' ∈ t.sharing id') (hne : id ≠ id') : (t.region id).Apart (t.region id') := by
  have hsame : t.sharing id' = t.sharing id := by
    unfold Topology.sharing
    rw [h, h']
  have hsize : t.regionSize id' = t.regionSize id := by
    unfold Topology.regionSize Topology.numAppSharing
    rw [hsame]
  have hseq : t.mySeqSharing id ≠ t.mySeqSharing id' := by
    unfold Topology.mySeqSharing
    rw [if_pos hshare, if_pos hshare', hsame]
    intro heq
    exact hne ((List.idxOf_inj hshare).mp heq)
  unfold Extent.Apart
  simp only [Topology.region, Extent.stop, Topology.myRespNode_eq h, Topology.myRespNode_eq h',
    hsize]
  have hplace : ∀ i j, i < j → (partition (t.dslIdSeq r)).start + t.regionSize id * i +
      t.regionSize id ≤ (partition (t.dslIdSeq r)).start + t.regionSize id * j := by
    intro i j hij
    rw [Nat.add_assoc, ← Nat.mul_succ]
    exact Nat.add_le_add_left (Nat.mul_le_mul_left _ hij) _
  rcases Nat.lt_or_gt_of_ne hseq with hlt | hgt
  · exact Or.inl (hplace _ _ hlt)
  · exact Or.inr (hplace _ _ hgt)

theorem Topology.region_apart (hzero : t.isDslCore 0 = true) (happ : t.isAppCore id = true)
    (hid : id < t.totalNodes) (happ' : t.isAppCore id' = true) (hid' : id' < t.totalNodes)
    (hne : id ≠ id') : (t.region id).Apart (t.region id') := by
  have hpos := Topology.pos_of_isAppCore hzero happ
  have hpos' := Topology.pos_of_isAppCore hzero happ'
  have hshare := Topology.mem_sharing happ hpos hid
  have hshare' := Topology.mem_sharing happ' hpos' hid'
  obtain ⟨r, hr, hnearest⟩ := Topology.exists_nearest hzero hpos
  obtain ⟨r', hr', hnearest'⟩ := Topology.exists_nearest hzero hpos'
  by_cases hsame : r = r'
  · subst hsame
    exact Topology.region_apart_of_shared hr hr' hshare hshare' hne
  · -- different service cores have different numbers, and so different partitions
    have hseq := (t.numbered.seq r (Nat.lt_trans hnearest.2.1 hid) hnearest.1).2
    have hseq' := (t.numbered.seq r' (Nat.lt_trans hnearest'.2.1 hid') hnearest'.1).2
    have hnodes : t.myRespNode id ≠ t.myRespNode id' := by
      rw [Topology.myRespNode_eq hr, Topology.myRespNode_eq hr']
      intro heq
      rw [heq, hseq'] at hseq
      exact hsame (Option.some.inj hseq).symm
    exact (partition_apart hnodes).within (Topology.region_within hshare).1
      (Topology.region_within hshare').1

end Regions

/-- **Cores and regions fit together.**  For every number of cores and every ratio the table
of the service cores and their sequence numbers are inverse to each other, every
application core has its region in the partition of the nearest service core below, and no
two regions meet. -/
theorem pgas_regions_fit (numUes dslPerNode : Nat) (hnum : numUes < 2 ^ 31) :
    (ratioTopology numUes dslPerNode hnum).Numbered ∧
    (∀ id < numUes, (ratioTopology numUes dslPerNode hnum).isAppCore id = true →
      (ratioTopology numUes dslPerNode hnum).RegionFits id) ∧
    ∀ id < numUes, ∀ id' < numUes, (ratioTopology numUes dslPerNode hnum).isAppCore id = true →
      (ratioTopology numUes dslPerNode hnum).isAppCore id' = true → id ≠ id' →
      ((ratioTopology numUes dslPerNode hnum).region id).Apart
        ((ratioTopology numUes dslPerNode hnum).region id') := by
  have hzero : (ratioTopology numUes dslPerNode hnum).isDslCore 0 = true := by
    simp [Topology.isDslCore, ratioTopology, isAppCore]
  refine ⟨Topology.numbered _, ?_, ?_⟩
  · intro id hid happ
    exact Topology.regionFits hzero happ hid
  · intro id hid id' hid' happ happ' hne
    exact Topology.region_apart hzero happ hid happ' hid' hne

/-- Ten cores, of which 0, 4 and 8 are service cores; the last group has one core. -/
theorem pgas_regions_fit_tenCores :
    (ratioTopology 10 4 (by decide)).Numbered ∧ (ratioTopology 10 4 (by decide)).RegionFits 9 ∧
    (ratioTopology 10 4 (by decide)).dslNodes = [0, 4, 8] ∧
    ((ratioTopology 10 4 (by decide)).region 3).Apart
      ((ratioTopology 10 4 (by decide)).region 2) := by
  obtain ⟨hnumbered, hfits, hapart⟩ := pgas_regions_fit 10 4 (by decide)
  exact ⟨hnumbered, hfits 9 (by decide) (by decide), by decide,
    hapart 3 (by decide) 2 (by decide) (by decide) (by decide) (by decide)⟩

end TM2C
