import TM2C.FakeMem

/-!
# What the fake memory keeps

The operations of `src/fakemem.c` on linked lists are operations on lists of blocks, as
long as the head of a list is not taken for the node before the walker, and as long as a
freed block finds a free one behind it.  In runs of such operations the two lists partition
the space.

A list in the heap is a `Seg` of the library, and the walks are computed over it: the walker
stops at the first block with the property, with the block before it as the parent, or with the
head.  `enlistTaken_eq` and the lemmas on `enlistFree` give what the insertion does in each of its
cases (a merge with the block before, a merge with the one behind, a new link), all as an
`Enlisted`, which says what a list with one block more is like; `compact_eq` joins neighbours.

`Fakemem.Sound` is the invariant: the two lists are separate segments in their orders, no two
free blocks touch, the extents of both tile the space, and the taken ones are those of the live
pointers.  Each call keeps it under its own condition on the two lists, `mallocSpares` or
`freeSpares`: that no block goes behind the head of a list that has others, where the code takes
the head for the parent, and that a freed block has a free one behind it.  The run lemma is the
induction over the calls.
-/

namespace TM2C

open Transition LinkedList

/-! ### Lists of blocks in the heap -/

section Lists

variable {heap : Nat → Option FakememBlock} {p : Option Nat} {l : List (Nat × Extent)}

def mkBlock (e : Extent) (next : Option Nat) : FakememBlock := ⟨e.start, e.size, next⟩

@[simp] theorem mkBlock_offset (e : Extent) (r : Option Nat) : (mkBlock e r).offset = e.start :=
  rfl

@[simp] theorem mkBlock_size (e : Extent) (r : Option Nat) : (mkBlock e r).size = e.size := rfl

@[simp] theorem mkBlock_next (e : Extent) (r : Option Nat) : (mkBlock e r).next = r := rfl

theorem blocksFrom_eq (h : Seg mkBlock heap p l none) {fuel : Nat} (hfuel : l.length < fuel) :
    blocksFrom heap fuel p = some (l.map Prod.snd) := by
  induction l generalizing p fuel with
  | nil =>
    obtain rfl : p = none := h
    cases fuel <;> rfl
  | cons x l ih =>
    obtain ⟨rfl, r, hr, hrest⟩ := h
    obtain ⟨fuel, rfl⟩ : ∃ k, fuel = k + 1 := ⟨fuel - 1, by omega⟩
    have hlist := ih hrest (Nat.lt_of_succ_lt_succ hfuel)
    simp only [blocksFrom, hr, Option.bind_some, mkBlock_next, hlist, Option.map_some]
    rfl

/-- A search stops at the first node that is looked for, with the node before it. -/
theorem walk_eq (h : Seg mkBlock heap p l none) (found : FakememBlock → Bool) (f : Extent → Bool)
    (hf : ∀ e r, found (mkBlock e r) = f e) {fuel : Nat} (hfuel : l.length < fuel)
    (parent : Option Nat) :
    ∃ pre post, l = pre ++ post ∧ (∀ x ∈ pre, f x.2 = false) ∧ (∀ x ∈ post.head?, f x.2) ∧
      walk heap found fuel p parent =
        some (post.head?.map Prod.fst, (pre.getLast?.map Prod.fst).or parent) := by
  induction l generalizing p fuel parent with
  | nil =>
    obtain rfl : p = none := h
    refine ⟨[], [], rfl, by simp, by simp, ?_⟩
    cases fuel <;> rfl
  | cons x l ih =>
    obtain ⟨rfl, r, hr, hrest⟩ := h
    obtain ⟨fuel, rfl⟩ : ∃ k, fuel = k + 1 := ⟨fuel - 1, by omega⟩
    by_cases hfound : f x.2 = true
    · refine ⟨[], x :: l, rfl, by simp, by simpa using hfound, ?_⟩
      simp only [walk, hr, Option.bind_some, hf, hfound, if_true]
      rfl
    · obtain ⟨pre, post, rfl, hpre, hpost, hwalk⟩ :=
        ih hrest (Nat.lt_of_succ_lt_succ hfuel) (some x.1)
      refine ⟨x :: pre, post, rfl, ?_, hpost, ?_⟩
      · intro y hy
        rcases List.mem_cons.mp hy with rfl | hy
        · exact Bool.eq_false_iff.mpr hfound
        · exact hpre y hy
      · have hparent : (if parent ≠ some x.1 then some x.1 else parent) = some x.1 := by
          split
          · rfl
          · next heq => exact not_not.mp heq
        simp only [walk, hr, Option.bind_some, hf, hfound, if_false, hparent, mkBlock_next,
          Bool.false_eq_true]
        rw [hwalk]
        cases hlast : pre.getLast? with
        | none =>
          rw [List.getLast?_eq_none_iff.mp hlast]
          rfl
        | some y => simp [List.getLast?_cons, hlast]

end Lists

section Nodes

variable {m : Fakemem} {a : Nat} {e : Extent} {r : Option Nat} {size : Nat}
  {fs ts : List (Nat × Extent)}

@[simp] theorem Fakemem.store_heap (m : Fakemem) (p : Nat) (b : FakememBlock) :
    (m.store p b).heap = Function.update m.heap p (some b) := rfl

@[simp] theorem Fakemem.store_nodes (m : Fakemem) (p : Nat) (b : FakememBlock) :
    (m.store p b).nodes = m.nodes := rfl

theorem Fakemem.setNext_eq (h : m.heap a = some (mkBlock e r)) (q : Option Nat) :
    m.setNext (some a) q = some (m.store a (mkBlock e q)) := by
  simp only [Fakemem.setNext, Option.bind_some, h, Option.map_some]
  rfl

/-- A node behind others is not the head of its list. -/
theorem head_ne {l post : List (Nat × Extent)} {x : Nat × Extent} {p q : Option Nat}
    {heap : Nat → Option FakememBlock} (h : Seg mkBlock heap p (l ++ x :: post) q) (hl : l ≠ [])
    (hnodup : ((l ++ x :: post).map Prod.fst).Nodup) : p ≠ some x.1 := by
  cases l with
  | nil => exact absurd rfl hl
  | cons y l =>
    obtain rfl : p = some y.1 := h.1
    intro heq
    rw [List.cons_append, List.map_cons, List.nodup_cons] at hnodup
    apply hnodup.1
    rw [Option.some.inj heq]
    exact List.mem_map_of_mem (List.mem_append_right l List.mem_cons_self)

/-- The taken list gets the new block in its place. -/
theorem enlistTaken_eq (h : Seg mkBlock m.heap m.taken ts none)
    (hnodup : (ts.map Prod.fst).Nodup) (hcount : ts.length ≤ m.nodes)
    (hnew : m.heap a = some (mkBlock e r)) (hfresh : a ∉ ts.map Prod.fst)
    (hdecreasing : (ts.map Prod.snd).Pairwise fun b c => c.start < b.start)
    (hne : ∀ x ∈ ts, x.2.start ≠ e.start)
    (hfront : (ts.map Prod.snd).countP (fun t => decide (e.start < t.start)) ≠ 1) :
    ∃ pre post m', ts = pre ++ post ∧ (∀ x ∈ pre, e.start < x.2.start) ∧
      (∀ x ∈ post, x.2.start < e.start) ∧ m.enlistTaken a = some m' ∧
      Seg mkBlock m'.heap m'.taken (pre ++ (a, e) :: post) none ∧
      (∀ c, c ≠ a → c ∉ ts.map Prod.fst → m'.heap c = m.heap c) ∧
      m'.freeBlocks = m.freeBlocks ∧ m'.nodes = m.nodes ∧ m'.baseVaddr = m.baseVaddr := by
  obtain ⟨pre, post, rfl, hpre, hpost, hwalk⟩ := walk_eq h
    (fun b => decide ((mkBlock e r).offset > b.offset)) (fun x => decide (x.start < e.start))
    (fun _ _ => rfl) (show ts.length < m.nodes + 1 by omega) m.taken
  have hbefore : ∀ x ∈ pre, e.start < x.2.start := by
    intro x hx
    have hle := of_decide_eq_false (hpre x hx)
    have := hne x (List.mem_append_left _ hx)
    omega
  have hbehind : ∀ x ∈ post, x.2.start < e.start := by
    intro x hx
    cases post with
    | nil => exact absurd hx List.not_mem_nil
    | cons y post =>
      have hy := of_decide_eq_true (hpost y rfl)
      rw [List.map_append, List.pairwise_append] at hdecreasing
      rcases List.mem_cons.mp hx with rfl | hx
      · exact hy
      · have := (List.pairwise_cons.mp hdecreasing.2.1).1 x.2 (List.mem_map_of_mem hx)
        omega
  have hhead : ∀ q, Seg mkBlock m.heap q post none → q = post.head?.map Prod.fst :=
    fun q hq => hq.head
  rcases List.eq_nil_or_concat pre with rfl | ⟨pre, x, rfl⟩
  · -- the block becomes the head
    obtain hstart := hhead _ h
    refine ⟨[], post, { m.store a (mkBlock e (post.head?.map Prod.fst)) with
      taken := some a }, rfl, hbefore, hbehind, ?_, ?_, ?_, rfl, rfl, rfl⟩
    · simp only [Fakemem.enlistTaken, hnew, Option.bind_some, hwalk]
      exact if_pos (Or.inr rfl)
    · rw [← hstart]
      exact ⟨rfl, _, Function.update_self .., h.update hfresh _⟩
    · intro c hc _
      exact Function.update_of_ne hc _ _
  · rw [List.concat_eq_append, List.append_assoc, List.singleton_append] at *
    -- it comes behind `x`, which is not the head: the code would lose the block there
    have hmany : pre ≠ [] := by
      rintro rfl
      apply hfront
      have hx := hbefore x List.mem_cons_self
      have hnone : (post.map Prod.snd).countP (fun t => decide (e.start < t.start)) = 0 := by
        rw [List.countP_eq_zero]
        intro t ht
        obtain ⟨y, hy, rfl⟩ := List.mem_map.mp ht
        have := hbehind y hy
        simp only [decide_eq_true_eq]
        omega
      rw [List.nil_append, List.map_cons, List.countP_cons_of_pos (by simpa using hx), hnone]
    have hother := head_ne h hmany hnodup
    obtain ⟨s, hs, hrest, hlist⟩ := h.insert hnodup hfresh (d := e)
    obtain rfl := hhead s hrest
    have hxa : x.1 ≠ a := by
      rintro rfl
      exact hfresh (List.mem_map_of_mem (List.mem_append_right _ List.mem_cons_self))
    have hx : (m.store a (mkBlock e (post.head?.map Prod.fst))).heap x.1 =
        some (mkBlock x.2 (post.head?.map Prod.fst)) := (Function.update_of_ne hxa _ _).trans hs
    refine ⟨pre ++ [x], post, (m.store a (mkBlock e (post.head?.map Prod.fst))).store x.1
      (mkBlock x.2 (some a)), by simp, hbefore, hbehind, ?_, ?_, ?_, rfl, rfl, rfl⟩
    · simp only [Fakemem.enlistTaken, hnew, Option.bind_some, hwalk, List.getLast?_concat,
        Option.map_some, Option.some_or]
      exact (if_neg (not_or.mpr ⟨Option.some_ne_none _, Ne.symm hother⟩)).trans
        (Fakemem.setNext_eq hx _)
    · rw [List.append_assoc]
      exact hlist
    · intro c hc hcs
      rw [Fakemem.store_heap, Function.update_of_ne, Fakemem.store_heap,
        Function.update_of_ne hc]
      rintro rfl
      exact hcs (List.mem_map_of_mem (List.mem_append_right _ List.mem_cons_self))

/-- A free block of the very size leaves the free list. -/
theorem carve_exact {pre post : List (Nat × Extent)} {x : Nat × Extent} {node : Option Nat}
    (h : Seg mkBlock m.heap m.freeBlocks (pre ++ x :: post) none)
    (hnodup : ((pre ++ x :: post).map Prod.fst).Nodup)
    (hwalk : walk m.heap (fun b => decide (b.size ≥ size)) (m.nodes + 1) m.freeBlocks
      m.freeBlocks = some (some x.1, (pre.getLast?.map Prod.fst).or m.freeBlocks))
    (hexact : x.2.size = size) :
    ∃ s m', m.carve size node = some (.ok x.1, m') ∧
      m'.heap x.1 = some (mkBlock ⟨x.2.start, size⟩ s) ∧
      Seg mkBlock m'.heap m'.freeBlocks (pre ++ post) none ∧ m'.nodes = m.nodes ∧
      (∀ a, a ∉ (pre ++ x :: post).map Prod.fst → m'.heap a = m.heap a) ∧
      m'.taken = m.taken ∧ m'.baseVaddr = m.baseVaddr := by
  obtain ⟨s, hs⟩ := h.lookup (List.mem_append_right pre List.mem_cons_self)
  have hcontent : m.heap x.1 = some (mkBlock ⟨x.2.start, size⟩ s) := by
    rw [hs, ← hexact]
  rcases List.eq_nil_or_concat pre with rfl | ⟨pre, y, rfl⟩
  · refine ⟨s, { m with freeBlocks := s }, ?_, hcontent, ?_, rfl, fun _ _ => rfl, rfl, rfl⟩
    · obtain hstart : m.freeBlocks = some x.1 := h.1
      simp only [Fakemem.carve, hwalk, Option.bind_some, List.getLast?_nil, Option.map_none,
        Option.none_or, hs]
      exact (if_pos hexact).trans (if_neg (not_not.mpr hstart))
    · obtain ⟨-, t, ht, hrest⟩ := h
      rw [hs] at ht
      obtain rfl : s = t := congrArg FakememBlock.next (Option.some.inj ht)
      exact hrest
  · rw [List.concat_eq_append, List.append_assoc, List.singleton_append] at *
    obtain ⟨t, ht, hlist⟩ := h.unlink hnodup
    rw [hs] at ht
    obtain rfl : s = t := congrArg FakememBlock.next (Option.some.inj ht)
    obtain ⟨u, hu⟩ := h.lookup (List.mem_append_right pre List.mem_cons_self)
    have hyx : y.1 ≠ x.1 := by
      rintro heq
      exact (notMem_of_nodup_middle hnodup).2 (heq ▸ List.mem_cons_self)
    refine ⟨s, m.store y.1 (mkBlock y.2 s), ?_, ?_, hlist, rfl, ?_, rfl, rfl⟩
    · simp only [Fakemem.carve, hwalk, Option.bind_some, List.getLast?_concat, Option.map_some,
        Option.some_or, hs, Fakemem.setNext_eq hu]
      exact (if_pos hexact).trans (if_pos fun heq => hyx (Option.some.inj heq))
    · exact (Function.update_of_ne (Ne.symm hyx) _ _).trans hcontent
    · intro a ha
      apply Function.update_of_ne
      rintro rfl
      exact ha (List.mem_map_of_mem (by simp))

/-- A larger free block loses its front to a new node. -/
theorem carve_front {pre post : List (Nat × Extent)} {x : Nat × Extent} {c : Nat}
    (h : Seg mkBlock m.heap m.freeBlocks (pre ++ x :: post) none)
    (hnodup : ((pre ++ x :: post).map Prod.fst).Nodup)
    (hwalk : walk m.heap (fun b => decide (b.size ≥ size)) (m.nodes + 1) m.freeBlocks
      m.freeBlocks = some (some x.1, (pre.getLast?.map Prod.fst).or m.freeBlocks))
    (hlarge : size < x.2.size) (hsmall : x.2.stop < 2 ^ 64) (hfree : m.heap c = none) :
    ∃ m', m.carve size (some c) = some (.ok c, m') ∧
      m'.heap c = some (mkBlock ⟨x.2.start, size⟩ none) ∧
      Seg mkBlock m'.heap m'.freeBlocks
        (pre ++ (x.1, ⟨x.2.start + size, x.2.size - size⟩) :: post) none ∧
      m'.nodes = m.nodes + 1 ∧
      (∀ a, a ≠ c → a ∉ (pre ++ x :: post).map Prod.fst → m'.heap a = m.heap a) ∧
      m'.taken = m.taken ∧ m'.baseVaddr = m.baseVaddr := by
  have hmem : x ∈ pre ++ x :: post := List.mem_append_right pre List.mem_cons_self
  obtain ⟨hxpre, hxpost⟩ := notMem_of_nodup_middle hnodup
  obtain ⟨s, hs⟩ := h.lookup hmem
  have hcarve : m.carve size (some c) =
      some (.ok c, (m.acquire c ⟨x.2.start, size, none⟩).store x.1
        ⟨(x.2.start + size) % 2 ^ 64, x.2.size - size, s⟩) := by
    simp only [Fakemem.carve, hwalk, Option.bind_some, hs]
    exact if_neg (Nat.ne_of_gt hlarge)
  have hfresh : c ∉ (pre ++ x :: post).map Prod.fst := by
    intro hc
    obtain ⟨y, hy, rfl⟩ := List.mem_map.mp hc
    obtain ⟨u, hu⟩ := h.lookup hy
    rw [hfree] at hu
    exact absurd hu (Option.some_ne_none _).symm
  have hcx : c ≠ x.1 := by
    rintro rfl
    exact hfresh (List.mem_map_of_mem hmem)
  have hstart : (x.2.start + size) % 2 ^ 64 = x.2.start + size := by
    apply Nat.mod_eq_of_lt
    simp only [Extent.stop] at hsmall
    omega
  rw [hstart] at hcarve
  refine ⟨_, hcarve, ?_, ?_, rfl, ?_, rfl, rfl⟩
  · exact (Function.update_of_ne hcx _ _).trans (Function.update_self ..)
  · obtain ⟨t, hleft, hright⟩ := seg_append.mp (h.update hfresh
      (some ⟨x.2.start, size, none⟩))
    obtain ⟨u, hu, hlist⟩ := Seg.update_first hright hxpost
      ⟨x.2.start + size, x.2.size - size⟩
    rw [Function.update_of_ne (Ne.symm hcx), hs] at hu
    obtain rfl : s = u := congrArg FakememBlock.next (Option.some.inj hu)
    exact seg_append.mpr ⟨t, hleft.update hxpre _, hlist⟩
  · intro a ha has
    refine (Function.update_of_ne ?_ _ _).trans (Function.update_of_ne ha _ _)
    rintro rfl
    exact has (List.mem_map_of_mem hmem)

/-- The first free block that is large enough leaves the free list, or loses its front to a
new node. -/
theorem carve_eq (size : Nat) (h : Seg mkBlock m.heap m.freeBlocks fs none)
    (hnodup : (fs.map Prod.fst).Nodup) (hcount : fs.length ≤ m.nodes)
    (hsmall : ∀ x ∈ fs, x.2.stop < 2 ^ 64) {node : Option Nat}
    (hnode : node.bind m.heap = none) :
    (m.carve size node = some (.error .ENOMEM, m) ∧
      ((∀ x ∈ fs, x.2.size < size) ∨ ∃ x ∈ fs, size < x.2.size)) ∨
    ∃ pre x post fs' c r m', fs = pre ++ x :: post ∧ (∀ y ∈ pre, y.2.size < size) ∧
      size ≤ x.2.size ∧ m.carve size node = some (.ok c, m') ∧
      m'.heap c = some (mkBlock ⟨x.2.start, size⟩ r) ∧
      Seg mkBlock m'.heap m'.freeBlocks fs' none ∧
      ((size = x.2.size ∧ c = x.1 ∧ fs' = pre ++ post ∧ m'.nodes = m.nodes) ∨
        (size < x.2.size ∧ m.heap c = none ∧
          fs' = pre ++ (x.1, ⟨x.2.start + size, x.2.size - size⟩) :: post ∧
          m'.nodes = m.nodes + 1)) ∧
      (∀ a, a ≠ c → a ∉ fs.map Prod.fst → m'.heap a = m.heap a) ∧
      m'.taken = m.taken ∧ m'.baseVaddr = m.baseVaddr := by
  obtain ⟨pre, post, rfl, hpre, hpost, hwalk⟩ := walk_eq h
    (fun b => decide (b.size ≥ size)) (fun x => decide (size ≤ x.size)) (fun _ _ => rfl)
    (show fs.length < m.nodes + 1 by omega) m.freeBlocks
  have hbefore : ∀ y ∈ pre, y.2.size < size := by
    intro y hy
    have := of_decide_eq_false (hpre y hy)
    omega
  cases post with
  | nil =>
    left
    refine ⟨?_, Or.inl ?_⟩
    · simp only [Fakemem.carve, hwalk, Option.bind_some, List.head?_nil, Option.map_none]
    · rw [List.append_nil]
      exact hbefore
  | cons x post =>
    have hfit : size ≤ x.2.size := of_decide_eq_true (hpost x rfl)
    have hmem : x ∈ pre ++ x :: post := List.mem_append_right pre List.mem_cons_self
    rw [List.head?_cons, Option.map_some] at hwalk
    rcases Nat.eq_or_lt_of_le hfit with hexact | hlarge
    · right
      obtain ⟨s, m', hcarve, hcontent, hlist, hnodes, hframe, htaken, hbase⟩ :=
        carve_exact h hnodup hwalk hexact.symm
      exact ⟨pre, x, post, _, x.1, s, m', rfl, hbefore, hfit, hcarve, hcontent, hlist,
        Or.inl ⟨hexact, rfl, rfl, hnodes⟩, fun a _ ha => hframe a ha, htaken, hbase⟩
    · cases node with
      | none =>
        obtain ⟨s, hs⟩ := h.lookup hmem
        refine Or.inl ⟨?_, Or.inr ⟨x, hmem, hlarge⟩⟩
        simp only [Fakemem.carve, hwalk, Option.bind_some, hs]
        exact if_neg (Nat.ne_of_gt hlarge)
      | some c =>
        right
        obtain ⟨m', hcarve, hcontent, hlist, hnodes, hframe, htaken, hbase⟩ :=
          carve_front h hnodup hwalk hlarge (hsmall x hmem) hnode
        exact ⟨pre, x, post, _, c, none, m', rfl, hbefore, hfit, hcarve, hcontent, hlist,
          Or.inr ⟨hlarge, hnode, rfl, hnodes⟩, hframe, htaken, hbase⟩

end Nodes

/-! ### Compaction -/

section Compaction

variable {m : Fakemem} {p : Option Nat} {l : List (Nat × Extent)}

/-- What one pass over a list of blocks does: a block swallows at most one other. -/
def compactList : List (Nat × Extent) → List (Nat × Extent)
  | x :: y :: l =>
    if x.2.stop = y.2.start then (x.1, ⟨x.2.start, x.2.size + y.2.size⟩) :: compactList l
    else x :: compactList (y :: l)
  | l => l

theorem compact_eq (h : Seg mkBlock m.heap p l none) (hnodup : (l.map Prod.fst).Nodup)
    (hsmall : ∀ x ∈ l, x.2.stop < 2 ^ 64) {fuel : Nat} (hfuel : l.length < fuel)
    (hcount : l.length ≤ m.nodes) :
    ∃ m', compact fuel p m = some m' ∧ Seg mkBlock m'.heap p (compactList l) none ∧
      (∀ a, a ∉ l.map Prod.fst → m'.heap a = m.heap a) ∧
      m'.nodes + l.length = m.nodes + (compactList l).length ∧
      m'.freeBlocks = m.freeBlocks ∧ m'.taken = m.taken ∧ m'.baseVaddr = m.baseVaddr := by
  induction l using compactList.induct generalizing m p fuel with
  | case1 x y l htouch ih =>
    -- `x` swallows `y`, whose node is released
    obtain ⟨rfl, q, hx, rfl, r, hy, hrest⟩ := h
    obtain ⟨fuel, rfl⟩ : ∃ k, fuel = k + 1 := ⟨fuel - 1, by omega⟩
    rw [List.map_cons, List.map_cons, List.nodup_cons, List.nodup_cons, List.mem_cons,
      not_or] at hnodup
    obtain ⟨⟨hxy, hxl⟩, hyl, hnodup⟩ := hnodup
    simp only [List.length_cons] at hfuel hcount
    have hxs := hsmall x List.mem_cons_self
    have hys := hsmall y (List.mem_cons_of_mem _ List.mem_cons_self)
    have hend : x.2.start + x.2.size = y.2.start := htouch
    simp only [Extent.stop] at hxs hys
    -- no `size_t` of the two wraps
    have hoffset : (x.2.start + x.2.size) % 2 ^ 64 = y.2.start := by
      rw [Nat.mod_eq_of_lt hxs, hend]
    have hsize : (x.2.size + y.2.size) % 2 ^ 64 = x.2.size + y.2.size :=
      Nat.mod_eq_of_lt (by omega)
    have hnext : m.compactNext x.1 (mkBlock x.2 (some y.1)) =
        some ((m.store x.1 (mkBlock ⟨x.2.start, x.2.size + y.2.size⟩ r)).release y.1) := by
      simp only [Fakemem.compactNext, mkBlock_next, hy, Option.map_some, mkBlock_size]
      rw [hsize]
      exact congrArg some (if_pos hoffset)
    obtain ⟨m', hcompact, hlist, hframe, hnodes, hfree, htaken, hbase⟩ := ih
      (m := (m.store x.1 (mkBlock ⟨x.2.start, x.2.size + y.2.size⟩ r)).release y.1) (p := r)
      ((hrest.update hxl _).update hyl _) hnodup
      (fun z hz => hsmall z (List.mem_cons_of_mem _ (List.mem_cons_of_mem _ hz)))
      (show l.length < fuel by omega) (show l.length ≤ m.nodes - 1 by omega)
    have hmerged : ((m.store x.1 (mkBlock ⟨x.2.start, x.2.size + y.2.size⟩ r)).release
        y.1).heap x.1 = some (mkBlock ⟨x.2.start, x.2.size + y.2.size⟩ r) :=
      (Function.update_of_ne hxy _ _).trans (Function.update_self ..)
    refine ⟨m', ?_, ?_, ?_, ?_, hfree, htaken, hbase⟩
    · simp only [compact, hx, Option.bind_some, hnext, hmerged, mkBlock_next]
      exact hcompact
    · rw [compactList, if_pos htouch]
      exact ⟨rfl, r, (hframe _ hxl).trans hmerged, hlist⟩
    · intro a ha
      rw [List.map_cons, List.map_cons, List.mem_cons, List.mem_cons, not_or, not_or] at ha
      exact (hframe a ha.2.2).trans
        ((Function.update_of_ne ha.2.1 _ _).trans (Function.update_of_ne ha.1 _ _))
    · rw [compactList, if_pos htouch]
      simp only [List.length_cons, Fakemem.release, Fakemem.store_nodes] at hnodes ⊢
      omega
  | case2 x y l hgap ih =>
    -- `x` stays as it is
    obtain ⟨rfl, q, hx, hrest⟩ := h
    obtain ⟨fuel, rfl⟩ : ∃ k, fuel = k + 1 := ⟨fuel - 1, by omega⟩
    rw [List.map_cons, List.nodup_cons] at hnodup
    obtain ⟨hxl, hnodup⟩ := hnodup
    obtain rfl : q = some y.1 := hrest.1
    obtain ⟨r, hy⟩ := hrest.lookup List.mem_cons_self
    have hxs := hsmall x List.mem_cons_self
    have hoffset : (x.2.start + x.2.size) % 2 ^ 64 ≠ y.2.start := by
      rw [show x.2.start + x.2.size = x.2.stop from rfl, Nat.mod_eq_of_lt hxs]
      exact hgap
    have hnext : m.compactNext x.1 (mkBlock x.2 (some y.1)) = some m := by
      simp only [Fakemem.compactNext, mkBlock_next, hy, Option.map_some]
      exact congrArg some (if_neg hoffset)
    obtain ⟨m', hcompact, hlist, hframe, hnodes, hfree, htaken, hbase⟩ := ih hrest hnodup
      (fun z hz => hsmall z (List.mem_cons_of_mem _ hz)) (Nat.lt_of_succ_lt_succ hfuel)
      (Nat.le_of_succ_le hcount)
    refine ⟨m', ?_, ?_, ?_, ?_, hfree, htaken, hbase⟩
    · simp only [compact, hx, Option.bind_some, hnext, mkBlock_next]
      exact hcompact
    · rw [compactList, if_neg hgap]
      exact ⟨rfl, some y.1, (hframe _ hxl).trans hx, hlist⟩
    · intro a ha
      exact hframe a (fun hal => ha (List.mem_cons_of_mem _ hal))
    · rw [compactList, if_neg hgap]
      simp only [List.length_cons] at hnodes ⊢
      omega
  | case3 l hshort =>
    -- fewer than two blocks are left
    have hsame : compactList l = l := by
      unfold compactList
      split
      · next x y l => exact absurd rfl (hshort x y l)
      · rfl
    rw [hsame]
    refine ⟨m, ?_, h, fun _ _ => rfl, rfl, rfl, rfl, rfl⟩
    cases l with
    | nil =>
      obtain rfl : p = none := h
      cases fuel <;> rfl
    | cons x l =>
      cases l with
      | nil =>
        obtain ⟨rfl, q, hx, rfl⟩ := h
        obtain ⟨fuel, rfl⟩ : ∃ k, fuel = k + 1 := ⟨fuel - 1, by omega⟩
        simp only [compact, hx, Option.bind_some, Fakemem.compactNext, mkBlock_next]
      | cons y l => exact absurd rfl (hshort x y l)

/-- There are addresses between the two blocks. -/
def Gap (x y : Nat × Extent) : Prop := x.2.stop < y.2.start

theorem compactList_of_gaps (h : l.Pairwise Gap) : compactList l = l := by
  induction l with
  | nil => rfl
  | cons x l ih =>
    obtain ⟨hx, hl⟩ := List.pairwise_cons.mp h
    cases l with
    | nil => rfl
    | cons y l =>
      have hxy : x.2.stop < y.2.start := hx y List.mem_cons_self
      rw [compactList, if_neg (Nat.ne_of_lt hxy), ih hl]

theorem compactList_append {u : List (Nat × Extent)} (hu : u.Pairwise Gap)
    (hul : ∀ x ∈ u, ∀ y ∈ l, Gap x y) : compactList (u ++ l) = u ++ compactList l := by
  induction u with
  | nil => rfl
  | cons x u ih =>
    obtain ⟨hx, hu⟩ := List.pairwise_cons.mp hu
    have hrest := ih hu fun y hy => hul y (List.mem_cons_of_mem x hy)
    have hnext : ∀ y ∈ u ++ l, Gap x y := by
      intro y hy
      rcases List.mem_append.mp hy with hy | hy
      · exact hx y hy
      · exact hul x List.mem_cons_self y hy
    cases hul' : u ++ l with
    | nil =>
      obtain ⟨rfl, rfl⟩ := List.append_eq_nil_iff.mp hul'
      rfl
    | cons y v =>
      have hxy : x.2.stop < y.2.start := hnext y (hul' ▸ List.mem_cons_self)
      rw [List.cons_append, hul', compactList, if_neg (Nat.ne_of_lt hxy), ← hul', hrest,
        List.cons_append]

theorem tiles_middle {u v : List (Nat × Extent)} {x : Nat × Extent} {r : List Extent} {n : Nat} :
    Extent.Tiles ((u ++ x :: v).map Prod.snd ++ r) n ↔
      Extent.Tiles (x.2 :: ((u ++ v).map Prod.snd ++ r)) n := by
  have hperm : ((u ++ x :: v).map Prod.snd ++ r).Perm (x.2 :: ((u ++ v).map Prod.snd ++ r)) :=
    (List.perm_middle.map Prod.snd).append_right r
  exact ⟨fun h => h.perm hperm, fun h => h.perm hperm.symm⟩

/-- One pass is enough when only one block can touch the next one. -/
theorem compactList_gaps {u v : List (Nat × Extent)} {z : Nat × Extent}
    (hgaps : (u ++ v).Pairwise Gap) (huz : ∀ x ∈ u, Gap x z)
    (hzv : ∀ y ∈ v, z.2.stop ≤ y.2.start) (hpos : ∀ x ∈ u ++ z :: v, 0 < x.2.size) :
    (compactList (u ++ z :: v)).Pairwise Gap ∧
    (∀ x ∈ compactList (u ++ z :: v), 0 < x.2.size) ∧
    ((compactList (u ++ z :: v)).map Prod.fst).Sublist ((u ++ z :: v).map Prod.fst) ∧
    ∀ r n, (∀ e ∈ r, 0 < e.size) → Extent.Tiles ((u ++ z :: v).map Prod.snd ++ r) n →
      Extent.Tiles ((compactList (u ++ z :: v)).map Prod.snd ++ r) n := by
  obtain ⟨hu, hv, huv⟩ := List.pairwise_append.mp hgaps
  have hsame : (z :: v).Pairwise Gap → compactList (u ++ z :: v) = u ++ z :: v ∧
      (u ++ z :: v).Pairwise Gap := by
    intro hzv
    have hgaps : (u ++ z :: v).Pairwise Gap := by
      refine List.pairwise_append.mpr ⟨hu, hzv, fun x hx y hy => ?_⟩
      rcases List.mem_cons.mp hy with rfl | hy
      · exact huz x hx
      · exact huv x hx y hy
    exact ⟨compactList_of_gaps hgaps, hgaps⟩
  cases v with
  | nil =>
    obtain ⟨heq, hgaps⟩ := hsame (List.pairwise_singleton ..)
    rw [heq]
    exact ⟨hgaps, hpos, List.Sublist.refl _, fun _ _ _ h => h⟩
  | cons y v =>
    obtain ⟨hyv, hv'⟩ := List.pairwise_cons.mp hv
    obtain ⟨hypos, hposv⟩ := forall_mem_middle.mp (forall_mem_middle.mp hpos).2
    have hzy := hzv y List.mem_cons_self
    rcases Nat.eq_or_lt_of_le hzy with htouch | hgap
    · -- the two become one, and behind `y` there was a gap
      have hmerge : compactList (u ++ z :: y :: v) =
          u ++ (z.1, ⟨z.2.start, z.2.size + y.2.size⟩) :: v := by
        rw [compactList_append hu, compactList, if_pos htouch, compactList_of_gaps hv']
        intro x hx w hw
        rcases List.mem_cons.mp hw with rfl | hw
        · exact huz x hx
        · exact huv x hx w hw
      rw [hmerge]
      refine ⟨List.pairwise_append.mpr ⟨hu, List.pairwise_cons.mpr ⟨?_, hv'⟩, ?_⟩, ?_, ?_, ?_⟩
      · intro w hw
        have hyw := hyv w hw
        simp only [Gap, Extent.stop] at hyw htouch ⊢
        omega
      · intro x hx w hw
        rcases List.mem_cons.mp hw with rfl | hw
        · exact huz x hx
        · exact huv x hx w (List.mem_cons_of_mem _ hw)
      · exact forall_mem_middle.mpr ⟨Nat.add_pos_right _ hypos, hposv⟩
      · simp only [List.map_append, List.map_cons]
        exact (((List.Sublist.refl _).cons _).cons_cons _).append_left _
      · intro r n hr htiles
        have htwo : Extent.Tiles (z.2 :: y.2 :: ((u ++ v).map Prod.snd ++ r)) n := by
          refine (tiles_middle.mp htiles).perm (List.Perm.cons _ ?_)
          exact (List.perm_middle.map Prod.snd).append_right r
        refine tiles_middle.mpr (htwo.join htouch ?_)
        intro e he
        rcases List.mem_append.mp he with he | he
        · obtain ⟨x, hx, rfl⟩ := List.mem_map.mp he
          exact hposv x hx
        · exact hr e he
    · -- nothing is joined
      have hzw : ∀ w ∈ y :: v, Gap z w := by
        intro w hw
        rcases List.mem_cons.mp hw with rfl | hw
        · exact hgap
        · have hyw := hyv w hw
          simp only [Gap, Extent.stop] at hgap hyw ⊢
          omega
      obtain ⟨heq, hgaps⟩ := hsame (List.pairwise_cons.mpr ⟨hzw, hv⟩)
      rw [heq]
      exact ⟨hgaps, hpos, List.Sublist.refl _, fun _ _ _ h => h⟩

end Compaction

/-! ### Freeing -/

section Freeing

variable {m m' : Fakemem} {a : Nat} {e : Extent} {r : Option Nat} {fs ts : List (Nat × Extent)}

/-- The free list `fs` with the block `e` of the node `a`, before the compaction: `z` is the
block with the new bytes, and touches at most the one behind it. -/
structure Enlisted (m m' : Fakemem) (a : Nat) (e : Extent) (fs u : List (Nat × Extent))
    (z : Nat × Extent) (v : List (Nat × Extent)) : Prop where
  list : Seg mkBlock m'.heap m'.freeBlocks (u ++ z :: v) none
  gaps : (u ++ v).Pairwise Gap
  before : ∀ x ∈ u, Gap x z
  behind : ∀ y ∈ v, z.2.stop ≤ y.2.start
  pos : ∀ x ∈ u ++ z :: v, 0 < x.2.size
  small : ∀ x ∈ u ++ z :: v, x.2.stop < 2 ^ 64
  nodup : ((u ++ z :: v).map Prod.fst).Nodup
  subset : ∀ c ∈ (u ++ z :: v).map Prod.fst, c = a ∨ c ∈ fs.map Prod.fst
  tiles : ∀ r n, (∀ g ∈ r, 0 < g.size) → Extent.Tiles (e :: (fs.map Prod.snd ++ r)) n →
    Extent.Tiles ((u ++ z :: v).map Prod.snd ++ r) n
  nodes : m'.nodes + (fs.length + 1) = m.nodes + (u ++ z :: v).length
  frame : ∀ c, c ≠ a → c ∉ fs.map Prod.fst → m'.heap c = m.heap c
  taken : m'.taken = m.taken
  base : m'.baseVaddr = m.baseVaddr

variable (h : Seg mkBlock m.heap m.freeBlocks fs none) (hnodup : (fs.map Prod.fst).Nodup)
  (hgaps : fs.Pairwise Gap) (hpos : ∀ x ∈ fs, 0 < x.2.size)
  (hsmall : ∀ x ∈ fs, x.2.stop < 2 ^ 64) (hcount : fs.length + 1 ≤ m.nodes)
  (hnew : m.heap a = some (mkBlock e r)) (hfresh : a ∉ fs.map Prod.fst) (hsize : 0 < e.size)
  (hesmall : e.stop < 2 ^ 64)

include h hnodup hgaps hpos hsmall hcount hnew hfresh hsize hesmall

/-- The front of the free list grows by a block that ends where it begins. -/
theorem enlistFree_front_grow {y : Nat × Extent} {post : List (Nat × Extent)}
    (hfs : fs = y :: post) (htouch : e.stop = y.2.start) :
    ∃ u z v m', m.enlistFree a (some y.1) (some y.1) = some m' ∧ Enlisted m m' a e fs u z v := by
  subst hfs
  obtain ⟨s, hs⟩ := h.lookup List.mem_cons_self
  obtain ⟨hy, hpost⟩ := List.pairwise_cons.mp hgaps
  obtain ⟨hypos, hposy⟩ := List.forall_mem_cons.mp hpos
  obtain ⟨hysmall, hsmally⟩ := List.forall_mem_cons.mp hsmall
  have hend : e.start + e.size = y.2.start := htouch
  have hstop : (y.2.start + y.2.size) % 2 ^ 64 ≠ e.start := by
    simp only [Extent.stop] at hysmall
    omega
  have hestop : (e.start + e.size) % 2 ^ 64 = y.2.start :=
    (Nat.mod_eq_of_lt hesmall).trans htouch
  -- the offset goes back by the size, modulo 2^64
  have hoffset : (y.2.start + (2 ^ 64 - e.size)) % 2 ^ 64 = e.start := by
    simp only [Extent.stop] at hesmall
    omega
  have hsum : (y.2.size + e.size) % 2 ^ 64 = e.size + y.2.size := by
    simp only [Extent.stop] at hysmall
    omega
  have henlist : m.enlistFree a (some y.1) (some y.1) =
      some ((m.store y.1 (mkBlock ⟨e.start, e.size + y.2.size⟩ s)).release a) := by
    simp only [Fakemem.enlistFree, hnew, Option.bind_some, hs, mkBlock_size, mkBlock_offset,
      hoffset, hsum]
    exact (if_neg hstop).trans (if_pos hestop)
  refine ⟨[], (y.1, ⟨e.start, e.size + y.2.size⟩), post, _, henlist, ?_⟩
  constructor
  case list =>
    obtain ⟨hyp, hyl⟩ := notMem_of_nodup_middle (l := []) hnodup
    obtain ⟨t, ht, hlist⟩ := h.update_first hyl ⟨e.start, e.size + y.2.size⟩
    rw [hs] at ht
    obtain rfl : s = t := congrArg FakememBlock.next (Option.some.inj ht)
    exact hlist.update hfresh _
  case gaps => exact hpost
  case before =>
    intro x hx
    exact absurd hx List.not_mem_nil
  case behind =>
    intro x hx
    have hgap := hy x hx
    simp only [Gap, Extent.stop] at hgap ⊢
    omega
  case pos =>
    exact forall_mem_middle.mpr ⟨Nat.add_pos_left hsize _, hposy⟩
  case small =>
    refine forall_mem_middle.mpr ⟨?_, hsmally⟩
    simp only [Extent.stop] at hysmall ⊢
    omega
  case nodup => exact hnodup
  case subset => exact fun c hc => Or.inr hc
  case tiles =>
    intro r n hr htiles
    refine htiles.join htouch ?_
    intro g hg
    rcases List.mem_append.mp hg with hg | hg
    · obtain ⟨x, hx, rfl⟩ := List.mem_map.mp hg
      exact hposy x hx
    · exact hr g hg
  case nodes =>
    simp only [Fakemem.release, Fakemem.store_nodes, List.nil_append, List.length_cons] at *
    omega
  case frame =>
    intro c hca hc
    refine (Function.update_of_ne hca _ _).trans (Function.update_of_ne ?_ _ _)
    rintro rfl
    exact hc List.mem_cons_self
  case taken => exact rfl
  case base => exact rfl

/-- A block before all free ones becomes the head. -/
theorem enlistFree_front_link {y : Nat × Extent} {post : List (Nat × Extent)}
    (hfs : fs = y :: post) (hey : e.stop < y.2.start) :
    ∃ u z v m', m.enlistFree a (some y.1) (some y.1) = some m' ∧ Enlisted m m' a e fs u z v := by
  subst hfs
  obtain hstart : m.freeBlocks = some y.1 := h.1
  obtain ⟨s, hs⟩ := h.lookup List.mem_cons_self
  have hy := (List.pairwise_cons.mp hgaps).1
  have hysmall := hsmall y List.mem_cons_self
  have hstop : (y.2.start + y.2.size) % 2 ^ 64 ≠ e.start := by
    simp only [Extent.stop] at hysmall hey
    omega
  have hestop : (e.start + e.size) % 2 ^ 64 ≠ y.2.start := by
    rw [show e.start + e.size = e.stop from rfl, Nat.mod_eq_of_lt hesmall]
    exact Nat.ne_of_lt hey
  have henlist : m.enlistFree a (some y.1) (some y.1) =
      some { m.store a (mkBlock e (some y.1)) with freeBlocks := some a } := by
    simp only [Fakemem.enlistFree, hnew, Option.bind_some, hs]
    exact (if_neg hstop).trans ((if_neg hestop).trans (if_pos hstart.symm))
  refine ⟨[], (a, e), y :: post, _, henlist, ?_⟩
  constructor
  case list =>
    exact ⟨rfl, some y.1, Function.update_self .., hstart ▸ h.update hfresh _⟩
  case gaps => exact hgaps
  case before =>
    intro x hx
    exact absurd hx List.not_mem_nil
  case behind =>
    intro x hx
    rcases List.mem_cons.mp hx with rfl | hx
    · exact Nat.le_of_lt hey
    · have hgap := hy x hx
      simp only [Gap, Extent.stop] at hgap hey ⊢
      omega
  case pos =>
    exact forall_mem_middle.mpr ⟨hsize, hpos⟩
  case small =>
    exact forall_mem_middle.mpr ⟨hesmall, hsmall⟩
  case nodup =>
    exact List.nodup_cons.mpr ⟨hfresh, hnodup⟩
  case subset =>
    intro c hc
    exact List.mem_cons.mp hc
  case tiles => exact fun _ _ _ htiles => htiles
  case nodes =>
    simp only [Fakemem.store_nodes, List.nil_append, List.length_cons]
  case frame =>
    intro c hca _
    exact Function.update_of_ne hca _ _
  case taken => exact rfl
  case base => exact rfl

/-- A free block grows by the block that begins where it ends. -/
theorem enlistFree_grow {x : Nat × Extent} {pre post : List (Nat × Extent)}
    (hfs : fs = pre ++ x :: post) (htouch : x.2.stop = e.start)
    (hep : ∀ y ∈ post, e.stop ≤ y.2.start) :
    ∃ u z v m', m.enlistFree a (post.head?.map Prod.fst) (some x.1) = some m' ∧
      Enlisted m m' a e fs u z v := by
  subst hfs
  have hmem : x ∈ pre ++ x :: post := List.mem_append_right pre List.mem_cons_self
  obtain ⟨s, hs⟩ := h.lookup hmem
  obtain ⟨hpre, hpost, hprepost⟩ := List.pairwise_append.mp hgaps
  obtain ⟨hx, hpost⟩ := List.pairwise_cons.mp hpost
  obtain ⟨hxpre, hxpost⟩ := notMem_of_nodup_middle hnodup
  obtain ⟨hxpos, hposx⟩ := forall_mem_middle.mp hpos
  obtain ⟨hxsmall, hsmallx⟩ := forall_mem_middle.mp hsmall
  -- the test for the block before it holds, and the sum of the sizes does not wrap
  have hxstop : (x.2.start + x.2.size) % 2 ^ 64 = e.start :=
    (Nat.mod_eq_of_lt hxsmall).trans htouch
  have hend : x.2.start + x.2.size = e.start := htouch
  have hsum : (x.2.size + e.size) % 2 ^ 64 = x.2.size + e.size := by
    simp only [Extent.stop] at hesmall
    omega
  have henlist : m.enlistFree a (post.head?.map Prod.fst) (some x.1) =
      some ((m.store x.1 (mkBlock ⟨x.2.start, x.2.size + e.size⟩ s)).release a) := by
    simp only [Fakemem.enlistFree, hnew, Option.bind_some, hs, mkBlock_size, hsum]
    exact if_pos hxstop
  refine ⟨pre, (x.1, ⟨x.2.start, x.2.size + e.size⟩), post, _, henlist, ?_⟩
  constructor
  case list =>
    obtain ⟨t, hleft, hright⟩ := seg_append.mp h
    obtain ⟨u, hu, hlist⟩ := hright.update_first hxpost ⟨x.2.start, x.2.size + e.size⟩
    rw [hs] at hu
    obtain rfl : s = u := congrArg FakememBlock.next (Option.some.inj hu)
    refine Seg.update (seg_append.mpr ⟨t, hleft.update hxpre _, hlist⟩) ?_ _
    simpa using hfresh
  case gaps =>
    exact List.pairwise_append.mpr
      ⟨hpre, hpost, fun y hy w hw => hprepost y hy w (List.mem_cons_of_mem x hw)⟩
  case before =>
    intro y hy
    exact hprepost y hy x List.mem_cons_self
  case behind =>
    intro y hy
    have := hep y hy
    simp only [Extent.stop] at this ⊢
    omega
  case pos =>
    exact forall_mem_middle.mpr ⟨Nat.add_pos_left hxpos _, hposx⟩
  case small =>
    refine forall_mem_middle.mpr ⟨?_, hsmallx⟩
    simp only [Extent.stop] at hesmall ⊢
    omega
  case nodup =>
    simpa using hnodup
  case subset =>
    intro c hc
    exact Or.inr (by simpa using hc)
  case tiles =>
    intro r n hr htiles
    refine tiles_middle.mpr (Extent.Tiles.join ?_ htouch ?_)
    · refine Extent.Tiles.perm htiles ?_
      exact (((List.perm_middle.map Prod.snd).append_right r).cons e).trans
        (List.Perm.swap ..)
    · intro g hg
      rcases List.mem_append.mp hg with hg | hg
      · obtain ⟨y, hy, rfl⟩ := List.mem_map.mp hg
        exact hposx y hy
      · exact hr g hg
  case nodes =>
    simp only [Fakemem.release, Fakemem.store_nodes, List.length_append,
      List.length_cons] at hcount ⊢
    omega
  case frame =>
    intro c hca hc
    refine (Function.update_of_ne hca _ _).trans (Function.update_of_ne ?_ _ _)
    rintro rfl
    exact hc (List.mem_map_of_mem hmem)
  case taken => exact rfl
  case base => exact rfl

/-- A free block that is not the head gets a successor. -/
theorem enlistFree_link {x : Nat × Extent} {pre post : List (Nat × Extent)}
    (hfs : fs = pre ++ x :: post) (hgap : x.2.stop < e.start)
    (hep : ∀ y ∈ post, e.stop ≤ y.2.start) (hmany : pre ≠ []) :
    ∃ u z v m', m.enlistFree a (post.head?.map Prod.fst) (some x.1) = some m' ∧
      Enlisted m m' a e fs u z v := by
  subst hfs
  have hmem : x ∈ pre ++ x :: post := List.mem_append_right pre List.mem_cons_self
  obtain ⟨s, hs⟩ := h.lookup hmem
  have hprepost := (List.pairwise_append.mp hgaps).2.2
  have hxa : x.1 ≠ a := fun heq => hfresh (heq ▸ List.mem_map_of_mem hmem)
  have hxstop : (x.2.start + x.2.size) % 2 ^ 64 ≠ e.start := by
    rw [show x.2.start + x.2.size = x.2.stop from rfl, Nat.mod_eq_of_lt (hsmall x hmem)]
    exact Nat.ne_of_lt hgap
  have hestop : (e.start + e.size) % 2 ^ 64 ≠ x.2.start := by
    simp only [Extent.stop] at hesmall hgap
    omega
  -- the block before it is not the head, so the code writes only its link
  have hother := head_ne h hmany hnodup
  obtain ⟨t, ht, hrestlist, hlist⟩ := h.insert hnodup hfresh (d := e)
  obtain rfl : t = post.head?.map Prod.fst := hrestlist.head
  have hxstore : (m.store a (mkBlock e (post.head?.map Prod.fst))).heap x.1 =
      some (mkBlock x.2 (post.head?.map Prod.fst)) := (Function.update_of_ne hxa _ _).trans ht
  have henlist : m.enlistFree a (post.head?.map Prod.fst) (some x.1) =
      some ((m.store a (mkBlock e (post.head?.map Prod.fst))).store x.1
        (mkBlock x.2 (some a))) := by
    simp only [Fakemem.enlistFree, hnew, Option.bind_some, hs]
    refine (if_neg hxstop).trans ((if_neg hestop).trans ?_)
    exact (if_neg (Ne.symm hother)).trans (Fakemem.setNext_eq hxstore _)
  have hall : ∀ {P : Nat × Extent → Prop}, P (a, e) → (∀ y ∈ pre ++ x :: post, P y) →
      ∀ y ∈ pre ++ [x] ++ (a, e) :: post, P y := by
    intro P ha hP
    rw [forall_mem_middle, ← List.append_cons]
    exact ⟨ha, hP⟩
  refine ⟨pre ++ [x], (a, e), post, _, henlist, ?_⟩
  constructor
  case list =>
    rw [List.append_assoc]
    exact hlist
  case gaps =>
    rw [List.append_assoc]
    exact hgaps
  case before =>
    intro y hy
    rcases List.mem_append.mp hy with hy | hy
    · have hyx := hprepost y hy x List.mem_cons_self
      simp only [Gap, Extent.stop] at hyx hgap ⊢
      omega
    · obtain rfl := List.mem_singleton.mp hy
      exact hgap
  case behind => exact hep
  case pos => exact hall hsize hpos
  case small => exact hall hesmall hsmall
  case nodup =>
    have hperm : ((pre ++ [x] ++ (a, e) :: post).map Prod.fst).Perm
        (a :: (pre ++ x :: post).map Prod.fst) := by
      refine (List.perm_middle.map Prod.fst).trans ?_
      simp
    exact hperm.nodup_iff.mpr (List.nodup_cons.mpr ⟨hfresh, hnodup⟩)
  case subset =>
    intro c hc
    obtain ⟨y, hy, rfl⟩ := List.mem_map.mp hc
    exact hall (P := fun y => y.1 = a ∨ y.1 ∈ (pre ++ x :: post).map Prod.fst) (Or.inl rfl)
      (fun y hy => Or.inr (List.mem_map_of_mem hy)) y hy
  case tiles =>
    intro r n _ htiles
    refine tiles_middle.mpr (htiles.perm ?_)
    simp
  case nodes =>
    simp only [Fakemem.store_nodes, List.length_append, List.length_cons, List.length_nil]
    omega
  case frame =>
    intro c hca hc
    refine (Function.update_of_ne ?_ _ _).trans (Function.update_of_ne hca _ _)
    rintro rfl
    exact hc (List.mem_map_of_mem hmem)
  case taken => exact rfl
  case base => exact rfl

omit hnodup hsmall hnew hfresh hesmall in
/-- The search ends between the free blocks before the freed one and those behind it. -/
theorem walkFree_eq (hapart : ∀ x ∈ fs, Extent.Apart e x.2)
    (hbehind : ∃ x ∈ fs, e.start < x.2.start) :
    ∃ pre y post, fs = pre ++ y :: post ∧ (∀ x ∈ pre, x.2.stop ≤ e.start) ∧
      (∀ w ∈ y :: post, e.stop ≤ w.2.start) ∧
      walk m.heap (fun b => decide (b.offset > (mkBlock e r).offset)) (m.nodes + 1) m.freeBlocks
        m.freeBlocks = some (some y.1, (pre.getLast?.map Prod.fst).or m.freeBlocks) := by
  obtain ⟨pre, post, hsplit, hpre, hpost, hwalk⟩ := walk_eq h
    (fun b => decide (b.offset > (mkBlock e r).offset)) (fun x => decide (x.start > e.start))
    (fun _ _ => rfl) (show fs.length < m.nodes + 1 by omega) m.freeBlocks
  have hleft : ∀ x ∈ pre, x.2.stop ≤ e.start := by
    intro x hx
    have hmem : x ∈ fs := hsplit ▸ List.mem_append_left _ hx
    have hle := of_decide_eq_false (hpre x hx)
    have hxpos := hpos x hmem
    have := hapart x hmem
    simp only [Extent.Apart, Extent.stop] at this ⊢
    omega
  cases post with
  | nil =>
    obtain ⟨x, hx, hlt⟩ := hbehind
    rw [hsplit, List.append_nil] at hx
    have := hleft x hx
    simp only [Extent.stop] at this
    omega
  | cons y post =>
    refine ⟨pre, y, post, hsplit, hleft, fun w hw => ?_, hwalk⟩
    have hmem : w ∈ fs := hsplit ▸ List.mem_append_right _ hw
    have hy := of_decide_eq_true (hpost y rfl)
    have hlt : e.start < w.2.start := by
      rcases List.mem_cons.mp hw with rfl | hw
      · exact hy
      · rw [hsplit] at hgaps
        have hgap := (List.pairwise_cons.mp (List.pairwise_append.mp hgaps).2.1).1 w hw
        simp only [Gap, Extent.stop] at hgap
        omega
    have hwpos := hpos w hmem
    have := hapart w hmem
    simp only [Extent.Apart, Extent.stop] at this ⊢
    omega

/-- The freed block is enlisted at its place, unless the head is taken for another node. -/
theorem enlistFree_eq {y : Nat × Extent} {pre post : List (Nat × Extent)}
    (hfs : fs = pre ++ y :: post) (hleft : ∀ x ∈ pre, x.2.stop ≤ e.start)
    (hright : ∀ w ∈ y :: post, e.stop ≤ w.2.start)
    (hfirst : (fs.map Prod.snd).countP (fun f => decide (f.start < e.start)) = 1 →
      ∃ f ∈ (fs.map Prod.snd).head?, f.stop = e.start) :
    ∃ u z v m', m.enlistFree a (some y.1) ((pre.getLast?.map Prod.fst).or m.freeBlocks) =
      some m' ∧ Enlisted m m' a e fs u z v := by
  rcases List.eq_nil_or_concat pre with rfl | ⟨pre, x, rfl⟩
  · obtain hstart : m.freeBlocks = some y.1 := (hfs ▸ h).1
    have hey := hright y List.mem_cons_self
    rw [List.getLast?_nil, Option.map_none, Option.none_or, hstart]
    rcases Nat.eq_or_lt_of_le hey with htouch | hgap
    · exact enlistFree_front_grow h hnodup hgaps hpos hsmall hcount hnew hfresh hsize hesmall hfs
        htouch
    · exact enlistFree_front_link h hnodup hgaps hpos hsmall hcount hnew hfresh hsize hesmall hfs
        hgap
  · rw [List.concat_eq_append] at *
    have hfs' : fs = pre ++ x :: y :: post := by simp [hfs]
    have hxe := hleft x (List.mem_append_right _ List.mem_cons_self)
    have hhead : (y :: post).head?.map Prod.fst = some y.1 := rfl
    rw [List.getLast?_concat, Option.map_some, Option.some_or, ← hhead]
    rcases Nat.eq_or_lt_of_le hxe with htouch | hgap
    · exact enlistFree_grow h hnodup hgaps hpos hsmall hcount hnew hfresh hsize hesmall hfs' htouch
        hright
    · refine enlistFree_link h hnodup hgaps hpos hsmall hcount hnew hfresh hsize hesmall hfs' hgap
        hright ?_
      -- a single free block before the freed one would have to touch it
      rintro rfl
      have hnone : ((y :: post).map Prod.snd).countP (fun f => decide (f.start < e.start)) = 0 := by
        rw [List.countP_eq_zero]
        intro g hg
        obtain ⟨w, hw, rfl⟩ := List.mem_map.mp hg
        have := hright w hw
        simp only [Extent.stop, decide_eq_true_eq] at this ⊢
        omega
      have hone : x.2.start < e.start := by
        simp only [Extent.stop] at hgap
        omega
      rw [hfs', List.nil_append, List.map_cons,
        List.countP_cons_of_pos (by simpa using hone), hnone] at hfirst
      obtain ⟨f, hf, hstop⟩ := hfirst rfl
      obtain rfl : x.2 = f := by simpa using hf
      exact absurd hstop (Nat.ne_of_lt hgap)

/-- A freed block joins the free list, which has gaps again after the compaction. -/
theorem insertFree_eq (hapart : ∀ x ∈ fs, Extent.Apart e x.2)
    (hbehind : ∃ x ∈ fs, e.start < x.2.start)
    (hfirst : (fs.map Prod.snd).countP (fun f => decide (f.start < e.start)) = 1 →
      ∃ f ∈ (fs.map Prod.snd).head?, f.stop = e.start) :
    ∃ fs' m', m.insertFree a = some m' ∧ Seg mkBlock m'.heap m'.freeBlocks fs' none ∧
      fs'.Pairwise Gap ∧ (∀ x ∈ fs', 0 < x.2.size) ∧ (fs'.map Prod.fst).Nodup ∧
      (∀ c ∈ fs'.map Prod.fst, c = a ∨ c ∈ fs.map Prod.fst) ∧
      (∀ r n, (∀ g ∈ r, 0 < g.size) → Extent.Tiles (e :: (fs.map Prod.snd ++ r)) n →
        Extent.Tiles (fs'.map Prod.snd ++ r) n) ∧
      m'.nodes + (fs.length + 1) = m.nodes + fs'.length ∧
      (∀ c, c ≠ a → c ∉ fs.map Prod.fst → m'.heap c = m.heap c) ∧
      m'.taken = m.taken ∧ m'.baseVaddr = m.baseVaddr := by
  obtain ⟨pre, y, post, hfs, hleft, hright, hwalk⟩ :=
    walkFree_eq (r := r) h hgaps hpos hcount hsize hapart hbehind
  obtain ⟨u, z, v, m', heq, hlisted⟩ := enlistFree_eq h hnodup hgaps hpos hsmall hcount hnew hfresh
    hsize hesmall hfs hleft hright hfirst
  obtain ⟨hcgaps, hcpos, hcsub, hctiles⟩ := compactList_gaps hlisted.gaps hlisted.before
    hlisted.behind hlisted.pos
  have hnodes := hlisted.nodes
  obtain ⟨m'', hcompact, hlist, hframe, hcount', hfree, htaken, hbase⟩ := compact_eq hlisted.list
    hlisted.nodup hlisted.small (show (u ++ z :: v).length < m'.nodes + 1 by omega) (by omega)
  refine ⟨compactList (u ++ z :: v), m'', ?_, ?_, hcgaps, hcpos, hcsub.nodup hlisted.nodup, ?_, ?_,
    ?_, ?_, htaken.trans hlisted.taken, hbase.trans hlisted.base⟩
  · simp only [Fakemem.insertFree, hnew, Option.bind_some, hwalk, if_neg (Option.some_ne_none y.1),
      heq]
    exact hcompact
  · rw [hfree]
    exact hlist
  · intro c hc
    exact hlisted.subset c (hcsub.subset hc)
  · intro r n hr htiles
    exact hctiles r n hr (hlisted.tiles r n hr htiles)
  · omega
  · intro c hca hc
    refine (hframe c fun hmem => ?_).trans (hlisted.frame c hca hc)
    rcases hlisted.subset c hmem with rfl | hmem
    · exact hca rfl
    · exact hc hmem

end Freeing

/-! ### The invariant -/

section Invariant

variable {m : Fakemem} {live : List (Nat × Nat)} {fs ts : List (Nat × Extent)}

/-- The two lists with the addresses of their nodes.  Between free blocks there are taken
ones. -/
structure Fakemem.Sound (m : Fakemem) (live : List (Nat × Nat)) (fs ts : List (Nat × Extent)) :
    Prop where
  base : m.baseVaddr ≤ 2 ^ 64
  free : Seg mkBlock m.heap m.freeBlocks fs none
  taken : Seg mkBlock m.heap m.taken ts none
  nodup : ((fs ++ ts).map Prod.fst).Nodup
  count : (fs ++ ts).length ≤ m.nodes
  gaps : fs.Pairwise Gap
  decreasing : (ts.map Prod.snd).Pairwise fun b c => c.start < b.start
  pos : ∀ x ∈ fs ++ ts, 0 < x.2.size
  exact : (ts.map Prod.snd).Perm (live.map fun p => ⟨m.offset p.1, roundUp p.2⟩)
  tiles : Extent.Tiles ((fs ++ ts).map Prod.snd) FAKEMEM_ALLOC_SIZE

theorem Fakemem.sound_init {baseVaddr : Nat} (hbase : baseVaddr < 2 ^ 64) (node : Nat) :
    (fakememInit baseVaddr node).Sound [] [(node, ⟨0, FAKEMEM_ALLOC_SIZE⟩)] [] where
  base := Nat.le_of_lt hbase
  free := ⟨rfl, none, if_pos rfl, rfl⟩
  taken := rfl
  nodup := List.nodup_singleton _
  count := Nat.le_refl 1
  gaps := List.pairwise_singleton ..
  decreasing := List.Pairwise.nil
  pos x hx := by
    obtain rfl := List.mem_singleton.mp hx
    exact (by decide : 0 < FAKEMEM_ALLOC_SIZE)
  exact := List.Perm.nil
  tiles := Extent.tiles_singleton _

theorem Fakemem.Sound.small (h : m.Sound live fs ts) {x : Nat × Extent} (hx : x ∈ fs ++ ts) :
    x.2.stop < 2 ^ 64 := by
  have hstop := h.tiles.stop_le (List.mem_map_of_mem hx) (h.pos x hx)
  have hsize : FAKEMEM_ALLOC_SIZE < 2 ^ 64 := by decide
  omega

theorem Fakemem.Sound.apart (h : m.Sound live fs ts) {x y : Nat × Extent} (hx : x ∈ fs)
    (hy : y ∈ ts) : x.2.Apart y.2 := by
  have hapart := h.tiles.1
  rw [List.map_append, List.pairwise_append] at hapart
  exact hapart.2.2 _ (List.mem_map_of_mem hx) _ (List.mem_map_of_mem hy)

theorem Fakemem.Sound.disjoint (h : m.Sound live fs ts) {a : Nat} (hf : a ∈ fs.map Prod.fst) :
    a ∉ ts.map Prod.fst := by
  have hnodup := h.nodup
  rw [List.map_append, List.nodup_append] at hnodup
  exact fun ht => hnodup.2.2 a hf a ht rfl

theorem Fakemem.Sound.freeList_eq (h : m.Sound live fs ts) :
    m.freeList = some (fs.map Prod.snd) := by
  have hcount := h.count
  rw [List.length_append] at hcount
  exact blocksFrom_eq h.free (by omega)

theorem Fakemem.Sound.takenList_eq (h : m.Sound live fs ts) :
    m.takenList = some (ts.map Prod.snd) := by
  have hcount := h.count
  rw [List.length_append] at hcount
  exact blocksFrom_eq h.taken (by omega)

theorem Fakemem.offset_addrFromOffset (hbase : m.baseVaddr ≤ 2 ^ 64) {off : Nat}
    (hoff : off < 2 ^ 64) : m.offset (m.addrFromOffset off) = off := by
  unfold Fakemem.offset Fakemem.addrFromOffset
  omega

theorem roundSize_eq {size : Nat} (hpos : size ≠ 0) (hsmall : size + 3 < 2 ^ 64) :
    roundSize size = roundUp size := by
  unfold roundSize roundUp FAKEMEM_ALLOC_BLOCK
  omega

theorem Fakemem.offset_congr {m' : Fakemem} (hbase : m'.baseVaddr = m.baseVaddr) :
    m'.offset = m.offset := by
  funext ptr
  unfold Fakemem.offset
  rw [hbase]

/-- A block in the middle of two lists can stand before them. -/
theorem perm_map_middle {α β : Type} (f : α → β) (l pre post : List α) (x : α) :
    ((l ++ (pre ++ x :: post)).map f).Perm (f x :: (l ++ (pre ++ post)).map f) := by
  rw [← List.append_assoc, ← List.append_assoc]
  exact List.perm_middle.map f

/-- A block between the earlier and the later ones keeps the order. -/
theorem decreasing_middle {pre post : List (Nat × Extent)} {x : Nat × Extent}
    (h : ((pre ++ post).map Prod.snd).Pairwise fun b c => c.start < b.start)
    (hpre : ∀ y ∈ pre, x.2.start < y.2.start) (hpost : ∀ y ∈ post, y.2.start < x.2.start) :
    ((pre ++ x :: post).map Prod.snd).Pairwise fun b c => c.start < b.start := by
  rw [List.map_append, List.pairwise_append] at h
  obtain ⟨hleft, hright, hboth⟩ := h
  rw [List.map_append, List.map_cons, List.pairwise_append, List.pairwise_cons]
  refine ⟨hleft, ⟨?_, hright⟩, ?_⟩
  · intro b hb
    obtain ⟨y, hy, rfl⟩ := List.mem_map.mp hb
    exact hpost y hy
  · intro b hb b' hb'
    rcases List.mem_cons.mp hb' with rfl | hb'
    · obtain ⟨y, hy, rfl⟩ := List.mem_map.mp hb
      exact hpre y hy
    · exact hboth b hb b' hb'

/-- A node that does not exist is in no list. -/
theorem notMem_of_heap_none {heap : Nat → Option FakememBlock} {p q : Option Nat} {a : Nat}
    {l : List (Nat × Extent)} (h : Seg mkBlock heap p l q) (ha : heap a = none) :
    a ∉ l.map Prod.fst := by
  intro hmem
  obtain ⟨x, hx, rfl⟩ := List.mem_map.mp hmem
  obtain ⟨r, hr⟩ := h.lookup hx
  rw [ha] at hr
  exact absurd hr (Option.some_ne_none _).symm

/-- The free list and the block that was cut off it. -/
theorem Fakemem.Sound.carved {pre post fs' : List (Nat × Extent)} {x : Nat × Extent}
    {size c nodes : Nat} (h : m.Sound live (pre ++ x :: post) ts) (hpos : 0 < size)
    (hkind : (size = x.2.size ∧ c = x.1 ∧ fs' = pre ++ post ∧ nodes = m.nodes) ∨
      (size < x.2.size ∧ m.heap c = none ∧
        fs' = pre ++ (x.1, ⟨x.2.start + size, x.2.size - size⟩) :: post ∧
        nodes = m.nodes + 1)) :
    (c :: (fs' ++ ts).map Prod.fst).Nodup ∧ (fs' ++ ts).length + 1 ≤ nodes ∧
    (∀ a ∈ fs'.map Prod.fst, a ∈ (pre ++ x :: post).map Prod.fst) ∧ fs'.Pairwise Gap ∧
    (∀ y ∈ fs', 0 < y.2.size) ∧
    Extent.Tiles (⟨x.2.start, size⟩ :: (fs' ++ ts).map Prod.snd) FAKEMEM_ALLOC_SIZE := by
  have hnodup := h.nodup
  have hcount := h.count
  have htiles := h.tiles
  obtain ⟨hpre, hxpost, hprepost⟩ := List.pairwise_append.mp h.gaps
  obtain ⟨hx, hpost⟩ := List.pairwise_cons.mp hxpost
  have hxmem : x ∈ pre ++ x :: post := List.mem_append_right pre List.mem_cons_self
  have hfspos : ∀ y ∈ pre ++ x :: post, 0 < y.2.size :=
    fun y hy => h.pos y (List.mem_append_left ts hy)
  have hmiddle : ((pre ++ x :: post ++ ts).map Prod.snd).Perm
      (x.2 :: (pre ++ post ++ ts).map Prod.snd) := by
    simp only [List.append_assoc, List.cons_append]
    exact List.perm_middle.map Prod.snd
  rcases hkind with ⟨hexact, rfl, rfl, rfl⟩ | ⟨hlarge, hnew, rfl, rfl⟩
  · -- the free block has the very size and leaves its list
    refine ⟨?_, ?_, ?_, ?_, ?_, ?_⟩
    · have hperm : ((pre ++ x :: post ++ ts).map Prod.fst).Perm
          (x.1 :: (pre ++ post ++ ts).map Prod.fst) := by
        simp only [List.append_assoc, List.cons_append]
        exact List.perm_middle.map Prod.fst
      exact hperm.nodup_iff.mp hnodup
    · simp only [List.length_append, List.length_cons] at hcount ⊢
      omega
    · intro a ha
      simp only [List.map_append, List.map_cons, List.mem_append, List.mem_cons] at ha ⊢
      tauto
    · exact List.pairwise_append.mpr
        ⟨hpre, hpost, fun y hy w hw => hprepost y hy w (List.mem_cons_of_mem x hw)⟩
    · intro y hy
      apply hfspos y
      simp only [List.mem_append, List.mem_cons] at hy ⊢
      tauto
    · rw [hexact]
      exact htiles.perm hmiddle
  · -- the front of the free block is cut off, with a new node
    have hfst : (pre ++ (x.1, ⟨x.2.start + size, x.2.size - size⟩) :: post).map Prod.fst =
        (pre ++ x :: post).map Prod.fst := by
      simp
    refine ⟨?_, ?_, ?_, ?_, ?_, ?_⟩
    · rw [List.map_append, hfst, ← List.map_append]
      refine List.nodup_cons.mpr ⟨?_, hnodup⟩
      rw [List.map_append, List.mem_append, not_or]
      exact ⟨notMem_of_heap_none h.free hnew, notMem_of_heap_none h.taken hnew⟩
    · simp only [List.length_append, List.length_cons] at hcount ⊢
      omega
    · intro a ha
      rwa [hfst] at ha
    · refine List.pairwise_append.mpr ⟨hpre, List.pairwise_cons.mpr ⟨?_, hpost⟩, ?_⟩
      · intro y hy
        have hgap := hx y hy
        simp only [Gap, Extent.stop] at hgap ⊢
        omega
      · intro y hy w hw
        rcases List.mem_cons.mp hw with rfl | hw
        · have hgap := hprepost y hy x List.mem_cons_self
          simp only [Gap, Extent.stop] at hgap ⊢
          omega
        · exact hprepost y hy w (List.mem_cons_of_mem x hw)
    · intro y hy
      rcases List.mem_append.mp hy with hy | hy
      · exact hfspos y (List.mem_append_left _ hy)
      · rcases List.mem_cons.mp hy with rfl | hy
        · exact Nat.sub_pos_of_lt hlarge
        · exact hfspos y (List.mem_append_right _ (List.mem_cons_of_mem x hy))
    · refine ((htiles.perm hmiddle).split (Nat.le_of_lt hlarge)).perm (List.Perm.cons _ ?_)
      simp only [List.append_assoc, List.cons_append]
      refine List.Perm.trans ?_ (List.perm_middle.map Prod.snd).symm
      exact List.Perm.refl _

/-- The block that was cut off the free list joins the taken list. -/
theorem Fakemem.Sound.enlist {pre post fs' : List (Nat × Extent)} {x : Nat × Extent}
    {size c : Nat} {r : Option Nat} {m₁ : Fakemem} (h : m.Sound live (pre ++ x :: post) ts)
    (hsize : 0 < size)
    (hkind : (size = x.2.size ∧ c = x.1 ∧ fs' = pre ++ post ∧ m₁.nodes = m.nodes) ∨
      (size < x.2.size ∧ m.heap c = none ∧
        fs' = pre ++ (x.1, ⟨x.2.start + size, x.2.size - size⟩) :: post ∧
        m₁.nodes = m.nodes + 1))
    (hc : m₁.heap c = some (mkBlock ⟨x.2.start, size⟩ r))
    (hfree : Seg mkBlock m₁.heap m₁.freeBlocks fs' none)
    (hframe : ∀ a, a ≠ c → a ∉ (pre ++ x :: post).map Prod.fst → m₁.heap a = m.heap a)
    (htaken : m₁.taken = m.taken) (hbase : m₁.baseVaddr = m.baseVaddr)
    (hfront : (ts.map Prod.snd).countP (fun t => decide (x.2.start < t.start)) ≠ 1) :
    ∃ m₂ ts' s, m₁.enlistTaken c = some m₂ ∧ m₂.heap c = some (mkBlock ⟨x.2.start, size⟩ s) ∧
      m₂.baseVaddr = m.baseVaddr ∧ ∀ p : Nat × Nat, m.offset p.1 = x.2.start →
        roundUp p.2 = size → m₂.Sound (p :: live) fs' ts' := by
  have hxmem : x ∈ pre ++ x :: post := List.mem_append_right pre List.mem_cons_self
  have hnodup := h.nodup
  rw [List.map_append, List.nodup_append] at hnodup
  obtain ⟨hcnodup, hcount, hsub, hgaps, hpos, htiles⟩ := h.carved hsize hkind
  rw [List.nodup_cons, List.map_append, List.mem_append, not_or] at hcnodup
  obtain ⟨⟨hcfree, hctaken⟩, hnodup'⟩ := hcnodup
  rw [List.length_append] at hcount
  have htaken₁ : Seg mkBlock m₁.heap m₁.taken ts none := by
    rw [htaken]
    refine h.taken.congr fun y hy => ?_
    have hyts : y.1 ∈ ts.map Prod.fst := List.mem_map_of_mem hy
    exact hframe y.1 (fun heq => hctaken (heq ▸ hyts)) fun hyfs => h.disjoint hyfs hyts
  -- a free and a taken block do not begin at the same address
  have hne : ∀ y ∈ ts, y.2.start ≠ x.2.start := by
    intro y hy heq
    have hapart := h.apart hxmem hy
    have hypos := h.pos y (List.mem_append_right _ hy)
    have hxpos := h.pos x (List.mem_append_left _ hxmem)
    simp only [Extent.Apart, Extent.stop] at hapart
    omega
  obtain ⟨pt, qt, m₂, rfl, hpt, hqt, henlist, hlist, hframe₂, hfree₂, hnodes₂, hbase₂⟩ :=
    enlistTaken_eq htaken₁ hnodup.2.1 (by omega) hc hctaken h.decreasing hne hfront
  obtain ⟨s, hs⟩ := hlist.lookup (List.mem_append_right pt List.mem_cons_self)
  refine ⟨m₂, pt ++ (c, ⟨x.2.start, size⟩) :: qt, s, henlist, hs, hbase₂.trans hbase, ?_⟩
  rintro ⟨ptr, request⟩ hptr hrequest
  have hperm := fun {α : Type} (f : Nat × Extent → α) =>
    perm_map_middle f fs' pt qt (c, ⟨x.2.start, size⟩)
  constructor
  case base =>
    rw [hbase₂, hbase]
    exact h.base
  case free =>
    rw [hfree₂]
    refine hfree.congr fun y hy => hframe₂ y.1 ?_ ?_
    · rintro rfl
      exact hcfree (List.mem_map_of_mem hy)
    · exact h.disjoint (hsub y.1 (List.mem_map_of_mem hy))
  case taken =>
    exact hlist
  case nodup =>
    refine (hperm Prod.fst).nodup_iff.mpr (List.nodup_cons.mpr ⟨?_, ?_⟩)
    · rw [List.map_append, List.mem_append, not_or]
      exact ⟨hcfree, hctaken⟩
    · rw [List.map_append]
      exact hnodup'
  case count =>
    rw [hnodes₂]
    simp only [List.length_append, List.length_cons] at hcount ⊢
    omega
  case gaps =>
    exact hgaps
  case decreasing =>
    exact decreasing_middle h.decreasing hpt hqt
  case pos =>
    intro y hy
    simp only [List.mem_append, List.mem_cons] at hy
    rcases hy with hy | hy | rfl | hy
    · exact hpos y hy
    · exact h.pos y (List.mem_append_right _ (List.mem_append_left _ hy))
    · exact hsize
    · exact h.pos y (List.mem_append_right _ (List.mem_append_right _ hy))
  case exact =>
    refine (List.perm_middle.map Prod.snd).trans ?_
    rw [List.map_cons, List.map_cons, Fakemem.offset_congr (hbase₂.trans hbase), hptr, hrequest]
    exact h.exact.cons _
  case tiles =>
    exact htiles.perm (hperm Prod.snd).symm

/-- The request fails without effect, or the block leaves the free list for the taken one. -/
theorem Fakemem.Sound.malloc (h : m.Sound live fs ts) {size : Nat} {node : Option Nat}
    (hspares : mallocSpares (fs.map Prod.snd) (ts.map Prod.snd) size)
    (hnode : node.bind m.heap = none) :
    ((∃ errno, m.malloc size node = some (.error errno, m)) ∧
      (size = 0 ∨ (∀ x ∈ fs, x.2.size < roundSize size) ∨ ∃ x ∈ fs, roundSize size < x.2.size)) ∨
    ∃ ptr m' fs' ts', m.malloc size node = some (.ok ptr, m') ∧
      m'.Sound ((ptr, size) :: live) fs' ts' := by
  by_cases hzero : size = 0
  · exact Or.inl ⟨⟨.EINVAL, if_pos hzero⟩, Or.inl hzero⟩
  obtain ⟨hwrap, hfront⟩ := hspares.resolve_left hzero
  have hcount := h.count
  rw [List.length_append] at hcount
  have hnodup := h.nodup
  rw [List.map_append, List.nodup_append] at hnodup
  rcases carve_eq (roundSize size) h.free hnodup.1 (by omega)
    (fun x hx => h.small (List.mem_append_left _ hx)) hnode with
    ⟨hfail, hwhy⟩ | ⟨pre, x, post, fs', c, r, m₁, rfl, hpre, hfit, hcarve, hc, hfree, hkind,
      hframe, htaken, hbase⟩
  · left
    refine ⟨⟨.ENOMEM, (if_neg hzero).trans ?_⟩, Or.inr hwhy⟩
    rw [hfail]
    rfl
  right
  have hround : roundSize size = roundUp size := by
    refine roundSize_eq hzero (hwrap.resolve_right ?_)
    simp
  have hsize : 0 < roundUp size := by
    unfold roundUp
    omega
  rw [hround] at hpre hfit hcarve hc hkind
  have hfind : ((pre ++ x :: post).map Prod.snd).find? (fun b => decide (roundUp size ≤ b.size)) =
      some x.2 := by
    rw [List.map_append, List.map_cons, List.find?_eq_some_iff_append]
    refine ⟨by simpa using hfit, pre.map Prod.snd, post.map Prod.snd, rfl, ?_⟩
    intro b hb
    obtain ⟨y, hy, rfl⟩ := List.mem_map.mp hb
    have := hpre y hy
    simpa using this
  obtain ⟨m₂, ts', s, henlist, hs, hbase₂, hsound⟩ :=
    h.enlist hsize hkind hc hfree hframe htaken hbase (hfront x.2 hfind)
  have hoffset : m.offset (m₂.addrFromOffset x.2.start) = x.2.start := by
    rw [← Fakemem.offset_congr hbase₂]
    apply Fakemem.offset_addrFromOffset
    · rw [hbase₂]
      exact h.base
    · have hsmall := h.small (List.mem_append_left ts
        (List.mem_append_right pre (List.mem_cons_self (a := x) (l := post))))
      simp only [Extent.stop] at hsmall
      omega
  refine ⟨m₂.addrFromOffset x.2.start, m₂, fs', ts', ?_, hsound (_, size) hoffset rfl⟩
  refine (if_neg hzero).trans ?_
  rw [hround, hcarve]
  simp only [Option.bind_some, henlist, hs, Option.map_some]
  rfl

/-- A block leaves the taken list. -/
theorem Fakemem.Sound.unlinkTaken (h : m.Sound live fs ts) {ptr : Nat} {e : Extent}
    (he : e ∈ ts.map Prod.snd) (hstart : e.start = m.offset ptr)
    (hfirst : (ts.map Prod.snd).head?.map Extent.start = some (m.offset ptr) → ts.length = 1) :
    ∃ pre a post, ∃ m₁ : Fakemem, ts = pre ++ (a, e) :: post ∧ m.free ptr = m₁.insertFree a ∧
      Seg mkBlock m₁.heap m₁.taken (pre ++ post) none ∧ m₁.heap a = some (mkBlock e none) ∧
      (∀ c, c ∉ ts.map Prod.fst → m₁.heap c = m.heap c) ∧
      m₁.freeBlocks = m.freeBlocks ∧ m₁.nodes = m.nodes ∧ m₁.baseVaddr = m.baseVaddr := by
  have hcount := h.count
  rw [List.length_append] at hcount
  have hnodup := h.nodup
  rw [List.map_append, List.nodup_append] at hnodup
  have htaken := h.taken
  obtain ⟨pre, post, rfl, hpre, hpost, hwalk⟩ := walk_eq htaken
    (fun b => decide (b.offset = m.offset ptr)) (fun x => decide (x.start = m.offset ptr))
    (fun _ _ => rfl) (show ts.length < m.nodes + 1 by omega) m.taken
  obtain ⟨y, hy, rfl⟩ := List.mem_map.mp he
  cases post with
  | nil =>
    rw [List.append_nil] at hy
    exact absurd hstart (of_decide_eq_false (hpre y hy))
  | cons x post =>
    have hx := of_decide_eq_true (hpost x rfl)
    have hxmem : x ∈ pre ++ x :: post := List.mem_append_right pre List.mem_cons_self
    -- the block that the walk finds by its start is the one that is freed
    have hxy : x.2 = y.2 := by
      have hapart := h.tiles.1
      rw [List.map_append, List.pairwise_append] at hapart
      exact Extent.eq_of_pairwise hapart.2.1 (List.mem_map_of_mem hxmem) he
        (h.pos x (List.mem_append_right _ hxmem)) (h.pos y (List.mem_append_right _ hy))
        (hx.trans hstart.symm)
    rw [← hxy]
    obtain ⟨s, hs⟩ := htaken.lookup hxmem
    have hsome : m.taken ≠ none := by
      rw [htaken.head]
      cases pre <;> exact Option.some_ne_none _
    rcases List.eq_nil_or_concat pre with rfl | ⟨pre, z, rfl⟩
    · -- the only block: the list becomes empty
      have hlength := hfirst (congrArg some hx)
      obtain rfl : post = [] := by
        apply List.length_eq_zero_iff.mp
        simpa using hlength
      obtain ⟨hhead, t, ht, rfl⟩ := htaken
      rw [hs] at ht
      obtain rfl : s = none := congrArg FakememBlock.next (Option.some.inj ht)
      refine ⟨[], x.1, [], { m with taken := none }.store x.1 (mkBlock x.2 none), rfl, ?_, ?_,
        Function.update_self .., ?_, rfl, rfl, rfl⟩
      · refine (if_neg hsome).trans ?_
        have honly : some x.1 = m.taken ∧ (mkBlock x.2 none).next = none := ⟨hhead.symm, rfl⟩
        simp only [hwalk, Option.bind_some, List.head?_cons, Option.map_some, List.getLast?_nil,
          Option.map_none, Option.none_or, hs, if_pos honly]
        rw [Fakemem.setNext_eq (m := { m with taken := none }) hs]
        rfl
      · exact rfl
      · intro c hc
        apply Function.update_of_ne
        rintro rfl
        exact hc List.mem_cons_self
    · -- the block before it gets its successor
      rw [List.concat_eq_append, List.append_assoc, List.singleton_append] at *
      obtain ⟨t, ht, hlist⟩ := htaken.unlink hnodup.2.1
      rw [hs] at ht
      obtain rfl : s = t := congrArg FakememBlock.next (Option.some.inj ht)
      have hzmem : z ∈ pre ++ z :: x :: post := List.mem_append_right pre List.mem_cons_self
      obtain ⟨u, hu⟩ := htaken.lookup hzmem
      have hzx : z.1 ≠ x.1 := by
        intro heq
        exact (notMem_of_nodup_middle hnodup.2.1).2 (heq ▸ List.mem_cons_self)
      have hout : x.1 ∉ (pre ++ z :: post).map Prod.fst := by
        have := (notMem_of_nodup_middle (l := pre ++ [z]) (m := post) (x := x)
          (by simpa using hnodup.2.1))
        simp only [List.map_append, List.map_cons, List.map_nil, List.mem_append,
          List.mem_cons, List.not_mem_nil, or_false] at this ⊢
        tauto
      have hxstore : (m.store z.1 (mkBlock z.2 s)).heap x.1 = some (mkBlock x.2 s) :=
        (Function.update_of_ne (Ne.symm hzx) _ _).trans hs
      refine ⟨pre ++ [z], x.1, post, (m.store z.1 (mkBlock z.2 s)).store x.1 (mkBlock x.2 none),
        by simp, ?_, ?_, Function.update_self .., ?_, rfl, rfl, rfl⟩
      · refine (if_neg hsome).trans ?_
        have hne : some x.1 ≠ some z.1 := fun heq => hzx (Option.some.inj heq).symm
        simp only [hwalk, Option.bind_some, List.head?_cons, Option.map_some,
          List.getLast?_concat, Option.some_or, hs, hne, false_and, if_false, mkBlock_next,
          Fakemem.setNext_eq hu, Fakemem.setNext_eq hxstore]
      · rw [List.append_assoc]
        exact hlist.update hout _
      · intro c hc
        refine (Function.update_of_ne ?_ _ _).trans (Function.update_of_ne ?_ _ _)
        · rintro rfl
          exact hc (List.mem_map_of_mem hxmem)
        · rintro rfl
          exact hc (List.mem_map_of_mem hzmem)

/-- A live block moves from the taken list to the free one. -/
theorem Fakemem.Sound.freed (h : m.Sound live fs ts) {ptr size : Nat}
    (hlive : (ptr, size) ∈ live)
    (hspares : freeSpares (fs.map Prod.snd) (ts.map Prod.snd) (m.offset ptr)) :
    ∃ m' fs' ts', m.free ptr = some m' ∧ m'.Sound (live.erase (ptr, size)) fs' ts' := by
  obtain ⟨hfirst, hbehind, hfront⟩ := hspares
  have he : (⟨m.offset ptr, roundUp size⟩ : Extent) ∈ ts.map Prod.snd :=
    h.exact.mem_iff.mpr (List.mem_map_of_mem (f := fun p => (⟨m.offset p.1, roundUp p.2⟩ : Extent))
      hlive)
  obtain ⟨pre, a, post, m₁, rfl, hfree, hlist, ha, hframe, hfree₁, hnodes₁, hbase₁⟩ :=
    h.unlinkTaken he rfl (by simpa using hfirst)
  have hamem : (a, (⟨m.offset ptr, roundUp size⟩ : Extent)) ∈
      pre ++ (a, ⟨m.offset ptr, roundUp size⟩) :: post :=
    List.mem_append_right pre List.mem_cons_self
  have hataken := List.mem_map_of_mem (f := Prod.fst) hamem
  have hafree : a ∉ fs.map Prod.fst := fun hafs => h.disjoint hafs hataken
  have hcount := h.count
  have hnodup := h.nodup
  have htiles := h.tiles
  have hpermute := fun {α : Type} (f : Nat × Extent → α) =>
    perm_map_middle f fs pre post (a, ⟨m.offset ptr, roundUp size⟩)
  have hnodup' := (hpermute Prod.fst).nodup_iff.mp hnodup
  rw [List.nodup_cons, List.map_append, List.mem_append, not_or, List.nodup_append] at hnodup'
  obtain ⟨⟨-, haother⟩, hfsnodup, htsnodup, hdisjoint⟩ := hnodup'
  -- the free list has not changed yet
  have hfs : Seg mkBlock m₁.heap m₁.freeBlocks fs none := by
    rw [hfree₁]
    exact h.free.congr fun x hx => hframe x.1 (h.disjoint (List.mem_map_of_mem hx))
  have hbehind' : ∃ x ∈ fs, m.offset ptr < x.2.start := by
    obtain ⟨f, hf, hlt⟩ := hbehind
    obtain ⟨x, hx, rfl⟩ := List.mem_map.mp hf
    exact ⟨x, hx, hlt⟩
  simp only [List.length_append, List.length_cons] at hcount
  obtain ⟨fs', m', hinsert, hlist', hgaps, hpos, hnodup'', hsub, htiles', hnodes', hframe',
    htaken', hbase'⟩ := insertFree_eq hfs hfsnodup h.gaps
      (fun x hx => h.pos x (List.mem_append_left _ hx))
      (fun x hx => h.small (List.mem_append_left _ hx)) (by omega) ha hafree
      (h.pos _ (List.mem_append_right _ hamem)) (h.small (List.mem_append_right _ hamem))
      (fun x hx => (h.apart hx hamem).symm) hbehind' hfront
  have hsame : m'.offset = m.offset := Fakemem.offset_congr (hbase'.trans hbase₁)
  refine ⟨m', fs', pre ++ post, hfree.trans hinsert, ?_⟩
  constructor
  case base =>
    rw [hbase', hbase₁]
    exact h.base
  case free =>
    exact hlist'
  case taken =>
    rw [htaken']
    refine hlist.congr fun x hx => hframe' x.1 ?_ ?_
    · intro heq
      have hxmem : x.1 ∈ (pre ++ post).map Prod.fst := List.mem_map_of_mem hx
      exact haother (heq ▸ hxmem)
    · exact fun hxfs => hdisjoint x.1 hxfs x.1 (List.mem_map_of_mem hx) rfl
  case nodup =>
    rw [List.map_append, List.nodup_append]
    refine ⟨hnodup'', htsnodup, fun c hc d hd hcd => ?_⟩
    subst hcd
    rcases hsub c hc with rfl | hc
    · exact haother hd
    · exact hdisjoint c hc c hd rfl
  case count =>
    simp only [List.length_append]
    omega
  case gaps =>
    exact hgaps
  case decreasing =>
    have hdecreasing := h.decreasing
    refine List.Pairwise.sublist ?_ hdecreasing
    rw [List.map_append, List.map_append, List.map_cons]
    exact (List.sublist_cons_self _ _).append_left _
  case pos =>
    intro x hx
    rcases List.mem_append.mp hx with hx | hx
    · exact hpos x hx
    · apply h.pos x
      simp only [List.mem_append, List.mem_cons] at hx ⊢
      tauto
  case exact =>
    rw [hsame]
    have hlive' := (List.perm_cons_erase hlive).map
      fun p => (⟨m.offset p.1, roundUp p.2⟩ : Extent)
    have htaken := (List.perm_middle.map Prod.snd).symm.trans (h.exact.trans hlive')
    exact htaken.cons_inv
  case tiles =>
    rw [List.map_append]
    apply htiles'
    · intro g hg
      obtain ⟨x, hx, rfl⟩ := List.mem_map.mp hg
      apply h.pos x
      simp only [List.mem_append, List.mem_cons] at hx ⊢
      tauto
    · rw [← List.map_append]
      exact htiles.perm (hpermute Prod.snd)

/-- With everything freed the whole space can be requested. -/
theorem Fakemem.Sound.whole (h : m.Sound [] fs ts) (node : Option Nat)
    (hnode : node.bind m.heap = none) :
    ∃ ptr m', m.malloc FAKEMEM_ALLOC_SIZE node = some (.ok ptr, m') := by
  obtain rfl : ts = [] := by
    have hexact := h.exact
    rw [List.map_nil] at hexact
    exact List.map_eq_nil_iff.mp hexact.eq_nil
  have htiles := h.tiles
  rw [List.append_nil] at htiles
  have hlist : fs.map Prod.snd = [⟨0, FAKEMEM_ALLOC_SIZE⟩] := by
    refine htiles.eq_singleton (by decide) ?_ (List.pairwise_map.mpr h.gaps)
    intro e he
    obtain ⟨x, hx, rfl⟩ := List.mem_map.mp he
    exact h.pos x (List.mem_append_left _ hx)
  have hspares : mallocSpares (fs.map Prod.snd) [] FAKEMEM_ALLOC_SIZE :=
    Or.inr ⟨Or.inl (by decide), fun _ _ => by simp⟩
  have hround : roundSize FAKEMEM_ALLOC_SIZE = FAKEMEM_ALLOC_SIZE := by decide
  have hsizes : ∀ x ∈ fs, x.2.size = FAKEMEM_ALLOC_SIZE := by
    intro x hx
    have hmem : x.2 ∈ fs.map Prod.snd := List.mem_map_of_mem hx
    rw [hlist, List.mem_singleton] at hmem
    rw [hmem]
  rcases h.malloc hspares hnode with ⟨-, hzero | hsmall | ⟨x, hx, hlarge⟩⟩ | ⟨ptr, m', -, -,
    hmalloc, -⟩
  · exact absurd hzero (by decide)
  · obtain ⟨x, hx⟩ : ∃ x, x ∈ fs := by
      apply List.exists_mem_of_ne_nil
      rintro rfl
      exact absurd hlist (by decide)
    have hlt := hsmall x hx
    rw [hround, hsizes x hx] at hlt
    exact absurd hlt (Nat.lt_irrefl _)
  · rw [hround, hsizes x hx] at hlarge
    exact absurd hlarge (Nat.lt_irrefl _)
  · exact ⟨ptr, m', hmalloc⟩

theorem Fakemem.Sound.partition (h : m.Sound live fs ts) :
    m.Partition live (fs.map Prod.snd) (ts.map Prod.snd) where
  increasing := by
    refine List.pairwise_map.mpr (h.gaps.imp_of_mem fun {x y} hx _ hgap => ?_)
    have hpos := h.pos x (List.mem_append_left _ hx)
    simp only [Gap, Extent.stop] at hgap
    omega
  decreasing := h.decreasing
  exact := h.exact
  tiles := by
    rw [← List.map_append]
    exact h.tiles
  whole hlive node hnode := by
    subst hlive
    exact h.whole node hnode

/-- A state that is sound for some lists. -/
def FakememRun.Sound (s : FakememRun) : Prop :=
  ∃ m fs ts, s.state = some m ∧ m.Sound s.live fs ts

theorem FakememRun.Sound.step {s t : FakememRun} (hs : s.Sound) {e : FakememEvent}
    (hspares : s.Spares e) (hstep : s.step e = some t) : t.Sound := by
  obtain ⟨m, fs, ts, hstate, h⟩ := hs
  have hfree : m.freeList = some (fs.map Prod.snd) := h.freeList_eq
  have htaken : m.takenList = some (ts.map Prod.snd) := h.takenList_eq
  rw [FakememRun.step, hstate, Option.bind_some] at hstep
  cases e with
  | malloc size node =>
    have hspares := hspares m hstate _ hfree _ htaken
    obtain ⟨⟨-, hnode⟩, hstep⟩ := Option.ite_none_right_eq_some.mp hstep
    rcases h.malloc hspares hnode with ⟨⟨errno, hfail⟩, -⟩ | ⟨ptr, m', fs', ts', hmalloc, h'⟩
    · rw [hfail] at hstep
      obtain rfl := Option.some.inj hstep
      exact ⟨m, fs, ts, rfl, h⟩
    · rw [hmalloc] at hstep
      obtain rfl := Option.some.inj hstep
      exact ⟨m', fs', ts', rfl, h'⟩
  | free ptr size =>
    have hspares := hspares m hstate _ hfree _ htaken
    obtain ⟨hlive, hstep⟩ := Option.ite_none_right_eq_some.mp hstep
    obtain ⟨m', fs', ts', hfreed, h'⟩ := h.freed hlive hspares
    rw [hfreed] at hstep
    obtain rfl := Option.some.inj hstep
    exact ⟨m', fs', ts', rfl, h'⟩

end Invariant

/-- **The fake memory.**  In runs that spare the heads of both lists and the end of the space,
the free and the taken blocks partition the space, and the taken ones are the live ones. -/
theorem fakemem_partitioned (baseVaddr node : Nat) (hbase : baseVaddr < 2 ^ 64)
    (es : List FakememEvent) (s : FakememRun)
    (hexec : Exec (restrict FakememRun.Spares (partialGraph FakememRun.step))
      (FakememRun.new baseVaddr node) es s) : s.Partitioned := by
  have hsound : s.Sound := hexec.invariant FakememRun.Sound
    (fun s e t hs hstep => hs.step hstep.1 hstep.2)
    ⟨_, _, _, rfl, Fakemem.sound_init hbase node⟩
  obtain ⟨m, fs, ts, hstate, h⟩ := hsound
  exact ⟨m, _, _, hstate, h.freeList_eq, h.takenList_eq, h.partition⟩

/-- Three blocks that are freed, the second one first. -/
def fakememRun : List FakememEvent :=
  [.malloc 4 (some 1), .malloc 5 (some 2), .malloc 4 (some 3), .free 1004 5, .free 1000 4,
    .free 1012 4]

theorem fakemem_partitioned_fakememRun :
    ∃ s : FakememRun, s.live = [] ∧ s.Partitioned := by
  have hrun : (fakememRun.foldlM (guarded FakememRun.Spares FakememRun.step)
      (FakememRun.new 1000 0)).any (fun s => decide (s.live = [])) = true := by
    decide +kernel
  obtain ⟨s, hs, hlive⟩ := (Option.any_eq_true _ _).mp hrun
  exact ⟨s, of_decide_eq_true hlive,
    fakemem_partitioned 1000 0 (by decide) fakememRun s (exec_guarded_iff.mpr hs)⟩

/-- Two blocks, of which the second one is freed: the head of the taken list stays a node that
`free` got back, and the first block is lost. -/
theorem fakemem_frees_head :
    ∃ s m, [FakememEvent.malloc 4 (some 1), .malloc 4 (some 2), .free 1004 4].foldlM
        FakememRun.step (FakememRun.new 1000 0) = some s ∧ s.state = some m ∧
      s.live = [(1000, 4)] ∧ m.takenList = none ∧ ¬ s.Partitioned := by
  have hrun : ([FakememEvent.malloc 4 (some 1), .malloc 4 (some 2), .free 1004 4].foldlM
      FakememRun.step (FakememRun.new 1000 0)).any (fun s => decide (s.live = [(1000, 4)]) &&
        s.state.any fun m => decide (m.takenList = none)) = true := by
    decide +kernel
  obtain ⟨s, hs, hfacts⟩ := (Option.any_eq_true _ _).mp hrun
  obtain ⟨hlive, hany⟩ := Bool.and_eq_true_iff.mp hfacts
  obtain ⟨m, hm, htaken⟩ := (Option.any_eq_true _ _).mp hany
  have hnone := of_decide_eq_true htaken
  refine ⟨s, m, hs, hm, of_decide_eq_true hlive, hnone, ?_⟩
  rintro ⟨m', free, taken, hm', -, htaken', -⟩
  obtain rfl : m = m' := Option.some.inj (hm.symm.trans hm')
  rw [hnone] at htaken'
  exact absurd htaken' (Option.some_ne_none _).symm

end TM2C
