import Mathlib.Data.List.Nodup
import Mathlib.Logic.Function.Basic

/-!
# Linked lists in a heap

A heap maps addresses to nodes, and a node consists of a content and a pointer to the next
node.  `Seg mk heap p l q` says that the pointers lead from `p` through the nodes `l`, given
by their addresses and contents, to `q`; with `none` for `q` it is a whole list.

Segments join at a node and come apart there (`seg_append`).  Inserting a node and unlinking one
are each a single update of the pointer before it; what is needed is that addresses are not
repeated, and `Seg.congr` says that updates elsewhere leave the segment as it is.
-/

namespace LinkedList

variable {π ν β : Type*} {mk : β → Option π → ν} {heap heap' : π → Option ν}
  {p q r : Option π} {a : π} {b : β} {l m : List (π × β)}

/-- `mk b r` is the node with the content `b` and the pointer `r`. -/
def Seg (mk : β → Option π → ν) (heap : π → Option ν) :
    Option π → List (π × β) → Option π → Prop
  | p, [], q => p = q
  | p, (a, b) :: l, q => p = some a ∧ ∃ r, heap a = some (mk b r) ∧ Seg mk heap r l q

@[simp] theorem seg_nil : Seg mk heap p [] q ↔ p = q := Iff.rfl

@[simp] theorem seg_cons :
    Seg mk heap p ((a, b) :: l) q ↔
      p = some a ∧ ∃ r, heap a = some (mk b r) ∧ Seg mk heap r l q := Iff.rfl

theorem seg_append :
    Seg mk heap p (l ++ m) q ↔ ∃ r, Seg mk heap p l r ∧ Seg mk heap r m q := by
  induction l generalizing p with
  | nil => simp
  | cons x l ih =>
    obtain ⟨a, b⟩ := x
    rw [List.cons_append, seg_cons]
    constructor
    · rintro ⟨hp, s, hs, hrest⟩
      obtain ⟨r, hl, hm⟩ := ih.mp hrest
      exact ⟨r, ⟨hp, s, hs, hl⟩, hm⟩
    · rintro ⟨r, ⟨hp, s, hs, hl⟩, hm⟩
      exact ⟨hp, s, hs, ih.mpr ⟨r, hl, hm⟩⟩

/-- A list begins at its first node. -/
theorem Seg.head (h : Seg mk heap p l none) : p = l.head?.map Prod.fst := by
  cases l with
  | nil => exact h
  | cons x l => exact h.1

/-- The nodes of a segment are in the heap. -/
theorem Seg.lookup (h : Seg mk heap p l q) {x : π × β} (hx : x ∈ l) :
    ∃ r, heap x.1 = some (mk x.2 r) := by
  induction l generalizing p with
  | nil => exact absurd hx List.not_mem_nil
  | cons y l ih =>
    obtain ⟨-, r, hr, hrest⟩ := h
    rcases List.mem_cons.mp hx with rfl | hx
    · exact ⟨r, hr⟩
    · exact ih hrest hx

/-- A segment depends on its own nodes only. -/
theorem Seg.congr (h : Seg mk heap p l q) (heq : ∀ x ∈ l, heap' x.1 = heap x.1) :
    Seg mk heap' p l q := by
  induction l generalizing p with
  | nil => exact h
  | cons x l ih =>
    obtain ⟨hp, r, hr, hrest⟩ := h
    refine ⟨hp, r, (heq x List.mem_cons_self).trans hr, ih hrest ?_⟩
    intro y hy
    exact heq y (List.mem_cons_of_mem x hy)

theorem notMem_of_nodup_middle {x : π × β} (h : ((l ++ x :: m).map Prod.fst).Nodup) :
    x.1 ∉ l.map Prod.fst ∧ x.1 ∉ m.map Prod.fst := by
  rw [List.map_append, List.map_cons, List.nodup_middle, List.nodup_cons, List.mem_append,
    not_or] at h
  exact h.1

/-- What holds of a node and of the others holds of all. -/
theorem forall_mem_middle {α : Type*} {P : α → Prop} {l m : List α} {x : α} :
    (∀ y ∈ l ++ x :: m, P y) ↔ P x ∧ ∀ y ∈ l ++ m, P y := by
  rw [List.forall_mem_append, List.forall_mem_cons, List.forall_mem_append, and_left_comm]

section Update

variable [DecidableEq π]

/-- A store elsewhere leaves a segment alone. -/
theorem Seg.update (h : Seg mk heap p l q) (ha : a ∉ l.map Prod.fst) (n : Option ν) :
    Seg mk (Function.update heap a n) p l q := by
  apply h.congr
  intro x hx
  apply Function.update_of_ne
  rintro rfl
  exact ha (List.mem_map_of_mem hx)

/-- A store to the first node. -/
theorem Seg.update_first (h : Seg mk heap p ((a, b) :: l) q) (ha : a ∉ l.map Prod.fst) (b' : β) :
    ∃ r, heap a = some (mk b r) ∧
      Seg mk (Function.update heap a (some (mk b' r))) p ((a, b') :: l) q := by
  obtain ⟨hp, r, hr, hrest⟩ := h
  exact ⟨r, hr, hp, r, Function.update_self .., hrest.update ha _⟩

/-- A new node behind another one. -/
theorem Seg.insert {c : π} {d : β} (h : Seg mk heap p (l ++ (a, b) :: m) q)
    (hnodup : ((l ++ (a, b) :: m).map Prod.fst).Nodup)
    (hc : c ∉ (l ++ (a, b) :: m).map Prod.fst) :
    ∃ s, heap a = some (mk b s) ∧ Seg mk heap s m q ∧
      Seg mk (Function.update (Function.update heap c (some (mk d s))) a (some (mk b (some c)))) p
        (l ++ (a, b) :: (c, d) :: m) q := by
  obtain ⟨hal, ham⟩ := notMem_of_nodup_middle hnodup
  rw [List.map_append, List.map_cons, List.mem_append, List.mem_cons, not_or, not_or] at hc
  obtain ⟨hcl, hca, hcm⟩ := hc
  obtain ⟨t, hl, ht, s, hs, hm⟩ := seg_append.mp h
  refine ⟨s, hs, hm, seg_append.mpr ⟨t, (hl.update hcl _).update hal _, ht, some c,
    Function.update_self .., rfl, s, ?_, (hm.update hcm _).update ham _⟩⟩
  rw [Function.update_of_ne hca, Function.update_self]

/-- The node behind another one is taken out; it keeps its pointer. -/
theorem Seg.unlink {c : π} {d : β} (h : Seg mk heap p (l ++ (a, b) :: (c, d) :: m) q)
    (hnodup : ((l ++ (a, b) :: (c, d) :: m).map Prod.fst).Nodup) :
    ∃ s, heap c = some (mk d s) ∧
      Seg mk (Function.update heap a (some (mk b s))) p (l ++ (a, b) :: m) q := by
  obtain ⟨hal, ham⟩ := notMem_of_nodup_middle hnodup
  rw [List.map_cons, List.mem_cons, not_or] at ham
  obtain ⟨t, hl, ht, u, -, -, s, hs, hm⟩ := seg_append.mp h
  exact ⟨s, hs, seg_append.mpr ⟨t, hl.update hal _, ht, s, Function.update_self ..,
    hm.update ham.2 _⟩⟩

end Update

end LinkedList
