import Mathlib.Data.List.Pairwise

/-!
# Extents of memory

An extent is a range of addresses, given by its start and its size.  Two extents are
apart when they have no address in common.

A list of extents `Tiles` an interval from zero when every address of the interval is in exactly
one of them and they go no further.  Two neighbours may be joined and one may be split in two,
which is all that an allocator does to them.
-/

structure Extent where
  start : Nat
  size : Nat
deriving DecidableEq, Repr

namespace Extent

/-- The first address behind the extent. -/
def stop (e : Extent) : Nat := e.start + e.size

def Apart (e f : Extent) : Prop := e.stop ≤ f.start ∨ f.stop ≤ e.start

instance (e f : Extent) : Decidable (Apart e f) := inferInstanceAs (Decidable (_ ∨ _))

/-- All addresses of `e` are addresses of `f`. -/
def Within (e f : Extent) : Prop := f.start ≤ e.start ∧ e.stop ≤ f.stop

instance (e f : Extent) : Decidable (Within e f) := inferInstanceAs (Decidable (_ ∧ _))

theorem Apart.symm {e f : Extent} (h : Apart e f) : Apart f e := Or.symm h

instance : Std.Symm Apart := ⟨fun _ _ h => h.symm⟩

/-- Parts of extents that are apart are apart. -/
theorem Apart.within {e f e' f' : Extent} (h : Apart e f) (he : Within e' e) (hf : Within f' f) :
    Apart e' f' := by
  unfold Apart Within at *
  omega

theorem within_of_start {e f : Extent} (hstart : e.start = f.start) (hsize : e.size ≤ f.size) :
    Within e f := by
  unfold Within stop
  omega

/-- Some address is in both extents; an empty extent overlaps with nothing. -/
def Overlaps (e f : Extent) : Prop :=
  0 < e.size ∧ 0 < f.size ∧ e.start < f.stop ∧ f.start < e.stop

instance (e f : Extent) : Decidable (Overlaps e f) :=
  inferInstanceAs (Decidable (_ ∧ _ ∧ _ ∧ _))

theorem Overlaps.symm {e f : Extent} (h : Overlaps e f) : Overlaps f e :=
  ⟨h.2.1, h.1, h.2.2.2, h.2.2.1⟩

theorem Apart.not_overlaps {e f : Extent} (h : Apart e f) : ¬ Overlaps e f := by
  unfold Apart Overlaps at *
  omega

/-- Two extents of a list that is pairwise apart are apart, unless they start at the same
address. -/
theorem apart_of_pairwise {l : List Extent} (h : l.Pairwise Apart) {e f : Extent} (he : e ∈ l)
    (hf : f ∈ l) (hne : e.start ≠ f.start) : Apart e f :=
  h.forall he hf fun heq => hne (congrArg start heq)

/-- Extents with an address in common are the same. -/
theorem eq_of_pairwise {l : List Extent} (h : l.Pairwise Apart) {e f : Extent} (he : e ∈ l)
    (hf : f ∈ l) (hpos : 0 < e.size) (hpos' : 0 < f.size) (hstart : e.start = f.start) :
    e = f := by
  by_contra hne
  have hapart := h.forall he hf hne
  unfold Apart stop at hapart
  omega

/-! ### Tilings -/

/-- The extents partition the addresses below `n`. -/
def Tiles (l : List Extent) (n : Nat) : Prop :=
  l.Pairwise Apart ∧ ∀ x, (∃ e ∈ l, e.start ≤ x ∧ x < e.stop) ↔ x < n

variable {l m : List Extent} {n : Nat}

theorem tiles_singleton (n : Nat) : Tiles [⟨0, n⟩] n := by
  refine ⟨List.pairwise_singleton .., fun x => ?_⟩
  simp [stop]

theorem Tiles.perm (h : Tiles l n) (hperm : l.Perm m) : Tiles m n := by
  refine ⟨(hperm.pairwise_iff Apart.symm).mp h.1, fun x => ?_⟩
  rw [← h.2 x]
  simp only [hperm.mem_iff]

theorem Tiles.stop_le (h : Tiles l n) {e : Extent} (he : e ∈ l) (hpos : 0 < e.size) :
    e.stop ≤ n := by
  have hlast := (h.2 (e.stop - 1)).mp ⟨e, he, by unfold stop; omega, by unfold stop; omega⟩
  omega

/-- An extent can be cut in two. -/
theorem Tiles.split {e : Extent} {k : Nat} (h : Tiles (e :: l) n) (hk : k ≤ e.size) :
    Tiles (⟨e.start, k⟩ :: ⟨e.start + k, e.size - k⟩ :: l) n := by
  obtain ⟨hapart, hcover⟩ := h
  obtain ⟨hfirst, hrest⟩ := List.pairwise_cons.mp hapart
  constructor
  · refine List.pairwise_cons.mpr ⟨?_, List.pairwise_cons.mpr ⟨?_, hrest⟩⟩
    · intro f hf
      rcases List.mem_cons.mp hf with rfl | hf
      · exact Or.inl (Nat.le_refl _)
      · refine (hfirst f hf).within ?_ ⟨Nat.le_refl _, Nat.le_refl _⟩
        simp only [Within, stop]
        omega
    · intro f hf
      refine (hfirst f hf).within ?_ ⟨Nat.le_refl _, Nat.le_refl _⟩
      simp only [Within, stop]
      omega
  · intro x
    rw [← hcover x]
    simp only [List.mem_cons, exists_eq_or_imp, stop]
    rw [← or_assoc]
    apply or_congr_left
    omega

/-- Two extents that touch can be joined. -/
theorem Tiles.join {e f : Extent} (h : Tiles (e :: f :: l) n) (htouch : e.stop = f.start)
    (hpos : ∀ g ∈ l, 0 < g.size) : Tiles (⟨e.start, e.size + f.size⟩ :: l) n := by
  obtain ⟨hapart, hcover⟩ := h
  obtain ⟨hfirst, hrest⟩ := List.pairwise_cons.mp hapart
  obtain ⟨hsecond, hrest⟩ := List.pairwise_cons.mp hrest
  constructor
  · refine List.pairwise_cons.mpr ⟨fun g hg => ?_, hrest⟩
    have hleft := hfirst g (List.mem_cons_of_mem _ hg)
    have hright := hsecond g hg
    have hg := hpos g hg
    simp only [Apart, stop] at hleft hright htouch ⊢
    omega
  · intro x
    rw [← hcover x]
    simp only [List.mem_cons, exists_eq_or_imp, stop] at htouch ⊢
    rw [← or_assoc]
    apply or_congr_left
    omega

/-- Extents in order with gaps between them tile only as a single one. -/
theorem Tiles.eq_singleton (h : Tiles l n) (hn : 0 < n) (hpos : ∀ e ∈ l, 0 < e.size)
    (hgaps : l.Pairwise fun e f => e.stop < f.start) : l = [⟨0, n⟩] := by
  have hcovered : ∀ x < n, ∃ e ∈ l, e.start ≤ x ∧ x < e.stop := fun x => (h.2 x).mpr
  cases l with
  | nil =>
    obtain ⟨e, he, -⟩ := hcovered 0 hn
    exact absurd he List.not_mem_nil
  | cons e l =>
    obtain ⟨hfirst, -⟩ := List.pairwise_cons.mp hgaps
    have hstop := h.stop_le List.mem_cons_self (hpos e List.mem_cons_self)
    have hstart : e.start = 0 := by
      obtain ⟨f, hf, hle, -⟩ := hcovered 0 hn
      rcases List.mem_cons.mp hf with rfl | hf
      · omega
      · have := hfirst f hf
        omega
    have hend : e.stop = n := by
      by_contra hne
      obtain ⟨f, hf, hle, hlt⟩ := hcovered e.stop (by omega)
      rcases List.mem_cons.mp hf with rfl | hf
      · omega
      · have := hfirst f hf
        omega
    have hnil : l = [] := by
      apply List.eq_nil_iff_forall_not_mem.mpr
      intro f hf
      have hgap := hfirst f hf
      have hle := h.stop_le (List.mem_cons_of_mem e hf) (hpos f (List.mem_cons_of_mem e hf))
      unfold stop at hgap hle hend
      omega
    obtain ⟨start, size⟩ := e
    simp only [stop] at hstart hend
    subst hstart hnil
    rw [Nat.zero_add] at hend
    rw [hend]

end Extent
