-- What context_build_overlap makes of the buffers of a hybrid invoke: they are
-- sorted by their starts, and of each one the part is kept that no buffer before
-- it has.
import PlatformKernel.HybridImages
import PlatformKernel.Lib.Sweep

namespace virtual_fastrpc.hybrid_marshal

open sweep

/-! ## The first loop -/

/-- The end of the range of a buffer in the memory of the user. -/
def Arg.stop (a : Arg) : Nat := a.pv.toNat + a.len.toNat

/-- The range of the buffer is empty, or it ends in the address space. -/
def Arg.Fits (a : Arg) : Prop := a.len ≠ 0 → a.stop < 2 ^ 64

/-- The check of the first loop. -/
theorem Arg.fits_iff (a : Arg) :
    a.Fits ↔ ¬ (a.len ≠ 0 ∧ (a.pv + a.len).toNat ≤ a.pv.toNat) := by
  have hpv := a.pv.isLt
  have hlen := a.len.isLt
  unfold Arg.Fits Arg.stop
  rw [not_and, not_le, BitVec.toNat_add]
  constructor
  · intro h h0
    have hpos := len_pos h0
    have := h h0
    omega
  · intro h h0
    have := h h0
    omega

theorem Arg.Fits.stop_eq {a : Arg} (h : a.Fits) : (a.pv + a.len).toNat = a.stop := by
  have hpv := a.pv.isLt
  unfold Arg.Fits Arg.stop at *
  by_cases h0 : a.len = 0
  · simp [h0]
  · rw [BitVec.toNat_add, Nat.mod_eq_of_lt (h h0)]

/-- The overlap of the buffer `i` before the second loop. -/
def newOverlap (r : Arg × Nat) : Overlap := ⟨r.1.pv.toNat, r.1.stop, r.2, 0, 0, 0⟩

/-- The first loop fails just when a buffer does not fit, and else makes one overlap for each. -/
theorem build_overs_cases (i : Nat) (as : List Arg) :
    ((∀ a ∈ as, a.Fits) ∧ build_overs i as = some ((as.zipIdx i).map newOverlap)) ∨
      ((∃ a ∈ as, ¬ a.Fits) ∧ build_overs i as = none) := by
  induction as generalizing i with
  | nil => exact Or.inl ⟨by simp, rfl⟩
  | cons a as ih =>
    simp only [build_overs]
    by_cases hfits : a.Fits
    · rw [if_neg ((Arg.fits_iff a).mp hfits)]
      rcases ih (i + 1) with ⟨hall, he⟩ | ⟨hbad, he⟩
      · refine Or.inl ⟨List.forall_mem_cons.mpr ⟨hfits, hall⟩, ?_⟩
        rw [he, hfits.stop_eq]
        rfl
      · refine Or.inr ⟨?_, by rw [he]; rfl⟩
        obtain ⟨b, hb, hnot⟩ := hbad
        exact ⟨b, List.mem_cons_of_mem _ hb, hnot⟩
    · rw [if_pos (by rwa [Arg.fits_iff, not_not] at hfits)]
      exact Or.inr ⟨⟨a, List.mem_cons_self, hfits⟩, rfl⟩

/-! ## The second loop -/

/-- The range of the buffer. -/
def Overlap.range (o : Overlap) : Nat × Nat := (o.start, o.stop)

/-- The addresses from `mstart` on and before `mend`. -/
def Overlap.segment (o : Overlap) : Set Nat := Set.Ico o.mstart o.mend

@[simp] theorem merge_over_start (reach : Nat) (o : Overlap) :
    (merge_over reach o).start = o.start := by
  unfold merge_over
  split
  · split <;> rfl
  · rfl

@[simp] theorem merge_over_stop (reach : Nat) (o : Overlap) :
    (merge_over reach o).stop = o.stop := by
  unfold merge_over
  split
  · split <;> rfl
  · rfl

theorem merge_over_segment (reach : Nat) (o : Overlap) :
    (merge_over reach o).segment = cut reach o.range := by
  ext x
  simp only [Overlap.segment, cut, Overlap.range, Set.mem_Ico]
  unfold merge_over
  split
  · split
    · dsimp only
      omega
    · dsimp only
      omega
  · dsimp only
    omega

theorem merge_over_offset (reach : Nat) (o : Overlap) :
    (merge_over reach o).offset = if reach ≤ o.start then 0 else reach - o.start := by
  unfold merge_over
  by_cases h : o.start < reach
  · rw [if_pos h, if_neg (Nat.not_le.mpr h)]
    split <;> rfl
  · rw [if_neg h, if_pos (Nat.le_of_not_lt h)]

theorem merge_reach_eq {o : Overlap} (h : o.start ≤ o.stop) (reach : Nat) :
    merge_reach reach o = max reach o.stop := by
  unfold merge_reach
  split <;> omega

/-- The second loop leaves the buffers in their order. -/
theorem merge_overs_map {β : Type} {f : Overlap → β} (hf : ∀ reach o, f (merge_over reach o) = f o)
    (reach : Nat) (os : List Overlap) : (merge_overs reach os).map f = os.map f := by
  induction os generalizing reach with
  | nil => rfl
  | cons o os ih => simp [merge_overs_cons, hf, ih]

theorem mem_merge_overs {reach : Nat} {os : List Overlap} {o : Overlap}
    (h : o ∈ merge_overs reach os) :
    ∃ reach', ∃ q ∈ os, o = merge_over reach' q := by
  induction os generalizing reach with
  | nil => cases h
  | cons q os ih =>
    rw [merge_overs_cons] at h
    rcases List.mem_cons.mp h with rfl | h
    · exact ⟨reach, q, List.mem_cons_self, rfl⟩
    · obtain ⟨reach', q', hq, he⟩ := ih h
      exact ⟨reach', q', List.mem_cons_of_mem _ hq, he⟩

theorem merge_overs_segments {os : List Overlap} (hle : ∀ o ∈ os, o.start ≤ o.stop) (reach : Nat) :
    (merge_overs reach os).map Overlap.segment = cuts reach (os.map Overlap.range) := by
  induction os generalizing reach with
  | nil => rfl
  | cons o os ih =>
    obtain ⟨ho, hos⟩ := List.forall_mem_cons.mp hle
    rw [merge_overs_cons, List.map_cons, List.map_cons, cuts, merge_over_segment, ih hos,
      merge_reach_eq ho]
    rfl

/-- The offset of an entry is what the ends of the entries before it reach into its buffer. -/
theorem merge_overs_offset {os : List Overlap} (hle : ∀ o ∈ os, o.start ≤ o.stop) (reach : Nat)
    {k : Nat} {o : Overlap} (ho : (merge_overs reach os)[k]? = some o) :
    o.offset = if largest reach ((os.take k).map Overlap.range) ≤ o.start then 0
      else largest reach ((os.take k).map Overlap.range) - o.start := by
  induction os generalizing reach k with
  | nil => cases ho
  | cons q os ih =>
    obtain ⟨hq, hos⟩ := List.forall_mem_cons.mp hle
    rw [merge_overs_cons] at ho
    cases k with
    | zero =>
      cases ho
      simpa [largest] using merge_over_offset reach q
    | succ k =>
      rw [merge_reach_eq hq] at ho
      exact ih hos (max reach q.stop) (by simpa using ho)

/-! ## context_build_overlap -/

/-- What the rest of get_args relies on: the entries are the buffers, lowest start first and of
those highest end first; their segments share no address, are parts of their buffers and have all
addresses of all buffers; and the offset of each is what the buffers before it reach into it. -/
structure Decomposed (args : List Arg) (overps : List Overlap) : Prop where
  perm : (overps.map fun o => (o.raix, o.range)).Perm
    (args.zipIdx.map fun r => (r.2, r.1.pv.toNat, r.1.stop))
  sorted : overps.Pairwise fun a b => a.start < b.start ∨ (a.start = b.start ∧ b.stop ≤ a.stop)
  disjoint : overps.Pairwise fun a b => Disjoint a.segment b.segment
  part : ∀ o ∈ overps, o.segment ⊆ Set.Ico o.start o.stop
  cover : ∀ x, (∃ o ∈ overps, x ∈ o.segment) ↔ ∃ a ∈ args, x ∈ Set.Ico a.pv.toNat a.stop
  offset : ∀ k o, overps[k]? = some o → o.offset =
    if largest 0 ((overps.take k).map Overlap.range) ≤ o.start then 0
      else largest 0 ((overps.take k).map Overlap.range) - o.start

section decomposed

variable {sort : List Overlap → List Overlap} {args : List Arg} {overps : List Overlap}

/-- The list after both loops, for a list that the sort of the kernel has sorted. -/
theorem merge_overs_decomposed {os : List Overlap} (hperm : os.Perm (args.zipIdx.map newOverlap))
    (hsorted : os.Pairwise fun a b => overlap_ptr_cmp a b = true) :
    Decomposed args (merge_overs 0 os) := by
  have hmem : ∀ o, o ∈ os ↔ ∃ r ∈ args.zipIdx, newOverlap r = o := by
    intro o
    rw [hperm.mem_iff, List.mem_map]
  have hle : ∀ o ∈ os, o.start ≤ o.stop := by
    intro o ho
    obtain ⟨r, _, rfl⟩ := (hmem o).mp ho
    exact Nat.le_add_right _ _
  have hrange : (merge_overs 0 os).map Overlap.range = os.map Overlap.range :=
    merge_overs_map (fun reach o => by simp [Overlap.range]) 0 os
  have hsegments := merge_overs_segments hle 0
  have hcmp : (os.map Overlap.range).Pairwise fun r q => r.1 < q.1 ∨ (r.1 = q.1 ∧ q.2 ≤ r.2) := by
    apply List.pairwise_map.mpr
    exact hsorted.imp (fun {a b} hab => (overlap_ptr_cmp_iff a b).mp hab)
  refine ⟨?_, ?_, ?_, ?_, ?_, ?_⟩
  · rw [merge_overs_map (fun reach o => by simp [Overlap.range])]
    have hmap := hperm.map fun o => (o.raix, o.range)
    rwa [List.map_map] at hmap
  · rw [← hrange] at hcmp
    exact List.pairwise_map.mp hcmp
  · have hdisjoint := cuts_disjoint 0 (os.map Overlap.range)
    rw [← hsegments] at hdisjoint
    exact List.pairwise_map.mp hdisjoint
  · intro o ho
    obtain ⟨reach, q, _, rfl⟩ := mem_merge_overs ho
    rw [merge_over_segment, merge_over_start, merge_over_stop]
    exact cut_subset reach q.range
  · intro x
    have hcuts : (∃ s ∈ cuts 0 (os.map Overlap.range), x ∈ s) ↔
        0 ≤ x ∧ ∃ r ∈ os.map Overlap.range, x ∈ Set.Ico r.1 r.2 :=
      mem_cuts_iff (hcmp.imp (fun {a b} hab => by omega)) x
    rw [← hsegments] at hcuts
    simp only [List.mem_map, exists_exists_and_eq_and, Nat.zero_le, true_and] at hcuts
    rw [hcuts]
    constructor
    · rintro ⟨o, ho, hx⟩
      obtain ⟨⟨a, i⟩, hr, rfl⟩ := (hmem o).mp ho
      exact ⟨a, List.mem_zipIdx_iff_getElem?.mp hr |> List.mem_of_getElem?, hx⟩
    · rintro ⟨a, ha, hx⟩
      obtain ⟨i, hi, rfl⟩ := List.getElem_of_mem ha
      exact ⟨_, (hmem _).mpr
        ⟨(args[i], i), List.mem_zipIdx_iff_getElem?.mpr (by simp [hi]), rfl⟩, hx⟩
  · intro k o ho
    have hoffset := merge_overs_offset hle 0 ho
    rwa [List.map_take, ← hrange, ← List.map_take] at hoffset

/-- context_build_overlap fails just when a buffer that is not empty ends behind the address space,
and else it decomposes the buffers. The sort is the one of the kernel. -/
theorem overlaps_are_decomposed (hperm : ∀ os, (sort os).Perm os)
    (hsorted : ∀ os, (sort os).Pairwise fun a b => overlap_ptr_cmp a b = true) :
    (∀ overps, context_build_overlap sort args = some overps → Decomposed args overps) ∧
      (context_build_overlap sort args = none ↔
        ∃ a ∈ args, a.len ≠ 0 ∧ 2 ^ 64 ≤ a.pv.toNat + a.len.toNat) := by
  have hbad : (∃ a ∈ args, ¬ a.Fits) ↔
      ∃ a ∈ args, a.len ≠ 0 ∧ 2 ^ 64 ≤ a.pv.toNat + a.len.toNat := by
    simp only [Arg.Fits, Arg.stop, Classical.not_imp, not_lt]
  rw [← hbad]
  unfold context_build_overlap
  rcases build_overs_cases 0 args with ⟨hall, he⟩ | ⟨hnot, he⟩
  · rw [he]
    refine ⟨?_, ?_⟩
    · intro overps ho
      cases ho
      exact merge_overs_decomposed (hperm _) (hsorted _)
    · constructor
      · exact nofun
      · rintro ⟨a, ha, hn⟩
        exact absurd (hall a ha) hn
  · rw [he]
    exact ⟨nofun, fun _ => hnot, fun _ => rfl⟩

end decomposed

/-- Three buffers, of which the second begins in the first one and the third is empty. -/
theorem three_overlaps_are_decomposed :
    ∃ overps, context_build_overlap sortOverlaps [⟨8, 4, none⟩, ⟨10, 6, none⟩, ⟨9, 0, none⟩] =
        some overps ∧
      overps.map (fun o => (o.raix, o.mstart, o.mend, o.offset)) =
        [(0, 8, 12, 0), (2, 0, 0, 3), (1, 12, 16, 2)] ∧
      Decomposed [⟨8, 4, none⟩, ⟨10, 6, none⟩, ⟨9, 0, none⟩] overps := by
  refine ⟨_, rfl, by decide +kernel, ?_⟩
  exact (overlaps_are_decomposed (fun os => List.perm_insertionSort _ os)
    sortOverlaps_pairwise).1 _ rfl

end virtual_fastrpc.hybrid_marshal
