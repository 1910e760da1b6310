-- Ranges of a linear order that are swept in the order of their starts: each one
-- is cut at the largest end of those before it. What is left of the ranges shares
-- no point and has all points of the ranges.
import Mathlib.Order.Interval.Set.Basic
import Mathlib.Order.CompletePartialOrder
import Mathlib.Data.Set.Lattice
import Mathlib.Tactic.Common

namespace sweep

variable {α : Type*} [LinearOrder α]

/-- The range, without the points below `reach`. -/
def cut (reach : α) (r : α × α) : Set α := Set.Ico (max reach r.1) r.2

/-- Each range without the points below `reach` or below the end of a range before it. -/
def cuts : α → List (α × α) → List (Set α)
  | _, [] => []
  | reach, r :: rs => cut reach r :: cuts (max reach r.2) rs

/-- The largest of `reach` and the ends of the ranges. -/
def largest (reach : α) (rs : List (α × α)) : α := rs.foldl (fun m r => max m r.2) reach

theorem largest_lt {reach bound : α} {rs : List (α × α)} (h : reach < bound)
    (hrs : ∀ r ∈ rs, r.2 < bound) : largest reach rs < bound := by
  unfold largest
  induction rs generalizing reach with
  | nil => exact h
  | cons r rs ih =>
    obtain ⟨hr, hrs⟩ := List.forall_mem_cons.mp hrs
    exact ih (max_lt h hr) hrs

theorem cut_subset (reach : α) (r : α × α) : cut reach r ⊆ Set.Ico r.1 r.2 :=
  Set.Ico_subset_Ico_left (le_max_right _ _)

theorem le_of_mem_cuts {reach x : α} {rs : List (α × α)} {s : Set α} (hs : s ∈ cuts reach rs)
    (hx : x ∈ s) : reach ≤ x := by
  induction rs generalizing reach with
  | nil => cases hs
  | cons r rs ih =>
    rcases List.mem_cons.mp hs with rfl | hs
    · exact (le_max_left _ _).trans hx.1
    · exact (le_max_left _ _).trans (ih hs)

theorem cuts_disjoint (reach : α) (rs : List (α × α)) : (cuts reach rs).Pairwise Disjoint := by
  induction rs generalizing reach with
  | nil => exact List.Pairwise.nil
  | cons r rs ih =>
    refine List.Pairwise.cons ?_ (ih _)
    intro s hs
    rw [Set.disjoint_left]
    intro x hx hxs
    have hle : max reach r.2 ≤ x := le_of_mem_cuts hs hxs
    exact absurd hx.2 (not_lt.mpr ((le_max_right _ _).trans hle))

/-- The cuts have the points of the ranges from `reach` on. -/
theorem mem_cuts_iff {reach : α} {rs : List (α × α)} (hsorted : rs.Pairwise (fun a b => a.1 ≤ b.1))
    (x : α) : (∃ s ∈ cuts reach rs, x ∈ s) ↔ reach ≤ x ∧ ∃ r ∈ rs, x ∈ Set.Ico r.1 r.2 := by
  induction rs generalizing reach with
  | nil => simp [cuts]
  | cons r rs ih =>
    obtain ⟨hfirst, hrest⟩ := List.pairwise_cons.mp hsorted
    simp only [cuts, List.mem_cons, exists_eq_or_imp, ih hrest]
    constructor
    · rintro (hx | ⟨hle, q, hq, hx⟩)
      · exact ⟨(le_max_left _ _).trans hx.1, Or.inl (cut_subset reach r hx)⟩
      · exact ⟨(le_max_left _ _).trans hle, Or.inr ⟨q, hq, hx⟩⟩
    · rintro ⟨hle, hx | ⟨q, hq, hx⟩⟩
      · exact Or.inl ⟨max_le hle hx.1, hx.2⟩
      · -- a later range starts behind this one, so it has `x` or ends before it
        have hstart : r.1 ≤ x := (hfirst q hq).trans hx.1
        by_cases hend : x < r.2
        · exact Or.inl ⟨max_le hle hstart, hend⟩
        · exact Or.inr ⟨max_le hle (not_lt.mp hend), q, hq, hx⟩

end sweep
