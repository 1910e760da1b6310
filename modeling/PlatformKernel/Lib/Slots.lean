-- Tables of slots: an array of pointers where a free slot holds none. A new
-- object takes the first free slot of a range, as a loop with a break does.
import Mathlib.Data.List.Basic
import Mathlib.Data.List.Range
import Mathlib.Tactic.Common

namespace slots

/-- The first free slot in `lo, lo + 1, ..., hi - 1`. -/
def firstFree (t : Nat → Option Nat) (lo hi : Nat) : Option Nat :=
  (List.range' lo (hi - lo)).find? (fun i => (t i).isNone)

/-- The first slot below `hi` that holds `p`. -/
def firstHolding (t : Nat → Option Nat) (p hi : Nat) : Option Nat :=
  (List.range hi).find? (fun i => t i == some p)

/-- The table with slot `i` set to `v`. -/
def put (t : Nat → Option Nat) (i : Nat) (v : Option Nat) : Nat → Option Nat :=
  fun j => if j = i then v else t j

/-- Every slot is free. -/
def empty : Nat → Option Nat := fun _ => none

theorem firstFree_some {t : Nat → Option Nat} {lo hi i : Nat} (h : firstFree t lo hi = some i) :
    lo ≤ i ∧ i < hi ∧ t i = none := by
  have hm := List.mem_of_find?_eq_some h
  have hp := List.find?_some h
  rw [List.mem_range'_1] at hm
  exact ⟨hm.1, by omega, by simpa using hp⟩

theorem firstFree_none {t : Nat → Option Nat} {lo hi : Nat} (h : firstFree t lo hi = none) :
    ∀ i, lo ≤ i → i < hi → t i ≠ none := by
  intro i hlo hhi he
  have hm : i ∈ List.range' lo (hi - lo) := by
    rw [List.mem_range'_1]
    omega
  have := List.find?_eq_none.mp h i hm
  simp [he] at this

theorem firstHolding_some {t : Nat → Option Nat} {p hi i : Nat}
    (h : firstHolding t p hi = some i) : i < hi ∧ t i = some p := by
  have hm := List.mem_of_find?_eq_some h
  have hp := List.find?_some h
  exact ⟨List.mem_range.mp hm, by simpa using hp⟩

theorem firstHolding_none {t : Nat → Option Nat} {p hi : Nat} (h : firstHolding t p hi = none) :
    ∀ i < hi, t i ≠ some p := by
  intro i hi he
  have := List.find?_eq_none.mp h i (List.mem_range.mpr hi)
  simp [he] at this

@[simp] theorem put_self (t : Nat → Option Nat) (i : Nat) (v : Option Nat) : put t i v i = v := by
  simp [put]

theorem put_ne {t : Nat → Option Nat} {i j : Nat} {v : Option Nat} (h : j ≠ i) :
    put t i v j = t j := by simp [put, h]

end slots
