-- A ring of slots that is written from slot to slot and begins again behind the
-- last one. It keeps the entries that were written last, as many as it has slots.
import Mathlib.Logic.Function.Basic
import Mathlib.Data.List.Basic
import Mathlib.Data.List.Induction

namespace ring_buffer

variable {α : Type}

/-- The slots, and the one that is written next. A slot that was never written is empty. -/
structure RingBuffer (α : Type) where
  slots : Nat → Option α
  index : Nat

def RingBuffer.empty : RingBuffer α := ⟨fun _ => none, 0⟩

/-- A write into a ring of `size` slots. -/
def RingBuffer.put (size : Nat) (r : RingBuffer α) (a : α) : RingBuffer α :=
  ⟨Function.update r.slots r.index (some a), if size - 1 < r.index + 1 then 0 else r.index + 1⟩

/-- The entry `n` of a history stands in the slot `n` modulo the size while it is one of the last
ones, and the slots beyond a short history are empty. -/
structure Keeps (size : Nat) (r : RingBuffer α) (l : List α) : Prop where
  index : r.index = l.length % size
  recent : ∀ n, n < l.length → l.length ≤ n + size → r.slots (n % size) = l[n]?
  unused : ∀ j, l.length ≤ j → j < size → r.slots j = none

theorem keeps_empty (size : Nat) : Keeps size (RingBuffer.empty : RingBuffer α) [] := by
  constructor <;> simp [RingBuffer.empty]

/-- Two numbers that are less than the size apart have two slots. -/
theorem mod_ne {size m n : Nat} (hlt : m < n) (hnear : n < m + size) : m % size ≠ n % size := by
  intro h
  have hm := Nat.div_add_mod m size
  have hn := Nat.div_add_mod n size
  rw [h] at hm
  have hdiff : n = m + size * (n / size - m / size) := by
    rw [Nat.mul_sub]
    have hle : size * (m / size) ≤ size * (n / size) := by omega
    omega
  rcases Nat.eq_zero_or_pos (n / size - m / size) with hz | hz
  · rw [hz] at hdiff
    omega
  · have := Nat.le_mul_of_pos_right size hz
    omega

theorem Keeps.put {size : Nat} {r : RingBuffer α} {l : List α} (hsize : 0 < size)
    (h : Keeps size r l) (a : α) : Keeps size (r.put size a) (l ++ [a]) := by
  have hlt : r.index < size := by
    rw [h.index]
    exact Nat.mod_lt _ hsize
  constructor
  · have hmod : (l.length + 1) % size = if r.index + 1 = size then 0 else r.index + 1 := by
      rw [Nat.add_mod, ← h.index]
      by_cases hone : size = 1
      · subst hone
        simp [show r.index = 0 by omega]
      · rw [Nat.mod_eq_of_lt (show 1 < size by omega)]
        split
        · rename_i heq
          rw [heq, Nat.mod_self]
        · exact Nat.mod_eq_of_lt (by omega)
    rw [List.length_append, List.length_singleton, hmod]
    simp only [RingBuffer.put]
    split <;> split <;> omega
  · intro n hn hnear
    rw [List.length_append, List.length_singleton] at hn hnear
    simp only [RingBuffer.put]
    rcases Nat.lt_or_ge n l.length with hn' | hn'
    · have hne : n % size ≠ r.index := by
        rw [h.index]
        exact mod_ne hn' (by omega)
      rw [Function.update_of_ne hne, List.getElem?_append_left hn']
      exact h.recent n hn' (by omega)
    · obtain rfl : n = l.length := by omega
      rw [← h.index, Function.update_self, List.getElem?_append_right (Nat.le_refl _)]
      simp
  · intro j hj hjs
    rw [List.length_append, List.length_singleton] at hj
    have hne : j ≠ r.index := by
      rw [h.index, Nat.mod_eq_of_lt (by omega)]
      omega
    simp only [RingBuffer.put]
    rw [Function.update_of_ne hne]
    exact h.unused j (by omega) hjs

/-- The entries of a ring from the oldest on. -/
def RingBuffer.entries (size : Nat) (r : RingBuffer α) : List α :=
  (List.range size).filterMap (fun k => r.slots ((r.index + k) % size))

/-- The slot that is `k` behind the one that is written next. -/
theorem Keeps.slot {size : Nat} {r : RingBuffer α} {l : List α} (h : Keeps size r l) {k : Nat}
    (hk : k < size) :
    r.slots ((r.index + k) % size) =
      if l.length + k < size then none else l[l.length + k - size]? := by
  rw [h.index, Nat.mod_add_mod]
  split
  · rename_i hlt
    rw [Nat.mod_eq_of_lt hlt]
    exact h.unused _ (Nat.le_add_right _ _) hlt
  · rename_i hge
    rw [Nat.mod_eq_sub_mod (Nat.not_lt.mp hge)]
    exact h.recent _ (by omega) (by omega)

theorem filterMap_range_getElem? (l : List α) :
    (List.range l.length).filterMap (fun j => l[j]?) = l := by
  induction l using List.reverseRecOn with
  | nil => rfl
  | append_singleton l a ih =>
    rw [List.length_append, List.length_singleton, List.range_succ, List.filterMap_append]
    congr 1
    · conv_rhs => rw [← ih]
      apply List.filterMap_congr
      intro j hj
      exact List.getElem?_append_left (List.mem_range.mp hj)
    · simp

/-- A ring is read as the last entries of its history, in their order. -/
theorem Keeps.entries {size : Nat} {r : RingBuffer α} {l : List α} (h : Keeps size r l) :
    r.entries size = l.drop (l.length - size) := by
  have hslots : r.entries size = (List.range size).filterMap
      (fun k => if l.length + k < size then none else l[l.length + k - size]?) := by
    apply List.filterMap_congr
    intro k hk
    exact h.slot (List.mem_range.mp hk)
  have hrange : List.range size = List.range (size - l.length) ++
      (List.range (l.drop (l.length - size)).length).map (fun j => size - l.length + j) := by
    rw [← List.range_add]
    congr 1
    rw [List.length_drop]
    omega
  have hempty : (List.range (size - l.length)).filterMap
      (fun k => if l.length + k < size then none else l[l.length + k - size]?) = [] := by
    rw [List.filterMap_eq_nil_iff]
    intro k hk
    have := List.mem_range.mp hk
    exact if_pos (by omega)
  rw [hslots, hrange, List.filterMap_append, hempty, List.nil_append, List.filterMap_map]
  conv_rhs => rw [← filterMap_range_getElem? (l.drop (l.length - size))]
  apply List.filterMap_congr
  intro j _
  rw [Function.comp_apply, if_neg (by omega), List.getElem?_drop]
  congr 1
  omega

end ring_buffer
