-- The sleep clock, as msm_timer_get_sclk_ticks_kernel of drivers/boot_marker.c
-- reads it: a read counts when the next one is equal, and at most three times is a
-- zero read again. Unequal reads use up one budget for all three attempts.
import Mathlib.Order.Basic

namespace boot_marker.sleep_clock

/-- What the sleep counter reads, one time after the other. -/
abbrev Reads := Nat → UInt32

/-- The inner loop when it ends: `t1`, how many reads were made, and what is left of
`loop_count`. -/
structure Settled where
  t1 : UInt64
  reads : Nat
  loop_count : Nat
  deriving DecidableEq, Repr

/-- The inner loop, which is never entered with a `loop_count` of 0. -/
def settle (x : Reads) : Nat → UInt64 → Nat → Settled
  | 0, t1, n => ⟨t1, n, 0⟩
  | loop_count + 1, t2, n =>
    let t1 := (x n).toUInt64
    if t2 ≠ t1 then
      if loop_count = 0 then ⟨t1, n + 1, 0⟩ else settle x loop_count t1 (n + 1)
    else ⟨t1, n + 1, loop_count + 1⟩

/-- How the outer loop ends: with no budget left, or with the last value and the count of the
attempts, which its test has counted down once more. -/
inductive Ended
  | unstable
  | read (t1 : UInt64) (loop_zero_count : Int)
  deriving DecidableEq, Repr

/-- The outer loop, from its test on. -/
def attempts (x : Reads) : Nat → UInt64 → Nat → Nat → Ended
  | 0, t1, _, _ => .read t1 (-1)
  | loop_zero_count + 1, _, n, loop_count =>
    let r := settle x loop_count (x n).toUInt64 (n + 1)
    if r.loop_count = 0 then .unstable
    else if r.t1 ≠ 0 then .read r.t1 loop_zero_count
    else attempts x loop_zero_count r.t1 r.reads r.loop_count

def EINVAL : UInt64 := 22

/-- The function, and whether the registers of the counter are mapped. -/
def msm_timer_get_sclk_ticks_kernel (mapped : Bool) (x : Reads) : UInt64 :=
  if mapped then
    match attempts x 3 0 0 10 with
    | .unstable => 0
    | .read t1 loop_zero_count => if loop_zero_count = 0 then 0 else t1
  else -EINVAL

/-! ## The attempts -/

/-- From the read `n` on, the reads `n + j` and `n + j + 1` are the first that are equal. -/
def Stable (x : Reads) (n j : Nat) : Prop :=
  x (n + j) = x (n + j + 1) ∧ ∀ i < j, x (n + i) ≠ x (n + i + 1)

/-- The attempt `k` is made: it begins with the read `n`, and with `b` unequal reads the budget
is used up. -/
inductive Attempt (x : Reads) : Nat → Nat → Nat → Prop
  | first : Attempt x 0 0 10
  | next {k n b j : Nat} : Attempt x k n b → Stable x n j → j < b → x (n + j + 1) = 0 →
      Attempt x (k + 1) (n + j + 2) (b - j)

/-- The attempt `k` obtains the stable value `v`. -/
def Obtains (x : Reads) (k : Nat) (v : UInt32) : Prop :=
  ∃ n b j, Attempt x k n b ∧ Stable x n j ∧ j < b ∧ x (n + j + 1) = v

/-- One of the three attempts uses up the budget. -/
def Exhausted (x : Reads) : Prop := ∃ k < 3, ∃ n b, Attempt x k n b ∧ ∀ j < b, ¬ Stable x n j

/-- The function returns the first stable value that is not zero, and returns 0 only when there
is none. -/
def ReadsFirst (x : Reads) (ticks : UInt64) : Prop :=
  (∀ k < 3, ∀ v, v ≠ 0 → Obtains x k v → ticks = v.toUInt64) ∧
    (ticks = 0 → Exhausted x ∨ ∀ k < 3, Obtains x k 0)

theorem toUInt64_inj {a b : UInt32} (h : a.toUInt64 = b.toUInt64) : a = b :=
  UInt32.toNat_inj.mp (by simpa using congrArg UInt64.toNat h)

theorem Stable.unique {x : Reads} {n i j : Nat} (hi : Stable x n i) (hj : Stable x n j) :
    i = j := by
  rcases Nat.lt_trichotomy i j with h | h | h
  · exact absurd hi.1 (hj.2 i h)
  · exact h
  · exact absurd hj.1 (hi.2 j h)

theorem Stable.succ {x : Reads} {n j : Nat} (hne : x n ≠ x (n + 1)) (h : Stable x (n + 1) j) :
    Stable x n (j + 1) := by
  refine ⟨by rw [show n + (j + 1) = n + 1 + j by omega]; exact h.1, ?_⟩
  intro i hi
  cases i with
  | zero => exact hne
  | succ i =>
    rw [show n + (i + 1) = n + 1 + i by omega]
    exact h.2 i (by omega)

theorem Stable.pred {x : Reads} {n j : Nat} (hne : x n ≠ x (n + 1)) (h : Stable x n j) :
    ∃ i, j = i + 1 ∧ Stable x (n + 1) i := by
  cases j with
  | zero => exact absurd h.1 hne
  | succ i =>
    refine ⟨i, rfl, by rw [show n + 1 + i = n + (i + 1) by omega]; exact h.1, ?_⟩
    intro k hk
    rw [show n + 1 + k = n + (k + 1) by omega]
    exact h.2 (k + 1) (by omega)

/-- Each attempt begins in one way only. -/
theorem Attempt.unique {x : Reads} {k n b n' b' : Nat} (h : Attempt x k n b)
    (h' : Attempt x k n' b') : n = n' ∧ b = b' := by
  induction h generalizing n' b' with
  | first =>
    cases h'
    exact ⟨rfl, rfl⟩
  | next _ hs _ _ ih =>
    cases h' with
    | next ha hs' _ _ =>
      obtain ⟨rfl, rfl⟩ := ih ha
      obtain rfl := hs.unique hs'
      exact ⟨rfl, rfl⟩

theorem Attempt.obtains_iff {x : Reads} {k n b : Nat} (h : Attempt x k n b) (v : UInt32) :
    Obtains x k v ↔ ∃ j < b, Stable x n j ∧ x (n + j + 1) = v := by
  constructor
  · rintro ⟨n', b', j, ha, hs, hj, hv⟩
    obtain ⟨rfl, rfl⟩ := h.unique ha
    exact ⟨j, hj, hs, hv⟩
  · rintro ⟨j, hj, hs, hv⟩
    exact ⟨n, b, j, h, hs, hj, hv⟩

theorem Obtains.unique {x : Reads} {k : Nat} {v w : UInt32} (hv : Obtains x k v)
    (hw : Obtains x k w) : v = w := by
  obtain ⟨n, b, j, ha, hs, _, rfl⟩ := hv
  obtain ⟨i, _, hs', rfl⟩ := (ha.obtains_iff w).mp hw
  obtain rfl := hs.unique hs'
  rfl

/-- An attempt after one that did not obtain a zero is not made. -/
theorem Obtains.before {x : Reads} {k l : Nat} {v : UInt32} (h : Obtains x l v) (hlt : k < l) :
    Obtains x k 0 := by
  obtain ⟨n, b, j, ha, _⟩ := h
  have hmade : ∀ {m n b}, Attempt x m n b → k < m → Obtains x k 0 := by
    intro m n b ha
    induction ha with
    | first => exact fun h => absurd h (Nat.not_lt_zero k)
    | @next m n b j ha hs hj hz ih =>
      intro hm
      rcases Nat.lt_or_eq_of_le (Nat.le_of_lt_succ hm) with hm | rfl
      · exact ih hm
      · exact ⟨n, b, j, ha, hs, hj, hz⟩
  exact hmade ha hlt

/-! ## The loops -/

/-- The inner loop ends with the first two equal reads, or with the budget. -/
theorem settle_cases (x : Reads) (b n : Nat) (hb : 0 < b) :
    (∃ j < b, Stable x n j ∧
      settle x b (x n).toUInt64 (n + 1) = ⟨(x (n + j + 1)).toUInt64, n + j + 2, b - j⟩) ∨
    ((∀ j < b, ¬ Stable x n j) ∧ (settle x b (x n).toUInt64 (n + 1)).loop_count = 0) := by
  induction b generalizing n with
  | zero => omega
  | succ b ih =>
    rw [settle]
    by_cases heq : x n = x (n + 1)
    · have hs : Stable x n 0 := ⟨heq, fun i hi => absurd hi (Nat.not_lt_zero i)⟩
      refine Or.inl ⟨0, by omega, hs, ?_⟩
      simp [heq]
    · have hne : (x n).toUInt64 ≠ (x (n + 1)).toUInt64 := fun h => heq (toUInt64_inj h)
      simp only [if_pos hne]
      by_cases h0 : b = 0
      · refine Or.inr ⟨?_, by simp [h0]⟩
        intro j hj hs
        obtain ⟨i, rfl, _⟩ := hs.pred heq
        omega
      · rw [if_neg h0]
        rcases ih (n + 1) (by omega) with ⟨j, hj, hs, he⟩ | ⟨hnone, he⟩
        · refine Or.inl ⟨j + 1, by omega, hs.succ heq, ?_⟩
          rw [he, show n + 1 + j = n + (j + 1) by omega, show b - j = b + 1 - (j + 1) by omega]
        · refine Or.inr ⟨?_, he⟩
          intro j hj hs
          obtain ⟨i, rfl, hnext⟩ := hs.pred heq
          exact hnone i (by omega) hnext

/-- One turn of the outer loop: the budget is used up, or the attempt obtains a value, with
which the loop ends, or a zero, after which the next attempt is made. -/
theorem attempts_cases {x : Reads} {k n b : Nat} (ha : Attempt x k n b) (hb : 0 < b) (t1 : UInt64)
    (z : Nat) :
    ((∀ j < b, ¬ Stable x n j) ∧ attempts x (z + 1) t1 n b = .unstable) ∨
    (∃ v, v ≠ 0 ∧ Obtains x k v ∧ attempts x (z + 1) t1 n b = .read v.toUInt64 z) ∨
    (Obtains x k 0 ∧ ∃ n' b', 0 < b' ∧ Attempt x (k + 1) n' b' ∧
      attempts x (z + 1) t1 n b = attempts x z 0 n' b') := by
  rw [attempts]
  rcases settle_cases x b n hb with ⟨j, hj, hs, he⟩ | ⟨hnone, he⟩
  · rw [he]
    simp only [show b - j ≠ 0 by omega, if_false]
    by_cases hv : x (n + j + 1) = 0
    · refine Or.inr
        (Or.inr ⟨⟨n, b, j, ha, hs, hj, hv⟩, n + j + 2, b - j, by omega, ha.next hs hj hv, ?_⟩)
      rw [hv]
      rfl
    · have hne : (x (n + j + 1)).toUInt64 ≠ 0 := fun h => hv (toUInt64_inj (b := 0) h)
      exact Or.inr (Or.inl ⟨_, hv, ⟨n, b, j, ha, hs, hj, rfl⟩, if_pos hne⟩)
  · exact Or.inl ⟨hnone, if_pos he⟩

/-- When an attempt uses up the budget, no attempt obtains a value but a zero. -/
theorem zero_of_exhausted {x : Reads} {k n b : Nat} (ha : Attempt x k n b)
    (hnone : ∀ j < b, ¬ Stable x n j) {l : Nat} {v : UInt32} (hv : Obtains x l v) : v = 0 := by
  have hk : ∀ w, ¬ Obtains x k w := by
    intro w hw
    obtain ⟨j, hj, hs, _⟩ := (ha.obtains_iff w).mp hw
    exact hnone j hj hs
  rcases Nat.lt_trichotomy l k with hlt | rfl | hlt
  · cases ha with
    | first => omega
    | @next m n b j ha hs hj hz =>
      have hm : Obtains x m 0 := ⟨n, b, j, ha, hs, hj, hz⟩
      rcases Nat.lt_or_eq_of_le (Nat.le_of_lt_succ hlt) with hlt | rfl
      · exact hv.unique (hm.before hlt)
      · exact hv.unique hm
  · exact absurd hv (hk v)
  · exact absurd (hv.before hlt) (hk 0)

/-- What the function returns when the registers are mapped: nothing stable, the stable value
of one attempt, which it loses when this is the last one, or three zeros. -/
theorem ticks_cases (x : Reads) :
    (Exhausted x ∧ msm_timer_get_sclk_ticks_kernel true x = 0 ∧ ∀ k v, Obtains x k v → v = 0) ∨
    (∃ k < 3, ∃ v, v ≠ 0 ∧ Obtains x k v ∧
      msm_timer_get_sclk_ticks_kernel true x = if k = 2 then 0 else v.toUInt64) ∨
    ((∀ k < 3, Obtains x k 0) ∧ msm_timer_get_sclk_ticks_kernel true x = 0) := by
  simp only [msm_timer_get_sclk_ticks_kernel, if_true]
  rcases attempts_cases (Attempt.first (x := x)) (by decide) 0 2 with
    ⟨hnone, he⟩ | ⟨v, hv, h0, he⟩ | ⟨h0, n1, b1, hb1, ha1, he⟩
  · rw [he]
    exact Or.inl ⟨⟨0, by decide, 0, 10, .first, hnone⟩, rfl,
      fun _ _ => zero_of_exhausted .first hnone⟩
  · rw [he]
    exact Or.inr (Or.inl ⟨0, by decide, v, hv, h0, rfl⟩)
  rw [he]
  rcases attempts_cases ha1 hb1 0 1 with ⟨hnone, he⟩ | ⟨v, hv, h1, he⟩ | ⟨h1, n2, b2, hb2, ha2, he⟩
  · rw [he]
    exact Or.inl ⟨⟨1, by decide, n1, b1, ha1, hnone⟩, rfl, fun _ _ => zero_of_exhausted ha1 hnone⟩
  · rw [he]
    exact Or.inr (Or.inl ⟨1, by decide, v, hv, h1, rfl⟩)
  rw [he]
  rcases attempts_cases ha2 hb2 0 0 with ⟨hnone, he⟩ | ⟨v, hv, h2, he⟩ | ⟨h2, n3, b3, _, _, he⟩
  · rw [he]
    exact Or.inl ⟨⟨2, by decide, n2, b2, ha2, hnone⟩, rfl, fun _ _ => zero_of_exhausted ha2 hnone⟩
  · rw [he]
    exact Or.inr (Or.inl ⟨2, by decide, v, hv, h2, rfl⟩)
  · rw [he]
    refine Or.inr (Or.inr ⟨?_, rfl⟩)
    intro k hk
    obtain rfl | rfl | rfl : k = 0 ∨ k = 1 ∨ k = 2 := by omega
    · exact h0
    · exact h1
    · exact h2

/-- The function does what it should exactly when the third attempt obtains no value but a
zero. -/
theorem reads_first_iff (x : Reads) :
    ReadsFirst x (msm_timer_get_sclk_ticks_kernel true x) ↔ ∀ v, Obtains x 2 v → v = 0 := by
  constructor
  · intro h v hv
    by_contra hne
    have hreturned := h.1 2 (by decide) v hne hv
    rcases ticks_cases x with ⟨_, _, hzero⟩ | ⟨k, hk, w, hw, hk', hticks⟩ | ⟨hall, _⟩
    · exact hne (hzero 2 v hv)
    · have hlast : k = 2 := by
        by_contra hk2
        exact hw (hk'.unique (hv.before (by omega)))
      rw [hticks, if_pos hlast] at hreturned
      exact hne (toUInt64_inj (b := 0) hreturned.symm)
    · exact hne (hv.unique (hall 2 (by decide)))
  · intro hlast
    rcases ticks_cases x with ⟨hex, hticks, hzero⟩ | ⟨k, hk, w, hw, hk', hticks⟩ | ⟨hall, hticks⟩
    · exact ⟨fun l _ v hne hv => absurd (hzero l v hv) hne, fun _ => Or.inl hex⟩
    · have hk2 : k ≠ 2 := by
        rintro rfl
        exact hw (hlast w hk')
      rw [if_neg hk2] at hticks
      refine ⟨?_, ?_⟩
      · intro l _ v hne hv
        rcases Nat.lt_trichotomy k l with hlt | rfl | hlt
        · exact absurd (hk'.unique (hv.before hlt)) hw
        · rw [hticks, hv.unique hk']
        · exact absurd (hv.unique (hk'.before hlt)) hne
      · intro h0
        rw [hticks] at h0
        exact absurd (toUInt64_inj (b := 0) h0) hw
    · exact ⟨fun l hl v hne hv => absurd (hv.unique (hall l hl)) hne, fun _ => Or.inr hall⟩

/-- The counter reads zero four times and then 7. -/
def late : Reads := fun n => if n < 4 then 0 else 7

/-- The third attempt obtains a 7, and the function returns 0. -/
theorem the_last_attempt_is_lost :
    Obtains late 2 7 ∧ ¬ ReadsFirst late (msm_timer_get_sclk_ticks_kernel true late) := by
  have hstable : ∀ n, late n = late (n + 1) → Stable late n 0 :=
    fun n h => ⟨h, fun i hi => absurd hi (Nat.not_lt_zero i)⟩
  have hfirst := (Attempt.first (x := late)).next (hstable 0 rfl) (by decide) rfl
  have hsecond := hfirst.next (hstable 2 rfl) (by decide) rfl
  have hthird : Obtains late 2 7 := ⟨4, 10, 0, hsecond, hstable 4 rfl, by decide, rfl⟩
  refine ⟨hthird, fun h => ?_⟩
  have hreturned := h.1 2 (by decide) 7 (by decide) hthird
  exact absurd hreturned (by decide)

end boot_marker.sleep_clock
