-- The completions of the Linux kernel: a count of the wake-ups that no waiter
-- has taken yet. The largest count stands for any number of them, so a waiter
-- that takes one of these leaves the count as it is.
import Mathlib.Algebra.Group.Nat.Defs
import Mathlib.Tactic.Common

namespace completion

def UINT_MAX : Nat := 2 ^ 32 - 1

structure Completion where
  done : Nat
  deriving DecidableEq, Repr

def init_completion : Completion := ⟨0⟩

def reinit_completion (_ : Completion) : Completion := ⟨0⟩

def complete (c : Completion) : Completion := if c.done = UINT_MAX then c else ⟨c.done + 1⟩

def complete_all (_ : Completion) : Completion := ⟨UINT_MAX⟩

/-- What a waiter does when it goes on: it takes one wake-up. With none there it stays
blocked. -/
def take (c : Completion) : Option Completion :=
  if c.done = 0 then none else if c.done = UINT_MAX then some c else some ⟨c.done - 1⟩

theorem complete_done {c : Completion} (h : c.done + 1 < UINT_MAX) :
    (complete c).done = c.done + 1 := by
  unfold complete
  split
  · omega
  · rfl

theorem take_pos {c d : Completion} (h : take c = some d) : 0 < c.done := by
  unfold take at h
  split at h
  · cases h
  · omega

/-- A wake-up that is not one of any number is gone when a waiter has taken it. -/
theorem take_done {c d : Completion} (h : take c = some d) (hc : c.done < UINT_MAX) :
    d.done + 1 = c.done := by
  have hpos := take_pos h
  unfold take at h
  split at h
  · cases h
  · split at h
    · omega
    · cases h
      show c.done - 1 + 1 = c.done
      omega

end completion
