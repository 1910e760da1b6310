-- Histories of threads: lists of events, each with the thread it belongs to.
-- What one thread did is the part of the history that has its name, and two
-- histories in which every thread did the same hold the same events.
import Mathlib.Data.List.Basic
import Mathlib.Data.List.Perm.Basic

namespace histories

variable {τ α : Type} [DecidableEq τ]

/-- What the thread `r` did, in its order. -/
def of_thread (r : τ) (l : List (τ × α)) : List α :=
  (l.filter (fun e => e.1 = r)).map Prod.snd

@[simp] theorem of_thread_nil (r : τ) : of_thread r ([] : List (τ × α)) = [] := rfl

theorem of_thread_snoc (r q : τ) (l : List (τ × α)) (a : α) :
    of_thread r (l ++ [(q, a)]) = of_thread r l ++ (if q = r then [a] else []) := by
  unfold of_thread
  rw [List.filter_append, List.map_append]
  congr 1
  by_cases h : q = r
  · simp [h]
  · simp [h]

@[simp] theorem of_thread_snoc_self (r : τ) (l : List (τ × α)) (a : α) :
    of_thread r (l ++ [(r, a)]) = of_thread r l ++ [a] := by
  simp [of_thread_snoc]

theorem of_thread_snoc_ne {r q : τ} (h : q ≠ r) (l : List (τ × α)) (a : α) :
    of_thread r (l ++ [(q, a)]) = of_thread r l := by
  simp [of_thread_snoc, h]

/-- How often a thread did the same is seen in what it did. -/
theorem count_of_thread [DecidableEq α] (r : τ) (a : α) (l : List (τ × α)) :
    (of_thread r l).count a = l.count (r, a) := by
  induction l with
  | nil => rfl
  | cons e l ih =>
    obtain ⟨q, b⟩ := e
    unfold of_thread at ih ⊢
    by_cases hq : q = r
    · subst hq
      simp [List.count_cons, ih]
    · simp [hq, ih]

/-- Two histories in which every thread did the same hold the same events. -/
theorem perm_of_threads {l m : List (τ × α)} (h : ∀ r, of_thread r l = of_thread r m) :
    l.Perm m := by
  classical
  rw [List.perm_iff_count]
  rintro ⟨r, a⟩
  rw [← count_of_thread, ← count_of_thread, h]

end histories
