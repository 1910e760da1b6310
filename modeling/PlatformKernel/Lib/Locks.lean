-- The order in which one thread takes and releases locks that it may hold only
-- once. A trace is in order when it never takes a lock that it holds and never
-- releases one that it does not hold.
import Mathlib.Data.Finset.Basic

namespace locks

variable {L : Type} [DecidableEq L]

inductive Op (L : Type)
  | lock (l : L)
  | unlock (l : L)
  deriving DecidableEq, Repr

/-- The locks that the thread holds after the trace, or nothing when it is not in order. -/
def play : Finset L → List (Op L) → Option (Finset L)
  | held, [] => some held
  | held, .lock l :: ops => if l ∈ held then none else play (insert l held) ops
  | held, .unlock l :: ops => if l ∈ held then play (held.erase l) ops else none

/-- The trace is in order from these locks, and gives back what it takes. -/
def Neutral (held : Finset L) (ops : List (Op L)) : Prop := play held ops = some held

variable {held : Finset L} {ops : List (Op L)} {l : L}

theorem play_append (held : Finset L) (as bs : List (Op L)) :
    play held (as ++ bs) = (play held as).bind (fun k => play k bs) := by
  induction as generalizing held with
  | nil => rfl
  | cons a as ih =>
    cases a with
    | lock l =>
      simp only [List.cons_append, play]
      split
      · rfl
      · exact ih _
    | unlock l =>
      simp only [List.cons_append, play]
      split
      · exact ih _
      · rfl

@[simp] theorem Neutral.nil : Neutral held ([] : List (Op L)) := rfl

theorem Neutral.append {as bs : List (Op L)} (ha : Neutral held as) (hb : Neutral held bs) :
    Neutral held (as ++ bs) := by
  unfold Neutral at *
  rw [play_append, ha]
  exact hb

/-- A lock around a trace. -/
theorem Neutral.around (hl : l ∉ held) (h : Neutral (insert l held) ops) :
    Neutral held (.lock l :: (ops ++ [.unlock l])) := by
  unfold Neutral at *
  simp only [play, if_neg hl]
  rw [play_append, h]
  simp [play, Finset.erase_insert hl]

/-- A lock around nothing. -/
theorem Neutral.pair (hl : l ∉ held) : Neutral held [.lock l, .unlock l] :=
  @Neutral.around L _ held [] l hl Neutral.nil

/-- A trace that starts with the release of a lock that is not held. -/
theorem not_neutral_unlock (hl : l ∉ held) : ¬ Neutral held (.unlock l :: ops) := by
  unfold Neutral
  simp [play, hl]

end locks
