-- A notifier chain of the kernel: a list of blocks, those of a higher priority
-- first. A call of the chain goes through the blocks in their order, and ends
-- behind the first one whose answer stops it.
import Mathlib.Data.List.Basic

namespace notifier_chain

/-- The bit of an answer that stops the chain. -/
def NOTIFY_STOP_MASK : BitVec 32 := 0x8000

variable {α : Type} [DecidableEq α]

/-- A block goes before the first one of a lower priority. One that is on the chain stays where it
is. -/
def register (priority : α → Int) (nb : α) : List α → List α
  | [] => [nb]
  | b :: chain =>
    if b = nb then b :: chain
    else if priority b < priority nb then nb :: b :: chain
    else b :: register priority nb chain

def unregister (nb : α) (chain : List α) : List α := chain.filter (fun b => b ≠ nb)

/-- The blocks that a call reaches. -/
def call (answer : α → BitVec 32) : List α → List α
  | [] => []
  | b :: chain =>
    if answer b &&& NOTIFY_STOP_MASK ≠ 0 then [b] else b :: call answer chain

/-- No block before this one stops the chain. -/
def LetThrough (answer : α → BitVec 32) (chain : List α) (nb : α) : Prop :=
  ∀ b ∈ chain.takeWhile (fun b => b ≠ nb), answer b &&& NOTIFY_STOP_MASK = 0

@[simp] theorem mem_register {priority : α → Int} {nb b : α} {chain : List α} :
    b ∈ register priority nb chain ↔ b = nb ∨ b ∈ chain := by
  induction chain with
  | nil => simp [register]
  | cons c chain ih =>
    unfold register
    split
    · rename_i hc
      subst hc
      simp
    · split
      · simp
      · rw [List.mem_cons, List.mem_cons, ih]
        exact or_left_comm

@[simp] theorem mem_unregister {nb b : α} {chain : List α} :
    b ∈ unregister nb chain ↔ b ∈ chain ∧ b ≠ nb := by
  simp [unregister]

/-- A block is called when it is on the chain and none before it stops the call. -/
theorem mem_call_iff {answer : α → BitVec 32} {chain : List α} {nb : α} :
    nb ∈ call answer chain ↔ nb ∈ chain ∧ LetThrough answer chain nb := by
  unfold LetThrough
  induction chain with
  | nil => simp [call]
  | cons b chain ih =>
    unfold call
    by_cases hb : b = nb
    · subst hb
      split <;> simp
    · have hne : nb ≠ b := fun h => hb h.symm
      rw [List.takeWhile_cons_of_pos (by simpa using hb)]
      split
      · rename_i hstop
        constructor
        · intro h
          exact absurd (List.mem_singleton.mp h) hne
        · rintro ⟨_, hthrough⟩
          exact absurd (hthrough b List.mem_cons_self) hstop
      · rename_i hgo
        rw [not_not] at hgo
        simp [hne, ih, hgo]

end notifier_chain
