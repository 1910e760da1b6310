-- The search of a best fit: a loop over a list that keeps the first smallest
-- element that is large enough.
import Mathlib.Data.List.Basic
import Mathlib.Tactic.Common

namespace best_fit

variable {α β : Type*} {size : α → Nat} {n : Nat}

/-- One turn of the loop: an element that fits and is smaller takes the place of the one found
before. -/
def pick (size : α → Nat) (n : Nat) (found : Option α) (a : α) : Option α :=
  if n ≤ size a ∧ found.all (fun f => decide (size a < size f)) then some a else found

def search (size : α → Nat) (n : Nat) (l : List α) : Option α := l.foldl (pick size n) none

@[simp] theorem search_nil : search size n [] = none := rfl

/-- A turn takes the element, or keeps what it has since the element is too small or no smaller. -/
theorem pick_cases (size : α → Nat) (n : Nat) (found : Option α) (a : α) :
    pick size n found a = some a ∧ n ≤ size a ∧ (∀ f, found = some f → size a < size f) ∨
    pick size n found a = found ∧ (n ≤ size a → ∃ f, found = some f ∧ size f ≤ size a) := by
  unfold pick
  split
  · rename_i hfits
    refine Or.inl ⟨rfl, hfits.1, ?_⟩
    intro f hf
    simpa [hf] using hfits.2
  · rename_i hnot
    refine Or.inr ⟨rfl, fun hn => ?_⟩
    rcases found with _ | f
    · exact absurd ⟨hn, rfl⟩ hnot
    · refine ⟨f, rfl, ?_⟩
      simpa [hn] using hnot

/-- The element comes from before the loop, or it stands in the list behind larger ones. -/
theorem foldl_pick {l : List α} {found : Option α} {a : α}
    (h : l.foldl (pick size n) found = some a) :
    found = some a ∧ (∀ b ∈ l, n ≤ size b → size a ≤ size b) ∨
    ∃ before after, l = before ++ a :: after ∧ n ≤ size a ∧
      (∀ f, found = some f → size a < size f) ∧
      (∀ b ∈ before, n ≤ size b → size a < size b) ∧
      ∀ b ∈ after, n ≤ size b → size a ≤ size b := by
  induction l generalizing found with
  | nil => exact Or.inl ⟨h, by simp⟩
  | cons c l ih =>
    rcases pick_cases size n found c with ⟨hp, hn, hless⟩ | ⟨hp, hkeep⟩
    · rcases ih h with ⟨hc, hrest⟩ | ⟨before, after, hl, hfits, hf, hbefore, hafter⟩
      · obtain rfl := Option.some.inj (hp.symm.trans hc)
        exact Or.inr ⟨[], l, rfl, hn, hless, by simp, hrest⟩
      · have hac := hf c hp
        refine Or.inr ⟨c :: before, after, by rw [hl, List.cons_append], hfits, ?_, ?_, hafter⟩
        · intro f hfound
          exact Nat.lt_trans hac (hless f hfound)
        · simpa using ⟨fun _ => hac, hbefore⟩
    · rw [List.foldl_cons, hp] at h
      rcases ih h with ⟨hfound, hrest⟩ | ⟨before, after, hl, hfits, hf, hbefore, hafter⟩
      · refine Or.inl ⟨hfound, ?_⟩
        simp only [List.mem_cons, forall_eq_or_imp]
        refine ⟨fun hn => ?_, hrest⟩
        obtain ⟨f, he, hle⟩ := hkeep hn
        cases he.symm.trans hfound
        exact hle
      · refine Or.inr ⟨c :: before, after, by rw [hl, List.cons_append], hfits, hf, ?_, hafter⟩
        simp only [List.mem_cons, forall_eq_or_imp]
        refine ⟨fun hn => ?_, hbefore⟩
        obtain ⟨f, he, hle⟩ := hkeep hn
        exact Nat.lt_of_lt_of_le (hf f he) hle

/-- The elements before the one found that fit are larger, and those after it no smaller. -/
theorem search_split {l : List α} {a : α} (h : search size n l = some a) :
    n ≤ size a ∧ ∃ before after, l = before ++ a :: after ∧
      (∀ b ∈ before, n ≤ size b → size a < size b) ∧
      ∀ b ∈ after, n ≤ size b → size a ≤ size b := by
  rcases foldl_pick h with ⟨hnone, _⟩ | ⟨before, after, hl, hfits, _, hbefore, hafter⟩
  · cases hnone
  · exact ⟨hfits, before, after, hl, hbefore, hafter⟩

/-- What the search finds is in the list and fits, and nothing that fits is smaller. -/
theorem search_some {l : List α} {a : α} (h : search size n l = some a) :
    a ∈ l ∧ n ≤ size a ∧ ∀ b ∈ l, n ≤ size b → size a ≤ size b := by
  obtain ⟨hfits, before, after, rfl, hbefore, hafter⟩ := search_split h
  refine ⟨by simp, hfits, ?_⟩
  intro b hb hn
  rcases List.mem_append.mp hb with hb | hb
  · exact Nat.le_of_lt (hbefore b hb hn)
  · rcases List.mem_cons.mp hb with rfl | hb
    · exact Nat.le_refl _
    · exact hafter b hb hn

/-- The search looks at the sizes only. -/
theorem search_map (f : β → α) (l : List β) :
    search size n (l.map f) = (search (size ∘ f) n l).map f := by
  have hturn (found : Option β) (b : β) :
      pick size n (found.map f) (f b) = (pick (size ∘ f) n found b).map f := by
    unfold pick
    rw [Option.all_map, apply_ite (Option.map f)]
    rfl
  have hloop (found : Option β) : (l.map f).foldl (pick size n) (found.map f) =
      (l.foldl (pick (size ∘ f) n) found).map f := by
    induction l generalizing found with
    | nil => rfl
    | cons b l ih => rw [List.map_cons, List.foldl_cons, hturn, ih, List.foldl_cons]
  exact hloop none

end best_fit
