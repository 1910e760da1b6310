-- A memory that is written in pieces and then read. What a reader sees of the
-- memory before the writes is what no write covers: two runs that differ only
-- in that memory read the same bytes exactly when each byte read was written.
import Mathlib.Data.List.Basic
import Mathlib.Logic.Nontrivial.Defs
import Mathlib.Tactic.Common

namespace bytes

variable {β : Type}

/-- The bytes `bs` are written at address `a`. -/
def store (m : Nat → β) (a : Nat) (bs : List β) : Nat → β :=
  fun x => if a ≤ x then (bs[x - a]?).getD (m x) else m x

/-- The `n` bytes at address `a`. -/
def load (m : Nat → β) (a n : Nat) : List β := (List.range n).map (fun j => m (a + j))

/-- The bytes that are copied out of the memory: each read is the address they go to, the address
they come from and their number. -/
def copyOut (m : Nat → β) (reads : List (Nat × Nat × Nat)) : List (Nat × List β) :=
  reads.map (fun r => (r.1, load m r.2.1 r.2.2))

/-- The writes of the list, one after the other. -/
def storeAll (m : Nat → β) (ws : List (Nat × List β)) : Nat → β :=
  ws.foldl (fun m w => store m w.1 w.2) m

/-- What another party has written, over the memory. -/
def overlay (m : Nat → β) (d : Nat → Option β) : Nat → β := fun x => (d x).getD (m x)

/-- A write covers the address. -/
def Covered (ws : List (Nat × List β)) (x : Nat) : Prop :=
  ∃ w ∈ ws, w.1 ≤ x ∧ x < w.1 + w.2.length

/-- Somebody has written the byte. -/
def Settled (ws : List (Nat × List β)) (d : Nat → Option β) (x : Nat) : Prop :=
  Covered ws x ∨ d x ≠ none

theorem covered_append {ws vs : List (Nat × List β)} {x : Nat} :
    Covered (ws ++ vs) x ↔ Covered ws x ∨ Covered vs x := by
  unfold Covered
  constructor
  · rintro ⟨w, hw, hc⟩
    rcases List.mem_append.mp hw with hw | hw
    · exact Or.inl ⟨w, hw, hc⟩
    · exact Or.inr ⟨w, hw, hc⟩
  · rintro (⟨w, hw, hc⟩ | ⟨w, hw, hc⟩)
    · exact ⟨w, List.mem_append_left _ hw, hc⟩
    · exact ⟨w, List.mem_append_right _ hw, hc⟩

/-! ## Writes -/

theorem store_of_covered {m m' : Nat → β} {a x : Nat} {bs : List β} (hlo : a ≤ x)
    (hhi : x < a + bs.length) : store m a bs x = store m' a bs x := by
  have hlt : x - a < bs.length := by omega
  simp [store, hlo, hlt]

theorem store_of_not_covered {m : Nat → β} {a x : Nat} {bs : List β}
    (h : ¬ (a ≤ x ∧ x < a + bs.length)) : store m a bs x = m x := by
  unfold store
  by_cases hlo : a ≤ x
  · have hge : bs.length ≤ x - a := by omega
    simp [hge]
  · rw [if_neg hlo]

theorem store_nil (m : Nat → β) (a : Nat) : store m a [] = m := by
  funext x
  simp [store]

theorem storeAll_cons (m : Nat → β) (w : Nat × List β) (ws : List (Nat × List β)) :
    storeAll m (w :: ws) = storeAll (store m w.1 w.2) ws := rfl

theorem storeAll_of_not_covered {m : Nat → β} {ws : List (Nat × List β)} {x : Nat}
    (h : ¬ Covered ws x) : storeAll m ws x = m x := by
  induction ws generalizing m with
  | nil => rfl
  | cons w ws ih =>
    rw [storeAll_cons, ih (fun ⟨v, hv, hc⟩ => h ⟨v, List.mem_cons_of_mem _ hv, hc⟩)]
    exact store_of_not_covered (fun hc => h ⟨w, List.mem_cons_self, hc⟩)

/-- The last write that covers an address decides, whatever was there before. -/
theorem storeAll_of_covered {m m' : Nat → β} {ws : List (Nat × List β)} {x : Nat}
    (h : Covered ws x) : storeAll m ws x = storeAll m' ws x := by
  induction ws generalizing m m' with
  | nil =>
    obtain ⟨w, hw, _⟩ := h
    cases hw
  | cons w ws ih =>
    rw [storeAll_cons, storeAll_cons]
    by_cases hrest : Covered ws x
    · exact ih hrest
    · obtain ⟨v, hv, hlo, hhi⟩ := h
      rcases List.mem_cons.mp hv with rfl | hv
      · rw [storeAll_of_not_covered hrest, storeAll_of_not_covered hrest]
        exact store_of_covered hlo hhi
      · exact absurd ⟨v, hv, hlo, hhi⟩ hrest

/-- The byte at an address that all writes over it agree on. -/
theorem storeAll_of_agree {m : Nat → β} {ws : List (Nat × List β)} {x : Nat} {v : β}
    (hc : Covered ws x)
    (h : ∀ w ∈ ws, w.1 ≤ x → x < w.1 + w.2.length → w.2[x - w.1]? = some v) :
    storeAll m ws x = v := by
  induction ws generalizing m with
  | nil =>
    obtain ⟨w, hw, _⟩ := hc
    cases hw
  | cons w ws ih =>
    rw [storeAll_cons]
    by_cases hrest : Covered ws x
    · exact ih hrest (fun v hv => h v (List.mem_cons_of_mem _ hv))
    · obtain ⟨v', hv', hlo, hhi⟩ := hc
      rcases List.mem_cons.mp hv' with rfl | hv'
      · rw [storeAll_of_not_covered hrest]
        simp [store, hlo, h v' List.mem_cons_self hlo hhi]
      · exact absurd ⟨v', hv', hlo, hhi⟩ hrest

theorem storeAll_append (m : Nat → β) (ws vs : List (Nat × List β)) :
    storeAll m (ws ++ vs) = storeAll (storeAll m ws) vs := List.foldl_append

theorem overlay_of_settled {m m' : Nat → β} {ws : List (Nat × List β)} {d : Nat → Option β}
    {x : Nat} (h : Settled ws d x) :
      overlay (storeAll m ws) d x = overlay (storeAll m' ws) d x := by
  unfold overlay
  rcases hd : d x with _ | b
  · rcases h with h | h
    · exact storeAll_of_covered h
    · exact absurd hd h
  · rfl

theorem overlay_of_not_settled {m : Nat → β} {ws : List (Nat × List β)} {d : Nat → Option β}
    {x : Nat} (h : ¬ Settled ws d x) : overlay (storeAll m ws) d x = m x := by
  have hd : d x = none := by
    by_contra hd
    exact h (Or.inr hd)
  unfold overlay
  rw [hd]
  exact storeAll_of_not_covered (fun hc => h (Or.inl hc))

/-! ## Reads -/

theorem load_eq_iff {m m' : Nat → β} {a n : Nat} :
    load m a n = load m' a n ↔ ∀ j, j < n → m (a + j) = m' (a + j) := by
  simp [load]

theorem copyOut_eq_iff {m m' : Nat → β} {reads : List (Nat × Nat × Nat)} :
    copyOut m reads = copyOut m' reads ↔
      ∀ r ∈ reads, ∀ j, j < r.2.2 → m (r.2.1 + j) = m' (r.2.1 + j) := by
  unfold copyOut
  rw [List.map_inj_left]
  constructor
  · intro h r hr
    exact load_eq_iff.mp (Prod.mk.inj (h r hr)).2
  · intro h r hr
    rw [load_eq_iff.mpr (h r hr)]

/-- Two runs that differ only in the memory `S` that they were given copy out the same bytes,
exactly when each byte of `S` that they read was written. -/
theorem copyOut_eq_iff_settled [Nontrivial β] (ws : List (Nat × List β)) (d : Nat → Option β)
    (S : Nat → Prop) (reads : List (Nat × Nat × Nat)) :
    (∀ m m' : Nat → β, (∀ x, ¬ S x → m x = m' x) →
      copyOut (overlay (storeAll m ws) d) reads = copyOut (overlay (storeAll m' ws) d) reads) ↔
    ∀ r ∈ reads, ∀ j, j < r.2.2 → S (r.2.1 + j) → Settled ws d (r.2.1 + j) := by
  constructor
  · intro h r hr j hj hS
    by_contra hun
    -- two memories that differ in the one byte that nobody wrote
    obtain ⟨b, c, hbc⟩ := exists_pair_ne β
    have heq := h (fun _ => b) (fun x => if x = r.2.1 + j then c else b) ?_
    · have hj := copyOut_eq_iff.mp heq r hr j hj
      rw [overlay_of_not_settled hun, overlay_of_not_settled hun, if_pos rfl] at hj
      exact hbc hj
    · intro x hx
      have hne : x ≠ r.2.1 + j := by
        rintro rfl
        exact hx hS
      rw [if_neg hne]
  · intro h m m' hagree
    refine copyOut_eq_iff.mpr (fun r hr j hj => ?_)
    by_cases hset : Settled ws d (r.2.1 + j)
    · exact overlay_of_settled hset
    · rw [overlay_of_not_settled hset, overlay_of_not_settled hset]
      exact hagree _ (fun hS => hset (h r hr j hj hS))

end bytes
