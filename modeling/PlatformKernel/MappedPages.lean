-- The pages that get_args of the hybrid driver sends for a buffer with a map:
-- whether they lie in the map. The check that is made for this adds the length
-- of the buffer to an offset that was rounded down to a page.
import PlatformKernel.OverlapSweep

namespace virtual_fastrpc.mapped_pages

open buffers hybrid_marshal

/-! ## Ranges of device addresses -/

/-- The address is one of the `size` addresses from `addr` on. -/
def Within (addr size x : BitVec 64) : Prop := (x - addr).toNat < size.toNat

section pages

variable {a : Arg} {m : MapRef} {vm_start : BitVec 64} {page : PhyPage}

end pages

/-! ## The loops -/

/-- One turn of the loop over the buffers: it writes the page of a buffer with a map, and no
other. -/
theorem map_loop_turn {i : Nat} {a : Arg} {as : List Arg} {md md' : Metadata}
    (h : map_loop i (a :: as) md = .ok md') (hlist : (md.list i).pgidx = i) :
    ∃ md₁, map_loop (i + 1) as md₁ = .ok md' ∧ md₁.list = md.list ∧
      (∀ k, k ≠ i → md₁.pages k = md.pages k) ∧
      ∀ m, a.len ≠ 0 → a.map = some m → map_pages a m = .ok (md₁.pages i) := by
  simp only [map_loop] at h
  split at h
  · rename_i hnone
    refine ⟨_, h, rfl, fun _ _ => rfl, ?_⟩
    intro m h0 hm
    rw [if_neg h0, hm] at hnone
    cases hnone
  rename_i m hsome
  split at h
  · cases h
  rename_i page hpage
  refine ⟨_, h, rfl, ?_, ?_⟩
  · intro k hk
    dsimp only
    rw [hlist, Function.update_of_ne hk]
  · intro m' h0 hm
    rw [if_neg h0, hm] at hsome
    cases hsome
    dsimp only
    rw [hlist, Function.update_self]
    exact hpage

/-- The loop over the buffers: each one with a map has its page. -/
theorem map_loop_pages {i : Nat} {as : List Arg} {md md' : Metadata}
    (h : map_loop i as md = .ok md')
    (hlist : ∀ k, i ≤ k → k < i + as.length → (md.list k).pgidx = k) :
    md'.list = md.list ∧ (∀ k, k < i → md'.pages k = md.pages k) ∧
      ∀ j a m, as[j]? = some a → a.len ≠ 0 → a.map = some m →
        map_pages a m = .ok (md'.pages (i + j)) := by
  induction as generalizing i md with
  | nil =>
    cases h
    exact ⟨rfl, fun _ _ => rfl, by simp⟩
  | cons a as ih =>
    rw [List.length_cons] at hlist
    obtain ⟨md₁, hrest, hlist₁, hother, hself⟩ :=
      map_loop_turn h (hlist i (Nat.le_refl _) (by omega))
    obtain ⟨hlist', hbefore, hafter⟩ := ih hrest (by
      intro k hk hlt
      rw [hlist₁]
      exact hlist k (by omega) (by omega))
    refine ⟨hlist'.trans hlist₁, ?_, ?_⟩
    · intro k hk
      rw [hbefore k (by omega), hother k (by omega)]
    · intro j b m hb h0 hm
      cases j with
      | zero =>
        cases hb
        rw [Nat.add_zero, hbefore i (by omega)]
        exact hself m h0 hm
      | succ j =>
        have hpage := hafter j b m (by simpa using hb) h0 hm
        rwa [Nat.add_assoc, Nat.add_comm 1 j] at hpage

/-- The copy loop writes the pages of the buffers that it copies, and no others. -/
theorem copy_loop_pages {c : Call} {area : Area} {os : List Overlap} {s s' : Cursor}
    (h : copy_loop c area os s = .ok s')
    (hlist : ∀ i, c.copied i = true → (s.md.list i).pgidx = i) {k : Nat}
    (hk : c.copied k = false) : s'.md.pages k = s.md.pages k := by
  induction os generalizing s with
  | nil =>
    cases h
    rfl
  | cons o os ih =>
    rcases copy_loop_cons h with ⟨hcop, s₁, hone, h⟩ | ⟨_, h⟩
    · obtain ⟨b, hb⟩ := copy_buf_copybuf hone
      obtain ⟨_, _, _, hlist₁, hpages, _⟩ := copy_buf_spec hone hb
      have hne : k ≠ o.raix := by
        rintro rfl
        rw [hk] at hcop
        cases hcop
      rw [ih h (by rw [hlist₁]; exact hlist), hpages, hlist o.raix hcop, Function.update_of_ne hne]
    · exact ih h hlist

/-! ## get_args -/

section get_args

variable {sh : AdsprpcShared} {sort : List Overlap → List Overlap} {c : Call} {p : Pool}
  {l : Layout}

/-- A buffer that is not empty is one of the call, and does not wrap around. -/
theorem arg_bounds {overs : List Overlap} (h : build_overs 0 c.args = some overs) {i : Nat}
    (h0 : (c.arg i).len ≠ 0) :
    c.args[i]? = some (c.arg i) ∧ (c.arg i).pv.toNat + (c.arg i).len.toNat < 2 ^ 64 := by
  have hi : i < c.args.length := by
    by_contra hge
    rw [arg_of_length_le (Nat.le_of_not_lt hge)] at h0
    exact h0 rfl
  have harg : c.args[i]? = some (c.arg i) := by
    simp [Call.arg, List.getD_eq_getElem?_getD, hi]
  refine ⟨harg, ?_⟩
  rcases build_overs_cases 0 c.args with ⟨hfits, _⟩ | ⟨_, hnone⟩
  · exact hfits _ (List.mem_of_getElem? harg) h0
  · rw [hnone] at h
    cases h

end get_args

end virtual_fastrpc.mapped_pages
