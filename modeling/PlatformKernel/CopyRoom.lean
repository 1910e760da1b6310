-- Which copies of get_args of the hybrid driver stay in the copy area: the turns
-- of the copy loop, and the buffers for which there is always room.
import PlatformKernel.HybridReturns

namespace virtual_fastrpc.copy_room

open buffers hybrid_marshal sweep mapped_pages

/-! ## The turns of the copy loop -/

/-- get_args has come to the copy loop, with the arrays as they are before it. -/
structure Started (sh : AdsprpcShared) (sort : List Overlap → List Overlap) (c : Call) (p : Pool)
    (os : List Overlap) (area : Area) (md : Metadata) : Prop where
  prepared : prepare sh sort c p = some (os, area)
  kzalloc : lrpralen sh c = 0 ∨ c.kzalloc = true
  maps : ∃ md₀, map_loop 0 c.args (list_loop c .zero) = .ok md₀ ∧
    handle_loop c.args.length c.handles md₀ = (md, true)

/-- The loop comes to the buffer `o`, which it copies, with the cursor `s`. It has the room for the
part of the buffer that it counts. -/
structure Reached (sh : AdsprpcShared) (sort : List Overlap → List Overlap) (c : Call) (p : Pool)
    (area : Area) (pre : List Overlap) (o : Overlap) (s : Cursor) : Prop where
  started : ∃ post md, Started sh sort c p (pre ++ o :: post) area md ∧
    copy_loop c area (merge_overs 0 pre) ⟨area.args, area.rlen, md, []⟩ = .ok s
  copied : c.copied o.raix = true
  room : (entry pre o).mlen ≤ (copyRlen (entry pre o) s).toNat

section turns

variable {sh : AdsprpcShared} {sort : List Overlap → List Overlap} {c : Call} {p : Pool}
  {area : Area} {pre : List Overlap} {o : Overlap} {s : Cursor} {os : List Overlap} {md : Metadata}

/-- The place that a turn gives to its buffer is in the copy area just when there is room before the
cursor for what the buffers before it reach into it. -/
theorem Reached.inArea_iff (hperm : ∀ os, (sort os).Perm os) (h : Reached sh sort c p area pre o s)
    (hpages : ∀ b, area.copybuf = some b → PAGE_SIZE ∣ b.va ∧ b.va + PAGE_ALIGN b.size ≤ 2 ^ 64) :
    InArea area (copyPv (entry pre o) s) (c.arg o.raix).len ↔ HasRoom c area pre o := by
  obtain ⟨post, md, hstart, hloop⟩ := h.started
  have hdesc := prepare_describes hperm hstart.prepared
  have hargs : s.args = fill c 0 area.args pre :=
    copy_loop_args (fun q hq => (hdesc q (List.mem_append_left _ hq)).1.le) hloop
  obtain ⟨total, hlen, hroom, hend⟩ := prepare_room hstart.prepared hpages
  obtain ⟨hreach, hlo, hturn⟩ := fill_room hdesc h.copied hlen
  rw [copyPv_eq hargs]
  exact placeOf_inArea_iff (hdesc o (by simp)).1 h.copied hreach hlo (Nat.le_trans hturn hroom) hend

/-- All buffers that get_args copies have their places in the copy area, just when each of them has
the room for what the buffers before it reach into it. The kernel sorts, and gives buffers that
begin with a page and end in the address space. -/
theorem copies_stay_in_the_copy_area_iff (hperm : ∀ os, (sort os).Perm os)
    (hpages : ∀ b, area.copybuf = some b → PAGE_SIZE ∣ b.va ∧ b.va + PAGE_ALIGN b.size ≤ 2 ^ 64) :
    (∀ pre o s, Reached sh sort c p area pre o s →
      InArea area (copyPv (entry pre o) s) (c.arg o.raix).len) ↔
      ∀ pre o s, Reached sh sort c p area pre o s → HasRoom c area pre o := by
  constructor
  · intro h pre o s hreached
    exact (hreached.inArea_iff hperm hpages).mp (h pre o s hreached)
  · intro h pre o s hreached
    exact (hreached.inArea_iff hperm hpages).mpr (h pre o s hreached)

end turns

/-! ## Buffers that begin in no mapped buffer -/

/-- The buffer begins inside a buffer with a map that the sort puts before it. The copy loop skips
the buffer with the map, but places this one as far before `args` as that one reaches. -/
def BeginsInMapped (c : Call) (i : Nat) : Prop :=
  ∃ j, (c.arg j).map.isSome ∧ (c.arg j).pv.toNat ≤ (c.arg i).pv.toNat ∧
    (c.arg i).pv.toNat < (c.arg j).pv.toNat + (c.arg j).len.toNat ∧
    ((c.arg j).pv = (c.arg i).pv → (c.arg i).len.toNat ≤ (c.arg j).len.toNat)

/-- The copy loop has reached `args`, and the loop of the lengths `copylen`. A buffer that is still
to come and begins in the open group, but not in a buffer with a map, has its room behind `lo`. -/
structure Spread (c : Call) (lo start reach : Nat) (os : List Overlap) (args copylen : Nat) :
    Prop where
  lo_le : lo ≤ args
  le : args ≤ start + copylen
  room : ∀ o ∈ os, o.start < reach → ¬ BeginsInMapped c o.raix → reach - o.start ≤ args - lo

section spread

variable {c : Call} {lo start reach args copylen : Nat} {o : Overlap} {os : List Overlap}

theorem Spread.turn (h : Spread c lo start reach (o :: os) args copylen) (hstart : BALIGN ∣ start)
    (hle : o.start ≤ o.stop) (hsorted : ∀ o' ∈ os, o.start ≤ o'.start) :
    Spread c lo start (merge_reach reach o) os
      (align_args (merge_over reach o) args + (merge_over reach o).mlen)
      ((if (merge_over reach o).offset = 0 then ALIGN copylen BALIGN else copylen) +
        (merge_over reach o).mlen) := by
  have hlo := h.lo_le
  have hargs := h.le
  have hrest : ∀ o' ∈ os, o'.start < reach → ¬ BeginsInMapped c o'.raix →
      reach - o'.start ≤ args - lo := fun o' ho' => h.room o' (List.mem_cons_of_mem _ ho')
  unfold merge_reach align_args Overlap.mlen
  by_cases hin : o.start < reach
  · -- in the open group, which it may extend
    have hpos : reach - o.start ≠ 0 := by omega
    by_cases hout : reach < o.stop
    · simp only [merge_over, hin, hout, if_true, hpos, if_false]
      refine ⟨by omega, by omega, fun o' ho' hlt hnot => ?_⟩
      have hroom := hrest o' ho'
      by_cases hlt' : o'.start < reach
      · have := hroom hlt' hnot
        omega
      · omega
    · simp only [merge_over, hin, hout, if_true, if_false, hpos, Nat.sub_self]
      refine ⟨by omega, by omega, fun o' ho' hlt hnot => ?_⟩
      have hroom := hrest o' ho' (by omega) hnot
      omega
  · -- it opens a group
    have halign : args ≤ ALIGN args BALIGN := le_ALIGN args (by decide)
    have hmono : ALIGN args BALIGN ≤ start + ALIGN copylen BALIGN := by
      rw [← ALIGN_add (by decide) hstart]
      exact ALIGN_mono _ hargs
    simp only [merge_over, hin, if_false, if_true]
    refine ⟨by omega, by omega, fun o' ho' hlt _ => ?_⟩
    have hfirst := hsorted o' ho'
    omega

/-- A buffer with a map, or an empty one, is skipped. -/
theorem Spread.skip (h : Spread c lo start reach (o :: os) args copylen) (hd : Describes c o)
    (hdesc : ∀ o' ∈ os, Describes c o')
    (hskip : (c.arg o.raix).map.isSome ∨ o.stop = o.start)
    (hsorted : ∀ o' ∈ os, overlap_ptr_cmp o o' = true) :
    Spread c lo start (merge_reach reach o) os args copylen := by
  refine ⟨h.lo_le, h.le, fun o' ho' hlt hnot => ?_⟩
  have hcmp := hsorted o' ho'
  rw [overlap_ptr_cmp_iff] at hcmp
  obtain ⟨hstart, hstop⟩ := hd
  obtain ⟨hstart', hstop'⟩ := hdesc o' ho'
  -- the next buffer does not begin in this one
  have hafter : o.stop ≤ o'.start := by
    rcases hskip with hmap | hempty
    · by_contra hin
      refine hnot ⟨o.raix, hmap, by omega, by omega, fun heq => ?_⟩
      have heq' := congrArg BitVec.toNat heq
      omega
    · omega
  have hreach : o'.start < reach ∧ merge_reach reach o = reach := by
    unfold merge_reach at hlt ⊢
    by_cases hin : o.start < reach
    · simp only [hin, if_true] at hlt ⊢
      omega
    · simp only [hin, if_false] at hlt
      omega
  rw [hreach.2]
  exact h.room o' (List.mem_cons_of_mem _ ho') hreach.1 hnot

end spread

section spread

variable {c : Call} {lo start reach args n : Nat} {o : Overlap} {pre os : List Overlap}

/-- What one turn of the loops keeps is kept for all buffers before an entry. -/
theorem spread_fill (hstart : BALIGN ∣ start) (hdesc : ∀ o ∈ pre ++ os, Describes c o)
    (hsorted : (pre ++ os).Pairwise fun a b => overlap_ptr_cmp a b = true)
    (h : Spread c lo start reach (pre ++ os) args n) :
    ∃ n', Spread c lo start (largest reach (pre.map Overlap.range)) os
      (fill c reach args pre) n' := by
  induction pre generalizing reach args n with
  | nil => exact ⟨n, h⟩
  | cons o pre ih =>
    rw [List.cons_append] at hdesc hsorted h
    obtain ⟨hd, hdesc⟩ := List.forall_mem_cons.mp hdesc
    obtain ⟨hfirst, hsorted⟩ := List.pairwise_cons.mp hsorted
    have hle := hd.le
    unfold fill
    by_cases hcop : c.copied o.raix = true
    · have hturn := h.turn hstart hle (fun q hq => start_le_of_cmp (hfirst q hq))
      rw [turn_args, merge_reach_eq hle] at hturn
      rw [if_pos hcop]
      exact ih hdesc hsorted hturn
    · have hturn := h.skip hd hdesc (hd.skipped hcop) hfirst
      rw [merge_reach_eq hle] at hturn
      rw [if_neg hcop]
      exact ih hdesc hsorted hturn

/-- A buffer that begins in no buffer with a map has its room behind the start of the area, whatever
is mapped before it. -/
theorem room_of_not_begins {area : Area} (hdesc : ∀ q ∈ pre ++ o :: os, Describes c q)
    (hsorted : (pre ++ o :: os).Pairwise fun a b => overlap_ptr_cmp a b = true)
    (hnot : ¬ BeginsInMapped c o.raix) :
    reachOf pre ≤ o.start ∨ reachOf pre - o.start ≤ fill c 0 area.args pre - area.args := by
  have halign := le_ALIGN area.args (show 0 < BALIGN by decide)
  have hfirst : Spread c area.args (ALIGN area.args BALIGN) 0 (pre ++ o :: os)
      area.args 0 := ⟨Nat.le_refl _, by omega, by simp⟩
  obtain ⟨n, hspread⟩ := spread_fill (dvd_ALIGN area.args BALIGN) hdesc hsorted hfirst
  unfold reachOf
  by_cases hin : largest 0 (pre.map Overlap.range) ≤ o.start
  · exact Or.inl hin
  · exact Or.inr (hspread.room o List.mem_cons_self (Nat.lt_of_not_le hin) hnot)

/-- When no buffer that is copied begins in a buffer with a map, all of them have room. -/
theorem Reached.hasRoom {sh : AdsprpcShared} {sort : List Overlap → List Overlap} {p : Pool}
    {area : Area} {s : Cursor} (hperm : ∀ os, (sort os).Perm os)
    (hsorted : ∀ os, (sort os).Pairwise fun a b => overlap_ptr_cmp a b = true)
    (h : Reached sh sort c p area pre o s) (hnot : ¬ BeginsInMapped c o.raix) :
    HasRoom c area pre o := by
  obtain ⟨post, md, hstart, _⟩ := h.started
  have hdesc := prepare_describes hperm hstart.prepared
  obtain ⟨overs, _, _, _, _, he, _⟩ := prepare_eq_some.mp hstart.prepared
  refine (room_of_not_begins (fun q hq => (hdesc q hq).1) ?_ hnot).imp id Or.inl
  rw [he]
  exact hsorted overs

end spread

/-- An in-buffer with a map, an in-buffer behind it, and an out-buffer. -/
def apartCall : Call :=
  { inbufs := 2,
    args := [⟨65536, 1000, some ⟨true, 0x90000000, 4096, none⟩⟩, ⟨66536, 8, none⟩,
      ⟨131072, 2, none⟩],
    handles := [], fds := true, kzalloc := true, da := fun _ => 0x80000000,
    user := ⟨fun _ => some 0, fun _ => 8192⟩, crc := none, perf_dsp := none }

/-- No buffer begins inside the one with a map. -/
theorem buffers_behind_a_map_stay_in_the_area :
    ∃ os area, prepare sampleShared sortOverlaps apartCall hdrPool = some (os, area) ∧
      ∀ pre o s, Reached sampleShared sortOverlaps apartCall hdrPool area pre o s →
        InArea area (copyPv (entry pre o) s) (apartCall.arg o.raix).len := by
  have hperm : ∀ os, (sortOverlaps os).Perm os := fun os => List.perm_insertionSort _ os
  refine ⟨_, _, prepare_eq_some.mpr ⟨_, ⟨8192, 4096⟩, ⟨[(8192, true)], [], []⟩, 130, rfl, rfl,
    by decide +kernel, by decide +kernel, copy_area_behind (by decide +kernel)⟩, ?_⟩
  refine (copies_stay_in_the_copy_area_iff hperm ?_).mpr ?_
  · intro b hb
    cases hb
    decide
  · intro pre o s h
    apply h.hasRoom hperm sortOverlaps_pairwise
    rintro ⟨j, hmap, hlo, hlt, _⟩
    have hj : j = 0 := by
      match j with
      | 0 => rfl
      | 1 | 2 | _ + 3 => cases hmap
    subst hj
    have hcop := h.copied
    revert hcop hlo hlt
    rcases o.raix with _ | _ | _ | i
    · decide
    · decide
    · decide
    · intro _ _ hcop
      cases hcop

/-- The in-buffer begins inside the one with a map: its place is 564 bytes before the cursor, which
is at the end of the metadata. -/
theorem a_buffer_inside_a_map_leaves_the_area :
    ∃ area s, Reached sampleShared sortOverlaps hybrid_bytes.insideCall hdrPool area
        [⟨65536, 66536, 0, 0, 0, 0⟩] ⟨65972, 65980, 1, 0, 0, 0⟩ s ∧
      (copyPv (entry [⟨65536, 66536, 0, 0, 0, 0⟩] ⟨65972, 65980, 1, 0, 0, 0⟩) s).toNat =
        8192 + metalen sampleShared hybrid_bytes.insideCall - 564 ∧
      ¬ InArea area (copyPv (entry [⟨65536, 66536, 0, 0, 0, 0⟩] ⟨65972, 65980, 1, 0, 0, 0⟩) s)
        (hybrid_bytes.insideCall.arg 1).len := by
  have hreached : Reached sampleShared sortOverlaps hybrid_bytes.insideCall hdrPool _
      [⟨65536, 66536, 0, 0, 0, 0⟩] ⟨65972, 65980, 1, 0, 0, 0⟩ _ :=
    ⟨⟨[⟨131072, 131074, 2, 0, 0, 0⟩], _, ⟨prepare_eq_some.mpr ⟨_, ⟨8192, 4096⟩,
      ⟨[(8192, true)], [], []⟩, 2, rfl, rfl, by decide +kernel, by decide +kernel,
      copy_area_behind (by decide +kernel)⟩, Or.inr rfl, ⟨_, rfl, rfl⟩⟩, rfl⟩, rfl,
        by decide +kernel⟩
  refine ⟨_, _, hreached, by decide +kernel, ?_⟩
  intro h
  exact absurd h.2.1 (by decide +kernel)

end virtual_fastrpc.copy_room
