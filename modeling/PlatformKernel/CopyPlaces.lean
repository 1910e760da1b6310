-- Where the copy loop of the hybrid driver places a buffer: it goes back from the
-- cursor by what the buffers before it reach into the buffer, also by what those
-- reach that have a map and took no room.
import PlatformKernel.MappedPages

namespace virtual_fastrpc.copy_room

open buffers hybrid_marshal sweep mapped_pages

/-! ## The room that the buffers take -/

/-- How far the buffers reach, of those that the loop has seen. -/
def reachOf (pre : List Overlap) : Nat := largest 0 (pre.map Overlap.range)

/-- Where the packing of the buffers ends, from `args` on, when those before them reach up to
`reach`. A buffer that is copied takes its part behind `reach`, and an aligned place of its own when
it begins there. -/
def fill (c : Call) : Nat → Nat → List Overlap → Nat
  | _, args, [] => args
  | reach, args, o :: os =>
    fill c (max reach o.stop)
      (if c.copied o.raix then
        if reach ≤ o.start then ALIGN args BALIGN + (o.stop - o.start) else args + (o.stop - reach)
      else args) os

/-- The end of the pages of the copy buffer. -/
def areaEnd (area : Area) : Nat :=
  match area.copybuf with
  | none => 0
  | some b => b.va + PAGE_ALIGN b.size

/-- The buffers before `o` do not reach into it, or no further than there is room before the cursor.
The last case is that they reach through the address space, so that the place comes back to the
copy area from behind. -/
def HasRoom (c : Call) (area : Area) (pre : List Overlap) (o : Overlap) : Prop :=
  reachOf pre ≤ o.start ∨ reachOf pre - o.start ≤ fill c 0 area.args pre - area.args ∨
    2 ^ 64 + fill c 0 area.args pre + (o.stop - o.start) ≤ reachOf pre - o.start + areaEnd area

instance (c : Call) (area : Area) (pre : List Overlap) (o : Overlap) :
    Decidable (HasRoom c area pre o) :=
  inferInstanceAs (Decidable (_ ∨ _ ∨ _))

section loops

variable {c : Call} {area : Area} {reach args start n total : Nat} {o : Overlap}
  {pre os : List Overlap} {s s' : Cursor}

/-- A turn moves the cursor as the packing does. -/
theorem turn_args (reach args : Nat) (o : Overlap) :
    align_args (merge_over reach o) args + (merge_over reach o).mlen =
      if reach ≤ o.start then ALIGN args BALIGN + (o.stop - o.start)
        else args + (o.stop - reach) := by
  unfold align_args Overlap.mlen merge_over
  by_cases hin : o.start < reach
  · have hpos : reach - o.start ≠ 0 := by omega
    by_cases hout : reach < o.stop
    · simp only [hin, hout, hpos, if_true, if_false]
      rw [if_neg (by omega)]
    · simp only [hin, hout, hpos, if_true, if_false]
      rw [if_neg (by omega)]
      omega
  · simp only [hin, if_true, if_false]
    rw [if_pos (by omega)]

theorem copy_buf_args (h : copy_buf c area o s = .ok s') :
    s'.args = align_args o s.args + o.mlen := by
  obtain ⟨b, hb⟩ := copy_buf_copybuf h
  exact (copy_buf_spec h hb).1

/-- The copy loop is where the packing ends. -/
theorem copy_loop_args (hle : ∀ o ∈ os, o.start ≤ o.stop)
    (h : copy_loop c area (merge_overs reach os) s = .ok s') :
      s'.args = fill c reach s.args os := by
  induction os generalizing reach s with
  | nil =>
    cases h
    rfl
  | cons o os ih =>
    obtain ⟨ho, hos⟩ := List.forall_mem_cons.mp hle
    rw [merge_overs_cons, merge_reach_eq ho] at h
    unfold fill
    rcases copy_loop_cons h with ⟨hcop, s₁, hone, h⟩ | ⟨hcop, h⟩
    · rw [merge_over_raix] at hcop
      rw [ih hos h, copy_buf_args hone, turn_args, if_pos hcop]
    · rw [merge_over_raix] at hcop
      rw [ih hos h, if_neg hcop]

/-- A turn takes no more room than the loop of the lengths counts for it. -/
theorem turn_le (hstart : BALIGN ∣ start) (hn : args ≤ start + n) (m : Overlap) :
    align_args m args + m.mlen ≤ start +
      ((if m.offset = 0 then ALIGN n BALIGN else n) + m.mlen) := by
  have halign : ALIGN args BALIGN ≤ start + ALIGN n BALIGN := by
    rw [← ALIGN_add (by decide) hstart]
    exact ALIGN_mono _ hn
  unfold align_args
  split
  · omega
  · omega

theorem le_fill (c : Call) (reach args : Nat) (pre : List Overlap) :
    args ≤ fill c reach args pre := by
  induction pre generalizing reach args with
  | nil => exact Nat.le_refl _
  | cons o pre ih =>
    refine Nat.le_trans ?_ (ih _ _)
    have halign := le_ALIGN args (show 0 < BALIGN by decide)
    split
    · split <;> omega
    · exact Nat.le_refl _

/-- The packing takes no more room than the loop of the lengths has counted. -/
theorem fill_le (hstart : BALIGN ∣ start) (hle : ∀ o ∈ pre, o.start ≤ o.stop)
    (hlen : copylen_loop c (merge_overs reach (pre ++ os)) n = some total) (hn : args ≤ start + n) :
    ∃ n', fill c reach args pre ≤ start + n' ∧
      copylen_loop c (merge_overs (largest reach (pre.map Overlap.range)) os) n' = some total := by
  induction pre generalizing reach args n with
  | nil => exact ⟨n, hn, hlen⟩
  | cons o pre ih =>
    obtain ⟨ho, hpre⟩ := List.forall_mem_cons.mp hle
    rw [List.cons_append, merge_overs_cons, merge_reach_eq ho] at hlen
    unfold fill
    by_cases hcop : c.copied o.raix = true
    · have hlen := copylen_loop_cons hlen (by rw [merge_over_raix]; exact hcop)
      refine ih hpre hlen ?_
      rw [if_pos hcop, ← turn_args]
      exact turn_le hstart hn _
    · have hcop' : c.copied (merge_over reach o).raix ≠ true := by rw [merge_over_raix]; exact hcop
      simp only [copylen_loop, hcop'] at hlen
      rw [if_neg hcop]
      exact ih hpre hlen hn

theorem copylen_loop_mono {ms : List Overlap} {n total : Nat}
    (h : copylen_loop c ms n = some total) : n ≤ total := by
  induction ms generalizing n with
  | nil =>
    cases h
    exact Nat.le_refl _
  | cons m ms ih =>
    unfold copylen_loop at h
    split at h
    · have hle := ih (Option.ite_none_right_eq_some.mp h).2
      have halign : n ≤ ALIGN n BALIGN := le_ALIGN n (by decide)
      split at hle <;> omega
    · exact ih h

theorem fill_append (c : Call) (reach args : Nat) (pre os : List Overlap) :
    fill c reach args (pre ++ os) =
      fill c (largest reach (pre.map Overlap.range)) (fill c reach args pre) os := by
  induction pre generalizing reach args with
  | nil => rfl
  | cons o pre ih => exact ih _ _

theorem reachOf_concat (pre : List Overlap) (o : Overlap) :
    reachOf (pre ++ [o]) = max (reachOf pre) o.stop := by
  unfold reachOf largest
  rw [List.map_append, List.foldl_append]
  rfl

/-- The second loop, cut at an entry. -/
theorem merge_overs_append (hle : ∀ o ∈ pre, o.start ≤ o.stop) :
    merge_overs reach (pre ++ os) =
      merge_overs reach pre ++ merge_overs (largest reach (pre.map Overlap.range)) os := by
  induction pre generalizing reach with
  | nil => rfl
  | cons o pre ih =>
    obtain ⟨ho, hpre⟩ := List.forall_mem_cons.mp hle
    rw [List.cons_append, merge_overs_cons, merge_overs_cons, merge_reach_eq ho, ih hpre]
    rfl

end loops

/-! ## The place of a buffer -/

/-- What get_args has made before it fills the arrays: the order of the buffers, and the copy
area. -/
def prepare (sh : AdsprpcShared) (sort : List Overlap → List Overlap) (c : Call) (p : Pool) :
    Option (List Overlap × Area) :=
  match build_overs 0 c.args with
  | none => none
  | some overs =>
    match hfastrpc_buf_alloc p (metalen sh c) .METADATA with
    | none => none
    | some (buf, p) =>
      match copylen_loop c (merge_overs 0 (sort overs)) 0 with
      | none => none
      | some copylen => (copy_area sh c buf copylen p).map (fun area => (sort overs, area))

/-- The entry of the buffer `o`, when those before it are `pre`. -/
def entry (pre : List Overlap) (o : Overlap) : Overlap := merge_over (reachOf pre) o

/-- Each in-buffer that get_args copies has room for what the buffers before it reach into it. -/
def CopiesHaveRoom (sh : AdsprpcShared) (sort : List Overlap → List Overlap) (c : Call) (p : Pool) :
    Prop :=
  ∀ os area, prepare sh sort c p = some (os, area) → ∀ pre o post, os = pre ++ o :: post →
    o.raix < c.inbufs → c.copied o.raix = true → HasRoom c area pre o

/-- Where the copy loop places the buffer `o`, when those before it are `pre`. -/
def placeOf (c : Call) (area : Area) (pre : List Overlap) (o : Overlap) : BitVec 64 :=
  let args := fill c 0 area.args pre
  if reachOf pre ≤ o.start then .ofNat 64 (ALIGN args BALIGN)
  else .ofNat 64 args - .ofNat 64 (reachOf pre - o.start)

/-- The `len` bytes at `pv` are in the pages of the copy buffer, and in the part of it that the
copies have: behind the metadata when these are in the same buffer. -/
def InArea (area : Area) (pv len : BitVec 64) : Prop :=
  area.copybuf.isSome ∧ area.args ≤ pv.toNat ∧ pv.toNat + len.toNat ≤ areaEnd area

section places

variable {sh : AdsprpcShared} {sort : List Overlap → List Overlap} {c : Call} {p : Pool}
  {area : Area} {pre post os : List Overlap} {o : Overlap} {s s' : Cursor} {total : Nat}

theorem align_args_entry (pre : List Overlap) (o : Overlap) (args : Nat) :
    align_args (entry pre o) args = if reachOf pre ≤ o.start then ALIGN args BALIGN else args := by
  unfold align_args entry
  rw [merge_over_offset]
  by_cases hin : reachOf pre ≤ o.start
  · simp only [hin, if_true]
  · simp only [hin, if_false]
    rw [if_neg (by omega)]

/-- The cursor behind one more buffer. -/
theorem fill_concat (c : Call) (args : Nat) (pre : List Overlap) (o : Overlap) :
    fill c 0 args (pre ++ [o]) =
      if c.copied o.raix then
        align_args (entry pre o) (fill c 0 args pre) + (entry pre o).mlen
      else fill c 0 args pre := by
  rw [fill_append]
  unfold entry
  rw [turn_args]
  rfl

theorem copyPv_eq (hargs : s.args = fill c 0 area.args pre) :
    copyPv (entry pre o) s = placeOf c area pre o := by
  have hoff : (entry pre o).offset = if reachOf pre ≤ o.start then 0 else reachOf pre - o.start :=
    merge_over_offset _ _
  unfold copyPv placeOf
  rw [align_args_entry, hoff, hargs]
  by_cases hin : reachOf pre ≤ o.start
  · simp [hin]
  · simp [hin]

theorem prepare_eq_some : prepare sh sort c p = some (os, area) ↔
    ∃ overs buf p' copylen, build_overs 0 c.args = some overs ∧ os = sort overs ∧
      hfastrpc_buf_alloc p (metalen sh c) .METADATA = some (buf, p') ∧
      copylen_loop c (merge_overs 0 os) 0 = some copylen ∧
      copy_area sh c buf copylen p' = some area := by
  unfold prepare
  constructor
  · intro h
    rcases hb : build_overs 0 c.args with _ | overs
    · simp [hb] at h
    rcases halloc : hfastrpc_buf_alloc p (metalen sh c) .METADATA with _ | ⟨buf, p'⟩
    · simp [hb, halloc] at h
    rcases hlen : copylen_loop c (merge_overs 0 (sort overs)) 0 with _ | copylen
    · simp [hb, halloc, hlen] at h
    simp only [hb, halloc, hlen, Option.map_eq_some_iff, Prod.mk.injEq] at h
    obtain ⟨area', harea, rfl, rfl⟩ := h
    exact ⟨overs, buf, p', copylen, rfl, rfl, rfl, hlen, harea⟩
  · rintro ⟨overs, buf, p', copylen, hb, rfl, halloc, hlen, harea⟩
    simp [hb, halloc, hlen, harea]

/-- What the order has of the buffers, none of which ends behind the address space. -/
theorem prepare_describes (hperm : ∀ os, (sort os).Perm os)
    (h : prepare sh sort c p = some (os, area)) : ∀ o ∈ os, Describes c o ∧ o.stop < 2 ^ 64 := by
  obtain ⟨overs, _, _, _, hb, rfl, _⟩ := prepare_eq_some.mp h
  intro o ho
  have hdesc := (build_overs_call hb o ((hperm overs).mem_iff.mp ho)).1
  refine ⟨hdesc, ?_⟩
  rw [hdesc.2, hdesc.1]
  by_cases h0 : (c.arg o.raix).len = 0
  · rw [h0]
    exact BitVec.isLt _
  · exact (arg_bounds hb h0).2

/-- The order has each buffer once. -/
theorem prepare_nodup (hperm : ∀ os, (sort os).Perm os)
    (h : prepare sh sort c p = some (os, area)) : (os.map Overlap.raix).Nodup := by
  obtain ⟨overs, _, _, _, hbuilt, rfl, _⟩ := prepare_eq_some.mp h
  have hraixs := raix_perm hperm (show context_build_overlap sort c.args =
    some (merge_overs 0 (sort overs)) by simp [context_build_overlap, hbuilt])
  rw [raix_merge_overs] at hraixs
  exact hraixs.nodup_iff.mpr List.nodup_range'

/-- The area has the room that the loop of the lengths has counted, from its aligned start on. -/
theorem prepare_room (h : prepare sh sort c p = some (os, area))
    (hpages : ∀ b, area.copybuf = some b → PAGE_SIZE ∣ b.va ∧ b.va + PAGE_ALIGN b.size ≤ 2 ^ 64) :
    ∃ total, copylen_loop c (merge_overs 0 os) 0 = some total ∧
      ALIGN area.args BALIGN + total ≤ areaEnd area ∧ areaEnd area ≤ 2 ^ 64 := by
  obtain ⟨_, buf, p', copylen, _, _, halloc, hlen, harea⟩ := prepare_eq_some.mp h
  refine ⟨copylen, hlen, ?_⟩
  rcases hb : area.copybuf with _ | b
  · have hnone : copylen = 0 ∧ area.args = 0 := by
      simp only [copy_area] at harea
      split at harea
      · cases harea
        cases hb
      split at harea
      · obtain ⟨r, _, rfl⟩ := Option.map_eq_some_iff.mp harea
        cases hb
      · rename_i hzero
        cases harea
        exact ⟨by simpa using hzero, rfl⟩
    simp [areaEnd, hb, hnone.1, hnone.2, ALIGN_zero (show 0 < BALIGN by decide)]
  · obtain ⟨hva, hend⟩ := hpages b hb
    obtain ⟨_, _, _, hroom⟩ := copy_area_room harea hb hva (hfastrpc_buf_alloc_size halloc)
    simp only [areaEnd, hb]
    exact ⟨hroom, hend⟩

/-- The copies go behind the metadata when they fit on its last page. -/
theorem copy_area_behind {sh : AdsprpcShared} {c : Call} {buf : Buf} {copylen : Nat} {p : Pool}
    (h : ALIGN (metalen sh c) BALIGN + copylen ≤ buf_page_size (metalen sh c)) :
    copy_area sh c buf copylen p = some ⟨buf.va + metalen sh c,
      .ofNat 64 (ALIGN (metalen sh c) BALIGN + copylen - metalen sh c),
      .ofNat 64 (ALIGN (metalen sh c) BALIGN + copylen), some buf, []⟩ :=
  if_pos h

/-- What a turn finds: the cursor is behind the start of the area, and the part of the buffer behind
the others fits between it and what the loop of the lengths has counted. -/
theorem fill_room (hdesc : ∀ q ∈ pre ++ o :: post, Describes c q ∧ q.stop < 2 ^ 64)
    (hcop : c.copied o.raix = true)
    (hlen : copylen_loop c (merge_overs 0 (pre ++ o :: post)) 0 = some total) :
    reachOf pre < 2 ^ 64 ∧ area.args ≤ fill c 0 area.args pre ∧
      align_args (entry pre o) (fill c 0 area.args pre) + (entry pre o).mlen ≤
        ALIGN area.args BALIGN + total := by
  have hle : ∀ q ∈ pre, q.start ≤ q.stop :=
    fun q hq => (hdesc q (List.mem_append_left _ hq)).1.le
  have halign := le_ALIGN area.args (show 0 < BALIGN by decide)
  obtain ⟨n, hfill, hlen⟩ := fill_le (dvd_ALIGN area.args BALIGN) hle hlen
    (show area.args ≤ ALIGN area.args BALIGN + 0 by omega)
  rw [merge_overs_cons] at hlen
  have hturn := turn_le (dvd_ALIGN area.args BALIGN) hfill (entry pre o)
  have htotal := copylen_loop_mono
    (copylen_loop_cons hlen (by rw [merge_over_raix]; exact hcop))
  refine ⟨?_, le_fill _ _ _ _, ?_⟩
  · apply largest_lt (by decide)
    intro r hr
    obtain ⟨q, hq, rfl⟩ := List.mem_map.mp hr
    exact (hdesc q (List.mem_append_left _ hq)).2
  · unfold entry reachOf at *
    omega

/-- A place that is `k` bytes before the cursor, modulo the address space. -/
theorem back_iff {lo args k len top : Nat} (hk : k < 2 ^ 64) (hlen : 0 < len) (hlo : lo ≤ args)
    (htop : top ≤ 2 ^ 64) (hfit : args ≤ top ∧ args + len ≤ top + k) :
    (lo ≤ (2 ^ 64 - k + args % 2 ^ 64) % 2 ^ 64 ∧
        (2 ^ 64 - k + args % 2 ^ 64) % 2 ^ 64 + len ≤ top) ↔
      k ≤ args - lo ∨ 2 ^ 64 + args + len ≤ k + top := by
  by_cases hback : k ≤ args
  · have hmod : (2 ^ 64 - k + args % 2 ^ 64) % 2 ^ 64 = (args - k) % 2 ^ 64 := by omega
    rw [hmod]
    by_cases hlast : args - k = 2 ^ 64
    · omega
    · rw [Nat.mod_eq_of_lt (show args - k < 2 ^ 64 by omega)]
      omega
  · rw [Nat.mod_eq_of_lt (show args < 2 ^ 64 by omega),
      Nat.mod_eq_of_lt (show 2 ^ 64 - k + args < 2 ^ 64 by omega)]
    omega

/-- The place of a buffer is in the copy area just when there is room before the cursor for what the
buffers before it reach into it. -/
theorem placeOf_inArea_iff (hdesc : Describes c o) (hcop : c.copied o.raix = true)
    (hreach : reachOf pre < 2 ^ 64) (hlo : area.args ≤ fill c 0 area.args pre)
    (hturn : align_args (entry pre o) (fill c 0 area.args pre) + (entry pre o).mlen ≤ areaEnd area)
    (hend : areaEnd area ≤ 2 ^ 64) :
    InArea area (placeOf c area pre o) (c.arg o.raix).len ↔ HasRoom c area pre o := by
  obtain ⟨hstart, hstop⟩ := hdesc
  have hlen : 0 < (c.arg o.raix).len.toNat := by
    apply len_pos
    simp only [Call.copied, Bool.and_eq_true, decide_eq_true_eq] at hcop
    exact hcop.1
  have hsum := turn_args (reachOf pre) (fill c 0 area.args pre) o
  change align_args (entry pre o) _ + (entry pre o).mlen = _ at hsum
  unfold InArea HasRoom placeOf
  dsimp only
  rcases hb : area.copybuf with _ | b
  · have harea : areaEnd area = 0 := by simp [areaEnd, hb]
    simp only [Option.isSome_none, Bool.false_eq_true, false_and, false_iff]
    split at hsum <;> omega
  · simp only [Option.isSome_some, true_and]
    by_cases hin : reachOf pre ≤ o.start
    · have halign := le_ALIGN (fill c 0 area.args pre) (show 0 < BALIGN by decide)
      simp only [hin, if_true] at hsum ⊢
      rw [BitVec.toNat_ofNat]
      omega
    · simp only [hin, if_false] at hsum ⊢
      rw [BitVec.toNat_sub, BitVec.toNat_ofNat, BitVec.toNat_ofNat,
        Nat.mod_eq_of_lt (show reachOf pre - o.start < 2 ^ 64 by omega)]
      have hpart : o.stop - o.start = (c.arg o.raix).len.toNat := by omega
      rw [back_iff (by omega) hlen hlo hend (by omega), hpart]
      simp

end places

end virtual_fastrpc.copy_room
