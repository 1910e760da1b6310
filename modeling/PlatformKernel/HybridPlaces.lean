-- Where get_args of the hybrid driver puts the buffers without a map, and what
-- the DSP finds there: the loop that merges the overlaps and the copy loop pack
-- the buffers as one, and the loop that computes the length packs them too.
import PlatformKernel.HybridMarshal
import PlatformKernel.Lib.Packing
import Mathlib.Tactic.Ring

namespace virtual_fastrpc.hybrid_marshal

open bytes buffers packing

/-! ## Alignment -/

theorem ALIGN_add {a x y : Nat} (ha : 0 < a) (hx : a ∣ x) : ALIGN (x + y) a = x + ALIGN y a := by
  obtain ⟨k, rfl⟩ := hx
  unfold ALIGN
  rw [Nat.add_assoc, Nat.mul_add_div ha, Nat.add_mul, Nat.mul_comm k a]

theorem ALIGN_zero {a : Nat} (ha : 0 < a) : ALIGN 0 a = 0 := by
  unfold ALIGN
  rw [Nat.zero_add, Nat.div_eq_of_lt (by omega), Nat.zero_mul]

theorem dvd_ALIGN (x a : Nat) : a ∣ ALIGN x a := Nat.dvd_mul_left _ _

/-! ## The overlaps -/

/-- The overlap is that of the buffer `raix`. -/
def Describes (c : Call) (o : Overlap) : Prop :=
  o.start = (c.arg o.raix).pv.toNat ∧ o.stop = o.start + (c.arg o.raix).len.toNat

theorem build_overs_describes {i : Nat} {as : List Arg} {overs : List Overlap}
    (h : build_overs i as = some overs) : ∀ o ∈ overs, ∃ a, as[o.raix - i]? = some a ∧ i ≤ o.raix ∧
      o.start = a.pv.toNat ∧ o.stop = o.start + a.len.toNat := by
  induction as generalizing i overs with
  | nil =>
    cases h
    simp
  | cons a as ih =>
    simp only [build_overs] at h
    split at h
    · cases h
    rename_i hwrap
    obtain ⟨rest, hrest, he⟩ := Option.map_eq_some_iff.mp h
    cases he
    intro o ho
    rcases List.mem_cons.mp ho with rfl | ho
    · refine ⟨a, by simp, Nat.le_refl _, rfl, ?_⟩
      -- the buffer does not wrap around
      have hpv := a.pv.isLt
      have hlen := a.len.isLt
      by_cases h0 : a.len = 0
      · simp [h0]
      · have hlt : a.pv.toNat < (a.pv + a.len).toNat := by
          by_contra hge
          exact hwrap ⟨h0, by omega⟩
        dsimp only
        rw [BitVec.toNat_add] at hlt ⊢
        omega
    · obtain ⟨b, hb, hle, hrest⟩ := ih hrest o ho
      refine ⟨b, ?_, by omega, hrest⟩
      rw [show o.raix - i = (o.raix - (i + 1)) + 1 by omega, List.getElem?_cons_succ]
      exact hb

/-- The first loop makes one overlap of each buffer of the call. -/
theorem build_overs_call {c : Call} {overs : List Overlap} (h : build_overs 0 c.args = some overs) :
    ∀ o ∈ overs, Describes c o ∧ o.raix < c.args.length := by
  intro o ho
  obtain ⟨a, ha, _, hs, he⟩ := build_overs_describes h o ho
  rw [Nat.sub_zero] at ha
  have harg : c.arg o.raix = a := by simp [Call.arg, List.getD_eq_getElem?_getD, ha]
  rw [← harg] at hs he
  exact ⟨⟨hs, he⟩, (List.getElem?_eq_some_iff.mp ha).1⟩

theorem Describes.le {c : Call} {o : Overlap} (h : Describes c o) : o.start ≤ o.stop := by
  rw [h.2]
  exact Nat.le_add_right _ _

/-- A buffer that is not copied has a map, or is empty. -/
theorem Describes.skipped {c : Call} {o : Overlap} (h : Describes c o)
    (hcop : c.copied o.raix ≠ true) :
    (c.arg o.raix).map.isSome ∨ o.stop = o.start := by
  rcases hmap : (c.arg o.raix).map with _ | m
  · right
    have h0 : (c.arg o.raix).len = 0 := by
      by_contra h0
      refine hcop ?_
      rw [Call.copied, hmap, Option.isNone_none, Bool.and_true]
      exact decide_eq_true h0
    rw [h.2, h0]
    rfl
  · exact Or.inl rfl

theorem overlap_ptr_cmp_iff (a b : Overlap) : overlap_ptr_cmp a b = true ↔
    a.start < b.start ∨ (a.start = b.start ∧ b.stop ≤ a.stop) := by
  simp [overlap_ptr_cmp]

theorem start_le_of_cmp {a b : Overlap} (h : overlap_ptr_cmp a b = true) : a.start ≤ b.start := by
  rw [overlap_ptr_cmp_iff] at h
  omega

/-- The merged overlap of `o`, when the buffers before it reach up to `reach`. -/
def merge_over (reach : Nat) (o : Overlap) : Overlap :=
  if o.start < reach then
    if reach < o.stop then
      { o with mstart := reach, mend := o.stop, offset := reach - o.start }
    else { o with mstart := 0, mend := 0, offset := reach - o.start }
  else { o with mstart := o.start, mend := o.stop, offset := 0 }

def merge_reach (reach : Nat) (o : Overlap) : Nat :=
  if o.start < reach then max reach o.stop else o.stop

theorem merge_overs_cons (reach : Nat) (o : Overlap) (os : List Overlap) :
    merge_overs reach (o :: os) = merge_over reach o :: merge_overs (merge_reach reach o) os := by
  rw [merge_overs]
  unfold merge_over merge_reach
  split
  · split
    · rw [Nat.max_eq_right (by omega)]
    · rw [Nat.max_eq_left (by omega)]
  · rfl

@[simp] theorem merge_over_raix (reach : Nat) (o : Overlap) :
    (merge_over reach o).raix = o.raix := by
  unfold merge_over
  split
  · split <;> rfl
  · rfl

/-! ## One turn of the packing -/

/-- The bytes that a turn adds to the copy area. -/
def Overlap.mlen (o : Overlap) : Nat := o.mend - o.mstart

section turns

variable {lo group base reach args : Nat} {ps : List Piece} {o : Overlap}

/-- A buffer is packed at `offset` before `args`, which is aligned when a group begins. -/
theorem packed_turn (h : Packed lo group base reach args ps) (hg : group ≤ o.start)
    (hle : o.start ≤ o.stop) : ∃ group' base', group' ≤ o.start ∧
      (merge_over reach o).offset ≤ align_args (merge_over reach o) args ∧
      Packed lo group' base' (merge_reach reach o)
        (align_args (merge_over reach o) args + (merge_over reach o).mlen)
        (ps ++ [⟨o.start, o.stop,
          align_args (merge_over reach o) args - (merge_over reach o).offset⟩]) := by
  unfold merge_reach align_args Overlap.mlen
  by_cases hin : o.start < reach
  · -- the buffer begins inside the open group
    have hshift := h.shift
    have hbase := h.group_le
    have hpos : reach - o.start ≠ 0 := by omega
    have hplace := h.place hg (Nat.le_of_lt hin) hle
    refine ⟨group, base, hg, ?_⟩
    by_cases hout : reach < o.stop
    · simp only [merge_over, hin, hout, if_true, hpos, if_false]
      exact ⟨by omega, hplace⟩
    · simp only [merge_over, hin, hout, if_true, if_false, hpos, Nat.sub_self]
      rw [show o.stop - reach = 0 by omega] at hplace
      exact ⟨by omega, hplace⟩
  · -- it opens a new group
    have hreach : reach ≤ o.start := Nat.le_of_not_lt hin
    have halign : args ≤ ALIGN args BALIGN := le_ALIGN args (by decide)
    have hopen : Packed lo o.start (ALIGN args BALIGN) o.start (ALIGN args BALIGN) ps :=
      h.open hreach halign
    have hplace := hopen.place (Nat.le_refl _) (Nat.le_refl _) hle
    rw [Nat.max_eq_right hle, Nat.sub_self] at hplace
    refine ⟨o.start, ALIGN args BALIGN, Nat.le_refl _, ?_⟩
    simp only [merge_over, hin, if_false, if_true]
    exact ⟨Nat.zero_le _, hplace⟩

/-- An empty buffer is not packed, and at most opens an empty group. -/
theorem packed_skip (h : Packed lo group base reach args ps) (hg : group ≤ o.start)
    (hempty : o.stop = o.start) : ∃ group' base', group' ≤ o.start ∧
      Packed lo group' base' (merge_reach reach o) args ps := by
  unfold merge_reach
  split
  · rename_i hin
    refine ⟨group, base, hg, ?_⟩
    rw [hempty, Nat.max_eq_left (by omega)]
    exact h
  · rename_i hin
    refine ⟨o.start, args, Nat.le_refl _, ?_⟩
    rw [hempty]
    exact h.open (Nat.le_of_not_lt hin) (Nat.le_refl _)

end turns

/-! ## One turn of the copy loop -/

/-- The place that a turn of the copy loop gives to the buffer. -/
def copyPv (o : Overlap) (s : Cursor) : BitVec 64 :=
  BitVec.ofNat 64 (align_args o s.args) - BitVec.ofNat 64 o.offset

/-- `rlen` in a turn, after `args` is aligned. -/
def copyRlen (o : Overlap) (s : Cursor) : BitVec 64 :=
  s.rlen - BitVec.ofNat 64 (align_args o s.args - s.args)

/-- A turn that does not fail has a copy buffer. -/
theorem copy_buf_copybuf {c : Call} {area : Area} {o : Overlap} {s s' : Cursor}
    (h : copy_buf c area o s = .ok s') : ∃ b, area.copybuf = some b := by
  rcases hb : area.copybuf with _ | b
  · simp only [copy_buf, hb] at h
    split at h <;> cases h
  · exact ⟨b, rfl⟩

/-- All that a turn of the copy loop does. -/
theorem copy_buf_spec {c : Call} {area : Area} {o : Overlap} {s s' : Cursor} {b : Buf}
    (h : copy_buf c area o s = .ok s') (hb : area.copybuf = some b) :
    s'.args = align_args o s.args + o.mlen ∧
    s'.rlen = copyRlen o s - BitVec.ofNat 64 o.mlen ∧
    s'.md.rpra = Function.update s.md.rpra o.raix { s.md.rpra o.raix with pv := copyPv o s } ∧
    s'.md.list = s.md.list ∧
    s'.md.pages = Function.update s.md.pages (s.md.list o.raix).pgidx
      ⟨buf_page_start (c.da b - BitVec.ofNat 64 o.offset + (area.totallen - copyRlen o s)),
        buf_num_pages (copyPv o s) (c.arg o.raix).len * BitVec.ofNat 64 PAGE_SIZE⟩ ∧
    ((o.raix < c.inbufs ∧ ∃ bs,
        copy_from_user c.user (c.arg o.raix).pv.toNat (c.arg o.raix).len.toNat = some bs ∧
        s'.copies = s.copies ++ [((copyPv o s).toNat, bs)]) ∨
      (¬ o.raix < c.inbufs ∧ s'.copies = s.copies)) := by
  simp only [copy_buf] at h
  split at h
  · cases h
  rw [hb] at h
  dsimp only at h
  split at h
  · rename_i hin
    split at h
    · cases h
    · rename_i bs hbs
      cases h
      exact ⟨rfl, rfl, rfl, rfl, rfl, Or.inl ⟨hin, bs, hbs, rfl⟩⟩
  · rename_i hin
    cases h
    exact ⟨rfl, rfl, rfl, rfl, rfl, Or.inr ⟨hin, rfl⟩⟩

/-- The buffer `i`, when its first byte is at `spot i`. -/
def piece (c : Call) (spot : Nat → Nat) (i : Nat) : Piece :=
  ⟨(c.arg i).pv.toNat, (c.arg i).pv.toNat + (c.arg i).len.toNat, spot i⟩

/-- Its device address. -/
def image (c : Call) (b : Buf) (spot : Nat → Nat) (i : Nat) : BitVec 64 :=
  c.da b + (BitVec.ofNat 64 (spot i) - BitVec.ofNat 64 b.va)

/-- The copy of the in-buffer `i`. -/
def CopyOf (c : Call) (spot : Nat → Nat) (i : Nat) (w : Nat × List Byte) : Prop :=
  w.1 = (BitVec.ofNat 64 (spot i)).toNat ∧
    copy_from_user c.user (c.arg i).pv.toNat (c.arg i).len.toNat = some w.2

/-- The invariant of the copy loop, which has seen the buffers `is` and has put them at their
spots in the buffer `b`. -/
structure Placing (c : Call) (area : Area) (b : Buf) (lo : Nat) (spot : Nat → Nat) (is : List Nat)
    (group base reach : Nat) (s : Cursor) : Prop where
  packed : Packed lo group base reach s.args (is.map (piece c spot))
  rpra : ∀ i ∈ is, (s.md.rpra i).pv = BitVec.ofNat 64 (spot i)
  va_le : b.va ≤ s.args
  rlen : area.totallen - s.rlen = BitVec.ofNat 64 (s.args - b.va)
  list : ∀ i, i < c.args.length → (s.md.list i).pgidx = i
  pages : ∀ i ∈ is, s.md.pages i = ⟨buf_page_start (image c b spot i),
    buf_num_pages (BitVec.ofNat 64 (spot i)) (c.arg i).len * BitVec.ofNat 64 PAGE_SIZE⟩
  copies : ∀ w ∈ s.copies, ∃ i ∈ is, i < c.inbufs ∧ CopyOf c spot i w
  copied : ∀ i ∈ is, i < c.inbufs → ∃ w ∈ s.copies, CopyOf c spot i w

section placing

variable {c : Call} {area : Area} {b : Buf} {lo group base reach : Nat} {spot : Nat → Nat}
  {is : List Nat} {s s' : Cursor} {o : Overlap}

theorem le_align_args (o : Overlap) (args : Nat) : args ≤ align_args o args := by
  unfold align_args
  split
  · exact le_ALIGN args (by decide)
  · exact Nat.le_refl _

theorem ofNat_sub {x y : Nat} (h : y ≤ x) :
    BitVec.ofNat 64 (x - y) = BitVec.ofNat 64 x - BitVec.ofNat 64 y := by
  obtain ⟨k, rfl⟩ := Nat.exists_eq_add_of_le h
  rw [Nat.add_sub_cancel_left, BitVec.ofNat_add]
  exact (by rw [BitVec.add_comm, BitVec.add_sub_cancel])

/-- A turn of the copy loop for a buffer that it has not seen. -/
theorem Placing.turn (h : Placing c area b lo spot is group base reach s)
    (hb : area.copybuf = some b) (hcopy : copy_buf c area (merge_over reach o) s = .ok s')
    (hdesc : Describes c o) (hg : group ≤ o.start) (hnew : o.raix ∉ is)
    (hi : o.raix < c.args.length) :
    ∃ spot' group' base', group' ≤ o.start ∧
      Placing c area b lo spot' (is ++ [o.raix]) group' base' (merge_reach reach o) s' := by
  obtain ⟨hargs, hrlen, hrpra, hlist, hpages, hcopies⟩ := copy_buf_spec hcopy hb
  obtain ⟨group', base', hgroup, hoff, hpacked⟩ := packed_turn h.packed hg hdesc.le
  rw [merge_over_raix] at hrpra hpages hcopies
  generalize hm : merge_over reach o = m at *
  have hA : s.args ≤ align_args m s.args := le_align_args m s.args
  have hva := h.va_le
  -- the place of the buffer
  let spot' := Function.update spot o.raix (align_args m s.args - m.offset)
  have hself : spot' o.raix = align_args m s.args - m.offset := Function.update_self ..
  have hne : ∀ i ∈ is, i ≠ o.raix := fun i hi he => hnew (he ▸ hi)
  have hold : ∀ i ∈ is, spot' i = spot i := fun i hi => Function.update_of_ne (hne i hi) ..
  have hpv : copyPv m s = BitVec.ofNat 64 (spot' o.raix) := by
    rw [hself, ofNat_sub hoff]
    rfl
  -- `rlen` goes down as `args` goes up
  have hrest : area.totallen - copyRlen m s = BitVec.ofNat 64 (align_args m s.args - b.va) := by
    have hsum : align_args m s.args - b.va = (s.args - b.va) + (align_args m s.args - s.args) := by
      omega
    rw [hsum, BitVec.ofNat_add, ← h.rlen]
    unfold copyRlen
    ring
  have hcopyOf : ∀ i ∈ is, ∀ w, CopyOf c spot' i w ↔ CopyOf c spot i w := by
    intro i hi w
    unfold CopyOf
    rw [hold i hi]
  refine ⟨spot', group', base', hgroup, ?_, ?_, ?_, ?_, ?_, ?_, ?_, ?_⟩
  · have hmap : (is ++ [o.raix]).map (piece c spot') =
        is.map (piece c spot) ++ [⟨o.start, o.stop, align_args m s.args - m.offset⟩] := by
      rw [List.map_append]
      congr 1
      · apply List.map_congr_left
        intro i hi
        simp only [piece, hold i hi]
      · simp only [List.map_cons, List.map_nil, piece, hself, hdesc.1, hdesc.2]
    rw [hmap, hargs]
    exact hpacked
  · intro i hi
    rw [hrpra]
    rcases List.mem_append.mp hi with hi | hi
    · rw [Function.update_of_ne (hne i hi), hold i hi]
      exact h.rpra i hi
    · rw [List.mem_singleton.mp hi, Function.update_self]
      exact hpv
  · rw [hargs]
    omega
  · have hsum : s'.args - b.va = (align_args m s.args - b.va) + m.mlen := by omega
    rw [hsum, BitVec.ofNat_add, ← hrest, hrlen]
    ring
  · rw [hlist]
    exact h.list
  · intro i hi
    rw [hpages, h.list o.raix ‹_›]
    rcases List.mem_append.mp hi with hi | hi
    · rw [Function.update_of_ne (hne i hi), h.pages i hi]
      simp only [image, hold i hi]
    · rw [List.mem_singleton.mp hi, Function.update_self, hpv, hrest, ofNat_sub (by omega)]
      have himage : c.da b - BitVec.ofNat 64 m.offset +
          (BitVec.ofNat 64 (align_args m s.args) - BitVec.ofNat 64 b.va) =
            image c b spot' o.raix := by
        unfold image
        rw [← hpv]
        unfold copyPv
        ring
      rw [himage]
  · intro w hw
    rcases hcopies with ⟨hin, bs, hbs, he⟩ | ⟨_, he⟩
    · rw [he] at hw
      rcases List.mem_append.mp hw with hw | hw
      · obtain ⟨i, hi, hlt, hcopy⟩ := h.copies w hw
        exact ⟨i, List.mem_append_left _ hi, hlt, (hcopyOf i hi w).mpr hcopy⟩
      · rw [List.mem_singleton.mp hw, hpv]
        exact ⟨o.raix, by simp, hin, rfl, hbs⟩
    · rw [he] at hw
      obtain ⟨i, hi, hlt, hcopy⟩ := h.copies w hw
      exact ⟨i, List.mem_append_left _ hi, hlt, (hcopyOf i hi w).mpr hcopy⟩
  · intro i hi hlt
    have hsub : ∀ w ∈ s.copies, w ∈ s'.copies := by
      intro w hw
      rcases hcopies with ⟨_, bs, _, he⟩ | ⟨_, he⟩
      · rw [he]
        exact List.mem_append_left _ hw
      · rw [he]
        exact hw
    rcases List.mem_append.mp hi with hi | hi
    · obtain ⟨w, hw, hcopy⟩ := h.copied i hi hlt
      exact ⟨w, hsub w hw, (hcopyOf i hi w).mpr hcopy⟩
    · cases List.mem_singleton.mp hi
      rcases hcopies with ⟨_, bs, hbs, he⟩ | ⟨hout, _⟩
      · exact ⟨((copyPv m s).toNat, bs), by simp [he], by rw [hpv], hbs⟩
      · exact absurd hlt hout

theorem Placing.skip (h : Placing c area b lo spot is group base reach s) (hg : group ≤ o.start)
    (hempty : o.stop = o.start) : ∃ group' base', group' ≤ o.start ∧
      Placing c area b lo spot is group' base' (merge_reach reach o) s := by
  obtain ⟨group', base', hgroup, hpacked⟩ := packed_skip h.packed hg hempty
  exact ⟨group', base', hgroup, hpacked, h.rpra, h.va_le, h.rlen, h.list, h.pages,
    h.copies, h.copied⟩

end placing

/-! ## The two loops -/

/-- The copy loop is as far behind the aligned start `start` as the loop of the lengths has
counted, or no buffer was copied yet and the next one begins a group. -/
def Room (c : Call) (start reach : Nat) (os : List Overlap) (args copylen : Nat) : Prop :=
  args = start + copylen ∨
    (copylen = 0 ∧ ALIGN args BALIGN = start ∧ ∀ o ∈ os, c.copied o.raix = true → reach ≤ o.start)

section loops

variable {c : Call} {area : Area} {b : Buf} {start reach args copylen : Nat} {o : Overlap}
  {os : List Overlap}

theorem Room.le (h : Room c start reach os args copylen) : args ≤ start + copylen := by
  rcases h with h | ⟨_, h, _⟩
  · exact Nat.le_of_eq h
  · have := le_ALIGN args (show 0 < BALIGN by decide)
    omega

/-- Both loops align and advance by the same. -/
theorem Room.turn (h : Room c start reach (o :: os) args copylen) (hstart : BALIGN ∣ start)
    (hcop : c.copied o.raix = true) :
    align_args (merge_over reach o) args + (merge_over reach o).mlen = start +
      ((if (merge_over reach o).offset = 0 then ALIGN copylen BALIGN else copylen) +
        (merge_over reach o).mlen) := by
  unfold align_args
  rcases h with rfl | ⟨rfl, halign, hfirst⟩
  · split
    · rw [ALIGN_add (by decide) hstart]
      omega
    · omega
  · have hoff : (merge_over reach o).offset = 0 := by
      have hreach := hfirst o List.mem_cons_self hcop
      simp [merge_over, Nat.not_lt.mpr hreach]
    rw [if_pos hoff, if_pos hoff, halign, ALIGN_zero (by decide)]
    omega

theorem Room.skip (h : Room c start reach (o :: os) args copylen) (hempty : o.stop = o.start)
    (hsorted : ∀ o' ∈ os, o.start ≤ o'.start) :
    Room c start (merge_reach reach o) os args copylen := by
  refine h.imp id (fun ⟨h0, halign, hfirst⟩ => ⟨h0, halign, fun o' ho' hcop => ?_⟩)
  have hreach := hfirst o' (List.mem_cons_of_mem _ ho') hcop
  have hstart := hsorted o' ho'
  unfold merge_reach
  split <;> omega

/-- The loop of the lengths, one turn for a buffer that is copied. -/
theorem copylen_loop_cons {ms : List Overlap} {m : Overlap} {n total : Nat}
    (h : copylen_loop c (m :: ms) n = some total) (hcop : c.copied m.raix = true) :
    copylen_loop c ms ((if m.offset = 0 then ALIGN n BALIGN else n) + m.mlen) = some total := by
  simp only [copylen_loop, hcop, if_true] at h
  exact (Option.ite_none_right_eq_some.mp h).2

theorem copylen_loop_le {ms : List Overlap} {n total : Nat}
    (h : copylen_loop c ms n = some total) (hn : n ≤ LONG_MAX) : total ≤ LONG_MAX := by
  induction ms generalizing n with
  | nil =>
    cases h
    exact hn
  | cons m ms ih =>
    unfold copylen_loop at h
    split at h
    · obtain ⟨hroom, h⟩ := Option.ite_none_right_eq_some.mp h
      exact ih h (by omega)
    · exact ih h hn

theorem copied_iff (hun : ∀ i, (c.arg i).map = none) (i : Nat) :
    c.copied i = true ↔ (c.arg i).len ≠ 0 := by
  simp [Call.copied, hun i]

/-- The two loops over the buffers, none of which has a map: the copies are packed in the order
of the overlaps, and take as much room as the loop of the lengths has counted. -/
theorem copy_loop_placing (hun : ∀ i, (c.arg i).map = none) (hb : area.copybuf = some b)
    (hstart : BALIGN ∣ start) {total lo group base : Nat} {spot : Nat → Nat} {is : List Nat}
    {s s' : Cursor} (hsorted : os.Pairwise (fun a b => a.start ≤ b.start))
    (hdesc : ∀ o ∈ os, Describes c o ∧ o.raix < c.args.length)
    (hnodup : (is ++ os.map Overlap.raix).Nodup) (hg : ∀ o ∈ os, group ≤ o.start)
    (hlen : copylen_loop c (merge_overs reach os) copylen = some total)
    (hloop : copy_loop c area (merge_overs reach os) s = .ok s')
    (hroom : Room c start reach os s.args copylen)
    (h : Placing c area b lo spot is group base reach s) :
    ∃ spot' group' base' reach', s'.args ≤ start + total ∧
      Placing c area b lo spot' (is ++ (os.map Overlap.raix).filter (c.copied ·)) group' base'
        reach' s' := by
  induction os generalizing reach copylen group base spot is s with
  | nil =>
    cases hlen
    cases hloop
    refine ⟨spot, group, base, reach, hroom.le, ?_⟩
    simpa using h
  | cons o os ih =>
    obtain ⟨hfirst, hsorted⟩ := List.pairwise_cons.mp hsorted
    obtain ⟨⟨hd, hlt⟩, hdesc⟩ := List.forall_mem_cons.mp hdesc
    obtain ⟨hgo, _⟩ := List.forall_mem_cons.mp hg
    rw [merge_overs_cons] at hlen hloop
    have hnew : o.raix ∉ is := by
      intro hmem
      exact (List.nodup_append.mp hnodup).2.2 o.raix hmem o.raix (by simp) rfl
    rcases copy_loop_cons hloop with ⟨hcop, s₁, hone, hloop⟩ | ⟨hcop', hloop⟩
    · have hlen := copylen_loop_cons hlen hcop
      rw [merge_over_raix] at hcop
      obtain ⟨spot₁, group₁, base₁, hgroup, hturn⟩ := h.turn hb hone hd hgo hnew hlt
      have hargs := (copy_buf_spec hone hb).1
      rw [List.map_cons, List.filter_cons_of_pos hcop, List.append_cons]
      refine ih hsorted hdesc ?_ ?_ hlen hloop ?_ hturn
      · rw [List.map_cons, List.append_cons] at hnodup
        exact hnodup
      · intro o' ho'
        exact Nat.le_trans hgroup (hfirst o' ho')
      · exact Or.inl (hargs.trans (hroom.turn hstart hcop))
    · have hcop : ¬c.copied o.raix = true := by rwa [merge_over_raix] at hcop'
      have hempty : o.stop = o.start := by
        rw [copied_iff hun, not_not] at hcop
        rw [hd.2, hcop]
        rfl
      obtain ⟨group₁, base₁, hgroup, hskip⟩ := h.skip hgo hempty
      simp only [copylen_loop, hcop'] at hlen
      rw [List.map_cons, List.filter_cons_of_neg hcop]
      refine ih hsorted hdesc ?_ ?_ hlen hloop (hroom.skip hempty hfirst) hskip
      · rw [List.map_cons] at hnodup
        exact hnodup.sublist ((List.sublist_cons_self _ _).append_left is)
      · intro o' ho'
        exact Nat.le_trans hgroup (hfirst o' ho')

end loops

end virtual_fastrpc.hybrid_marshal
