-- What the DSP gets of the buffers of a hybrid invoke when none of them has a
-- map: the bytes of the in-buffers, the overlaps of the buffers, and the pages
-- of each buffer on the device.
import PlatformKernel.HybridPlaces

namespace virtual_fastrpc.hybrid_marshal

open bytes buffers packing

/-! ## Pages -/

theorem buf_page_start_eq (x : BitVec 64) : buf_page_start x = (x >>> 12) <<< 12 := by
  apply BitVec.eq_of_getLsbD_eq
  intro i hi
  have hmask : (4095#64).getLsbD i = decide (i < 12) := by
    rw [BitVec.getLsbD_ofNat, show 4095 = 2 ^ 12 - 1 by decide, Nat.testBit_two_pow_sub_one]
    simp [hi]
  simp only [buf_page_start, PAGE_MASK, PAGE_SIZE, BitVec.getLsbD_and, BitVec.getLsbD_not,
    BitVec.getLsbD_shiftLeft, BitVec.getLsbD_ushiftRight]
  norm_num
  rw [hmask]
  by_cases h : i < 12
  · simp [h]
  · simp [h, hi, show 12 + (i - 12) = i by omega]

theorem buf_page_start_toNat (x : BitVec 64) :
    (buf_page_start x).toNat = x.toNat / PAGE_SIZE * PAGE_SIZE := by
  have hx := x.isLt
  rw [buf_page_start_eq, BitVec.toNat_shiftLeft, BitVec.toNat_ushiftRight,
    Nat.shiftRight_eq_div_pow, Nat.shiftLeft_eq]
  unfold PAGE_SIZE
  norm_num
  omega

theorem buf_page_start_ushiftRight (x : BitVec 64) :
    (buf_page_start x >>> PAGE_SHIFT).toNat = x.toNat / PAGE_SIZE := by
  rw [BitVec.toNat_ushiftRight, buf_page_start_toNat, Nat.shiftRight_eq_div_pow]
  unfold PAGE_SHIFT PAGE_SIZE
  omega

theorem buf_num_pages_toNat {x len : BitVec 64} (h0 : len ≠ 0)
    (hend : x.toNat + len.toNat ≤ 2 ^ 64) :
    (buf_num_pages x len).toNat =
      (x.toNat + len.toNat - 1) / PAGE_SIZE - x.toNat / PAGE_SIZE + 1 := by
  have hlen : 0 < len.toNat := by
    rcases Nat.eq_zero_or_pos len.toNat with h | h
    · exact absurd (BitVec.eq_of_toNat_eq h) h0
    · exact h
  have hlast : (x + len - 1).toNat = x.toNat + len.toNat - 1 := by
    have := x.isLt
    have := len.isLt
    rw [BitVec.toNat_sub, BitVec.toNat_add]
    simp
    omega
  have h1 := buf_page_start_ushiftRight (x + len - 1)
  have h2 := buf_page_start_ushiftRight x
  rw [hlast] at h1
  unfold buf_num_pages
  rw [BitVec.toNat_add, BitVec.toNat_sub, h2]
  unfold buf_page_start at h1
  rw [h1]
  simp [PAGE_SIZE]
  omega

/-- The pages are those of the `len` bytes at the device address `x`, from the start of the first
to the end of the last one. -/
def Covers (page : PhyPage) (x len : BitVec 64) : Prop :=
  page.addr.toNat = x.toNat / PAGE_SIZE * PAGE_SIZE ∧
    page.size.toNat = PAGE_ALIGN (x.toNat % PAGE_SIZE + len.toNat)

/-- The number of pages is computed from the address in the kernel, which lies as the device
address does in its page. -/
theorem covers_pages {x pv len : BitVec 64} (h0 : len ≠ 0) (hend : pv.toNat + len.toNat ≤ 2 ^ 64)
    (hmax : len.toNat ≤ LONG_MAX + BALIGN) (hpage : x.toNat % PAGE_SIZE = pv.toNat % PAGE_SIZE) :
    Covers ⟨buf_page_start x, buf_num_pages pv len * BitVec.ofNat 64 PAGE_SIZE⟩ x len := by
  refine ⟨buf_page_start_toNat x, ?_⟩
  rw [BitVec.toNat_mul, buf_num_pages_toNat h0 hend, hpage]
  unfold PAGE_ALIGN ALIGN PAGE_SIZE
  unfold LONG_MAX BALIGN at hmax
  have hlen : 0 < len.toNat := by
    rcases Nat.eq_zero_or_pos len.toNat with h | h
    · exact absurd (BitVec.eq_of_toNat_eq h) h0
    · exact h
  simp
  omega

/-- A device address lies in its page as the address in the kernel does. -/
theorem image_page {da pv : BitVec 64} {va : Nat} (hda : PAGE_SIZE ∣ da.toNat)
    (hva : PAGE_SIZE ∣ va) :
    (da + (pv - BitVec.ofNat 64 va)).toNat % PAGE_SIZE = pv.toNat % PAGE_SIZE := by
  unfold PAGE_SIZE at *
  rw [BitVec.toNat_add, BitVec.toNat_sub, BitVec.toNat_ofNat]
  omega

/-! ## The copy area -/

theorem ALIGN_le (x : Nat) {a : Nat} (ha : 0 < a) : ALIGN x a ≤ x + a := by
  have hdiv : ALIGN x a ≤ x + (a - 1) := Nat.div_mul_le_self _ _
  omega

theorem PAGE_ALIGN_mono {x y : Nat} (h : x ≤ y) : PAGE_ALIGN x ≤ PAGE_ALIGN y := ALIGN_mono _ h

theorem buf_page_size_le {size : Nat} (h : 0 < size) : buf_page_size size ≤ PAGE_ALIGN size := by
  have hmod : PAGE_ALIGN (size % 2 ^ 32) ≤ PAGE_ALIGN size := PAGE_ALIGN_mono (Nat.mod_le _ _)
  have hpage : PAGE_SIZE ≤ PAGE_ALIGN size := by
    unfold PAGE_ALIGN ALIGN PAGE_SIZE
    omega
  exact Nat.max_le.mpr ⟨hmod, hpage⟩

theorem metalen_pos (sh : AdsprpcShared) (c : Call) : 0 < metalen sh c := by
  unfold metalen
  omega

/-- Both copy areas have their start aligned where the first copy goes, hold all that the loop of
the lengths has counted, and `rlen` is what is left of `totallen` there. -/
theorem copy_area_room {sh : AdsprpcShared} {c : Call} {buf b : Buf} {copylen : Nat} {p : Pool}
    {area : Area} (h : copy_area sh c buf copylen p = some area) (hb : area.copybuf = some b)
    (hva : PAGE_SIZE ∣ b.va) (hbuf : metalen sh c ≤ buf.size) :
    BALIGN ∣ ALIGN area.args BALIGN ∧ b.va ≤ area.args ∧
      area.totallen - area.rlen = BitVec.ofNat 64 (area.args - b.va) ∧
      ALIGN area.args BALIGN + copylen ≤ b.va + PAGE_ALIGN b.size := by
  have hva' : BALIGN ∣ b.va := Nat.dvd_trans (by decide) hva
  refine ⟨dvd_ALIGN _ _, ?_⟩
  simp only [copy_area] at h
  split at h
  · -- behind the metadata
    rename_i hfit
    cases h
    cases hb
    have hmeta : metalen sh c ≤ ALIGN (metalen sh c) BALIGN := le_ALIGN _ (by decide)
    have hsize := Nat.le_trans (buf_page_size_le (metalen_pos sh c)) (PAGE_ALIGN_mono hbuf)
    refine ⟨Nat.le_add_right _ _, ?_, ?_⟩
    · have hle : metalen sh c ≤ ALIGN (metalen sh c) BALIGN + copylen := by omega
      rw [Nat.add_sub_cancel_left, ofNat_sub hle]
      ring
    · rw [ALIGN_add (by decide) hva']
      omega
  · split at h
    · -- in a buffer of its own
      obtain ⟨⟨b', p'⟩, halloc, rfl⟩ := Option.map_eq_some_iff.mp h
      obtain rfl : b' = b := Option.some.inj hb
      have hsize := hfastrpc_buf_alloc_size halloc
      have hpages : b'.size ≤ PAGE_ALIGN b'.size := le_ALIGN _ (by decide)
      refine ⟨Nat.le_refl _, by simp, ?_⟩
      have halign : ALIGN b'.va BALIGN = b'.va := by
        have hadd := ALIGN_add (y := 0) (show 0 < BALIGN by decide) hva'
        rwa [ALIGN_zero (by decide), Nat.add_zero] at hadd
      rw [halign]
      omega
    · cases h
      cases hb

/-! ## What get_args has done -/

/-- The parts of a get_args that succeeds. -/
structure Ran (sh : AdsprpcShared) (sort : List Overlap → List Overlap) (c : Call) (p : Pool)
    (l : Layout) (overs : List Overlap) (copylen : Nat) (area : Area) (md : Metadata) : Prop where
  built : build_overs 0 c.args = some overs
  lengths : copylen_loop c (merge_overs 0 (sort overs)) 0 = some copylen
  header : metalen sh c ≤ l.buf.size
  chosen : ∃ p', hfastrpc_buf_alloc p (metalen sh c) .METADATA = some (l.buf, p') ∧
    copy_area sh c l.buf copylen p' = some area
  maps : map_loop 0 c.args (list_loop c .zero) = .ok md
  copybuf : l.copybuf = area.copybuf
  cleared : l.cleared = (l.buf.va, zeros (metalen sh c)) :: area.cleared
  lost : c.Lost → l.md = (handle_loop c.args.length c.handles md).1
  copied : ¬ c.Lost → ∃ s, copy_loop c area (merge_overs 0 (sort overs))
    ⟨area.args, area.rlen, (handle_loop c.args.length c.handles md).1, []⟩ = .ok s ∧
      l.copies = s.copies ∧ l.md = dma_loop c s.md ∧ l.lrpra = s.md.rpra

theorem get_args_ran {sh : AdsprpcShared} {sort : List Overlap → List Overlap} {c : Call} {p : Pool}
    {l : Layout} (h : get_args sh sort c p = .ok l) :
    ∃ overs copylen area md, Ran sh sort c p l overs copylen area md := by
  unfold get_args context_build_overlap at h
  rcases hover : build_overs 0 c.args with _ | overs
  · simp [hover] at h
  simp only [hover, Option.map_some] at h
  split at h
  · cases h
  rename_i buf p' halloc
  split at h
  · cases h
  split at h
  · cases h
  rename_i copylen hlen
  split at h
  · cases h
  rename_i area harea
  split at h
  · cases h
  rename_i md hmap
  have hfound := handle_loop_found c.args.length c.handles md
  have hlost : c.Lost ↔ (handle_loop c.args.length c.handles md).2 = false := by
    rw [← Bool.not_eq_true, hfound]
    simp [Call.Lost]
  split at h
  · rename_i md₁ hh
    rw [hh] at hlost
    cases h
    refine ⟨overs, copylen, area, md, hover, hlen, hfastrpc_buf_alloc_size halloc,
      ⟨p', halloc, harea⟩, hmap, rfl, rfl, fun _ => by rw [hh], fun hnot =>
        absurd (hlost.mpr rfl) hnot⟩
  · rename_i md₁ hh
    rw [hh] at hlost
    split at h
    · cases h
    rename_i s hloop
    cases h
    refine ⟨overs, copylen, area, md, hover, hlen, hfastrpc_buf_alloc_size halloc,
      ⟨p', halloc, harea⟩, hmap, rfl, rfl, fun hl => absurd (hlost.mp hl) (by simp),
      fun _ => ⟨s, by rw [hh]; exact hloop, rfl, rfl, rfl⟩⟩

/-! ## The arrays of the metadata -/

theorem map_loop_frame {i : Nat} {as : List Arg} {md md' : Metadata}
    (hun : ∀ a ∈ as, a.map = none) (h : map_loop i as md = .ok md') :
    md'.list = md.list ∧ md'.pages = md.pages := by
  induction as generalizing i md with
  | nil =>
    cases h
    exact ⟨rfl, rfl⟩
  | cons a as ih =>
    obtain ⟨ha, has⟩ := List.forall_mem_cons.mp hun
    simp only [map_loop, ha, ite_self] at h
    have hrest := ih has h
    exact hrest

theorem list_loop_pgidx {c : Call} {i : Nat} (hi : i < c.args.length) :
    ((list_loop c .zero).list i).pgidx = i := by
  have hlt : i < c.length := Nat.lt_of_lt_of_le hi (Nat.le_add_right _ _)
  simp [list_loop, hlt]

theorem handle_loop_frame (i : Nat) (hs : List Handle) (md : Metadata) :
    (handle_loop i hs md).1.list = md.list ∧
      ∀ k, k < i → (handle_loop i hs md).1.pages k = md.pages k := by
  induction hs generalizing i md with
  | nil => exact ⟨rfl, fun _ _ => rfl⟩
  | cons h hs ih =>
    unfold handle_loop
    split
    · exact ⟨(ih _ _).1, fun k hk => (ih _ _).2 k (by omega)⟩
    · exact ⟨rfl, fun _ _ => rfl⟩
    · refine ⟨(ih _ _).1, fun k hk => ?_⟩
      have hne : k ≠ i := by omega
      exact ((ih _ _).2 k (by omega)).trans (Function.update_of_ne hne ..)

theorem dma_loop_frame (c : Call) (md : Metadata) :
    (dma_loop c md).rpra = md.rpra ∧ (dma_loop c md).pages = md.pages := by
  unfold dma_loop
  split <;> exact ⟨rfl, rfl⟩

/-- Before the copy loop, `list` sends each buffer to its own entry of `pages`, and the entries of
the buffers are clear. -/
theorem Ran.arrays {sh : AdsprpcShared} {sort : List Overlap → List Overlap} {c : Call} {p : Pool}
    {l : Layout} {overs : List Overlap} {copylen : Nat} {area : Area} {md : Metadata}
    (h : Ran sh sort c p l overs copylen area md) (hun : ∀ i, (c.arg i).map = none) (i : Nat)
    (hi : i < c.args.length) :
    ((handle_loop c.args.length c.handles md).1.list i).pgidx = i ∧
      (handle_loop c.args.length c.handles md).1.pages i = ⟨0, 0⟩ := by
  have hargs : ∀ a ∈ c.args, a.map = none := by
    intro a ha
    obtain ⟨k, hk, rfl⟩ := List.getElem_of_mem ha
    have := hun k
    simpa [Call.arg, List.getD_eq_getElem?_getD, hk] using this
  obtain ⟨hlist, hpages⟩ := map_loop_frame hargs h.maps
  obtain ⟨hlist', hpages'⟩ := handle_loop_frame c.args.length c.handles md
  refine ⟨?_, ?_⟩
  · rw [hlist', hlist]
    exact list_loop_pgidx hi
  · rw [hpages' i hi, hpages]
    rfl

/-! ## What the copy loop has done -/

/-- The buffers are packed in the pages of `b`, with their places in `rpra` and their device pages
in `pages`, and each in-buffer is copied to its place. -/
structure Images (c : Call) (l : Layout) (b : Buf) (spot : Nat → Nat) : Prop where
  copybuf : l.copybuf = some b
  tidy : ∀ i j, (c.arg i).len ≠ 0 → (c.arg j).len ≠ 0 → Tidy (piece c spot i) (piece c spot j)
  inside : ∀ i, (c.arg i).len ≠ 0 → (piece c spot i).placeEnd ≤ b.va + PAGE_ALIGN b.size ∧
    (c.arg i).len.toNat ≤ LONG_MAX + BALIGN
  rpra : ∀ i, (c.arg i).len ≠ 0 → (l.md.rpra i).pv = BitVec.ofNat 64 (spot i)
  pages : ∀ i, (c.arg i).len ≠ 0 → l.md.pages i = ⟨buf_page_start (image c b spot i),
    buf_num_pages (BitVec.ofNat 64 (spot i)) (c.arg i).len * BitVec.ofNat 64 PAGE_SIZE⟩
  copies : ∀ w ∈ l.copies, ∃ i, (c.arg i).len ≠ 0 ∧ CopyOf c spot i w
  copied : ∀ i, (c.arg i).len ≠ 0 → i < c.inbufs → ∃ w ∈ l.copies, CopyOf c spot i w

section images

variable {sh : AdsprpcShared} {sort : List Overlap → List Overlap} {c : Call} {p : Pool}
  {l : Layout} {overs : List Overlap} {copylen : Nat} {area : Area} {md : Metadata}

/-- Without a copy buffer no buffer is copied. -/
theorem copy_loop_no_copybuf {ms : List Overlap} {s s' : Cursor} (hnone : area.copybuf = none)
    (h : copy_loop c area ms s = .ok s') : ∀ m ∈ ms, c.copied m.raix = false := by
  induction ms generalizing s with
  | nil => simp
  | cons m ms ih =>
    rcases copy_loop_cons h with ⟨_, s₁, hone, _⟩ | ⟨hcop, h⟩
    · obtain ⟨b, hb⟩ := copy_buf_copybuf hone
      rw [hnone] at hb
      cases hb
    · exact List.forall_mem_cons.mpr ⟨by simpa using hcop, ih h⟩

theorem Ran.images (h : Ran sh sort c p l overs copylen area md) (hperm : (sort overs).Perm overs)
    (hsorted : (sort overs).Pairwise (fun a b => overlap_ptr_cmp a b = true))
    (hun : ∀ i, (c.arg i).map = none) (hlost : ¬ c.Lost) (hsome : ∃ i, (c.arg i).len ≠ 0)
    (hva : ∀ b, l.copybuf = some b → PAGE_SIZE ∣ b.va) : ∃ b spot, Images c l b spot := by
  obtain ⟨s, hloop, hcopies, hmd, _⟩ := h.copied hlost
  -- the loops see each buffer once
  have hraix : ((sort overs).map Overlap.raix).Perm (List.range' 0 c.args.length) := by
    rw [← raix_build_overs h.built]
    exact hperm.map Overlap.raix
  have hmem : ∀ i, (c.arg i).len ≠ 0 → i ∈ ((sort overs).map Overlap.raix).filter (c.copied ·) := by
    intro i hi
    have hcop := (copied_iff hun i).mpr hi
    rw [List.mem_filter, hraix.mem_iff, List.mem_range']
    exact ⟨⟨i, lt_length_of_copied hcop, by omega⟩, hcop⟩
  have hlen : ∀ i ∈ ((sort overs).map Overlap.raix).filter (c.copied ·), (c.arg i).len ≠ 0 := by
    intro i hi
    exact (copied_iff hun i).mp (List.mem_filter.mp hi).2
  rcases hb : area.copybuf with _ | b
  · obtain ⟨i, hi⟩ := hsome
    have hnone := copy_loop_no_copybuf hb hloop
    obtain ⟨hin, hcop⟩ := List.mem_filter.mp (hmem i hi)
    rw [← raix_merge_overs 0] at hin
    obtain ⟨m, hm, rfl⟩ := List.mem_map.mp hin
    exact absurd ((hnone m hm).symm.trans hcop) nofun
  obtain ⟨p', _, harea⟩ := h.chosen
  obtain ⟨hstart, hle, hrlen, hroom⟩ := copy_area_room harea hb
    (hva b (h.copybuf.trans hb)) h.header
  have hfirst : Placing c area b area.args (fun _ => 0) [] 0 area.args 0
      ⟨area.args, area.rlen, (handle_loop c.args.length c.handles md).1, []⟩ :=
    ⟨packed_nil _, by simp, hle, hrlen, fun i hi => (h.arrays hun i hi).1, by simp,
      by simp, by simp⟩
  obtain ⟨spot, group, base, reach, hargs, hplacing⟩ := copy_loop_placing hun hb hstart
    (hsorted.imp start_le_of_cmp) (fun o ho => build_overs_call h.built o (hperm.mem_iff.mp ho))
    (by simpa using hraix.nodup_iff.mpr List.nodup_range')
    (fun _ _ => Nat.zero_le _) h.lengths hloop
    (Or.inr ⟨rfl, rfl, fun _ _ _ => Nat.zero_le _⟩) hfirst
  rw [List.nil_append] at hplacing
  have htotal := copylen_loop_le h.lengths (Nat.zero_le _)
  obtain ⟨hrpra, hpages⟩ := dma_loop_frame c s.md
  refine ⟨b, spot, h.copybuf.trans hb, ?_, ?_, ?_, ?_, ?_, ?_⟩
  · intro i j hi hj
    exact hplacing.packed.tidy _ (List.mem_map_of_mem (hmem i hi)) _
      (List.mem_map_of_mem (hmem j hj))
  · intro i hi
    have hpiece := List.mem_map_of_mem (f := piece c spot) (hmem i hi)
    have hend := (hplacing.packed.le hpiece).2
    have hlo := hplacing.packed.above _ hpiece
    have halign := ALIGN_le area.args (show 0 < BALIGN by decide)
    refine ⟨by omega, ?_⟩
    simp only [piece, Piece.placeEnd, Nat.add_sub_cancel_left] at hend hlo
    omega
  · intro i hi
    rw [hmd, hrpra]
    exact hplacing.rpra i (hmem i hi)
  · intro i hi
    rw [hmd, hpages]
    exact hplacing.pages i (hmem i hi)
  · intro w hw
    rw [hcopies] at hw
    obtain ⟨i, hi, _, hcopy⟩ := hplacing.copies w hw
    exact ⟨i, hlen i hi, hcopy⟩
  · intro i hi hin
    rw [hcopies]
    exact hplacing.copied i (hmem i hi) hin

end images

/-! ## Faithful marshalling -/

/-- The ranges of the two buffers in the memory of the user share a byte. -/
def Call.Overlap (c : Call) (i j : Nat) : Prop :=
  (c.arg i).pv.toNat < (c.arg j).pv.toNat + (c.arg j).len.toNat ∧
    (c.arg j).pv.toNat < (c.arg i).pv.toNat + (c.arg i).len.toNat

/-- What the DSP finds of the buffers that are not empty: the bytes of the in-buffers, the same
distance between buffers that overlap, no overlap between the others, and the pages of each buffer
around its device address. -/
structure Faithful (c : Call) (l : Layout) (mem : Mem) : Prop where
  bytes : ∀ i, i < c.inbufs → (c.arg i).len ≠ 0 → ∀ j, j < (c.arg i).len.toNat →
    c.user.byte ((c.arg i).pv.toNat + j) = some (mem (place l.md.rpra i + j))
  distance : ∀ i j, (c.arg i).len ≠ 0 → (c.arg j).len ≠ 0 → c.Overlap i j →
    (place l.md.rpra i : Int) - place l.md.rpra j = (c.arg i).pv.toNat - (c.arg j).pv.toNat
  apart : ∀ i j, (c.arg i).len ≠ 0 → (c.arg j).len ≠ 0 → ¬ c.Overlap i j →
    place l.md.rpra i + (c.arg i).len.toNat ≤ place l.md.rpra j ∨
      place l.md.rpra j + (c.arg j).len.toNat ≤ place l.md.rpra i
  pages : ∀ i, (c.arg i).len ≠ 0 → ∃ b, l.copybuf = some b ∧
    Covers (l.md.pages i) (c.da b + ((l.md.rpra i).pv - BitVec.ofNat 64 b.va)) (c.arg i).len

section faithful

variable {c : Call} {l : Layout} {b : Buf} {spot : Nat → Nat}

theorem len_pos {a : Arg} (h : a.len ≠ 0) : 0 < a.len.toNat := by
  rcases Nat.eq_zero_or_pos a.len.toNat with h0 | h0
  · exact absurd (BitVec.eq_of_toNat_eq h0) h
  · exact h0

/-- The places do not wrap around. -/
theorem Images.place_eq (h : Images c l b spot) (hend : b.va + PAGE_ALIGN b.size ≤ 2 ^ 64) {i : Nat}
    (hi : (c.arg i).len ≠ 0) : place l.md.rpra i = spot i ∧
      spot i + (c.arg i).len.toNat ≤ 2 ^ 64 := by
  have hle := (h.inside i hi).1
  have hpos := len_pos hi
  simp only [piece, Piece.placeEnd, Nat.add_sub_cancel_left] at hle
  refine ⟨?_, by omega⟩
  unfold place
  rw [h.rpra i hi, BitVec.toNat_ofNat, Nat.mod_eq_of_lt (by omega)]

/-- All copies over a byte of the place of a buffer have the byte of the user there. -/
theorem Images.byte_eq (h : Images c l b spot)
    (hend : b.va + PAGE_ALIGN b.size ≤ 2 ^ 64) {i j : Nat}
    (hi : (c.arg i).len ≠ 0) (hj : j < (c.arg i).len.toNat) {w : Nat × List Byte}
    (hw : w ∈ l.copies)
    (hlo : w.1 ≤ spot i + j) (hhi : spot i + j < w.1 + w.2.length) :
    w.2[spot i + j - w.1]? = c.user.byte ((c.arg i).pv.toNat + j) := by
  obtain ⟨k, hk, hat, hbytes⟩ := h.copies w hw
  obtain ⟨hplace, _⟩ := h.place_eq hend hk
  unfold place at hplace
  rw [h.rpra k hk] at hplace
  rw [hat, hplace] at hlo hhi ⊢
  rw [copy_from_user_length hbytes] at hhi
  rw [copy_from_user_getElem? hbytes (by omega)]
  congr 1
  -- the places share a byte, so the buffers do, and have kept their distance
  rcases h.tidy i k hi hk with hag | hb | hb
  · simp only [Agree, piece] at hag
    omega
  · simp only [Before, piece, Piece.placeEnd, Nat.add_sub_cancel_left] at hb
    omega
  · simp only [Before, piece, Piece.placeEnd, Nat.add_sub_cancel_left] at hb
    omega

theorem Images.faithful (h : Images c l b spot) (hva : PAGE_SIZE ∣ b.va)
    (hda : PAGE_SIZE ∣ (c.da b).toNat) (hend : b.va + PAGE_ALIGN b.size ≤ 2 ^ 64) (old : Mem) :
    Faithful c l (storeAll old (l.cleared ++ l.copies)) := by
  have hplace : ∀ i, (c.arg i).len ≠ 0 → place l.md.rpra i = spot i :=
    fun i hi => (h.place_eq hend hi).1
  constructor
  case bytes =>
    intro i hin hi j hj
    obtain ⟨w, hw, hat, hbytes⟩ := h.copied i hi hin
    have hlen := copy_from_user_length hbytes
    have hw1 : w.1 = spot i := by
      rw [hat, ← h.rpra i hi]
      exact hplace i hi
    have hbyte := h.byte_eq hend hi hj hw (by omega) (by omega)
    rw [hw1, Nat.add_sub_cancel_left, List.getElem?_eq_getElem (by omega)] at hbyte
    rw [hplace i hi, ← hbyte, storeAll_append]
    congr 1
    refine (storeAll_of_agree ⟨w, hw, by omega, by omega⟩ (fun v hv hlo hhi => ?_)).symm
    rw [h.byte_eq hend hi hj hv hlo hhi, ← hbyte]
  case distance =>
    intro i j hi hj hover
    have hag := (h.tidy i j hi hj).agree hover.2 hover.1
    simp only [Agree, piece] at hag
    rw [hplace i hi, hplace j hj]
    omega
  case apart =>
    intro i j hi hj hover
    have hdis : (piece c spot i).stop ≤ (piece c spot j).start ∨
        (piece c spot j).stop ≤ (piece c spot i).start := by
      unfold Call.Overlap at hover
      simp only [piece]
      omega
    have hapart := (h.tidy i j hi hj).apart (Nat.le_add_right _ _) (Nat.le_add_right _ _) hdis
    simp only [piece, Piece.placeEnd, Nat.add_sub_cancel_left] at hapart
    rw [hplace i hi, hplace j hj]
    exact hapart
  case pages =>
    intro i hi
    refine ⟨b, h.copybuf, ?_⟩
    obtain ⟨hspot, hle⟩ := h.place_eq hend hi
    unfold place at hspot
    rw [h.pages i hi]
    unfold image
    rw [h.rpra i hi] at hspot ⊢
    exact covers_pages hi (by omega) (h.inside i hi).2 (image_page hda hva)

end faithful

/-- A hybrid invoke without fd-mapped buffers, for which get_args succeeds: the DSP gets the bytes
of the in-buffers, the overlaps of the buffers and their pages as they are, exactly when no dma
handle has lost its map on the way, or all buffers are empty. The sort is the one of the kernel, and
the kernel and the backend give buffers that begin with a page and end in the address space. -/
theorem marshalling_is_faithful_iff {sh : AdsprpcShared}
    {sort : List Overlap → List Overlap} {c : Call}
    {p : Pool} {l : Layout} (hperm : ∀ os, (sort os).Perm os)
    (hsorted : ∀ os, (sort os).Pairwise (fun a b => overlap_ptr_cmp a b = true))
    (hget : get_args sh sort c p = .ok l) (hun : ∀ i, (c.arg i).map = none)
    (hpages : ∀ b, l.copybuf = some b →
      PAGE_SIZE ∣ b.va ∧ PAGE_SIZE ∣ (c.da b).toNat ∧ b.va + PAGE_ALIGN b.size ≤ 2 ^ 64)
    (old : Mem) :
    Faithful c l (storeAll old (l.cleared ++ l.copies)) ↔ (¬ c.Lost ∨ ∀ i, (c.arg i).len = 0) := by
  obtain ⟨overs, copylen, area, md, hran⟩ := get_args_ran hget
  constructor
  · -- an invoke that has lost a handle leaves the pages of its buffers clear
    intro h
    by_contra hnot
    simp only [not_or, not_not, not_forall] at hnot
    obtain ⟨hlost, i, hi⟩ := hnot
    obtain ⟨b, _, _, hsize⟩ := h.pages i hi
    have hlt := lt_length_of_copied ((copied_iff hun i).mpr hi)
    have hclear : l.md.pages i = ⟨0, 0⟩ := by
      rw [hran.lost hlost]
      exact (hran.arrays hun i hlt).2
    have hpos := len_pos hi
    have hle := le_ALIGN ((c.da b + ((l.md.rpra i).pv - BitVec.ofNat 64 b.va)).toNat % PAGE_SIZE +
      (c.arg i).len.toNat) (show 0 < PAGE_SIZE by decide)
    rw [hclear] at hsize
    simp only [PAGE_ALIGN, BitVec.ofNat_eq_ofNat, BitVec.toNat_ofNat, Nat.zero_mod] at hsize
    omega
  · intro h
    by_cases hempty : ∀ i, (c.arg i).len = 0
    · exact ⟨fun i _ hi => absurd (hempty i) hi, fun i _ hi => absurd (hempty i) hi,
        fun i _ hi => absurd (hempty i) hi, fun i hi => absurd (hempty i) hi⟩
    · obtain ⟨b, spot, himages⟩ := hran.images (hperm overs) (hsorted overs) hun
        (h.resolve_right hempty) (not_forall.mp hempty) (fun b hb => (hpages b hb).1)
      obtain ⟨hva, hda, hend⟩ := hpages b himages.copybuf
      exact himages.faithful hva hda hend old

theorem sortOverlaps_pairwise (os : List Overlap) :
    (sortOverlaps os).Pairwise (fun a b => overlap_ptr_cmp a b = true) := by
  have : Std.Total (fun a b : Overlap => overlap_ptr_cmp a b = true) := by
    constructor
    intro a b
    simp [overlap_ptr_cmp]
    omega
  have : IsTrans Overlap (fun a b => overlap_ptr_cmp a b = true) := by
    constructor
    intro a b d
    simp [overlap_ptr_cmp]
    omega
  exact List.pairwise_insertionSort _ os

/-- An in-buffer, an out-buffer that overlaps it, and an in-buffer of its own. -/
def overlapCall : Call :=
  { inbufs := 2, args := [⟨65536, 4, none⟩, ⟨131072, 2, none⟩, ⟨65538, 4, none⟩], handles := [],
    fds := false, kzalloc := true, da := fun _ => 0x80000000,
    user := ⟨fun x => some (BitVec.ofNat 8 x), fun _ => 4096⟩, crc := none, perf_dsp := none }

theorem overlapping_buffers_are_faithful :
    ∃ l, get_args sampleShared sortOverlaps overlapCall hdrPool = .ok l ∧
      ∀ old, Faithful overlapCall l (storeAll old (l.cleared ++ l.copies)) := by
  have hget : get_args sampleShared sortOverlaps overlapCall hdrPool = .ok _ := rfl
  refine ⟨_, hget, fun old => ?_⟩
  refine (marshalling_is_faithful_iff (fun os => List.perm_insertionSort _ os)
    sortOverlaps_pairwise hget
    ?_ ?_ old).mpr ?_
  · intro i
    match i with
    | 0 | 1 | 2 | _ + 3 => rfl
  · intro b hb
    cases hb
    decide +kernel
  · left
    simp [Call.Lost, overlapCall]

/-- An in-buffer next to a dma handle, whose map is freed by the answer of another call before
get_args looks for it again. -/
def lostCall : Call :=
  { inbufs := 1, args := [⟨65536, 2, none⟩], handles := [⟨7, 0, 4096, .lost⟩], fds := true,
    kzalloc := true, da := fun _ => 0x80000000, user := ⟨fun _ => some 5, fun _ => 4096⟩,
    crc := none, perf_dsp := none }

/-- get_args succeeds, but has not copied the in-buffer: the DSP gets the address of the user, and
no page. -/
theorem a_lost_handle_leaves_the_buffers_behind :
    ∃ l, get_args sampleShared sortOverlaps lostCall hdrPool = .ok l ∧ l.copies = [] ∧
      (l.md.rpra 0).pv = 65536 ∧ l.md.pages 0 = ⟨0, 0⟩ ∧
      ∀ old, ¬ Faithful lostCall l (storeAll old (l.cleared ++ l.copies)) := by
  refine ⟨_, rfl, rfl, rfl, rfl, ?_⟩
  intro old h
  obtain ⟨b, hb, _, hsize⟩ := h.pages 0 (by decide)
  cases hb
  revert hsize
  decide +kernel

end virtual_fastrpc.hybrid_marshal
