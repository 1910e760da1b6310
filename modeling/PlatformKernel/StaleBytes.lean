-- Which bytes of an out-buffer show the user what kernel memory held before, told
-- from the request: where get_args places each buffer, which part of the memory it
-- clears, which in-buffers it copies over it, and what the DSP has written.
import PlatformKernel.CompleteMessage

namespace virtual_fastrpc.stale_bytes

open bytes buffers hybrid_marshal sweep copy_room complete_message

/-! ## What get_args takes for a request -/

/-- The order of the buffers, the metadata buffer, the length of the copies and the copy area, which
get_args has before it fills the arrays. -/
structure Planned (sh : AdsprpcShared) (sort : List Overlap → List Overlap) (c : Call) (p : Pool)
    (os : List Overlap) (buf : Buf) (copylen : Nat) (area : Area) : Prop where
  order : ∃ overs, build_overs 0 c.args = some overs ∧ os = sort overs
  lengths : copylen_loop c (merge_overs 0 os) 0 = some copylen
  buffers : ∃ p', hfastrpc_buf_alloc p (metalen sh c) .METADATA = some (buf, p') ∧
    copy_area sh c buf copylen p' = some area

/-- The pages of the metadata buffer and of the copy buffer. -/
def InPages (buf : Buf) (area : Area) (x : Nat) : Prop :=
  buf.Has x ∨ ∃ b, area.copybuf = some b ∧ b.Has x

/-- get_args clears the metadata, and the copies only when they do not fit on its last page and get
a buffer of their own. -/
def IsCleared (sh : AdsprpcShared) (c : Call) (buf : Buf) (copylen : Nat) (area : Area) (x : Nat) :
    Prop :=
  (buf.va ≤ x ∧ x < buf.va + metalen sh c) ∨
    (buf_page_size (metalen sh c) < ALIGN (metalen sh c) BALIGN + copylen ∧ area.args ≤ x ∧
      x < area.args + copylen)

/-- Where the copy loop places the buffer `i`. -/
def placeIn (c : Call) (area : Area) (os : List Overlap) (i : Nat) : Nat :=
  match os.dropWhile (fun o => o.raix != i) with
  | [] => 0
  | o :: _ => (placeOf c area (os.takeWhile (fun o => o.raix != i)) o).toNat

/-- The byte at `x` is in the place of an in-buffer that is copied. -/
def InCopied (c : Call) (area : Area) (os : List Overlap) (x : Nat) : Prop :=
  ∃ k, k < c.inbufs ∧ c.copied k = true ∧ placeIn c area os k ≤ x ∧
    x < placeIn c area os k + (c.arg k).len.toNat

section plans

variable {sh : AdsprpcShared} {sort : List Overlap → List Overlap} {c : Call} {p : Pool}
  {l : Layout}
  {os pre post : List Overlap} {o : Overlap} {buf buf' : Buf} {copylen copylen' : Nat}
  {area area' : Area}

/-- There is one plan. -/
theorem Planned.unique {os' : List Overlap} (h : Planned sh sort c p os buf copylen area)
    (h' : Planned sh sort c p os' buf' copylen' area') :
    os' = os ∧ buf' = buf ∧ copylen' = copylen ∧ area' = area := by
  obtain ⟨⟨overs, hb, rfl⟩, hlen, p₁, halloc, harea⟩ := h
  obtain ⟨⟨overs', hb', rfl⟩, hlen', p₁', halloc', harea'⟩ := h'
  cases hb.symm.trans hb'
  cases halloc.symm.trans halloc'
  cases hlen.symm.trans hlen'
  cases harea.symm.trans harea'
  exact ⟨rfl, rfl, rfl, rfl⟩

theorem Planned.prepare (h : Planned sh sort c p os buf copylen area) :
    prepare sh sort c p = some (os, area) := by
  obtain ⟨⟨overs, hb, rfl⟩, hlen, p', halloc, harea⟩ := h
  exact prepare_eq_some.mpr ⟨overs, buf, p', copylen, hb, rfl, halloc, hlen, harea⟩

theorem takeWhile_raix (hnodup : ((pre ++ o :: post).map Overlap.raix).Nodup) :
    (pre ++ o :: post).takeWhile (fun q => q.raix != o.raix) = pre ∧
      (pre ++ o :: post).dropWhile (fun q => q.raix != o.raix) = o :: post := by
  have hne : ∀ q ∈ pre, (q.raix != o.raix) = true := by
    intro q hq
    rw [List.map_append, List.map_cons] at hnodup
    have hdis := (List.nodup_append.mp hnodup).2.2 q.raix (List.mem_map_of_mem hq) o.raix (by simp)
    simpa using hdis
  constructor
  · rw [List.takeWhile_append_of_pos hne, List.takeWhile_cons_of_neg (by simp), List.append_nil]
  · rw [List.dropWhile_append_of_pos hne, List.dropWhile_cons_of_neg (by simp)]

/-- The place of a buffer, from the buffers before it. -/
theorem placeIn_eq (hnodup : ((pre ++ o :: post).map Overlap.raix).Nodup) :
    placeIn c area (pre ++ o :: post) o.raix = (placeOf c area pre o).toNat := by
  obtain ⟨htake, hdrop⟩ := takeWhile_raix hnodup
  unfold placeIn
  rw [htake, hdrop]

/-- What a get_args that succeeds has left is what the request says. -/
theorem get_args_planned (hperm : ∀ os, (sort os).Perm os) (hget : get_args sh sort c p = .ok l) :
    ∃ os copylen area, Planned sh sort c p os l.buf copylen area ∧
      l.copybuf = area.copybuf ∧ (∀ x, l.Handed x ↔ InPages l.buf area x) ∧
      (∀ x, Covered l.cleared x ↔ IsCleared sh c l.buf copylen area x) ∧
      (¬ c.Lost → ∀ i, c.copied i = true → place l.lrpra i = placeIn c area os i) := by
  obtain ⟨overs, copylen, area, md, hran⟩ := get_args_ran hget
  obtain ⟨p', halloc, harea⟩ := hran.chosen
  have hplan : Planned sh sort c p (sort overs) l.buf copylen area :=
    ⟨⟨overs, hran.built, rfl⟩, hran.lengths, p', halloc, harea⟩
  refine ⟨sort overs, copylen, area, hplan, hran.copybuf, ?_, ?_, ?_⟩
  · intro x
    unfold Layout.Handed InPages
    rw [hran.copybuf]
  · intro x
    have hcl : Covered area.cleared x ↔ buf_page_size (metalen sh c) <
        ALIGN (metalen sh c) BALIGN + copylen ∧ area.args ≤ x ∧ x < area.args + copylen := by
      simp only [copy_area] at harea
      split at harea
      · rename_i hfit
        cases harea
        simp only [Covered, List.not_mem_nil, false_and, exists_false, false_iff]
        omega
      rename_i hbig
      split at harea
      · obtain ⟨r, _, rfl⟩ := Option.map_eq_some_iff.mp harea
        simp only [Covered, List.mem_singleton, exists_eq_left, zeros, List.length_replicate]
        omega
      · cases harea
        simp only [Covered, List.not_mem_nil, false_and, exists_false, false_iff]
        omega
    rw [hran.cleared, ← List.singleton_append, covered_append, hcl]
    simp [IsCleared, Covered, zeros]
  · intro hlost i hcop
    obtain ⟨s, hloop, _, _, hrpra⟩ := hran.copied hlost
    obtain ⟨pre, o, post, hos, rfl⟩ := mem_order hperm hplan.prepare hcop
    have hnodup := prepare_nodup hperm hplan.prepare
    have hle : ∀ q ∈ sort overs, q.start ≤ q.stop :=
      fun q hq => (prepare_describes hperm hplan.prepare q hq).1.le
    rw [hos] at hloop hnodup hle ⊢
    obtain ⟨s₁, hpre, _, hpv, _⟩ := turn_of_loop hle hnodup hloop hcop
    have hargs : s₁.args = fill c 0 area.args pre :=
      copy_loop_args (fun q hq => hle q (List.mem_append_left _ hq)) hpre
    rw [placeIn_eq hnodup, ← copyPv_eq hargs, ← hpv, ← hrpra]
    rfl

end plans

/-! ## The law of a request -/

/-- Each byte of an out-buffer that the user takes from pages that were handed out is one that
get_args clears, one in the place of an in-buffer that it copies, or one that the DSP has
written. -/
def Accounted (sh : AdsprpcShared) (c : Call) (os : List Overlap) (buf : Buf) (copylen : Nat)
    (area : Area) (dsp : Nat → Option Byte) : Prop :=
  ∀ i j, Delivered c i j → InPages buf area (placeIn c area os i + j) →
    IsCleared sh c buf copylen area (placeIn c area os i + j) ∨
      InCopied c area os (placeIn c area os i + j) ∨ dsp (placeIn c area os i + j) ≠ none

variable {sh : AdsprpcShared} {c : Call} {l : Layout}

/-- A byte that is delivered is one of a buffer that is copied. -/
theorem delivered_copied {i j : Nat} (h : Delivered c i j) : c.copied i = true := by
  have hpos := h.len
  have hne : (c.arg i).len ≠ 0 := by
    intro h0
    rw [h0] at hpos
    exact absurd hpos (Nat.not_lt_zero j)
  simpa [Call.copied, h.unmapped] using hne

section unmapped

variable {sort : List Overlap → List Overlap} {p : Pool} {os : List Overlap} {copylen : Nat}
  {area : Area} {dsp : Nat → Option Byte} {i : Nat}

/-- The places lie in the part of the copy area that the loop of the lengths has counted. -/
theorem unmapped_place (hperm : ∀ os, (sort os).Perm os)
    (hsorted : ∀ os, (sort os).Pairwise (fun a b => overlap_ptr_cmp a b = true))
    {buf : Buf} (hplan : Planned sh sort c p os buf copylen area) (hun : ∀ i, (c.arg i).map = none)
    (hcounted : ALIGN area.args BALIGN + copylen ≤ 2 ^ 64) (hcop : c.copied i = true) :
    area.args ≤ placeIn c area os i ∧
      placeIn c area os i + (c.arg i).len.toNat ≤ ALIGN area.args BALIGN + copylen := by
  obtain ⟨pre, o, post, rfl, rfl⟩ := mem_order hperm hplan.prepare hcop
  have hdesc := prepare_describes hperm hplan.prepare
  have hpairs : (pre ++ o :: post).Pairwise (fun a b => overlap_ptr_cmp a b = true) := by
    obtain ⟨overs, _, he⟩ := hplan.order
    rw [he]
    exact hsorted overs
  have hnot : ¬ BeginsInMapped c o.raix := by
    rintro ⟨j, hj, _⟩
    rw [hun j] at hj
    cases hj
  have hroom : reachOf pre ≤ o.start ∨
      reachOf pre - o.start ≤ fill c 0 area.args pre - area.args :=
    room_of_not_begins (fun q hq => (hdesc q hq).1) hpairs hnot
  obtain ⟨hreach, hlo, hturn⟩ : reachOf pre < 2 ^ 64 ∧ area.args ≤ fill c 0 area.args pre ∧
      align_args (entry pre o) (fill c 0 area.args pre) + (entry pre o).mlen ≤
        ALIGN area.args BALIGN + copylen := fill_room hdesc hcop hplan.lengths
  obtain ⟨hstart, hstop⟩ := (hdesc o (by simp)).1
  have hpos : 0 < (c.arg o.raix).len.toNat := by
    apply len_pos
    simp only [Call.copied, Bool.and_eq_true, decide_eq_true_eq] at hcop
    exact hcop.1
  have hsum := turn_args (reachOf pre) (fill c 0 area.args pre) o
  change align_args (entry pre o) _ + (entry pre o).mlen = _ at hsum
  rw [placeIn_eq (prepare_nodup hperm hplan.prepare)]
  unfold placeOf
  dsimp only
  by_cases hin : reachOf pre ≤ o.start
  · have halign := le_ALIGN (fill c 0 area.args pre) (show 0 < BALIGN by decide)
    simp only [hin, if_true] at hsum ⊢
    rw [BitVec.toNat_ofNat, Nat.mod_eq_of_lt (by omega)]
    omega
  · have hback : reachOf pre - o.start ≤ fill c 0 area.args pre - area.args :=
      hroom.resolve_left hin
    simp only [hin, if_false] at hsum ⊢
    rw [← ofNat_sub (by omega), BitVec.toNat_ofNat, Nat.mod_eq_of_lt (by omega)]
    omega

/-- Two buffers keep their order and their distance in the copy area. -/
theorem unmapped_tidy (hperm : ∀ os, (sort os).Perm os)
    (hsorted : ∀ os, (sort os).Pairwise (fun a b => overlap_ptr_cmp a b = true))
    (hget : get_args sh sort c p = .ok l) (hun : ∀ i, (c.arg i).map = none)
    (hpages : ∀ b, l.copybuf = some b → PAGE_SIZE ∣ b.va ∧ b.va + PAGE_ALIGN b.size ≤ 2 ^ 64)
    (hlost : ¬ c.Lost) {k : Nat} (hi : c.copied i = true) (hk : c.copied k = true) :
    packing.Tidy (piece c (place l.lrpra) i) (piece c (place l.lrpra) k) := by
  obtain ⟨overs, copylen, area, md, hran⟩ := get_args_ran hget
  have hlen : ∀ j, c.copied j = true → (c.arg j).len ≠ 0 := fun j => (copied_iff hun j).mp
  obtain ⟨b, spot, himages⟩ := hran.images (hperm overs) (hsorted overs) hun hlost ⟨i, hlen i hi⟩
    (fun b hb => (hpages b hb).1)
  obtain ⟨s, _, _, hmd, hrpra⟩ := hran.copied hlost
  have hplace : ∀ j, c.copied j = true → place l.lrpra j = spot j := by
    intro j hj
    rw [← (himages.place_eq (hpages b himages.copybuf).2 (hlen j hj)).1, hmd,
      (dma_loop_frame c s.md).1, hrpra]
  unfold piece
  rw [hplace i hi, hplace k hk]
  exact himages.tidy i k (hlen i hi) (hlen k hk)

/-- The place of a byte lies in the copy of an in-buffer where the user has both at one address. -/
theorem inCopied_iff (hperm : ∀ os, (sort os).Perm os)
    (hsorted : ∀ os, (sort os).Pairwise (fun a b => overlap_ptr_cmp a b = true))
    (hget : get_args sh sort c p = .ok l) (hun : ∀ i, (c.arg i).map = none)
    (hpages : ∀ b, l.copybuf = some b → PAGE_SIZE ∣ b.va ∧ b.va + PAGE_ALIGN b.size ≤ 2 ^ 64)
    (hlost : ¬ c.Lost)
    (hplace : ∀ i, c.copied i = true → place l.lrpra i = placeIn c area os i) {j : Nat}
    (hd : Delivered c i j) : InCopied c area os (placeIn c area os i + j) ↔
      ∃ k, k < c.inbufs ∧ (c.arg k).pv.toNat ≤ (c.arg i).pv.toNat + j ∧
        (c.arg i).pv.toNat + j < (c.arg k).pv.toNat + (c.arg k).len.toNat := by
  have hj := hd.len
  have hi := delivered_copied hd
  have hsame : ∀ k, c.copied k = true → ((placeIn c area os k ≤ placeIn c area os i + j ∧
      placeIn c area os i + j < placeIn c area os k + (c.arg k).len.toNat) ↔
      ((c.arg k).pv.toNat ≤ (c.arg i).pv.toNat + j ∧
        (c.arg i).pv.toNat + j < (c.arg k).pv.toNat + (c.arg k).len.toNat)) := by
    intro k hk
    have ht := unmapped_tidy hperm hsorted hget hun hpages hlost hi hk
    rw [← hplace i hi, ← hplace k hk]
    simp only [packing.Tidy, packing.Agree, packing.Before, piece, packing.Piece.placeEnd,
      Nat.add_sub_cancel_left] at ht
    omega
  refine exists_congr fun k => and_congr_right fun _ => ?_
  constructor
  · rintro ⟨hk, hin⟩
    exact (hsame k hk).mp hin
  · intro hin
    have hne : (c.arg k).len ≠ 0 := by
      intro h0
      have hzero : (c.arg k).len.toNat = 0 := by simp [h0]
      omega
    have hk := (copied_iff hun k).mpr hne
    exact ⟨hk, (hsame k hk).mpr hin⟩

/-- In a call without mapped buffers each byte is accounted for exactly when the copies get a buffer
of their own, or each byte that the user takes of an out-buffer is one of an in-buffer too, or was
written by the DSP. -/
theorem unmapped_accounted_iff (hperm : ∀ os, (sort os).Perm os)
    (hsorted : ∀ os, (sort os).Pairwise (fun a b => overlap_ptr_cmp a b = true))
    (hget : get_args sh sort c p = .ok l) (hun : ∀ i, (c.arg i).map = none)
    (hpages : ∀ b, l.copybuf = some b → PAGE_SIZE ∣ b.va ∧ b.va + PAGE_ALIGN b.size ≤ 2 ^ 64)
    (hlost : ¬ c.Lost) (dsp : Nat → Option Byte) :
    ∃ os copylen area, Planned sh sort c p os l.buf copylen area ∧
      (Accounted sh c os l.buf copylen area dsp ↔
        buf_page_size (metalen sh c) < ALIGN (metalen sh c) BALIGN + copylen ∨
          ∀ i j, Delivered c i j →
            (∃ k, k < c.inbufs ∧ (c.arg k).pv.toNat ≤ (c.arg i).pv.toNat + j ∧
              (c.arg i).pv.toNat + j < (c.arg k).pv.toNat + (c.arg k).len.toNat) ∨
            dsp (placeIn c area os i + j) ≠ none) := by
  obtain ⟨os, copylen, area, hplan, hcopybuf, _, _, hplace⟩ := get_args_planned hperm hget
  refine ⟨os, copylen, area, hplan, ?_⟩
  have harea : ∀ b, area.copybuf = some b → PAGE_SIZE ∣ b.va ∧ b.va + PAGE_ALIGN b.size ≤ 2 ^ 64 :=
    fun b hb => hpages b (hcopybuf.trans hb)
  obtain ⟨total, htotal, hcounted, hend⟩ := prepare_room hplan.prepare harea
  cases hplan.lengths.symm.trans htotal
  have hbound : ∀ i j, Delivered c i j → area.args ≤ placeIn c area os i + j ∧
      placeIn c area os i + j < ALIGN area.args BALIGN + copylen := by
    intro i j hd
    have hj := hd.len
    have hplace := unmapped_place hperm hsorted hplan hun (by omega) (delivered_copied hd)
    omega
  obtain ⟨p', _, hchosen⟩ := hplan.buffers
  unfold Accounted
  by_cases hown : buf_page_size (metalen sh c) < ALIGN (metalen sh c) BALIGN + copylen
  · -- the copies are cleared
    simp only [hown, true_or, iff_true]
    intro i j hd _
    obtain ⟨hlo, hhi⟩ := hbound i j hd
    refine Or.inl (Or.inr ⟨hown, hlo, ?_⟩)
    simp only [copy_area, if_neg (Nat.not_le.mpr hown)] at hchosen
    split at hchosen
    · obtain ⟨r, _, rfl⟩ := Option.map_eq_some_iff.mp hchosen
      have hdvd : BALIGN ∣ r.1.va := Nat.dvd_trans (by decide) (harea r.1 rfl).1
      have halign := ALIGN_add (y := 0) (show 0 < BALIGN by decide) hdvd
      rw [ALIGN_zero (by decide), Nat.add_zero] at halign
      dsimp only at hhi ⊢
      omega
    · rename_i hzero
      cases hchosen
      rw [ALIGN_zero (by decide)] at hhi
      omega
  · -- they lie behind the metadata, where nothing is cleared
    simp only [hown, false_or]
    rw [copy_area_behind (Nat.le_of_not_lt hown), Option.some.injEq] at hchosen
    have hargs : area.args = l.buf.va + metalen sh c := by rw [← hchosen]
    have hbuf : area.copybuf = some l.buf := by rw [← hchosen]
    refine forall_congr' fun i => forall_congr' fun j => imp_congr_right fun hd => ?_
    obtain ⟨hlo, hhi⟩ := hbound i j hd
    have hin : InPages l.buf area (placeIn c area os i + j) := by
      simp only [areaEnd, hbuf] at hcounted
      exact Or.inl ⟨by omega, by omega⟩
    have hnot : ¬ IsCleared sh c l.buf copylen area (placeIn c area os i + j) := by
      rintro (⟨_, hmeta⟩ | ⟨hown', _⟩)
      · omega
      · exact hown hown'
    rw [inCopied_iff hperm hsorted hget hun hpages hlost (hplace hlost) hd]
    simp [hin, hnot]

end unmapped

end virtual_fastrpc.stale_bytes
