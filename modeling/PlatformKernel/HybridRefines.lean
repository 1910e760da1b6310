-- When get_args of the hybrid driver keeps its copies off the metadata: each
-- in-buffer that it copies has room before the cursor for what the buffers before
-- it reach into it. Then what it does over bytes is what it does over values.
import PlatformKernel.CopyPlaces
import PlatformKernel.HybridHeader

namespace virtual_fastrpc.hybrid_bytes

open bytes buffers words hybrid_marshal copy_room

/-! ## The copy loop -/

/-- The copy loop over bytes is where the one over values is. -/
structure Related {sh : AdsprpcShared} (h : Header sh) (n : Nat) (s : Cursor)
    (v : hybrid_marshal.Cursor) : Prop where
  args : s.args = v.args
  rlen : s.rlen = v.rlen
  metadata : Shows h n v.md s.mem
  indexed : Indexed h v.md

section copies

variable {sh : AdsprpcShared} {h : Header sh} {n : Nat} {c : Call} {area : Area} {o : Overlap}
  {s s' : Cursor} {v : hybrid_marshal.Cursor}

/-- A turn of both loops, when the copy of an in-buffer is not placed over the arrays. -/
theorem Related.turn (hr : Related h n s v) (hf : h.Fits) (hi : o.raix < n) (hn : n ≤ h.length)
    (hout : o.raix < c.inbufs → (copyPv o v).toNat + (c.arg o.raix).len.toNat ≤ h.va ∨
      h.fdlist ≤ (copyPv o v).toNat) (hcopy : copy_buf h c area o s = .ok s') :
    ∃ v', hybrid_marshal.copy_buf c area o v = .ok v' ∧ Related h n s' v' := by
  obtain ⟨hargs, hrlen, hshow, hx⟩ := hr
  simp only [copy_buf, hargs, hrlen] at hcopy
  simp only [hybrid_marshal.copy_buf]
  split at hcopy
  · cases hcopy
  rename_i hroom
  rw [if_neg hroom]
  rcases hb : area.copybuf with _ | b
  · simp [hb] at hcopy
  simp only [hb] at hcopy ⊢
  have hentries := set_entries_shows hf hshow hx hi hn (copyPv o v)
    (c.da b - BitVec.ofNat 64 o.offset + (area.totallen - copyRlen o v)) (c.arg o.raix).len
  have hpv := hentries.pv (by omega) hi
  simp only [Function.update_self] at hpv
  rw [← hpv] at hout
  unfold copyPv copyRlen at hentries hout
  generalize set_entries h o.raix _ _ _ s.mem = mem at hentries hout hcopy
  split at hcopy
  · rename_i hin
    rw [if_pos hin]
    rcases hbs : copy_from_user c.user (c.arg o.raix).pv.toNat (c.arg o.raix).len.toNat with _ | bs
    · simp [hbs] at hcopy
    simp only [hbs] at hcopy ⊢
    cases hcopy
    have hstored := hentries.store (a := (h.pv mem o.raix).toNat)
      (by rw [copy_from_user_length hbs]; exact hout hin)
    refine ⟨_, rfl, rfl, rfl, ?_, hx⟩
    dsimp only at hstored ⊢
    exact hstored
  · rename_i hin
    rw [if_neg hin]
    cases hcopy
    exact ⟨_, rfl, rfl, rfl, hentries, hx⟩

/-- Where a turn of the loop ends. -/
theorem copy_buf_args (hcopy : copy_buf h c area o s = .ok s') :
    s'.args = align_args o s.args + o.mlen ∧ ∃ b, area.copybuf = some b := by
  simp only [copy_buf] at hcopy
  split at hcopy
  · cases hcopy
  rcases hb : area.copybuf with _ | b
  · simp [hb] at hcopy
  simp only [hb] at hcopy
  split at hcopy
  · split at hcopy
    · cases hcopy
    · cases hcopy
      exact ⟨rfl, b, rfl⟩
  · cases hcopy
    exact ⟨rfl, b, rfl⟩

/-- The two loops, when each in-buffer that is copied has room. All places lie in the copy area,
where the arrays are not. -/
theorem copy_loop_related {pre os : List Overlap} {total : Nat} (hf : h.Fits) (hn : n ≤ h.length)
    (hdesc : ∀ o ∈ pre ++ os, (Describes c o ∧ o.stop < 2 ^ 64) ∧ o.raix < n)
    (hroom : ∀ pre' o post, pre ++ os = pre' ++ o :: post → o.raix < c.inbufs →
      c.copied o.raix = true → HasRoom c area pre' o)
    (hapart : ∀ b, area.copybuf = some b → h.fdlist ≤ area.args ∨ areaEnd area ≤ h.va)
    (hlen : copylen_loop c (merge_overs 0 (pre ++ os)) 0 = some total)
    (hspace : ALIGN area.args BALIGN + total ≤ areaEnd area) (hend : areaEnd area ≤ 2 ^ 64)
    (hloop : copy_loop h c area (merge_overs (reachOf pre) os) s = .ok s')
    (hargs : s.args = fill c 0 area.args pre) (hr : Related h n s v) :
    ∃ v', hybrid_marshal.copy_loop c area (merge_overs (reachOf pre) os) v = .ok v' ∧
      Related h n s' v' := by
  induction os generalizing pre s v with
  | nil =>
    cases hloop
    exact ⟨v, rfl, hr⟩
  | cons o os ih =>
    obtain ⟨⟨hd, _⟩, hi⟩ := hdesc o (by simp)
    have hwhole : pre ++ o :: os = (pre ++ [o]) ++ os := List.append_cons pre o os
    have hnext : merge_reach (reachOf pre) o = reachOf (pre ++ [o]) := by
      rw [merge_reach_eq hd.le, reachOf_concat]
    rw [merge_overs_cons, hnext] at hloop ⊢
    unfold copy_loop at hloop
    unfold hybrid_marshal.copy_loop
    rw [merge_over_raix] at hloop ⊢
    by_cases hcop : c.copied o.raix = true
    · rw [if_pos hcop] at hloop ⊢
      rcases hone : copy_buf h c area (merge_over (reachOf pre) o) s with e | s₁
      · simp [hone] at hloop
      simp only [hone] at hloop
      have hs₁ : s₁.args = align_args (entry pre o) s.args + (entry pre o).mlen ∧
          ∃ b, area.copybuf = some b := copy_buf_args hone
      obtain ⟨hargs₁, b, hb⟩ := hs₁
      have hraix : (entry pre o).raix = o.raix := merge_over_raix _ _
      -- where the copy goes
      have hout : (entry pre o).raix < c.inbufs →
          (copyPv (entry pre o) v).toNat + (c.arg (entry pre o).raix).len.toNat ≤ h.va ∨
            h.fdlist ≤ (copyPv (entry pre o) v).toNat := by
        rw [hraix]
        intro hin
        obtain ⟨hreach, hlo, hturn⟩ := fill_room (fun q hq => (hdesc q hq).1) hcop hlen
        have harea := (placeOf_inArea_iff hd hcop hreach hlo (Nat.le_trans hturn hspace) hend).mpr
          (hroom pre o os rfl hin hcop)
        rw [← copyPv_eq (hr.args.symm.trans hargs)] at harea
        have hfirst := harea.2.1
        have hlast := harea.2.2
        rcases hapart b hb with hbehind | hbefore
        · exact Or.inr (by omega)
        · exact Or.inl (by omega)
      obtain ⟨v₁, hv₁, hr₁⟩ := hr.turn hf (hraix ▸ hi) hn hout hone
      rw [show merge_over (reachOf pre) o = entry pre o from rfl, hv₁]
      rw [hwhole] at hdesc hroom hlen
      refine ih hdesc hroom hlen hloop ?_ hr₁
      rw [fill_concat, if_pos hcop, ← hargs, hargs₁]
    · rw [if_neg hcop] at hloop ⊢
      rw [hwhole] at hdesc hroom hlen
      refine ih hdesc hroom hlen hloop ?_ hr
      rw [fill_concat, if_neg hcop, hargs]

end copies

/-! ## get_args -/

/-- Two buffers that the session hands out one after the other share no page. -/
def PoolApart (p : Pool) : Prop :=
  ∀ m k b p' b' p'', hfastrpc_buf_alloc p m .METADATA = some (b, p') →
    hfastrpc_buf_alloc p' k .COPYDATA = some (b', p'') → ∀ x, ¬ (b.Has x ∧ b'.Has x)

/-- The buffers of a call begin with a page and end in the address space, and the memory that
kzalloc gives is none of theirs. -/
structure Sent.Placed (s : Sent) (lrpra n : Nat) : Prop where
  pages : ∀ b, b = s.buf ∨ s.copybuf = some b → PAGE_SIZE ∣ b.va ∧ b.va + PAGE_ALIGN b.size ≤ 2 ^ 64
  lrpra : ∀ x, lrpra ≤ x → x < lrpra + n → ¬ s.Handed x

theorem has_apart {a b : Buf} (ha : 0 < a.size) (hb : 0 < b.size) (h : ∀ x, ¬ (a.Has x ∧ b.Has x)) :
    a.va + PAGE_ALIGN a.size ≤ b.va ∨ b.va + PAGE_ALIGN b.size ≤ a.va := by
  have hA := le_ALIGN a.size (show 0 < PAGE_SIZE by decide)
  have hB := le_ALIGN b.size (show 0 < PAGE_SIZE by decide)
  by_contra hnot
  apply h (max a.va b.va)
  unfold Buf.Has PAGE_ALIGN at *
  omega

/-- The three choices of copy_area. -/
theorem copy_area_cases {sh : AdsprpcShared} {c : Call} {buf : Buf} {copylen : Nat} {p : Pool}
    {area : Area} (h : copy_area sh c buf copylen p = some area) :
    (area.args = buf.va + metalen sh c ∧ area.copybuf = some buf ∧ area.cleared = []) ∨
    (∃ b p', hfastrpc_buf_alloc p copylen .COPYDATA = some (b, p') ∧ copylen ≠ 0 ∧
      area.args = b.va ∧ area.copybuf = some b ∧ area.cleared = [(b.va, zeros copylen)]) ∨
    (area.copybuf = none ∧ area.cleared = []) := by
  simp only [copy_area] at h
  split at h
  · cases h
    exact Or.inl ⟨rfl, rfl, rfl⟩
  split at h
  · rename_i hne
    obtain ⟨⟨b, p'⟩, halloc, rfl⟩ := Option.map_eq_some_iff.mp h
    exact Or.inr (Or.inl ⟨b, p', halloc, hne, rfl, rfl, rfl⟩)
  · cases h
    exact Or.inr (Or.inr ⟨rfl, rfl⟩)

section get_args

variable {sh : AdsprpcShared} {f : Fields sh} {c : Call} {buf : Buf} {copylen lrpra : Nat}
  {p p' : Pool} {area : Area}

theorem fdlist_header (f : Fields sh) (c : Call) (buf : Buf) :
    (header f c buf).fdlist = buf.va + headerlen sh c := by
  simp only [Header.fdlist, Header.start, header, headerlen, Nat.mul_add]
  omega

theorem headerlen_le_metalen (sh : AdsprpcShared) (c : Call) : headerlen sh c ≤ metalen sh c := by
  unfold metalen
  omega

/-- The arrays lie in the metadata buffer. -/
theorem header_fits (hsc : c.length ≤ M_ARGS) (hbuf : metalen sh c ≤ buf.size)
    (hspace : buf.va + PAGE_ALIGN buf.size ≤ 2 ^ 64) : (header f c buf).Fits := by
  refine ⟨hsc, ?_⟩
  have hle := headerlen_le_metalen sh c
  have hpages := le_ALIGN buf.size (show 0 < PAGE_SIZE by decide)
  rw [fdlist_header]
  unfold PAGE_ALIGN at hspace
  omega

/-- The copy area is not where the arrays are. -/
theorem copy_area_apart (hpool : PoolApart p)
    (halloc : hfastrpc_buf_alloc p (metalen sh c) .METADATA = some (buf, p'))
    (harea : copy_area sh c buf copylen p' = some area) {b : Buf} (hb : area.copybuf = some b) :
    (header f c buf).fdlist ≤ area.args ∨ areaEnd area ≤ (header f c buf).va := by
  have hbuf := hfastrpc_buf_alloc_size halloc
  have hle := headerlen_le_metalen sh c
  have hpages := le_ALIGN buf.size (show 0 < PAGE_SIZE by decide)
  rw [fdlist_header]
  rcases copy_area_cases harea with ⟨hargs, _, _⟩ | ⟨b', p'', hown, hne, hargs, hb', _⟩ | ⟨hnone, _⟩
  · left
    omega
  · have hbb : b' = b := Option.some.inj (hb'.symm.trans hb)
    subst hbb
    have hsize := hfastrpc_buf_alloc_size hown
    have hmeta := metalen_pos sh c
    have harea' : areaEnd area = b'.va + PAGE_ALIGN b'.size := by simp [areaEnd, hb]
    rcases has_apart (by omega) (by omega) (hpool _ _ _ _ _ _ halloc hown) with hap | hap
    · left
      unfold PAGE_ALIGN at hap
      omega
    · right
      simp only [header]
      omega
  · rw [hnone] at hb
    cases hb

/-- The memory when get_args begins to fill the arrays: they are clear, and so is `lrpra`. -/
theorem first_memory (f : Fields sh) (lrpra : Nat)
    (harea : copy_area sh c buf copylen p = some area)
    (old : Mem) (x : Nat)
    (hx : (buf.va ≤ x ∧ x < (header f c buf).fdlist) ∨ (lrpra ≤ x ∧ x < lrpra + lrpralen sh c)) :
    storeAll old ((buf.va, zeros (metalen sh c)) :: (lrpra, zeros (lrpralen sh c)) ::
      area.cleared) x =
      0 := by
  have hle := headerlen_le_metalen sh c
  rw [fdlist_header] at hx
  apply storeAll_of_agree
  · rcases hx with hx | hx
    · exact ⟨_, List.mem_cons_self, hx.1, by simp only [zeros, List.length_replicate]; omega⟩
    · exact ⟨_, List.mem_cons_of_mem _ List.mem_cons_self, hx.1,
        by simp only [zeros, List.length_replicate]; omega⟩
  · -- all writes are of zeros
    intro w hw _ hhi
    have hzero : ∀ n j, j < n → (zeros n)[j]? = some 0 := by
      intro n j hj
      simp [zeros, hj]
    have hlen : ∀ n, (zeros n).length = n := fun n => by simp [zeros]
    rcases List.mem_cons.mp hw with rfl | hw
    · simp only [hlen] at hhi
      exact hzero _ _ (by omega)
    rcases List.mem_cons.mp hw with rfl | hw
    · simp only [hlen] at hhi
      exact hzero _ _ (by omega)
    · rcases copy_area_cases harea with ⟨_, _, hcl⟩ | ⟨b, p'', _, _, _, _, hcl⟩ | ⟨_, hcl⟩
      · simp [hcl] at hw
      · rw [hcl, List.mem_singleton] at hw
        subst hw
        simp only [hlen] at hhi
        exact hzero _ _ (by omega)
      · simp [hcl] at hw

/-- What get_args leaves over bytes is what it leaves over values: the arrays are in the metadata
buffer, and `lrpra` in the memory of the kernel. -/
structure Refines (f : Fields sh) (c : Call) (lrpra : Nat) (sent : Sent) (l : Layout) : Prop where
  buf : sent.buf = l.buf
  copybuf : sent.copybuf = l.copybuf
  metadata : Shows (header f c l.buf) c.args.length l.md sent.mem
  lrpra : ∀ i, i < c.args.length →
    (Header.mk f lrpra c.length).pv sent.mem i = (l.lrpra i).pv ∧
      (Header.mk f lrpra c.length).len sent.mem i = (l.lrpra i).len

/-- An entry of `lrpra` lies in the memory that kzalloc gave. -/
theorem lrpra_bounds (f : Fields sh) (c : Call) (lrpra : Nat) {i : Nat} (hi : i < c.args.length)
    (snd : Bool) :
    lrpra ≤ ((Header.mk f lrpra c.length).field ⟨.rpra, snd, i⟩).addr ∧
      ((Header.mk f lrpra c.length).field ⟨.rpra, snd, i⟩).addr + 8 ≤ lrpra + lrpralen sh c := by
  have hb := field_bounds (Header.mk f lrpra c.length) ⟨.rpra, snd, i⟩
  have hlt : i < c.length := Nat.lt_of_lt_of_le hi (Nat.le_add_right _ _)
  have he := entry_le (Header.mk f lrpra c.length) .rpra hlt
  simp only [Header.start, MetaArray.size, MetaArray.width] at hb he
  unfold lrpralen
  omega

/-- In the lost case get_args leaves `lrpra` clear. -/
theorem lrpra_zero {mem : Mem}
    (hmem : ∀ x, lrpra ≤ x → x < lrpra + lrpralen sh c → mem x = 0) {i : Nat}
    (hi : i < c.args.length) :
    (Header.mk f lrpra c.length).pv mem i = 0 ∧ (Header.mk f lrpra c.length).len mem i = 0 := by
  have hzero : ∀ snd, ((Header.mk f lrpra c.length).field ⟨.rpra, snd, i⟩).get mem = 0 := by
    intro snd
    obtain ⟨hlo, hhi⟩ := lrpra_bounds f c lrpra hi snd
    apply Cell.get_eq_zero
    intro x h1 h2
    rw [field_width] at h2
    simp only [MetaArray.width] at h2
    exact hmem x (by omega) (by omega)
  unfold Header.pv Header.len
  rw [fst_eq_field, snd_eq_field, hzero, hzero]
  exact ⟨rfl, rfl⟩

/-- The copy of `rpra` in `lrpra`. -/
theorem lrpra_copied (f : Fields sh) (buf : Buf) (lrpra : Nat) (mem : Mem) {i : Nat}
    (hi : i < c.args.length) :
    (Header.mk f lrpra c.length).pv (store mem lrpra (load mem buf.va (lrpralen sh c))) i =
        (header f c buf).pv mem i ∧
      (Header.mk f lrpra c.length).len (store mem lrpra (load mem buf.va (lrpralen sh c))) i =
        (header f c buf).len mem i := by
  have hfst := (lrpra_bounds f c lrpra hi false).2
  have hsnd := (lrpra_bounds f c lrpra hi true).2
  simp only [Header.field, Header.fst, Header.snd, Header.start, Bool.false_eq_true, if_false,
    if_true] at hfst hsnd
  unfold Header.pv Header.len Header.fst Header.snd
  simp only [Header.start, header, Nat.add_assoc]
  rw [Cell.get_store_load (by simp only [MetaArray.width]; omega),
    Cell.get_store_load (by simp only [MetaArray.width]; omega)]
  exact ⟨rfl, rfl⟩

/-- The loops that fill the arrays, up to the loop over the dma handles. -/
theorem filled_shows {mem₀ mem₁ : Mem} (hf : (header f c buf).Fits)
    (hzero : ∀ x, buf.va ≤ x ∧ x < (header f c buf).fdlist → mem₀ x = 0)
    (hmap : map_loop (header f c buf) 0 c.args (list_loop (header f c buf) c c.length 0 mem₀) =
      .ok mem₁) :
    ∃ md, hybrid_marshal.map_loop 0 c.args (hybrid_marshal.list_loop c .zero) = .ok md ∧
      (handle_loop (header f c buf) c.args.length c.handles mem₁).2 =
        (hybrid_marshal.handle_loop c.args.length c.handles md).2 ∧
      Shows (header f c buf) c.args.length (hybrid_marshal.handle_loop c.args.length c.handles md).1
        (handle_loop (header f c buf) c.args.length c.handles mem₁).1 ∧
      Indexed (header f c buf) (hybrid_marshal.handle_loop c.args.length c.handles md).1 ∧
      Framed (header f c buf) mem₀
        (handle_loop (header f c buf) c.args.length c.handles mem₁).1 := by
  have hs0 : Shows (header f c buf) c.args.length .zero mem₀ :=
    shows_zero (fun x h1 h2 => hzero x ⟨h1, h2⟩)
  have hs1 := list_loop_shows (c := c) hs0 hf.length rfl
  have hx1 := indexed_list_loop (h := header f c buf) (c := c) rfl
  have hf1 := list_loop_framed (h := header f c buf) (i := 0) c
    (fun _ _ => rfl : Framed _ mem₀ mem₀)
    (Nat.le_of_eq (Nat.zero_add _))
  obtain ⟨md, hmd, hs2, hlist, hf2⟩ := map_loop_shows hf hs1 hx1 (Nat.le_of_eq (Nat.zero_add _))
    (Nat.le_add_right _ _) hf1 hmap
  obtain ⟨hfound, hs3, hf3⟩ := handle_loop_shows hs2 (Nat.le_refl _) hf2
  refine ⟨md, hmd, hfound, hs3, ?_, hf3⟩
  intro i hi
  rw [(handle_loop_frame c.args.length c.handles md).1, hlist]
  exact hx1 i hi

/-- The memory of `lrpra` is not in the arrays. -/
theorem Sent.Placed.lrpra_out {sent : Sent} (h : sent.Placed lrpra (lrpralen sh c))
    (hbuf : metalen sh c ≤ sent.buf.size) {x : Nat} (hlo : lrpra ≤ x)
    (hhi : x < lrpra + lrpralen sh c) :
    x < (header f c sent.buf).va ∨ (header f c sent.buf).fdlist ≤ x := by
  have hout := h.lrpra x hlo hhi
  have hpages := le_ALIGN sent.buf.size (show 0 < PAGE_SIZE by decide)
  have hle := headerlen_le_metalen sh c
  rw [fdlist_header]
  by_contra hin
  simp only [header] at hin
  apply hout
  left
  unfold Buf.Has PAGE_ALIGN
  omega

/-- The memory of `lrpra` is before the arrays or behind them. -/
theorem Sent.Placed.lrpra_apart {sent : Sent} (h : sent.Placed lrpra (lrpralen sh c))
    (hbuf : metalen sh c ≤ sent.buf.size) : lrpralen sh c = 0 ∨
      lrpra + lrpralen sh c ≤ (header f c sent.buf).va ∨ (header f c sent.buf).fdlist ≤ lrpra := by
  have hpages := le_ALIGN sent.buf.size (show 0 < PAGE_SIZE by decide)
  have hpos := metalen_pos sh c
  have hva : ∀ x, lrpra ≤ x → x < lrpra + lrpralen sh c → ¬ sent.buf.Has x :=
    fun x hlo hhi hx => h.lrpra x hlo hhi (Or.inl hx)
  unfold Buf.Has PAGE_ALIGN at hva
  by_contra hnot
  simp only [not_or] at hnot
  have hout := h.lrpra_out (f := f) hbuf (Nat.le_refl lrpra) (by omega)
  rcases hout with hout | hout
  · have hfirst := hva sent.buf.va
    simp only [header] at hout hnot
    omega
  · exact hnot.2.2 hout

/-- The copy loop of get_args, over bytes and over values. -/
theorem copied_shows {sort : List Overlap → List Overlap} {overs : List Overlap} {md : Metadata}
    {mem : Mem} {s : Cursor} (hperm : ∀ os, (sort os).Perm os) (hf : (header f c buf).Fits)
    (hpool : PoolApart p)
    (halloc : hfastrpc_buf_alloc p (metalen sh c) .METADATA = some (buf, p'))
    (harea : copy_area sh c buf copylen p' = some area)
    (hpages : ∀ b, area.copybuf = some b → PAGE_SIZE ∣ b.va ∧ b.va + PAGE_ALIGN b.size ≤ 2 ^ 64)
    (hroom : CopiesHaveRoom sh sort c p) (hover : build_overs 0 c.args = some overs)
    (hlen : copylen_loop c (merge_overs 0 (sort overs)) 0 = some copylen)
    (hs : Shows (header f c buf) c.args.length md mem) (hx : Indexed (header f c buf) md)
    (hcopy : copy_loop (header f c buf) c area (merge_overs 0 (sort overs))
      ⟨area.args, area.rlen, mem⟩ = .ok s) :
    ∃ v, hybrid_marshal.copy_loop c area (merge_overs 0 (sort overs))
      ⟨area.args, area.rlen, md, []⟩ =
        .ok v ∧ Related (header f c buf) c.args.length s v := by
  have hprep : prepare sh sort c p = some (sort overs, area) :=
    prepare_eq_some.mpr ⟨overs, buf, p', copylen, hover, rfl, halloc, hlen, harea⟩
  have hdesc := prepare_describes hperm hprep
  obtain ⟨total, htotal, hspace, hend⟩ := prepare_room hprep hpages
  have hargs : ∀ o ∈ [] ++ sort overs, (Describes c o ∧ o.stop < 2 ^ 64) ∧
      o.raix < c.args.length := by
    intro o ho
    exact ⟨hdesc o ho, (build_overs_call hover o ((hperm overs).mem_iff.mp ho)).2⟩
  refine copy_loop_related hf (Nat.le_add_right _ _) hargs (hroom _ _ hprep) ?_ htotal hspace
    hend hcopy rfl ⟨rfl, rfl, hs, hx⟩
  intro b hb
  exact copy_area_apart hpool halloc harea hb

/-- get_args over bytes refines get_args over values, when a handle has lost its map, or each
in-buffer that is copied has room. -/
theorem get_args_refines {sort : List Overlap → List Overlap} {old : Mem} {sent : Sent}
    (hperm : ∀ os, (sort os).Perm os) (hsc : c.length ≤ M_ARGS) (hpool : PoolApart p)
    (hplaced : sent.Placed lrpra (lrpralen sh c))
    (hroom : ¬ c.Lost → CopiesHaveRoom sh sort c p)
    (hget : get_args f sort c p lrpra old = .ok sent) :
    ∃ l, hybrid_marshal.get_args sh sort c p = .ok l ∧ Refines f c lrpra sent l := by
  unfold get_args context_build_overlap at hget
  unfold hybrid_marshal.get_args context_build_overlap
  rcases hover : build_overs 0 c.args with _ | overs
  · simp [hover] at hget
  simp only [hover, Option.map_some] at hget ⊢
  rcases halloc : hfastrpc_buf_alloc p (metalen sh c) .METADATA with _ | ⟨buf, p'⟩
  · simp [halloc] at hget
  simp only [halloc] at hget ⊢
  split at hget
  · cases hget
  rename_i hkz
  rw [if_neg hkz]
  rcases hlen : copylen_loop c (merge_overs 0 (sort overs)) 0 with _ | copylen
  · simp [hlen] at hget
  simp only [hlen] at hget ⊢
  rcases harea : copy_area sh c buf copylen p' with _ | area
  · simp [harea] at hget
  simp only [harea] at hget ⊢
  have hzero := first_memory f lrpra harea old
  generalize storeAll old _ = mem₀ at hget hzero
  rcases hmap : map_loop (header f c buf) 0 c.args (list_loop (header f c buf) c c.length 0 mem₀)
    with e | mem₁
  · simp [hmap] at hget
  simp only [hmap] at hget
  have hbuf := hfastrpc_buf_alloc_size halloc
  have hspace : sent.buf = buf → (header f c buf).Fits := fun he =>
    header_fits hsc hbuf (hplaced.pages buf (Or.inl he.symm)).2
  have hfound := handle_loop_found c.args.length c.handles
  rcases hh : handle_loop (header f c buf) c.args.length c.handles mem₁ with ⟨mem₂, _ | _⟩
  · -- a handle has lost its map
    simp only [hh] at hget
    cases hget
    obtain ⟨md, hmd, he, hshow, _, hframe⟩ := filled_shows (hspace rfl)
      (fun x hx => hzero x (Or.inl hx)) hmap
    rw [hh] at he hshow hframe
    simp only [hmd]
    rcases hv : hybrid_marshal.handle_loop c.args.length c.handles md with ⟨md₂, _ | _⟩
    · rw [hv] at hshow
      refine ⟨_, rfl, rfl, rfl, hshow, fun i hi => lrpra_zero (fun x hlo hhi => ?_) hi⟩
      have hout := hplaced.lrpra_out (f := f) hbuf hlo hhi
      exact (hframe x hout).trans (hzero x (Or.inr ⟨hlo, hhi⟩))
    · rw [hv] at he
      cases he
  · simp only [hh] at hget
    rcases hcopy :
      copy_loop (header f c buf) c area (merge_overs 0 (sort overs)) ⟨area.args, area.rlen,
      store mem₂ (header f c buf).fdlist
        (zeros (8 * map_table.M_FDLIST + 4 * M_CRCLIST + 8 * M_DSP_PERF_LIST + 4))⟩ with e | s
    · simp [hcopy] at hget
    simp only [hcopy] at hget
    cases hget
    obtain ⟨md, hmd, he, hshow, hx, _⟩ := filled_shows (hspace rfl)
      (fun x hx => hzero x (Or.inl hx)) hmap
    rw [hh] at he hshow
    simp only [hmd]
    have hlost : ¬ c.Lost := by
      rintro ⟨hd, hmem, hl⟩
      exact (hfound md).mp he.symm hd hmem hl
    rcases hv : hybrid_marshal.handle_loop c.args.length c.handles md with ⟨md₂, _ | _⟩
    · rw [hv] at he
      cases he
    rw [hv] at hshow hx
    obtain ⟨v, hv', hrel⟩ := copied_shows hperm (hspace rfl) hpool halloc harea
      (fun b hb => hplaced.pages b (Or.inr hb)) (hroom hlost) hover hlen
      (hshow.store (Or.inr (Nat.le_refl _))) hx hcopy
    simp only [hv']
    have hdma : Shows (header f c buf) c.args.length (hybrid_marshal.dma_loop c v.md)
        (if c.fds then dma_loop (header f c buf) c.args.length c.handles s.mem else s.mem) := by
      apply Shows.dma
      split
      · exact dma_loop_shows hrel.metadata (Nat.le_refl _) (Nat.le_refl _)
      · exact hrel.metadata
    generalize (if c.fds then dma_loop (header f c buf) c.args.length c.handles s.mem
      else s.mem) = mem
      at hdma hplaced
    refine ⟨_, rfl, rfl, rfl, ?_, fun i hi => ?_⟩
    · rcases hplaced.lrpra_apart (f := f) hbuf with h0 | hap
      · rw [h0, load, List.range_zero, List.map_nil, store_nil]
        exact hdma
      · apply hdma.store
        simpa [load] using hap
    · have hlt : i < (header f c buf).length := Nat.lt_of_lt_of_le hi (Nat.le_add_right _ _)
      have hpv := hdma.pv hlt hi
      have hlen := hdma.len hlt hi
      rw [(dma_loop_frame c v.md).1] at hpv hlen
      obtain ⟨h1, h2⟩ := lrpra_copied f buf lrpra mem hi
      exact ⟨h1.trans hpv, h2.trans hlen⟩

end get_args

end virtual_fastrpc.hybrid_bytes
