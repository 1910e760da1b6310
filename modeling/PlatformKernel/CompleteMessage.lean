-- When get_args of the hybrid driver returns 0: whether the message is complete.
-- One of its exits has no error: another call has freed the map of a dma handle
-- while this one did not hold the map_mutex.
import PlatformKernel.CopyRoom

namespace virtual_fastrpc.complete_message

open bytes buffers hybrid_marshal sweep mapped_pages copy_room

/-! ## The copy loop, cut at a buffer -/

section loop

variable {c : Call} {area : Area} {pre os : List Overlap} {o : Overlap} {s s' : Cursor}

theorem copy_loop_append (h : copy_loop c area (pre ++ os) s = .ok s') :
    ∃ s₁, copy_loop c area pre s = .ok s₁ ∧ copy_loop c area os s₁ = .ok s' := by
  induction pre generalizing s with
  | nil => exact ⟨s, rfl, h⟩
  | cons o pre ih =>
    simp only [List.cons_append, copy_loop] at h ⊢
    by_cases hcop : c.copied o.raix = true
    · simp only [hcop, if_true] at h ⊢
      split at h
      · cases h
      · exact ih h
    · simp only [hcop] at h ⊢
      exact ih h

theorem copy_loop_copied (h : copy_loop c area (o :: os) s = .ok s')
    (hcop : c.copied o.raix = true) :
    ∃ s₁, copy_buf c area o s = .ok s₁ ∧ copy_loop c area os s₁ = .ok s' := by
  rcases copy_loop_cons h with ⟨_, hturn⟩ | ⟨hno, _⟩
  · exact hturn
  · exact absurd hcop hno

theorem copy_buf_room (h : copy_buf c area o s = .ok s') : o.mlen ≤ (copyRlen o s).toNat := by
  simp only [copy_buf] at h
  split at h
  · cases h
  · rename_i hroom
    exact Nat.le_of_not_lt hroom

/-- The loop leaves the entries of the buffers that it does not come to, and all copies. -/
theorem copy_loop_others (h : copy_loop c area os s = .ok s') :
    (∀ i, i ∉ os.map Overlap.raix → s'.md.rpra i = s.md.rpra i) ∧
      (∀ w ∈ s.copies, w ∈ s'.copies) := by
  induction os generalizing s with
  | nil =>
    cases h
    exact ⟨fun _ _ => rfl, fun _ hw => hw⟩
  | cons o os ih =>
    rcases copy_loop_cons h with ⟨_, s₁, hone, hrest⟩ | ⟨_, h⟩
    · obtain ⟨pv, hrpra, hcopies⟩ := copy_buf_ok hone
      obtain ⟨hothers, hsub⟩ := ih hrest
      refine ⟨?_, ?_⟩
      · intro i hi
        rw [List.map_cons, List.mem_cons, not_or] at hi
        rw [hothers i hi.2, hrpra, Function.update_of_ne hi.1]
      · intro w hw
        apply hsub
        rcases hcopies with ⟨_, bs, _, he⟩ | ⟨_, he⟩
        · rw [he]
          exact List.mem_append_left _ hw
        · rw [he]
          exact hw
    · obtain ⟨hothers, hsub⟩ := ih h
      refine ⟨fun i hi => hothers i ?_, hsub⟩
      rw [List.map_cons, List.mem_cons, not_or] at hi
      exact hi.2

/-- The turn of a buffer that is copied: the loop has left its place and its copy. -/
theorem turn_of_loop {post : List Overlap} (hle : ∀ q ∈ pre ++ o :: post, q.start ≤ q.stop)
    (hnodup : ((pre ++ o :: post).map Overlap.raix).Nodup)
    (hloop : copy_loop c area (merge_overs 0 (pre ++ o :: post)) s = .ok s')
    (hcop : c.copied o.raix = true) : ∃ s₁, copy_loop c area (merge_overs 0 pre) s = .ok s₁ ∧
      (entry pre o).mlen ≤ (copyRlen (entry pre o) s₁).toNat ∧
      (s'.md.rpra o.raix).pv = copyPv (entry pre o) s₁ ∧
      (o.raix < c.inbufs → ∃ bs, ((copyPv (entry pre o) s₁).toNat, bs) ∈ s'.copies ∧
        copy_from_user c.user (c.arg o.raix).pv.toNat (c.arg o.raix).len.toNat = some bs) := by
  rw [merge_overs_append (fun q hq => hle q (List.mem_append_left _ hq)), merge_overs_cons] at hloop
  obtain ⟨s₁, hpre, hrest⟩ := copy_loop_append hloop
  obtain ⟨s₂, hone, hrest⟩ := copy_loop_copied hrest (by rw [merge_over_raix]; exact hcop)
  change copy_buf c area (entry pre o) s₁ = .ok s₂ at hone
  obtain ⟨b, hb⟩ := copy_buf_copybuf hone
  obtain ⟨_, _, hrpra, _, _, hcopies⟩ := copy_buf_spec hone hb
  have hraix : (entry pre o).raix = o.raix := merge_over_raix _ _
  rw [hraix] at hrpra hcopies
  -- the buffer does not come again
  have hnew : o.raix ∉ (merge_overs (merge_reach (reachOf pre) o) post).map Overlap.raix := by
    rw [List.map_append, List.map_cons] at hnodup
    rw [raix_merge_overs]
    exact (List.nodup_cons.mp (List.nodup_append.mp hnodup).2.1).1
  obtain ⟨hothers, hsub⟩ := copy_loop_others hrest
  refine ⟨s₁, hpre, copy_buf_room hone, ?_, ?_⟩
  · rw [hothers o.raix hnew, hrpra, Function.update_self]
  · intro hin
    rcases hcopies with ⟨_, bs, hbs, he⟩ | ⟨hout, _⟩
    · exact ⟨bs, hsub _ (by simp [he]), hbs⟩
    · exact absurd hin hout

end loop

/-! ## The entries of the dma handles -/

section handles

variable {c : Call} {hs : List Handle} {k : Nat} {hd : Handle}

/-- When no map is lost, each one that was taken has its page. -/
theorem handle_loop_pages (i : Nat) (hs : List Handle) (md : Metadata)
    (h : (handle_loop i hs md).2 = true) (hk : hs[k]? = some hd) {da size : BitVec 64}
    (hm : hd.map = .found da size) : (handle_loop i hs md).1.pages (i + k) = ⟨da, size⟩ := by
  induction hs generalizing i md k with
  | nil => cases hk
  | cons x hs ih =>
    cases k with
    | zero =>
      cases hk
      simp only [handle_loop, hm]
      rw [(handle_loop_frame (i + 1) hs _).2 (i + 0) (by omega)]
      exact Function.update_self ..
    | succ k =>
      rw [show i + (k + 1) = i + 1 + k by omega]
      have hrest : hs[k]? = some hd := by simpa using hk
      simp only [handle_loop] at h ⊢
      rcases hx : x.map with _ | _ | ⟨da', size'⟩
      · simp only [hx] at h ⊢
        exact ih (i + 1) md h hrest
      · simp [hx] at h
      · simp only [hx] at h ⊢
        exact ih (i + 1) _ h hrest

theorem dma_loop_dma (c : Call) (md : Metadata) (hfds : c.fds = true)
    (hk : c.handles[k]? = some hd) :
    (dma_loop c md).dma (c.args.length + k) = ⟨hd.fd, hd.len.setWidth 32, hd.pv.setWidth 32⟩ := by
  simp [dma_loop, hfds, hk]

end handles

/-! ## The two models of get_args -/

section models

variable {sh : AdsprpcShared} {h : hybrid_bytes.Header sh} {c : Call} {area : Area}

/-- What the loops over bytes decide, they decide without the arrays. -/
theorem map_loop_ok {i : Nat} {as : List Arg} {mem mem' : Mem}
    (hmap : hybrid_bytes.map_loop h i as mem = .ok mem') (md : Metadata) :
    ∃ md', map_loop i as md = .ok md' := by
  induction as generalizing i mem md with
  | nil => exact ⟨md, rfl⟩
  | cons a as ih =>
    simp only [hybrid_bytes.map_loop] at hmap
    simp only [map_loop]
    by_cases h0 : a.len = 0
    · simp only [h0, if_true] at hmap ⊢
      exact ih hmap _
    simp only [h0, if_false] at hmap ⊢
    rcases hm : a.map with _ | m
    · simp only [hm] at hmap ⊢
      exact ih hmap _
    simp only [hm] at hmap ⊢
    rcases hp : map_pages a m with e | page
    · simp [hp] at hmap
    · simp only [hp] at hmap ⊢
      exact ih hmap _

theorem handle_loop_same (i : Nat) (hs : List Handle) (mem : Mem) (md : Metadata) :
    (hybrid_bytes.handle_loop h i hs mem).2 = (handle_loop i hs md).2 := by
  induction hs generalizing i mem md with
  | nil => rfl
  | cons x hs ih =>
    simp only [hybrid_bytes.handle_loop, handle_loop]
    rcases x.map with _ | _ | ⟨da, size⟩
    · exact ih _ _ _
    · rfl
    · exact ih _ _ _

theorem copy_buf_ok_of_bytes {o : Overlap} {s s' : hybrid_bytes.Cursor} {v : Cursor}
    (hargs : s.args = v.args) (hrlen : s.rlen = v.rlen)
    (hcopy : hybrid_bytes.copy_buf h c area o s = .ok s') :
    ∃ v', copy_buf c area o v = .ok v' ∧ s'.args = v'.args ∧ s'.rlen = v'.rlen := by
  simp only [hybrid_bytes.copy_buf, hargs, hrlen] at hcopy
  simp only [copy_buf]
  split at hcopy
  · cases hcopy
  rename_i hroom
  rw [if_neg hroom]
  rcases hb : area.copybuf with _ | b
  · simp [hb] at hcopy
  simp only [hb] at hcopy ⊢
  split at hcopy
  · rename_i hin
    rw [if_pos hin]
    rcases hbs : copy_from_user c.user (c.arg o.raix).pv.toNat (c.arg o.raix).len.toNat with _ | bs
    · simp [hbs] at hcopy
    · simp only [hbs] at hcopy ⊢
      cases hcopy
      exact ⟨_, rfl, rfl, rfl⟩
  · rename_i hin
    rw [if_neg hin]
    cases hcopy
    exact ⟨_, rfl, rfl, rfl⟩

theorem copy_loop_ok {os : List Overlap} {s s' : hybrid_bytes.Cursor} {v : Cursor}
    (hargs : s.args = v.args) (hrlen : s.rlen = v.rlen)
    (hcopy : hybrid_bytes.copy_loop h c area os s = .ok s') :
    ∃ v', copy_loop c area os v = .ok v' := by
  induction os generalizing s v with
  | nil => exact ⟨v, rfl⟩
  | cons o os ih =>
    simp only [hybrid_bytes.copy_loop] at hcopy
    simp only [copy_loop]
    by_cases hcop : c.copied o.raix = true
    · simp only [hcop, if_true] at hcopy ⊢
      split at hcopy
      · cases hcopy
      rename_i s₁ hone
      obtain ⟨v₁, hv, ha, hr⟩ := copy_buf_ok_of_bytes hargs hrlen hone
      simp only [hv]
      exact ih ha hr hcopy
    · simp only [hcop] at hcopy ⊢
      exact ih hargs hrlen hcopy

end models

/-- Both models of a get_args that returns 0. When no handle has lost its map, it has come through
the copy loop, and has copied `rpra` at last. -/
structure Returned (sh : AdsprpcShared) (sort : List Overlap → List Overlap) (c : Call) (p : Pool)
    (lrpra : Nat) (sent : hybrid_bytes.Sent) (l : Layout) (os : List Overlap) (area : Area) :
      Prop where
  prepared : prepare sh sort c p = some (os, area)
  copybuf : sent.copybuf = area.copybuf
  header : metalen sh c ≤ sent.buf.size
  whole : ¬ c.Lost → ∃ md s mem, Started sh sort c p os area md ∧
    copy_loop c area (merge_overs 0 os) ⟨area.args, area.rlen, md, []⟩ = .ok s ∧
    l.md = dma_loop c s.md ∧ l.copies = s.copies ∧
    sent.mem = store mem lrpra (load mem sent.buf.va (lrpralen sh c))

theorem get_args_returned {sh : AdsprpcShared} {f : hybrid_bytes.Fields sh}
    {sort : List Overlap → List Overlap} {c : Call} {p : Pool} {lrpra : Nat} {old : Mem}
    {sent : hybrid_bytes.Sent} (hget : hybrid_bytes.get_args f sort c p lrpra old = .ok sent) :
    ∃ l os area, get_args sh sort c p = .ok l ∧ Returned sh sort c p lrpra sent l os area := by
  unfold hybrid_bytes.get_args context_build_overlap at hget
  unfold get_args context_build_overlap
  rcases hover : build_overs 0 c.args with _ | overs
  · simp [hover] at hget
  simp only [hover, Option.map_some] at hget ⊢
  rcases halloc : hfastrpc_buf_alloc p (metalen sh c) .METADATA with _ | ⟨buf, p'⟩
  · simp [halloc] at hget
  simp only [halloc] at hget ⊢
  split at hget
  · cases hget
  rename_i hkz
  rw [if_neg hkz]
  rcases hlen : copylen_loop c (merge_overs 0 (sort overs)) 0 with _ | copylen
  · simp [hlen] at hget
  simp only [hlen] at hget ⊢
  rcases harea : copy_area sh c buf copylen p' with _ | area
  · simp [harea] at hget
  simp only [harea] at hget ⊢
  have hprep : prepare sh sort c p = some (sort overs, area) :=
    prepare_eq_some.mpr ⟨overs, buf, p', copylen, hover, rfl, halloc, hlen, harea⟩
  have hheader := hfastrpc_buf_alloc_size halloc
  split at hget
  · cases hget
  rename_i mem hmap
  obtain ⟨md₀, hmd⟩ := map_loop_ok hmap (list_loop c .zero)
  have hsame := handle_loop_same (h := hybrid_bytes.header f c buf) c.args.length c.handles mem md₀
  have hfound := handle_loop_found c.args.length c.handles md₀
  have hlost : (handle_loop c.args.length c.handles md₀).2 = true ↔ ¬ c.Lost := by
    rw [hfound]
    simp [Call.Lost]
  simp only [hmd]
  rcases hv : handle_loop c.args.length c.handles md₀ with ⟨md, _ | _⟩
  · rw [hv] at hsame hlost
    rcases hh : hybrid_bytes.handle_loop (hybrid_bytes.header f c buf) c.args.length c.handles mem
      with ⟨mem₁, ok⟩
    rw [hh] at hsame
    cases hsame
    simp only [hh] at hget
    cases hget
    exact ⟨_, sort overs, area, rfl, hprep, rfl, hheader,
      fun hnot => absurd (hlost.mpr hnot) (by simp)⟩
  · rw [hv] at hsame
    rcases hh : hybrid_bytes.handle_loop (hybrid_bytes.header f c buf) c.args.length c.handles mem
      with ⟨mem₁, ok⟩
    rw [hh] at hsame
    cases hsame
    simp only [hh] at hget
    split at hget
    · cases hget
    rename_i s hcopy
    obtain ⟨v, hv'⟩ := copy_loop_ok (v := ⟨area.args, area.rlen, md, []⟩) rfl rfl hcopy
    simp only [hv']
    cases hget
    refine ⟨_, sort overs, area, rfl, hprep, rfl, hheader,
      fun _ => ⟨md, v, _, ⟨hprep, ?_, md₀, hmd, hv⟩, hv', rfl, rfl, rfl⟩⟩
    simpa [or_iff_not_imp_left] using hkz

/-! ## Complete messages -/

/-- What a message has when get_args has come through all of its loops: each buffer that is copied
has its place in the copy area, and each of them that is an in-buffer is copied there; the entry of
each dma handle is filled, with the page of the map that was taken for it; and `lrpra` is what
`rpra` is in the metadata. -/
structure Complete (sh : AdsprpcShared) (c : Call) (area : Area) (lrpra : Nat)
    (sent : hybrid_bytes.Sent) (l : Layout) : Prop where
  placed : ∀ i, c.copied i = true → InArea area (l.md.rpra i).pv (c.arg i).len
  copied : ∀ i, i < c.inbufs → c.copied i = true → ∃ bs, (place l.md.rpra i, bs) ∈ l.copies ∧
    copy_from_user c.user (c.arg i).pv.toNat (c.arg i).len.toNat = some bs
  dma : ∀ k h, c.handles[k]? = some h → c.fds = true ∧
    l.md.dma (c.args.length + k) = ⟨h.fd, h.len.setWidth 32, h.pv.setWidth 32⟩
  pages : ∀ k h, c.handles[k]? = some h → h.map ≠ .none →
    ∃ da size, h.map = .found da size ∧ l.md.pages (c.args.length + k) = ⟨da, size⟩
  lrpra : load sent.mem lrpra (lrpralen sh c) = load sent.mem sent.buf.va (lrpralen sh c)

section complete

variable {sh : AdsprpcShared} {sort : List Overlap → List Overlap} {c : Call} {p : Pool}
  {lrpra : Nat}
  {sent : hybrid_bytes.Sent} {l : Layout} {os pre post : List Overlap} {o : Overlap} {area : Area}
  {md : Metadata} {s : Cursor}

/-- The loop has come to each buffer that it copies, and has left its place and its copy. -/
theorem reached_of_loop (hperm : ∀ os, (sort os).Perm os)
    (hstart : Started sh sort c p (pre ++ o :: post) area md)
    (hloop : copy_loop c area (merge_overs 0 (pre ++ o :: post))
      ⟨area.args, area.rlen, md, []⟩ = .ok s)
    (hcop : c.copied o.raix = true) : ∃ s₁, Reached sh sort c p area pre o s₁ ∧
      (s.md.rpra o.raix).pv = copyPv (entry pre o) s₁ ∧
      (o.raix < c.inbufs → ∃ bs, ((copyPv (entry pre o) s₁).toNat, bs) ∈ s.copies ∧
        copy_from_user c.user (c.arg o.raix).pv.toNat (c.arg o.raix).len.toNat = some bs) := by
  have hle := fun q hq => (prepare_describes hperm hstart.prepared q hq).1.le
  obtain ⟨s₁, hpre, hroom, hpv, hcopy⟩ :=
    turn_of_loop hle (prepare_nodup hperm hstart.prepared) hloop hcop
  exact ⟨s₁, ⟨⟨post, md, hstart, hpre⟩, hcop, hroom⟩, hpv, hcopy⟩

/-- Before the copy loop, `list` sends each buffer to its own page. -/
theorem started_list (h : Started sh sort c p os area md) {i : Nat} (hi : i < c.args.length) :
    (md.list i).pgidx = i := by
  obtain ⟨md₀, hmap, hfound⟩ := h.maps
  have hlist₀ := (map_loop_pages hmap (fun k _ hk => list_loop_pgidx (by omega))).1
  have hlist₁ := (handle_loop_frame c.args.length c.handles md₀).1
  rw [hfound] at hlist₁
  rw [hlist₁, hlist₀]
  exact list_loop_pgidx hi

/-- Each buffer that is copied has its turn. -/
theorem mem_order (hperm : ∀ os, (sort os).Perm os) (hprep : prepare sh sort c p = some (os, area))
    {i : Nat} (hcop : c.copied i = true) : ∃ pre o post, os = pre ++ o :: post ∧ o.raix = i := by
  obtain ⟨overs, _, _, _, hbuilt, rfl, _⟩ := prepare_eq_some.mp hprep
  have hmem : i ∈ (sort overs).map Overlap.raix := by
    rw [((hperm overs).map Overlap.raix).mem_iff, raix_build_overs hbuilt, List.mem_range']
    exact ⟨i, lt_length_of_copied hcop, by omega⟩
  obtain ⟨o, ho, rfl⟩ := List.mem_map.mp hmem
  obtain ⟨pre, post, he⟩ := List.append_of_mem ho
  exact ⟨pre, o, post, he, rfl⟩

/-- A copy of memory into memory that is apart from it. -/
theorem load_copied {mem : Mem} {a b n : Nat} (hap : n = 0 ∨ a + n ≤ b ∨ b + n ≤ a) :
    load (store mem a (load mem b n)) a n = load (store mem a (load mem b n)) b n := by
  have hlen : (load mem b n).length = n := by simp [load]
  have hself : load (store mem a (load mem b n)) a n = load mem b n := by
    have hsame := words.load_store_same mem a (load mem b n)
    rwa [hlen] at hsame
  rw [hself]
  apply load_eq_iff.mpr
  intro j hj
  exact (words.store_eq_of_apart (by omega)).symm

/-- A get_args that returns 0 has made a complete message just when each dma handle whose map it
took still had a map at its second look, the call has fds or no dma handles, and each buffer that it
copies has room before the cursor. The kernel sorts, gives buffers that begin with a page and end in
the address space, and has `lrpra` apart from them. -/
theorem messages_are_complete_iff {f : hybrid_bytes.Fields sh} {old : Mem}
    (hperm : ∀ os, (sort os).Perm os) (hplaced : sent.Placed lrpra (lrpralen sh c))
    (hget : hybrid_bytes.get_args f sort c p lrpra old = .ok sent) :
    ∃ l os area, get_args sh sort c p = .ok l ∧ prepare sh sort c p = some (os, area) ∧
      (Complete sh c area lrpra sent l ↔
        ¬ c.Lost ∧ (c.fds = true ∨ c.handles = []) ∧
          ∀ pre o post, os = pre ++ o :: post → c.copied o.raix = true → HasRoom c area pre o) := by
  obtain ⟨l, os, area, hval, hret⟩ := get_args_returned hget
  refine ⟨l, os, area, hval, hret.prepared, ?_⟩
  have hpages : ∀ b, area.copybuf = some b → PAGE_SIZE ∣ b.va ∧ b.va + PAGE_ALIGN b.size ≤ 2 ^ 64 :=
    fun b hb => hplaced.pages b (Or.inr (hret.copybuf.trans hb))
  constructor
  · intro h
    have hlost : ¬ c.Lost := by
      rintro ⟨x, hx, hl⟩
      obtain ⟨k, hk⟩ := List.mem_iff_getElem?.mp hx
      obtain ⟨da, size, hfound, _⟩ := h.pages k x hk (by simp [hl])
      rw [hl] at hfound
      cases hfound
    obtain ⟨md, s, mem, hstart, hloop, hmd, _, _⟩ := hret.whole hlost
    refine ⟨hlost, ?_, ?_⟩
    · rcases hhandles : c.handles with _ | ⟨x, hs⟩
      · exact Or.inr rfl
      · exact Or.inl (h.dma 0 x (by simp [hhandles])).1
    · rintro pre o post rfl hcop
      obtain ⟨s₁, hreached, hpv, _⟩ := reached_of_loop hperm hstart hloop hcop
      have hplace := h.placed o.raix hcop
      rw [hmd, (dma_loop_frame c s.md).1, hpv] at hplace
      exact (hreached.inArea_iff hperm hpages).mp hplace
  · rintro ⟨hlost, hfds, hroom⟩
    obtain ⟨md, s, mem, hstart, hloop, hmd, hcopies, hmem⟩ := hret.whole hlost
    obtain ⟨hrpra, hpages'⟩ := dma_loop_frame c s.md
    obtain ⟨md₀, hmap, hfound⟩ := hstart.maps
    refine ⟨?_, ?_, ?_, ?_, ?_⟩
    · intro i hcop
      obtain ⟨pre, o, post, rfl, rfl⟩ := mem_order hperm hret.prepared hcop
      obtain ⟨s₁, hreached, hpv, _⟩ := reached_of_loop hperm hstart hloop hcop
      rw [hmd, hrpra, hpv]
      exact (hreached.inArea_iff hperm hpages).mpr (hroom pre o post rfl hcop)
    · intro i hin hcop
      obtain ⟨pre, o, post, rfl, rfl⟩ := mem_order hperm hret.prepared hcop
      obtain ⟨s₁, _, hpv, hcopy⟩ := reached_of_loop hperm hstart hloop hcop
      rw [hmd, hrpra, hcopies]
      unfold place
      rw [hpv]
      exact hcopy hin
    · intro k x hk
      have hfds : c.fds = true := by
        refine hfds.resolve_right ?_
        intro hnil
        simp [hnil] at hk
      rw [hmd]
      exact ⟨hfds, dma_loop_dma c s.md hfds hk⟩
    · intro k x hk hne
      have hnot : x.map ≠ .lost := fun hl => hlost ⟨x, List.mem_of_getElem? hk, hl⟩
      rcases hx : x.map with _ | _ | ⟨da, size⟩
      · exact absurd hx hne
      · exact absurd hx hnot
      refine ⟨da, size, rfl, ?_⟩
      have hpage := handle_loop_pages c.args.length c.handles md₀ (by rw [hfound]) hk hx
      rw [hfound] at hpage
      have hcop : c.copied (c.args.length + k) = false := by
        by_contra hne
        have hlt := lt_length_of_copied (by simpa using hne)
        omega
      rw [hmd, hpages',
        copy_loop_pages hloop (fun i hi => started_list hstart (lt_length_of_copied hi))
        hcop]
      exact hpage
    · have happart := hplaced.lrpra_apart (f := f) hret.header
      have hlen : lrpralen sh c ≤ headerlen sh c := by
        unfold lrpralen headerlen
        exact Nat.mul_le_mul_left _ (by omega)
      rw [hybrid_bytes.fdlist_header] at happart
      rw [hmem]
      apply load_copied
      simp only [hybrid_bytes.header] at happart
      omega

end complete

/-- The call of `lostCall`, with the map of the dma handle still there. -/
def foundCall : Call := { lostCall with handles := [⟨7, 0, 4096, .found 0x70000000 4096⟩] }

theorem a_found_handle_makes_a_complete_message :
    ∃ sent l area, hybrid_bytes.get_args hybrid_bytes.sampleFields sortOverlaps foundCall
      hdrPool 4096
        (fun _ => 0) = .ok sent ∧
      get_args sampleShared sortOverlaps foundCall hdrPool = .ok l ∧
      Complete sampleShared foundCall area 4096 sent l := by
  obtain ⟨sent, hget, hbuf, hcopy⟩ : ∃ sent, hybrid_bytes.get_args hybrid_bytes.sampleFields
      sortOverlaps foundCall hdrPool 4096 (fun _ => 0) = .ok sent ∧ sent.buf = ⟨8192, 4096⟩ ∧
      sent.copybuf = some sent.buf := ⟨_, rfl, rfl, rfl⟩
  have hplaced : sent.Placed 4096 (lrpralen sampleShared foundCall) := by
    have hp := hybrid_bytes.placed_in_hdrPool hbuf hcopy (n := 48) (by decide)
    exact ⟨hp.pages, fun x hlo hhi => hp.lrpra x hlo (Nat.lt_of_lt_of_le hhi (by decide))⟩
  obtain ⟨l, os, area, hval, hprep, hiff⟩ :=
    messages_are_complete_iff (fun os => List.perm_insertionSort _ os) hplaced hget
  refine ⟨sent, l, area, hget, hval, hiff.mpr ⟨by simp [Call.Lost, foundCall], Or.inl rfl, ?_⟩⟩
  rintro pre o post rfl _
  -- there is one buffer
  obtain ⟨overs, _, _, _, hbuilt, he, _⟩ := prepare_eq_some.mp hprep
  cases hbuilt
  have hlen := congrArg List.length he
  rw [List.length_append, (List.perm_insertionSort _ _).length_eq] at hlen
  have hnil : pre = [] := by
    apply List.eq_nil_of_length_eq_zero
    simp at hlen
    omega
  rw [hnil]
  exact Or.inl (Nat.zero_le _)

/-- The other call frees the map while this one does not hold the mutex: get_args returns 0 without
the copy of the in-buffer, and the DSP gets the address of the user. -/
theorem a_lost_handle_leaves_the_message_incomplete :
    ∃ sent l, hybrid_bytes.get_args hybrid_bytes.sampleFields sortOverlaps lostCall hdrPool 4096
        (fun _ => 0) = .ok sent ∧
      get_args sampleShared sortOverlaps lostCall hdrPool = .ok l ∧
      l.copies = [] ∧ (l.md.rpra 0).pv = 65536 ∧
      ∀ area, ¬ Complete sampleShared lostCall area 4096 sent l := by
  refine ⟨_, _, rfl, rfl, rfl, rfl, ?_⟩
  intro area h
  obtain ⟨da, size, hfound, _⟩ := h.pages 0 ⟨7, 0, 4096, .lost⟩ rfl (by decide)
  cases hfound

end virtual_fastrpc.complete_message
