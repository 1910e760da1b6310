-- put_args of the hybrid driver over bytes, after the DSP has written to the
-- shared buffers. The copies to the out-buffers follow `lrpra`, which the DSP
-- cannot reach; but an in-buffer for which there is no room can be copied over
-- `rpra`, before `lrpra` is made from it.
import PlatformKernel.HybridRefines

namespace virtual_fastrpc.hybrid_bytes

open bytes buffers words keyed hybrid_marshal copy_room

/-! ## put_args -/

/-- The macro K_COPY_TO_USER: what it writes, and whether it writes all of it. -/
def K_COPY_TO_USER (kernel : Bool) (user : UserMem) (mem : Mem) (dst src n : Nat) :
    (Nat × List Byte) × Bool :=
  if kernel then ((dst, load mem src n), true) else copy_to_user user mem dst src n

/-- A copy to the out-buffer `arg`. -/
structure Copy where
  arg : Nat
  dst : Nat
  src : Nat
  len : Nat
  deriving DecidableEq, Repr

/-- Where put_args is: the maps of the buffers, the maps of the session, the copies to the
out-buffers and all writes to the memory of the user. -/
structure Put where
  maps : Nat → Option Nat
  table : List map_table.Map
  copies : List Copy
  writes : List (Nat × List Byte)

/-- One turn of the loop over the out-buffers, and whether it goes on. The argument `l` is
`lrpra`. -/
def put_buf {sh : AdsprpcShared} (l : Header sh) (c : Call) (kernel : Bool) (mem : Mem) (i : Nat)
    (s : Put) : Put × Bool :=
  match s.maps i with
  | none =>
    let copy := Copy.mk i (c.arg i).pv.toNat (l.pv mem i).toNat (l.len mem i).toNat
    let r := K_COPY_TO_USER kernel c.user mem copy.dst copy.src copy.len
    ({ s with copies := s.copies ++ [copy], writes := s.writes ++ [r.1] }, r.2)
  | some id =>
    ({ s with
        table := alter map_table.Map.id s.table id map_table.Map.dropCtx
        maps := Function.update s.maps i none }, true)

def put_loop {sh : AdsprpcShared} (l : Header sh) (c : Call) (kernel : Bool) (mem : Mem) :
    List Nat → Put → Put × Bool
  | [], s => (s, true)
  | i :: is, s =>
    match put_buf l c kernel mem i s with
    | (s, true) => put_loop l c kernel mem is s
    | (s, false) => (s, false)

/-- The fds that the DSP has written to the metadata buffer. -/
def Header.fds {sh : AdsprpcShared} (h : Header sh) (mem : Mem) : List (BitVec 64) :=
  (List.range map_table.M_FDLIST).map
    (fun k => BitVec.ofNat 64 ((Cell.mk (h.fdlist + 8 * k) 8).get mem))

/-- put_args, and whether it succeeds. -/
def put_args {sh : AdsprpcShared} (f : Fields sh) (c : Call) (kernel : Bool) (buf : Buf)
    (lrpra : Nat)
    (mem : Mem) (s : Put) : Put × Bool :=
  match put_loop (Header.mk f lrpra c.length) c kernel mem
    (List.range' c.inbufs (c.args.length - c.inbufs)) s with
  | (s, false) => (s, false)
  | (s, true) =>
    let h := header f c buf
    let table := map_table.put_args_fdlist s.table (h.fds mem)
    let crclist := h.fdlist + 8 * map_table.M_FDLIST
    let perf_dsp_list := crclist + 4 * M_CRCLIST + 4
    let crc := if lrpralen sh c = 0 then none else
      c.crc.map (fun u => K_COPY_TO_USER kernel c.user mem u crclist (4 * M_CRCLIST))
    let perf := c.perf_dsp.map
      (fun u => K_COPY_TO_USER kernel c.user mem u perf_dsp_list (8 * M_DSP_PERF_LIST))
    ({ s with
        table
        writes := s.writes ++ crc.toList.map Prod.fst ++ perf.toList.map Prod.fst },
      crc.all Prod.snd)

/-- put_args begins with the maps of the call, which `ids` names. -/
def Put.start (c : Call) (ids : Nat → Nat) (table : List map_table.Map) : Put :=
  ⟨fun i => if (c.arg i).map.isSome then some (ids i) else none, table, [], []⟩

/-! ## What the copies follow -/

section copies

variable {sh : AdsprpcShared} {l : Header sh} {c : Call} {kernel : Bool} {mem mem' : Mem}

theorem K_COPY_TO_USER_ok (kernel : Bool) (user : UserMem) (mem : Mem) (dst src n : Nat) :
    (K_COPY_TO_USER kernel user mem dst src n).2 = (kernel || decide (n ≤ user.takes dst)) := by
  unfold K_COPY_TO_USER copy_to_user
  cases kernel <;> simp

/-- A turn takes the place and the length of its buffer from `lrpra`, and nothing else from the
memory decides about the copies. -/
theorem put_buf_same (c : Call) (kernel : Bool) {i : Nat} {s s' : Put}
    (hpv : l.pv mem i = l.pv mem' i)
    (hlen : l.len mem i = l.len mem' i) (hmaps : s.maps = s'.maps)
    (hcopies : s.copies = s'.copies) :
    (put_buf l c kernel mem i s).1.maps = (put_buf l c kernel mem' i s').1.maps ∧
      (put_buf l c kernel mem i s).1.copies = (put_buf l c kernel mem' i s').1.copies ∧
      (put_buf l c kernel mem i s).2 = (put_buf l c kernel mem' i s').2 := by
  unfold put_buf
  rw [← hmaps, ← hpv, ← hlen, ← hcopies]
  rcases s.maps i with _ | id
  · simp [K_COPY_TO_USER_ok]
  · simp

theorem put_loop_same {is : List Nat} {s s' : Put}
    (hl : ∀ i ∈ is, l.pv mem i = l.pv mem' i ∧ l.len mem i = l.len mem' i)
    (hmaps : s.maps = s'.maps)
    (hcopies : s.copies = s'.copies) :
    (put_loop l c kernel mem is s).1.copies = (put_loop l c kernel mem' is s').1.copies := by
  induction is generalizing s s' with
  | nil => exact hcopies
  | cons i is ih =>
    obtain ⟨⟨hpv, hlen⟩, hl⟩ := List.forall_mem_cons.mp hl
    obtain ⟨hm, hc, hok⟩ := put_buf_same c kernel hpv hlen hmaps hcopies
    unfold put_loop
    rcases h1 : put_buf l c kernel mem i s with ⟨s₁, ok₁⟩
    rcases h2 : put_buf l c kernel mem' i s' with ⟨s₂, ok₂⟩
    rw [h1, h2] at hm hc hok
    cases hok
    cases ok₁
    · exact hc
    · exact ih hl hm hc

/-- A copy is one that was there, or follows the entry of its buffer. -/
theorem mem_put_loop {is : List Nat} {s : Put} {k : Copy}
    (hk : k ∈ (put_loop l c kernel mem is s).1.copies) : k ∈ s.copies ∨
      (k.arg ∈ is ∧ k.dst = (c.arg k.arg).pv.toNat ∧ k.src = (l.pv mem k.arg).toNat ∧
        k.len = (l.len mem k.arg).toNat) := by
  induction is generalizing s with
  | nil => exact Or.inl hk
  | cons i is ih =>
    have hone : ∀ k ∈ (put_buf l c kernel mem i s).1.copies, k ∈ s.copies ∨
        k = ⟨i, (c.arg i).pv.toNat, (l.pv mem i).toNat, (l.len mem i).toNat⟩ := by
      intro k hk
      unfold put_buf at hk
      split at hk
      · simpa using hk
      · exact Or.inl hk
    have hstep : k ∈ (put_buf l c kernel mem i s).1.copies ∨ (k.arg ∈ is ∧
        k.dst = (c.arg k.arg).pv.toNat ∧ k.src = (l.pv mem k.arg).toNat ∧
        k.len = (l.len mem k.arg).toNat) := by
      unfold put_loop at hk
      split at hk
      · rename_i s₁ he
        rw [he]
        exact ih hk
      · rename_i s₁ he
        rw [he]
        exact Or.inl hk
    rcases hstep with hk | ⟨hmem, hrest⟩
    · rcases hone k hk with hk | rfl
      · exact Or.inl hk
      · exact Or.inr ⟨List.mem_cons_self, rfl, rfl, rfl⟩
    · exact Or.inr ⟨List.mem_cons_of_mem _ hmem, hrest⟩

/-- What comes after the loop copies nothing to an out-buffer. -/
theorem put_args_copies (f : Fields sh) (buf : Buf) (lrpra : Nat) (s : Put) :
    (put_args f c kernel buf lrpra mem s).1.copies =
    (put_loop (Header.mk f lrpra c.length) c kernel mem
      (List.range' c.inbufs (c.args.length - c.inbufs)) s).1.copies := by
  unfold put_args
  rcases put_loop (Header.mk f lrpra c.length) c kernel mem
    (List.range' c.inbufs (c.args.length - c.inbufs)) s with ⟨s₁, _ | _⟩ <;> rfl

end copies

/-! ## What put_args writes -/

section writes

variable {sh : AdsprpcShared} {f : Fields sh} {c : Call} {lrpra : Nat} {mem : Mem} {l : Layout}

/-- For a call of a user, the loop over bytes writes what the one over values writes. -/
theorem put_loop_writes {is : List Nat} {s : Put} (hnodup : is.Nodup)
    (hl : ∀ i ∈ is, (Header.mk f lrpra c.length).pv mem i = (l.lrpra i).pv ∧
      (Header.mk f lrpra c.length).len mem i = (l.lrpra i).len)
    (hmaps : ∀ i ∈ is, (s.maps i).isSome = (c.arg i).map.isSome) :
    (put_loop (Header.mk f lrpra c.length) c false mem is s).1.writes =
        s.writes ++ (put_bufs c.user mem (is.map (outBuf c l))).1 ∧
      (put_loop (Header.mk f lrpra c.length) c false mem is s).2 =
        (put_bufs c.user mem (is.map (outBuf c l))).2 := by
  induction is generalizing s with
  | nil => simp [put_loop, put_bufs]
  | cons i is ih =>
    obtain ⟨hnew, hnodup⟩ := List.nodup_cons.mp hnodup
    obtain ⟨⟨hpv, hlen⟩, hl⟩ := List.forall_mem_cons.mp hl
    obtain ⟨hm, hmaps⟩ := List.forall_mem_cons.mp hmaps
    rw [List.map_cons]
    unfold put_loop put_buf
    rcases hi : s.maps i with _ | id
    · rw [hi] at hm
      have hout : outBuf c l i =
          some ((c.arg i).pv.toNat, (l.lrpra i).pv.toNat, (l.lrpra i).len.toNat) := by
        simp [outBuf, place, ← hm]
      rw [hout]
      simp only [put_bufs, hpv, hlen, K_COPY_TO_USER, Bool.false_eq_true, if_false]
      rcases copy_to_user c.user mem (c.arg i).pv.toNat (l.lrpra i).pv.toNat (l.lrpra i).len.toNat
        with ⟨w, _ | _⟩
      · simp
      · have hrest := ih (s := { s with
          copies := s.copies ++
            [⟨i, (c.arg i).pv.toNat, (l.lrpra i).pv.toNat, (l.lrpra i).len.toNat⟩]
          writes := s.writes ++ [w] }) hnodup hl hmaps
        simpa using hrest
    · rw [hi] at hm
      have hout : outBuf c l i = none := by simp [outBuf, ← hm]
      rw [hout]
      have hrest := ih (s := { s with
        table := alter map_table.Map.id s.table id map_table.Map.dropCtx
        maps := Function.update s.maps i none }) hnodup hl ?_
      · simpa [put_bufs] using hrest
      · intro k hk
        have hne : k ≠ i := by
          rintro rfl
          exact hnew hk
        dsimp only
        rw [Function.update_of_ne hne]
        exact hmaps k hk

/-- put_args over bytes refines put_args over values. -/
theorem put_args_refines {sent : Sent} (ids : Nat → Nat) (table : List map_table.Map)
    (hbuf : sent.buf = l.buf)
    (hl : ∀ i, i < c.args.length → (Header.mk f lrpra c.length).pv mem i = (l.lrpra i).pv ∧
      (Header.mk f lrpra c.length).len mem i = (l.lrpra i).len) :
    (put_args f c false sent.buf lrpra mem (Put.start c ids table)).1.writes =
      hybrid_marshal.put_args sh c l mem := by
  have hrange : ∀ i ∈ List.range' c.inbufs (c.args.length - c.inbufs),
      (Header.mk f lrpra c.length).pv mem i = (l.lrpra i).pv ∧
        (Header.mk f lrpra c.length).len mem i = (l.lrpra i).len := by
    intro i hi
    obtain ⟨k, hk, rfl⟩ := List.mem_range'.mp hi
    exact hl _ (by omega)
  have hmaps : ∀ i ∈ List.range' c.inbufs (c.args.length - c.inbufs),
      ((Put.start c ids table).maps i).isSome = (c.arg i).map.isSome := by
    intro i _
    unfold Put.start
    rcases hm : (c.arg i).map with _ | m <;> simp [hm]
  obtain ⟨hw, hok⟩ := put_loop_writes List.nodup_range' hrange hmaps
  unfold put_args hybrid_marshal.put_args outBufs
  rcases hb : put_bufs c.user mem
    ((List.range' c.inbufs (c.args.length - c.inbufs)).map (outBuf c l))
    with ⟨ws, ok⟩
  rcases hp : put_loop (Header.mk f lrpra c.length) c false mem
    (List.range' c.inbufs (c.args.length - c.inbufs)) (Put.start c ids table) with ⟨s, ok'⟩
  rw [hb, hp] at hw hok
  cases hok
  simp only [Put.start, List.nil_append] at hw
  cases ok
  · exact hw
  · simp only [K_COPY_TO_USER, Bool.false_eq_true, if_false, hw, hbuf, fdlist_header]
    split
    · rcases c.perf_dsp with _ | u <;> simp
    · rcases c.crc with _ | u <;> rcases c.perf_dsp with _ | u' <;> simp

end writes

/-! ## The DSP and the copies -/

/-- Whatever the DSP writes to the buffers of the call, put_args makes the same copies, each to its
out-buffer and of at most its length. -/
def Unredirected {sh : AdsprpcShared} (f : Fields sh) (c : Call) (kernel : Bool) (lrpra : Nat)
    (sent : Sent) (s : Put) : Prop :=
  ∀ dsp dsp' : Nat → Option Byte, (∀ x, dsp x ≠ none → sent.Handed x) →
    (∀ x, dsp' x ≠ none → sent.Handed x) →
    (put_args f c kernel sent.buf lrpra (overlay sent.mem dsp) s).1.copies =
        (put_args f c kernel sent.buf lrpra (overlay sent.mem dsp') s).1.copies ∧
      ∀ k ∈ (put_args f c kernel sent.buf lrpra (overlay sent.mem dsp) s).1.copies,
        c.inbufs ≤ k.arg ∧ k.arg < c.args.length ∧ k.dst = (c.arg k.arg).pv.toNat ∧
          k.len ≤ (c.arg k.arg).len.toNat

section redirect

variable {sh : AdsprpcShared} {f : Fields sh} {c : Call} {lrpra : Nat} {sent : Sent}
  {dsp : Nat → Option Byte}

/-- The DSP does not write to `lrpra`. -/
theorem lrpra_private (h : sent.Placed lrpra (lrpralen sh c))
    (hdsp : ∀ x, dsp x ≠ none → sent.Handed x)
    {i : Nat} (hi : i < c.args.length) :
    (Header.mk f lrpra c.length).pv (overlay sent.mem dsp) i =
    (Header.mk f lrpra c.length).pv sent.mem i ∧
      (Header.mk f lrpra c.length).len (overlay sent.mem dsp) i =
        (Header.mk f lrpra c.length).len sent.mem i := by
  have hsame : ∀ snd, ((Header.mk f lrpra c.length).field ⟨.rpra, snd, i⟩).get
    (overlay sent.mem dsp) =
      ((Header.mk f lrpra c.length).field ⟨.rpra, snd, i⟩).get sent.mem := by
    intro snd
    obtain ⟨hlo, hhi⟩ := lrpra_bounds f c lrpra hi snd
    apply Cell.get_congr
    intro x h1 h2
    rw [field_width] at h2
    simp only [MetaArray.width] at h2
    have hnone : dsp x = none := by
      by_contra hd
      exact h.lrpra x (by omega) (by omega) (hdsp x hd)
    simp [overlay, hnone]
  unfold Header.pv Header.len
  rw [fst_eq_field, snd_eq_field, hsame, hsame]
  exact ⟨rfl, rfl⟩

/-- All entries of the out-buffers in `lrpra` are private, so the copies are the same for any two
writes of the DSP, whatever get_args has put there. -/
theorem put_args_same (h : sent.Placed lrpra (lrpralen sh c)) {dsp' : Nat → Option Byte}
    (hdsp : ∀ x, dsp x ≠ none → sent.Handed x) (hdsp' : ∀ x, dsp' x ≠ none → sent.Handed x)
    (kernel : Bool) (s : Put) :
    (put_args f c kernel sent.buf lrpra (overlay sent.mem dsp) s).1.copies =
      (put_args f c kernel sent.buf lrpra (overlay sent.mem dsp') s).1.copies := by
  rw [put_args_copies, put_args_copies]
  apply put_loop_same _ rfl rfl
  intro i hi
  obtain ⟨k, hk, rfl⟩ := List.mem_range'.mp hi
  obtain ⟨h1, h2⟩ := lrpra_private (f := f) h hdsp (i := c.inbufs + 1 * k) (by omega)
  obtain ⟨h1', h2'⟩ := lrpra_private (f := f) h hdsp' (i := c.inbufs + 1 * k) (by omega)
  exact ⟨h1.trans h1'.symm, h2.trans h2'.symm⟩

/-- A hybrid invoke for which get_args succeeds: when a dma handle has lost its map, or each
in-buffer that is copied has room for what the buffers before it reach into it, the DSP decides
neither where put_args copies from and to nor how much. The kernel sorts, a scalars word counts the
arguments, and the memory that the kernel hands out is apart. -/
theorem the_dsp_redirects_no_copy {sort : List Overlap → List Overlap} {p : Pool} {old : Mem}
    (hperm : ∀ os, (sort os).Perm os) (hsc : c.length ≤ M_ARGS) (hpool : PoolApart p)
    (hplaced : sent.Placed lrpra (lrpralen sh c))
    (hget : get_args f sort c p lrpra old = .ok sent)
    (hroom : c.Lost ∨ CopiesHaveRoom sh sort c p) (kernel : Bool) (ids : Nat → Nat)
    (table : List map_table.Map) : Unredirected f c kernel lrpra sent (Put.start c ids table) := by
  obtain ⟨l, hl, href⟩ := get_args_refines hperm hsc hpool hplaced
    (fun hlost => hroom.resolve_left hlost) hget
  have hmar := get_args_marshalled hperm hl
  intro dsp dsp' hdsp hdsp'
  refine ⟨put_args_same hplaced hdsp hdsp' kernel _, fun k hk => ?_⟩
  rw [put_args_copies] at hk
  rcases mem_put_loop hk with hk | ⟨hmem, hdst, _, hlen⟩
  · simp [Put.start] at hk
  obtain ⟨j, hj, harg⟩ := List.mem_range'.mp hmem
  have hi : k.arg < c.args.length := by omega
  refine ⟨by omega, hi, hdst, ?_⟩
  rw [hlen, (lrpra_private hplaced hdsp hi).2, (href.lrpra k.arg hi).2]
  by_cases hlost : c.Lost
  · simp [hmar.lost hlost k.arg]
  · rw [hmar.len hlost k.arg hi]

end redirect

/-- The fields of the records of adsprpc_shared.h, for the sizes of `sampleShared`. -/
def sampleFields : Fields sampleShared where
  fst := fun _ => 0
  snd := MetaArray.width
  dma_fd := 0
  dma_offset := 4
  dma_len := 8
  fst_fits := by
    intro a
    cases a <;> decide
  snd_fits := by
    intro a
    cases a <;> decide
  apart := by
    intro a
    cases a <;> decide
  dma_fits := by decide

/-- The one header of the session can be handed out once. -/
theorem hdrPool_apart : PoolApart hdrPool := by
  intro m k b p' b' p'' h1 h2
  have hp : p' = ⟨[(8192, true)], [], []⟩ := by
    simp only [hfastrpc_buf_alloc, hfastrpc_get_persistent_buf, hfastrpc_get_cached_buf,
      vfastrpc_alloc_buffer, hdrPool, take_hdr, smallest, best_fit.search_nil] at h1
    split at h1
    · cases h1
    · split at h1
      · rename_i r hr
        cases h1
        split at hr
        · cases hr
        · cases hr
          rfl
      · simp at h1
  rw [hp] at h2
  simp [hfastrpc_buf_alloc, hfastrpc_get_persistent_buf, hfastrpc_get_cached_buf,
    vfastrpc_alloc_buffer, smallest] at h2

theorem placed_in_hdrPool {sent : Sent} (hb : sent.buf = ⟨8192, 4096⟩)
    (hc : sent.copybuf = some sent.buf) {n : Nat} (hn : n ≤ 4096) : sent.Placed 4096 n := by
  constructor
  · intro b hbb
    have he : b = ⟨8192, 4096⟩ := by
      rcases hbb with h | h
      · rw [h, hb]
      · rw [hc, hb] at h
        cases h
        rfl
    subst he
    decide
  · intro x hlo hhi
    simp only [Sent.Handed, hc, hb, Buf.Has, not_or, not_exists]
    refine ⟨by omega, ?_⟩
    rintro b ⟨he, hx⟩
    cases he
    simp only at hx
    omega

/-- An in-buffer, in it one with a map, in this one an in-buffer without one, and an out-buffer. -/
def nestedCall : Call :=
  { inbufs := 3,
    args := [⟨65536, 100, none⟩, ⟨65552, 40, some ⟨true, 0x90000000, 4096, none⟩⟩, ⟨65560, 8, none⟩,
      ⟨131072, 2, none⟩],
    handles := [], fds := true, kzalloc := true, da := fun _ => 0x80000000,
    user := ⟨fun _ => some 0, fun _ => 8192⟩, crc := none, perf_dsp := none }

/-- The outer in-buffer makes the room for what it reaches into the inner one. -/
theorem nested_buffers_are_not_redirected :
    ∃ sent, get_args sampleFields sortOverlaps nestedCall hdrPool 4096 (fun _ => 0) = .ok sent ∧
      Unredirected sampleFields nestedCall false 4096 sent (Put.start nestedCall id []) := by
  have hget : get_args sampleFields sortOverlaps nestedCall hdrPool 4096 (fun _ => 0) = .ok _ := rfl
  have hprep : prepare sampleShared sortOverlaps nestedCall hdrPool = some (_, _) :=
    prepare_eq_some.mpr ⟨_, ⟨8192, 4096⟩, ⟨[(8192, true)], [], []⟩, 130, rfl, rfl,
      by decide +kernel, by decide +kernel, copy_area_behind (by decide +kernel)⟩
  refine ⟨_, hget, ?_⟩
  refine the_dsp_redirects_no_copy (fun os => List.perm_insertionSort _ os)
    (by decide) hdrPool_apart
    (placed_in_hdrPool rfl rfl (by decide)) hget (Or.inr ?_) false id []
  intro os area h pre o post hos hin hcop
  cases hprep.symm.trans h
  rcases pre with _ | ⟨a, _ | ⟨b, _ | ⟨d, _ | ⟨e, pre⟩⟩⟩⟩
  · cases hos
    decide +kernel
  · cases hos
    decide +kernel
  · cases hos
    decide +kernel
  · cases hos
    exact absurd hin (by decide)
  · have hlen : 4 = _ := congrArg List.length hos
    simp only [List.cons_append, List.length_cons, List.length_append] at hlen
    omega

/-- An in-buffer with a map, an in-buffer without one that begins in it, and an out-buffer of two
bytes. -/
def insideCall : Call :=
  { inbufs := 2,
    args := [⟨65536, 1000, some ⟨true, 0x90000000, 4096, none⟩⟩, ⟨65972, 8, none⟩,
      ⟨131072, 2, none⟩],
    handles := [], fds := true, kzalloc := true, da := fun _ => 0x80000000,
    user := ⟨fun x => some (if x = 65973 then 0x10 else 0), fun _ => 8192⟩, crc := none,
    perf_dsp := none }

/-- The in-buffer is placed 564 bytes before `args`, over `rpra[2].buf.len`: put_args copies 4096
bytes to the out-buffer of two bytes. -/
theorem a_copied_length_reaches_put_args :
    ∃ sent, get_args sampleFields sortOverlaps insideCall hdrPool 4096 (fun _ => 0) = .ok sent ∧
      sent.Placed 4096 (lrpralen sampleShared insideCall) ∧
      (put_args sampleFields insideCall false sent.buf 4096 (overlay sent.mem (fun _ => none))
        (Put.start insideCall id [])).1.copies = [⟨2, 131072, 8832, 4096⟩] ∧
      ¬ Unredirected sampleFields insideCall false 4096 sent (Put.start insideCall id []) := by
  have hget : get_args sampleFields sortOverlaps insideCall hdrPool 4096 (fun _ => 0) = .ok _ := rfl
  refine ⟨_, hget, placed_in_hdrPool rfl rfl (by decide), by decide +kernel, ?_⟩
  intro h
  have hlen := (h (fun _ => none) (fun _ => none) (by simp) (by simp)).2 ⟨2, 131072, 8832, 4096⟩
    (by decide +kernel)
  exact absurd hlen.2.2.2 (by decide)

end virtual_fastrpc.hybrid_bytes
