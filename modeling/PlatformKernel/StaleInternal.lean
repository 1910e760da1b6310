-- Which bytes of an out-buffer show the user what the internal buffers of a virtio
-- invoke held before, told from the request, the pool and the answer: the buffers
-- of the pool go in turn to the large buffers of the request, and the in-buffers
-- are copied there or behind each other into the message.
import PlatformKernel.VirtioMarshal
import Mathlib.Data.List.GetD

namespace virtual_fastrpc.stale_internal

open bytes buffers virtio_marshal

/-! ## The internal buffers of a request -/

/-- The message is too large without internal buffers. -/
def TooLarge (c : Call) : Prop := c.buf_size < size c (c.args.map (fun _ => none))

instance (c : Call) : Decidable (TooLarge c) := inferInstanceAs (Decidable (_ < _))

/-- A buffer that gets an internal buffer in a message that is too large. -/
def wantsInternal (a : Arg) : Bool := a.mapping.isNone && decide (PAGE_SIZE ≤ a.len.toNat)

/-- The buffers that the pool gives for the lengths, one after the other. -/
def handOut : Pool → List (BitVec 64) → Option (List Buf)
  | _, [] => some []
  | p, len :: lens =>
    match vfastrpc_buf_alloc p (PAGE_ALIGN len.toNat % 2 ^ 64) .INTERNAL with
    | none => none
    | some (b, p) => (handOut p lens).map (b :: ·)

/-- The internal buffer of the buffer `i`: of the buffers that the pool gives, the one that comes
after those of the large buffers before it. -/
def internalOf (c : Call) (p : Pool) (i : Nat) : Option Buf :=
  if TooLarge c ∧ wantsInternal (c.arg i) then
    ((handOut p ((c.args.filter wantsInternal).map Arg.len)).getD [])[
      (c.args.take i).countP wantsInternal]?
  else none

/-- The address is in the pages of an internal buffer. -/
def InInternal (c : Call) (p : Pool) (x : Nat) : Prop := ∃ i b, internalOf c p i = some b ∧ b.Has x

/-! ## Where the buffers are in the message and in the answer -/

/-- The length of the buffer `k` in the message. -/
def slotLen (c : Call) (p : Pool) (k : Nat) : Nat := payload_len c (c.arg k) (internalOf c p k)

/-- An address that moves by one length after the other. -/
def advance (f : Nat → Nat) (start : Nat) : Nat → Nat
  | 0 => start
  | n + 1 => (advance f start n + f n) % 2 ^ 64

/-- Where get_args copies the in-buffer `k`: to its internal buffer, or to the message, behind the
buffers before it. -/
def copyPlace (c : Call) (p : Pool) (k : Nat) : Nat :=
  ((internalOf c p k).map Buf.va).getD (advance (slotLen c p) (c.txbuf.getD 0 + metalen c) k)

/-- The byte at `x` is in the place of an in-buffer that is copied. -/
def InCopied (c : Call) (p : Pool) (x : Nat) : Prop :=
  ∃ k, k < c.inbufs ∧ (c.arg k).mapping = none ∧ (c.arg k).len ≠ 0 ∧ copyPlace c p k ≤ x ∧
    x < copyPlace c p k + (c.arg k).len.toNat

/-- Where the answer has the out-buffer `i`. -/
def answerPlace (c : Call) (p : Pool) (rsp : Rsp) (i : Nat) : Nat :=
  advance (fun n => (rsp.payload_len (c.inbufs + n)).toNat)
    ((rsp.rxbuf + metalen c + ((List.range c.inbufs).map (slotLen c p)).sum % 2 ^ 32) % 2 ^ 64)
    (i - c.inbufs)

/-- How much of the out-buffer `i` the user is to get: the length that the user gave when it has an
internal buffer, and else the one that the answer gives. -/
def outLen (c : Call) (p : Pool) (rsp : Rsp) (i : Nat) : Nat :=
  if (internalOf c p i).isSome then (c.arg i).len.toNat else (rsp.buf_len i).toNat

/-- The user takes the byte `j` of the out-buffer `i`, which has no map, and all of the out-buffers
without a map before it. -/
structure Taken (c : Call) (p : Pool) (rsp : Rsp) (i j : Nat) : Prop where
  out : c.inbufs ≤ i ∧ i < c.args.length
  unmapped : (c.arg i).mapping = none
  len : j < outLen c p rsp i
  taken : j < c.user.takes (c.arg i).pv.toNat
  before : ∀ k, c.inbufs ≤ k → k < i → (c.arg k).mapping = none →
    outLen c p rsp k ≤ c.user.takes (c.arg k).pv.toNat

/-- The byte at `x` is one that the user gets from the answer: of an out-buffer without an internal
buffer, or, when the user takes all out-buffers, of the crcs and of the counters of the DSP. -/
def FromAnswer (c : Call) (p : Pool) (rsp : Rsp) (x : Nat) : Prop :=
  (∃ i j, Taken c p rsp i j ∧ internalOf c p i = none ∧ x = answerPlace c p rsp i + j) ∨
    ((∀ k, c.inbufs ≤ k → k < c.args.length → (c.arg k).mapping = none →
      outLen c p rsp k ≤ c.user.takes (c.arg k).pv.toNat) ∧
      ∃ r ∈ headerReads c rsp, ∃ j, j < r.2.2 ∧ x = r.2.1 + j)

/-- Each byte that the user takes of an internal buffer is in the place of an in-buffer, or was
written by the backend or the DSP; and so is each byte of an internal buffer that wrong lengths in
the answer lead to. -/
def Accounted (c : Call) (p : Pool) (rsp : Rsp) (backend : Nat → Option Byte) : Prop :=
  (∀ i b j, internalOf c p i = some b → Taken c p rsp i j →
    InCopied c p (b.va + j) ∨ backend (b.va + j) ≠ none) ∧
  ∀ x, FromAnswer c p rsp x → InInternal c p x → InCopied c p x ∨ backend x ≠ none

/-! ## What get_args has left -/

section left

variable {c : Call} {p : Pool} {l : Layout} {rsp : Rsp}

theorem alloc_desc_handOut {as : List Arg} {desc : Desc} (h : alloc_desc p as = some desc) :
    desc.length = as.length ∧
      ∃ bufs, handOut p ((as.filter wantsInternal).map Arg.len) = some bufs ∧
        ∀ i, desc.getD i none = if wantsInternal (as.getD i ⟨0, 0, none, true⟩) then
          bufs[(as.take i).countP wantsInternal]? else none := by
  induction as generalizing p desc with
  | nil =>
    cases h
    exact ⟨rfl, [], rfl, by simp⟩
  | cons a as ih =>
    unfold alloc_desc at h
    by_cases hw : wantsInternal a = true
    · have hcond : (a.mapping.isSome || decide (a.len.toNat < PAGE_SIZE)) = false := by
        simp only [wantsInternal, Bool.and_eq_true, decide_eq_true_eq] at hw
        simp [Option.isNone_iff_eq_none.mp hw.1, hw.2]
      rw [if_neg (by simp [hcond])] at h
      rw [List.filter_cons_of_pos hw, List.map_cons]
      unfold handOut
      rcases halloc : vfastrpc_buf_alloc p (PAGE_ALIGN a.len.toNat % 2 ^ 64) .INTERNAL
        with _ | ⟨b, p'⟩
      · rw [halloc] at h
        cases h
      rw [halloc] at h
      obtain ⟨rest, hrest, rfl⟩ := Option.map_eq_some_iff.mp h
      obtain ⟨hlen, bufs, hbufs, hget⟩ := ih hrest
      refine ⟨by simp [hlen], b :: bufs, by simp [hbufs], fun i => ?_⟩
      cases i with
      | zero => simp [hw]
      | succ i =>
        rw [List.getD_cons_succ, List.getD_cons_succ, hget, List.take_succ_cons,
          List.countP_cons_of_pos hw, List.getElem?_cons_succ]
    · have hcond : (a.mapping.isSome || decide (a.len.toNat < PAGE_SIZE)) = true := by
        simp only [wantsInternal, Bool.and_eq_true, decide_eq_true_eq, not_and, Nat.not_le] at hw
        rcases hm : a.mapping with _ | m
        · simp [hw (by simp [hm])]
        · simp
      rw [if_pos hcond] at h
      obtain ⟨rest, hrest, rfl⟩ := Option.map_eq_some_iff.mp h
      obtain ⟨hlen, bufs, hbufs, hget⟩ := ih hrest
      rw [List.filter_cons_of_neg hw]
      refine ⟨by simp [hlen], bufs, hbufs, fun i => ?_⟩
      cases i with
      | zero => simp [hw]
      | succ i =>
        rw [List.getD_cons_succ, List.getD_cons_succ, hget, List.take_succ_cons,
          List.countP_cons_of_neg hw]

/-- The buffers of a get_args that succeeds, and its copy loop. -/
theorem get_args_left (h : get_args c p = .ok l) : l.desc.length = c.args.length ∧
    (∀ i, l.internal i = internalOf c p i) ∧
    ∃ txbuf, c.txbuf = some txbuf ∧
      copy_loop c 0 (c.args.zip l.desc) (txbuf + metalen c) [] = .ok l.copies := by
  unfold get_args at h
  split at h
  · cases h
  rename_i desc hd
  split at h
  · cases h
  split at h
  · cases h
  rename_i txbuf htx
  split at h
  · cases h
  rename_i copies hcopy
  cases h
  unfold get_desc at hd
  dsimp only at hd
  have hdesc : desc.length = c.args.length ∧ ∀ i, desc.getD i none = internalOf c p i := by
    split at hd
    · rename_i hfit
      cases hd
      refine ⟨by simp, fun i => ?_⟩
      unfold internalOf
      rw [if_neg (fun hx => Nat.not_le.mpr hx.1 hfit), List.getD_eq_getElem?_getD,
        List.getElem?_map]
      rcases c.args[i]? with _ | a <;> rfl
    rename_i hbig
    split at hd
    · cases hd
    split at hd
    · cases hd
    · rename_i desc' halloc
      cases hd
      obtain ⟨hlen, bufs, hbufs, hget⟩ := alloc_desc_handOut halloc
      refine ⟨hlen, fun i => ?_⟩
      have hlarge : TooLarge c := Nat.lt_of_not_le hbig
      rw [hget]
      unfold internalOf Call.arg
      simp [hbufs, hlarge]
  exact ⟨hdesc.1, hdesc.2, txbuf, htx, hcopy⟩

/-- The copies of the loop from the buffer `i` on. -/
theorem copy_loop_covered (hlen : l.desc.length = c.args.length)
    (hint : ∀ i, l.internal i = internalOf c p i) {txbuf : Nat}
    (htx : c.txbuf = some txbuf) {i : Nat}
    {bufs : List (Arg × Option Buf)} {copies final : List (Nat × List Byte)}
    (hbufs : bufs = (c.args.zip l.desc).drop i)
    (h : copy_loop c i bufs (advance (slotLen c p) (txbuf + metalen c) i) copies = .ok final)
    (x : Nat) :
    Covered final x ↔ Covered copies x ∨ ∃ k, i ≤ k ∧ k < c.inbufs ∧ (c.arg k).mapping = none ∧
      (c.arg k).len ≠ 0 ∧ copyPlace c p k ≤ x ∧ x < copyPlace c p k + (c.arg k).len.toNat := by
  induction bufs generalizing i copies with
  | nil =>
    cases h
    have hend : c.args.length ≤ i := by
      have hlt := congrArg List.length hbufs
      simp only [List.length_nil, List.length_drop, List.length_zip, hlen] at hlt
      omega
    refine ⟨Or.inl, fun hcov => hcov.resolve_right ?_⟩
    rintro ⟨k, hik, _, _, hne, _⟩
    refine hne ?_
    unfold Call.arg
    rw [List.getD_eq_default _ _ (by omega)]
  | cons buf bufs ih =>
    obtain ⟨a, d⟩ := buf
    have hi : i < (c.args.zip l.desc).length := by
      by_contra hge
      rw [List.drop_of_length_le (Nat.le_of_not_lt hge)] at hbufs
      cases hbufs
    rw [List.drop_eq_getElem_cons hi] at hbufs
    obtain ⟨hget, hrest⟩ := List.cons.inj hbufs
    rw [List.getElem_zip] at hget
    rw [List.length_zip, hlen, Nat.min_self] at hi
    have ha : a = c.arg i := by
      rw [(Prod.mk.inj hget).1]
      unfold Call.arg
      rw [List.getD_eq_getElem _ _ hi]
    have hd : d = internalOf c p i := by
      rw [(Prod.mk.inj hget).2, ← hint]
      unfold Layout.internal
      rw [List.getD_eq_getElem _ _ (hlen ▸ hi)]
    subst ha hd
    have hstep : ∀ Q : Nat → Prop, (∃ k, i ≤ k ∧ Q k) ↔ Q i ∨ ∃ k, i + 1 ≤ k ∧ Q k := by
      intro Q
      constructor
      · rintro ⟨k, hk, hq⟩
        rcases Nat.eq_or_lt_of_le hk with rfl | hlt
        · exact Or.inl hq
        · exact Or.inr ⟨k, hlt, hq⟩
      · rintro (hq | ⟨k, hk, hq⟩)
        · exact ⟨i, Nat.le_refl i, hq⟩
        · exact ⟨k, Nat.le_of_succ_le hk, hq⟩
    rw [hstep]
    simp only [copy_loop] at h
    split at h
    · cases h
    split at h
    · -- the buffer is copied
      rename_i hcopied
      simp only [Bool.and_eq_true, decide_eq_true_eq, Option.isNone_iff_eq_none] at hcopied
      obtain ⟨⟨hnone, hin⟩, hne⟩ := hcopied
      split at h
      · cases h
      rename_i bs hbs
      have hplace : ((internalOf c p i).map Buf.va).getD
          (advance (slotLen c p) (txbuf + metalen c) i) = copyPlace c p i := by
        unfold copyPlace
        rw [htx, Option.getD_some]
      have hone : Covered [(copyPlace c p i, bs)] x ↔
          copyPlace c p i ≤ x ∧ x < copyPlace c p i + (c.arg i).len.toNat := by
        simp [Covered, copy_from_user_length hbs]
      rw [hplace] at h
      rw [ih hrest h, covered_append, or_assoc, hone]
      simp only [hin, hnone, hne, true_and, ne_eq, not_false_eq_true]
    · rename_i hskip
      rw [ih hrest h]
      have hnot : ¬ (i < c.inbufs ∧ (c.arg i).mapping = none ∧ (c.arg i).len ≠ 0 ∧
          copyPlace c p i ≤ x ∧ x < copyPlace c p i + (c.arg i).len.toNat) := by
        rintro ⟨hin, hnone, hne, _⟩
        exact hskip (by simpa [hin, hnone] using hne)
      simp only [hnot, false_or]

theorem covered_iff (h : get_args c p = .ok l) (x : Nat) :
    Covered l.copies x ↔ InCopied c p x := by
  obtain ⟨hlen, hint, txbuf, htx, hcopy⟩ := get_args_left h
  have hcov := copy_loop_covered (i := 0) hlen hint htx rfl hcopy x
  simpa [Covered, InCopied] using hcov

theorem handed_iff (h : get_args c p = .ok l) (x : Nat) : l.Handed x ↔ InInternal c p x := by
  obtain ⟨hlen, hint, _⟩ := get_args_left h
  unfold Layout.Handed InInternal
  constructor
  · rintro ⟨b, hb, hx⟩
    obtain ⟨i, hi, he⟩ := List.getElem_of_mem hb
    refine ⟨i, b, ?_, hx⟩
    rw [← hint i]
    unfold Layout.internal
    rw [List.getD_eq_getElem _ _ hi, he]
  · rintro ⟨i, b, hb, hx⟩
    rw [← hint i] at hb
    exact ⟨b, (internal_len h hb).1, hx⟩

/-- The in-buffers take the room in the message that their lengths say. -/
theorem payloads_eq (hlen : l.desc.length = c.args.length)
    (hint : ∀ i, l.internal i = internalOf c p i) (n : Nat) :
    payloads c ((c.args.zip l.desc).take n) = ((List.range n).map (slotLen c p)).sum := by
  induction n with
  | zero => rfl
  | succ n ih =>
    have hslot : slotLen c p n = payload_len c (c.arg n) (l.internal n) := by
      rw [hint]
      rfl
    rw [List.range_succ, List.map_append, List.sum_append, ← ih, List.take_add_one]
    unfold payloads
    rw [List.map_append, List.sum_append, List.map_singleton, List.sum_singleton, hslot]
    congr 1
    rcases Nat.lt_or_ge n c.args.length with hn | hn
    · have hz : n < (c.args.zip l.desc).length := by
        rw [List.length_zip, hlen, Nat.min_self]
        exact hn
      rw [List.getElem?_eq_getElem hz, List.getElem_zip]
      unfold Call.arg Layout.internal
      rw [List.getD_eq_getElem _ _ hn, List.getD_eq_getElem _ _ (hlen ▸ hn)]
      simp
    · have hz : (c.args.zip l.desc).length ≤ n := by
        rw [List.length_zip, hlen, Nat.min_self]
        exact hn
      rw [List.getElem?_eq_none hz]
      unfold Call.arg Layout.internal
      rw [List.getD_eq_default _ _ hn, List.getD_eq_default _ _ (hlen ▸ hn)]
      rfl

theorem payload_at_eq (hlen : l.desc.length = c.args.length)
    (hint : ∀ i, l.internal i = internalOf c p i) (i : Nat) :
    payload_at c l rsp (i - c.inbufs) = answerPlace c p rsp i := by
  unfold answerPlace
  induction i - c.inbufs with
  | zero =>
    unfold payload_at outbufs_offset advance
    rw [payloads_eq hlen hint]
  | succ n ih =>
    unfold payload_at advance
    rw [ih]

theorem source_len_eq (hint : ∀ i, l.internal i = internalOf c p i) (i : Nat) :
    source_len c l rsp i = outLen c p rsp i := by
  unfold source_len outLen
  rw [hint]
  rcases internalOf c p i with _ | b
  · simp
  · simp

theorem delivered_iff (hint : ∀ i, l.internal i = internalOf c p i) {i j : Nat} :
    Delivered c l rsp i j ↔ Taken c p rsp i j := by
  constructor
  · rintro ⟨hout, hun, hl, ht, hb⟩
    refine ⟨hout, hun, source_len_eq hint i ▸ hl, ht, fun k hk hki hkn => ?_⟩
    rw [← source_len_eq hint]
    exact hb k hk hki hkn
  · rintro ⟨hout, hun, hl, ht, hb⟩
    refine ⟨hout, hun, (source_len_eq hint i).symm ▸ hl, ht, fun k hk hki hkn => ?_⟩
    rw [source_len_eq hint]
    exact hb k hk hki hkn

theorem rspRead_iff (h : get_args c p = .ok l) (x : Nat) :
    RspRead c l rsp x ↔ FromAnswer c p rsp x := by
  obtain ⟨hlen, hint, _⟩ := get_args_left h
  unfold RspRead FromAnswer
  refine or_congr ?_ (and_congr_left' ?_)
  · refine exists_congr fun i => exists_congr fun j => ?_
    rw [delivered_iff hint, hint]
    refine and_congr_right fun _ => and_congr_right fun hnone => ?_
    unfold source
    rw [hint, hnone, payload_at_eq hlen hint]
  · rw [bufReads_end_iff]
    unfold outBufs
    simp only [List.mem_map, List.mem_range'_1]
    constructor
    · intro hall k hk hkl hun
      rw [← source_len_eq hint]
      exact hall _ _ _ ⟨k, ⟨hk, by omega⟩, outBuf_eq_some.mpr ⟨hun, rfl, rfl, rfl⟩⟩
    · rintro hall dst src len ⟨k, ⟨hk, hkl⟩, hbuf⟩
      obtain ⟨hun, rfl, _, rfl⟩ := outBuf_eq_some.mp hbuf
      rw [source_len_eq hint]
      exact hall k hk (by omega) hun

end left

/-! ## The law of a request -/

/-- Two runs of an invoke that differ only in what its internal buffers held before give the user
the same bytes, exactly when there is no answer without an error, or each byte that the user takes
of an internal buffer is copied or written where the request has it. -/
theorem internal_buffers_are_not_stale_iff {c : Call} {p : Pool} {l : Layout}
    (hget : get_args c p = .ok l) (rsp : Option Rsp) (backend : Nat → Option Byte) :
    (∀ old old' : Mem, (∀ x, ¬ l.Handed x → old x = old' x) →
      put_args c l rsp (l.memory backend old) = put_args c l rsp (l.memory backend old')) ↔
    ∀ q, rsp = some q → q.result = 0 → Accounted c p q backend := by
  rw [same_bytes_iff_settled hget rsp backend]
  obtain ⟨_, hint, _⟩ := get_args_left hget
  refine forall_congr' fun q => imp_congr_right fun _ => imp_congr_right fun _ => ?_
  unfold Accounted
  simp only [hint, delivered_iff hint, covered_iff hget, rspRead_iff hget, handed_iff hget]

/-- A message of 4096 bytes, and one out-buffer of a page. -/
def outCall : Call :=
  { buf_size := 4096, inbufs := 0, args := [⟨65536, 4096, none, true⟩], handles := 0,
    handlelen := 0, kcalloc := true, txbuf := some 16384, nents := fun _ => 1,
    user := ⟨fun _ => none, fun _ => 4096⟩, crc := none, perf_dsp := none }

/-- A session whose cache has a buffer of a page. -/
def cachePool : Pool := ⟨[], [⟨8192, 4096⟩], []⟩

/-- A response without an error, which has nothing for the out-buffer itself. -/
def okRsp : Rsp := ⟨0, 32768, fun _ => 4096, fun _ => 48⟩

theorem get_args_outCall :
    get_args outCall cachePool = .ok ⟨[some ⟨8192, 4096⟩], []⟩ := by
  decide +kernel

/-- The DSP writes the whole internal buffer. -/
theorem a_written_internal_buffer_is_not_stale :
    ∃ l, get_args outCall cachePool = .ok l ∧ l.internal 0 = some ⟨8192, 4096⟩ ∧
      ∀ old old' : Mem, (∀ x, ¬ l.Handed x → old x = old' x) →
        put_args outCall l (some okRsp) (l.memory (fun _ => some 7) old) =
          put_args outCall l (some okRsp) (l.memory (fun _ => some 7) old') := by
  refine ⟨_, get_args_outCall, rfl, ?_⟩
  refine (internal_buffers_are_not_stale_iff get_args_outCall (some okRsp)
    (fun _ => some 7)).mpr ?_
  intro q _ _
  refine ⟨?_, ?_⟩
  · intro i b j _ _
    exact Or.inr (by simp)
  · intro x _ _
    exact Or.inr (by simp)

/-- The DSP writes nothing: the user gets a page of the buffer from the cache as an earlier call
has left it. -/
theorem an_unwritten_internal_buffer_is_stale :
    ∃ l, get_args outCall cachePool = .ok l ∧ l.internal 0 = some ⟨8192, 4096⟩ ∧
      (∀ x, (⟨8192, 4096⟩ : Buf).Has x → l.Handed x) ∧
      put_args outCall l (some okRsp) (l.memory (fun _ => none) (fun _ => 0)) ≠
        put_args outCall l (some okRsp) (l.memory (fun _ => none)
          (fun x => if 8192 ≤ x ∧ x < 8192 + 4096 then 0xaa else 0)) := by
  refine ⟨_, get_args_outCall, rfl, ?_, ?_⟩
  · intro x hx
    exact ⟨_, List.mem_singleton.mpr rfl, hx⟩
  · decide +kernel

end virtual_fastrpc.stale_internal
