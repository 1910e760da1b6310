-- How the virtio driver passes the buffers of an invoke to the backend and back:
-- in the message itself, or, when the message would be too large, the large ones
-- in internal buffers. put_args copies the out-buffers from the response and from
-- the internal buffers.
import PlatformKernel.Buffers
import PlatformKernel.MapTable

namespace virtual_fastrpc.virtio_marshal

open bytes buffers map_table

/-! ## The call -/

/-- The sizes of the packed structures of the messages. -/
def sizeof_virt_invoke_msg : Nat := 46
def sizeof_virt_fastrpc_buf : Nat := 40
def sizeof_virt_fastrpc_mapping : Nat := 32
def sizeof_virt_fastrpc_sgl : Nat := 16

def SIZE_OF_MAPPING (nents : Nat) : Nat :=
  sizeof_virt_fastrpc_mapping + nents * sizeof_virt_fastrpc_sgl

/-- One buffer of an invoke. When it has a map, `mapping` is what get_size_of_mapping says of it,
and `range_ok` whether the checks of get_args find its range in the vma and in the map. -/
structure Arg where
  pv : BitVec 64
  len : BitVec 64
  mapping : Option Nat
  range_ok : Bool
  deriving DecidableEq, Repr

/-- An invoke, after its maps are taken, with all that the user and the kernel decide. -/
structure Call where
  buf_size : Nat
  inbufs : Nat
  args : List Arg
  handles : Nat
  handlelen : Nat
  /-- The kernel has the memory for `ctx->desc`. -/
  kcalloc : Bool
  /-- The tx buffer that virt_alloc_msg finds for a message that is not too large. -/
  txbuf : Option Nat
  /-- The pieces of the scatter list of a buffer. -/
  nents : Buf → Nat
  user : UserMem
  crc : Option Nat
  perf_dsp : Option Nat

def Call.arg (c : Call) (i : Nat) : Arg := c.args.getD i ⟨0, 0, none, true⟩

/-- The header, the array of buffers, the fds, the crcs, the early hint and the counters of the
DSP. -/
def metalen (c : Call) : Nat :=
  sizeof_virt_invoke_msg + (c.args.length + c.handles) * sizeof_virt_fastrpc_buf + 8 * M_FDLIST +
    4 * M_CRCLIST + 4 + 8 * M_DSP_PERF_LIST

/-! ## get_args -/

inductive Exit
  | desc | internal_buf | alloc_msg | range | copy_from_user
  deriving DecidableEq, Repr

/-- `ctx->desc`, as far as it is needed: the internal buffer of each buffer that has one. -/
abbrev Desc := List (Option Buf)

/-- The length of a buffer in the message. -/
def payload_len (c : Call) (a : Arg) (d : Option Buf) : Nat :=
  match a.mapping, d with
  | some m, _ => m
  | none, some b => SIZE_OF_MAPPING (c.nents b)
  | none, none => a.len.toNat

/-- The length of some buffers in the message. -/
def payloads (c : Call) (bufs : List (Arg × Option Buf)) : Nat :=
  (bufs.map (fun b => payload_len c b.1 b.2)).sum

def size (c : Call) (desc : Desc) : Nat :=
  (metalen c + payloads c (c.args.zip desc) + c.handlelen) % 2 ^ 64

/-- `ctx->outbufs_offset`, an unsigned int. -/
def outbufs_offset (c : Call) (desc : Desc) : Nat :=
  payloads c ((c.args.zip desc).take c.inbufs) % 2 ^ 32

/-- The loop that takes the internal buffers: for each buffer of a page or more without a map. -/
def alloc_desc : Pool → List Arg → Option Desc
  | _, [] => some []
  | p, a :: as =>
    if a.mapping.isSome || decide (a.len.toNat < PAGE_SIZE) then
      (alloc_desc p as).map (none :: ·)
    else
      match vfastrpc_buf_alloc p (PAGE_ALIGN a.len.toNat % 2 ^ 64) .INTERNAL with
      | none => none
      | some (b, p) => (alloc_desc p as).map (some b :: ·)

/-- The loop that fills the message, from the buffer `i` on, with the copies so far. An in-buffer
is copied to its internal buffer or to the message. -/
def copy_loop (c : Call) : Nat → List (Arg × Option Buf) → Nat → List (Nat × List Byte) →
    Except Exit (List (Nat × List Byte))
  | _, [], _, copies => .ok copies
  | i, (a, d) :: bufs, payload, copies =>
    if a.mapping.isSome && !a.range_ok then .error .range
    else if a.mapping.isNone && decide (i < c.inbufs) && decide (a.len ≠ 0) then
      match copy_from_user c.user a.pv.toNat a.len.toNat with
      | none => .error .copy_from_user
      | some bs =>
        copy_loop c (i + 1) bufs ((payload + payload_len c a d) % 2 ^ 64)
          (copies ++ [((d.map Buf.va).getD payload, bs)])
    else copy_loop c (i + 1) bufs ((payload + payload_len c a d) % 2 ^ 64) copies

/-- What get_args leaves: the internal buffers, and its copies of in-buffers in their order. -/
structure Layout where
  desc : Desc
  copies : List (Nat × List Byte)
  deriving DecidableEq, Repr

/-- The choice of the internal buffers: none when the message is not too large. -/
def get_desc (c : Call) (p : Pool) : Except Exit Desc :=
  let plain := c.args.map (fun _ => none)
  if size c plain ≤ c.buf_size then .ok plain
  else if !c.kcalloc then .error .desc
  else
    match alloc_desc p c.args with
    | none => .error .internal_buf
    | some desc => .ok desc

/-- get_args after its maps are taken. The argument of virt_alloc_msg is an int, which it compares
as an unsigned int. -/
def get_args (c : Call) (p : Pool) : Except Exit Layout :=
  match get_desc c p with
  | .error e => .error e
  | .ok desc =>
    if c.buf_size < size c desc % 2 ^ 32 then .error .alloc_msg
    else
      match c.txbuf with
      | none => .error .alloc_msg
      | some txbuf =>
        match copy_loop c 0 (c.args.zip desc) (txbuf + metalen c) [] with
        | .error e => .error e
        | .ok copies => .ok ⟨desc, copies⟩

/-! ## put_args -/

/-- The response, as put_args reads it: its result, its place, and the lengths in its array of
buffers. -/
structure Rsp where
  result : BitVec 32
  rxbuf : Nat
  buf_len : Nat → BitVec 64
  payload_len : Nat → BitVec 64

def Layout.internal (l : Layout) (i : Nat) : Option Buf := l.desc.getD i none

/-- `payload` at the turn `n` of the loop of put_args over the out-buffers. -/
def payload_at (c : Call) (l : Layout) (rsp : Rsp) : Nat → Nat
  | 0 => (rsp.rxbuf + metalen c + outbufs_offset c l.desc) % 2 ^ 64
  | n + 1 => (payload_at c l rsp n + (rsp.payload_len (c.inbufs + n)).toNat) % 2 ^ 64

/-- Where put_args finds the out-buffer `i`: in its internal buffer, or in the response. -/
def source (c : Call) (l : Layout) (rsp : Rsp) (i : Nat) : Nat :=
  match l.internal i with
  | some b => b.va
  | none => payload_at c l rsp (i - c.inbufs)

/-- How much of the out-buffer `i` put_args copies. -/
def source_len (c : Call) (l : Layout) (rsp : Rsp) (i : Nat) : Nat :=
  match l.internal i with
  | some _ => (c.arg i).len.toNat
  | none => (rsp.buf_len i).toNat

/-- What put_args copies of the buffer `i`, which is nothing when it has a map. -/
def outBuf (c : Call) (l : Layout) (rsp : Rsp) (i : Nat) : Option (Nat × Nat × Nat) :=
  if (c.arg i).mapping.isSome then none
  else some ((c.arg i).pv.toNat, source c l rsp i, source_len c l rsp i)

def outBufs (c : Call) (l : Layout) (rsp : Rsp) : List (Option (Nat × Nat × Nat)) :=
  (List.range' c.inbufs (c.args.length - c.inbufs)).map (outBuf c l rsp)

/-- put_args: its writes to the memory of the user. -/
def put_args (c : Call) (l : Layout) (rsp : Option Rsp) (mem : Mem) : List (Nat × List Byte) :=
  match rsp with
  | none => []
  | some rsp =>
    if rsp.result ≠ 0 then []
    else
      match put_bufs c.user mem (outBufs c l rsp) with
      | (ws, false) => ws
      | (ws, true) =>
        let crclist := rsp.rxbuf + sizeof_virt_invoke_msg +
          (c.args.length + c.handles) * sizeof_virt_fastrpc_buf + 8 * M_FDLIST
        let perf_dsp_list := crclist + 4 * M_CRCLIST + 4
        let crc := c.crc.toList.map (fun u => (copy_to_user c.user mem u crclist (4 * M_CRCLIST)).1)
        let perf := c.perf_dsp.toList.map
          (fun u => (copy_to_user c.user mem u perf_dsp_list (8 * M_DSP_PERF_LIST)).1)
        ws ++ crc ++ perf

/-- The memory that put_args reads: what it held before, under the copies of get_args and what
the backend and the DSP have written to the response and to the internal buffers. -/
def Layout.memory (l : Layout) (backend : Nat → Option Byte) (old : Mem) : Mem :=
  overlay (storeAll old l.copies) backend

/-- The memory that get_args got for the call. -/
def Layout.Handed (l : Layout) (x : Nat) : Prop := ∃ b, some b ∈ l.desc ∧ b.Has x

/-! ## What put_args reads -/

/-- The reads of the crcs and of the counters of the DSP. -/
def headerReads (c : Call) (rsp : Rsp) : List (Nat × Nat × Nat) :=
  let crclist := rsp.rxbuf + sizeof_virt_invoke_msg +
    (c.args.length + c.handles) * sizeof_virt_fastrpc_buf + 8 * M_FDLIST
  c.crc.toList.map (fun u => (u, crclist, min (4 * M_CRCLIST) (c.user.takes u))) ++
    c.perf_dsp.toList.map
      (fun u => (u, crclist + 4 * M_CRCLIST + 4, min (8 * M_DSP_PERF_LIST) (c.user.takes u)))

/-- The reads of put_args for a response without an error. -/
def reads (c : Call) (l : Layout) (rsp : Rsp) : List (Nat × Nat × Nat) :=
  (bufReads c.user (outBufs c l rsp)).1 ++
    if (bufReads c.user (outBufs c l rsp)).2 then headerReads c rsp else []

theorem put_args_eq {c : Call} {l : Layout} {rsp : Rsp} (hres : rsp.result = 0) (mem : Mem) :
    put_args c l (some rsp) mem = copyOut mem (reads c l rsp) := by
  simp only [put_args, reads, hres]
  rw [put_bufs_eq]
  rcases hb : bufReads c.user (outBufs c l rsp) with ⟨rs, _ | _⟩
  · simp
  · simp [headerReads, copy_to_user, copyOut, Function.comp_def]

theorem put_args_error {c : Call} {l : Layout} {rsp : Rsp} (hres : rsp.result ≠ 0) (mem : Mem) :
    put_args c l (some rsp) mem = [] := by
  simp only [put_args]
  rw [if_pos hres]

theorem outBuf_eq_some {c : Call} {l : Layout} {rsp : Rsp} {i dst src len : Nat} :
    outBuf c l rsp i = some (dst, src, len) ↔ (c.arg i).mapping = none ∧
      dst = (c.arg i).pv.toNat ∧ src = source c l rsp i ∧ len = source_len c l rsp i := by
  unfold outBuf
  rcases (c.arg i).mapping with _ | m
  · simp [eq_comm]
  · simp

/-! ## Internal buffers -/

/-- The length that get_args asks for is the length of the buffer in whole pages, or 0 when that
wraps around. -/
theorem len_le_of_alloc {p p' : Pool} {len : BitVec 64} {b : Buf}
    (h : vfastrpc_buf_alloc p (PAGE_ALIGN len.toNat % 2 ^ 64) .INTERNAL = some (b, p')) :
    len.toNat ≤ PAGE_ALIGN b.size := by
  obtain ⟨hne, hle⟩ := vfastrpc_buf_alloc_size h
  have htop : PAGE_ALIGN (2 ^ 64) = 2 ^ 64 := by decide
  have hmono : PAGE_ALIGN len.toNat ≤ PAGE_ALIGN (2 ^ 64) :=
    ALIGN_mono PAGE_SIZE (Nat.le_of_lt len.isLt)
  have hlen : len.toNat ≤ PAGE_ALIGN len.toNat := le_ALIGN len.toNat (by decide)
  have hsize : b.size ≤ PAGE_ALIGN b.size := le_ALIGN b.size (by decide)
  rw [htop] at hmono
  rcases Nat.lt_or_ge (PAGE_ALIGN len.toNat) (2 ^ 64) with hlt | hge
  · rw [Nat.mod_eq_of_lt hlt] at hle
    omega
  · have heq : PAGE_ALIGN len.toNat = 2 ^ 64 := by omega
    rw [heq, Nat.mod_self] at hne
    exact absurd rfl hne

/-- An internal buffer is as long as the buffer of the user. -/
theorem alloc_desc_len {p : Pool} {as : List Arg} {desc : Desc}
    (h : alloc_desc p as = some desc) {i : Nat} {b : Buf} (hb : desc.getD i none = some b) :
    some b ∈ desc ∧ (as.getD i ⟨0, 0, none, true⟩).len.toNat ≤ PAGE_ALIGN b.size := by
  induction as generalizing p desc i with
  | nil =>
    cases h
    simp at hb
  | cons a as ih =>
    simp only [alloc_desc] at h
    split at h
    · obtain ⟨rest, hrest, he⟩ := Option.map_eq_some_iff.mp h
      cases he
      cases i with
      | zero => simp at hb
      | succ i =>
        rw [List.getD_cons_succ] at hb ⊢
        obtain ⟨hmem, hlen⟩ := ih hrest hb
        exact ⟨List.mem_cons_of_mem _ hmem, hlen⟩
    split at h
    · cases h
    · rename_i b' p' halloc
      obtain ⟨rest, hrest, he⟩ := Option.map_eq_some_iff.mp h
      cases he
      cases i with
      | zero =>
        rw [List.getD_cons_zero] at hb ⊢
        cases hb
        exact ⟨List.mem_cons_self, len_le_of_alloc halloc⟩
      | succ i =>
        rw [List.getD_cons_succ] at hb ⊢
        obtain ⟨hmem, hlen⟩ := ih hrest hb
        exact ⟨List.mem_cons_of_mem _ hmem, hlen⟩

theorem internal_len {c : Call} {p : Pool} {l : Layout}
    (h : get_args c p = .ok l) {i : Nat} {b : Buf} (hb : l.internal i = some b) :
    some b ∈ l.desc ∧ (c.arg i).len.toNat ≤ PAGE_ALIGN b.size := by
  have hdesc : get_desc c p = .ok l.desc := by
    unfold get_args at h
    split at h
    · cases h
    rename_i desc hd
    split at h
    · cases h
    split at h
    · cases h
    split at h
    · cases h
    · cases h
      exact hd
  unfold get_desc at hdesc
  dsimp only at hdesc
  split at hdesc
  · -- a message that is not too large has no internal buffers
    unfold Layout.internal at hb
    rw [← Except.ok.inj hdesc, List.getD_eq_getElem?_getD, List.getElem?_map] at hb
    rcases hi : c.args[i]? with _ | a
    · simp [hi] at hb
    · simp [hi] at hb
  split at hdesc
  · cases hdesc
  split at hdesc
  · cases hdesc
  · rename_i desc halloc
    rw [Except.ok.inj hdesc] at halloc
    exact alloc_desc_len halloc hb

/-! ## Stale bytes -/

/-- put_args gives the byte `j` of the out-buffer `i` to the user: the buffer has no map, and the
memory of the user takes the byte and all buffers without a map before this one. -/
structure Delivered (c : Call) (l : Layout) (rsp : Rsp) (i j : Nat) : Prop where
  out : c.inbufs ≤ i ∧ i < c.args.length
  unmapped : (c.arg i).mapping = none
  len : j < source_len c l rsp i
  taken : j < c.user.takes (c.arg i).pv.toNat
  before : ∀ k, c.inbufs ≤ k → k < i → (c.arg k).mapping = none →
    source_len c l rsp k ≤ c.user.takes (c.arg k).pv.toNat

/-- put_args reads the byte at `x` as a byte of the response: of an out-buffer that has no
internal buffer, or of the crcs and the counters behind all out-buffers. -/
def RspRead (c : Call) (l : Layout) (rsp : Rsp) (x : Nat) : Prop :=
  (∃ i j, Delivered c l rsp i j ∧ l.internal i = none ∧ x = source c l rsp i + j) ∨
    ((bufReads c.user (outBufs c l rsp)).2 = true ∧
      ∃ r ∈ headerReads c rsp, ∃ j, j < r.2.2 ∧ x = r.2.1 + j)

/-- The bytes that the loop over the out-buffers reads are the ones that it delivers. -/
theorem bufReads_iff_delivered (c : Call) (l : Layout) (rsp : Rsp) (Q : Nat → Prop) :
    (∀ r ∈ (bufReads c.user (outBufs c l rsp)).1, ∀ j, j < r.2.2 → Q (r.2.1 + j)) ↔
      ∀ i j, Delivered c l rsp i j → Q (source c l rsp i + j) := by
  unfold outBufs
  constructor
  · intro h i j hd
    obtain ⟨hlo, hhi⟩ := hd.out
    refine h _ (mem_bufReads.mpr ⟨i, _, _, _, hlo, by omega,
      outBuf_eq_some.mpr ⟨hd.unmapped, rfl, rfl, rfl⟩, rfl, ?_⟩) j
      (Nat.lt_min.mpr ⟨hd.len, hd.taken⟩)
    intro k hk hki dst src len hbuf
    obtain ⟨hnone, rfl, _, rfl⟩ := outBuf_eq_some.mp hbuf
    exact hd.before k hk hki hnone
  · intro h r hr j hj
    obtain ⟨i, dst, src, len, hlo, hhi, hbuf, rfl, hbefore⟩ := mem_bufReads.mp hr
    obtain ⟨hnone, rfl, rfl, rfl⟩ := outBuf_eq_some.mp hbuf
    obtain ⟨hlen, htaken⟩ := Nat.lt_min.mp hj
    refine h i j ⟨⟨hlo, by omega⟩, hnone, hlen, htaken, ?_⟩
    intro k hk hki hkn
    exact hbefore k hk hki _ _ _ (outBuf_eq_some.mpr ⟨hkn, rfl, rfl, rfl⟩)

/-- The reads of put_args are the delivered bytes of the internal buffers and the bytes of the
response. -/
theorem reads_iff (c : Call) (l : Layout) (rsp : Rsp) (Q : Nat → Prop) :
    (∀ r ∈ reads c l rsp, ∀ j, j < r.2.2 → Q (r.2.1 + j)) ↔
      (∀ i b j, l.internal i = some b → Delivered c l rsp i j → Q (b.va + j)) ∧
        ∀ x, RspRead c l rsp x → Q x := by
  have hbufs := bufReads_iff_delivered c l rsp Q
  have hsource : ∀ i b, l.internal i = some b → source c l rsp i = b.va := by
    intro i b hb
    simp only [source, hb]
  constructor
  · intro h
    have hall := hbufs.mp (fun r hr => h r (List.mem_append_left _ hr))
    refine ⟨?_, ?_⟩
    · intro i b j hb hd
      rw [← hsource i b hb]
      exact hall i j hd
    · rintro x (⟨i, j, hd, _, rfl⟩ | ⟨hend, r, hr, j, hj, rfl⟩)
      · exact hall i j hd
      · refine h r (List.mem_append_right _ ?_) j hj
        rw [if_pos hend]
        exact hr
  · rintro ⟨hint, hrsp⟩ r hr
    rcases List.mem_append.mp hr with hr | hr
    · refine hbufs.mpr (fun i j hd => ?_) r hr
      rcases hb : l.internal i with _ | b
      · exact hrsp _ (Or.inl ⟨i, j, hd, hb, rfl⟩)
      · rw [hsource i b hb]
        exact hint i b j hb hd
    · split at hr
      · rename_i hend
        exact fun j hj => hrsp _ (Or.inr ⟨hend, r, hr, j, hj, rfl⟩)
      · cases hr

/-- Two runs of an invoke that differ only in what its internal buffers held before give the user
the same bytes, exactly when there is no response without an error, or each byte that put_args
delivers from an internal buffer was written after the buffer was taken, by the backend, by the
DSP or by a copy of get_args. The second part is about a response whose lengths lead put_args out
of the response and into such a buffer. The buffers and the copies are those that get_args has left
here; StaleInternal tells them from the request. -/
theorem same_bytes_iff_settled {c : Call} {p : Pool} {l : Layout}
    (hget : get_args c p = .ok l) (rsp : Option Rsp) (backend : Nat → Option Byte) :
    (∀ old old' : Mem, (∀ x, ¬ l.Handed x → old x = old' x) →
      put_args c l rsp (l.memory backend old) = put_args c l rsp (l.memory backend old')) ↔
    ∀ q, rsp = some q → q.result = 0 →
      (∀ i b j, l.internal i = some b → Delivered c l q i j →
        Covered l.copies (b.va + j) ∨ backend (b.va + j) ≠ none) ∧
      (∀ x, RspRead c l q x → l.Handed x → Covered l.copies x ∨ backend x ≠ none) := by
  rcases rsp with _ | q
  · simp [put_args]
  by_cases hres : q.result = 0
  swap
  · simp only [put_args_error hres, implies_true, true_iff]
    intro q' hq h0
    cases hq
    exact absurd h0 hres
  simp only [put_args_eq hres, Option.some.injEq, forall_eq', hres, forall_const]
  refine (copyOut_eq_iff_settled l.copies backend l.Handed (reads c l q)).trans ?_
  refine (reads_iff c l q (fun x => l.Handed x → Settled l.copies backend x)).trans ?_
  refine and_congr ?_ (Iff.refl _)
  constructor
  · intro h i b j hb hd
    obtain ⟨hmem, hlen⟩ := internal_len hget hb
    have hj : j < (c.arg i).len.toNat := by
      have hlt := hd.len
      simp only [source_len, hb] at hlt
      exact hlt
    exact h i b j hb hd ⟨b, hmem, by omega, by omega⟩
  · intro h i b j hb hd _
    exact h i b j hb hd

end virtual_fastrpc.virtio_marshal
