-- Whether put_args of the virtio driver stays in its buffers: the bytes of the
-- answer that it reads, and how many bytes it writes to each out-buffer, for
-- any answer of the backend.
import PlatformKernel.VirtioRoundTrip

namespace virtual_fastrpc.virtio_message

open bytes buffers map_table
open virtio_marshal (SIZE_OF_MAPPING sizeof_virt_invoke_msg sizeof_virt_fastrpc_buf)

/-! ## What put_args reads and writes -/

def sizeof_virt_msg_hdr : Nat := 26

/-- What a part of put_args reads of the answer, as addresses and lengths, how many bytes it writes
to each out-buffer, and whether it comes to its end. -/
structure Accesses where
  reads : List (Nat × Nat)
  writes : List (Arg × Nat)
  done : Bool
  deriving DecidableEq, Repr

def Accesses.andThen (x y : Accesses) : Accesses :=
  if x.done then ⟨x.reads ++ y.reads, x.writes ++ y.writes, y.done⟩ else x

/-- The entry `i` of the answer. -/
def entry_read (rsp : Rsp) (i : Nat) : Nat × Nat :=
  (rsp.rxbuf + sizeof_virt_invoke_msg + i * sizeof_virt_fastrpc_buf, sizeof_virt_fastrpc_buf)

/-- calc_compare_crc takes the length as an int, and crc32_be as a size_t again. -/
def crc_len (buf_len : BitVec 64) : Nat := ((buf_len.setWidth 32).signExtend 64).toNat

/-- A turn of the loop over the out-buffers. The entry is read for the length of the payload, and
for the length of a buffer that has its bytes there. -/
def out_turn (c : Call) (rsp : Rsp) (i : Nat) (a : Arg) (d : Option Buf) (payload : Nat) :
    Accesses :=
  match a.map, d with
  | some _, _ => ⟨[entry_read rsp i], [], true⟩
  | none, some _ =>
    let len := a.len.toNat
    let n := min len (c.user.takes a.pv.toNat)
    if len ≤ c.user.takes a.pv.toNat then ⟨[entry_read rsp i], [(a, n)], true⟩
    else ⟨[], [(a, n)], false⟩
  | none, none =>
    let len := (rsp.pra i).buf_len.toNat
    let n := min len (c.user.takes a.pv.toNat)
    let crc := if c.crc.isSome then [(payload, crc_len (rsp.pra i).buf_len)] else []
    ⟨entry_read rsp i :: crc ++ [(payload, n)], [(a, n)], decide (len ≤ c.user.takes a.pv.toNat)⟩

def out_loop (c : Call) (rsp : Rsp) : Nat → List (Arg × Option Buf) → Nat → Accesses
  | _, [], _ => ⟨[], [], true⟩
  | i, (a, d) :: bufs, payload =>
    (out_turn c rsp i a d payload).andThen
      (out_loop c rsp (i + 1) bufs ((payload + (rsp.pra i).payload_len.toNat) % 2 ^ 64))

/-- How many words of the fd list are read: those before the first zero, and that one. -/
def fds_read (fdlist : Nat → BitVec 64) : Nat → Nat → Nat
  | _, 0 => 0
  | k, n + 1 => 1 + if fdlist k = 0 then 0 else fds_read fdlist (k + 1) n

/-- The places of the lists behind the entries. -/
def fdlist_place (c : Call) : Nat := sizeof_virt_invoke_msg + c.total * sizeof_virt_fastrpc_buf
def crclist_place (c : Call) : Nat := fdlist_place c + 8 * M_FDLIST
def perf_place (c : Call) : Nat := crclist_place c + 4 * M_CRCLIST + 4

/-- The reads of a list for the user, when he asks for it. -/
def list_read (c : Call) (rsp : Rsp) (dst : Option Nat) (place n : Nat) : List (Nat × Nat) :=
  dst.toList.map (fun u => (rsp.rxbuf + place, min n (c.user.takes u)))

/-- What put_args reads after the loop. -/
def lists_read (c : Call) (rsp : Rsp) (fdlist : Nat → BitVec 64) : Accesses :=
  ⟨(List.range (fds_read fdlist 0 M_FDLIST)).map
    (fun k => (rsp.rxbuf + fdlist_place c + 8 * k, 8)) ++
      list_read c rsp c.crc (crclist_place c) (4 * M_CRCLIST) ++
      list_read c rsp c.perf_dsp (perf_place c) (8 * M_DSP_PERF_LIST), [], true⟩

/-- The accesses of put_args. -/
def put_accesses (c : Call) (m : Message) (rsp : Rsp) (fdlist : Nat → BitVec 64) : Accesses :=
  let result : Accesses := ⟨[(rsp.rxbuf + sizeof_virt_msg_hdr - 4, 4)], [], rsp.result = 0⟩
  result.andThen
    ((out_loop c rsp c.inbufs ((c.args.zip m.internal).drop c.inbufs)
      ((rsp.rxbuf + metalen c + m.outbufs_offset) % 2 ^ 64)).andThen (lists_read c rsp fdlist))

/-- The writes are those of the loop of put_args. -/
theorem read_loop_writes (c : Call) (mem : Mem) (rsp : Rsp) (i : Nat)
    (bufs : List (Arg × Option Buf)) (payload : Nat) :
    (read_loop c mem rsp i bufs payload).1.map (fun w => (w.1, w.2.length)) =
        (out_loop c rsp i bufs payload).writes.map (fun w => (w.1.pv.toNat, w.2)) ∧
      (read_loop c mem rsp i bufs payload).2 = (out_loop c rsp i bufs payload).done := by
  induction bufs generalizing i payload with
  | nil => exact ⟨rfl, rfl⟩
  | cons b bufs ih =>
    obtain ⟨a, d⟩ := b
    unfold read_loop out_loop out_turn
    dsimp only
    generalize (payload + (rsp.pra i).payload_len.toNat) % 2 ^ 64 = next
    obtain ⟨hw, hd⟩ := ih (i + 1) next
    rcases hm : a.map with _ | m
    · rcases d with _ | b
      · by_cases hall : (rsp.pra i).buf_len.toNat ≤ c.user.takes a.pv.toNat
        · simp [copy_to_user, hall, Accesses.andThen, hw, hd, load]
        · simp [copy_to_user, hall, Accesses.andThen, load]
      · by_cases hall : a.len.toNat ≤ c.user.takes a.pv.toNat
        · simp [copy_to_user, hall, Accesses.andThen, hw, hd, load]
        · simp [copy_to_user, hall, Accesses.andThen, load]
    · simp [Accesses.andThen, hw, hd]

/-- put_args writes to the out-buffers what the accesses say. -/
theorem put_outbufs_writes (c : Call) (m : Message) (rsp : Rsp) (mem : Mem)
    (fdlist : Nat → BitVec 64) (h : rsp.result = 0) :
    (put_outbufs c m rsp mem).1.map (fun w => (w.1, w.2.length)) =
      (put_accesses c m rsp fdlist).writes.map (fun w => (w.1.pv.toNat, w.2)) := by
  unfold put_outbufs put_accesses
  rw [(read_loop_writes c mem rsp _ _ _).1]
  simp only [Accesses.andThen, h, decide_true, if_true]
  split
  · simp [lists_read]
  · simp

/-! ## The bounds -/

/-- The bytes lie in the rx buffer of `buf_size` bytes. -/
def Inside (c : Call) (rsp : Rsp) (r : Nat × Nat) : Prop :=
  r.2 = 0 ∨ (rsp.rxbuf ≤ r.1 ∧ r.1 + r.2 ≤ rsp.rxbuf + c.buf_size)

/-- All reads lie in the rx buffer, and no write is longer than its out-buffer. -/
structure Respects (c : Call) (rsp : Rsp) (x : Accesses) : Prop where
  reads : ∀ r ∈ x.reads, Inside c rsp r
  writes : ∀ w ∈ x.writes, w.2 ≤ w.1.len.toNat

/-- The value of `payload` after `k` more out-buffers, from the buffer `i` on. -/
def placeFrom (rsp : Rsp) (i payload k : Nat) : Nat :=
  (payload + ((List.range' i k).map (fun j => (rsp.pra j).payload_len.toNat)).sum) % 2 ^ 64

/-- Where put_args looks for the bytes of the out-buffer `i`. -/
def out_place (c : Call) (m : Message) (rsp : Rsp) (i : Nat) : Nat :=
  placeFrom rsp c.inbufs (rsp.rxbuf + metalen c + m.outbufs_offset) (i - c.inbufs)

/-- The end of the lists that put_args reads. -/
def lists_end (c : Call) (fdlist : Nat → BitVec 64) : Nat :=
  if c.perf_dsp.isSome then perf_place c + 8 * M_DSP_PERF_LIST
  else if c.crc.isSome then crclist_place c + 4 * M_CRCLIST
  else fdlist_place c + 8 * fds_read fdlist 0 M_FDLIST

/-- An answer with room for what put_args looks for in it: its lists end in the buffer, and each
out-buffer that is neither mapped nor internal has a length not larger than the one that the user
gave, with its bytes in the buffer. -/
structure Measured (c : Call) (m : Message) (rsp : Rsp) (fdlist : Nat → BitVec 64) : Prop where
  header : sizeof_virt_msg_hdr ≤ c.buf_size
  lists : rsp.result = 0 → lists_end c fdlist ≤ c.buf_size
  outbufs : rsp.result = 0 → ∀ i a, c.inbufs ≤ i → (c.args.zip m.internal)[i]? = some (a, none) →
    a.map = none → (rsp.pra i).buf_len ≤ a.len ∧
      Inside c rsp (out_place c m rsp i, (rsp.pra i).buf_len.toNat)

section bounds

variable {c : Call} {m : Message} {rsp : Rsp} {fdlist : Nat → BitVec 64}

theorem inside_at {place n : Nat} (hn : 0 < n) :
    Inside c rsp (rsp.rxbuf + place, n) ↔ place + n ≤ c.buf_size := by
  unfold Inside
  dsimp only
  omega

theorem Respects.andThen {x y : Accesses} (hx : Respects c rsp x)
    (hy : x.done = true → Respects c rsp y) : Respects c rsp (x.andThen y) := by
  unfold Accesses.andThen
  split
  · rename_i hdone
    have hy := hy hdone
    constructor
    · intro r hr
      exact (List.mem_append.mp hr).elim (hx.reads r) (hy.reads r)
    · intro w hw
      exact (List.mem_append.mp hw).elim (hx.writes w) (hy.writes w)
  · exact hx

/-- The first part is there, also when it does not come to its end. -/
theorem Respects.left {x y : Accesses} (h : Respects c rsp (x.andThen y)) : Respects c rsp x := by
  unfold Accesses.andThen at h
  split at h
  · exact ⟨fun r hr => h.reads r (List.mem_append_left _ hr),
      fun w hw => h.writes w (List.mem_append_left _ hw)⟩
  · exact h

theorem respects_andThen {x y : Accesses} (hdone : x.done = true) :
    Respects c rsp (x.andThen y) ↔ Respects c rsp x ∧ Respects c rsp y := by
  constructor
  · intro h
    refine ⟨h.left, ?_⟩
    simp only [Accesses.andThen, hdone, if_true] at h
    exact ⟨fun r hr => h.reads r (List.mem_append_right _ hr),
      fun w hw => h.writes w (List.mem_append_right _ hw)⟩
  · intro h
    exact h.1.andThen (fun _ => h.2)

/-! ### The loop -/

theorem placeFrom_zero {i payload : Nat} (h : payload < 2 ^ 64) :
    placeFrom rsp i payload 0 = payload := by
  simp only [placeFrom, List.range'_zero, List.map_nil, List.sum_nil, Nat.add_zero]
  exact Nat.mod_eq_of_lt h

theorem placeFrom_succ (i payload k : Nat) :
    placeFrom rsp i payload (k + 1) =
      placeFrom rsp (i + 1) ((payload + (rsp.pra i).payload_len.toNat) % 2 ^ 64) k := by
  unfold placeFrom
  rw [List.range'_succ, List.map_cons, List.sum_cons]
  omega

/-- What a turn needs of the answer. -/
def TurnOk (c : Call) (rsp : Rsp) (i : Nat) (a : Arg) (d : Option Buf) (payload : Nat) : Prop :=
  Inside c rsp (entry_read rsp i) ∧ (a.map = none → d = none →
    (rsp.pra i).buf_len ≤ a.len ∧ Inside c rsp (payload, (rsp.pra i).buf_len.toNat))

/-- The crc is computed over the bytes that are copied, when these lie in the buffer. -/
theorem crc_len_eq {buf_len : BitVec 64} (h : buf_len.toNat ≤ MAX_FASTRPC_BUF_SIZE) :
    crc_len buf_len = buf_len.toNat := by
  unfold MAX_FASTRPC_BUF_SIZE at h
  have hlow : (buf_len.setWidth 32).toNat = buf_len.toNat := by
    rw [BitVec.toNat_setWidth]
    omega
  have hmsb : (buf_len.setWidth 32).msb = false := by
    rw [BitVec.msb_eq_false_iff_two_mul_lt, hlow]
    omega
  unfold crc_len
  rw [BitVec.signExtend_eq_setWidth_of_msb_false hmsb, BitVec.toNat_setWidth, hlow]
  omega

theorem Inside.mono {payload n k : Nat} (h : Inside c rsp (payload, n)) (hk : k ≤ n) :
    Inside c rsp (payload, k) := by
  unfold Inside at h ⊢
  dsimp only at h ⊢
  omega

theorem respects_turn {i : Nat} {a : Arg} {d : Option Buf} {payload : Nat}
    (h : TurnOk c rsp i a d payload) : Respects c rsp (out_turn c rsp i a d payload) := by
  obtain ⟨hentry, hout⟩ := h
  unfold out_turn
  rcases hm : a.map with _ | m
  · rcases d with _ | b
    · obtain ⟨hlen, hin⟩ := hout hm rfl
      have hcrc : Inside c rsp (payload, crc_len (rsp.pra i).buf_len) := by
        have hmax := c.buf_size_le
        rw [crc_len_eq (by unfold Inside at hin; dsimp only at hin; omega)]
        exact hin
      constructor
      · intro r hr
        rcases List.mem_cons.mp hr with rfl | hr
        · exact hentry
        · rcases List.mem_append.mp hr with hr | hr
          · split at hr
            · rw [List.mem_singleton.mp hr]
              exact hcrc
            · cases hr
          · rw [List.mem_singleton.mp hr]
            exact hin.mono (Nat.min_le_left _ _)
      · intro w hw
        rw [List.mem_singleton.mp hw]
        exact Nat.le_trans (Nat.min_le_left _ _) hlen
    · simp only
      split
      · exact ⟨by simpa using hentry, by simp⟩
      · exact ⟨by simp, by simp⟩
  · exact ⟨by simpa using hentry, by simp⟩

/-- Each turn of the loop finds what it needs. -/
def TurnsOk (c : Call) (rsp : Rsp) (i : Nat) (bufs : List (Arg × Option Buf)) (payload : Nat) :
    Prop :=
  ∀ k a d, bufs[k]? = some (a, d) → TurnOk c rsp (i + k) a d (placeFrom rsp i payload k)

theorem turnsOk_cons {i : Nat} {a : Arg} {d : Option Buf} {bufs : List (Arg × Option Buf)}
    {payload : Nat} (h : payload < 2 ^ 64) :
    TurnsOk c rsp i ((a, d) :: bufs) payload ↔ TurnOk c rsp i a d payload ∧
      TurnsOk c rsp (i + 1) bufs ((payload + (rsp.pra i).payload_len.toNat) % 2 ^ 64) := by
  constructor
  · intro hall
    refine ⟨?_, fun k a' d' hk => ?_⟩
    · have := hall 0 a d rfl
      rwa [Nat.add_zero, placeFrom_zero h] at this
    · have := hall (k + 1) a' d' hk
      rwa [placeFrom_succ, show i + (k + 1) = i + 1 + k by omega] at this
  · rintro ⟨hone, hrest⟩ k a' d' hk
    rcases k with _ | k
    · cases hk
      rw [Nat.add_zero, placeFrom_zero h]
      exact hone
    · rw [placeFrom_succ, show i + (k + 1) = i + 1 + k by omega]
      exact hrest k a' d' hk

theorem respects_loop {i : Nat} {bufs : List (Arg × Option Buf)} {payload : Nat}
    (hp : payload < 2 ^ 64) (h : TurnsOk c rsp i bufs payload) :
    Respects c rsp (out_loop c rsp i bufs payload) := by
  induction bufs generalizing i payload with
  | nil => exact ⟨by simp [out_loop], by simp [out_loop]⟩
  | cons b bufs ih =>
    obtain ⟨a, d⟩ := b
    obtain ⟨hone, hrest⟩ := (turnsOk_cons hp).mp h
    exact (respects_turn hone).andThen (fun _ => ih (Nat.mod_lt _ (by decide)) hrest)

theorem turn_done (hu : ∀ dst, c.user.takes dst = 2 ^ 64) (i : Nat) (a : Arg) (d : Option Buf)
    (payload : Nat) :
    (out_turn c rsp i a d payload).done = true := by
  unfold out_turn
  rcases a.map with _ | m
  · rcases d with _ | b
    · have := (rsp.pra i).buf_len.isLt
      simp only [hu, decide_eq_true_eq]
      omega
    · have := a.len.isLt
      simp only [hu]
      rw [if_pos (by omega)]
  · rfl

theorem turnOk_of_respects (hu : ∀ dst, c.user.takes dst = 2 ^ 64) {i : Nat} {a : Arg}
    {d : Option Buf} {payload : Nat}
    (h : Respects c rsp (out_turn c rsp i a d payload)) : TurnOk c rsp i a d payload := by
  unfold out_turn at h
  rcases hm : a.map with _ | m
  · rcases d with _ | b
    · simp only [hm, hu] at h
      have hlt := (rsp.pra i).buf_len.isLt
      have hmin : min (rsp.pra i).buf_len.toNat (2 ^ 64) = (rsp.pra i).buf_len.toNat := by omega
      rw [hmin] at h
      refine ⟨h.reads _ List.mem_cons_self, fun _ _ =>
        ⟨h.writes _ (List.mem_singleton.mpr rfl), ?_⟩⟩
      apply h.reads
      simp
    · have hlt := a.len.isLt
      simp only [hm, hu] at h
      rw [if_pos (by omega)] at h
      exact ⟨h.reads _ List.mem_cons_self, fun _ hd => absurd hd nofun⟩
  · simp only [hm] at h
    refine ⟨h.reads _ List.mem_cons_self, fun hn => ?_⟩
    rw [hm] at hn
    cases hn

theorem turnsOk_of_respects (hu : ∀ dst, c.user.takes dst = 2 ^ 64) {i : Nat}
    {bufs : List (Arg × Option Buf)}
    {payload : Nat} (hp : payload < 2 ^ 64) (h : Respects c rsp (out_loop c rsp i bufs payload)) :
    TurnsOk c rsp i bufs payload ∧ (out_loop c rsp i bufs payload).done = true := by
  induction bufs generalizing i payload with
  | nil => exact ⟨fun k a d hk => by simp at hk, rfl⟩
  | cons b bufs ih =>
    obtain ⟨a, d⟩ := b
    have hdone : (out_turn c rsp i a d payload).done = true := turn_done hu i a d payload
    obtain ⟨hone, hrest⟩ := (respects_andThen hdone).mp h
    obtain ⟨hrest, hend⟩ := ih (Nat.mod_lt _ (by decide)) hrest
    refine ⟨(turnsOk_cons hp).mpr ⟨turnOk_of_respects hu hone, hrest⟩, ?_⟩
    unfold out_loop Accesses.andThen
    rw [hdone, if_pos rfl]
    exact hend

/-! ### The lists -/

theorem fds_read_pos (fdlist : Nat → BitVec 64) (k : Nat) {n : Nat} (hn : 0 < n) :
    0 < fds_read fdlist k n := by
  rcases n with _ | n
  · omega
  · unfold fds_read
    omega

theorem fds_read_le (fdlist : Nat → BitVec 64) (k n : Nat) : fds_read fdlist k n ≤ n := by
  induction n generalizing k with
  | zero => exact Nat.le_refl 0
  | succ n ih =>
    unfold fds_read
    have := ih (k + 1)
    split <;> omega

theorem fdlist_le_lists_end (c : Call) (fdlist : Nat → BitVec 64) :
    fdlist_place c + 8 * fds_read fdlist 0 M_FDLIST ≤ lists_end c fdlist := by
  have hfds := fds_read_le fdlist 0 M_FDLIST
  unfold lists_end perf_place crclist_place
  split
  · omega
  · split <;> omega

/-- The reads of the lists lie in the buffer when their end does. -/
theorem respects_lists (h : lists_end c fdlist ≤ c.buf_size) :
    Respects c rsp (lists_read c rsp fdlist) := by
  have hfds := fdlist_le_lists_end c fdlist
  refine ⟨fun r hr => ?_, by simp [lists_read]⟩
  simp only [lists_read, list_read, List.mem_append, List.mem_map, List.mem_range,
    Option.mem_toList] at hr
  rcases hr with (⟨k, hk, rfl⟩ | ⟨u, hu, rfl⟩) | ⟨u, hu, rfl⟩
  · rw [Nat.add_assoc, inside_at (by decide)]
    omega
  · refine Inside.mono (n := 4 * M_CRCLIST) ?_ (Nat.min_le_left _ _)
    rw [inside_at (by decide)]
    refine Nat.le_trans ?_ h
    unfold lists_end perf_place
    rw [hu, Option.isSome_some]
    split
    · omega
    · exact Nat.le_refl _
  · refine Inside.mono (n := 8 * M_DSP_PERF_LIST) ?_ (Nat.min_le_left _ _)
    rw [inside_at (by decide)]
    refine Nat.le_trans ?_ h
    unfold lists_end
    rw [hu, Option.isSome_some, if_pos rfl]

theorem lists_end_le_of_respects (hu : ∀ dst, c.user.takes dst = 2 ^ 64)
    (h : Respects c rsp (lists_read c rsp fdlist)) :
    lists_end c fdlist ≤ c.buf_size := by
  have hmin : ∀ u n, n ≤ 2 ^ 64 → min n (c.user.takes u) = n := by
    intro u n hn
    rw [hu u]
    omega
  unfold lists_end
  rcases hperf : c.perf_dsp with _ | u
  · rcases hcrc : c.crc with _ | u
    · simp only [Option.isSome_none, Bool.false_eq_true, if_false]
      -- the last word that is read
      have hpos := fds_read_pos fdlist 0 (show 0 < M_FDLIST by decide)
      have := h.reads (rsp.rxbuf + fdlist_place c + 8 * (fds_read fdlist 0 M_FDLIST - 1), 8) (by
        simp only [lists_read, List.mem_append, List.mem_map, List.mem_range]
        exact Or.inl (Or.inl ⟨_, by omega, rfl⟩))
      rw [Nat.add_assoc, inside_at (by decide)] at this
      omega
    · simp only [Option.isSome_none, Option.isSome_some, Bool.false_eq_true, if_false, if_true]
      have := h.reads (rsp.rxbuf + crclist_place c, 4 * M_CRCLIST) (by
        simp only [lists_read, list_read, List.mem_append, hcrc]
        exact Or.inl (Or.inr (by simp [hmin u (4 * M_CRCLIST) (by decide)])))
      rwa [inside_at (by decide)] at this
  · simp only [Option.isSome_some, if_true]
    have := h.reads (rsp.rxbuf + perf_place c, 8 * M_DSP_PERF_LIST) (by
      simp only [lists_read, list_read, List.mem_append, hperf]
      exact Or.inr (by simp [hmin u (8 * M_DSP_PERF_LIST) (by decide)]))
    rwa [inside_at (by decide)] at this

/-! ### put_args -/

theorem out_place_eq (c : Call) (m : Message) (rsp : Rsp) (k : Nat) :
    placeFrom rsp c.inbufs ((rsp.rxbuf + metalen c + m.outbufs_offset) % 2 ^ 64) k =
      out_place c m rsp (c.inbufs + k) := by
  unfold out_place placeFrom
  rw [Nat.add_sub_cancel_left]
  omega

theorem getElem?_outbufs {k : Nat} {a : Arg} {d : Option Buf} :
    ((c.args.zip m.internal).drop c.inbufs)[k]? = some (a, d) ↔
      (c.args.zip m.internal)[c.inbufs + k]? = some (a, d) := by
  rw [List.getElem?_drop]

theorem entry_inside (h : lists_end c fdlist ≤ c.buf_size) {i : Nat} {x : Arg × Option Buf}
    (hi : (c.args.zip m.internal)[i]? = some x) : Inside c rsp (entry_read rsp i) := by
  have hlt : i < c.total := by
    have := (List.getElem?_eq_some_iff.mp hi).1
    rw [List.length_zip] at this
    unfold Call.total
    omega
  have hend := fdlist_le_lists_end c fdlist
  unfold entry_read
  rw [Nat.add_assoc, inside_at (by decide)]
  have hmul : (i + 1) * sizeof_virt_fastrpc_buf ≤ c.total * sizeof_virt_fastrpc_buf :=
    Nat.mul_le_mul_right _ hlt
  rw [Nat.succ_mul] at hmul
  unfold fdlist_place at hend
  omega

theorem turnsOk_of_measured (h : Measured c m rsp fdlist) (hr : rsp.result = 0) :
    TurnsOk c rsp c.inbufs ((c.args.zip m.internal).drop c.inbufs)
      ((rsp.rxbuf + metalen c + m.outbufs_offset) % 2 ^ 64) := by
  intro k a d hk
  have hk := getElem?_outbufs.mp hk
  refine ⟨entry_inside (h.lists hr) hk, fun hm hd => ?_⟩
  subst hd
  rw [out_place_eq]
  exact h.outbufs hr _ a (Nat.le_add_right _ _) hk hm

theorem respects_of_measured (h : Measured c m rsp fdlist) :
    Respects c rsp (put_accesses c m rsp fdlist) := by
  have hheader := h.header
  unfold put_accesses
  apply Respects.andThen
  · refine ⟨fun r hr => ?_, by simp⟩
    rw [List.mem_singleton.mp hr, Nat.add_sub_assoc (by decide), inside_at (by decide)]
    unfold sizeof_virt_msg_hdr at hheader ⊢
    omega
  · intro hr
    have hr : rsp.result = 0 := by simpa using hr
    apply (respects_loop (Nat.mod_lt _ (by decide)) (turnsOk_of_measured h hr)).andThen
    exact fun _ => respects_lists (h.lists hr)

theorem measured_of_respects (hu : ∀ dst, c.user.takes dst = 2 ^ 64)
    (h : Respects c rsp (put_accesses c m rsp fdlist)) : Measured c m rsp fdlist := by
  unfold put_accesses at h
  have hfirst := h.left.reads _ List.mem_cons_self
  rw [Nat.add_sub_assoc (by decide), inside_at (by decide)] at hfirst
  have hrest (hr : rsp.result = 0) : lists_end c fdlist ≤ c.buf_size ∧
      TurnsOk c rsp c.inbufs ((c.args.zip m.internal).drop c.inbufs)
        ((rsp.rxbuf + metalen c + m.outbufs_offset) % 2 ^ 64) := by
    have hloop := ((respects_andThen (by simp [hr])).mp h).2
    -- the loop comes to its end, so the lists are read
    obtain ⟨hok, hdone⟩ := turnsOk_of_respects hu (Nat.mod_lt _ (by decide)) hloop.left
    exact ⟨lists_end_le_of_respects hu ((respects_andThen hdone).mp hloop).2, hok⟩
  refine ⟨?_, fun hr => (hrest hr).1, fun hr i a hi hz hm => ?_⟩
  · unfold sizeof_virt_msg_hdr at hfirst ⊢
    omega
  · have hk := (hrest hr).2 (i - c.inbufs) a none (by
      rw [getElem?_outbufs, Nat.add_sub_cancel' hi]
      exact hz)
    rw [out_place_eq, Nat.add_sub_cancel' hi] at hk
    exact hk.2 hm rfl

end bounds

/-- Whatever the memory of the user takes, put_args reads inside the rx buffer and writes no more to
an out-buffer than its length, if and only if the answer has room for what it looks for. -/
theorem put_args_stays_in_its_buffers_iff (c : Call) (m : Message) (rsp : Rsp)
    (fdlist : Nat → BitVec 64) :
    (∀ u, Respects { c with user := u } rsp (put_accesses { c with user := u } m rsp fdlist)) ↔
      Measured c m rsp fdlist := by
  constructor
  · intro h
    have := measured_of_respects (fun _ => rfl) (h ⟨c.user.byte, fun _ => 2 ^ 64⟩)
    exact ⟨this.header, this.lists, this.outbufs⟩
  · intro h u
    exact respects_of_measured ⟨h.header, h.lists, h.outbufs⟩

/-- A call with one out-buffer of four bytes. -/
def fourBytes : Call where
  buf_size := 4096
  inbufs := 0
  args := [⟨0x31000, 4, false, none⟩]
  handles := []
  kcalloc := true
  txbuf := some 0x80000
  sgt _ := []
  user := ⟨fun _ => some 0, fun _ => 2 ^ 64⟩
  crc := none
  perf_dsp := none
  inbufs_le := by decide
  buf_size_le := page_le_max

/-- An answer that claims to hold 65536 bytes for that out-buffer. -/
def longAnswer : Rsp := ⟨0, 0x90000, fun _ => ⟨0, 0x31000, 65536, 0, 4⟩⟩

/-- The message of the call. -/
def fourBytesSent : Message :=
  match get_args fourBytes ⟨[], [], []⟩ with
  | .ok m => m
  | .error _ => ⟨0, 0, [], ⟨0, [], [], [], []⟩⟩

/-- The answer decides how much is written, and how far behind the rx buffer is read for that. -/
theorem a_long_answer_leaves_both_buffers :
    get_args fourBytes ⟨[], [], []⟩ = .ok fourBytesSent ∧
      (put_accesses fourBytes fourBytesSent longAnswer (fun _ => 0)).writes =
        [(⟨0x31000, 4, false, none⟩, 65536)] ∧
      ¬ Respects fourBytes longAnswer
        (put_accesses fourBytes fourBytesSent longAnswer (fun _ => 0)) := by
  have hwrites : (put_accesses fourBytes fourBytesSent longAnswer (fun _ => 0)).writes =
      [(⟨0x31000, 4, false, none⟩, 65536)] := by decide +kernel
  refine ⟨by decide +kernel, hwrites, fun h => ?_⟩
  have := h.writes (⟨0x31000, 4, false, none⟩, 65536) (by rw [hwrites]; exact List.mem_cons_self)
  exact absurd this (by decide)

end virtual_fastrpc.virtio_message
