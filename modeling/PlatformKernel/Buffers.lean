-- The kernel buffers of a session: where the drivers take them from, and what
-- they promise about their sizes. A buffer comes with the bytes it held before:
-- neither driver clears it.
import PlatformKernel.AdsprpcShared
import PlatformKernel.Lib.BestFit
import PlatformKernel.Lib.Bytes

namespace virtual_fastrpc.buffers

def PAGE_SIZE : Nat := 4096
def BALIGN : Nat := 128
def M_CRCLIST : Nat := 64
def M_DSP_PERF_LIST : Nat := 12

/-- No buffer is as large as this. -/
def MAX_BUF_SIZE : Nat := 0x78000000

/-- The macro `ALIGN`. -/
def ALIGN (x a : Nat) : Nat := (x + (a - 1)) / a * a

def PAGE_ALIGN (x : Nat) : Nat := ALIGN x PAGE_SIZE

abbrev Byte := BitVec 8

instance : Nontrivial Byte := ⟨⟨0, 1, by decide⟩⟩

/-- The memory of the kernel. -/
abbrev Mem := Nat → Byte

inductive BufType
  | METADATA | COPYDATA | INTERNAL | USERHEAP
  deriving DecidableEq, Repr

/-- `struct vfastrpc_buf`. -/
structure Buf where
  va : Nat
  size : Nat
  deriving DecidableEq, Repr

/-- The address is in the pages of the buffer. -/
def Buf.Has (b : Buf) (x : Nat) : Prop := b.va ≤ x ∧ x < b.va + PAGE_ALIGN b.size

/-- The buffers that a session can use: its persistent headers with `pers_hdr_in_use`, its
cache, and the addresses of the new buffers that the kernel gives one after the other, which is
nothing where the kernel has no pages or the backend does not map them. -/
structure Pool where
  hdr_bufs : List (Nat × Bool)
  cached_bufs : List Buf
  new_bufs : List (Option Nat)
  deriving DecidableEq, Repr

/-! ## Allocation -/

/-- The first persistent header that is not in use, and the headers after it is taken. -/
def take_hdr : List (Nat × Bool) → Option (Nat × List (Nat × Bool))
  | [] => none
  | (va, false) :: hdrs => some (va, (va, true) :: hdrs)
  | (va, true) :: hdrs => (take_hdr hdrs).map (fun r => (r.1, (va, true) :: r.2))

def hfastrpc_get_persistent_buf (p : Pool) (size : Nat) (ty : BufType) : Option (Buf × Pool) :=
  if ty ≠ .METADATA ∨ PAGE_SIZE < size then none
  else (take_hdr p.hdr_bufs).map (fun r => (⟨r.1, PAGE_SIZE⟩, { p with hdr_bufs := r.2 }))

/-- The smallest buffer of the cache that fits, the first one when there are several. -/
def smallest (size : Nat) (bufs : List Buf) : Option Buf := best_fit.search Buf.size size bufs

/-- The search of both drivers in the cache. -/
def hfastrpc_get_cached_buf (p : Pool) (size : Nat) (ty : BufType) : Option (Buf × Pool) :=
  if ty = .USERHEAP then none
  else (smallest size p.cached_bufs).map
    (fun fr => (fr, { p with cached_bufs := p.cached_bufs.erase fr }))

/-- A buffer of new pages, which are not cleared. -/
def vfastrpc_alloc_buffer (p : Pool) (size : Nat) : Option (Buf × Pool) :=
  match p.new_bufs with
  | some va :: rest => some (⟨va, size⟩, { p with new_bufs := rest })
  | _ => none

def hfastrpc_buf_alloc (p : Pool) (size : Nat) (ty : BufType) :
    Option (Buf × Pool) :=
  if size = 0 ∨ MAX_BUF_SIZE ≤ size then none
  else
    match hfastrpc_get_persistent_buf p size ty with
    | some r => some r
    | none =>
      match hfastrpc_get_cached_buf p size ty with
      | some r => some r
      | none => vfastrpc_alloc_buffer p (if ty = .USERHEAP then size else PAGE_ALIGN size)

def vfastrpc_buf_alloc (p : Pool) (size : Nat) (ty : BufType) :
    Option (Buf × Pool) :=
  if size = 0 ∨ MAX_BUF_SIZE ≤ size then none
  else
    match hfastrpc_get_cached_buf p size ty with
    | some r => some r
    | none => vfastrpc_alloc_buffer p size

/-! ## The memory of the user -/

/-- The memory of the user: the bytes that can be read, and how many bytes it takes from an
address on. -/
structure UserMem where
  byte : Nat → Option Byte
  takes : Nat → Nat

/-- The bytes that copy_from_user reads, or nothing when a byte cannot be read. -/
def copy_from_user (user : UserMem) (src n : Nat) : Option (List Byte) :=
  (List.range n).mapM (fun j => user.byte (src + j))

theorem length_of_mapM {α β : Type} {f : α → Option β} {l : List α} {bs : List β}
    (h : l.mapM f = some bs) : bs.length = l.length := by
  induction l generalizing bs with
  | nil =>
    cases h
    rfl
  | cons a l ih =>
    simp only [List.mapM_cons, Option.bind_eq_bind, Option.bind_eq_some_iff] at h
    obtain ⟨b, _, rest, hrest, he⟩ := h
    cases he
    simp [ih hrest]

theorem copy_from_user_length {user : UserMem} {src n : Nat} {bs : List Byte}
    (h : copy_from_user user src n = some bs) : bs.length = n := by
  rw [length_of_mapM h, List.length_range]

theorem getElem?_of_mapM {α β : Type} {f : α → Option β} {l : List α} {bs : List β}
    (h : l.mapM f = some bs) (j : Nat) : bs[j]? = l[j]?.bind f := by
  induction l generalizing bs j with
  | nil =>
    cases h
    simp
  | cons a l ih =>
    simp only [List.mapM_cons, Option.bind_eq_bind, Option.bind_eq_some_iff] at h
    obtain ⟨b, hb, rest, hrest, he⟩ := h
    cases he
    cases j with
    | zero => simp [hb]
    | succ j => simp [ih hrest j]

theorem copy_from_user_getElem? {user : UserMem} {src n j : Nat} {bs : List Byte}
    (h : copy_from_user user src n = some bs) (hj : j < n) : bs[j]? = user.byte (src + j) := by
  rw [getElem?_of_mapM h]
  simp [hj]

/-- copy_to_user of `n` bytes at `src`: what it writes, and whether it writes all of them. -/
def copy_to_user (user : UserMem) (mem : Mem) (dst src n : Nat) : (Nat × List Byte) × Bool :=
  ((dst, bytes.load mem src (min n (user.takes dst))), decide (n ≤ user.takes dst))

/-- The loop of put_args over the out-buffers, in both drivers: each is a buffer to skip, or the
address of the user, the address of the kernel and the length. It says what the loop writes to
the user, and whether it came to the end. -/
def put_bufs (user : UserMem) (mem : Mem) :
    List (Option (Nat × Nat × Nat)) → List (Nat × List Byte) × Bool
  | [] => ([], true)
  | none :: bufs => put_bufs user mem bufs
  | some (dst, src, len) :: bufs =>
    match copy_to_user user mem dst src len with
    | (w, true) => (w :: (put_bufs user mem bufs).1, (put_bufs user mem bufs).2)
    | (w, false) => ([w], false)

/-- The reads of the loop, up to the first buffer that the memory of the user does not take
whole. -/
def bufReads (user : UserMem) : List (Option (Nat × Nat × Nat)) → List (Nat × Nat × Nat) × Bool
  | [] => ([], true)
  | none :: bufs => bufReads user bufs
  | some (dst, src, len) :: bufs =>
    let r := (dst, src, min len (user.takes dst))
    if len ≤ user.takes dst then (r :: (bufReads user bufs).1, (bufReads user bufs).2)
    else ([r], false)

theorem put_bufs_eq (user : UserMem) (mem : Mem) (bufs : List (Option (Nat × Nat × Nat))) :
    put_bufs user mem bufs =
      (bytes.copyOut mem (bufReads user bufs).1, (bufReads user bufs).2) := by
  induction bufs with
  | nil => rfl
  | cons buf bufs ih =>
    rcases buf with _ | ⟨dst, src, len⟩
    · exact ih
    · by_cases hall : len ≤ user.takes dst
      · simp [put_bufs, bufReads, copy_to_user, hall, ih, bytes.copyOut]
      · simp [put_bufs, bufReads, copy_to_user, hall, bytes.copyOut]

/-- The loop reads the buffer `i` when it does not skip it, and the memory of the user has taken
all buffers before it. -/
theorem mem_bufReads {user : UserMem} {f : Nat → Option (Nat × Nat × Nat)} {a n : Nat}
    {r : Nat × Nat × Nat} :
    r ∈ (bufReads user ((List.range' a n).map f)).1 ↔ ∃ i dst src len, a ≤ i ∧ i < a + n ∧
      f i = some (dst, src, len) ∧ r = (dst, src, min len (user.takes dst)) ∧
      ∀ k, a ≤ k → k < i → ∀ dst src len, f k = some (dst, src, len) →
        len ≤ user.takes dst := by
  induction n generalizing a with
  | zero =>
    simp only [List.range'_zero, List.map_nil, bufReads, List.not_mem_nil, false_iff]
    rintro ⟨i, _, _, _, hlo, hhi, _⟩
    omega
  | succ n ih =>
    rw [List.range'_succ, List.map_cons]
    rcases hf : f a with _ | ⟨dst, src, len⟩
    · simp only [bufReads]
      rw [ih]
      constructor
      · rintro ⟨i, dst, src, len, hlo, hhi, hi, hr, hbefore⟩
        refine ⟨i, dst, src, len, by omega, by omega, hi, hr, ?_⟩
        intro k hk hki dst' src' len' hfk
        have hne : a ≠ k := by
          rintro rfl
          rw [hf] at hfk
          cases hfk
        exact hbefore k (by omega) hki dst' src' len' hfk
      · rintro ⟨i, dst, src, len, hlo, hhi, hi, hr, hbefore⟩
        have hne : a ≠ i := by
          rintro rfl
          rw [hf] at hi
          cases hi
        exact ⟨i, dst, src, len, by omega, by omega, hi, hr, fun k hk => hbefore k (by omega)⟩
    simp only [bufReads]
    split
    · rename_i hall
      rw [List.mem_cons, ih]
      constructor
      · rintro (hr | ⟨i, dst', src', len', hlo, hhi, hi, hr, hbefore⟩)
        · exact ⟨a, dst, src, len, Nat.le_refl _, by omega, hf, hr, fun k hk hka => by omega⟩
        · refine ⟨i, dst', src', len', by omega, by omega, hi, hr, ?_⟩
          intro k hk hki d s n hfk
          rcases Nat.eq_or_lt_of_le hk with rfl | hk
          · rw [hf] at hfk
            cases hfk
            exact hall
          · exact hbefore k hk hki d s n hfk
      · rintro ⟨i, dst', src', len', hlo, hhi, hi, hr, hbefore⟩
        rcases Nat.eq_or_lt_of_le hlo with rfl | hlo
        · rw [hf] at hi
          cases hi
          exact Or.inl hr
        · exact Or.inr ⟨i, dst', src', len', hlo, by omega, hi, hr,
            fun k hk => hbefore k (by omega)⟩
    · rename_i hall
      rw [List.mem_singleton]
      constructor
      · intro hr
        exact ⟨a, dst, src, len, Nat.le_refl _, by omega, hf, hr, fun k hk hka => by omega⟩
      · rintro ⟨i, dst', src', len', hlo, hhi, hi, hr, hbefore⟩
        rcases Nat.eq_or_lt_of_le hlo with rfl | hlo
        · rw [hf] at hi
          cases hi
          exact hr
        · exact absurd (hbefore a (Nat.le_refl _) hlo dst src len hf) hall

/-- The loop comes to the end when the memory of the user takes each buffer whole. -/
theorem bufReads_end_iff {user : UserMem} {bufs : List (Option (Nat × Nat × Nat))} :
    (bufReads user bufs).2 = true ↔
      ∀ dst src len, some (dst, src, len) ∈ bufs → len ≤ user.takes dst := by
  induction bufs with
  | nil => simp [bufReads]
  | cons buf bufs ih =>
    rcases buf with _ | ⟨dst, src, len⟩
    · simpa [bufReads] using ih
    · simp only [bufReads]
      constructor
      · intro h d s n hmem
        split at h
        · rename_i hall
          rcases List.mem_cons.mp hmem with heq | hmem
          · cases heq
            exact hall
          · exact ih.mp h d s n hmem
        · cases h
      · intro h
        rw [if_pos (h dst src len List.mem_cons_self)]
        exact ih.mpr fun d s n hmem => h d s n (List.mem_cons_of_mem _ hmem)

/-! ## What a buffer is -/

theorem le_ALIGN (x : Nat) {a : Nat} (ha : 0 < a) : x ≤ ALIGN x a := by
  unfold ALIGN
  have hlt : x + (a - 1) < (x + (a - 1)) / a * a + a := Nat.lt_div_mul_add ha
  omega

theorem ALIGN_mono {x y : Nat} (a : Nat) (h : x ≤ y) : ALIGN x a ≤ ALIGN y a := by
  unfold ALIGN
  exact Nat.mul_le_mul_right a (Nat.div_le_div_right (by omega))

theorem get_cached_buf_some {p p' : Pool} {size : Nat} {ty : BufType} {b : Buf}
    (h : hfastrpc_get_cached_buf p size ty = some (b, p')) :
    b ∈ p.cached_bufs ∧ size ≤ b.size ∧ p' = { p with cached_bufs := p.cached_bufs.erase b } := by
  unfold hfastrpc_get_cached_buf at h
  split at h
  · cases h
  · obtain ⟨fr, hfr, he⟩ := Option.map_eq_some_iff.mp h
    cases he
    obtain ⟨hmem, hsize, _⟩ := best_fit.search_some hfr
    exact ⟨hmem, hsize, rfl⟩

theorem alloc_buffer_some {p p' : Pool} {size : Nat} {b : Buf}
    (h : vfastrpc_alloc_buffer p size = some (b, p')) :
    ∃ va rest, p.new_bufs = some va :: rest ∧ b = ⟨va, size⟩ ∧
      p' = { p with new_bufs := rest } := by
  unfold vfastrpc_alloc_buffer at h
  split at h
  · rename_i va rest hn
    cases h
    exact ⟨va, rest, hn, rfl, rfl⟩
  · cases h

theorem vfastrpc_buf_alloc_size {p p' : Pool} {size : Nat} {ty : BufType}
    {b : Buf} (h : vfastrpc_buf_alloc p size ty = some (b, p')) : size ≠ 0 ∧ size ≤ b.size := by
  unfold vfastrpc_buf_alloc at h
  split at h
  · cases h
  rename_i hsize
  refine ⟨fun h0 => hsize (Or.inl h0), ?_⟩
  split at h
  · rename_i r hr
    cases h
    exact (get_cached_buf_some hr).2.1
  · obtain ⟨va, rest, _, rfl, _⟩ := alloc_buffer_some h
    exact Nat.le_refl _

/-- Each of the three sources gives a buffer that is large enough. -/
theorem hfastrpc_buf_alloc_size {p p' : Pool} {size : Nat} {ty : BufType}
    {b : Buf} (h : hfastrpc_buf_alloc p size ty = some (b, p')) : size ≤ b.size := by
  unfold hfastrpc_buf_alloc at h
  split at h
  · cases h
  split at h
  · rename_i r hr
    cases h
    unfold hfastrpc_get_persistent_buf at hr
    split at hr
    · cases hr
    · rename_i hsmall
      obtain ⟨v, _, he⟩ := Option.map_eq_some_iff.mp hr
      cases he
      exact Nat.le_of_not_lt (fun hlt => hsmall (Or.inr hlt))
  split at h
  · rename_i r hr
    cases h
    exact (get_cached_buf_some hr).2.1
  · obtain ⟨va, rest, _, rfl, _⟩ := alloc_buffer_some h
    dsimp only
    split
    · exact Nat.le_refl _
    · exact le_ALIGN size (by decide)

end virtual_fastrpc.buffers
