-- The buffers of a session as objects (virtio_fastrpc_mem.c): the cache with its
-- counter, the buffers on the user heap, and the persistent headers, which are
-- cut from one large buffer. A pointer to a buffer is its id.
import PlatformKernel.SmmuMaps

namespace virtual_fastrpc.buffer_pool

open virtual_fastrpc.buffers (BufType PAGE_SIZE PAGE_ALIGN MAX_BUF_SIZE)
open virtual_fastrpc.smmu_maps (MAX_CACHE_BUF_SIZE MAX_CACHED_BUFS)
open keyed step_runs

def MAX_PERSISTENT_HEADERS : Nat := 25

/-- `struct vfastrpc_buf`. -/
structure Buf where
  id : Nat
  size : Nat
  /-- Whether there is a kernel mapping, at `va`. -/
  va : Bool
  /-- No type is -1, the type of a buffer in the cache. -/
  type : Option BufType
  pers_hdr_in_use : Bool
  deriving DecidableEq, Repr

def Buf.setType (ty : Option BufType) (b : Buf) : Buf := { b with type := ty }

def Buf.setInUse (u : Bool) (b : Buf) : Buf := { b with pers_hdr_in_use := u }

structure Pool where
  bufs : List Buf
  next : Nat
  cached_bufs : List Nat
  num_cached_buf : Int
  remote_bufs : List Nat
  /-- The chunks of the persistent header buffer, and that buffer. -/
  hdr_bufs : List Nat
  pers_hdr_buf : Option Nat
  deriving DecidableEq, Repr

def Pool.init : Pool := ⟨[], 0, [], 0, [], [], none⟩

def Pool.buf (p : Pool) (id : Nat) : Option Buf := lookup Buf.id p.bufs id

def Pool.setBuf (p : Pool) (id : Nat) (f : Buf → Buf) : Pool :=
  { p with bufs := update Buf.id p.bufs id f }

/-! ## Allocation -/

/-- What the kernel and the backend do for an allocation: the memory for the structure, the
pages, and for the hybrid driver the device address. -/
structure AllocEnv where
  kzalloc : Bool
  alloc_buffer : Bool
  smmu_map : Bool
  deriving DecidableEq, Repr

/-- hfastrpc_get_persistent_buf: the first chunk that is not in use. -/
def get_persistent_buf (p : Pool) (size : Nat) (ty : BufType) : Option (Pool × Nat) :=
  if ty ≠ .METADATA ∨ PAGE_SIZE < size then none
  else (p.hdr_bufs.find? (fun id => (p.buf id).any (fun b => !b.pers_hdr_in_use))).map
    fun id => (p.setBuf id (.setInUse true), id)

/-- The buffer of the cache that the search finds. -/
def find_cached (p : Pool) (size : Nat) : Option Buf :=
  best_fit.search Buf.size size (p.cached_bufs.filterMap p.buf)

/-- The search of both drivers in the cache. The hybrid driver sets the type of what it finds. -/
def get_cached_buf (d : Driver) (p : Pool) (size : Nat) (ty : BufType) : Option (Pool × Nat) :=
  if ty = .USERHEAP then none
  else (find_cached p size).map fun fr =>
    let p := { p with
      cached_bufs := p.cached_bufs.erase fr.id
      num_cached_buf := p.num_cached_buf - 1 }
    match d with
    | .hybrid => (p.setBuf fr.id (.setType (some ty)), fr.id)
    | .virtio => (p, fr.id)

/-- A new buffer. The hybrid driver keeps the size of the pages of what may be cached. -/
def new_buf (d : Driver) (p : Pool) (size : Nat) (no_kernel_mapping : Bool) (ty : BufType) : Buf :=
  { id := p.next
    size := match d with
      | .hybrid => if ty = .USERHEAP then size else PAGE_ALIGN size
      | .virtio => size
    va := !no_kernel_mapping
    type := some ty
    pers_hdr_in_use := false }

/-- The last part of both buf_alloc: a buffer of new pages, which comes on the remote list when
it is for the user heap. -/
def buf_alloc_new (d : Driver) (p : Pool) (size : Nat) (no_kernel_mapping : Bool) (ty : BufType)
    (e : AllocEnv) : Pool × Option Nat :=
  if e.kzalloc ∧ e.alloc_buffer ∧ (d = .hybrid → e.smmu_map) then
    ({ p with
        bufs := new_buf d p size no_kernel_mapping ty :: p.bufs
        next := p.next + 1
        remote_bufs := if ty = .USERHEAP then p.next :: p.remote_bufs else p.remote_bufs },
      some p.next)
  else (p, none)

/-- hfastrpc_buf_alloc and vfastrpc_buf_alloc, which has no persistent headers. -/
def buf_alloc (d : Driver) (p : Pool) (size : Nat) (no_kernel_mapping : Bool) (ty : BufType)
    (e : AllocEnv) : Pool × Option Nat :=
  if size = 0 ∨ MAX_BUF_SIZE ≤ size then (p, none)
  else
    match (if d = .hybrid then get_persistent_buf p size ty else none) with
    | some (p', id) => (p', some id)
    | none =>
      match get_cached_buf d p size ty with
      | some (p', id) => (p', some id)
      | none => buf_alloc_new d p size no_kernel_mapping ty e

/-! ## The release -/

/-- Whether the buffer goes to the cache: it may be cached, and the cache is not full. -/
def caches (p : Pool) (b : Buf) (cache : Bool) : Bool :=
  cache && decide (b.size < MAX_CACHE_BUF_SIZE) && !decide (MAX_CACHED_BUFS < p.num_cached_buf)

def add_cached (p : Pool) (b : Buf) : Pool :=
  { p.setBuf b.id (.setType none) with
    cached_bufs := b.id :: p.cached_bufs
    num_cached_buf := p.num_cached_buf + 1 }

/-- The end of both buf_free. -/
def release (p : Pool) (b : Buf) : Pool :=
  { p with
    bufs := remove Buf.id p.bufs b.id
    remote_bufs := if b.type = some .USERHEAP then p.remote_bufs.erase b.id else p.remote_bufs }

/-- hfastrpc_buf_free and vfastrpc_buf_free, which has no persistent headers. -/
def buf_free (d : Driver) (p : Pool) (b : Buf) (cache : Bool) : Pool :=
  if d = .hybrid ∧ b.pers_hdr_in_use then p.setBuf b.id (.setInUse false)
  else if caches p b cache then add_cached p b
  else release p b

/-- One turn of hfastrpc_cached_buf_list_free and vfastrpc_cached_buf_list_free. -/
def cached_buf_list_free (d : Driver) (p : Pool) : Pool :=
  match p.cached_bufs with
  | [] => p
  | id :: rest =>
    let p := { p with cached_bufs := rest, num_cached_buf := p.num_cached_buf - 1 }
    match p.buf id with
    | some b => buf_free d p b false
    | none => p

/-- The chunks of the persistent headers, with the ids from `next` on. -/
def hdr_chunks (next num_pers_hdrs : Nat) : List Buf :=
  (List.range' next num_pers_hdrs).map (fun id => ⟨id, PAGE_SIZE, true, some .METADATA, false⟩)

/-- The last critical section of hfastrpc_create_persistent_headers. -/
def install_hdrs (p : Pool) (pers_hdr_buf num_pers_hdrs : Nat) : Pool :=
  { p with
    bufs := hdr_chunks p.next num_pers_hdrs ++ p.bufs
    next := p.next + num_pers_hdrs
    hdr_bufs := List.range' p.next num_pers_hdrs
    pers_hdr_buf := some pers_hdr_buf }

/-- `kfree(vfl->hdr_bufs)` of hfastrpc_file_free. -/
def kfree_hdr_bufs (p : Pool) : Pool :=
  { p with bufs := p.bufs.filter (fun b => !p.hdr_bufs.contains b.id), hdr_bufs := [] }

/-! ## What the search in the cache finds -/

/-- The buffer that the search finds is in the cache and fits, and none that fits is smaller. -/
theorem find_cached_some {p : Pool} {size : Nat} {b : Buf} (h : find_cached p size = some b) :
    b.id ∈ p.cached_bufs ∧ p.buf b.id = some b ∧ size ≤ b.size ∧
      ∀ id ∈ p.cached_bufs, ∀ c, p.buf id = some c → size ≤ c.size → b.size ≤ c.size := by
  obtain ⟨hb, hsize, hsmall⟩ := best_fit.search_some h
  obtain ⟨id, hid, hbid⟩ := List.mem_filterMap.mp hb
  have hkey : b.id = id := key_of_lookup hbid
  subst hkey
  refine ⟨hid, hbid, hsize, ?_⟩
  intro id hid c hc
  exact hsmall c (List.mem_filterMap.mpr ⟨id, hid, hc⟩)

/-! ## The calls -/

variable {d : Driver} {p p' : Pool} {size : Nat} {nomap : Bool} {ty : BufType} {e : AllocEnv}

theorem get_persistent_some {id : Nat} (h : get_persistent_buf p size ty = some (p', id)) :
    id ∈ p.hdr_bufs ∧ (∃ b, p.buf id = some b ∧ b.pers_hdr_in_use = false) ∧
      p' = p.setBuf id (.setInUse true) ∧ ty = .METADATA ∧ size ≤ PAGE_SIZE := by
  unfold get_persistent_buf at h
  split at h
  · cases h
  · rename_i hok
    obtain ⟨i, hi, he⟩ := Option.map_eq_some_iff.mp h
    cases he
    have hfree := List.find?_some hi
    obtain ⟨b, hb, hin⟩ := Option.any_eq_true _ _ |>.mp hfree
    push Not at hok
    exact ⟨List.mem_of_find?_eq_some hi, ⟨b, hb, by simpa using hin⟩, rfl, hok.1, hok.2⟩

/-- The pool after the search has found a buffer. -/
def taken (d : Driver) (p : Pool) (b : Buf) (ty : BufType) : Pool :=
  { p with
    bufs := match d with
      | .hybrid => update Buf.id p.bufs b.id (.setType (some ty))
      | .virtio => p.bufs
    cached_bufs := p.cached_bufs.erase b.id
    num_cached_buf := p.num_cached_buf - 1 }

theorem get_cached_some {id : Nat} (h : get_cached_buf d p size ty = some (p', id)) :
    ∃ b, find_cached p size = some b ∧ b.id = id ∧ ty ≠ .USERHEAP ∧ p' = taken d p b ty := by
  unfold get_cached_buf at h
  split at h
  · cases h
  · rename_i hty
    obtain ⟨b, hb, he⟩ := Option.map_eq_some_iff.mp h
    refine ⟨b, hb, ?_⟩
    cases d
    · cases he
      exact ⟨rfl, hty, rfl⟩
    · cases he
      exact ⟨rfl, hty, rfl⟩

/-- All that buf_alloc can do: it fails and leaves the pool, or gives out a chunk that is not in
use, a buffer of the cache, or a new buffer. -/
theorem buf_alloc_cases {r : Option Nat} (h : buf_alloc d p size nomap ty e = (p', r)) :
    (r = none ∧ p' = p) ∨
    (∃ id, r = some id ∧ d = .hybrid ∧ get_persistent_buf p size ty = some (p', id)) ∨
    (∃ b, r = some b.id ∧ find_cached p size = some b ∧ ty ≠ .USERHEAP ∧ p' = taken d p b ty) ∨
    (r = some p.next ∧ p' = { p with
      bufs := new_buf d p size nomap ty :: p.bufs
      next := p.next + 1
      remote_bufs := if ty = .USERHEAP then p.next :: p.remote_bufs else p.remote_bufs }) := by
  unfold buf_alloc at h
  split at h
  · cases h
    exact Or.inl ⟨rfl, rfl⟩
  split at h
  · rename_i q id hq
    cases h
    split at hq
    · exact Or.inr (Or.inl ⟨id, rfl, ‹_›, hq⟩)
    · cases hq
  split at h
  · rename_i q id hq
    cases h
    obtain ⟨b, hb, rfl, hty, rfl⟩ := get_cached_some hq
    exact Or.inr (Or.inr (Or.inl ⟨b, rfl, hb, hty, rfl⟩))
  · unfold buf_alloc_new at h
    split at h
    · cases h
      exact Or.inr (Or.inr (Or.inr ⟨rfl, rfl⟩))
    · cases h
      exact Or.inl ⟨rfl, rfl⟩

/-- All that buf_free can do. -/
theorem buf_free_cases (d : Driver) (p : Pool) (b : Buf) (cache : Bool) :
    (d = .hybrid ∧ b.pers_hdr_in_use = true ∧
      buf_free d p b cache = p.setBuf b.id (.setInUse false)) ∨
    ((d = .hybrid → b.pers_hdr_in_use = false) ∧ caches p b cache = true ∧
      buf_free d p b cache = add_cached p b) ∨
    ((d = .hybrid → b.pers_hdr_in_use = false) ∧ caches p b cache = false ∧
      buf_free d p b cache = release p b) := by
  unfold buf_free
  by_cases hin : d = .hybrid ∧ b.pers_hdr_in_use = true
  · rw [if_pos hin]
    exact Or.inl ⟨hin.1, hin.2, rfl⟩
  · have hplain : d = .hybrid → b.pers_hdr_in_use = false := by
      intro hd
      simpa using fun hu => hin ⟨hd, hu⟩
    rw [if_neg hin]
    rcases hc : caches p b cache with _ | _
    · exact Or.inr (Or.inr ⟨hplain, rfl, rfl⟩)
    · exact Or.inr (Or.inl ⟨hplain, rfl, rfl⟩)

/-- A turn of the loop takes the first buffer off the list, and frees it. -/
theorem cached_buf_list_free_eq {id : Nat} {rest : List Nat} {b : Buf}
    (hc : p.cached_bufs = id :: rest) (hb : p.buf id = some b) :
    cached_buf_list_free d p =
      buf_free d { p with cached_bufs := rest, num_cached_buf := p.num_cached_buf - 1 }
        b false := by
  let q : Pool := { p with cached_bufs := rest, num_cached_buf := p.num_cached_buf - 1 }
  have hq : q.buf id = some b := hb
  have he : cached_buf_list_free d p =
      match q.buf id with
      | some b => buf_free d q b false
      | none => q := by
    simp only [cached_buf_list_free, hc, q]
  rw [he, hq]

end virtual_fastrpc.buffer_pool
