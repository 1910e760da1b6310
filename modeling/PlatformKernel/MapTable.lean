-- The map table of a session, `fl->maps`: how the drivers find, create, share
-- and release the maps of the dma-bufs of a client. Each definition here is a
-- piece of code that runs under the map_mutex.
import PlatformKernel.AdsprpcShared
import PlatformKernel.Lib.Keyed

namespace virtual_fastrpc.map_table

open keyed

def ADSP_MMAP_HEAP_ADDR : BitVec 32 := 4
def ADSP_MMAP_REMOTE_HEAP_ADDR : BitVec 32 := 8
def VFASTRPC_MAP_ATTR_BUFFER_MAPPED : BitVec 32 := 128
def FASTRPC_DMAHANDLE_NOMAP : BitVec 32 := 16
def M_FDLIST : Nat := 16
def INT_MAX : Int := 2147483647

/-- The errors of the map functions. `VERIFY` is the one that the macro of this name sets. -/
inductive Errno
  | EOVERFLOW | ETOOMANYREFS | ENOTTY | EINVAL | VERIFY
  deriving DecidableEq, Repr

/-! ## Maps -/

/-- `struct vfastrpc_mmap`. The field `buf` names the dma-buf that the map wraps. -/
structure Map where
  id : Nat
  fd : Int
  flags : BitVec 32
  attr : BitVec 32
  buf : Nat
  va : BitVec 64
  len : BitVec 64
  raddr : BitVec 64
  refs : Int
  ctx_refs : Int
  dma_handle_refs : Int
  deriving DecidableEq, Repr

def isHeap (flags : BitVec 32) : Bool :=
  flags == ADSP_MMAP_HEAP_ADDR || flags == ADSP_MMAP_REMOTE_HEAP_ADDR

def keepAttr (sh : AdsprpcShared) (attr : BitVec 32) : Bool :=
  attr &&& sh.FASTRPC_ATTR_KEEP_MAP != 0

/-- The map has the attribute `FASTRPC_ATTR_KEEP_MAP`. -/
def Map.keep (sh : AdsprpcShared) (m : Map) : Bool := keepAttr sh m.attr

def Map.addRef (m : Map) : Map := { m with refs := m.refs + 1 }

def Map.addCtx (m : Map) : Map := { m with ctx_refs := m.ctx_refs + 1 }

def Map.addDma (m : Map) : Map := { m with dma_handle_refs := m.dma_handle_refs + 1 }

/-- vfastrpc_mmap_free and hfastrpc_mmap_free: what they leave of a map, which is nothing when
they release it. The hybrid one also asks the backend to undo its SMMU mapping. -/
def mmap_free (force_free : Bool) (m : Map) : Option Map :=
  if isHeap m.flags then some m
  else if m.refs ≤ 0 ∨ m.ctx_refs < 0 ∨ m.dma_handle_refs < 0 then some m
  else
    let m := { m with refs := m.refs - 1 }
    let m := if force_free then { m with refs := 0, ctx_refs := 0, dma_handle_refs := 0 } else m
    if m.refs = 0 ∧ m.ctx_refs = 0 ∧ m.dma_handle_refs = 0 then none else some m

/-! ## Lookup and creation -/

/-- The maps of a session, newest first, and the name of the next one. -/
structure Table where
  maps : List Map
  next : Nat
  deriving DecidableEq, Repr

def findMatch (fd : Int) (va len : BitVec 64) (m : Map) : Bool :=
  m.va ≤ va && va + len ≤ m.va + m.len && m.fd == fd

/-- vfastrpc_mmap_find with `refs` 0. -/
def vfastrpc_mmap_find (maps : List Map) (fd : Int) (va len : BitVec 64) (mflags : BitVec 32) :
    Except Errno Map :=
  if va + len < va then .error .EOVERFLOW
  else if isHeap mflags then .error .ENOTTY
  else
    match maps.find? (findMatch fd va len) with
    | some m => .ok m
    | none => .error .ENOTTY

/-- vfastrpc_mmap_find with `refs` 1. -/
def vfastrpc_mmap_find_ref (maps : List Map) (fd : Int) (va len : BitVec 64)
    (mflags : BitVec 32) : Except Errno (Nat × List Map) :=
  match vfastrpc_mmap_find maps fd va len mflags with
  | .ok m =>
    if m.refs + 1 = INT_MAX then .error .ETOOMANYREFS
    else .ok (m.id, update Map.id maps m.id .addRef)
  | .error e => .error e

/-- What the kernel and the backend do for a new map. -/
structure CreateEnv where
  kzalloc : Bool
  dma_buf_attach : Bool
  dma_buf_map_attachment : Bool
  virt_smmu_map : Bool
  deriving DecidableEq, Repr

def newMap (sh : AdsprpcShared) (id : Nat) (fd : Int) (attr : BitVec 32) (va len : BitVec 64)
    (mflags : BitVec 32) (buf : Nat) : Map :=
  { id, fd, flags := mflags, attr, buf, va, len, raddr := 0,
    refs := if keepAttr sh attr then 2 else 1, ctx_refs := 0, dma_handle_refs := 0 }

/-- vfastrpc_mmap_create and hfastrpc_mmap_create, which also maps in the SMMU. The argument
`buf` is what dma_buf_get gives for `fd`. A map that fails on the way was never in the
table. -/
def mmap_create (d : Driver) (sh : AdsprpcShared) (t : Table) (fd : Int) (attr : BitVec 32)
    (va len : BitVec 64) (mflags : BitVec 32) (buf : Option Nat) (env : CreateEnv) :
    Table × Except Errno Nat :=
  match vfastrpc_mmap_find_ref t.maps fd va len mflags with
  | .ok (id, maps) => ({ t with maps }, .ok id)
  | .error _ =>
    if !env.kzalloc then (t, .error .VERIFY)
    else
      let failed := { t with next := t.next + 1 }
      if isHeap mflags then (failed, .error .EINVAL)
      else
        match buf with
        | none => (failed, .error .VERIFY)
        | some b =>
          if !env.dma_buf_attach then (failed, .error .VERIFY)
          else if !env.dma_buf_map_attachment then (failed, .error .VERIFY)
          else if d == .hybrid && !env.virt_smmu_map then (failed, .error .VERIFY)
          else
            (⟨newMap sh t.next fd attr va len mflags b :: t.maps, t.next + 1⟩, .ok t.next)

/-! ## The arguments of an invoke -/

/-- One argument of an invoke: `lpra[i]`, `fds[i]` (nothing when the client passed no list of
fds) and `attrs[i]`, with what the kernel does for its map. -/
structure Arg where
  pv : BitVec 64
  len : BitVec 64
  fd : Option Int
  attr : BitVec 32
  env : CreateEnv
  deriving DecidableEq, Repr

/-- The fd of a buffer that get_args maps. The virtio driver skips empty buffers. -/
def bufFd (d : Driver) (a : Arg) : Option Int :=
  match d with
  | .virtio => if a.len = 0 then none else a.fd.filter (· ≠ -1)
  | .hybrid => a.fd.filter (· ≠ -1)

/-- The fd of a dma handle that get_args maps. The hybrid driver maps none when the DSP has the
capability `DMA_HANDLE_REVERSE_RPC_CAP`. -/
def handleFd (d : Driver) (cap : Bool) (a : Arg) : Option Int :=
  match d with
  | .virtio => a.fd.filter (· ≠ -1)
  | .hybrid => if cap then none else a.fd.filter (· ≠ -1)

def handleAttr (d : Driver) (sh : AdsprpcShared) (a : Arg) : BitVec 32 :=
  match d with
  | .virtio => a.attr &&& ~~~sh.FASTRPC_ATTR_KEEP_MAP
  | .hybrid => sh.FASTRPC_ATTR_NOVA

def handleFlags (d : Driver) (sh : AdsprpcShared) (a : Arg) : BitVec 32 :=
  if a.attr &&& sh.FASTRPC_ATTR_NOMAP = 0 then 0
  else
    match d with
    | .virtio => FASTRPC_DMAHANDLE_NOMAP
    | .hybrid => sh.FASTRPC_MAP_FD_NOMAP

/-- One turn of the loop of get_args over the buffers: the map of the buffer, if it has one. -/
def get_args_buf (d : Driver) (sh : AdsprpcShared) (fdtable : Int → Option Nat) (t : Table)
    (a : Arg) : Table × Except Errno (Option Nat) :=
  match bufFd d a with
  | none => (t, .ok none)
  | some fd =>
    match mmap_create d sh t fd a.attr a.pv a.len 0 (fdtable fd) a.env with
    | (t, .ok id) => ({ t with maps := update Map.id t.maps id .addCtx }, .ok (some id))
    | (t, .error e) => (t, .error e)

def Map.dropDma (m : Map) : Option Map :=
  if m.dma_handle_refs = 0 then some m
  else mmap_free false { m with dma_handle_refs := m.dma_handle_refs - 1 }

/-- The undo loop inside the loop of get_args over the dma handles. -/
def undo_handles (maps : List Map) (taken : List Nat) : List Map :=
  taken.foldl (fun maps id => alter Map.id maps id Map.dropDma) maps

/-- The loop of get_args over the dma handles, with the maps it has taken so far. -/
def get_args_handles (d : Driver) (sh : AdsprpcShared) (cap : Bool)
    (fdtable : Int → Option Nat) : Table → List Nat → List Arg → Table × Except Errno (List Nat)
  | t, taken, [] => (t, .ok taken)
  | t, taken, a :: as =>
    match handleFd d cap a with
    | none => get_args_handles d sh cap fdtable t taken as
    | some fd =>
      match mmap_create d sh t fd (handleAttr d sh a) 0 0 (handleFlags d sh a) (fdtable fd)
        a.env with
      | (t, .ok id) =>
        get_args_handles d sh cap fdtable { t with maps := update Map.id t.maps id .addDma }
          (taken ++ [id]) as
      | (t, .error e) => ({ t with maps := undo_handles t.maps taken }, .error e)

/-! ## The end of an invoke -/

def Map.dropCtx (m : Map) : Option Map :=
  mmap_free false { m with ctx_refs := if m.ctx_refs = 0 then 0 else m.ctx_refs - 1 }

/-- The map of one buffer is given back, by context_free or by put_args. -/
def release_buf (maps : List Map) : Option Nat → List Map
  | none => maps
  | some id => alter Map.id maps id Map.dropCtx

/-- The map_mutex section of context_free. -/
def context_free (maps : List Map) (bufs : List (Option Nat)) : List Map :=
  bufs.foldl release_buf maps

def Map.clearDma (m : Map) : Option Map :=
  if m.dma_handle_refs = 0 then some m else mmap_free false { m with dma_handle_refs := 0 }

/-- put_args releases the dma handle that an entry of the fd list of the DSP names. -/
def put_args_fd (maps : List Map) (fd : BitVec 64) : List Map :=
  match vfastrpc_mmap_find maps (fd.setWidth 32).toInt 0 0 0 with
  | .ok m => alter Map.id maps m.id Map.clearDma
  | .error _ => maps

/-- The loop of put_args over the fd list of the DSP. -/
def put_args_fdlist (maps : List Map) (fdlist : List (BitVec 64)) : List Map :=
  ((fdlist.take M_FDLIST).takeWhile (· ≠ 0)).foldl put_args_fd maps

/-! ## Unmapping -/

def removable (sh : AdsprpcShared) (fd : Int) (va len : BitVec 64) (m : Map) : Bool :=
  (decide (fd < 0) || m.fd == fd) && m.raddr == va && m.raddr + m.len == va + len &&
    (m.refs == 1 || (m.refs == 2 && m.keep sh)) && m.ctx_refs == 0 && m.dma_handle_refs == 0

/-- vfastrpc_mmap_remove: the map it unlinks, and the rest of the table. -/
def vfastrpc_mmap_remove (sh : AdsprpcShared) (maps : List Map) (fd : Int) (va len : BitVec 64) :
    Except Errno (Map × List Map) :=
  match maps.find? (removable sh fd va len) with
  | some m =>
    .ok (if m.keep sh then { m with refs := m.refs - 1 } else m, remove Map.id maps m.id)
  | none => .error .ETOOMANYREFS

def vfastrpc_mmap_add (maps : List Map) (m : Map) : List Map :=
  if isHeap m.flags then maps else m :: maps

def Map.unkeep (sh : AdsprpcShared) (m : Map) : Map :=
  { m with attr := m.attr &&& ~~~sh.FASTRPC_ATTR_KEEP_MAP }

/-- vfastrpc_mmap_remove_fd and hfastrpc_mmap_remove_fd: the table they leave, and whether a
map was still in use. -/
def mmap_remove_fd (sh : AdsprpcShared) (maps : List Map) (fd : Int) : List Map × Option Errno :=
  (maps.filterMap (fun m =>
      if m.fd = fd ∧ m.keep sh then mmap_free false (m.unkeep sh) else some m),
    if maps.any (fun m => decide (m.fd = fd) && m.keep sh &&
      (decide (1 < m.refs) || m.ctx_refs != 0)) then some .ETOOMANYREFS else none)

/-! ## The end of a session -/

/-- The loop of hfastrpc_file_free and vfastrpc_file_free over the maps, with a bound on its
turns. -/
def file_free_maps : Nat → List Map → Option (List Map)
  | 0, _ => none
  | _ + 1, [] => some []
  | fuel + 1, m :: maps =>
    file_free_maps fuel (alter Map.id (m :: maps) m.id (mmap_free true))

/-! ## What the functions can do -/

theorem mmap_free_cases (m : Map) :
    ((isHeap m.flags = true ∨ m.refs ≤ 0 ∨ m.ctx_refs < 0 ∨ m.dma_handle_refs < 0) ∧
      mmap_free false m = some m) ∨
    (isHeap m.flags = false ∧ 0 < m.refs ∧ 0 ≤ m.ctx_refs ∧ 0 ≤ m.dma_handle_refs ∧
      mmap_free false m = if m.refs = 1 ∧ m.ctx_refs = 0 ∧ m.dma_handle_refs = 0 then none
        else some { m with refs := m.refs - 1 }) := by
  unfold mmap_free
  by_cases hh : isHeap m.flags = true
  · rw [if_pos hh]
    exact Or.inl ⟨Or.inl hh, rfl⟩
  rw [if_neg hh]
  by_cases ha : m.refs ≤ 0 ∨ m.ctx_refs < 0 ∨ m.dma_handle_refs < 0
  · rw [if_pos ha]
    exact Or.inl ⟨Or.inr ha, rfl⟩
  rw [if_neg ha]
  refine Or.inr ⟨by simpa using hh, by omega, by omega, by omega, ?_⟩
  simp only [Bool.false_eq_true, if_false]
  have hiff : (m.refs - 1 = 0 ∧ m.ctx_refs = 0 ∧ m.dma_handle_refs = 0) ↔
      (m.refs = 1 ∧ m.ctx_refs = 0 ∧ m.dma_handle_refs = 0) := by omega
  simp only [hiff]

/-- What is left of a map is the same map, with the same contexts on it. -/
theorem mmap_free_some {m m' : Map} (h : mmap_free false m = some m') :
    m'.id = m.id ∧ m'.ctx_refs = m.ctx_refs ∧ m'.fd = m.fd ∧ m'.buf = m.buf := by
  rcases mmap_free_cases m with ⟨_, he⟩ | ⟨_, _, _, _, he⟩
  · rw [he] at h
    cases h
    exact ⟨rfl, rfl, rfl, rfl⟩
  · rw [he] at h
    split at h
    · cases h
    · cases h
      exact ⟨rfl, rfl, rfl, rfl⟩

/-- A map is released only when no context is on it. -/
theorem mmap_free_none {m : Map} (h : mmap_free false m = none) :
    m.refs = 1 ∧ m.ctx_refs = 0 ∧ m.dma_handle_refs = 0 := by
  rcases mmap_free_cases m with ⟨_, he⟩ | ⟨_, _, _, _, he⟩
  · rw [he] at h
    cases h
  · rw [he] at h
    split at h
    · rename_i hz
      exact hz
    · cases h

theorem find_ok {maps : List Map} {fd : Int} {va len : BitVec 64} {mflags : BitVec 32} {m : Map}
    (h : vfastrpc_mmap_find maps fd va len mflags = .ok m) : m ∈ maps ∧ m.fd = fd := by
  unfold vfastrpc_mmap_find at h
  split at h
  · cases h
  split at h
  · cases h
  split at h
  · rename_i x hx
    cases h
    have hmatch := List.find?_some hx
    unfold findMatch at hmatch
    simp only [Bool.and_eq_true, beq_iff_eq] at hmatch
    exact ⟨List.mem_of_find?_eq_some hx, hmatch.2⟩
  · cases h

theorem find_ref_ok {maps maps' : List Map} {fd : Int} {va len : BitVec 64} {mflags : BitVec 32}
    {id : Nat} (h : vfastrpc_mmap_find_ref maps fd va len mflags = .ok (id, maps')) :
    ∃ m ∈ maps, m.fd = fd ∧ m.id = id ∧ maps' = update Map.id maps m.id .addRef := by
  unfold vfastrpc_mmap_find_ref at h
  split at h
  · rename_i m hm
    obtain ⟨hmem, hfd⟩ := find_ok hm
    split at h
    · cases h
    · cases h
      exact ⟨m, hmem, hfd, rfl, rfl⟩
  · cases h

/-- What vfastrpc_mmap_create can do: it finds a map and takes a reference, or it adds a new
map, or it fails and leaves the maps as they are. -/
theorem create_cases (d : Driver) (sh : AdsprpcShared) (t : Table) (fd : Int)
    (attr : BitVec 32) (va len : BitVec 64) (mflags : BitVec 32) (buf : Option Nat)
    (env : CreateEnv) :
    (∃ m ∈ t.maps, m.fd = fd ∧ mmap_create d sh t fd attr va len mflags buf env =
      ({ t with maps := update Map.id t.maps m.id .addRef }, .ok m.id)) ∨
    (∃ b, buf = some b ∧ isHeap mflags = false ∧
      mmap_create d sh t fd attr va len mflags buf env =
        (⟨newMap sh t.next fd attr va len mflags b :: t.maps, t.next + 1⟩, .ok t.next)) ∨
    (∃ n e, t.next ≤ n ∧ mmap_create d sh t fd attr va len mflags buf env =
      ({ t with next := n }, .error e)) := by
  have hfail : ∀ n, t.next ≤ n → ∀ e : Errno, ∃ n' e', t.next ≤ n' ∧
      (({ t with next := n }, .error e) : Table × Except Errno Nat) =
        ({ t with next := n' }, .error e') := by
    intro n hn e
    exact ⟨n, e, hn, rfl⟩
  unfold mmap_create
  split
  · rename_i id maps hfound
    obtain ⟨m, hm, hfd, rfl, rfl⟩ := find_ref_ok hfound
    exact Or.inl ⟨m, hm, hfd, rfl⟩
  split
  · exact Or.inr (Or.inr (hfail t.next (Nat.le_refl _) _))
  dsimp only
  split
  · exact Or.inr (Or.inr (hfail _ (Nat.le_succ _) _))
  rename_i hheap
  split
  · exact Or.inr (Or.inr (hfail _ (Nat.le_succ _) _))
  · rename_i b
    split
    · exact Or.inr (Or.inr (hfail _ (Nat.le_succ _) _))
    split
    · exact Or.inr (Or.inr (hfail _ (Nat.le_succ _) _))
    split
    · exact Or.inr (Or.inr (hfail _ (Nat.le_succ _) _))
    · exact Or.inr (Or.inl ⟨b, rfl, by simpa using hheap, rfl⟩)

/-- A map that vfastrpc_mmap_create returns is the one that it finds, or, when it finds none with
room for a reference, a new one. -/
theorem create_ok {d : Driver} {sh : AdsprpcShared} {t t' : Table} {fd : Int} {attr : BitVec 32}
    {va len : BitVec 64} {mflags : BitVec 32} {buf : Option Nat} {env : CreateEnv} {id : Nat}
    (h : mmap_create d sh t fd attr va len mflags buf env = (t', .ok id)) :
    (∃ m, vfastrpc_mmap_find t.maps fd va len mflags = .ok m ∧ m.refs + 1 ≠ INT_MAX ∧ id = m.id ∧
      t' = { t with maps := update Map.id t.maps m.id .addRef }) ∨
    ((∀ m, vfastrpc_mmap_find t.maps fd va len mflags = .ok m → m.refs + 1 = INT_MAX) ∧
      isHeap mflags = false ∧ id = t.next ∧ ∃ b, buf = some b ∧
        t' = ⟨newMap sh t.next fd attr va len mflags b :: t.maps, t.next + 1⟩) := by
  unfold mmap_create at h
  split at h
  · rename_i id₁ maps₁ hfound
    cases h
    unfold vfastrpc_mmap_find_ref at hfound
    split at hfound
    · rename_i m hm
      split at hfound
      · cases hfound
      · rename_i hne
        cases hfound
        exact Or.inl ⟨m, hm, hne, rfl, rfl⟩
    · cases hfound
  rename_i e hnone
  refine Or.inr ⟨?_, ?_⟩
  · intro m hm
    by_contra hne
    unfold vfastrpc_mmap_find_ref at hnone
    rw [hm] at hnone
    dsimp only at hnone
    rw [if_neg hne] at hnone
    cases hnone
  split at h
  · cases h
  dsimp only at h
  split at h
  · cases h
  rename_i hheap
  split at h
  · cases h
  rename_i b
  split at h
  · cases h
  split at h
  · cases h
  split at h
  · cases h
  · cases h
    exact ⟨by simpa using hheap, rfl, b, rfl, rfl⟩

/-! ## What the loops keep -/

theorem undo_handles_keeps {Q : List Map → Prop}
    (hone : ∀ maps id, Q maps → Q (alter Map.id maps id Map.dropDma)) {maps : List Map}
    (h : Q maps) (taken : List Nat) : Q (undo_handles maps taken) := by
  induction taken generalizing maps with
  | nil => exact h
  | cons id taken ih => exact ih (hone maps id h)

theorem put_args_fdlist_keeps {Q : List Map → Prop}
    (hone : ∀ maps id, Q maps → Q (alter Map.id maps id Map.clearDma)) {maps : List Map}
    (h : Q maps) (fdlist : List (BitVec 64)) : Q (put_args_fdlist maps fdlist) := by
  unfold put_args_fdlist
  induction (fdlist.take M_FDLIST).takeWhile (· ≠ 0) generalizing maps with
  | nil => exact h
  | cons fd fds ih =>
    apply ih
    unfold put_args_fd
    split
    · rename_i m _
      exact hone maps m.id h
    · exact h

/-- A property of the table that a new handle, a failure to make one and its undo keep is one
that the loop over the handles keeps. -/
theorem get_args_handles_keeps {Q : Table → Prop} (d : Driver) (sh : AdsprpcShared)
    (fdtable : Int → Option Nat)
    (hok : ∀ t fd attr flags env t' id, Q t →
      mmap_create d sh t fd attr 0 0 flags (fdtable fd) env = (t', .ok id) →
      Q { t' with maps := update Map.id t'.maps id .addDma })
    (herr : ∀ t fd attr flags env t' e, Q t →
      mmap_create d sh t fd attr 0 0 flags (fdtable fd) env = (t', .error e) → Q t')
    (hundo : ∀ (t : Table) (id : Nat), Q t →
      Q { t with maps := alter Map.id t.maps id Map.dropDma })
    {t : Table} (h : Q t) (cap : Bool) (taken : List Nat) (as : List Arg) :
    Q (get_args_handles d sh cap fdtable t taken as).1 := by
  induction as generalizing t taken with
  | nil => exact h
  | cons a as ih =>
    unfold get_args_handles
    split
    · exact ih h taken
    · split
      · rename_i t' id he
        exact ih (hok t _ _ _ _ t' id h he) (taken ++ [id])
      · rename_i t' e he
        exact undo_handles_keeps (Q := fun maps => Q { t' with maps })
          (fun maps id hq => hundo { t' with maps } id hq) (herr t _ _ _ _ t' e h he) taken

end virtual_fastrpc.map_table
