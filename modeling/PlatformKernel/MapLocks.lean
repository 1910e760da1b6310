-- The mutexes of the memory requests of both drivers. Each of the ten handlers
-- takes `internal_map_mutex` for all of its work and `map_mutex` for the table
-- of the maps, and lets go of the second while a remote operation runs.
import PlatformKernel.HybridHandlers

namespace virtual_fastrpc.map_locks

open virtual_fastrpc.sessions virtual_fastrpc.hybrid_handlers locks

/-! ## The handlers of the virtio driver -/

-- A remote operation is a message and its reply. It takes no mutex, so it is here only what
-- it returns.

variable (f : File)

def vfastrpc_internal_mmap (u : MmapEnv Bool) : List Event :=
  mem_handler f [] (match u with
    | .add_pages _ _ _ => []
    | .map mmap_create ok =>
      map_section [] ++
        if mmap_create = false then [] else if ok then [] else map_section [])

/-- The address is of a buffer of the driver, of no map, or of a map. -/
inductive VirtioMunmapEnv
  | buffer (ok : Bool)
  | not_found
  | map (ok : Bool)
  deriving DecidableEq, Repr

def vfastrpc_internal_munmap (u : VirtioMunmapEnv) : List Event :=
  mem_handler f [] (match u with
    | .buffer _ => []
    | .not_found => map_section []
    -- the map is freed, or put back when the message fails
    | .map _ => map_section [] ++ map_section [])

/-- An interrupted message goes on where it was, after the maps were removed. -/
def vfastrpc_internal_munmap_fd (interrupted : Bool) : List Event :=
  mem_handler f [] (if interrupted then [] else map_section [])

def vfastrpc_internal_mem_map (u : MemMapEnv Bool) : List Event :=
  mem_handler f [] (map_section [] ++ match u with
    | .create_failed => []
    | .mapped_before => map_section []
    | .created ok => if ok then [] else map_section [])

def vfastrpc_internal_mem_unmap (u : MemUnmapEnv Bool) : List Event :=
  mem_handler f [] (map_section [] ++ match u with
    | .not_found => []
    | .bad_flags => map_section []
    -- the map is freed, or put back when the message fails
    | .map _ => map_section [])

inductive VirtioMemReq
  | mmap (u : MmapEnv Bool)
  | munmap (u : VirtioMunmapEnv)
  | munmap_fd (interrupted : Bool)
  | mem_map (u : MemMapEnv Bool)
  | mem_unmap (u : MemUnmapEnv Bool)
  deriving DecidableEq, Repr

def virtio_mem_request : VirtioMemReq → List Event
  | .mmap u => vfastrpc_internal_mmap f u
  | .munmap u => vfastrpc_internal_munmap f u
  | .munmap_fd interrupted => vfastrpc_internal_munmap_fd f interrupted
  | .mem_map u => vfastrpc_internal_mem_map f u
  | .mem_unmap u => vfastrpc_internal_mem_unmap f u

/-! ## The law and its condition -/

/-- A memory request of one of the drivers. -/
inductive MapCall
  | hybrid (q : MemReq)
  | virtio (q : VirtioMemReq)
  deriving DecidableEq, Repr

def trace (c : Config) (s : Apps) : MapCall → List Event
  | .hybrid q => mem_request c s f q
  | .virtio q => virtio_mem_request f q

def ops (es : List Event) : List (Op Mutex) := es.filterMap Event.op?

/-- The handler takes no mutex that it holds, releases none that it does not hold, and returns
with none. -/
def LockBalanced (es : List Event) : Prop := Neutral ∅ (ops es)

/-- The two handlers that leave by their label `bail` before they have taken anything. -/
def LeavesEarly : MapCall → Prop
  | .hybrid q => SkipsLock f q
  | .virtio _ => False

/-! ## The proof -/

variable {f}

@[simp] theorem ops_append (as bs : List Event) : ops (as ++ bs) = ops as ++ ops bs := by
  simp [ops]

@[simp] theorem ops_mutex (o : Op Mutex) (es : List Event) :
    ops (.mutex o :: es) = o :: ops es := rfl

@[simp] theorem ops_nil : ops [] = [] := rfl

theorem ops_channels {es : List Event} {c : Config}
    (h : ∀ e ∈ es, ∃ d, e = .channel d ∧ ¬ OutOfRange c d) : ops es = [] := by
  unfold ops
  rw [List.filterMap_eq_nil_iff]
  intro e he
  obtain ⟨d, rfl, _⟩ := h e he
  rfl

/-- What an invocation does with the mutexes, when `map_mutex` is free. -/
theorem plain_neutral {c : Config} {es : List Event} {held : Finset Mutex} (h : Plain c es)
    (hm : .map_mutex ∉ held) : Neutral held (ops es) := by
  induction h with
  | nil => exact .nil
  | channel _ => exact .nil
  | map_section hes =>
    simp only [map_section, ops_mutex, ops_append, ops_nil, ops_channels hes]
    exact .pair hm
  | append _ _ ha hb =>
    rw [ops_append]
    exact ha.append hb

theorem Guarded.balanced {c : Config} {es : List Event} (h : Guarded c es) : LockBalanced es := by
  rcases h with rfl | ⟨body, hbody, rfl⟩
  · exact Neutral.nil
  · have hin := @plain_neutral c body {.internal_map_mutex} hbody (by decide)
    unfold LockBalanced
    simp only [ops_mutex, ops_append, ops_nil]
    apply Neutral.around (by decide)
    exact hin

/-- The handlers of the virtio driver return before they take anything, or have all of their
trace under `internal_map_mutex`. -/
theorem virtio_mem_request_guarded (c : Config) (q : VirtioMemReq) :
    Guarded c (virtio_mem_request f q) := by
  have hsec := @Plain.empty_section c
  cases q with
  | mmap u =>
    apply mem_handler_guarded
    cases u with
    | add_pages vaddrin buf_alloc ok => exact .nil
    | map mmap_create ok =>
      apply Plain.append hsec
      split
      · exact .nil
      · split
        · exact .nil
        · exact hsec
  | munmap u =>
    apply mem_handler_guarded
    cases u with
    | buffer ok => exact .nil
    | not_found => exact hsec
    | map ok => exact hsec.append hsec
  | munmap_fd interrupted =>
    apply mem_handler_guarded
    split
    · exact .nil
    · exact hsec
  | mem_map u =>
    apply mem_handler_guarded
    apply Plain.append hsec
    cases u with
    | create_failed => exact .nil
    | mapped_before => exact hsec
    | created ok =>
      dsimp only
      split
      · exact .nil
      · exact hsec
  | mem_unmap u =>
    apply mem_handler_guarded
    apply Plain.append hsec
    cases u with
    | not_found => exact .nil
    | bad_flags => exact hsec
    | map ok => exact hsec

/-! ## The law -/

/-- For every session, every memory request of either driver and every outcome of its remote
operations, the mutexes are balanced, but for a request of the hybrid driver to map or unmap
memory on a session that is not initialised. -/
theorem memory_requests_are_balanced_iff (c : Config) (s : Apps) (f : File) (q : MapCall) :
    LockBalanced (trace f c s q) ↔ ¬ LeavesEarly f q := by
  cases q with
  | hybrid q =>
    simp only [trace, LeavesEarly]
    rcases @mem_request_cases c s f q with ⟨hskip, ht⟩ | ⟨hskip, hg⟩
    · rw [ht]
      simp only [hskip, not_true_eq_false, iff_false]
      exact not_neutral_unlock (by decide)
    · simp only [hskip, not_false_eq_true, iff_true]
      exact Guarded.balanced hg
  | virtio q =>
    simp only [trace, LeavesEarly, not_false_eq_true, iff_true]
    exact Guarded.balanced (virtio_mem_request_guarded c q)

/-- A request to map memory on a new session of the hybrid driver releases a mutex that
nothing has taken, and so does one to unmap it. -/
theorem a_new_session_releases_a_free_mutex :
    let c := sampleConfig .hybrid
    let f := file_alloc 1 .MINOR_NUM_DEV 50
    ¬ LockBalanced (trace f c (init c) (.hybrid (.mem_map .create_failed))) ∧
      ¬ LockBalanced (trace f c (init c) (.hybrid (.mem_unmap .not_found))) := by
  intro c f
  exact ⟨not_neutral_unlock (by decide), not_neutral_unlock (by decide)⟩

end virtual_fastrpc.map_locks
