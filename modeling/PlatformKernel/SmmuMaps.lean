-- The memory of the hybrid driver that the backend maps for the DSP: the pages
-- of the buffers and the dma-bufs of the maps. The backend gives a device
-- address for it and takes the address back; the free routines of the driver
-- ask for the latter, and release the memory whatever the answer is.
import PlatformKernel.Buffers
import PlatformKernel.MapTable
import PlatformKernel.Lib.Runs

namespace virtual_fastrpc.smmu_maps

open virtual_fastrpc.buffers virtual_fastrpc.map_table keyed step_runs

def MAX_CACHE_BUF_SIZE : Nat := 8 * 1024 * 1024
def MAX_CACHED_BUFS : Nat := 32
def ENOMEM : Int := 12
def EFAULT : Int := 14
def ESHUTDOWN : Int := 108

/-! ## The session -/

/-- What the driver holds for the DSP: a map, on the list of the maps or taken off it, or a
buffer with its type, which has none while it is in the cache. -/
inductive Kind
  | map (m : Map) (listed : Bool)
  | buf (b : Buf) (type : Option BufType)
  deriving DecidableEq, Repr

structure Obj where
  id : Nat
  /-- The device address, or 0. -/
  da : Nat
  kind : Kind
  deriving DecidableEq, Repr

/-- For the laws: the device addresses that virt_smmu_map has given, those that the backend has
taken back with result 0, the memory that was released, and the start of the exit. -/
inductive Event
  | given (id da : Nat)
  | unmapped (da : Nat)
  | released (id : Nat)
  | exit_start
  deriving DecidableEq, Repr

structure Session where
  objs : List Obj
  next : Nat
  /-- The flags `pers_hdr_in_use` of the persistent headers. -/
  hdr_bufs : List Bool
  /-- Whether `file_close` has come to FASTRPC_PROCESS_EXIT_START. -/
  file_close : Bool
  /-- Newest first. -/
  log : List Event
  deriving DecidableEq, Repr

def Session.init :
    Session := { objs := [], next := 0, hdr_bufs := [], file_close := false, log := [] }

def Session.note (s : Session) (e : Event) : Session := { s with log := e :: s.log }

def listedMap (o : Obj) : Option Map :=
  match o.kind with
  | .map m true => some m
  | _ => none

def cachedBuf (o : Obj) : Option Buf :=
  match o.kind with
  | .buf b none => some b
  | _ => none

/-- `fl->maps` and `fl->cached_bufs`. -/
def Session.maps (s : Session) : List Map := s.objs.filterMap listedMap

def Session.cached_bufs (s : Session) : List Buf := s.objs.filterMap cachedBuf

/-! ## The messages -/

/-- What comes of a message to the backend: there is no memory for it, which is also a full
message table and the lack of a tx buffer; it cannot be sent; its completion comes without a
response; or the backend answers. -/
inductive Reply (α : Type)
  | no_memory
  | send_error (err : Int)
  | no_response
  | answered (result : Int) (body : α)
  deriving DecidableEq, Repr

/-- virt_smmu_map: the error, or the device address. Without a response it returns no error and
no address either. -/
def virt_smmu_map : Reply Nat → Except Int Nat
  | .no_memory => .error (-ENOMEM)
  | .send_error err => .error err
  | .no_response => .ok 0
  | .answered result da =>
    if result ≠ 0 then .error result else if da = 0 then .error (-EFAULT) else .ok da

/-- virt_smmu_unmap, with the error that it returns. -/
def virt_smmu_unmap (s : Session) (da : Nat) (r : Reply Unit) : Session × Int :=
  if s.file_close then (s, -ESHUTDOWN)
  else
    match r with
    | .no_memory => (s, -ENOMEM)
    | .send_error err => (s, err)
    | .no_response => (s, 0)
    | .answered result _ => (if result = 0 then s.note (.unmapped da) else s, result)

/-- Both free routines end so: the SMMU mapping is undone when there is one, without a look at
the error, and the memory goes. -/
def release (s : Session) (o : Obj) (r : Reply Unit) : Session :=
  let s := if o.da ≠ 0 then (virt_smmu_unmap s o.da r).1 else s
  { s.note (.released o.id) with objs := remove Obj.id s.objs o.id }

/-! ## Maps -/

/-- hfastrpc_mmap_free of the map `m`, the object `o`. -/
def hfastrpc_mmap_free (s : Session) (o : Obj) (m : Map) (listed force_free : Bool)
    (r : Reply Unit) : Session :=
  match mmap_free force_free m with
  | some m' =>
    { s with objs := update Obj.id s.objs o.id fun o => { o with kind := .map m' listed } }
  | none => release s o r

/-- What hfastrpc_mmap_create does when the map it looks for is not on the list. A map that
fails on the way has no device address; hfastrpc_mmap_free takes its references, and it comes
on no list. -/
def mmap_create_new (sh : AdsprpcShared) (s : Session) (fd : Int) (attr : BitVec 32)
    (va len : BitVec 64) (mflags : BitVec 32) (buf : Option Nat) (env : CreateEnv)
    (r : Reply Nat) : Session :=
  if !env.kzalloc then s
  else
    match buf with
    | none => { s with next := s.next + 1 }
    | some b =>
      if isHeap mflags ∨ !env.dma_buf_attach ∨ !env.dma_buf_map_attachment then
        { s with next := s.next + 1 }
      else
        match virt_smmu_map r with
        | .error _ => { s with next := s.next + 1 }
        | .ok da =>
          let o := ⟨s.next, da, .map (newMap sh s.next fd attr va len mflags b) true⟩
          { s with
            objs := o :: s.objs, next := s.next + 1,
            log := if da ≠ 0 then .given s.next da :: s.log else s.log }

def hfastrpc_mmap_create (sh : AdsprpcShared) (s : Session) (fd : Int) (attr : BitVec 32)
    (va len : BitVec 64) (mflags : BitVec 32) (buf : Option Nat) (env : CreateEnv)
    (r : Reply Nat) : Session :=
  match vfastrpc_mmap_find_ref s.maps fd va len mflags with
  | .ok (id, _) =>
    { s with objs := update Obj.id s.objs id fun o =>
        match o.kind with
        | .map m listed => { o with kind := .map m.addRef listed }
        | .buf _ _ => o }
  | .error _ => mmap_create_new sh s fd attr va len mflags buf env r

/-- What the callers do to the counters and the attributes of a map before they free it. -/
inductive RefChange
  | ctx_get | ctx_put | dma_get | dma_put | dma_clear | unkeep
  deriving DecidableEq, Repr

def RefChange.apply (sh : AdsprpcShared) (m : Map) : RefChange → Map
  | .ctx_get => m.addCtx
  | .ctx_put => if m.ctx_refs ≠ 0 then { m with ctx_refs := m.ctx_refs - 1 } else m
  | .dma_get => m.addDma
  | .dma_put =>
    if m.dma_handle_refs ≠ 0 then { m with dma_handle_refs := m.dma_handle_refs - 1 } else m
  | .dma_clear => { m with dma_handle_refs := 0 }
  | .unkeep => m.unkeep sh

/-! ## Buffers -/

/-- The first persistent header that is not in use is taken. -/
def take_pers_hdr : List Bool → Option (List Bool)
  | [] => none
  | false :: hdrs => some (true :: hdrs)
  | true :: hdrs => (take_pers_hdr hdrs).map (true :: ·)

def get_persistent_buf (s : Session) (size : Nat) (ty : BufType) : Option Session :=
  if ty ≠ .METADATA ∨ PAGE_SIZE < size then none
  else (take_pers_hdr s.hdr_bufs).map fun hdr_bufs => { s with hdr_bufs }

/-- The buffer of the cache that hfastrpc_get_cached_buf takes. -/
def get_cached_buf (s : Session) (size : Nat) (ty : BufType) : Option Obj :=
  if ty = .USERHEAP then none
  else (smallest size s.cached_bufs).bind fun b => s.objs.find? fun o => cachedBuf o == some b

/-- A new buffer. Where its pages or its device address fail, hfastrpc_buf_free takes it back,
and it has no device address then. -/
def buf_alloc_new (s : Session) (size : Nat) (ty : BufType) (kzalloc : Bool) (pages : Option Nat)
    (r : Reply Nat) : Session :=
  if !kzalloc then s
  else
    match pages with
    | none => { s with next := s.next + 1 }
    | some va =>
      match virt_smmu_map r with
      | .error _ => { s with next := s.next + 1 }
      | .ok da =>
        let b : Buf := ⟨va, if ty = .USERHEAP then size else PAGE_ALIGN size⟩
        { s with
          objs := ⟨s.next, da, .buf b (some ty)⟩ :: s.objs, next := s.next + 1,
          log := if da ≠ 0 then .given s.next da :: s.log else s.log }

def hfastrpc_buf_alloc (s : Session) (size : Nat) (ty : BufType)
    (kzalloc : Bool) (pages : Option Nat) (r : Reply Nat) : Session :=
  if size = 0 ∨ MAX_BUF_SIZE ≤ size then s
  else
    match get_persistent_buf s size ty with
    | some s' => s'
    | none =>
      match get_cached_buf s size ty with
      | some o =>
        { s with objs := update Obj.id s.objs o.id fun o =>
            match o.kind with
            | .buf b _ => { o with kind := .buf b (some ty) }
            | .map _ _ => o }
      | none => buf_alloc_new s size ty kzalloc pages r

/-- hfastrpc_buf_free of a buffer that is no persistent header. -/
def hfastrpc_buf_free (s : Session) (o : Obj) (b : Buf) (cache : Bool) (r : Reply Unit) : Session :=
  if cache ∧ b.size < MAX_CACHE_BUF_SIZE ∧ s.cached_bufs.length ≤ MAX_CACHED_BUFS then
    { s with objs := { o with kind := .buf b none } :: remove Obj.id s.objs o.id }
  else release s o r

/-! ## Runs -/

inductive Act
  | map_create (fd : Int) (attr : BitVec 32) (va len : BitVec 64) (mflags : BitVec 32)
      (buf : Option Nat) (env : CreateEnv) (r : Reply Nat)
  | map_ref (id : Nat) (c : RefChange)
  | map_free (id : Nat) (force_free : Bool) (r : Reply Unit)
  /-- vfastrpc_mmap_remove, which also takes the reference of a kept map. -/
  | map_remove (fd : Int) (va len : BitVec 64)
  /-- vfastrpc_mmap_add for a map that was taken off the list. -/
  | map_add (id : Nat)
  | buf_alloc (size : Nat) (ty : BufType) (kzalloc : Bool) (pages : Option Nat) (r : Reply Nat)
  | buf_free (id : Nat) (cache : Bool) (r : Reply Unit)
  /-- The persistent headers are cut from a buffer, and one of them is given back. -/
  | create_persistent_headers (n : Nat)
  | hdr_free (i : Nat)
  /-- hfastrpc_file_free begins, and frees the buffers of the cache. -/
  | exit_start
  | cached_free (id : Nat) (r : Reply Unit)
  deriving Repr

variable (sh : AdsprpcShared)

/-- A call with the map `id`, or with the buffer `id` that is in use. -/
def onMap (s : Session) (id : Nat) (f : Obj → Map → Bool → Session) : Option Session :=
  (lookup Obj.id s.objs id).bind fun o =>
    match o.kind with
    | .map m listed => some (f o m listed)
    | .buf _ _ => none

def onBuf (s : Session) (id : Nat) (f : Obj → Buf → Option BufType → Option Session) :
    Option Session :=
  (lookup Obj.id s.objs id).bind fun o =>
    match o.kind with
    | .buf b ty => f o b ty
    | .map _ _ => none

/-- The calls of the driver, with what the kernel and the backend do for them. Every caller of
the free routines holds what it frees, so any order of calls on live memory is a run. -/
def step (s : Session) : Act → Option Session
  | .map_create fd attr va len mflags buf env r =>
    some (hfastrpc_mmap_create sh s fd attr va len mflags buf env r)
  | .map_ref id c => onMap s id fun o m listed =>
    { s with objs := update Obj.id s.objs o.id fun o =>
      { o with kind := .map (c.apply sh m) listed } }
  | .map_free id force_free r => onMap s id fun o m listed =>
    hfastrpc_mmap_free s o m listed force_free r
  | .map_remove fd va len =>
    match vfastrpc_mmap_remove sh s.maps fd va len with
    | .ok (m, _) =>
      some { s with objs := update Obj.id s.objs m.id fun o => { o with kind := .map m false } }
    | .error _ => some s
  | .map_add id => onMap s id fun o m listed =>
    if listed then s
    else { s with objs := { o with kind := .map m true } :: remove Obj.id s.objs o.id }
  | .buf_alloc size ty kzalloc pages r => some (hfastrpc_buf_alloc s size ty kzalloc pages r)
  | .buf_free id cache r => onBuf s id fun o b ty =>
    if ty ≠ none then some (hfastrpc_buf_free s o b cache r) else none
  | .create_persistent_headers n =>
    if s.hdr_bufs = [] then some { s with hdr_bufs := List.replicate n false } else none
  | .hdr_free i => some { s with hdr_bufs := s.hdr_bufs.set i false }
  | .exit_start => some { s.note .exit_start with file_close := true }
  | .cached_free id r => onBuf s id fun o b ty =>
    if s.file_close ∧ ty = none then some (hfastrpc_buf_free s o b false r) else none

/-! ## The law -/

/-- Since the device address was given for the memory, the backend has taken it back. -/
def UnmappedSince (id da : Nat) (log : List Event) : Prop :=
  ∃ newer older, log = newer ++ .given id da :: older ∧ .unmapped da ∈ newer

/-- Memory with a device address is released only after the backend has taken the address back,
or after the exit has started. -/
def ReleasedLate : List Event → Prop
  | [] => True
  | .released id :: log =>
    (∀ da, .given id da ∈ log → .exit_start ∈ log ∨ UnmappedSince id da log) ∧ ReleasedLate log
  | _ :: log => ReleasedLate log

/-- Whether the free routine comes to the release. -/
def frees (s : Session) (o : Obj) : Act → Bool
  | .map_free _ force_free _ =>
    match o.kind with
    | .map m _ => (mmap_free force_free m).isNone
    | .buf _ _ => false
  | .buf_free _ cache _ =>
    match o.kind with
    | .buf b _ => !(cache && decide (b.size < MAX_CACHE_BUF_SIZE) &&
        decide (s.cached_bufs.length ≤ MAX_CACHED_BUFS))
    | .map _ _ => false
  | _ => false

/-- The condition: before the exit, each SMMU_UNMAP of a free routine goes out and the backend
answers it with result 0. -/
def Unmaps (s : Session) (a : Act) : Prop :=
  match a with
  | .map_free id _ r | .buf_free id _ r => s.file_close = false →
    ∀ o, lookup Obj.id s.objs id = some o → o.da ≠ 0 → frees s o a = true → r = .answered 0 ()
  | _ => True

/-! ## What every run keeps -/

/-- The memory `id` is live and has the device address `da`, or none when it is 0. -/
def Has (s : Session) (id da : Nat) : Prop := ∃ o ∈ s.objs, o.id = id ∧ o.da = da

structure Kept (s : Session) : Prop where
  unique : Unique Obj.id s.objs
  below : ∀ id da, Has s id da → id < s.next
  given : ∀ id da, .given id da ∈ s.log → id < s.next ∧ da ≠ 0 ∧
    (Has s id da ∨ .released id ∈ s.log)
  released : ∀ id, .released id ∈ s.log → id < s.next ∧ ∀ da, ¬Has s id da
  addressed : ∀ id da, Has s id da → da ≠ 0 → .given id da ∈ s.log
  exit : s.file_close = true → .exit_start ∈ s.log
  late : ReleasedLate s.log

theorem kept_init : Kept Session.init where
  unique := List.nodup_nil
  below := by rintro id da ⟨o, ho, _⟩; cases ho
  given := nofun
  released := nofun
  addressed := by rintro id da ⟨o, ho, _⟩; cases ho
  exit := nofun
  late := trivial

section kept

variable {sh : AdsprpcShared} {s t : Session} {o : Obj}

/-- A device address of live memory is the only one it was given. -/
theorem Kept.given_eq (h : Kept s) (ho : o ∈ s.objs) {da : Nat} (hg : .given o.id da ∈ s.log) :
    da = o.da := by
  obtain ⟨_, _, ⟨o', ho', hid, hda⟩ | hrel⟩ := h.given _ _ hg
  · rw [← hda, h.unique.eq ho' ho hid]
  · exact absurd ⟨o, ho, rfl, rfl⟩ ((h.released _ hrel).2 o.da)

/-- A step that keeps the live memory and its device addresses. -/
theorem Kept.same (h : Kept s) (hu : Unique Obj.id t.objs)
    (hhas : ∀ id da, Has t id da ↔ Has s id da) (hnext : s.next ≤ t.next) (hlog : t.log = s.log)
    (hclose : t.file_close = s.file_close) : Kept t := by
  refine ⟨hu, ?_, ?_, ?_, ?_, ?_, ?_⟩
  · intro id da hd
    exact Nat.lt_of_lt_of_le (h.below id da ((hhas id da).mp hd)) hnext
  · intro id da hg
    rw [hlog] at hg ⊢
    obtain ⟨hlt, h0, hlive⟩ := h.given id da hg
    exact ⟨Nat.lt_of_lt_of_le hlt hnext, h0, hlive.imp (hhas id da).mpr (fun hr => hr)⟩
  · intro id hr
    rw [hlog] at hr
    obtain ⟨hlt, hno⟩ := h.released id hr
    exact ⟨Nat.lt_of_lt_of_le hlt hnext, fun da hd => hno da ((hhas id da).mp hd)⟩
  · intro id da hd h0
    rw [hlog]
    exact h.addressed id da ((hhas id da).mp hd) h0
  · rw [hclose, hlog]
    exact h.exit
  · rw [hlog]
    exact h.late

/-- A change of one object that keeps its number and its device address. -/
theorem Kept.update (h : Kept s) (id : Nat) {f : Obj → Obj} (hf : ∀ o, (f o).id = o.id)
    (hda : ∀ o, (f o).da = o.da) : Kept { s with objs := update Obj.id s.objs id f } := by
  refine h.same (h.unique.update hf) (fun k da => ?_) (Nat.le_refl _) rfl rfl
  constructor
  · rintro ⟨o, ho, hid, hd⟩
    rcases mem_update.mp ho with ⟨ho, _⟩ | ⟨o', ho', _, rfl⟩
    · exact ⟨o, ho, hid, hd⟩
    · exact ⟨o', ho', (hf o').symm.trans hid, (hda o').symm.trans hd⟩
  · rintro ⟨o, ho, hid, hd⟩
    by_cases hk : o.id = id
    · exact ⟨f o, mem_update.mpr (Or.inr ⟨o, ho, hk, rfl⟩), (hf o).trans hid, (hda o).trans hd⟩
    · exact ⟨o, mem_update.mpr (Or.inl ⟨ho, hk⟩), hid, hd⟩

/-- An object comes to the front of its list. -/
theorem Kept.front (h : Kept s) (ho : o ∈ s.objs) (kind : Kind) :
    Kept { s with objs := { o with kind } :: remove Obj.id s.objs o.id } := by
  refine h.same ?_ (fun k da => ?_) (Nat.le_refl _) rfl rfl
  · exact h.unique.remove.cons (fun o' ho' => (mem_remove.mp ho').2)
  · constructor
    · rintro ⟨o', ho', hid, hd⟩
      rcases List.mem_cons.mp ho' with rfl | ho'
      · exact ⟨o, ho, hid, hd⟩
      · exact ⟨o', (mem_remove.mp ho').1, hid, hd⟩
    · rintro ⟨o', ho', hid, hd⟩
      by_cases hk : o'.id = o.id
      · cases h.unique.eq ho' ho hk
        exact ⟨_, List.mem_cons_self, hid, hd⟩
      · exact ⟨o', List.mem_cons_of_mem _ (mem_remove.mpr ⟨ho', hk⟩), hid, hd⟩

/-- New memory with what virt_smmu_map gave for it. -/
theorem Kept.add (h : Kept s) (da : Nat) (kind : Kind) :
    Kept { s with
      objs := ⟨s.next, da, kind⟩ :: s.objs, next := s.next + 1,
      log := if da ≠ 0 then .given s.next da :: s.log else s.log } := by
  have hmem : ∀ e, e ∈ (if da ≠ 0 then .given s.next da :: s.log else s.log) ↔
      (da ≠ 0 ∧ e = .given s.next da) ∨ e ∈ s.log := by
    intro e
    by_cases h0 : da = 0 <;> simp [h0]
  refine ⟨?_, ?_, ?_, ?_, ?_, ?_, ?_⟩
  · apply h.unique.cons
    intro o ho
    exact Nat.ne_of_lt (h.below _ _ ⟨o, ho, rfl, rfl⟩)
  · rintro id d ⟨o, ho, rfl, rfl⟩
    show o.id < s.next + 1
    rcases List.mem_cons.mp ho with rfl | ho
    · exact Nat.lt_succ_self _
    · exact Nat.lt_succ_of_lt (h.below _ _ ⟨o, ho, rfl, rfl⟩)
  · intro id d hg
    rcases (hmem _).mp hg with ⟨h0, he⟩ | hg
    · cases he
      exact ⟨Nat.lt_succ_self _, h0, Or.inl ⟨_, List.mem_cons_self, rfl, rfl⟩⟩
    · obtain ⟨hlt, h0, hlive⟩ := h.given id d hg
      refine ⟨Nat.lt_succ_of_lt hlt, h0, hlive.imp ?_ (fun hr => (hmem _).mpr (Or.inr hr))⟩
      rintro ⟨o, ho, hid, hd⟩
      exact ⟨o, List.mem_cons_of_mem _ ho, hid, hd⟩
  · intro id hr
    rcases (hmem _).mp hr with ⟨_, he⟩ | hr
    · cases he
    · obtain ⟨hlt, hno⟩ := h.released id hr
      refine ⟨Nat.lt_succ_of_lt hlt, ?_⟩
      rintro d ⟨o, ho, hid, hd⟩
      rcases List.mem_cons.mp ho with rfl | ho
      · exact absurd hid (Nat.ne_of_gt hlt)
      · exact hno d ⟨o, ho, hid, hd⟩
  · rintro id d ⟨o, ho, rfl, rfl⟩ h0
    rcases List.mem_cons.mp ho with rfl | ho
    · exact (hmem _).mpr (Or.inl ⟨h0, rfl⟩)
    · exact (hmem _).mpr (Or.inr (h.addressed _ _ ⟨o, ho, rfl, rfl⟩ h0))
  · intro hclose
    exact (hmem _).mpr (Or.inr (h.exit hclose))
  · show ReleasedLate (if da ≠ 0 then _ else _)
    split
    · exact h.late
    · exact h.late

/-- The backend takes a device address back, or the exit starts. -/
theorem Kept.note (h : Kept s) {e : Event} (hg : ∀ id da, e ≠ .given id da)
    (hr : ∀ id, e ≠ .released id) : Kept (s.note e) := by
  refine ⟨h.unique, h.below, ?_, ?_, ?_, ?_, ?_⟩
  · intro id da hmem
    rcases List.mem_cons.mp hmem with he | hmem
    · exact absurd he.symm (hg id da)
    · obtain ⟨hlt, h0, hlive⟩ := h.given id da hmem
      exact ⟨hlt, h0, hlive.imp (fun hd => hd) (List.mem_cons_of_mem _)⟩
  · intro id hmem
    rcases List.mem_cons.mp hmem with he | hmem
    · exact absurd he.symm (hr id)
    · exact h.released id hmem
  · intro id da hd h0
    exact List.mem_cons_of_mem _ (h.addressed id da hd h0)
  · intro hclose
    exact List.mem_cons_of_mem _ (h.exit hclose)
  · cases e with
    | given id da => exact absurd rfl (hg id da)
    | unmapped da => exact h.late
    | released id => exact absurd rfl (hr id)
    | exit_start => exact h.late

/-- Memory goes for which the law lets it go. -/
theorem Kept.remove (h : Kept s) (ho : o ∈ s.objs)
    (hlate : ∀ da, .given o.id da ∈ s.log → .exit_start ∈ s.log ∨ UnmappedSince o.id da s.log) :
    Kept { s.note (.released o.id) with objs := remove Obj.id s.objs o.id } := by
  refine ⟨h.unique.remove, ?_, ?_, ?_, ?_, ?_, hlate, h.late⟩
  · rintro id da ⟨o', ho', hid, hd⟩
    exact h.below id da ⟨o', (mem_remove.mp ho').1, hid, hd⟩
  · intro id da hmem
    rcases List.mem_cons.mp hmem with he | hmem
    · cases he
    · obtain ⟨hlt, h0, hlive⟩ := h.given id da hmem
      refine ⟨hlt, h0, ?_⟩
      rcases hlive with ⟨o', ho', hid, hd⟩ | hrel
      · by_cases hk : o'.id = o.id
        · exact Or.inr (by rw [← hid, hk]; exact List.mem_cons_self)
        · exact Or.inl ⟨o', mem_remove.mpr ⟨ho', hk⟩, hid, hd⟩
      · exact Or.inr (List.mem_cons_of_mem _ hrel)
  · intro id hmem
    rcases List.mem_cons.mp hmem with he | hmem
    · cases he
      refine ⟨h.below _ _ ⟨o, ho, rfl, rfl⟩, ?_⟩
      rintro da ⟨o', ho', hid, _⟩
      exact (mem_remove.mp ho').2 hid
    · obtain ⟨hlt, hno⟩ := h.released id hmem
      refine ⟨hlt, ?_⟩
      rintro da ⟨o', ho', hid, hd⟩
      exact hno da ⟨o', (mem_remove.mp ho').1, hid, hd⟩
  · rintro id da ⟨o', ho', hid, hd⟩ h0
    exact List.mem_cons_of_mem _ (h.addressed id da ⟨o', (mem_remove.mp ho').1, hid, hd⟩ h0)
  · intro hclose
    exact List.mem_cons_of_mem _ (h.exit hclose)

/-- The end of the free routines, when the exit has started or the backend takes the device
address back. -/
theorem Kept.release (h : Kept s) (ho : o ∈ s.objs) {r : Reply Unit}
    (hr : s.file_close = false → o.da ≠ 0 → r = .answered 0 ()) : Kept (release s o r) := by
  unfold smmu_maps.release
  by_cases h0 : o.da = 0
  · simp only [h0, ne_eq, not_true_eq_false, if_false]
    refine h.remove ho (fun da hg => ?_)
    exact absurd ((h.given_eq ho hg).trans h0) (h.given _ _ hg).2.1
  · simp only [ne_eq, h0, not_false_eq_true, if_true]
    rcases hclose : s.file_close with _ | _
    · cases hr hclose h0
      have hunmap : (virt_smmu_unmap s o.da (.answered 0 ())).1 = s.note (.unmapped o.da) := by
        simp [virt_smmu_unmap, hclose]
      rw [hunmap]
      have hmid : Kept (s.note (.unmapped o.da)) := h.note nofun nofun
      refine hmid.remove ho (fun da hg => Or.inr ?_)
      have hda := hmid.given_eq ho hg
      subst hda
      obtain ⟨newer, older, hlog⟩ := List.append_of_mem (h.addressed _ _ ⟨o, ho, rfl, rfl⟩ h0)
      refine ⟨.unmapped o.da :: newer, older, ?_, List.mem_cons_self⟩
      show _ :: s.log = _
      rw [hlog, List.cons_append]
    · have hunmap : (virt_smmu_unmap s o.da r).1 = s := by simp [virt_smmu_unmap, hclose]
      rw [hunmap]
      exact h.remove ho (fun da _ => Or.inl (h.exit hclose))

/-- A failed attempt uses up a number at most. -/
theorem Kept.next (h : Kept s) : Kept { s with next := s.next + 1 } :=
  h.same h.unique (fun _ _ => Iff.rfl) (Nat.le_succ _) rfl rfl

theorem Kept.map_create (h : Kept s) (fd : Int) (attr : BitVec 32) (va len : BitVec 64)
    (mflags : BitVec 32) (buf : Option Nat) (env : CreateEnv) (r : Reply Nat) :
    Kept (hfastrpc_mmap_create sh s fd attr va len mflags buf env r) := by
  unfold hfastrpc_mmap_create
  split
  · apply h.update
    · intro o
      split <;> rfl
    · intro o
      split <;> rfl
  · unfold mmap_create_new
    split
    · exact h
    · rcases buf with _ | b
      · exact h.next
      · dsimp only
        split
        · exact h.next
        · rcases virt_smmu_map r with _ | da
          · exact h.next
          · exact h.add da _

theorem Kept.map_free (h : Kept s) (ho : o ∈ s.objs) {m : Map} {listed force_free : Bool}
    {r : Reply Unit} (hr : mmap_free force_free m = none → s.file_close = false → o.da ≠ 0 →
      r = .answered 0 ()) : Kept (hfastrpc_mmap_free s o m listed force_free r) := by
  unfold hfastrpc_mmap_free
  split
  · exact h.update _ (fun _ => rfl) (fun _ => rfl)
  · rename_i hfree
    exact h.release ho (hr hfree)

theorem Kept.buf_alloc (h : Kept s) (size : Nat) (ty : BufType) (kzalloc : Bool)
    (pages : Option Nat) (r : Reply Nat) :
    Kept (hfastrpc_buf_alloc s size ty kzalloc pages r) := by
  unfold hfastrpc_buf_alloc
  split
  · exact h
  split
  · rename_i s' hpers
    unfold get_persistent_buf at hpers
    split at hpers
    · cases hpers
    · obtain ⟨hdrs, _, rfl⟩ := Option.map_eq_some_iff.mp hpers
      exact h.same h.unique (fun _ _ => Iff.rfl) (Nat.le_refl _) rfl rfl
  split
  · apply h.update
    · intro o
      split <;> rfl
    · intro o
      split <;> rfl
  · unfold buf_alloc_new
    split
    · exact h
    · rcases pages with _ | va
      · exact h.next
      · dsimp only
        rcases virt_smmu_map r with _ | da
        · exact h.next
        · exact h.add da _

theorem Kept.buf_free (h : Kept s) (ho : o ∈ s.objs) {b : Buf} {cache : Bool} {r : Reply Unit}
    (hr : ¬(cache ∧ b.size < MAX_CACHE_BUF_SIZE ∧ s.cached_bufs.length ≤ MAX_CACHED_BUFS) →
      s.file_close = false → o.da ≠ 0 → r = .answered 0 ()) :
    Kept (hfastrpc_buf_free s o b cache r) := by
  unfold hfastrpc_buf_free
  split
  · exact h.front ho _
  · rename_i hfree
    exact h.release ho (hr hfree)

theorem onMap_some {id : Nat} {f : Obj → Map → Bool → Session} (h : onMap s id f = some t) :
    ∃ o m listed, lookup Obj.id s.objs id = some o ∧ o.kind = .map m listed ∧ t = f o m listed := by
  obtain ⟨o, ho, h⟩ := Option.bind_eq_some_iff.mp h
  rcases hk : o.kind with ⟨m, listed⟩ | ⟨b, ty⟩
  · simp [hk] at h
    exact ⟨o, m, listed, ho, hk, h.symm⟩
  · simp [hk] at h

theorem onBuf_some {id : Nat} {f : Obj → Buf → Option BufType → Option Session}
    (h : onBuf s id f = some t) :
    ∃ o b ty, lookup Obj.id s.objs id = some o ∧ o.kind = .buf b ty ∧ f o b ty = some t := by
  obtain ⟨o, ho, h⟩ := Option.bind_eq_some_iff.mp h
  rcases hk : o.kind with ⟨m, listed⟩ | ⟨b, ty⟩
  · simp [hk] at h
  · simp [hk] at h
    exact ⟨o, b, ty, ho, hk, h⟩

theorem kept_step (s : Session) (a : Act) (t : Session) (h : Kept s) (hc : Unmaps s a)
    (ht : step sh s a = some t) : Kept t := by
  cases a with
  | map_create fd attr va len mflags buf env r =>
    cases ht
    exact h.map_create fd attr va len mflags buf env r
  | map_ref id c =>
    obtain ⟨o, m, listed, _, _, rfl⟩ := onMap_some ht
    exact h.update _ (fun _ => rfl) (fun _ => rfl)
  | map_free id force_free r =>
    obtain ⟨o, m, listed, ho, hk, rfl⟩ := onMap_some ht
    refine h.map_free (mem_of_lookup ho) (fun hfree hclose h0 => ?_)
    exact hc hclose o ho h0 (by simp [frees, hk, hfree])
  | map_remove fd va len =>
    simp only [step] at ht
    split at ht
    · cases ht
      exact h.update _ (fun _ => rfl) (fun _ => rfl)
    · cases ht
      exact h
  | map_add id =>
    obtain ⟨o, m, listed, ho, _, rfl⟩ := onMap_some ht
    split
    · exact h
    · exact h.front (mem_of_lookup ho) _
  | buf_alloc size ty kzalloc pages r =>
    cases ht
    exact h.buf_alloc size ty kzalloc pages r
  | buf_free id cache r =>
    obtain ⟨o, b, ty, ho, hk, ht⟩ := onBuf_some ht
    obtain ⟨_, ht⟩ := Option.ite_none_right_eq_some.mp ht
    cases ht
    refine h.buf_free (mem_of_lookup ho) (fun hfree hclose h0 => ?_)
    refine hc hclose o ho h0 ?_
    simp only [frees, hk]
    simpa [Bool.and_assoc, imp_iff_not_or, not_and_or] using hfree
  | create_persistent_headers n =>
    obtain ⟨_, ht⟩ := Option.ite_none_right_eq_some.mp ht
    cases ht
    exact h.same h.unique (fun _ _ => Iff.rfl) (Nat.le_refl _) rfl rfl
  | hdr_free i =>
    cases ht
    exact h.same h.unique (fun _ _ => Iff.rfl) (Nat.le_refl _) rfl rfl
  | exit_start =>
    cases ht
    have hnote : Kept (s.note .exit_start) := h.note nofun nofun
    exact ⟨hnote.unique, hnote.below, hnote.given, hnote.released, hnote.addressed,
      fun _ => List.mem_cons_self, hnote.late⟩
  | cached_free id r =>
    obtain ⟨o, b, ty, ho, _, ht⟩ := onBuf_some ht
    obtain ⟨⟨hclose, _⟩, ht⟩ := Option.ite_none_right_eq_some.mp ht
    cases ht
    refine h.buf_free (mem_of_lookup ho) (fun _ hopen _ => ?_)
    exact absurd (hclose.symm.trans hopen) nofun

/-- For any order of the calls: when the backend answers each SMMU_UNMAP that a free routine
needs before the exit with result 0, then no memory with a device address is released before
the backend has taken the address back, or the exit has started. -/
theorem dsp_memory_is_released_after_its_unmap (sh : AdsprpcShared) (as : List Act) (s : Session)
    (hm : Meets (step sh) Unmaps Session.init as) (hr : run (step sh) Session.init as = some s) :
    ReleasedLate s.log :=
  (run_inv_of_meets Kept kept_step kept_init hm hr).late

end kept

/-- Pages that a client adds, and that go again after the DSP has unmapped them. -/
theorem added_pages_go_after_their_unmap :
    ∃ s, run (step sampleShared) Session.init
        [.buf_alloc 4096 .USERHEAP true (some 0x1000) (.answered 0 0x9000),
          .buf_free 0 false (.answered 0 ())] = some s ∧
      .released 0 ∈ s.log ∧ ReleasedLate s.log := by
  refine ⟨_, rfl, by decide, dsp_memory_is_released_after_its_unmap sampleShared
    [.buf_alloc 4096 .USERHEAP true (some 0x1000) (.answered 0 0x9000),
      .buf_free 0 false (.answered 0 ())] _ ?_ rfl⟩
  apply meets_of_forall
  intro a ha s
  simp only [List.mem_cons, List.not_mem_nil, or_false] at ha
  rcases ha with rfl | rfl
  · trivial
  · intro _ _ _ _ _
    rfl

/-- Memory that goes right after its device address was given. -/
theorem not_released_late (id da : Nat) : ¬ReleasedLate [.released id, .given id da] := by
  rintro ⟨h, _⟩
  rcases h da List.mem_cons_self with hexit | ⟨newer, older, hlog, hun⟩
  · simp at hexit
  · cases newer with
    | nil => simp at hun
    | cons e newer => simp at hlog

/-- The same pages when the backend refuses to unmap them, and a dma-buf whose SMMU_UNMAP finds
no slot in the message table: both are released, and the DSP still has their addresses. -/
theorem memory_goes_when_the_unmap_fails :
    (∃ s, run (step sampleShared) Session.init
        [.buf_alloc 4096 .USERHEAP true (some 0x1000) (.answered 0 0x9000),
          .buf_free 0 false (.answered 5 ())] = some s ∧ ¬ReleasedLate s.log) ∧
    ∃ s, run (step sampleShared) Session.init
        [.map_create 3 0 0x7000 4096 0 (some 1) ⟨true, true, true, true⟩ (.answered 0 0xa000),
          .map_free 0 false .no_memory] = some s ∧ ¬ReleasedLate s.log :=
  ⟨⟨_, rfl, not_released_late 0 0x9000⟩, ⟨_, rfl, not_released_late 0 0xa000⟩⟩

end virtual_fastrpc.smmu_maps
