-- The runs of a hybrid session as far as its buffers go: contexts that take one or
-- two of them, the user heap, the persistent headers, and the end of the session.
-- Each step is one buffer operation, with what its thread does up to the next one.
import PlatformKernel.BufferOwners
import PlatformKernel.HybridImages

namespace virtual_fastrpc.buffer_runs

open virtual_fastrpc.buffers (BufType PAGE_SIZE PAGE_ALIGN ALIGN BALIGN)
open virtual_fastrpc.hybrid_marshal (buf_page_size)
open virtual_fastrpc.buffer_pool virtual_fastrpc.buffer_owners keyed step_runs

/-! ## The state -/

/-- `buf` and `copybuf` of a context, and how far its call has come with them. -/
inductive Bufs
  /-- get_args has no buffer for the metadata yet. -/
  | allocated
  /-- get_args has not chosen the buffer for the copies yet. -/
  | metadata (buf metalen : Nat)
  /-- get_args is through, or has failed. -/
  | ready (buf copybuf : Option Nat)
  /-- context_free has freed `buf`. -/
  | freeing (buf copybuf : Option Nat)
  deriving DecidableEq, Repr

structure Ctx where
  ptr : Nat
  bufs : Bufs
  deriving DecidableEq, Repr

def Ctx.setBufs (b : Bufs) (x : Ctx) : Ctx := { x with bufs := b }

/-- What there is to free of the copies: `copybuf` may be the same buffer as `buf`. -/
def copies (buf copybuf : Option Nat) : Option Nat := if copybuf = buf then none else copybuf

/-- The buffers a context holds. -/
def Ctx.holds (x : Ctx) : List Nat :=
  match x.bufs with
  | .allocated => []
  | .metadata buf _ => [buf]
  | .ready buf copybuf => buf.toList ++ (copies buf copybuf).toList
  | .freeing buf copybuf => (copies buf copybuf).toList

/-- A thread in hfastrpc_create_persistent_headers, past the check at its start. -/
structure Creation where
  key : Nat
  num_pers_hdrs : Nat
  pers_hdr_buf : Option Nat
  deriving DecidableEq, Repr

structure Session where
  pool : Pool
  ctxs : List Ctx
  creations : List Creation
  /-- The buffer of the hfastrpc_mmap that waits for the DSP, with `internal_map_mutex`. -/
  mmap : Option Nat
  /-- hfastrpc_file_free is called. -/
  closing : Bool
  deriving DecidableEq, Repr

def Session.init : Session := ⟨.init, [], [], none, false⟩

def Session.ctx (s : Session) (c : Nat) : Option Ctx := lookup Ctx.ptr s.ctxs c

def Session.setBufs (s : Session) (c : Nat) (b : Bufs) : Session :=
  { s with ctxs := update Ctx.ptr s.ctxs c (.setBufs b) }

def Session.creation (s : Session) (k : Nat) : Option Creation := lookup Creation.key s.creations k

/-- The buffers that the contexts hold. -/
def Session.ctx_bufs (s : Session) : List Nat := s.ctxs.flatMap Ctx.holds

/-- The buffers of the owners other than the lists of the session. -/
def Session.held (s : Session) : List Nat :=
  s.pool.pers_hdr_buf.toList ++
    (s.ctx_bufs ++ s.creations.flatMap (fun k => k.pers_hdr_buf.toList))

/-! ## The steps -/

/-- hfastrpc_buf_alloc as the driver calls it: only the user heap has no kernel mapping. -/
def hfastrpc_buf_alloc (p : Pool) (size : Nat) (ty : BufType) (e : AllocEnv) : Pool × Option Nat :=
  buf_alloc .hybrid p size (decide (ty = .USERHEAP)) ty e

/-- hfastrpc_buf_free, which does nothing without a buffer. -/
def hfastrpc_buf_free (p : Pool) (id : Option Nat) (cache : Bool) : Pool :=
  match id.bind p.buf with
  | some b => buf_free .hybrid p b cache
  | none => p

/-- The allocation of the metadata in get_args. -/
def get_args_buf (s : Session) (c metalen : Nat) (e : AllocEnv) : Session :=
  match hfastrpc_buf_alloc s.pool metalen .METADATA e with
  | (pool, some buf) => { s with pool }.setBufs c (.metadata buf metalen)
  | (pool, none) => { s with pool }.setBufs c (.ready none none)

/-- The choice of the buffer for the copies in get_args. -/
def get_args_copybuf (s : Session) (c buf metalen copylen : Nat) (e : AllocEnv) : Session :=
  if ALIGN metalen BALIGN + copylen ≤ buf_page_size metalen then
    s.setBufs c (.ready (some buf) (some buf))
  else if copylen ≠ 0 then
    match hfastrpc_buf_alloc s.pool copylen .COPYDATA e with
    | (pool, copybuf) => { s with pool }.setBufs c (.ready (some buf) copybuf)
  else s.setBufs c (.ready (some buf) none)

/-- The first hfastrpc_buf_free of context_free. -/
def context_free_buf (s : Session) (c : Nat) (buf copybuf : Option Nat) : Session :=
  { s with pool := hfastrpc_buf_free s.pool buf true }.setBufs c (.freeing buf copybuf)

/-- The second one, and the end of the context. -/
def context_free_copybuf (s : Session) (c : Nat) (buf copybuf : Option Nat) : Session :=
  { s with
    pool := if copybuf ≠ buf then hfastrpc_buf_free s.pool copybuf true else s.pool
    ctxs := remove Ctx.ptr s.ctxs c }

/-- The start of hfastrpc_create_persistent_headers. It holds no lock. -/
def create_persistent_headers_check (s : Session) (key user_concurrency : Nat) : Session :=
  if s.pool.pers_hdr_buf.isSome ∨ user_concurrency = 0 then s
  else { s with creations := ⟨key, min user_concurrency MAX_PERSISTENT_HEADERS, none⟩ ::
    s.creations }

/-- Its error path, which frees the buffer of this call only. -/
def create_persistent_headers_bail (s : Session) (k : Creation) : Session :=
  { s with
    pool := hfastrpc_buf_free { s.pool with pers_hdr_buf := none, hdr_bufs := [] }
      k.pers_hdr_buf false
    creations := remove Creation.key s.creations k.key }

/-- Its allocation. -/
def create_persistent_headers_alloc (s : Session) (k : Creation) (e : AllocEnv) : Session :=
  match hfastrpc_buf_alloc s.pool (k.num_pers_hdrs * PAGE_SIZE) .METADATA e with
  | (pool, some id) =>
    { s with
      pool
      creations := update Creation.key s.creations k.key
        (fun k => { k with pers_hdr_buf := some id }) }
  | (pool, none) => create_persistent_headers_bail { s with pool } k

/-- Its last critical section. -/
def create_persistent_headers_install (s : Session) (k : Creation) (id : Nat) : Session :=
  { s with
    pool := install_hdrs s.pool id k.num_pers_hdrs
    creations := remove Creation.key s.creations k.key }

inductive Act
  | context_alloc (c : Nat)
  | get_args_buf (c metalen : Nat) (e : AllocEnv)
  | get_args_copybuf (c copylen : Nat) (e : AllocEnv)
  | context_free_buf (c : Nat)
  | context_free_copybuf (c : Nat)
  | mmap (size : Nat) (e : AllocEnv)
  /-- The answer of the DSP to the request to map the pages. -/
  | mmap_rsp (ok : Bool)
  | munmap (id : Nat)
  | hdr_check (key user_concurrency : Nat)
  | hdr_alloc (key : Nat) (e : AllocEnv)
  /-- The answer of the DSP, and whether there is memory for the array. -/
  | hdr_rsp (key : Nat) (ok : Bool)
  | file_free
  | cached_buf_list_free
  | remote_buf_list_free
  | free_hdrs
  deriving DecidableEq, Repr

def step (s : Session) : Act → Option Session
  | .context_alloc c =>
    if s.closing ∨ (s.ctx c).isSome then none
    else some { s with ctxs := ⟨c, .allocated⟩ :: s.ctxs }
  | .get_args_buf c metalen e =>
    if s.closing then none
    else (s.ctx c).bind fun x =>
      match x.bufs with
      | .allocated => some (get_args_buf s c metalen e)
      | _ => none
  | .get_args_copybuf c copylen e =>
    if s.closing then none
    else (s.ctx c).bind fun x =>
      match x.bufs with
      | .metadata buf metalen => some (get_args_copybuf s c buf metalen copylen e)
      | _ => none
  | .context_free_buf c =>
    (s.ctx c).bind fun x =>
      match x.bufs with
      | .allocated => some (context_free_buf s c none none)
      | .metadata buf _ => some (context_free_buf s c (some buf) none)
      | .ready buf copybuf => some (context_free_buf s c buf copybuf)
      | .freeing _ _ => none
  | .context_free_copybuf c =>
    (s.ctx c).bind fun x =>
      match x.bufs with
      | .freeing buf copybuf => some (context_free_copybuf s c buf copybuf)
      | _ => none
  | .mmap size e =>
    if s.closing ∨ s.mmap.isSome then none
    else
      match hfastrpc_buf_alloc s.pool size .USERHEAP e with
      | (pool, r) => some { s with pool, mmap := r }
  | .mmap_rsp ok =>
    s.mmap.bind fun id =>
      some { s with
        pool := if ok then s.pool else hfastrpc_buf_free s.pool (some id) false
        mmap := none }
  | .munmap id =>
    if s.closing ∨ s.mmap.isSome ∨ id ∉ s.pool.remote_bufs then none
    else some { s with pool := hfastrpc_buf_free s.pool (some id) false }
  | .hdr_check key user_concurrency =>
    if s.closing ∨ (s.creation key).isSome then none
    else some (create_persistent_headers_check s key user_concurrency)
  | .hdr_alloc key e =>
    (s.creation key).bind fun k =>
      if k.pers_hdr_buf.isSome then none else some (create_persistent_headers_alloc s k e)
  | .hdr_rsp key ok =>
    (s.creation key).bind fun k => k.pers_hdr_buf.bind fun id =>
      some (if ok then create_persistent_headers_install s k id
        else create_persistent_headers_bail s k)
  | .file_free =>
    if s.closing ∨ s.mmap.isSome ∨ s.creations ≠ [] then none else some { s with closing := true }
  | .cached_buf_list_free =>
    if s.closing ∧ s.ctxs = [] then
      some { s with pool := cached_buf_list_free .hybrid s.pool }
    else none
  | .remote_buf_list_free =>
    if s.closing ∧ s.ctxs = [] ∧ s.pool.cached_bufs = [] then
      some { s with pool := hfastrpc_buf_free s.pool s.pool.remote_bufs.head? false }
    else none
  | .free_hdrs =>
    if s.closing ∧ s.ctxs = [] ∧ s.pool.cached_bufs = [] ∧ s.pool.remote_bufs = [] then
      let pool := hfastrpc_buf_free (kfree_hdr_bufs s.pool) s.pool.pers_hdr_buf false
      some { s with pool := { pool with pers_hdr_buf := none } }
    else none

/-- No thread begins to make the persistent headers while another one is at it. -/
def OneCreation (s : Session) : Act → Prop
  | .hdr_check _ user_concurrency =>
    s.pool.pers_hdr_buf = none → user_concurrency ≠ 0 → s.creations = []
  | _ => True

/-! ## What the steps keep of the pool -/

variable {s t : Session} {p p' : Pool} {held : List Nat}

/-- The persistent headers are the same, and no buffer leaves the list of the user heap. -/
structure Steady (p p' : Pool) : Prop where
  hdr_bufs : p'.hdr_bufs = p.hdr_bufs
  pers_hdr_buf : p'.pers_hdr_buf = p.pers_hdr_buf
  remote_bufs : ∀ j ∈ p.remote_bufs, j ∈ p'.remote_bufs

theorem Steady.refl (p : Pool) : Steady p p := ⟨rfl, rfl, fun _ h => h⟩

theorem alloc_steady {size : Nat} {ty : BufType} {e : AllocEnv} {r : Option Nat}
    (ha : hfastrpc_buf_alloc p size ty e = (p', r)) : Steady p p' := by
  rcases buf_alloc_cases ha with ⟨_, rfl⟩ | ⟨i, _, _, hg⟩ | ⟨b, _, _, _, rfl⟩ | ⟨_, rfl⟩
  · exact Steady.refl _
  · obtain ⟨_, _, rfl, _⟩ := get_persistent_some hg
    exact ⟨rfl, rfl, fun _ h => h⟩
  · exact ⟨rfl, rfl, fun _ h => h⟩
  · refine ⟨rfl, rfl, fun j hj => ?_⟩
    show j ∈ if ty = .USERHEAP then _ else _
    split
    · exact List.mem_cons_of_mem _ hj
    · exact hj

theorem free_steady {b : Buf} (hcold : b.type ≠ some .USERHEAP) (cache : Bool) :
    Steady p (buf_free .hybrid p b cache) := by
  rcases buf_free_cases .hybrid p b cache with ⟨_, _, he⟩ | ⟨_, _, he⟩ | ⟨_, _, he⟩
  · rw [he]
    exact ⟨rfl, rfl, fun _ h => h⟩
  · rw [he]
    exact ⟨rfl, rfl, fun _ h => h⟩
  · rw [he]
    refine ⟨rfl, rfl, fun j hj => ?_⟩
    show j ∈ if b.type = some .USERHEAP then _ else _
    rw [if_neg hcold]
    exact hj

/-- An owner gives its buffer back, if it has one. -/
theorem owned_free {id : Option Nat} (h : Owned p (id.toList ++ held)) (cache : Bool) :
    Owned (hfastrpc_buf_free p id cache) held ∧ Steady p (hfastrpc_buf_free p id cache) := by
  rcases id with _ | id
  · exact ⟨h, Steady.refl p⟩
  · have hin : id ∈ places p (id :: held) := (places_cons p id held).mem_iff.mpr List.mem_cons_self
    obtain ⟨b, hb⟩ := h.live id hin
    obtain rfl : b.id = id := key_of_lookup hb
    have he : hfastrpc_buf_free p (some b.id) cache = buf_free .hybrid p b cache := by
      simp [hfastrpc_buf_free, hb]
    rw [he]
    exact ⟨Owned.free h hb cache, free_steady (Owned.held_cold h hb) cache⟩

/-- An owner asks for a kernel buffer. -/
theorem owned_alloc {size : Nat} {ty : BufType} {e : AllocEnv} {r : Option Nat}
    (h : Owned p held) (hty : ty ≠ .USERHEAP) (ha : hfastrpc_buf_alloc p size ty e = (p', r)) :
    Owned p' (r.toList ++ held) := by
  have ha' : buf_alloc .hybrid p size false ty e = (p', r) := by
    have := ha
    simpa [hfastrpc_buf_alloc, hty] using this
  rcases r with _ | id
  · rcases buf_alloc_cases ha' with ⟨_, rfl⟩ | ⟨i, hr, _⟩ | ⟨b, hr, _⟩ | ⟨hr, _⟩
    · exact h
    all_goals cases hr
  · exact h.alloc hty ha'

/-! ## The invariant -/

/-- The buffers of the owners other than one context. -/
def Session.others (s : Session) (c : Nat) : List Nat :=
  s.pool.pers_hdr_buf.toList ++ ((remove Ctx.ptr s.ctxs c).flatMap Ctx.holds ++
    s.creations.flatMap (fun k => k.pers_hdr_buf.toList))

structure Inv (s : Session) : Prop where
  ctxs : Unique Ctx.ptr s.ctxs
  /-- At most one thread makes the persistent headers, and there are none yet. -/
  one : s.creations = [] ∨ ∃ k, s.creations = [k] ∧ s.pool.pers_hdr_buf = none
  heads : s.pool.pers_hdr_buf = none → s.pool.hdr_bufs = []
  parent : ∀ id, s.pool.pers_hdr_buf = some id → id ∉ s.pool.hdr_bufs
  owned : Owned s.pool s.held
  mmap : ∀ id, s.mmap = some id → id ∈ s.pool.remote_bufs
  closing : s.closing = true → s.mmap = none

theorem inv_init : Inv Session.init where
  ctxs := List.nodup_nil
  one := Or.inl rfl
  heads := by intro _; rfl
  parent := by intro id h; cases h
  owned := owned_init
  mmap := by intro id h; cases h
  closing := by intro h; cases h

/-- The buffers of one context, and those of the other owners. -/
theorem held_ctx (hu : Unique Ctx.ptr s.ctxs) {c : Nat} {x : Ctx} (hx : s.ctx c = some x) :
    s.held.Perm (x.holds ++ s.others c) := by
  have hc : s.ctx_bufs.Perm (x.holds ++ (remove Ctx.ptr s.ctxs c).flatMap Ctx.holds) :=
    (perm_remove hu hx).flatMap_right Ctx.holds
  refine ((hc.append_right _).append_left _).trans ?_
  rw [List.append_assoc]
  exact List.perm_append_comm_assoc _ _ _

theorem held_setBufs (hu : Unique Ctx.ptr s.ctxs) {c : Nat} {x : Ctx} (hx : s.ctx c = some x)
    (b : Bufs) : (s.setBufs c b).held.Perm ((x.setBufs b).holds ++ s.others c) := by
  have hc : (s.setBufs c b).ctx_bufs.Perm
      ((x.setBufs b).holds ++ (remove Ctx.ptr s.ctxs c).flatMap Ctx.holds) :=
    (perm_update hu hx).flatMap_right Ctx.holds
  refine ((hc.append_right _).append_left _).trans ?_
  rw [List.append_assoc]
  exact List.perm_append_comm_assoc _ _ _

/-- The owners do not change with a pool of the same persistent headers. -/
theorem others_pool (hp : Steady s.pool p') (c : Nat) :
    ({ s with pool := p' } : Session).others c = s.others c := by
  unfold Session.others
  rw [show ({ s with pool := p' } : Session).pool.pers_hdr_buf = s.pool.pers_hdr_buf from
    hp.pers_hdr_buf]

/-- What the contexts do to the pool keeps the rest of the invariant. -/
theorem Inv.pool (h : Inv s) (hp : Steady s.pool p') {ctxs : List Ctx}
    (hu : Unique Ctx.ptr ctxs)
    (ho : Owned p' ({ s with pool := p', ctxs } : Session).held) :
    Inv { s with pool := p', ctxs } := by
  refine ⟨hu, ?_, ?_, ?_, ho, ?_, h.closing⟩
  · rcases h.one with hnone | ⟨k, hk, hpers⟩
    · exact Or.inl hnone
    · exact Or.inr ⟨k, hk, hp.pers_hdr_buf.trans hpers⟩
  · intro hpers
    exact hp.hdr_bufs.trans (h.heads (hp.pers_hdr_buf.symm.trans hpers))
  · intro id hid
    show id ∉ p'.hdr_bufs
    rw [hp.hdr_bufs]
    exact h.parent id (hp.pers_hdr_buf.symm.trans hid)
  · intro id hid
    exact hp.remote_bufs id (h.mmap id hid)

/-- One context changes what it holds. -/
theorem Inv.setBufs (h : Inv s) {c : Nat} {x : Ctx} (hx : s.ctx c = some x)
    (hp : Steady s.pool p') (b : Bufs) (ho : Owned p' ((x.setBufs b).holds ++ s.others c)) :
    Inv ({ s with pool := p' }.setBufs c b) := by
  refine h.pool hp (h.ctxs.update (fun _ => rfl)) (ho.perm ?_)
  rw [← others_pool hp]
  exact (held_setBufs (s := { s with pool := p' }) h.ctxs hx b).symm

/-! ## The steps of a context -/

theorem get_args_buf_inv (h : Inv s) {c metalen : Nat} {x : Ctx} {e : AllocEnv}
    (hx : s.ctx c = some x) (hb : x.bufs = .allocated) : Inv (get_args_buf s c metalen e) := by
  have ho := h.owned.perm (held_ctx h.ctxs hx)
  have hnone : x.holds = [] := by simp [Ctx.holds, hb]
  rw [hnone] at ho
  rcases ha : hfastrpc_buf_alloc s.pool metalen .METADATA e with ⟨pool, _ | id⟩
  · have hnew := owned_alloc ho (by decide) ha
    simp only [get_args_buf, ha]
    exact h.setBufs hx (alloc_steady ha) _ hnew
  · have hnew := owned_alloc ho (by decide) ha
    simp only [get_args_buf, ha]
    exact h.setBufs hx (alloc_steady ha) _ hnew

theorem get_args_copybuf_inv (h : Inv s) {c buf metalen copylen : Nat} {x : Ctx} {e : AllocEnv}
    (hx : s.ctx c = some x) (hb : x.bufs = .metadata buf metalen) :
    Inv (get_args_copybuf s c buf metalen copylen e) := by
  have ho := h.owned.perm (held_ctx h.ctxs hx)
  have hone : x.holds = [buf] := by simp [Ctx.holds, hb]
  rw [hone] at ho
  unfold get_args_copybuf
  split
  · -- the copies go behind the metadata, so the context still holds one buffer
    refine h.setBufs hx (Steady.refl _) _ ?_
    simpa [Ctx.setBufs, Ctx.holds, copies] using ho
  split
  · rcases ha : hfastrpc_buf_alloc s.pool copylen .COPYDATA e with ⟨pool, r⟩
    have hnew := owned_alloc ho (by decide) ha
    refine h.setBufs hx (alloc_steady ha) _ (hnew.perm ?_)
    rcases r with _ | id
    · simp [Ctx.setBufs, Ctx.holds, copies]
    · have hne : id ≠ buf := by
        rintro rfl
        exact hnew.held_only (List.mem_append_right _ (List.mem_append_right _ (by simp)))
      simp only [Ctx.setBufs, Ctx.holds, copies, Option.some.injEq, if_neg hne]
      exact List.Perm.swap buf id _
  · refine h.setBufs hx (Steady.refl _) _ ?_
    simpa [Ctx.setBufs, Ctx.holds, copies] using ho

theorem context_free_buf_inv (h : Inv s) {c : Nat} {x : Ctx} {buf copybuf : Option Nat}
    (hx : s.ctx c = some x) (hb : x.holds = buf.toList ++ (copies buf copybuf).toList) :
    Inv (context_free_buf s c buf copybuf) := by
  have ho := h.owned.perm (held_ctx h.ctxs hx)
  rw [hb, List.append_assoc] at ho
  obtain ⟨hfree, hsteady⟩ := owned_free ho true
  exact h.setBufs hx hsteady (.freeing buf copybuf) hfree

theorem context_free_copybuf_inv (h : Inv s) {c : Nat} {x : Ctx} {buf copybuf : Option Nat}
    (hx : s.ctx c = some x) (hb : x.bufs = .freeing buf copybuf) :
    Inv (context_free_copybuf s c buf copybuf) := by
  have ho := h.owned.perm (held_ctx h.ctxs hx)
  have hholds : x.holds = (copies buf copybuf).toList := by simp [Ctx.holds, hb]
  rw [hholds] at ho
  obtain ⟨hfree, hsteady⟩ := owned_free ho true
  have hpool : (context_free_copybuf s c buf copybuf).pool =
      hfastrpc_buf_free s.pool (copies buf copybuf) true := by
    by_cases hsame : copybuf = buf
    · simp [context_free_copybuf, copies, hsame, hfastrpc_buf_free]
    · simp [context_free_copybuf, copies, hsame]
  rw [← others_pool hsteady c, ← hpool] at hfree
  rw [← hpool] at hsteady
  exact h.pool hsteady h.ctxs.remove hfree

/-! ## The steps of the user heap -/

/-- The user heap gives up a buffer. -/
theorem free_heap_inv (h : Inv s) {id : Nat} (hid : id ∈ s.pool.remote_bufs) :
    Inv { s with pool := hfastrpc_buf_free s.pool (some id) false, mmap := none } := by
  obtain ⟨b, hb⟩ := h.owned.live id (List.mem_append_right _ (List.mem_append_left _ hid))
  obtain rfl : b.id = id := key_of_lookup hb
  have he : hfastrpc_buf_free s.pool (some b.id) false = buf_free .hybrid s.pool b false := by
    simp [hfastrpc_buf_free, hb]
  have hhdr : (buf_free .hybrid s.pool b false).hdr_bufs = s.pool.hdr_bufs ∧
      (buf_free .hybrid s.pool b false).pers_hdr_buf = s.pool.pers_hdr_buf := by
    rcases buf_free_cases .hybrid s.pool b false with ⟨_, _, he⟩ | ⟨_, _, he⟩ | ⟨_, _, he⟩
    all_goals
      rw [he]
      exact ⟨rfl, rfl⟩
  rw [he]
  refine ⟨h.ctxs, ?_, ?_, ?_, ?_, by nofun, fun _ => rfl⟩
  · simpa only [hhdr.2] using h.one
  · simpa only [hhdr.1, hhdr.2] using h.heads
  · simpa only [hhdr.1, hhdr.2] using h.parent
  · have hheld : ({ s with pool := buf_free .hybrid s.pool b false, mmap := none } : Session).held =
        s.held := by
      unfold Session.held
      rw [hhdr.2]
      rfl
    rw [hheld]
    exact h.owned.free_heap hb hid

theorem mmap_inv (h : Inv s) {size : Nat} {e : AllocEnv} {r : Option Nat}
    (hopen : s.closing = false) (ha : hfastrpc_buf_alloc s.pool size .USERHEAP e = (p', r)) :
    Inv { s with pool := p', mmap := r } := by
  have hsteady := alloc_steady ha
  have hheap : Owned p' s.held ∧ ∀ id, r = some id → id ∈ p'.remote_bufs := by
    rcases buf_alloc_cases ha with ⟨rfl, rfl⟩ | ⟨i, _, _, hg⟩ | ⟨b, _, _, hty, _⟩ | ⟨rfl, hp⟩
    · exact ⟨h.owned, by nofun⟩
    · obtain ⟨_, _, _, hty, _⟩ := get_persistent_some hg
      cases hty
    · exact absurd rfl hty
    · refine ⟨h.owned.alloc_heap ha, fun id hid => ?_⟩
      cases hid
      rw [hp]
      exact List.mem_cons_self
  have hpool : Inv { s with pool := p' } := by
    refine h.pool hsteady h.ctxs ?_
    have hheld : ({ s with pool := p' } : Session).held = s.held := by
      unfold Session.held
      rw [show ({ s with pool := p' } : Session).pool.pers_hdr_buf = _ from hsteady.pers_hdr_buf]
      rfl
    rw [hheld]
    exact hheap.1
  refine ⟨hpool.ctxs, hpool.one, hpool.heads, hpool.parent, hpool.owned, hheap.2, fun hc => ?_⟩
  rw [hopen] at hc
  cases hc

/-! ## The steps of the persistent headers -/

/-- The thread that makes the persistent headers is alone, and there are none yet. -/
theorem Inv.alone (h : Inv s) {key : Nat} {k : Creation} (hk : s.creation key = some k) :
    s.creations = [k] ∧ s.pool.pers_hdr_buf = none ∧ s.pool.hdr_bufs = [] := by
  rcases h.one with hnone | ⟨k', hone, hpers⟩
  · simp [Session.creation, hnone, lookup] at hk
  · have hm : k ∈ s.creations := mem_of_lookup hk
    rw [hone] at hm
    obtain rfl := List.mem_singleton.mp hm
    exact ⟨hone, hpers, h.heads hpers⟩

/-- What is held when one thread makes the persistent headers. -/
theorem held_alone {k : Creation} (hc : s.creations = [k]) (hp : s.pool.pers_hdr_buf = none) :
    s.held.Perm (k.pers_hdr_buf.toList ++ s.ctx_bufs) := by
  unfold Session.held
  rw [hc, hp]
  simp only [Option.toList_none, List.nil_append, List.flatMap_cons, List.flatMap_nil,
    List.append_nil]
  exact List.perm_append_comm

theorem hdr_check_inv (h : Inv s) {key user_concurrency : Nat}
    (hone : OneCreation s (.hdr_check key user_concurrency)) :
    Inv (create_persistent_headers_check s key user_concurrency) := by
  unfold create_persistent_headers_check
  split
  · exact h
  · rename_i hgo
    simp only [not_or, Bool.not_eq_true, Option.isSome_eq_false_iff, Option.isNone_iff_eq_none]
      at hgo
    have hnone := hone hgo.1 hgo.2
    refine ⟨h.ctxs, Or.inr ⟨_, by rw [hnone], hgo.1⟩, h.heads, h.parent, ?_, h.mmap, h.closing⟩
    have hheld := h.owned
    unfold Session.held at hheld ⊢
    rw [hnone] at hheld
    simpa [hnone, Session.ctx_bufs] using hheld

theorem hdr_bail_inv (h : Inv s) {key : Nat} {k : Creation} (hk : s.creation key = some k) :
    Inv (create_persistent_headers_bail s k) := by
  obtain ⟨hc, hp, hh⟩ := h.alone hk
  -- there are no persistent headers that the path could lose
  have hsame : ({ s.pool with pers_hdr_buf := none, hdr_bufs := [] } : Pool) = s.pool := by
    rw [← hp, ← hh]
  obtain ⟨hfree, hsteady⟩ := owned_free (h.owned.perm (held_alone hc hp)) false
  have hpers := hsteady.pers_hdr_buf.trans hp
  unfold create_persistent_headers_bail
  rw [hsame]
  have hrest : remove Creation.key s.creations k.key = [] := by simp [hc, remove]
  rw [hrest]
  refine ⟨h.ctxs, Or.inl rfl, fun _ => hsteady.hdr_bufs.trans hh, ?_, ?_, ?_, h.closing⟩
  · intro id hid
    cases hpers.symm.trans hid
  · unfold Session.held
    rw [hpers]
    simpa [Session.ctx_bufs] using hfree
  · intro id hid
    exact hsteady.remote_bufs id (h.mmap id hid)

theorem hdr_alloc_inv (h : Inv s) {key : Nat} {k : Creation} {e : AllocEnv}
    (hk : s.creation key = some k) (hno : k.pers_hdr_buf = none) :
    Inv (create_persistent_headers_alloc s k e) := by
  obtain ⟨hc, hp, hh⟩ := h.alone hk
  have ho := h.owned.perm (held_alone hc hp)
  rw [hno] at ho
  rcases ha : hfastrpc_buf_alloc s.pool (k.num_pers_hdrs * PAGE_SIZE) .METADATA e with ⟨pool, r⟩
  have hsteady := alloc_steady ha
  have hnew := owned_alloc ho (by decide) ha
  rcases r with _ | id
  · simp only [create_persistent_headers_alloc, ha]
    have hpool : Inv { s with pool } := by
      have hheld := held_alone (s := { s with pool }) hc (hsteady.pers_hdr_buf.trans hp)
      rw [hno] at hheld
      exact h.pool hsteady h.ctxs (hnew.perm hheld.symm)
    exact hdr_bail_inv hpool hk
  · simp only [create_persistent_headers_alloc, ha]
    have hup : update Creation.key s.creations k.key (fun k => { k with pers_hdr_buf := some id }) =
        [{ k with pers_hdr_buf := some id }] := by simp [hc, update]
    rw [hup]
    have hpers := hsteady.pers_hdr_buf.trans hp
    refine ⟨h.ctxs, Or.inr ⟨_, rfl, hpers⟩, fun _ => hsteady.hdr_bufs.trans hh, ?_, ?_,
      ?_, h.closing⟩
    · intro i hi
      cases hpers.symm.trans hi
    · let k' : Creation := { k with pers_hdr_buf := some id }
      have hheld := held_alone (s := { s with pool, creations := [k'] }) (k := k') rfl hpers
      exact hnew.perm hheld.symm
    · intro i hi
      exact hsteady.remote_bufs i (h.mmap i hi)

theorem hdr_install_inv (h : Inv s) {key id : Nat} {k : Creation} (hk : s.creation key = some k)
    (hid : k.pers_hdr_buf = some id) : Inv (create_persistent_headers_install s k id) := by
  obtain ⟨hc, hp, hh⟩ := h.alone hk
  have ho := h.owned.perm (held_alone hc hp)
  rw [hid] at ho
  have hrest : remove Creation.key s.creations k.key = [] := by simp [hc, remove]
  unfold create_persistent_headers_install
  rw [hrest]
  refine ⟨h.ctxs, Or.inl rfl, by rintro ⟨⟩, ?_, ?_, h.mmap, h.closing⟩
  · -- the chunks are new, and the buffer they are cut from is not
    intro i hi hm
    cases hi
    obtain ⟨b, hb⟩ := ho.live id ((places_cons _ _ _).mem_iff.mpr List.mem_cons_self)
    have hbelow := h.owned.below b (mem_of_lookup hb)
    obtain rfl : b.id = id := key_of_lookup hb
    have := (List.mem_range'_1.mp hm).1
    omega
  · have hheld : Owned (install_hdrs s.pool id k.num_pers_hdrs) (id :: s.ctx_bufs) := ho.install hh
    have hnow : ({ s with
        pool := install_hdrs s.pool id k.num_pers_hdrs, creations := [] } : Session).held =
        id :: s.ctx_bufs := by
      simp [Session.held, Session.ctx_bufs, install_hdrs]
    rw [hnow]
    exact hheld

/-! ## The end of the session -/

theorem cached_buf_list_free_inv (h : Inv s) :
    Inv { s with pool := cached_buf_list_free .hybrid s.pool } := by
  have hsteady : Steady s.pool (cached_buf_list_free .hybrid s.pool) := by
    rcases hc : s.pool.cached_bufs with _ | ⟨id, rest⟩
    · simp only [cached_buf_list_free, hc]
      exact Steady.refl _
    · have hin : id ∈ s.pool.cached_bufs := by simp [hc]
      obtain ⟨b, hb⟩ := h.owned.live id (List.mem_append_left _ hin)
      have hcold : b.type ≠ some .USERHEAP := by
        intro ht
        apply List.disjoint_of_nodup_append h.owned.nodup hin
        exact List.mem_append_left _ ((h.owned.heap id b hb).mp ht)
      rw [cached_buf_list_free_eq hc hb]
      have hfree := free_steady (p := { s.pool with
        cached_bufs := rest, num_cached_buf := s.pool.num_cached_buf - 1 }) hcold false
      exact ⟨hfree.hdr_bufs, hfree.pers_hdr_buf, hfree.remote_bufs⟩
  refine h.pool hsteady h.ctxs ?_
  have hheld : ({ s with pool := cached_buf_list_free .hybrid s.pool } : Session).held =
    s.held := by
    unfold Session.held
    rw [show ({ s with pool := cached_buf_list_free .hybrid s.pool } : Session).pool.pers_hdr_buf =
      _ from hsteady.pers_hdr_buf]
    rfl
  rw [hheld]
  exact h.owned.free_cached

theorem free_hdrs_inv (h : Inv s) (hctxs : s.ctxs = []) :
    Inv { s with pool := { hfastrpc_buf_free (kfree_hdr_bufs s.pool) s.pool.pers_hdr_buf false with
      pers_hdr_buf := none } } := by
  have hcre : ∀ id ∈ s.held, id ∉ s.pool.hdr_bufs := by
    intro id hid
    simp only [Session.held, Session.ctx_bufs, hctxs, List.flatMap_nil, List.nil_append,
      List.mem_append] at hid
    rcases hid with hid | hid
    · exact h.parent id (by simpa using hid)
    · rcases h.one with hno | ⟨k, _, hpers⟩
      · simp [hno] at hid
      · simp [h.heads hpers]
  obtain ⟨hfree, hsteady⟩ := owned_free (h.owned.kfree_hdr_bufs hcre) false
  refine ⟨h.ctxs, ?_, fun _ => hsteady.hdr_bufs, by nofun, ?_, ?_, h.closing⟩
  · rcases h.one with hno | ⟨k, hk, _⟩
    · exact Or.inl hno
    · exact Or.inr ⟨k, hk, rfl⟩
  · exact ⟨hfree.unique, hfree.below, hfree.nodup, hfree.live, hfree.placed, hfree.chunk,
      hfree.plain, hfree.mapped, hfree.heap, hfree.count⟩
  · intro id hid
    exact hsteady.remote_bufs id (h.mmap id hid)

/-! ## Runs -/

theorem step_inv {a : Act} (h : Inv s) (hone : OneCreation s a) (ht : step s a = some t) :
    Inv t := by
  cases a with
  | context_alloc c =>
    obtain ⟨hno, ⟨⟩⟩ := Option.ite_none_left_eq_some.mp ht
    have hnew : s.ctx c = none := by
      simp only [not_or, Bool.not_eq_true, Option.isSome_eq_false_iff,
        Option.isNone_iff_eq_none] at hno
      exact hno.2
    exact ⟨h.ctxs.cons (lookup_eq_none.mp hnew), h.one, h.heads, h.parent, h.owned, h.mmap,
      h.closing⟩
  | get_args_buf c metalen e =>
    obtain ⟨_, ht⟩ := Option.ite_none_left_eq_some.mp ht
    obtain ⟨x, hx, ht⟩ := Option.bind_eq_some_iff.mp ht
    rcases hb : x.bufs <;> rw [hb] at ht <;> cases ht
    exact get_args_buf_inv h hx hb
  | get_args_copybuf c copylen e =>
    obtain ⟨_, ht⟩ := Option.ite_none_left_eq_some.mp ht
    obtain ⟨x, hx, ht⟩ := Option.bind_eq_some_iff.mp ht
    rcases hb : x.bufs <;> rw [hb] at ht <;> cases ht
    exact get_args_copybuf_inv h hx hb
  | context_free_buf c =>
    obtain ⟨x, hx, ht⟩ := Option.bind_eq_some_iff.mp ht
    rcases hb : x.bufs <;> rw [hb] at ht <;> cases ht
    all_goals
      refine context_free_buf_inv h hx ?_
      simp [Ctx.holds, copies, hb]
  | context_free_copybuf c =>
    obtain ⟨x, hx, ht⟩ := Option.bind_eq_some_iff.mp ht
    rcases hb : x.bufs <;> rw [hb] at ht <;> cases ht
    exact context_free_copybuf_inv h hx hb
  | mmap size e =>
    rcases ha : hfastrpc_buf_alloc s.pool size .USERHEAP e with ⟨pool, r⟩
    simp only [step, ha] at ht
    obtain ⟨hno, ⟨⟩⟩ := Option.ite_none_left_eq_some.mp ht
    simp only [not_or, Bool.not_eq_true] at hno
    exact mmap_inv h hno.1 ha
  | mmap_rsp ok =>
    obtain ⟨id, hid, ht⟩ := Option.bind_eq_some_iff.mp ht
    cases ht
    cases ok with
    | false => exact free_heap_inv h (h.mmap id hid)
    | true => exact ⟨h.ctxs, h.one, h.heads, h.parent, h.owned, by nofun, fun _ => rfl⟩
  | munmap id =>
    obtain ⟨hno, ⟨⟩⟩ := Option.ite_none_left_eq_some.mp ht
    simp only [not_or, Bool.not_eq_true, Option.isSome_eq_false_iff, Option.isNone_iff_eq_none,
      Decidable.not_not] at hno
    have hfree := free_heap_inv h hno.2.2
    rw [← hno.2.1] at hfree
    exact hfree
  | hdr_check key user_concurrency =>
    obtain ⟨_, ⟨⟩⟩ := Option.ite_none_left_eq_some.mp ht
    exact hdr_check_inv h hone
  | hdr_alloc key e =>
    obtain ⟨k, hk, ht⟩ := Option.bind_eq_some_iff.mp ht
    obtain ⟨hno, ⟨⟩⟩ := Option.ite_none_left_eq_some.mp ht
    exact hdr_alloc_inv h hk (by simpa using hno)
  | hdr_rsp key ok =>
    obtain ⟨k, hk, ht⟩ := Option.bind_eq_some_iff.mp ht
    obtain ⟨id, hid, ht⟩ := Option.bind_eq_some_iff.mp ht
    cases ht
    cases ok with
    | false => exact hdr_bail_inv h hk
    | true => exact hdr_install_inv h hk hid
  | file_free =>
    obtain ⟨hno, ⟨⟩⟩ := Option.ite_none_left_eq_some.mp ht
    simp only [not_or, Option.isSome_eq_false_iff, Bool.not_eq_true, Option.isNone_iff_eq_none]
      at hno
    exact ⟨h.ctxs, h.one, h.heads, h.parent, h.owned, h.mmap, fun _ => hno.2.1⟩
  | cached_buf_list_free =>
    obtain ⟨_, ⟨⟩⟩ := Option.ite_none_right_eq_some.mp ht
    exact cached_buf_list_free_inv h
  | remote_buf_list_free =>
    obtain ⟨hc, ⟨⟩⟩ := Option.ite_none_right_eq_some.mp ht
    rcases hr : s.pool.remote_bufs with _ | ⟨id, rest⟩
    · exact h
    · have hfree := free_heap_inv h (show id ∈ s.pool.remote_bufs by simp [hr])
      rw [← h.closing hc.1] at hfree
      exact hfree
  | free_hdrs =>
    obtain ⟨hc, ⟨⟩⟩ := Option.ite_none_right_eq_some.mp ht
    exact free_hdrs_inv h hc.2.1

theorem reachable_inv (hr : ReachableUnder step OneCreation Session.init s) : Inv s :=
  hr.inv Inv (fun _ _ _ h hone ht => step_inv h hone ht) inv_init

/-! ## The law -/

/-- Each buffer is in one place, a chunk of the persistent headers is marked while one context
holds it, and the counter of the cache is exact. -/
structure Exclusive (s : Session) : Prop where
  /-- `places` are the cache, the user heap and the other owners. -/
  one_place : ∀ id b, s.pool.buf id = some b → id ∉ s.pool.hdr_bufs →
    (places s.pool s.held).count id = 1
  live : ∀ id ∈ places s.pool s.held, ∃ b, s.pool.buf id = some b
  not_cached : ∀ id ∈ s.pool.remote_bufs ++ s.held, id ∉ s.pool.cached_bufs
  chunk : ∀ id ∈ s.pool.hdr_bufs, id ∉ s.pool.cached_bufs ∧ ∃ b, s.pool.buf id = some b ∧
    (b.pers_hdr_in_use = true ↔ s.ctx_bufs.count id = 1) ∧
    (b.pers_hdr_in_use = false ↔ s.ctx_bufs.count id = 0)
  counter : s.pool.num_cached_buf = s.pool.cached_bufs.length

/-- What hfastrpc_buf_alloc gives out: no owner has the buffer, it is large enough, and of the
buffers of the cache it is a smallest one that fits. -/
structure Served (s : Session) (p' : Pool) (size : Nat) (ty : BufType) (id : Nat) : Prop where
  free : id ∉ s.pool.remote_bufs ++ s.held
  usable : ∃ b, p'.buf id = some b ∧ size ≤ b.size ∧
    (ty ≠ .USERHEAP → b.va = true ∧ PAGE_SIZE ∣ b.size ∧ buf_page_size size ≤ b.size)
  smallest : id ∈ s.pool.cached_bufs → ∀ b, s.pool.buf id = some b →
    ∀ j ∈ s.pool.cached_bufs, ∀ c, s.pool.buf j = some c → size ≤ c.size → b.size ≤ c.size

theorem Inv.exclusive (h : Inv s) : Exclusive s := by
  have hnodup := h.owned.nodup
  refine ⟨?_, h.owned.live, ?_, ?_, h.owned.count⟩
  · intro id b hb hno
    apply List.count_eq_one_of_mem hnodup
    exact (h.owned.placed id b hb).mpr (fun hin => absurd hin hno)
  · intro id hid hc
    exact List.disjoint_of_nodup_append hnodup hc hid
  · intro id hid
    obtain ⟨⟨b, hb, _⟩, hnc, hnr⟩ := h.owned.chunk id hid
    -- only a context can have a chunk
    have hctx : id ∈ s.ctx_bufs ↔ id ∈ places s.pool s.held := by
      have hpers : id ∉ s.pool.pers_hdr_buf.toList := by
        intro hm
        exact h.parent id (by simpa using hm) hid
      have hcre : s.creations = [] := by
        rcases h.one with hno | ⟨k, _, hp⟩
        · exact hno
        · rw [h.heads hp] at hid
          cases hid
      simp [places, Session.held, hnc, hnr, hpers, hcre]
    have hnd : s.ctx_bufs.Nodup := by
      have := (List.nodup_append.mp (List.nodup_append.mp hnodup).2.1).2.1
      exact (List.nodup_append.mp (List.nodup_append.mp this).2.1).1
    have huse : b.pers_hdr_in_use = true ↔ id ∈ s.ctx_bufs := by
      rw [hctx, h.owned.placed id b hb]
      simp [hid]
    refine ⟨hnc, b, hb, ?_, ?_⟩
    · rw [huse, ← List.count_pos_iff]
      have := List.nodup_iff_count_le_one.mp hnd id
      omega
    · rw [← Bool.not_eq_true, huse, List.count_eq_zero]

theorem buf_page_size_le_of_dvd {size n : Nat} (hpos : 0 < size) (hle : size ≤ n)
    (hdvd : PAGE_SIZE ∣ n) : buf_page_size size ≤ n := by
  refine (hybrid_marshal.buf_page_size_le hpos).trans ?_
  have hn : PAGE_ALIGN n = n := by
    obtain ⟨k, rfl⟩ := hdvd
    unfold PAGE_ALIGN ALIGN PAGE_SIZE
    omega
  rw [← hn]
  exact hybrid_marshal.PAGE_ALIGN_mono hle

theorem Inv.served (h : Inv s) {size id : Nat} {ty : BufType} {e : AllocEnv}
    (ha : hfastrpc_buf_alloc s.pool size ty e = (p', some id)) : Served s p' size ty id := by
  have hpos : 0 < size := by
    rcases Nat.eq_zero_or_pos size with rfl | hpos
    · simp [hfastrpc_buf_alloc, buf_alloc] at ha
    · exact hpos
  rcases buf_alloc_cases ha with ⟨hr, _⟩ | ⟨i, hr, _, hg⟩ | ⟨b, hr, hf, hty, rfl⟩ | ⟨hr, rfl⟩
  · cases hr
  · -- a chunk of the persistent headers
    cases hr
    obtain ⟨hid, ⟨b, hb, hfree⟩, rfl, _, hsize⟩ := get_persistent_some hg
    obtain ⟨⟨b', hb', hbs, hbv⟩, hnc, _⟩ := h.owned.chunk id hid
    rw [hb] at hb'
    cases hb'
    refine ⟨?_, ⟨b.setInUse true, buf_setBuf_self hb (fun _ => rfl), ?_, fun _ => ?_⟩,
      fun hc => absurd hc hnc⟩
    · intro hm
      have := (h.owned.placed id b hb).mp (List.mem_append_right _ hm) hid
      rw [hfree] at this
      cases this
    · exact hsize.trans hbs.ge
    · have hdvd : PAGE_SIZE ∣ b.size := hbs ▸ Nat.dvd_refl _
      exact ⟨hbv, hdvd, buf_page_size_le_of_dvd hpos (hsize.trans hbs.ge) hdvd⟩
  · -- a buffer of the cache
    cases hr
    obtain ⟨hin, hb, hsize, hsmall⟩ := find_cached_some hf
    have hnot : b.id ∉ s.pool.remote_bufs ++ s.held :=
      fun hm => List.disjoint_of_nodup_append h.owned.nodup hin hm
    have hcold : b.type ≠ some .USERHEAP := by
      intro ht
      exact hnot (List.mem_append_left _ ((h.owned.heap _ b hb).mp ht))
    obtain ⟨hva, hdvd⟩ := h.owned.mapped _ b hb hcold
    refine ⟨hnot, ⟨b.setType (some ty), ?_, hsize, fun _ => ?_⟩, ?_⟩
    · exact buf_setBuf_self hb (fun _ => rfl)
    · exact ⟨hva, hdvd, buf_page_size_le_of_dvd hpos hsize hdvd⟩
    · intro _ c hc
      rw [hb] at hc
      cases hc
      exact hsmall
  · -- a new buffer
    cases hr
    have hnew : s.pool.next ∉ places s.pool s.held := by
      intro hm
      obtain ⟨b, hb⟩ := h.owned.live _ hm
      have hlt := h.owned.below b (mem_of_lookup hb)
      rw [key_of_lookup hb] at hlt
      exact Nat.lt_irrefl _ hlt
    refine ⟨fun hm => hnew (List.mem_append_right _ hm),
      ⟨new_buf .hybrid s.pool size (decide (ty = .USERHEAP)) ty, lookup_cons_self _, ?_, ?_⟩,
      fun hc => absurd (List.mem_append_left _ hc) hnew⟩
    · show size ≤ if ty = .USERHEAP then size else PAGE_ALIGN size
      split
      · exact Nat.le_refl _
      · unfold PAGE_ALIGN ALIGN PAGE_SIZE
        omega
    · intro hty
      have hsize : (new_buf .hybrid s.pool size (decide (ty = .USERHEAP)) ty).size =
          PAGE_ALIGN size := if_neg hty
      rw [hsize]
      refine ⟨by simp [new_buf, hty], PAGE_SIZE_dvd_PAGE_ALIGN size, ?_⟩
      exact hybrid_marshal.buf_page_size_le hpos

/-- As long as one thread at a time makes the persistent headers, every buffer has one owner, and
every allocation gives out a free buffer that fits. -/
theorem buffers_have_one_owner (s : Session)
    (hr : ReachableUnder step OneCreation Session.init s) :
    Exclusive s ∧ ∀ size ty e p' id, hfastrpc_buf_alloc s.pool size ty e = (p', some id) →
      Served s p' size ty id :=
  ⟨(reachable_inv hr).exclusive, fun _ _ _ _ _ ha => (reachable_inv hr).served ha⟩

def allOk : AllocEnv := ⟨true, true, true⟩

/-- A session with persistent headers, and a call with its metadata in the first of them and its
copies in a buffer of their own. -/
def oneCall : List Act :=
  [.hdr_check 0 2, .hdr_alloc 0 allOk, .hdr_rsp 0 true, .context_alloc 7, .get_args_buf 7 400 allOk,
    .get_args_copybuf 7 9000 allOk]

def oneCallState : Session :=
  ⟨⟨[⟨3, 12288, true, some .COPYDATA, false⟩, ⟨1, 4096, true, some .METADATA, true⟩,
      ⟨2, 4096, true, some .METADATA, false⟩, ⟨0, 8192, true, some .METADATA, false⟩],
      4, [], 0, [], [1, 2], some 0⟩,
    [⟨7, .ready (some 1) (some 3)⟩], [], none, false⟩

theorem a_call_holds_two_buffers :
    Exclusive oneCallState ∧ ∀ size ty e p' id,
      hfastrpc_buf_alloc oneCallState.pool size ty e = (p', some id) →
      Served oneCallState p' size ty id := by
  apply buffers_have_one_owner
  refine ⟨oneCall, Meets.cons (fun _ _ => rfl) rfl (meets_of_forall ?_ _), rfl⟩
  intro a ha s
  simp only [List.mem_cons, List.not_mem_nil, or_false] at ha
  rcases ha with rfl | rfl | rfl | rfl | rfl <;> trivial

/-- Two threads ask for persistent headers at the same time, and both see that there are none. -/
def twoCreations : List Act :=
  [.hdr_check 0 1, .hdr_check 1 1, .hdr_alloc 0 allOk, .hdr_alloc 1 allOk, .hdr_rsp 0 true,
    .hdr_rsp 1 true]

def twoCreationsState : Session :=
  ⟨⟨[⟨3, 4096, true, some .METADATA, false⟩, ⟨2, 4096, true, some .METADATA, false⟩,
      ⟨1, 4096, true, some .METADATA, false⟩, ⟨0, 4096, true, some .METADATA, false⟩],
      4, [], 0, [], [3], some 1⟩, [], [], none, false⟩

/-- The buffer of the first thread still has its pages, and nobody has it. -/
theorem the_first_persistent_header_buffer_is_lost :
    Reachable step Session.init twoCreationsState ∧
      (twoCreationsState.pool.buf 0).isSome ∧
      (places twoCreationsState.pool twoCreationsState.held).count 0 = 0 ∧
      ¬ Exclusive twoCreationsState := by
  refine ⟨⟨twoCreations, by decide⟩, rfl, rfl, fun hex => ?_⟩
  have hone := hex.one_place 0 ⟨0, 4096, true, some .METADATA, false⟩ rfl (by decide)
  exact absurd hone (by decide)

end virtual_fastrpc.buffer_runs
