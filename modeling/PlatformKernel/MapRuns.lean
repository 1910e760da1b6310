-- A session at work on its map table: invokes, mmap and mem_map, their undo
-- calls, and a client that changes its fds in between. Each step is one
-- section of code under the map_mutex. The laws count who holds each map.
import PlatformKernel.Lib.Runs
import PlatformKernel.MapTable
import Mathlib.Data.List.GetD

namespace virtual_fastrpc.map_table

open keyed step_runs

/-! ## The state of a session -/

inductive CtxPhase
  /-- get_args maps the buffers one by one. -/
  | mapping
  /-- Everything is mapped. -/
  | ready
  /-- A map could not be made, and context_free is next. -/
  | failed
  deriving DecidableEq, Repr

/-- A live invoke context: `maps` holds `ctx->maps[i]` for the buffers that get_args has
handled. -/
structure Ctx where
  id : Nat
  inbufs : Nat
  outbufs : Nat
  maps : List (Option Nat)
  phase : CtxPhase
  deriving DecidableEq, Repr

/-- The two pairs of calls that map and unmap a dma-buf on the DSP. -/
inductive MapCall
  | mmap | mem_map
  deriving DecidableEq, Repr

/-- The call that holds the internal_map_mutex. -/
inductive Op
  /-- The map is made, and the DSP is asked for its address. -/
  | mapping (call : MapCall) (id : Nat)
  /-- The map is off the list, and the DSP is asked to give it up. -/
  | unmapping (call : MapCall) (m : Map)
  deriving DecidableEq, Repr

structure Session where
  table : Table
  ctxs : List Ctx
  next_ctx : Nat
  op : Option Op
  /-- The dma-bufs behind the fds of the client. -/
  fdtable : Int → Option Nat

def init (fdtable : Int → Option Nat) : Session := ⟨⟨[], 0⟩, [], 0, none, fdtable⟩

def Session.setMaps (s : Session) (maps : List Map) : Session :=
  { s with table := { s.table with maps } }

def Session.setCtx (s : Session) (c : Nat) (f : Ctx → Ctx) : Session :=
  { s with ctxs := update Ctx.id s.ctxs c f }

/-! ## The steps -/

inductive Act
  | set_fd (fd : Int) (buf : Option Nat)
  | context_alloc (inbufs outbufs : Nat)
  | get_buf (c : Nat) (a : Arg)
  | get_handles (c : Nat) (cap : Bool) (as : List Arg)
  | put_buf (c i : Nat)
  | put_fdlist (c : Nat) (fdlist : List (BitVec 64))
  | context_free (c : Nat)
  | mmap (fd : Int) (va len : BitVec 64) (flags : BitVec 32) (env : CreateEnv)
  | mem_map (fd : Int) (attrs : BitVec 32) (va len : BitVec 64) (flags : BitVec 32)
    (env : CreateEnv)
  | map_done (raddr : BitVec 64)
  | map_fail
  | munmap (vaddrout size : BitVec 64)
  | mem_unmap (fd : Int) (vaddr len : BitVec 64)
  | unmap_done
  | unmap_fail
  | munmap_fd (fd : Int)
  deriving DecidableEq, Repr

def onCtx (s : Session) (c : Nat) (ok : Ctx → Bool) (f : Ctx → Session) : Option Session :=
  match lookup Ctx.id s.ctxs c with
  | some x => if ok x then some (f x) else none
  | none => none

def Ctx.push (p : Option Nat) (c : Ctx) : Ctx := { c with maps := c.maps ++ [p] }

def Ctx.goto (ph : CtxPhase) (c : Ctx) : Ctx := { c with phase := ph }

def Ctx.clear (i : Nat) (c : Ctx) : Ctx := { c with maps := c.maps.set i none }

def get_buf (d : Driver) (sh : AdsprpcShared) (s : Session) (a : Arg) (c : Ctx) : Session :=
  match get_args_buf d sh s.fdtable s.table a with
  | (t, .ok p) => { s with table := t }.setCtx c.id (.push p)
  | (t, .error _) => { s with table := t }.setCtx c.id (.goto .failed)

def get_handles (d : Driver) (sh : AdsprpcShared) (s : Session) (cap : Bool) (as : List Arg)
    (c : Ctx) : Session :=
  match get_args_handles d sh cap s.fdtable s.table [] as with
  | (t, .ok _) => { s with table := t }.setCtx c.id (.goto .ready)
  | (t, .error _) => { s with table := t }.setCtx c.id (.goto .failed)

/-- The start of mmap and mem_map, under the internal_map_mutex. -/
def begin_map (d : Driver) (sh : AdsprpcShared) (s : Session) (call : MapCall) (fd : Int)
    (attr : BitVec 32) (va len : BitVec 64) (flags : BitVec 32) (env : CreateEnv) :
    Option Session :=
  if s.op.isSome then none
  else
    match mmap_create d sh s.table fd attr va len flags (s.fdtable fd) env with
    | (t, .ok id) => some { s with table := t, op := some (.mapping call id) }
    | (t, .error _) => some { s with table := t }

/-- What a mapped map gets: its address on the DSP, and in mem_map of the virtio driver also an
attribute. -/
def Map.mapped (d : Driver) (call : MapCall) (raddr : BitVec 64) (m : Map) : Map :=
  { m with
    raddr
    attr := if d = .virtio ∧ call = .mem_map then m.attr ||| VFASTRPC_MAP_ATTR_BUFFER_MAPPED
      else m.attr }

/-- The start of munmap and mem_unmap, under the internal_map_mutex. -/
def begin_unmap (sh : AdsprpcShared) (s : Session) (call : MapCall) (fd : Int)
    (va len : BitVec 64) : Option Session :=
  if s.op.isSome then none
  else
    match vfastrpc_mmap_remove sh s.table.maps fd va len with
    | .ok (m, maps) => some { s.setMaps maps with op := some (.unmapping call m) }
    | .error _ => some s

/-- mem_unmap unmaps maps of these kinds only. -/
def memUnmapFlags (sh : AdsprpcShared) (flags : BitVec 32) : Bool :=
  flags == sh.FASTRPC_MAP_FD || flags == sh.FASTRPC_MAP_FD_DELAYED ||
    flags == sh.FASTRPC_MAP_STATIC

/-- The map that goes back to the list after a failed unmap. Only mem_unmap gives back the
reference that vfastrpc_mmap_remove took from a map that is kept. -/
def readded (sh : AdsprpcShared) (call : MapCall) (m : Map) : Map :=
  if call = .mem_map ∧ m.keep sh then m.addRef else m

def step (d : Driver) (sh : AdsprpcShared) (s : Session) : Act → Option Session
  | .set_fd fd buf => some { s with fdtable := fun f => if f = fd then buf else s.fdtable f }
  | .context_alloc inbufs outbufs =>
    some { s with
      ctxs := ⟨s.next_ctx, inbufs, outbufs, [], .mapping⟩ :: s.ctxs
      next_ctx := s.next_ctx + 1 }
  | .get_buf c a =>
    onCtx s c (fun x => x.phase == .mapping && decide (x.maps.length < x.inbufs + x.outbufs))
      (get_buf d sh s a)
  | .get_handles c cap as =>
    onCtx s c (fun x => x.phase == .mapping && decide (x.maps.length = x.inbufs + x.outbufs))
      (get_handles d sh s cap as)
  | .put_buf c i =>
    onCtx s c (fun x => x.phase == .ready && decide (x.inbufs ≤ i)) fun x =>
      (s.setMaps (release_buf s.table.maps (x.maps.getD i none))).setCtx c (.clear i)
  | .put_fdlist c fdlist =>
    onCtx s c (·.phase == .ready) fun _ => s.setMaps (put_args_fdlist s.table.maps fdlist)
  | .context_free c =>
    onCtx s c (fun _ => true) fun x =>
      { s.setMaps (context_free s.table.maps x.maps) with ctxs := remove Ctx.id s.ctxs c }
  | .mmap fd va len flags env => begin_map d sh s .mmap fd 0 va len flags env
  | .mem_map fd attrs va len flags env => begin_map d sh s .mem_map fd attrs va len flags env
  | .map_done raddr =>
    match s.op with
    | some (.mapping call id) =>
      -- mem_map gives up with EEXIST on a map that has an address already
      if call = .mem_map ∧ s.table.maps.any (fun m => m.id == id && m.raddr != 0) then none
      else some { s.setMaps (update Map.id s.table.maps id (.mapped d call raddr)) with op := none }
    | _ => none
  | .map_fail =>
    match s.op with
    | some (.mapping _ id) =>
      some { s.setMaps (alter Map.id s.table.maps id (mmap_free false)) with op := none }
    | _ => none
  | .munmap vaddrout size => begin_unmap sh s .mmap (-1) vaddrout size
  | .mem_unmap fd vaddr len => begin_unmap sh s .mem_map fd vaddr len
  | .unmap_done =>
    match s.op with
    | some (.unmapping call m) =>
      if call = .mem_map ∧ memUnmapFlags sh m.flags = false then none
      else some { s with op := none }
    | _ => none
  | .unmap_fail =>
    match s.op with
    | some (.unmapping call m) =>
      some { s.setMaps (vfastrpc_mmap_add s.table.maps (readded sh call m)) with op := none }
    | _ => none
  | .munmap_fd fd =>
    if s.op.isSome then none else some (s.setMaps (mmap_remove_fd sh s.table.maps fd).1)

/-! ## The ends of the map calls -/

section ends

variable {d : Driver} {sh : AdsprpcShared} {s t : Session}

theorem step_map_done {raddr : BitVec 64} (ht : step d sh s (.map_done raddr) = some t) :
    ∃ call id, s.op = some (.mapping call id) ∧
      ¬(call = .mem_map ∧ s.table.maps.any (fun m => m.id == id && m.raddr != 0)) ∧
      t = { s.setMaps (update Map.id s.table.maps id (.mapped d call raddr)) with op := none } := by
  simp only [step] at ht
  split at ht
  · rename_i call id hop
    obtain ⟨hnew, ⟨⟩⟩ := Option.ite_none_left_eq_some.mp ht
    exact ⟨call, id, hop, hnew, rfl⟩
  · cases ht

theorem step_map_fail (ht : step d sh s .map_fail = some t) :
    ∃ call id, s.op = some (.mapping call id) ∧
      t = { s.setMaps (alter Map.id s.table.maps id (mmap_free false)) with op := none } := by
  simp only [step] at ht
  split at ht
  · rename_i call id hop
    cases ht
    exact ⟨call, id, hop, rfl⟩
  · cases ht

theorem step_unmap_done (ht : step d sh s .unmap_done = some t) :
    ∃ call m, s.op = some (.unmapping call m) ∧
      ¬(call = .mem_map ∧ memUnmapFlags sh m.flags = false) ∧ t = { s with op := none } := by
  simp only [step] at ht
  split at ht
  · rename_i call m hop
    obtain ⟨hflags, ⟨⟩⟩ := Option.ite_none_left_eq_some.mp ht
    exact ⟨call, m, hop, hflags, rfl⟩
  · cases ht

theorem step_unmap_fail (ht : step d sh s .unmap_fail = some t) :
    ∃ call m, s.op = some (.unmapping call m) ∧
      t = { s.setMaps (vfastrpc_mmap_add s.table.maps (readded sh call m)) with op := none } := by
  simp only [step] at ht
  split at ht
  · rename_i call m hop
    cases ht
    exact ⟨call, m, hop, rfl⟩
  · cases ht

theorem step_munmap_fd {fd : Int} (ht : step d sh s (.munmap_fd fd) = some t) :
    s.op = none ∧ t = s.setMaps (mmap_remove_fd sh s.table.maps fd).1 := by
  obtain ⟨hop, ⟨⟩⟩ := Option.ite_none_left_eq_some.mp ht
  exact ⟨by simpa using hop, rfl⟩

end ends

/-! ## What the sections of an invoke leave alone -/

section invoke

variable (d : Driver) (sh : AdsprpcShared) (s : Session) (c : Ctx)

@[simp] theorem get_buf_table (a : Arg) :
    (get_buf d sh s a c).table = (get_args_buf d sh s.fdtable s.table a).1 := by
  unfold get_buf
  rcases get_args_buf d sh s.fdtable s.table a with ⟨t, e | p⟩ <;> rfl

@[simp] theorem get_buf_op (a : Arg) : (get_buf d sh s a c).op = s.op := by
  unfold get_buf
  split <;> rfl

@[simp] theorem get_buf_next_ctx (a : Arg) : (get_buf d sh s a c).next_ctx = s.next_ctx := by
  unfold get_buf
  split <;> rfl

@[simp] theorem get_buf_fdtable (a : Arg) : (get_buf d sh s a c).fdtable = s.fdtable := by
  unfold get_buf
  split <;> rfl

@[simp] theorem get_handles_table (cap : Bool) (as : List Arg) :
    (get_handles d sh s cap as c).table =
    (get_args_handles d sh cap s.fdtable s.table [] as).1 := by
  unfold get_handles
  rcases get_args_handles d sh cap s.fdtable s.table [] as with ⟨t, e | ids⟩ <;> rfl

@[simp] theorem get_handles_op (cap : Bool) (as : List Arg) :
    (get_handles d sh s cap as c).op = s.op := by
  unfold get_handles
  split <;> rfl

@[simp] theorem get_handles_next_ctx (cap : Bool) (as : List Arg) :
    (get_handles d sh s cap as c).next_ctx = s.next_ctx := by
  unfold get_handles
  split <;> rfl

@[simp] theorem get_handles_fdtable (cap : Bool) (as : List Arg) :
    (get_handles d sh s cap as c).fdtable = s.fdtable := by
  unfold get_handles
  split <;> rfl

end invoke

/-! ## Who points to a map -/

/-- The pairs of a live context and a buffer of it whose map is `id`. -/
def pointers (ctxs : List Ctx) (id : Nat) : Nat := weight (fun c => c.maps.count (some id)) ctxs

/-- Each map counts exactly the pointers to it, and every pointer is to a map of the table.
The map `off` is one that an unmap call has taken off the list. -/
structure Exact (t : Table) (P : Nat → Nat) (off : Option Nat) : Prop where
  unique : Unique Map.id t.maps
  fresh : ∀ m ∈ t.maps, m.id < t.next
  exact : ∀ m ∈ t.maps, m.ctx_refs = P m.id
  listed : ∀ id, 0 < P id → ∃ m ∈ t.maps, m.id = id
  apart : ∀ id, off = some id → id < t.next ∧ ∀ m ∈ t.maps, m.id ≠ id

variable {off : Option Nat}

/-- A change of each map, or its end, keeps the counts exact: what is left of a map counts the
pointers that are left, and a map that goes away has none. -/
theorem Exact.filterMap {t : Table} {P Q : Nat → Nat} (h : Exact t P off) {f : Map → Option Map}
    (hsome : ∀ m ∈ t.maps, ∀ m', f m = some m' → m'.id = m.id ∧ m'.ctx_refs = Q m.id)
    (hnone : ∀ m ∈ t.maps, f m = none → Q m.id = 0) (hle : ∀ id, Q id ≤ P id) :
    Exact { t with maps := t.maps.filterMap f } Q off := by
  refine ⟨h.unique.filterMap (fun m hm m' he => (hsome m hm m' he).1), ?_, ?_, ?_, ?_⟩
  · intro m' hm'
    obtain ⟨m, hm, he⟩ := List.mem_filterMap.mp hm'
    rw [(hsome m hm m' he).1]
    exact h.fresh m hm
  · intro m' hm'
    obtain ⟨m, hm, he⟩ := List.mem_filterMap.mp hm'
    obtain ⟨h1, h2⟩ := hsome m hm m' he
    rw [h1, h2]
  · intro id hid
    obtain ⟨m, hm, rfl⟩ := h.listed id (Nat.lt_of_lt_of_le hid (hle id))
    rcases he : f m with _ | m'
    · have := hnone m hm he
      omega
    · exact ⟨m', List.mem_filterMap.mpr ⟨m, hm, he⟩, (hsome m hm m' he).1⟩
  · intro id hid
    refine ⟨(h.apart id hid).1, ?_⟩
    intro m' hm'
    obtain ⟨m, hm, he⟩ := List.mem_filterMap.mp hm'
    rw [(hsome m hm m' he).1]
    exact (h.apart id hid).2 m hm

/-- A change of one map that takes no pointer from it. -/
theorem Exact.alter {t : Table} {P : Nat → Nat} (h : Exact t P off) {id : Nat}
    {f : Map → Option Map}
    (hsome : ∀ m m', f m = some m' → m'.id = m.id ∧ m'.ctx_refs = m.ctx_refs)
    (hnone : ∀ m, f m = none → m.ctx_refs = 0) :
    Exact { t with maps := alter Map.id t.maps id f } P off := by
  refine h.filterMap ?_ ?_ (fun _ => Nat.le_refl _)
  · intro m hm m' he
    split at he
    · obtain ⟨h1, h2⟩ := hsome m m' he
      exact ⟨h1, h2.trans (h.exact m hm)⟩
    · cases he
      exact ⟨rfl, h.exact m hm⟩
  · intro m hm he
    split at he
    · have h1 := hnone m he
      have h2 := h.exact m hm
      omega
    · cases he

theorem Exact.update {t : Table} {P : Nat → Nat} (h : Exact t P off) {id : Nat} {f : Map → Map}
    (hf : ∀ m, (f m).id = m.id ∧ (f m).ctx_refs = m.ctx_refs) :
    Exact { t with maps := update Map.id t.maps id f } P off := by
  rw [update_eq_alter]
  refine h.alter ?_ ?_
  · intro m m' he
    cases he
    exact hf m
  · intro m he
    cases he

/-- A new pointer to a map of the table. -/
theorem Exact.addCtx {t : Table} {P Q : Nat → Nat} (h : Exact t P off) {id : Nat}
    (hid : ∃ m ∈ t.maps, m.id = id) (hQ : ∀ j, Q j = P j + if j = id then 1 else 0) :
    Exact { t with maps := keyed.update Map.id t.maps id .addCtx } Q off := by
  have hmem : ∀ m' ∈ keyed.update Map.id t.maps id .addCtx,
      ∃ m ∈ t.maps, m'.id = m.id ∧ m'.ctx_refs = m.ctx_refs + if m.id = id then 1 else 0 := by
    intro m' hm'
    rcases mem_update.mp hm' with ⟨hm, hne⟩ | ⟨m, hm, hk, rfl⟩
    · exact ⟨m', hm, rfl, by simp [hne]⟩
    · exact ⟨m, hm, rfl, by simp [Map.addCtx, hk]⟩
  refine ⟨h.unique.update (fun _ => rfl), ?_, ?_, ?_, ?_⟩
  · intro m' hm'
    obtain ⟨m, hm, h1, _⟩ := hmem m' hm'
    rw [h1]
    exact h.fresh m hm
  · intro m' hm'
    obtain ⟨m, hm, h1, h2⟩ := hmem m' hm'
    rw [h2, h1, h.exact m hm, hQ]
    split <;> simp
  · intro j hj
    have hex : ∃ m ∈ t.maps, m.id = j := by
      by_cases hji : j = id
      · rw [hji]
        exact hid
      · rw [hQ, if_neg hji] at hj
        exact h.listed j (by omega)
    obtain ⟨m, hm, rfl⟩ := hex
    by_cases hmi : m.id = id
    · exact ⟨m.addCtx, mem_update.mpr (Or.inr ⟨m, hm, hmi, rfl⟩), rfl⟩
    · exact ⟨m, mem_update.mpr (Or.inl ⟨hm, hmi⟩), rfl⟩
  · intro j hj
    refine ⟨(h.apart j hj).1, ?_⟩
    intro m' hm'
    obtain ⟨m, hm, h1, _⟩ := hmem m' hm'
    rw [h1]
    exact (h.apart j hj).2 m hm

/-- A new map has no pointer to it. -/
theorem Exact.cons {t : Table} {P : Nat → Nat} (h : Exact t P off) {m : Map} {n : Nat}
    (hm : m.ctx_refs = 0) (hnew : ∀ x ∈ t.maps, x.id ≠ m.id) (hid : m.id < n)
    (hn : t.next ≤ n) (hoff : off ≠ some m.id) : Exact ⟨m :: t.maps, n⟩ P off := by
  have hzero : P m.id = 0 := by
    by_contra hp
    obtain ⟨x, hx, he⟩ := h.listed m.id (by omega)
    exact hnew x hx he
  refine ⟨h.unique.cons hnew, ?_, ?_, ?_, ?_⟩
  · intro x hx
    rcases List.mem_cons.mp hx with rfl | hx
    · exact hid
    · exact Nat.lt_of_lt_of_le (h.fresh x hx) hn
  · intro x hx
    rcases List.mem_cons.mp hx with rfl | hx
    · rw [hm, hzero]
      rfl
    · exact h.exact x hx
  · intro id hp
    obtain ⟨x, hx, he⟩ := h.listed id hp
    exact ⟨x, List.mem_cons_of_mem _ hx, he⟩
  · intro r hr
    refine ⟨Nat.lt_of_lt_of_le (h.apart r hr).1 hn, ?_⟩
    intro x hx
    rcases List.mem_cons.mp hx with rfl | hx
    · intro he
      exact hoff (he ▸ hr)
    · exact (h.apart r hr).2 x hx

theorem Exact.next {t : Table} {P : Nat → Nat} (h : Exact t P off) {n : Nat} (hn : t.next ≤ n) :
    Exact { t with next := n } P off :=
  ⟨h.unique, fun m hm => Nat.lt_of_lt_of_le (h.fresh m hm) hn, h.exact, h.listed,
    fun id hid => ⟨Nat.lt_of_lt_of_le (h.apart id hid).1 hn, (h.apart id hid).2⟩⟩

/-- A pointer to a map is given back. -/
theorem Exact.release {t : Table} {P Q : Nat → Nat} (h : Exact t P off) {p : Option Nat}
    (hP : ∀ j, P j = Q j + if p = some j then 1 else 0) :
    Exact { t with maps := release_buf t.maps p } Q off := by
  cases p with
  | none =>
    have he : P = Q := by
      funext j
      rw [hP j]
      simp
    exact he ▸ h
  | some id =>
    refine h.filterMap ?_ ?_ (fun j => by rw [hP j]; omega)
    · intro m hm m' he
      have hex := h.exact m hm
      rw [hP] at hex
      split at he
      · rename_i hk
        obtain ⟨h1, h2, _⟩ := mmap_free_some he
        refine ⟨h1, h2.trans ?_⟩
        rw [hk, if_pos rfl] at hex
        dsimp only
        rw [if_neg (by omega), hk]
        omega
      · rename_i hk
        cases he
        refine ⟨rfl, ?_⟩
        rw [if_neg (fun hx => hk (Option.some.inj hx).symm)] at hex
        simpa using hex
    · intro m hm he
      have hex := h.exact m hm
      rw [hP] at hex
      split at he
      · rename_i hk
        obtain ⟨_, h2, _⟩ := mmap_free_none he
        rw [hk, if_pos rfl] at hex
        dsimp only at h2
        rw [if_neg (by omega)] at h2
        rw [hk]
        omega
      · cases he

/-- The first of the buffers of a context gives back its pointer. -/
theorem Exact.release_head {t : Table} {P Q : Nat → Nat} (h : Exact t P off) {p : Option Nat}
    {bufs : List (Option Nat)} (hP : ∀ j, P j = Q j + (p :: bufs).count (some j)) :
    Exact { t with maps := release_buf t.maps p } (fun j => Q j + bufs.count (some j)) off := by
  refine h.release (fun j => ?_)
  rw [hP j, List.count_cons]
  by_cases hp : p = some j
  · simp [hp]
    omega
  · simp [hp]

/-- context_free gives back the pointers of a context one by one. -/
theorem Exact.context_free {t : Table} {P Q : Nat → Nat} (h : Exact t P off)
    {bufs : List (Option Nat)} (hP : ∀ j, P j = Q j + bufs.count (some j)) :
    Exact { t with maps := context_free t.maps bufs } Q off := by
  induction bufs generalizing t P with
  | nil =>
    have he : P = Q := by
      funext j
      rw [hP j]
      simp
    exact he ▸ h
  | cons p bufs ih => exact ih (h.release_head hP) (fun j => rfl)

/-! ## The other functions keep the counts -/

theorem Exact.create {t : Table} {P : Nat → Nat} (h : Exact t P off) (d : Driver)
    (sh : AdsprpcShared) (fd : Int) (attr : BitVec 32) (va len : BitVec 64) (mflags : BitVec 32)
    (buf : Option Nat) (env : CreateEnv) :
    Exact (mmap_create d sh t fd attr va len mflags buf env).1 P off ∧
      ∀ id, (mmap_create d sh t fd attr va len mflags buf env).2 = .ok id →
        ∃ m ∈ (mmap_create d sh t fd attr va len mflags buf env).1.maps, m.id = id := by
  rcases create_cases d sh t fd attr va len mflags buf env with
    ⟨m, hm, _, he⟩ | ⟨b, _, _, he⟩ | ⟨n, e, hn, he⟩
  · rw [he]
    refine ⟨h.update (fun _ => ⟨rfl, rfl⟩), ?_⟩
    intro id hid
    cases hid
    exact ⟨m.addRef, mem_update.mpr (Or.inr ⟨m, hm, rfl, rfl⟩), rfl⟩
  · rw [he]
    refine ⟨h.cons rfl ?_ (Nat.lt_succ_self _) (Nat.le_succ _) ?_, ?_⟩
    · intro x hx
      exact Nat.ne_of_lt (h.fresh x hx)
    · intro hid
      exact Nat.lt_irrefl _ (h.apart _ hid).1
    · intro id hid
      cases hid
      exact ⟨_, List.mem_cons_self, rfl⟩
  · rw [he]
    exact ⟨h.next hn, fun id hid => by cases hid⟩

/-- One turn of get_args over the buffers adds at most the pointer that it returns. -/
theorem Exact.get_args_buf {t : Table} {P : Nat → Nat} (h : Exact t P off) (d : Driver)
    (sh : AdsprpcShared) (fdtable : Int → Option Nat) (a : Arg) :
    (∃ t' p, map_table.get_args_buf d sh fdtable t a = (t', .ok p) ∧
      Exact t' (fun j => P j + if p = some j then 1 else 0) off) ∨
    (∃ t' e, map_table.get_args_buf d sh fdtable t a = (t', .error e) ∧ Exact t' P off) := by
  unfold map_table.get_args_buf
  split
  · exact Or.inl ⟨t, none, rfl, by simpa using h⟩
  · rename_i fd _
    have hc := h.create d sh fd a.attr a.pv a.len 0 (fdtable fd) a.env
    split
    · rename_i t' id he
      rw [he] at hc
      refine Or.inl ⟨_, some id, rfl, hc.1.addCtx (hc.2 id rfl) (fun j => ?_)⟩
      by_cases hj : j = id
      · simp [hj]
      · rw [if_neg hj, if_neg (fun hx => hj (Option.some.inj hx).symm)]
    · rename_i t' e he
      rw [he] at hc
      exact Or.inr ⟨t', e, rfl, hc.1⟩

theorem dropDma_some {m m' : Map} (h : m.dropDma = some m') :
    m'.id = m.id ∧ m'.ctx_refs = m.ctx_refs ∧ m'.fd = m.fd ∧ m'.buf = m.buf := by
  unfold Map.dropDma at h
  split at h
  · cases h
    exact ⟨rfl, rfl, rfl, rfl⟩
  · obtain ⟨h1, h2, h3, h4⟩ := mmap_free_some h
    exact ⟨h1, h2, h3, h4⟩

theorem dropDma_none {m : Map} (h : m.dropDma = none) : m.ctx_refs = 0 := by
  unfold Map.dropDma at h
  split at h
  · cases h
  · exact (mmap_free_none h).2.1

theorem clearDma_some {m m' : Map} (h : m.clearDma = some m') :
    m'.id = m.id ∧ m'.ctx_refs = m.ctx_refs ∧ m'.fd = m.fd ∧ m'.buf = m.buf := by
  unfold Map.clearDma at h
  split at h
  · cases h
    exact ⟨rfl, rfl, rfl, rfl⟩
  · obtain ⟨h1, h2, h3, h4⟩ := mmap_free_some h
    exact ⟨h1, h2, h3, h4⟩

theorem clearDma_none {m : Map} (h : m.clearDma = none) : m.ctx_refs = 0 := by
  unfold Map.clearDma at h
  split at h
  · cases h
  · exact (mmap_free_none h).2.1

theorem Exact.get_args_handles {t : Table} {P : Nat → Nat} (h : Exact t P off) (d : Driver)
    (sh : AdsprpcShared) (cap : Bool) (fdtable : Int → Option Nat) (taken : List Nat)
    (as : List Arg) : Exact (get_args_handles d sh cap fdtable t taken as).1 P off := by
  refine get_args_handles_keeps (Q := fun t => Exact t P off) d sh fdtable ?_ ?_ ?_ h cap taken as
  · intro t fd attr flags env t' id h he
    have hc := h.create d sh fd attr 0 0 flags (fdtable fd) env
    rw [he] at hc
    exact hc.1.update (f := .addDma) (fun _ => ⟨rfl, rfl⟩)
  · intro t fd attr flags env t' e h he
    have hc := h.create d sh fd attr 0 0 flags (fdtable fd) env
    rw [he] at hc
    exact hc.1
  · intro t id h
    exact h.alter (fun _ _ he => ⟨(dropDma_some he).1, (dropDma_some he).2.1⟩)
      (fun _ => dropDma_none)

theorem Exact.put_args_fdlist {t : Table} {P : Nat → Nat} (h : Exact t P off)
    (fdlist : List (BitVec 64)) :
    Exact { t with maps := put_args_fdlist t.maps fdlist } P off := by
  refine put_args_fdlist_keeps (Q := fun maps => Exact { t with maps } P off) ?_ h fdlist
  intro maps id h
  exact h.alter (fun _ _ he => ⟨(clearDma_some he).1, (clearDma_some he).2.1⟩)
    (fun _ => clearDma_none)

/-- vfastrpc_mmap_remove unlinks a map that no context points to. -/
theorem remove_ok {sh : AdsprpcShared} {maps maps' : List Map} {fd : Int} {va len : BitVec 64}
    {m' : Map} (h : vfastrpc_mmap_remove sh maps fd va len = .ok (m', maps')) :
    ∃ m ∈ maps, removable sh fd va len m = true ∧ maps' = remove Map.id maps m.id ∧
      m' = if m.keep sh then { m with refs := m.refs - 1 } else m := by
  unfold vfastrpc_mmap_remove at h
  split at h
  · rename_i m hm
    cases h
    exact ⟨m, List.mem_of_find?_eq_some hm, List.find?_some hm, rfl, rfl⟩
  · cases h

theorem removable_iff {sh : AdsprpcShared} {fd : Int} {va len : BitVec 64} {m : Map}
    (h : removable sh fd va len m = true) :
    (m.refs = 1 ∨ (m.refs = 2 ∧ m.keep sh = true)) ∧ m.ctx_refs = 0 ∧
      m.dma_handle_refs = 0 := by
  unfold removable at h
  simp only [Bool.and_eq_true, Bool.or_eq_true, beq_iff_eq] at h
  exact ⟨h.1.1.2, h.1.2, h.2⟩

/-- What mmap and mem_map do up to their message. -/
theorem begin_map_cases {d : Driver} {sh : AdsprpcShared} {s t : Session}
    {call : MapCall} {fd : Int}
    {attr : BitVec 32} {va len : BitVec 64} {flags : BitVec 32} {env : CreateEnv}
    (ht : begin_map d sh s call fd attr va len flags env = some t) :
    s.op = none ∧
      ((∃ t' id, mmap_create d sh s.table fd attr va len flags (s.fdtable fd) env = (t', .ok id) ∧
        t = { s with table := t', op := some (.mapping call id) }) ∨
      ∃ t' e, mmap_create d sh s.table fd attr va len flags (s.fdtable fd) env = (t', .error e) ∧
        t = { s with table := t' }) := by
  unfold begin_map at ht
  split at ht
  · cases ht
  rename_i hop
  refine ⟨by simpa using hop, ?_⟩
  split at ht
  · rename_i t' id he
    cases ht
    exact Or.inl ⟨t', id, he, rfl⟩
  · rename_i t' e he
    cases ht
    exact Or.inr ⟨t', e, he, rfl⟩

/-- What munmap and mem_unmap do up to their message: they take a map off the list, or find none. -/
theorem begin_unmap_cases {sh : AdsprpcShared} {s t : Session} {call : MapCall} {fd : Int}
    {va len : BitVec 64} (ht : begin_unmap sh s call fd va len = some t) :
    s.op = none ∧
      ((∃ m ∈ s.table.maps, removable sh fd va len m = true ∧
        t = { s.setMaps (remove Map.id s.table.maps m.id) with
          op := some (.unmapping call (if m.keep sh then { m with refs := m.refs - 1 } else m)) }) ∨
      t = s) := by
  unfold begin_unmap at ht
  split at ht
  · cases ht
  rename_i hop
  refine ⟨by simpa using hop, ?_⟩
  split at ht
  · rename_i m' maps hr
    cases ht
    obtain ⟨m, hm, hrem, rfl, rfl⟩ := remove_ok hr
    exact Or.inl ⟨m, hm, hrem, rfl⟩
  · cases ht
    exact Or.inr rfl

theorem Exact.remove {t : Table} {P : Nat → Nat} (h : Exact t P off) {m : Map} (hm : m ∈ t.maps)
    (hz : m.ctx_refs = 0) : Exact { t with maps := remove Map.id t.maps m.id } P off := by
  rw [remove_eq_alter]
  refine h.filterMap ?_ ?_ (fun _ => Nat.le_refl _)
  · intro x hx x' he
    split at he
    · cases he
    · cases he
      exact ⟨rfl, h.exact x hx⟩
  · intro x hx he
    split at he
    · rename_i hk
      have := h.exact m hm
      rw [hk]
      omega
    · cases he

theorem Exact.remove_fd {t : Table} {P : Nat → Nat} (h : Exact t P off) (sh : AdsprpcShared)
    (fd : Int) : Exact { t with maps := (mmap_remove_fd sh t.maps fd).1 } P off := by
  refine h.filterMap ?_ ?_ (fun _ => Nat.le_refl _)
  · intro m hm m' he
    split at he
    · obtain ⟨h1, h2, _⟩ := mmap_free_some he
      exact ⟨h1, h2.trans (h.exact m hm)⟩
    · cases he
      exact ⟨rfl, h.exact m hm⟩
  · intro m hm he
    split at he
    · have h1 : m.ctx_refs = 0 := (mmap_free_none he).2.1
      have h2 := h.exact m hm
      omega
    · cases he

/-! ## Every run -/

/-- The map that an unmap call holds. -/
def Session.offList (s : Session) : Option Map :=
  match s.op with
  | some (.unmapping _ m) => some m
  | _ => none

theorem offList_congr {s t : Session} (hop : t.op = s.op) : t.offList = s.offList := by
  unfold Session.offList
  rw [hop]

theorem offList_unmapping {s : Session} {call : MapCall} {m : Map}
    (hop : s.op = some (.unmapping call m)) : s.offList = some m := by
  unfold Session.offList
  rw [hop]

/-- The invariant of a session: the counts are exact, and no context is on the map that an
unmap call holds. -/
structure Inv (s : Session) : Prop where
  exact : Exact s.table (pointers s.ctxs) (s.offList.map Map.id)
  unique : Unique Ctx.id s.ctxs
  fresh : ∀ c ∈ s.ctxs, c.id < s.next_ctx
  off : ∀ m, s.offList = some m → m.ctx_refs = 0

theorem inv_init (fdtable : Int → Option Nat) : Inv (init fdtable) := by
  refine ⟨⟨List.nodup_nil, ?_, ?_, ?_, ?_⟩, List.nodup_nil, ?_, ?_⟩
  · intro m hm
    cases hm
  · intro m hm
    cases hm
  · intro id hid
    exact absurd hid (Nat.lt_irrefl 0)
  · intro id hid
    cases hid
  · intro c hc
    cases hc
  · intro m hm
    cases hm

theorem onCtx_some {s t : Session} {c : Nat} {ok : Ctx → Bool} {f : Ctx → Session}
    (h : onCtx s c ok f = some t) : ∃ x ∈ s.ctxs, x.id = c ∧ ok x = true ∧ t = f x := by
  unfold onCtx at h
  split at h
  · rename_i x hx
    split at h
    · cases h
      exact ⟨x, mem_of_lookup hx, key_of_lookup hx, ‹_›, rfl⟩
    · cases h
  · cases h

/-- What a change of one context does to the pointers. -/
theorem pointers_update {ctxs : List Ctx} (hu : Unique Ctx.id ctxs) {c : Ctx} (hc : c ∈ ctxs)
    (f : Ctx → Ctx) (j : Nat) :
    pointers (update Ctx.id ctxs c.id f) j + c.maps.count (some j) =
      pointers ctxs j + (f c).maps.count (some j) :=
  weight_update hu _ hc rfl

theorem pointers_goto {ctxs : List Ctx} (hu : Unique Ctx.id ctxs) {c : Ctx} (hc : c ∈ ctxs)
    (ph : CtxPhase) : pointers (update Ctx.id ctxs c.id (.goto ph)) = pointers ctxs := by
  funext j
  have := pointers_update hu hc (.goto ph) j
  have he : (c.goto ph).maps = c.maps := rfl
  rw [he] at this
  omega

/-- A step that changes the table and one context. -/
theorem Inv.setCtx {s : Session} (h : Inv s) {t : Table} {c : Nat} {f : Ctx → Ctx}
    (hf : ∀ x, (f x).id = x.id)
    (ht : Exact t (pointers (update Ctx.id s.ctxs c f)) (s.offList.map Map.id)) :
    Inv ({ s with table := t }.setCtx c f) := by
  refine ⟨ht, h.unique.update hf, ?_, h.off⟩
  intro x hx
  rcases mem_update.mp hx with ⟨hx, _⟩ | ⟨y, hy, _, rfl⟩
  · exact h.fresh x hx
  · rw [hf]
    exact h.fresh y hy

theorem Inv.get_buf {s : Session} (h : Inv s) (d : Driver) (sh : AdsprpcShared) (a : Arg)
    {c : Ctx} (hc : c ∈ s.ctxs) : Inv (get_buf d sh s a c) := by
  unfold map_table.get_buf
  rcases h.exact.get_args_buf d sh s.fdtable a with ⟨t, p, he, ht⟩ | ⟨t, e, he, ht⟩
  · rw [he]
    apply h.setCtx
    · intro _; rfl
    · have hp : pointers (update Ctx.id s.ctxs c.id (.push p)) =
          fun j => pointers s.ctxs j + if p = some j then 1 else 0 := by
        funext j
        have hu := pointers_update h.unique hc (.push p) j
        have hm : (c.push p).maps = c.maps ++ [p] := rfl
        rw [hm, List.count_append, List.count_singleton] at hu
        by_cases hj : p = some j
        · simp [hj] at hu ⊢
          omega
        · simp [hj] at hu ⊢
          omega
      rw [hp]
      exact ht
  · rw [he]
    apply h.setCtx
    · intro _; rfl
    · rw [pointers_goto h.unique hc]
      exact ht

theorem Inv.get_handles {s : Session} (h : Inv s) (d : Driver) (sh : AdsprpcShared) (cap : Bool)
    (as : List Arg) {c : Ctx} (hc : c ∈ s.ctxs) : Inv (get_handles d sh s cap as c) := by
  have ht := h.exact.get_args_handles d sh cap s.fdtable [] as
  unfold map_table.get_handles
  rcases he : get_args_handles d sh cap s.fdtable s.table [] as with ⟨t, _ | _⟩
  · rw [he] at ht
    apply h.setCtx
    · intro _; rfl
    · rw [pointers_goto h.unique hc]
      exact ht
  · rw [he] at ht
    apply h.setCtx
    · intro _; rfl
    · rw [pointers_goto h.unique hc]
      exact ht

theorem Inv.put_buf {s : Session} (h : Inv s) {c : Ctx} (hc : c ∈ s.ctxs) (i : Nat) :
    Inv ((s.setMaps (release_buf s.table.maps (c.maps.getD i none))).setCtx c.id (.clear i)) := by
  apply h.setCtx
  · intro _; rfl
  · refine h.exact.release (fun j => ?_)
    have hu := pointers_update h.unique hc (.clear i) j
    have hm : (c.clear i).maps = c.maps.set i none := rfl
    rw [hm] at hu
    by_cases hi : i < c.maps.length
    · have hnone : (if (none : Option Nat) == some j then 1 else 0) = 0 := rfl
      rw [List.count_set hi, hnone] at hu
      rw [List.getD_eq_getElem _ _ hi]
      by_cases hj : c.maps[i] = some j
      · have hpos : 0 < c.maps.count (some j) := by
          rw [← hj]
          exact List.count_pos_iff.mpr (List.getElem_mem hi)
        rw [if_pos (by simpa using hj)] at hu
        rw [if_pos hj]
        omega
      · rw [if_neg (by simpa using hj)] at hu
        rw [if_neg hj]
        omega
    · rw [List.set_eq_of_length_le (by omega)] at hu
      rw [List.getD_eq_default _ _ (by omega)]
      simp
      omega

theorem Inv.setMaps {s : Session} (h : Inv s) {maps : List Map}
    (ht : Exact { s.table with maps } (pointers s.ctxs) (s.offList.map Map.id)) :
    Inv (s.setMaps maps) :=
  ⟨ht, h.unique, h.fresh, h.off⟩

theorem Inv.context_free {s : Session} (h : Inv s) {c : Ctx} (hc : c ∈ s.ctxs) :
    Inv { s.setMaps (context_free s.table.maps c.maps) with
      ctxs := remove Ctx.id s.ctxs c.id } := by
  refine ⟨?_, h.unique.remove, ?_, h.off⟩
  · refine h.exact.context_free (fun j => ?_)
    have hw := weight_remove h.unique (fun c => c.maps.count (some j)) hc rfl
    exact hw.symm
  · intro x hx
    exact h.fresh x (mem_remove.mp hx).1

theorem Inv.begin_map {s t : Session} (h : Inv s) {d : Driver} {sh : AdsprpcShared}
    {call : MapCall} {fd : Int} {attr : BitVec 32} {va len : BitVec 64} {flags : BitVec 32}
    {env : CreateEnv} (ht : begin_map d sh s call fd attr va len flags env = some t) : Inv t := by
  obtain ⟨hnone, hcases⟩ := begin_map_cases ht
  have hoff : s.offList = none := by
    unfold Session.offList
    rw [hnone]
  have hc := (h.exact.create d sh fd attr va len flags (s.fdtable fd) env).1
  rcases hcases with ⟨t', id, he, rfl⟩ | ⟨t', e, he, rfl⟩
  · rw [he] at hc
    refine ⟨?_, h.unique, h.fresh, fun m hm => by cases hm⟩
    rw [hoff] at hc
    exact hc
  · rw [he] at hc
    exact ⟨hc, h.unique, h.fresh, h.off⟩

theorem Inv.begin_unmap {s t : Session} (h : Inv s) {sh : AdsprpcShared} {call : MapCall}
    {fd : Int} {va len : BitVec 64} (ht : begin_unmap sh s call fd va len = some t) : Inv t := by
  obtain ⟨_, ⟨m, hm, hrem, rfl⟩ | rfl⟩ := begin_unmap_cases ht
  · obtain ⟨_, hz, _⟩ := removable_iff hrem
    have he := h.exact.remove hm hz
    have hfield : ∀ b : Bool, (if b then { m with refs := m.refs - 1 } else m).ctx_refs = 0 ∧
        (if b then { m with refs := m.refs - 1 } else m).id = m.id := by
      intro b
      cases b
      · exact ⟨hz, rfl⟩
      · exact ⟨hz, rfl⟩
    refine ⟨⟨he.unique, he.fresh, he.exact, he.listed, ?_⟩, h.unique, h.fresh, ?_⟩
    · intro id hid
      have hid : some (if m.keep sh then { m with refs := m.refs - 1 } else m).id = some id := hid
      rw [(hfield _).2] at hid
      cases hid
      exact ⟨h.exact.fresh m hm, fun x hx => (mem_remove.mp hx).2⟩
    · intro x hx
      cases hx
      exact (hfield _).1
  · exact h

theorem Exact.forget {t : Table} {P : Nat → Nat} (h : Exact t P off) : Exact t P none :=
  ⟨h.unique, h.fresh, h.exact, h.listed, fun id hid => by cases hid⟩

theorem readded_eq (sh : AdsprpcShared) (call : MapCall) (m : Map) :
    (readded sh call m).id = m.id ∧ (readded sh call m).ctx_refs = m.ctx_refs ∧
      (readded sh call m).fd = m.fd ∧ (readded sh call m).buf = m.buf := by
  unfold readded
  split <;> exact ⟨rfl, rfl, rfl, rfl⟩

/-- Every step keeps the invariant of the session. -/
theorem step_inv (d : Driver) (sh : AdsprpcShared) (s : Session) (a : Act) (t : Session)
    (h : Inv s) (ht : step d sh s a = some t) : Inv t := by
  cases a with
  | set_fd fd buf =>
    cases ht
    exact ⟨h.exact, h.unique, h.fresh, h.off⟩
  | context_alloc inbufs outbufs =>
    cases ht
    have hp : pointers (⟨s.next_ctx, inbufs, outbufs, [], .mapping⟩ :: s.ctxs) =
        pointers s.ctxs := by
      funext j
      unfold pointers
      rw [weight_cons, List.count_nil, Nat.zero_add]
    refine ⟨?_, h.unique.cons ?_, ?_, h.off⟩
    · dsimp only
      rw [hp]
      exact h.exact
    · intro x hx
      exact Nat.ne_of_lt (h.fresh x hx)
    · intro x hx
      rcases List.mem_cons.mp hx with rfl | hx
      · exact Nat.lt_succ_self _
      · exact Nat.lt_succ_of_lt (h.fresh x hx)
  | get_buf c a =>
    obtain ⟨x, hx, _, _, rfl⟩ := onCtx_some ht
    exact h.get_buf d sh a hx
  | get_handles c cap as =>
    obtain ⟨x, hx, _, _, rfl⟩ := onCtx_some ht
    exact h.get_handles d sh cap as hx
  | put_buf c i =>
    obtain ⟨x, hx, rfl, _, rfl⟩ := onCtx_some ht
    exact h.put_buf hx i
  | put_fdlist c fdlist =>
    obtain ⟨x, _, _, _, rfl⟩ := onCtx_some ht
    exact h.setMaps (h.exact.put_args_fdlist fdlist)
  | context_free c =>
    obtain ⟨x, hx, rfl, _, rfl⟩ := onCtx_some ht
    exact h.context_free hx
  | mmap fd va len flags env => exact h.begin_map ht
  | mem_map fd attrs va len flags env => exact h.begin_map ht
  | map_done raddr =>
    obtain ⟨call, id, _, _, rfl⟩ := step_map_done ht
    have hm : Exact { s.table with
        maps := update Map.id s.table.maps id (.mapped d call raddr) } (pointers s.ctxs) none :=
      h.exact.forget.update (f := .mapped d call raddr) (fun _ => ⟨rfl, rfl⟩)
    exact ⟨hm, h.unique, h.fresh, fun m hm => by cases hm⟩
  | map_fail =>
    obtain ⟨call, id, _, rfl⟩ := step_map_fail ht
    have hm : Exact { s.table with maps := alter Map.id s.table.maps id (mmap_free false) }
        (pointers s.ctxs) none := by
      refine h.exact.forget.alter ?_ ?_
      · intro m m' he
        obtain ⟨h1, h2, _⟩ := mmap_free_some he
        exact ⟨h1, h2⟩
      · intro m he
        exact (mmap_free_none he).2.1
    exact ⟨hm, h.unique, h.fresh, fun m hm => by cases hm⟩
  | munmap vaddrout size => exact h.begin_unmap ht
  | mem_unmap fd vaddr len => exact h.begin_unmap ht
  | unmap_done =>
    obtain ⟨call, m, _, _, rfl⟩ := step_unmap_done ht
    exact ⟨h.exact.forget, h.unique, h.fresh, fun m hm => by cases hm⟩
  | unmap_fail =>
    obtain ⟨call, m, hop, rfl⟩ := step_unmap_fail ht
    have hoff := offList_unmapping hop
    obtain ⟨hlt, hnot⟩ := h.exact.apart m.id (by rw [hoff]; rfl)
    obtain ⟨hid, hctx, _⟩ := readded_eq sh call m
    have hm : Exact { s.table with
        maps := vfastrpc_mmap_add s.table.maps (readded sh call m) } (pointers s.ctxs) none := by
      unfold vfastrpc_mmap_add
      split
      · exact h.exact.forget
      · refine h.exact.forget.cons ?_ ?_ ?_ (Nat.le_refl _) (by simp)
        · rw [hctx]
          exact h.off m hoff
        · rw [hid]
          exact hnot
        · rw [hid]
          exact hlt
    exact ⟨hm, h.unique, h.fresh, fun m hm => by cases hm⟩
  | munmap_fd fd =>
    obtain ⟨_, rfl⟩ := step_munmap_fd ht
    exact h.setMaps (h.exact.remove_fd sh fd)

/-- In every state that a session reaches, the `ctx_refs` of each map is the number of pairs of
a live context and a buffer of it with that map, every such map is in the table, and a step
takes a map out of the table only when no such pair is left. -/
theorem a_map_is_never_released_under_a_live_call (d : Driver) (sh : AdsprpcShared)
    {fdtable : Int → Option Nat} {s : Session}
    (h : Reachable (step d sh) (init fdtable) s) :
    (∀ m ∈ s.table.maps, m.ctx_refs = pointers s.ctxs m.id) ∧
    (∀ id, 0 < pointers s.ctxs id → ∃ m ∈ s.table.maps, m.id = id) ∧
    ∀ a t, step d sh s a = some t → ∀ m ∈ s.table.maps,
      (∀ x ∈ t.table.maps, x.id ≠ m.id) → pointers t.ctxs m.id = 0 := by
  have hs : Inv s := h.inv Inv (step_inv d sh) (inv_init fdtable)
  refine ⟨hs.exact.exact, hs.exact.listed, ?_⟩
  intro a t ht m _ hgone
  have hinv : Inv t := step_inv d sh s a t hs ht
  by_contra hp
  obtain ⟨x, hx, he⟩ := hinv.exact.listed m.id (by omega)
  exact hgone x hx he

/-- A kernel and a backend without failures. -/
def allOk : CreateEnv := ⟨true, true, true, true⟩

/-- Two buffers of one call share a map, and a third call of the client cannot unmap it. -/
theorem a_shared_map_counts_both_buffers :
    ∃ s, run (step .hybrid sampleShared) (init (fun _ => some 1))
        [.context_alloc 1 1, .get_buf 0 ⟨4096, 64, some 5, 0, allOk⟩,
          .get_buf 0 ⟨4096, 32, some 5, 0, allOk⟩, .munmap 0 64] = some s ∧
      pointers s.ctxs 0 = 2 ∧ s.table.maps.map Map.ctx_refs = [2] ∧
      ∀ m ∈ s.table.maps, m.ctx_refs = pointers s.ctxs m.id := by
  have hrun : run (step .hybrid sampleShared) (init (fun _ => some 1))
      [.context_alloc 1 1, .get_buf 0 ⟨4096, 64, some 5, 0, allOk⟩,
        .get_buf 0 ⟨4096, 32, some 5, 0, allOk⟩, .munmap 0 64] = some _ := rfl
  exact ⟨_, hrun, by decide, by decide,
    (a_map_is_never_released_under_a_live_call .hybrid sampleShared ⟨_, hrun⟩).1⟩

end virtual_fastrpc.map_table
