-- An invoke that fails before its message is sent, and what it leaves of the
-- map table. context_free gives back the maps of the buffers. The maps of the
-- dma handles are given back only by the loop that takes them.
import Mathlib.Data.List.ReduceOption
import PlatformKernel.MapClose

namespace virtual_fastrpc.map_table

open keyed step_runs

/-! ## A failed invoke -/

/-- The exits of get_args after its two loops over the maps, and the failed send. The check of
the domain in get_args of the hybrid driver is not among them: the invoke made it before. -/
inductive LateExit : Driver → Type
  | metadata_buf : LateExit .hybrid
  | lrpra : LateExit .hybrid
  | copylen_overflow : LateExit .hybrid
  | copybuf : LateExit .hybrid
  | copy_room : LateExit .hybrid
  | desc : LateExit .virtio
  | internal_buf : LateExit .virtio
  | alloc_msg : LateExit .virtio
  | find_vma (d : Driver) : LateExit d
  | map_size (d : Driver) : LateExit d
  | copy_from_user (d : Driver) : LateExit d
  | send (d : Driver) : LateExit d
  deriving DecidableEq, Repr

/-- Where a failed invoke stops: in the loop over the buffers, in the loop over the dma handles,
or later. -/
inductive Exit (d : Driver)
  | buffers (e : Errno)
  | handles (e : Errno)
  | late (e : LateExit d)
  deriving DecidableEq, Repr

/-- The loop of get_args over the buffers, with `ctx->maps` so far. -/
def get_args_bufs (d : Driver) (sh : AdsprpcShared) (fdtable : Int → Option Nat) :
    Table → List (Option Nat) → List Arg → Table × List (Option Nat) × Option Errno
  | t, maps, [] => (t, maps, none)
  | t, maps, a :: as =>
    match get_args_buf d sh fdtable t a with
    | (t, .ok p) => get_args_bufs d sh fdtable t (maps ++ [p]) as
    | (t, .error e) => (t, maps, some e)

/-- An invoke up to the send of its message, and context_free when it fails. The argument
`late` is the first of the later exits that it takes. Nothing is left when the message is
sent. -/
def failed_invoke (d : Driver) (sh : AdsprpcShared) (cap : Bool) (fdtable : Int → Option Nat)
    (t : Table) (bufs handles : List Arg) (late : Option (LateExit d)) :
    Option (Exit d × List Map) :=
  match get_args_bufs d sh fdtable t [] bufs with
  | (t, maps, some e) => some (.buffers e, context_free t.maps maps)
  | (t, maps, none) =>
    match get_args_handles d sh cap fdtable t [] handles with
    | (t, .error e) => some (.handles e, context_free t.maps maps)
    | (t, .ok _) => late.map (fun e => (.late e, context_free t.maps maps))

/-! ## The maps that a request takes -/

/-- What get_args hands to mmap_create for an argument. -/
structure Use where
  fd : Int
  attr : BitVec 32
  va : BitVec 64
  len : BitVec 64
  flags : BitVec 32
  env : CreateEnv

def bufUse (d : Driver) (a : Arg) : Option Use :=
  (bufFd d a).map (fun fd => ⟨fd, a.attr, a.pv, a.len, 0, a.env⟩)

def handleUse (d : Driver) (sh : AdsprpcShared) (cap : Bool) (a : Arg) : Option Use :=
  (handleFd d cap a).map (fun fd => ⟨fd, handleAttr d sh a, 0, 0, handleFlags d sh a, a.env⟩)

/-- The maps that mmap_create gives for the arguments, one after the other, until it fails. -/
def mapsGiven (d : Driver) (sh : AdsprpcShared) (fdtable : Int → Option Nat) :
    Table → List Use → List Nat
  | _, [] => []
  | t, u :: us =>
    match mmap_create d sh t u.fd u.attr u.va u.len u.flags (fdtable u.fd) u.env with
    | (t, .ok id) => id :: mapsGiven d sh fdtable t us
    | (_, .error _) => []

/-! ## What a request holds -/

/-- A map is held for a buffer or for a dma handle. -/
inductive Hold
  | ctx | dma
  deriving DecidableEq, Repr

def Map.mark : Hold → Map → Map
  | .ctx => .addCtx
  | .dma => .addDma

def Map.drop : Hold → Map → Option Map
  | .ctx => Map.dropCtx
  | .dma => Map.dropDma

def Map.holds : Hold → Map → Int
  | .ctx => Map.ctx_refs
  | .dma => Map.dma_handle_refs

/-- One more hold on the map `id`. -/
def more (K : Hold → Nat → Nat) (k : Hold) (id : Nat) : Hold → Nat → Nat :=
  fun k' j => K k' j + if k' = k ∧ j = id then 1 else 0

theorem more_self (K : Hold → Nat → Nat) (k : Hold) (id : Nat) : more K k id k id = K k id + 1 := by
  simp [more]

theorem more_ne (K : Hold → Nat → Nat) (k k' : Hold) {id j : Nat} (h : j ≠ id) :
    more K k id k' j = K k' j := by
  simp [more, h]

/-- A map of the table before the request, with the holds of the request on it. -/
def Map.grant (K : Hold → Nat → Nat) (m : Map) : Map :=
  { m with
    refs := m.refs + K .ctx m.id + K .dma m.id
    ctx_refs := m.ctx_refs + K .ctx m.id
    dma_handle_refs := m.dma_handle_refs + K .dma m.id }

theorem grant_mark (K : Hold → Nat → Nat) (k : Hold) (m : Map) :
    ((m.grant K).addRef.mark k) = m.grant (more K k m.id) := by
  cases k <;> simp [Map.grant, Map.mark, Map.addRef, Map.addCtx, Map.addDma, more] <;> omega

theorem grant_more_ne (K : Hold → Nat → Nat) (k : Hold) {id : Nat} {m : Map} (h : m.id ≠ id) :
    m.grant (more K k id) = m.grant K := by
  simp only [Map.grant, more_ne K k _ h]

/-- A map that only the request made: it counts the holds of the request. -/
structure Made (K : Hold → Nat → Nat) (m : Map) : Prop where
  heap : isHeap m.flags = false
  refs : m.refs = K .ctx m.id + K .dma m.id
  ctx : m.ctx_refs = K .ctx m.id
  dma : m.dma_handle_refs = K .dma m.id
  held : 1 ≤ m.refs

/-- A map that somebody holds, with counts that mmap_free takes. -/
structure Kept (m : Map) : Prop where
  heap : isHeap m.flags = false
  refs : 0 ≤ m.refs
  ctx : 0 ≤ m.ctx_refs
  dma : 0 ≤ m.dma_handle_refs
  held : 0 < m.refs ∨ 0 < m.ctx_refs ∨ 0 < m.dma_handle_refs

/-- No two maps have one name, and the next name is a new one. -/
structure Distinct (t : Table) : Prop where
  unique : Unique Map.id t.maps
  fresh : ∀ m ∈ t.maps, m.id < t.next

theorem distinct_of_reachable (d : Driver) (sh : AdsprpcShared) {fdtable : Int → Option Nat}
    {s : Session} (h : Reachable (step d sh) (init fdtable) s) : Distinct s.table := by
  have hs : Inv s := h.inv Inv (step_inv d sh) (inv_init fdtable)
  exact ⟨hs.exact.unique, hs.exact.fresh⟩

/-- Somebody holds every map of a session, as long as no refused munmap puts a map back without a
reference. -/
theorem kept_of_reachable (d : Driver) (sh : AdsprpcShared)
    (hattr : sh.FASTRPC_ATTR_KEEP_MAP &&& VFASTRPC_MAP_ATTR_BUFFER_MAPPED = 0)
    {fdtable : Int → Option Nat} {s : Session}
    (h : ReachableUnder (step d sh) UnmapCalm (init fdtable) s) : ∀ m ∈ s.table.maps, Kept m := by
  have hs : Health sh s := h.inv (Health sh) (step_health hattr d) (health_init sh fdtable)
  intro m hm
  have hm := hs.maps m hm
  have hrefs := hm.refs
  exact ⟨hm.heap, by omega, hm.ctx, hm.dma, Or.inl (by omega)⟩

/-! ## Giving back a hold -/

theorem drop_eq (k : Hold) {m : Map} (heap : isHeap m.flags = false) (refs : 1 ≤ m.refs)
    (ctx : 0 ≤ m.ctx_refs) (dma : 0 ≤ m.dma_handle_refs) (hk : 1 ≤ m.holds k) :
    m.drop k =
      if m.refs = 1 ∧ m.ctx_refs + m.dma_handle_refs = 1 then none
      else some { m with
        refs := m.refs - 1
        ctx_refs := m.ctx_refs - if k = .ctx then 1 else 0
        dma_handle_refs := m.dma_handle_refs - if k = .dma then 1 else 0 } := by
  cases k with
  | ctx =>
    have hk : 1 ≤ m.ctx_refs := hk
    have hne : m.ctx_refs ≠ 0 := by omega
    simp only [Map.drop, Map.dropCtx, if_neg hne]
    rcases mmap_free_cases { m with ctx_refs := m.ctx_refs - 1 } with ⟨hbad, _⟩ | ⟨_, _, _, _, he⟩
    · rw [heap] at hbad
      simp at hbad
      omega
    · rw [he]
      have hiff : (m.refs = 1 ∧ m.ctx_refs - 1 = 0 ∧ m.dma_handle_refs = 0) ↔
          (m.refs = 1 ∧ m.ctx_refs + m.dma_handle_refs = 1) := by omega
      simp [hiff]
  | dma =>
    have hk : 1 ≤ m.dma_handle_refs := hk
    have hne : m.dma_handle_refs ≠ 0 := by omega
    simp only [Map.drop, Map.dropDma, if_neg hne]
    rcases mmap_free_cases { m with dma_handle_refs := m.dma_handle_refs - 1 } with
      ⟨hbad, _⟩ | ⟨_, _, _, _, he⟩
    · rw [heap] at hbad
      simp at hbad
      omega
    · rw [he]
      have hiff : (m.refs = 1 ∧ m.ctx_refs = 0 ∧ m.dma_handle_refs - 1 = 0) ↔
          (m.refs = 1 ∧ m.ctx_refs + m.dma_handle_refs = 1) := by omega
      simp [hiff]

theorem grant_drop {K : Hold → Nat → Nat} {k : Hold} {m : Map} (h : Kept m) :
    (m.grant (more K k m.id)).drop k = some (m.grant K) := by
  have h1 := h.refs
  have h2 := h.ctx
  have h3 := h.dma
  have h4 := h.held
  rw [drop_eq k]
  · rw [if_neg]
    · cases k <;> simp [Map.grant, more] <;> omega
    · cases k <;> simp [Map.grant, more] <;> omega
  · exact h.heap
  · cases k <;> simp [Map.grant, more] <;> omega
  · simp [Map.grant]; omega
  · simp [Map.grant]; omega
  · cases k <;> simp [Map.grant, Map.holds, more] <;> omega

/-- A hold on a map of the request is given back: the map goes when it was the last one. -/
theorem made_drop {K : Hold → Nat → Nat} {k : Hold} {m : Map} (h : Made (more K k m.id) m) :
    (m.drop k = none ∧ ∀ k', K k' m.id = 0) ∨
      ∃ m', m.drop k = some m' ∧ m'.id = m.id ∧ Made K m' := by
  have h1 := h.refs
  have h2 := h.ctx
  have h3 := h.dma
  have hk : 1 ≤ m.holds k := by
    cases k
    · rw [Map.holds, h2, more_self]
      omega
    · rw [Map.holds, h3, more_self]
      omega
  rw [drop_eq k h.heap h.held (by omega) (by omega) hk]
  by_cases hlast : m.refs = 1 ∧ m.ctx_refs + m.dma_handle_refs = 1
  · rw [if_pos hlast]
    refine Or.inl ⟨rfl, ?_⟩
    intro k'
    cases k <;> cases k' <;> simp [more] at h1 h2 h3 <;> omega
  · rw [if_neg hlast]
    refine Or.inr ⟨_, rfl, rfl, h.heap, ?_, ?_, ?_, ?_⟩
    · cases k <;> simp [more] at h1 ⊢ <;> omega
    · cases k <;> simp [more] at h2 ⊢ <;> omega
    · cases k <;> simp [more] at h3 ⊢ <;> omega
    · cases k <;> simp [more] at h1 h2 h3 ⊢ <;> omega

theorem made_congr {K K' : Hold → Nat → Nat} {m : Map} (h : Made K m)
    (he : ∀ k, K' k m.id = K k m.id) : Made K' m := by
  refine ⟨h.heap, ?_, ?_, ?_, h.held⟩
  · rw [he, he]
    exact h.refs
  · rw [he]
    exact h.ctx
  · rw [he]
    exact h.dma

/-! ## The table of a request -/

/-- The table under a request that began with the table `base`: each map of `base` with the
holds of the request, after the maps that the request made. -/
structure Granted (base t : Table) (K : Hold → Nat → Nat) : Prop where
  next : base.next ≤ t.next
  unused : ∀ k id, t.next ≤ id → K k id = 0
  listed : ∀ k id, 0 < K k id → ∃ m ∈ t.maps, m.id = id
  maps : ∃ new, t.maps = new ++ base.maps.map (Map.grant K) ∧
    ∀ m ∈ new, base.next ≤ m.id ∧ m.id < t.next ∧ Made K m

theorem grant_none (m : Map) : m.grant (fun _ _ => 0) = m := by
  simp [Map.grant]

theorem Granted.refl (base : Table) : Granted base base (fun _ _ => 0) := by
  refine ⟨Nat.le_refl _, fun _ _ _ => rfl, ?_, [], ?_, ?_⟩
  · intro k id h
    exact absurd h (Nat.lt_irrefl 0)
  · have hid : Map.grant (fun _ _ => 0) = id := funext grant_none
    rw [hid, List.map_id, List.nil_append]
  · intro m hm
    cases hm

theorem Granted.fail {base t : Table} {K : Hold → Nat → Nat} (h : Granted base t K) {n : Nat}
    (hn : t.next ≤ n) : Granted base { t with next := n } K := by
  obtain ⟨new, he, hnew⟩ := h.maps
  refine ⟨Nat.le_trans h.next hn, ?_, h.listed, new, he, ?_⟩
  · intro k id hid
    exact h.unused k id (Nat.le_trans hn hid)
  · intro m hm
    obtain ⟨hlo, hhi, hmade⟩ := hnew m hm
    exact ⟨hlo, Nat.lt_of_lt_of_le hhi hn, hmade⟩

theorem made_mark {K : Hold → Nat → Nat} {m : Map} (k : Hold) (h : Made K m) :
    Made (more K k m.id) (m.addRef.mark k) := by
  have h1 := h.refs
  have h2 := h.ctx
  have h3 := h.dma
  refine ⟨?_, ?_, ?_, ?_, ?_⟩
  · cases k <;> exact h.heap
  · cases k <;> simp [Map.mark, Map.addRef, Map.addCtx, Map.addDma, more] <;> omega
  · cases k <;> simp [Map.mark, Map.addRef, Map.addCtx, Map.addDma, more] <;> omega
  · cases k <;> simp [Map.mark, Map.addRef, Map.addCtx, Map.addDma, more] <;> omega
  · have := h.held
    cases k <;> simp [Map.mark, Map.addRef, Map.addCtx, Map.addDma] <;> omega

theorem mark_id (k : Hold) (m : Map) : (m.mark k).id = m.id := by
  cases k <;> rfl

/-! ## The counts of holds and mmap_create -/

/-- A map without its counts of holds. mmap_create reads neither of them. -/
def Map.bare (m : Map) : Map := { m with ctx_refs := 0, dma_handle_refs := 0 }

def Table.bare (t : Table) : Table := { t with maps := t.maps.map Map.bare }

theorem find_bare (maps : List Map) (fd : Int) (va len : BitVec 64) (mflags : BitVec 32) :
    vfastrpc_mmap_find (maps.map Map.bare) fd va len mflags =
      (vfastrpc_mmap_find maps fd va len mflags).map Map.bare := by
  have hfind : (maps.map Map.bare).find? (findMatch fd va len) =
      (maps.find? (findMatch fd va len)).map Map.bare := by
    rw [List.find?_map]
    rfl
  unfold vfastrpc_mmap_find
  rw [hfind]
  split
  · rfl
  split
  · rfl
  cases maps.find? (findMatch fd va len) <;> rfl

theorem find_ref_bare (maps : List Map) (fd : Int) (va len : BitVec 64) (mflags : BitVec 32) :
    vfastrpc_mmap_find_ref (maps.map Map.bare) fd va len mflags =
      (vfastrpc_mmap_find_ref maps fd va len mflags).map
        (fun p => (p.1, p.2.map Map.bare)) := by
  unfold vfastrpc_mmap_find_ref
  rw [find_bare]
  cases vfastrpc_mmap_find maps fd va len mflags with
  | error e => rfl
  | ok m =>
    have hupdate : update Map.id (maps.map Map.bare) m.id .addRef =
        (update Map.id maps m.id .addRef).map Map.bare := by
      unfold update
      rw [List.map_map, List.map_map]
      refine List.map_congr_left ?_
      intro x _
      simp only [Function.comp_apply]
      split <;> rename_i hx
      · rw [if_pos (show x.id = m.id from hx)]
        rfl
      · rw [if_neg (show x.id ≠ m.id from hx)]
    simp only [Except.map, Map.bare] at hupdate ⊢
    split
    · rfl
    · rw [hupdate]

theorem create_bare (d : Driver) (sh : AdsprpcShared) (t : Table) (fd : Int) (attr : BitVec 32)
    (va len : BitVec 64) (mflags : BitVec 32) (buf : Option Nat) (env : CreateEnv) :
    mmap_create d sh t.bare fd attr va len mflags buf env =
      ((mmap_create d sh t fd attr va len mflags buf env).1.bare,
        (mmap_create d sh t fd attr va len mflags buf env).2) := by
  unfold mmap_create
  rw [show t.bare.maps = t.maps.map Map.bare from rfl, find_ref_bare]
  cases vfastrpc_mmap_find_ref t.maps fd va len mflags with
  | ok p => rfl
  | error e =>
    simp only [Except.map]
    cases buf with
    | none => split_ifs <;> rfl
    | some b => split_ifs <;> rfl

theorem mapsGiven_bare (d : Driver) (sh : AdsprpcShared) (fdtable : Int → Option Nat) (t : Table)
    (us : List Use) : mapsGiven d sh fdtable t.bare us = mapsGiven d sh fdtable t us := by
  induction us generalizing t with
  | nil => rfl
  | cons u us ih =>
    simp only [mapsGiven, create_bare]
    cases mmap_create d sh t u.fd u.attr u.va u.len u.flags (fdtable u.fd) u.env with
    | mk t' res =>
      cases res with
      | error e => rfl
      | ok id => simp only [ih]

/-- The holds that a request puts on its maps do not change what it is given next. -/
theorem mapsGiven_mark (d : Driver) (sh : AdsprpcShared) (fdtable : Int → Option Nat) (t : Table)
    (id : Nat) (k : Hold) (us : List Use) :
    mapsGiven d sh fdtable { t with maps := update Map.id t.maps id (Map.mark k) } us =
      mapsGiven d sh fdtable t us := by
  have hbare : Table.bare { t with maps := update Map.id t.maps id (Map.mark k) } = t.bare := by
    unfold Table.bare update
    simp only [List.map_map]
    congr 1
    refine List.map_congr_left ?_
    intro x _
    simp only [Function.comp_apply]
    split
    · cases k <;> rfl
    · rfl
  rw [← mapsGiven_bare, hbare, mapsGiven_bare]

/-! ## What a request takes -/

/-- A new map without `FASTRPC_ATTR_KEEP_MAP` has the one hold it was made for. -/
theorem made_newMap {sh : AdsprpcShared} {K : Hold → Nat → Nat} (k : Hold) {id : Nat} {fd : Int}
    {attr : BitVec 32} {va len : BitVec 64} {mflags : BitVec 32} {b : Nat}
    (hK : ∀ k', K k' id = 0) (heap : isHeap mflags = false) (hkeep : keepAttr sh attr = false) :
    Made (more K k id) ((newMap sh id fd attr va len mflags b).mark k) := by
  have hc := hK .ctx
  have hd := hK .dma
  refine ⟨?_, ?_, ?_, ?_, ?_⟩
  · cases k <;> exact heap
  · cases k <;> simp [Map.mark, Map.addCtx, Map.addDma, newMap, more, hkeep, hc, hd]
  · cases k <;> simp [Map.mark, Map.addCtx, Map.addDma, newMap, more, hc]
  · cases k <;> simp [Map.mark, Map.addCtx, Map.addDma, newMap, more, hd]
  · cases k <;> simp [Map.mark, Map.addCtx, Map.addDma, newMap, hkeep]

/-- A hold on a map of the table is taken. -/
theorem Granted.found {base t : Table} {K : Hold → Nat → Nat} (h : Granted base t K) (k : Hold)
    {m : Map} (hm : m ∈ t.maps) (hlt : m.id < t.next) :
    Granted base { t with maps := update Map.id t.maps m.id (fun m => m.addRef.mark k) }
      (more K k m.id) := by
  obtain ⟨new, he, hnew⟩ := h.maps
  have hid : ∀ x : Map, (x.addRef.mark k).id = x.id := fun x => mark_id k x.addRef
  have hmaps : update Map.id t.maps m.id (fun m => m.addRef.mark k) =
      update Map.id new m.id (fun m => m.addRef.mark k) ++
        base.maps.map (Map.grant (more K k m.id)) := by
    rw [he]
    unfold update
    rw [List.map_append, List.map_map]
    congr 1
    refine List.map_congr_left ?_
    intro x _
    simp only [Function.comp_apply]
    by_cases hx : (x.grant K).id = m.id
    · rw [if_pos hx, grant_mark, show x.id = m.id from hx]
    · rw [if_neg hx, grant_more_ne K k (m := x) hx]
  refine ⟨h.next, ?_, ?_, _, hmaps, ?_⟩
  · intro k' id hle
    have hle : t.next ≤ id := hle
    rw [more_ne K k k' (by omega)]
    exact h.unused k' id hle
  · intro k' id hpos
    have hex : ∃ x ∈ t.maps, x.id = id := by
      by_cases hne : id = m.id
      · exact ⟨m, hm, hne.symm⟩
      · rw [more_ne K k k' hne] at hpos
        exact h.listed k' id hpos
    obtain ⟨x, hx, rfl⟩ := hex
    by_cases hxm : x.id = m.id
    · exact ⟨_, mem_update.mpr (Or.inr ⟨x, hx, hxm, rfl⟩), hid x⟩
    · exact ⟨x, mem_update.mpr (Or.inl ⟨hx, hxm⟩), rfl⟩
  · intro x hx
    rcases mem_update.mp hx with ⟨hx, hne⟩ | ⟨y, hy, hym, rfl⟩
    · obtain ⟨hlo, hhi, hmade⟩ := hnew x hx
      exact ⟨hlo, hhi, made_congr hmade (fun k' => more_ne K k k' hne)⟩
    · obtain ⟨hlo, hhi, hmade⟩ := hnew y hy
      rw [hid, ← hym]
      exact ⟨hlo, hhi, made_mark k hmade⟩

/-- A new map is made. -/
theorem Granted.made {base t : Table} {K : Hold → Nat → Nat} (hb : Distinct base)
    (h : Granted base t K) (k : Hold) {m : Map} (hid : m.id = t.next)
    (hm : Made (more K k t.next) (m.mark k)) :
    Granted base ⟨update Map.id (m :: t.maps) t.next (Map.mark k), t.next + 1⟩
      (more K k t.next) := by
  obtain ⟨new, he, hnew⟩ := h.maps
  have hold : ∀ x ∈ t.maps, x.id ≠ t.next := by
    intro x hx
    rw [he] at hx
    rcases List.mem_append.mp hx with hx | hx
    · exact Nat.ne_of_lt (hnew x hx).2.1
    · obtain ⟨y, hy, rfl⟩ := List.mem_map.mp hx
      have h1 := hb.fresh y hy
      have h2 := h.next
      have h3 : (y.grant K).id = y.id := rfl
      omega
  have hmaps : update Map.id (m :: t.maps) t.next (Map.mark k) =
      (m.mark k :: new) ++ base.maps.map (Map.grant (more K k t.next)) := by
    have htail : update Map.id t.maps t.next (Map.mark k) = t.maps := update_eq_self hold
    have hcons : update Map.id (m :: t.maps) t.next (Map.mark k) =
        m.mark k :: update Map.id t.maps t.next (Map.mark k) := by
      unfold update
      rw [List.map_cons, if_pos hid]
    rw [hcons, htail, he, List.cons_append]
    congr 2
    refine List.map_congr_left ?_
    intro x hx
    have h1 := hb.fresh x hx
    have h2 := h.next
    rw [grant_more_ne K k (by omega)]
  refine ⟨Nat.le_succ_of_le h.next, ?_, ?_, _, hmaps, ?_⟩
  · intro k' id hle
    have hle : t.next + 1 ≤ id := hle
    rw [more_ne K k k' (by omega)]
    exact h.unused k' id (by omega)
  · intro k' id hpos
    by_cases hne : id = t.next
    · exact ⟨m.mark k, mem_update.mpr (Or.inr ⟨m, List.mem_cons_self, hid, rfl⟩),
        (mark_id k m).trans (hid.trans hne.symm)⟩
    · rw [more_ne K k k' hne] at hpos
      obtain ⟨x, hx, rfl⟩ := h.listed k' id hpos
      exact ⟨x, mem_update.mpr (Or.inl ⟨List.mem_cons_of_mem _ hx, hne⟩), rfl⟩
  · intro x hx
    rcases List.mem_cons.mp hx with rfl | hx
    · rw [mark_id, hid]
      exact ⟨h.next, Nat.lt_succ_self _, hm⟩
    · obtain ⟨hlo, hhi, hmade⟩ := hnew x hx
      exact ⟨hlo, Nat.lt_succ_of_lt hhi, made_congr hmade (fun k' => more_ne K k k' (by omega))⟩

theorem Granted.lt {base t : Table} {K : Hold → Nat → Nat} (hb : Distinct base)
    (h : Granted base t K) {m : Map} (hm : m ∈ t.maps) : m.id < t.next := by
  obtain ⟨new, he, hnew⟩ := h.maps
  rw [he] at hm
  rcases List.mem_append.mp hm with hm | hm
  · exact (hnew m hm).2.1
  · obtain ⟨y, hy, rfl⟩ := List.mem_map.mp hm
    exact Nat.lt_of_lt_of_le (hb.fresh y hy) h.next

/-- mmap_create for a request takes one hold, or fails and takes none. -/
theorem Granted.create {base t : Table} {K : Hold → Nat → Nat} (hb : Distinct base)
    (h : Granted base t K) (k : Hold) (d : Driver) (sh : AdsprpcShared) (fd : Int)
    {attr : BitVec 32} (hkeep : keepAttr sh attr = false) (va len : BitVec 64)
    (mflags : BitVec 32) (buf : Option Nat) (env : CreateEnv) :
    (∃ t' id, mmap_create d sh t fd attr va len mflags buf env = (t', .ok id) ∧
      Granted base { t' with maps := update Map.id t'.maps id (Map.mark k) } (more K k id)) ∨
    (∃ t' e, mmap_create d sh t fd attr va len mflags buf env = (t', .error e) ∧
      Granted base t' K) := by
  rcases create_cases d sh t fd attr va len mflags buf env with
    ⟨m, hm, _, he⟩ | ⟨b, _, heap, he⟩ | ⟨n, e, hn, he⟩
  · refine Or.inl ⟨_, _, he, ?_⟩
    have hgot := h.found k hm (h.lt hb hm)
    rw [← update_update (f := Map.addRef) (fun _ => rfl)] at hgot
    exact hgot
  · refine Or.inl ⟨_, _, he, h.made hb k rfl ?_⟩
    exact made_newMap k (fun k' => h.unused k' t.next (Nat.le_refl _)) heap hkeep
  · exact Or.inr ⟨_, e, he, h.fail hn⟩

/-! ## What a failed request gives back -/

/-- How many holds a request has on the map `id`. -/
def holdsOn (K : Hold → Nat → Nat) (id : Nat) : Nat := K .ctx id + K .dma id

theorem holdsOn_more (K : Hold → Nat → Nat) (k : Hold) (id : Nat) :
    holdsOn (more K k id) id = holdsOn K id + 1 := by
  cases k <;> simp [holdsOn, more] <;> omega

theorem holdsOn_more_ne (K : Hold → Nat → Nat) (k : Hold) {id j : Nat} (h : j ≠ id) :
    holdsOn (more K k id) j = holdsOn K j := by
  simp [holdsOn, more_ne K k _ h]

/-- A hold that is given back ends the map, or takes a reference and leaves a map that somebody
holds, or takes none. -/
theorem drop_cases (k : Hold) (m : Map) :
    m.drop k = none ∨ ∃ y, m.drop k = some y ∧ y.id = m.id ∧
      (y.refs = m.refs ∨ y.refs = m.refs - 1 ∧ Kept y) := by
  have hfree : ∀ x : Map, mmap_free false x = none ∨ ∃ y, mmap_free false x = some y ∧
      y.id = x.id ∧ (y.refs = x.refs ∨ y.refs = x.refs - 1 ∧ Kept y) := by
    intro x
    rcases mmap_free_cases x with ⟨_, he⟩ | ⟨heap, refs, ctx, dma, he⟩
    · exact Or.inr ⟨x, he, rfl, Or.inl rfl⟩
    · rw [he]
      split
      · exact Or.inl rfl
      · refine Or.inr ⟨_, rfl, rfl, Or.inr ⟨rfl, heap, ?_, ctx, dma, ?_⟩⟩
        · dsimp only
          omega
        · dsimp only
          omega
  cases k with
  | ctx => exact hfree _
  | dma =>
    simp only [Map.drop, Map.dropDma]
    split
    · exact Or.inr ⟨m, rfl, rfl, Or.inl rfl⟩
    · exact hfree _

/-- What the undo of a request, with the holds `K` left of its holds `T`, makes of a map of the
table before it. A map that nobody held before is lost, or a reference of the request stays on
it. -/
def Back (K : Hold → Nat → Nat) (T : Nat → Nat) (m : Map) : Option Map → Prop
  | none => ¬ Kept m ∧ 0 < T m.id
  | some y => y.id = m.id ∧
      (y = m.grant K ∧ (Kept m ∨ holdsOn K m.id = T m.id) ∨
        (¬ Kept m ∧ 0 < T m.id) ∧ m.refs + holdsOn K m.id ≤ y.refs ∧
          (Kept y ∨ m.refs + holdsOn K m.id < y.refs))

theorem back_drop {K : Hold → Nat → Nat} {T : Nat → Nat} {k : Hold} {m : Map} {x : Option Map}
    (h : Back (more K k m.id) T m x) : Back K T m (x.bind (Map.drop k)) := by
  have hmore := holdsOn_more K k m.id
  cases x with
  | none => exact h
  | some y =>
    obtain ⟨hid, h⟩ := h
    simp only [Option.bind_some]
    by_cases hm : Kept m
    · rcases h with ⟨rfl, _⟩ | ⟨⟨hn, _⟩, _⟩
      · rw [grant_drop hm]
        exact ⟨rfl, Or.inl ⟨rfl, Or.inl hm⟩⟩
      · exact absurd hm hn
    · have hlost : (¬ Kept m ∧ 0 < T m.id) ∧ m.refs + holdsOn K m.id < y.refs := by
        rcases h with ⟨rfl, hk | hT⟩ | ⟨hn, hle, _⟩
        · exact absurd hk hm
        · refine ⟨⟨hm, by omega⟩, ?_⟩
          unfold Map.grant
          unfold holdsOn at hmore ⊢
          dsimp only
          omega
        · exact ⟨hn, by omega⟩
      rcases drop_cases k y with he | ⟨y', he, hid', hsame | ⟨hless, hkept⟩⟩
      · rw [he]
        exact hlost.1
      · rw [he]
        exact ⟨hid'.trans hid, Or.inr ⟨hlost.1, by omega, Or.inr (by omega)⟩⟩
      · rw [he]
        exact ⟨hid'.trans hid, Or.inr ⟨hlost.1, by omega, Or.inl hkept⟩⟩

theorem back_congr {K K' : Hold → Nat → Nat} {T : Nat → Nat} {m : Map} {x : Option Map}
    (h : Back K T m x) (he : ∀ k, K' k m.id = K k m.id) : Back K' T m x := by
  have hgrant : m.grant K' = m.grant K := by simp only [Map.grant, he]
  have hholds : holdsOn K' m.id = holdsOn K m.id := by simp only [holdsOn, he]
  cases x with
  | none => exact h
  | some y =>
    unfold Back at h ⊢
    rw [hgrant, hholds]
    exact h

/-- The undo leaves a map as it was exactly when all holds on it are given back and somebody held
it before, or the request had none on it. -/
theorem back_same {K : Hold → Nat → Nat} {T : Nat → Nat} {m : Map} {x : Option Map}
    (h : Back K T m x) : x = some m ↔ holdsOn K m.id = 0 ∧ (0 < T m.id → Kept m) := by
  cases x with
  | none =>
    refine ⟨fun he => absurd he.symm (Option.some_ne_none m), ?_⟩
    rintro ⟨_, hk⟩
    exact absurd (hk h.2) h.1
  | some y =>
    obtain ⟨_, ⟨rfl, hk⟩ | ⟨⟨hn, hT⟩, hle, hy⟩⟩ := h
    · rw [Option.some.injEq]
      constructor
      · intro he
        have hrefs := congrArg Map.refs he
        simp only [Map.grant] at hrefs
        have hz : holdsOn K m.id = 0 := by
          unfold holdsOn
          omega
        refine ⟨hz, fun hT => ?_⟩
        rcases hk with hk | hk
        · exact hk
        · omega
      · rintro ⟨hz, _⟩
        unfold holdsOn at hz
        have hc : K .ctx m.id = 0 := by omega
        have hd : K .dma m.id = 0 := by omega
        simp [Map.grant, hc, hd]
    · refine ⟨fun he => ?_, fun hr => absurd (hr.2 hT) hn⟩
      cases he
      rcases hy with hy | hy
      · exact absurd hy hn
      · omega

/-- The maps under the undo of a request that began with the table `base` and got the holds `T`:
what is left of the maps of `base`, after what is left of the maps that the request made. -/
def Returned (base : Table) (K : Hold → Nat → Nat) (T : Nat → Nat) (maps : List Map) : Prop :=
  ∃ new r, maps = new ++ base.maps.filterMap r ∧
    (∀ m ∈ new, base.next ≤ m.id ∧ Made K m) ∧ (∀ m ∈ base.maps, Back K T m (r m)) ∧
    ∀ k id, 0 < K k id → (∃ m ∈ new, m.id = id) ∨ ∃ m ∈ base.maps, m.id = id

theorem Granted.returned {base t : Table} {K : Hold → Nat → Nat} (h : Granted base t K) :
    Returned base K (holdsOn K) t.maps := by
  obtain ⟨new, he, hnew⟩ := h.maps
  refine ⟨new, fun m => some (m.grant K), ?_, ?_, ?_, ?_⟩
  · rw [he]
    congr 1
    exact (congrFun List.filterMap_eq_map base.maps).symm
  · intro m hm
    obtain ⟨hlo, _, hmade⟩ := hnew m hm
    exact ⟨hlo, hmade⟩
  · intro m _
    exact ⟨rfl, Or.inl ⟨rfl, Or.inr rfl⟩⟩
  · intro k id hpos
    obtain ⟨m, hm, rfl⟩ := h.listed k id hpos
    rw [he] at hm
    rcases List.mem_append.mp hm with hm | hm
    · exact Or.inl ⟨m, hm, rfl⟩
    · obtain ⟨x, hx, rfl⟩ := List.mem_map.mp hm
      exact Or.inr ⟨x, hx, rfl⟩

/-- A hold is given back. -/
theorem Returned.drop {base : Table} {K : Hold → Nat → Nat} {T : Nat → Nat} {k : Hold} {id : Nat}
    {maps : List Map} (h : Returned base (more K k id) T maps) :
    Returned base K T (alter Map.id maps id (Map.drop k)) := by
  obtain ⟨new, r, rfl, hnew, hback, hlisted⟩ := h
  have hsame : ∀ m : Map, m.id ≠ id → ∀ k', K k' m.id = more K k id k' m.id :=
    fun m hne k' => (more_ne K k k' hne).symm
  refine ⟨alter Map.id new id (Map.drop k),
    fun m => (r m).bind (fun y => if y.id = id then y.drop k else some y), ?_, ?_, ?_, ?_⟩
  · unfold alter
    rw [List.filterMap_append, List.filterMap_filterMap]
  · intro m' hm'
    rcases mem_alter.mp hm' with ⟨hm, hne⟩ | ⟨m, hm, rfl, hd⟩
    · obtain ⟨hlo, hmade⟩ := hnew m' hm
      exact ⟨hlo, made_congr hmade (hsame m' hne)⟩
    · obtain ⟨hlo, hmade⟩ := hnew m hm
      rcases made_drop hmade with ⟨hnone, _⟩ | ⟨m'', hsome, hid, hmade⟩
      · rw [hnone] at hd
        cases hd
      · rw [hsome] at hd
        cases hd
        rw [hid]
        exact ⟨hlo, hmade⟩
  · intro m hm
    have hb := hback m hm
    by_cases hid : m.id = id
    · subst hid
      have hx : ∀ y, r m = some y → y.id = m.id := by
        intro y hy
        rw [hy] at hb
        exact hb.1
      have hbind : ((r m).bind fun y => if y.id = m.id then y.drop k else some y) =
          (r m).bind (Map.drop k) := by
        cases hy : r m with
        | none => simp
        | some y => simp [hx y hy]
      simp only [hbind]
      exact back_drop hb
    · have hbind : ((r m).bind fun y => if y.id = id then y.drop k else some y) = r m := by
        cases hy : r m with
        | none => simp
        | some y =>
          rw [hy] at hb
          have hne : y.id ≠ id := fun he => hid (hb.1.symm.trans he)
          simp [hne]
      simp only [hbind]
      exact back_congr hb (hsame m hid)
  · intro k' j hj
    have hmore : 0 < more K k id k' j := by
      unfold more
      omega
    rcases hlisted k' j hmore with ⟨m, hm, rfl⟩ | hbase
    · -- a map that the request made goes only with its last hold
      left
      by_cases hid : m.id = id
      · subst hid
        rcases made_drop (hnew m hm).2 with ⟨_, hz⟩ | ⟨m', hsome, hid, _⟩
        · have := hz k'
          omega
        · exact ⟨m', mem_alter.mpr (Or.inr ⟨m, hm, rfl, hsome⟩), hid⟩
      · exact ⟨m, mem_alter.mpr (Or.inl ⟨hm, hid⟩), rfl⟩
    · exact Or.inr hbase

/-- The table is as it was exactly when the request gave all its holds back and somebody held
each of the maps that it took. -/
theorem Returned.perm_iff {base : Table} (hb : Distinct base) {K : Hold → Nat → Nat} {T : Nat → Nat}
    {maps : List Map} (h : Returned base K T maps) :
    maps.Perm base.maps ↔
      (∀ k id, K k id = 0) ∧ ∀ m ∈ base.maps, 0 < T m.id → Kept m := by
  obtain ⟨new, r, rfl, hnew, hback, hlisted⟩ := h
  have hsame : (new ++ base.maps.filterMap r).Perm base.maps ↔
      new = [] ∧ ∀ m ∈ base.maps, r m = some m := by
    constructor
    · intro hperm
      have hnil : new = [] := by
        rw [List.eq_nil_iff_forall_not_mem]
        intro m hm
        have h1 := hb.fresh m (hperm.mem_iff.mp (List.mem_append_left _ hm))
        have h2 := (hnew m hm).1
        omega
      subst hnil
      refine ⟨rfl, fun m hm => ?_⟩
      obtain ⟨x, hx, he⟩ := List.mem_filterMap.mp (hperm.mem_iff.mpr hm)
      have hid : m.id = x.id := by
        have hx := hback x hx
        rw [he] at hx
        exact hx.1
      rwa [hb.unique.eq hm hx hid, ← hb.unique.eq hm hx hid] at he
    · rintro ⟨rfl, hr⟩
      have hall : base.maps.filterMap r = base.maps := by
        conv_rhs => rw [← List.filterMap_some (l := base.maps)]
        exact List.filterMap_congr hr
      rw [hall, List.nil_append]
  rw [hsame]
  constructor
  · rintro ⟨rfl, hr⟩
    have hbase : ∀ m ∈ base.maps, holdsOn K m.id = 0 ∧ (0 < T m.id → Kept m) :=
      fun m hm => (back_same (hback m hm)).mp (hr m hm)
    refine ⟨fun k id => ?_, fun m hm => (hbase m hm).2⟩
    by_contra hpos
    rcases hlisted k id (by omega) with ⟨m, hm, _⟩ | ⟨m, hm, rfl⟩
    · cases hm
    · have hz := (hbase m hm).1
      unfold holdsOn at hz
      cases k <;> omega
  · rintro ⟨hz, hk⟩
    refine ⟨?_, fun m hm => (back_same (hback m hm)).mpr ⟨?_, hk m hm⟩⟩
    · rw [List.eq_nil_iff_forall_not_mem]
      intro m hm
      have hmade := (hnew m hm).2
      have h1 := hmade.refs
      have h2 := hmade.held
      rw [hz, hz] at h1
      omega
    · simp [holdsOn, hz]

/-! ## The loops -/

/-- The holds of a request with the maps `maps` of its buffers and `taken` of its handles. -/
def heldBy (maps : List (Option Nat)) (taken : List Nat) : Hold → Nat → Nat
  | .ctx, j => maps.count (some j)
  | .dma, j => taken.count j

theorem heldBy_nil : heldBy [] [] = fun _ _ => 0 := by
  funext k j
  cases k <;> rfl

theorem heldBy_buf (l r : List (Option Nat)) (taken : List Nat) (id : Nat) :
    heldBy (l ++ some id :: r) taken = more (heldBy (l ++ r) taken) .ctx id := by
  funext k j
  cases k with
  | ctx =>
    by_cases hj : j = id
    · simp [heldBy, more, hj]
      omega
    · have hne : id ≠ j := fun he => hj he.symm
      simp [heldBy, more, hj, hne]
  | dma => simp [heldBy, more]

theorem heldBy_no_buf (l r : List (Option Nat)) (taken : List Nat) :
    heldBy (l ++ none :: r) taken = heldBy (l ++ r) taken := by
  funext k j
  cases k with
  | ctx => simp [heldBy]
  | dma => rfl

theorem heldBy_handle (maps : List (Option Nat)) (l r : List Nat) (id : Nat) :
    heldBy maps (l ++ id :: r) = more (heldBy maps (l ++ r)) .dma id := by
  funext k j
  cases k with
  | ctx => simp [heldBy, more]
  | dma =>
    by_cases hj : j = id
    · simp [heldBy, more, hj]
      omega
    · have hne : id ≠ j := fun he => hj he.symm
      simp [heldBy, more, hj, hne]

/-- One turn of the loop over the buffers holds the map that it returns. -/
theorem Granted.get_args_buf {base t : Table} (hb : Distinct base) {maps : List (Option Nat)}
    (h : Granted base t (heldBy maps [])) (d : Driver) (sh : AdsprpcShared)
    (fdtable : Int → Option Nat) {a : Arg} (hkeep : keepAttr sh a.attr = false) :
    (∃ t' p, get_args_buf d sh fdtable t a = (t', .ok p) ∧
      Granted base t' (heldBy (maps ++ [p]) [])) ∨
    (∃ t' e, get_args_buf d sh fdtable t a = (t', .error e) ∧
      Granted base t' (heldBy maps [])) := by
  unfold map_table.get_args_buf
  split
  · refine Or.inl ⟨t, none, rfl, ?_⟩
    rw [heldBy_no_buf, List.append_nil]
    exact h
  · rename_i fd _
    rcases h.create hb .ctx d sh fd hkeep a.pv a.len 0 (fdtable fd) a.env with
      ⟨t', id, hc, hg⟩ | ⟨t', e, hc, hg⟩
    · rw [hc]
      refine Or.inl ⟨_, some id, rfl, ?_⟩
      rw [heldBy_buf, List.append_nil]
      exact hg
    · rw [hc]
      exact Or.inr ⟨t', e, rfl, hg⟩

theorem Granted.get_args_bufs {base t : Table} (hb : Distinct base) {maps : List (Option Nat)}
    (h : Granted base t (heldBy maps [])) (d : Driver) (sh : AdsprpcShared)
    (fdtable : Int → Option Nat) {as : List Arg} (hkeep : ∀ a ∈ as, keepAttr sh a.attr = false) :
    Granted base (get_args_bufs d sh fdtable t maps as).1
      (heldBy (get_args_bufs d sh fdtable t maps as).2.1 []) := by
  induction as generalizing t maps with
  | nil => exact h
  | cons a as ih =>
    have hrest : ∀ x ∈ as, keepAttr sh x.attr = false :=
      fun x hx => hkeep x (List.mem_cons_of_mem _ hx)
    unfold map_table.get_args_bufs
    rcases h.get_args_buf hb d sh fdtable (hkeep a List.mem_cons_self) with
      ⟨t', p, he, hg⟩ | ⟨t', e, he, hg⟩
    · rw [he]
      exact ih hg hrest
    · rw [he]
      exact hg

/-- The loop over the buffers takes the maps that mmap_create gives for them. -/
theorem get_args_bufs_given (d : Driver) (sh : AdsprpcShared) (fdtable : Int → Option Nat)
    (t : Table) (maps : List (Option Nat)) (as : List Arg) (us : List Use) :
    maps.reduceOption ++ mapsGiven d sh fdtable t (as.filterMap (bufUse d) ++ us) =
      (get_args_bufs d sh fdtable t maps as).2.1.reduceOption ++
        match (get_args_bufs d sh fdtable t maps as).2.2 with
        | none => mapsGiven d sh fdtable (get_args_bufs d sh fdtable t maps as).1 us
        | some _ => [] := by
  induction as generalizing t maps with
  | nil => rfl
  | cons a as ih =>
    unfold get_args_bufs get_args_buf
    cases hfd : bufFd d a with
    | none =>
      have huse : bufUse d a = none := by simp [bufUse, hfd]
      rw [List.filterMap_cons_none huse]
      dsimp only
      rw [← ih, List.reduceOption_append, List.append_assoc]
      rfl
    | some fd =>
      have huse : bufUse d a = some ⟨fd, a.attr, a.pv, a.len, 0, a.env⟩ := by
        simp [bufUse, hfd]
      rw [List.filterMap_cons_some huse, List.cons_append]
      dsimp only [mapsGiven]
      cases hc : mmap_create d sh t fd a.attr a.pv a.len 0 (fdtable fd) a.env with
      | mk t₁ res =>
        cases res with
        | error e => simp
        | ok id =>
          have hmark : ∀ us, mapsGiven d sh fdtable
              { t₁ with maps := update Map.id t₁.maps id .addCtx } us =
              mapsGiven d sh fdtable t₁ us := mapsGiven_mark d sh fdtable t₁ id .ctx
          dsimp only
          rw [← ih, hmark, List.reduceOption_append, List.append_assoc]
          rfl

/-- The undo of the loop over the handles gives back the holds for the handles. -/
theorem Returned.undo_handles {base : Table} {T : Nat → Nat} {maps : List Map}
    {ctxmaps : List (Option Nat)} {taken : List Nat}
    (h : Returned base (heldBy ctxmaps taken) T maps) :
    Returned base (heldBy ctxmaps []) T (undo_handles maps taken) := by
  induction taken generalizing maps with
  | nil => exact h
  | cons id taken ih =>
    have hsplit := heldBy_handle ctxmaps [] taken id
    rw [List.nil_append] at hsplit
    rw [hsplit] at h
    exact ih h.drop

/-- context_free gives back the holds for the buffers, and only these. -/
theorem Returned.context_free {base : Table} {T : Nat → Nat} {maps : List Map}
    {ctxmaps : List (Option Nat)} {taken : List Nat}
    (h : Returned base (heldBy ctxmaps taken) T maps) :
    Returned base (heldBy [] taken) T (context_free maps ctxmaps) := by
  induction ctxmaps generalizing maps with
  | nil => exact h
  | cons p ctxmaps ih =>
    cases p with
    | none =>
      have hsplit := heldBy_no_buf [] ctxmaps taken
      rw [List.nil_append] at hsplit
      rw [hsplit] at h
      exact ih h
    | some id =>
      have hsplit := heldBy_buf [] ctxmaps taken id
      rw [List.nil_append] at hsplit
      rw [hsplit] at h
      exact ih h.drop

/-- The virtio driver takes the attribute from the word of a dma handle. -/
theorem keepAttr_handleAttr_virtio (sh : AdsprpcShared) (a : Arg) :
    keepAttr sh (handleAttr .virtio sh a) = false := by
  simp [keepAttr, handleAttr, BitVec.and_assoc]

theorem keepAttr_handleAttr {sh : AdsprpcShared} (hnova : keepAttr sh sh.FASTRPC_ATTR_NOVA = false)
    (d : Driver) (a : Arg) : keepAttr sh (handleAttr d sh a) = false := by
  cases d with
  | virtio => exact keepAttr_handleAttr_virtio sh a
  | hybrid => exact hnova

/-- The loop over the handles: it undoes its own holds when it fails, and else returns them. -/
theorem Granted.get_args_handles {base t : Table} (hb : Distinct base) {maps : List (Option Nat)}
    {taken : List Nat} (h : Granted base t (heldBy maps taken)) (d : Driver) {sh : AdsprpcShared}
    (hnova : keepAttr sh sh.FASTRPC_ATTR_NOVA = false) (cap : Bool)
    (fdtable : Int → Option Nat) (as : List Arg) :
    (∃ t' taken', get_args_handles d sh cap fdtable t taken as = (t', .ok taken') ∧
      Granted base t' (heldBy maps taken') ∧
      taken' = taken ++ mapsGiven d sh fdtable t (as.filterMap (handleUse d sh cap)) ∧
      (taken' = [] ↔ taken = [] ∧ ∀ a ∈ as, handleFd d cap a = none)) ∨
    (∃ t' t₁ taken₁ e, get_args_handles d sh cap fdtable t taken as = (t', .error e) ∧
      t'.maps = map_table.undo_handles t₁.maps taken₁ ∧
      Granted base t₁ (heldBy maps taken₁) ∧
      taken₁ = taken ++ mapsGiven d sh fdtable t (as.filterMap (handleUse d sh cap))) := by
  induction as generalizing t taken with
  | nil => exact Or.inl ⟨t, taken, rfl, h, by simp [mapsGiven], by simp⟩
  | cons a as ih =>
    unfold map_table.get_args_handles
    split
    · rename_i hnone
      have huse : handleUse d sh cap a = none := by simp [handleUse, hnone]
      rw [List.filterMap_cons_none huse]
      rcases ih h with ⟨t', taken', he, hg, hids, hiff⟩ | hfail
      · exact Or.inl ⟨t', taken', he, hg, hids, by simp [hiff, hnone]⟩
      · exact Or.inr hfail
    · rename_i fd hfd
      have huse : handleUse d sh cap a =
          some ⟨fd, handleAttr d sh a, 0, 0, handleFlags d sh a, a.env⟩ := by
        simp [handleUse, hfd]
      rw [List.filterMap_cons_some huse]
      rcases h.create hb .dma d sh fd (keepAttr_handleAttr hnova d a) 0 0 (handleFlags d sh a)
        (fdtable fd) a.env with ⟨t₁, id, hc, hg⟩ | ⟨t₁, e, hc, hg⟩
      · rw [hc]
        have hsplit := heldBy_handle maps taken [] id
        rw [List.append_nil] at hsplit
        rw [← hsplit] at hg
        have hgiven : ∀ us, mapsGiven d sh fdtable t
            (⟨fd, handleAttr d sh a, 0, 0, handleFlags d sh a, a.env⟩ :: us) =
            id :: mapsGiven d sh fdtable
              { t₁ with maps := update Map.id t₁.maps id .addDma } us := by
          intro us
          simp only [mapsGiven, hc]
          exact congrArg _ (mapsGiven_mark d sh fdtable t₁ id .dma us).symm
        rw [hgiven, List.append_cons taken id]
        rcases ih hg with ⟨t', taken', he, hg, hids, hiff⟩ | hfail
        · exact Or.inl ⟨t', taken', he, hg, hids, by simp [hiff, hfd]⟩
        · exact Or.inr hfail
      · rw [hc]
        refine Or.inr ⟨_, t₁, taken, e, rfl, rfl, hg, ?_⟩
        simp only [mapsGiven, hc, List.append_nil]

/-! ## The law of a failed invoke -/

theorem heldBy_none {taken : List Nat} :
    (∀ k id, heldBy [] taken k id = 0) ↔ taken = [] := by
  constructor
  · intro h
    rw [List.eq_nil_iff_forall_not_mem]
    intro id hid
    exact List.count_eq_zero.mp (h .dma id) hid
  · rintro rfl k id
    cases k <;> rfl

/-- The holds of a request are on the maps of its buffers and of its handles. -/
theorem holdsOn_pos (maps : List (Option Nat)) (taken : List Nat) (id : Nat) :
    0 < holdsOn (heldBy maps taken) id ↔ id ∈ maps.reduceOption ++ taken := by
  rw [List.mem_append, List.reduceOption_mem_iff, ← List.count_pos_iff, ← List.count_pos_iff]
  unfold holdsOn heldBy
  dsimp only
  omega

/-- A request without `FASTRPC_ATTR_KEEP_MAP` that fails before its message is sent leaves the
maps as they were exactly when it fails in one of the loops that take the maps, or takes no map
for a dma handle, and somebody held each map of the table that it was given. -/
theorem a_failed_invoke_restores_the_maps_iff (d : Driver) (sh : AdsprpcShared)
    (hnova : keepAttr sh sh.FASTRPC_ATTR_NOVA = false) {t : Table} (ht : Distinct t) (cap : Bool)
    (fdtable : Int → Option Nat) (bufs handles : List Arg)
    (hkeep : ∀ a ∈ bufs, keepAttr sh a.attr = false) (late : Option (LateExit d)) {exit : Exit d}
    {maps : List Map}
    (h : failed_invoke d sh cap fdtable t bufs handles late = some (exit, maps)) :
    maps.Perm t.maps ↔
      ((∀ e, exit ≠ .late e) ∨ ∀ a ∈ handles, handleFd d cap a = none) ∧
      ∀ m ∈ t.maps, m.id ∈ mapsGiven d sh fdtable t
        (bufs.filterMap (bufUse d) ++ handles.filterMap (handleUse d sh cap)) → Kept m := by
  have hstart : Granted t t (heldBy [] []) := by
    rw [heldBy_nil]
    exact .refl t
  have hbufs := hstart.get_args_bufs ht d sh fdtable hkeep
  have hgiven := get_args_bufs_given d sh fdtable t [] bufs
    (handles.filterMap (handleUse d sh cap))
  unfold failed_invoke at h
  split at h
  · -- a buffer could not be mapped
    rename_i t₁ ctxmaps e he
    rw [he] at hbufs hgiven
    cases h
    simp only [List.reduceOption_nil, List.nil_append, List.append_nil] at hgiven
    rw [hbufs.returned.context_free.perm_iff ht, hgiven]
    simp [holdsOn_pos, heldBy_none]
  · rename_i t₁ ctxmaps he
    rw [he] at hbufs hgiven
    simp only [List.reduceOption_nil, List.nil_append] at hgiven
    rcases hbufs.get_args_handles ht d hnova cap fdtable handles with
      ⟨t₂, taken, hh, hg, hids, hiff⟩ | ⟨t₂, t₃, taken, e, hh, hundo, hg, hids⟩
    · -- the holds of the handles are left behind
      rw [hh] at h
      obtain ⟨e, _, hx⟩ := Option.map_eq_some_iff.mp h
      cases hx
      rw [List.nil_append] at hids
      rw [hg.returned.context_free.perm_iff ht, hgiven, ← hids]
      simp [holdsOn_pos, heldBy_none, hiff]
    · rw [hh] at h
      cases h
      rw [List.nil_append] at hids
      rw [hundo, hg.returned.undo_handles.context_free.perm_iff ht, hgiven, ← hids]
      simp [holdsOn_pos, heldBy_none]

/-- A table with one map, which a mem_map call has made. -/
def oneMap : Table := ⟨[⟨0, 5, 0, 0, 1, 4096, 64, 8192, 1, 0, 0⟩], 1⟩

theorem distinct_oneMap : Distinct oneMap := by
  refine ⟨List.nodup_singleton _, ?_⟩
  intro m hm
  cases List.mem_singleton.mp hm
  decide

/-- A request shares the map for a buffer, makes a second map, takes a map for a handle, and
fails at the second handle. -/
theorem a_failed_handle_restores_the_maps :
    ∃ maps, failed_invoke .hybrid sampleShared false (fun fd => if fd = 9 then none else some 1)
        oneMap [⟨4096, 32, some 5, 0, allOk⟩, ⟨16, 32, some 6, 0, allOk⟩]
        [⟨0, 0, some 7, 0, allOk⟩, ⟨0, 0, some 9, 0, allOk⟩] (some (.send .hybrid)) =
        some (.handles .VERIFY, maps) ∧
      maps.Perm oneMap.maps := by
  refine ⟨_, rfl, ?_⟩
  refine (a_failed_invoke_restores_the_maps_iff .hybrid sampleShared (by decide) distinct_oneMap
    false (fun fd => if fd = 9 then none else some 1)
    [⟨4096, 32, some 5, 0, allOk⟩, ⟨16, 32, some 6, 0, allOk⟩]
    [⟨0, 0, some 7, 0, allOk⟩, ⟨0, 0, some 9, 0, allOk⟩] (by decide) (some (.send .hybrid))
    rfl).mpr ⟨?_, ?_⟩
  · exact Or.inl (fun e he => by cases he)
  · intro m hm _
    cases List.mem_singleton.mp hm
    exact ⟨by decide, by decide, by decide, by decide, Or.inl (by decide)⟩

/-- A map that nobody holds, which a refused munmap has put back, goes with the failed invoke. -/
example : failed_invoke .hybrid sampleShared false (fun _ => some 1)
    ⟨[⟨0, 5, 0, 0, 1, 4096, 64, 4096, 0, 0, 0⟩], 1⟩ [⟨4096, 32, some 5, 0, allOk⟩] []
    (some (.send .hybrid)) = some (.late (.send .hybrid), []) := by decide

/-- The map of a dma handle stays behind when the send fails, in both drivers. -/
theorem a_failed_send_leaves_the_map_of_a_handle :
    (∃ maps, failed_invoke .hybrid sampleShared false (fun _ => some 1) ⟨[], 0⟩ []
        [⟨0, 0, some 7, 0, allOk⟩] (some (.send .hybrid)) =
        some (.late (.send .hybrid), maps) ∧ ¬ maps.Perm []) ∧
    (∃ maps, failed_invoke .virtio sampleShared false (fun _ => some 1) ⟨[], 0⟩ []
        [⟨0, 0, some 7, 0, allOk⟩] (some (.send .virtio)) =
        some (.late (.send .virtio), maps) ∧ ¬ maps.Perm []) := by
  refine ⟨⟨_, rfl, ?_⟩, ⟨_, rfl, ?_⟩⟩
  · intro h
    exact absurd h.length_eq (by decide)
  · intro h
    exact absurd h.length_eq (by decide)

end virtual_fastrpc.map_table
