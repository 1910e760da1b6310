-- The models of buf_alloc agree. Those of BufferPool, SmmuMaps and ScatterLists keep
-- what their laws need of a buffer: who holds it, its device address, its pages. At
-- the addresses and the sizes of the buffers each one is the model of Buffers.
import PlatformKernel.BufferOwners
import PlatformKernel.ScatterLists

namespace virtual_fastrpc.buffer_pool

open buffers (BufType PAGE_SIZE take_hdr)
open buffer_owners (Owned buf_setBuf_self)
open keyed

/-! ## Buffers as objects -/

def Buf.view (va : Nat → Nat) (b : Buf) : buffers.Buf := ⟨va b.id, b.size⟩

/-- The pool where the buffer `id` is at `va id`, with the new buffers that the kernel gives. -/
def Pool.view (va : Nat → Nat) (new_bufs : List (Option Nat)) (p : Pool) : buffers.Pool where
  hdr_bufs := p.hdr_bufs.map fun id => (va id, (p.buf id).all Buf.pers_hdr_in_use)
  cached_bufs := (p.cached_bufs.filterMap p.buf).map (Buf.view va)
  new_bufs := new_bufs

/-- A pool whose lists name buffers, each of them once. -/
structure Listed (p : Pool) : Prop where
  below : ∀ b ∈ p.bufs, b.id < p.next
  hdrs : p.hdr_bufs.Nodup
  chunk : ∀ id ∈ p.hdr_bufs, ∃ b, p.buf id = some b ∧ b.size = PAGE_SIZE
  cached : p.cached_bufs.Nodup
  live : ∀ id ∈ p.cached_bufs, ∃ b, p.buf id = some b

theorem listed_of_owned {p : Pool} {held : List Nat} (h : Owned p held) (hhdr : p.hdr_bufs.Nodup) :
    Listed p where
  below := h.below
  hdrs := hhdr
  chunk := fun id hid => (h.chunk id hid).1.imp fun _ hb => ⟨hb.1, hb.2.1⟩
  cached := (List.nodup_append.mp h.nodup).1
  live := fun id hid => h.live id (List.mem_append_left _ hid)

section view

variable {d : Driver} {p p' : Pool} {size id : Nat} {nomap : Bool} {ty : BufType} {e : AllocEnv}
  {va : Nat → Nat} {news : List (Option Nat)}

/-- What comes of an allocation, as Buffers has it. -/
def given (va : Nat → Nat) (news : List (Option Nat)) (r : Pool × Nat) :
    Option (buffers.Buf × buffers.Pool) :=
  (r.1.buf r.2).map fun b => (b.view va, r.1.view va news)

theorem given_some {b : Buf} (hb : p.buf id = some b) :
    given va news (p, id) = some (b.view va, p.view va news) := by
  rw [given, hb]
  rfl

theorem buf_setBuf (f : Buf → Buf) (hid : ∀ b, (f b).id = b.id) (j : Nat) :
    (p.setBuf id f).buf j = (p.buf j).map fun b => if b.id = id then f b else b :=
  lookup_update hid

/-- A change that keeps the id and the size of a buffer is not seen in the cache. -/
theorem view_cached_setBuf (f : Buf → Buf) (hid : ∀ b, (f b).id = b.id)
    (hsize : ∀ b, (f b).size = b.size) (ids : List Nat) :
    (ids.filterMap (p.setBuf id f).buf).map (Buf.view va) =
      (ids.filterMap p.buf).map (Buf.view va) := by
  rw [List.map_filterMap, List.map_filterMap]
  refine List.filterMap_congr fun j _ => ?_
  rw [buf_setBuf f hid, Option.map_map]
  congr 1
  funext b
  simp only [Function.comp_apply]
  split
  · rw [Buf.view, hid, hsize]
    rfl
  · rfl

theorem view_setInUse {id : Nat} :
    (p.setBuf id (.setInUse true)).view va news = { p.view va news with
      hdr_bufs := p.hdr_bufs.map fun j =>
        (va j, if j = id then true else (p.buf j).all Buf.pers_hdr_in_use) } := by
  have hcached : (p.cached_bufs.filterMap (p.setBuf id (.setInUse true)).buf).map (Buf.view va) =
      (p.cached_bufs.filterMap p.buf).map (Buf.view va) :=
    view_cached_setBuf (.setInUse true) (fun _ => rfl) (fun _ => rfl) p.cached_bufs
  unfold Pool.view
  rw [show (p.setBuf id (.setInUse true)).cached_bufs = p.cached_bufs from rfl, hcached]
  congr 1
  refine List.map_congr_left fun j _ => ?_
  rw [buf_setBuf (.setInUse true) (fun _ => rfl)]
  rcases hj : p.buf j with _ | c
  · simp
  · have hc : c.id = j := key_of_lookup hj
    simp only [Option.map_some, Option.all_some, hc]
    split <;> simp [Buf.setInUse]

/-- The type of a buffer is not seen. -/
theorem view_setType {ids : List Nat} {n : Int} (ty : Option BufType) :
    Pool.view va news ({ p with cached_bufs := ids, num_cached_buf := n }.setBuf id (.setType ty)) =
      Pool.view va news { p with cached_bufs := ids, num_cached_buf := n } := by
  have hcached : (ids.filterMap (p.setBuf id (.setType ty)).buf).map (Buf.view va) =
      (ids.filterMap p.buf).map (Buf.view va) :=
    view_cached_setBuf (.setType ty) (fun _ => rfl) (fun _ => rfl) ids
  unfold Pool.view
  refine congrArg₂ (fun hdrs cached => (⟨hdrs, cached, news⟩ : buffers.Pool)) ?_ hcached
  refine List.map_congr_left fun j _ => ?_
  rw [buf_setBuf (.setType ty) (fun _ => rfl), Option.all_map]
  refine congrArg (fun q => (va j, (p.buf j).all q)) (funext fun b => ?_)
  split <;> rfl

/-- The first header that is not in use is taken, in both models. -/
theorem take_hdr_map (va : Nat → Nat) (used : Nat → Bool) {ids : List Nat} (h : ids.Nodup) :
    take_hdr (ids.map fun id => (va id, used id)) =
      (ids.find? (fun id => !used id)).map fun id =>
        (va id, ids.map fun j => (va j, if j = id then true else used j)) := by
  induction ids with
  | nil => rfl
  | cons a ids ih =>
    obtain ⟨ha, h⟩ := List.nodup_cons.mp h
    rw [List.map_cons]
    rcases hu : used a with _ | _
    · rw [take_hdr, List.find?_cons_of_pos (by simp [hu])]
      have hrest : (ids.map fun j => (va j, used j)) =
          ids.map fun j => (va j, if j = a then true else used j) := by
        refine List.map_congr_left fun j hj => ?_
        have hne : j ≠ a := by
          rintro rfl
          exact ha hj
        rw [if_neg hne]
      simp [hrest]
    · rw [take_hdr, ih h, List.find?_cons_of_neg (by simp [hu]), Option.map_map]
      congr 1
      funext id
      simp [hu]

theorem get_persistent_view (h : Listed p) :
    buffers.hfastrpc_get_persistent_buf (p.view va news) size ty =
      (get_persistent_buf p size ty).bind (given va news) := by
  unfold buffers.hfastrpc_get_persistent_buf get_persistent_buf
  split
  · rfl
  have hfree : (fun id => (p.buf id).any fun b => !b.pers_hdr_in_use) =
      fun id => !(p.buf id).all Buf.pers_hdr_in_use := by
    funext id
    rcases p.buf id with _ | b <;> rfl
  rw [hfree, Pool.view, take_hdr_map va _ h.hdrs]
  rcases hf : p.hdr_bufs.find? fun id => !(p.buf id).all Buf.pers_hdr_in_use with _ | id
  · rfl
  obtain ⟨b, hb, hsize⟩ := h.chunk id (List.mem_of_find?_eq_some hf)
  have hkey : b.id = id := key_of_lookup hb
  simp only [Option.map_some, Option.bind_some]
  have hset : (p.setBuf id (.setInUse true)).buf id = some (b.setInUse true) :=
    buf_setBuf_self hb (fun _ => rfl)
  rw [given_some hset, view_setInUse]
  simp [Buf.view, Buf.setInUse, hkey, hsize, Pool.view]

/-- The ids of the cache without the buffer that the search finds. -/
theorem erase_cached {b : Buf} (hids : p.cached_bufs.Nodup) (hb : find_cached p size = some b) :
    ((p.cached_bufs.erase b.id).filterMap p.buf).map (Buf.view va) =
      ((p.cached_bufs.filterMap p.buf).map (Buf.view va)).erase (b.view va) := by
  obtain ⟨hfits, before, after, hsplit, hbefore, _⟩ := best_fit.search_split hb
  obtain ⟨_, hbuf, _⟩ := find_cached_some hb
  obtain ⟨ids, rest, hids', rfl, hrest⟩ := List.filterMap_eq_append_iff.mp hsplit
  obtain ⟨skipped, id, ids', rfl, hskipped, hid, rfl⟩ := List.filterMap_eq_cons_iff.mp hrest
  obtain rfl : b.id = id := key_of_lookup hid
  -- the ids before the one found are others, as are their addresses and sizes
  have hview : b.view va ∉ (ids.filterMap p.buf).map (Buf.view va) := by
    intro hmem
    obtain ⟨c, hc, he⟩ := List.mem_map.mp hmem
    have hsize : c.size = b.size := congrArg buffers.Buf.size he
    have := hbefore c hc (by omega)
    omega
  have hnot : b.id ∉ ids ++ skipped := by
    rw [hids', ← List.append_assoc] at hids
    intro hmem
    exact (List.disjoint_of_nodup_append hids) hmem List.mem_cons_self
  have hnone : skipped.filterMap p.buf = [] := List.filterMap_eq_nil_iff.mpr hskipped
  rw [hsplit, List.map_append, List.map_cons, List.erase_append_right _ hview,
    List.erase_cons_head, hids', ← List.append_assoc, List.erase_append_right _ hnot,
    List.erase_cons_head, List.filterMap_append, List.filterMap_append, hnone, List.append_nil,
    List.map_append]

theorem get_cached_view (h : Listed p) :
    buffers.hfastrpc_get_cached_buf (p.view va news) size ty =
      (get_cached_buf d p size ty).bind (given va news) := by
  unfold buffers.hfastrpc_get_cached_buf get_cached_buf
  split
  · rfl
  have hsearch : buffers.smallest size (p.view va news).cached_bufs =
      (find_cached p size).map (Buf.view va) := best_fit.search_map (Buf.view va) _
  rw [hsearch]
  rcases hf : find_cached p size with _ | b
  · rfl
  obtain ⟨_, hb, _⟩ := find_cached_some hf
  have hview : Pool.view va news { p with
      cached_bufs := p.cached_bufs.erase b.id
      num_cached_buf := p.num_cached_buf - 1 } = { p.view va news with
        cached_bufs := (p.view va news).cached_bufs.erase (b.view va) } :=
    congrArg (fun cached => (⟨_, cached, news⟩ : buffers.Pool)) (erase_cached h.cached hf)
  simp only [Option.map_some, Option.bind_some]
  rw [← hview]
  rcases d with _ | _
  · exact (given_some (p := { p with
      cached_bufs := p.cached_bufs.erase b.id
      num_cached_buf := p.num_cached_buf - 1 }) hb).symm
  · dsimp only
    rw [given_some (buf_setBuf_self (p := { p with
      cached_bufs := p.cached_bufs.erase b.id
      num_cached_buf := p.num_cached_buf - 1 }) (f := .setType (some ty)) hb (fun _ => rfl)),
      view_setType]
    rfl

/-- buf_alloc of either driver, as Buffers has it. -/
def alloc : Driver → buffers.Pool → Nat → BufType → Option (buffers.Buf × buffers.Pool)
  | .hybrid => buffers.hfastrpc_buf_alloc
  | .virtio => buffers.vfastrpc_buf_alloc

/-- What comes of buf_alloc, where `new` is the head of the new buffers before it. -/
def given_new (va : Nat → Nat) (new : Option Nat) (news : List (Option Nat)) (next : Nat) :
    Pool × Option Nat → Option (buffers.Buf × buffers.Pool)
  | (_, none) => none
  | (p, some id) => given va (if id = next then news else new :: news) (p, id)

theorem lt_next_of_buf (h : Listed p) {b : Buf} (hb : p.buf id = some b) : id < p.next := by
  have hkey : b.id = id := key_of_lookup hb
  have := h.below b (mem_of_lookup hb)
  omega

theorem given_new_some {new : Option Nat} {b : Buf} (h : Listed p) (hb : p.buf id = some b)
    {x : buffers.Buf × buffers.Pool} (hx : given va (new :: news) (p', id) = some x) :
    given_new va new news p.next (p', some id) = some x := by
  rw [given_new, if_neg (Nat.ne_of_lt (lt_next_of_buf h hb)), hx]

/-- What the first two searches find, as Buffers has it. -/
theorem persistent_alloc (h : Listed p) {new : Option Nat}
    (hg : get_persistent_buf p size ty = some (p', id)) :
    ∃ x, buffers.hfastrpc_get_persistent_buf (p.view va (new :: news)) size ty = some x ∧
      given_new va new news p.next (p', some id) = some x := by
  rw [get_persistent_view h, hg]
  obtain ⟨_, ⟨b, hb, _⟩, rfl, _⟩ := get_persistent_some hg
  obtain ⟨x, hx⟩ : ∃ x, given va (new :: news) (p.setBuf id (.setInUse true), id) = some x :=
    ⟨_, given_some (buf_setBuf_self hb fun _ => rfl)⟩
  exact ⟨x, hx, given_new_some h hb hx⟩

theorem cached_alloc (h : Listed p) {new : Option Nat}
    (hg : get_cached_buf d p size ty = some (p', id)) :
    ∃ x, buffers.hfastrpc_get_cached_buf (p.view va (new :: news)) size ty = some x ∧
      given_new va new news p.next (p', some id) = some x := by
  rw [get_cached_view (d := d) h, hg]
  obtain ⟨b, hf, rfl, _, rfl⟩ := get_cached_some hg
  obtain ⟨_, hb, _⟩ := find_cached_some hf
  obtain ⟨x, hx⟩ : ∃ x, given va (new :: news) (taken d p b ty, b.id) = some x := by
    rcases d with _ | _
    · exact ⟨_, given_some hb⟩
    · exact ⟨_, given_some (buf_setBuf_self hb fun _ => rfl)⟩
  exact ⟨x, hx, given_new_some h hb hx⟩

theorem cached_none (h : Listed p) (hg : get_cached_buf d p size ty = none) :
    buffers.hfastrpc_get_cached_buf (p.view va news) size ty = none := by
  rw [get_cached_view (d := d) h, hg]
  rfl

/-- A new buffer is on none of the lists that the view shows. -/
theorem new_given (h : Listed p) (b : Buf) (hb : b.id = p.next) (remote_bufs : List Nat) :
    given va news ({ p with bufs := b :: p.bufs, next := p.next + 1, remote_bufs }, p.next) =
      some (b.view va, p.view va news) := by
  have hother {j : Nat} {c : Buf} (hc : p.buf j = some c) :
      lookup Buf.id (b :: p.bufs) j = some c := by
    have hlt := lt_next_of_buf h hc
    rw [lookup_cons_ne (by omega)]
    exact hc
  have hself : lookup Buf.id (b :: p.bufs) p.next = some b := hb ▸ lookup_cons_self b
  refine (given_some (p := { p with bufs := b :: p.bufs, next := p.next + 1, remote_bufs })
    hself).trans ?_
  unfold Pool.view
  refine congrArg₂
    (fun hdrs cached => some (b.view va, (⟨hdrs, cached, news⟩ : buffers.Pool))) ?_ ?_
  · refine List.map_congr_left fun j hj => ?_
    obtain ⟨c, hc, _⟩ := h.chunk j hj
    exact congrArg (fun o => (va j, Option.all Buf.pers_hdr_in_use o)) ((hother hc).trans hc.symm)
  · refine congrArg (List.map (Buf.view va)) (List.filterMap_congr fun j hj => ?_)
    obtain ⟨c, hc⟩ := h.live j hj
    rw [hc]
    exact hother hc

theorem buf_alloc_new_view (h : Listed p) {new : Option Nat}
    (hnew : new = if e.kzalloc ∧ e.alloc_buffer ∧ (d = .hybrid → e.smmu_map) then some (va p.next)
      else none) :
    buffers.vfastrpc_alloc_buffer (p.view va (new :: news)) (new_buf d p size nomap ty).size =
      given_new va new news p.next (buf_alloc_new d p size nomap ty e) := by
  unfold buf_alloc_new
  rw [hnew]
  split
  · rw [given_new, if_pos rfl, new_given h _ rfl]
    rfl
  · rfl

/-- The same buffer comes of an allocation, and it leaves the same pool. -/
theorem buf_alloc_view (h : Listed p) {new : Option Nat}
    (hnew : new = if e.kzalloc ∧ e.alloc_buffer ∧ (d = .hybrid → e.smmu_map) then some (va p.next)
      else none) :
    alloc d (p.view va (new :: news)) size ty =
      given_new va new news p.next (buf_alloc d p size nomap ty e) := by
  unfold buf_alloc
  rcases d with _ | _
  · unfold alloc buffers.vfastrpc_buf_alloc
    dsimp only
    split
    · rfl
    rw [if_neg (by simp)]
    rcases hg : get_cached_buf .virtio p size ty with _ | ⟨p', id⟩
    · rw [cached_none h hg]
      exact buf_alloc_new_view h hnew
    · obtain ⟨x, hx, hgiven⟩ := cached_alloc h hg
      rw [hx]
      exact hgiven.symm
  · unfold alloc buffers.hfastrpc_buf_alloc
    dsimp only
    split
    · rfl
    rw [if_pos rfl]
    rcases hp : get_persistent_buf p size ty with _ | ⟨p', id⟩
    · rw [get_persistent_view h, hp]
      rcases hg : get_cached_buf .hybrid p size ty with _ | ⟨p', id⟩
      · rw [cached_none h hg]
        exact buf_alloc_new_view h hnew
      · obtain ⟨x, hx, hgiven⟩ := cached_alloc h hg
        rw [hx]
        exact hgiven.symm
    · obtain ⟨x, hx, hgiven⟩ := persistent_alloc h hp
      rw [hx]
      exact hgiven.symm

end view

end virtual_fastrpc.buffer_pool

namespace virtual_fastrpc.scatter_lists

open buffers (BufType)

/-! ## Buffers with their pages -/

def Buffer.view (va : Buffer → Nat) (b : Buffer) : buffers.Buf := ⟨va b, b.size⟩

/-- A buffer that is not for the user heap is the one that Buffers finds in the cache, or makes. -/
theorem vfastrpc_buf_alloc_view (va : Buffer → Nat) (cached_bufs : Cache) (kzalloc : Bool)
    (alloc_buffer : (size : Nat) → Option {b : Buffer // b.size = size}) (size : Nat) {ty : BufType}
    (hty : ty ≠ .USERHEAP) :
    (vfastrpc_buf_alloc cached_bufs kzalloc alloc_buffer size).toOption.map (Buffer.view va) =
      (buffers.vfastrpc_buf_alloc
        { hdr_bufs := []
          cached_bufs := (cached_bufs.map Subtype.val).map (Buffer.view va)
          new_bufs := [if kzalloc then (alloc_buffer size).map (fun b => va b.val) else none] }
        size ty).map Prod.fst := by
  unfold vfastrpc_buf_alloc buffers.vfastrpc_buf_alloc
  split
  · rfl
  have hsearch : buffers.smallest size ((cached_bufs.map Subtype.val).map (Buffer.view va)) =
      (best_fit.search Buffer.size size (cached_bufs.map Subtype.val)).map (Buffer.view va) :=
    best_fit.search_map (Buffer.view va) _
  unfold buffers.hfastrpc_get_cached_buf
  rw [if_neg hty, hsearch]
  rcases best_fit.search Buffer.size size (cached_bufs.map Subtype.val) with _ | fr
  · rcases kzalloc with _ | _
    · rfl
    · rcases alloc_buffer size with _ | ⟨b, rfl⟩ <;> rfl
  · rfl

end virtual_fastrpc.scatter_lists

namespace virtual_fastrpc.smmu_maps

open buffers (Buf BufType take_hdr)
open keyed

/-! ## Buffers with their device addresses -/

/-- The pool of the session, with the header `i` at `va i`. -/
def Session.view (va : Nat → Nat) (new_bufs : List (Option Nat)) (s : Session) : buffers.Pool where
  hdr_bufs := s.hdr_bufs.mapIdx fun i used => (va i, used)
  cached_bufs := s.cached_bufs
  new_bufs := new_bufs

theorem take_hdr_mapIdx (va : Nat → Nat) (hdrs : List Bool) :
    (take_hdr (hdrs.mapIdx fun i used => (va i, used))).map Prod.snd =
      (take_pers_hdr hdrs).map (List.mapIdx fun i used => (va i, used)) := by
  induction hdrs generalizing va with
  | nil => rfl
  | cons used hdrs ih =>
    rw [List.mapIdx_cons]
    rcases used with _ | _
    · simp [take_hdr, take_pers_hdr]
    · have hrest := congrArg (Option.map (List.cons (va 0, true))) (ih fun i => va (i + 1))
      rw [Option.map_map, Option.map_map] at hrest
      rw [take_hdr, take_pers_hdr, Option.map_map, Option.map_map]
      simpa [Function.comp_def] using hrest

theorem get_persistent_view (va : Nat → Nat) (news : List (Option Nat)) (s : Session) (size : Nat)
    (ty : BufType) :
    (buffers.hfastrpc_get_persistent_buf (s.view va news) size ty).map Prod.snd =
      (get_persistent_buf s size ty).map (Session.view va news) := by
  unfold buffers.hfastrpc_get_persistent_buf get_persistent_buf
  split
  · rfl
  · have hhdrs := congrArg (Option.map fun hdrs => { s.view va news with hdr_bufs := hdrs })
      (take_hdr_mapIdx va s.hdr_bufs)
    rw [Option.map_map, Option.map_map] at hhdrs
    rw [Option.map_map, Option.map_map]
    exact hhdrs

/-- A buffer that gets a type leaves the cache. -/
theorem cached_bufs_update {objs : List Obj} (hu : Unique Obj.id objs) {b : Buf} {o : Obj}
    {f : Obj → Obj} (hf : cachedBuf (f o) = none)
    (ho : objs.find? (fun o => cachedBuf o == some b) = some o) :
    (update Obj.id objs o.id f).filterMap cachedBuf = (objs.filterMap cachedBuf).erase b := by
  induction objs with
  | nil => cases ho
  | cons a objs ih =>
    rw [update, List.map_cons]
    by_cases ha : cachedBuf a = some b
    · rw [List.find?_cons_of_pos (by simp [ha])] at ho
      obtain rfl := Option.some.inj ho
      have hrest : objs.map (fun x => if x.id = a.id then f x else x) = objs :=
        update_eq_self hu.head
      rw [if_pos rfl, List.filterMap_cons_none hf, List.filterMap_cons_some ha,
        List.erase_cons_head, hrest]
    · rw [List.find?_cons_of_neg (by simp [ha])] at ho
      have hne : a.id ≠ o.id := (hu.head o (List.mem_of_find?_eq_some ho)).symm
      have hrest := ih hu.tail ho
      rw [update] at hrest
      rw [if_neg hne]
      rcases hc : cachedBuf a with _ | c
      · rw [List.filterMap_cons_none hc, List.filterMap_cons_none hc, hrest]
      · have hcb : c ≠ b := fun he => ha (he ▸ hc)
        rw [List.filterMap_cons_some hc, List.filterMap_cons_some hc, hrest,
          List.erase_cons_tail (by simpa using hcb)]

/-- The state `s'` holds the pool that Buffers leaves, or the one of `s` when there is no
buffer. -/
def Leaves (va : Nat → Nat) (s s' : Session) : Option (Buf × buffers.Pool) → Prop
  | none => ∀ news, s'.view va news = s.view va news
  | some (_, p) => p = s'.view va p.new_bufs

section view

variable {s : Session} {va : Nat → Nat} {size : Nat} {ty : BufType} {kzalloc : Bool}
  {pages : Option Nat} {r : Reply Nat} {new : Option Nat} {news : List (Option Nat)}

theorem get_cached_view (hu : Unique Obj.id s.objs) {b : Buf} {p : buffers.Pool}
    (h : buffers.hfastrpc_get_cached_buf (s.view va news) size ty = some (b, p)) :
    ∃ o, get_cached_buf s size ty = some o ∧
      ∀ f : Obj → Obj, cachedBuf (f o) = none →
        Leaves va s { s with objs := update Obj.id s.objs o.id f } (some (b, p)) := by
  obtain ⟨hmem, _, rfl⟩ := buffers.get_cached_buf_some h
  unfold buffers.hfastrpc_get_cached_buf at h
  unfold get_cached_buf
  split at h
  · cases h
  rename_i hty
  obtain ⟨fr, hfr, he⟩ := Option.map_eq_some_iff.mp h
  cases he
  rw [if_neg hty, show buffers.smallest size s.cached_bufs = some b from hfr, Option.bind_some]
  obtain ⟨x, hx, hb⟩ := List.mem_filterMap.mp (hmem : b ∈ s.objs.filterMap cachedBuf)
  rcases ho : s.objs.find? fun o => cachedBuf o == some b with _ | o
  · exact absurd hb (by simpa using List.find?_eq_none.mp ho x hx)
  · refine ⟨o, rfl, fun f hf => ?_⟩
    have hcached := cached_bufs_update hu hf ho
    exact (congrArg (fun cached => (⟨_, cached, news⟩ : buffers.Pool)) hcached).symm

theorem get_cached_none (h : buffers.hfastrpc_get_cached_buf (s.view va news) size ty = none) :
    get_cached_buf s size ty = none := by
  unfold buffers.hfastrpc_get_cached_buf at h
  unfold get_cached_buf
  split at h
  · rename_i hty
    exact if_pos hty
  · rename_i hty
    have hnone : buffers.smallest size s.cached_bufs = none := Option.map_eq_none_iff.mp h
    rw [if_neg hty, hnone]
    rfl

theorem buf_alloc_new_view
    (hnew : new = if kzalloc then pages.filter (fun _ => (virt_smmu_map r).toBool) else none) :
    Leaves va s (buf_alloc_new s size ty kzalloc pages r)
      (buffers.vfastrpc_alloc_buffer (s.view va (new :: news))
        (if ty = .USERHEAP then size else buffers.PAGE_ALIGN size)) := by
  unfold buf_alloc_new
  rcases kzalloc with _ | _
  · subst hnew
    exact fun _ => rfl
  rcases pages with _ | page
  · subst hnew
    exact fun _ => rfl
  rcases hr : virt_smmu_map r with err | da
  · rw [hr] at hnew
    subst hnew
    exact fun _ => rfl
  · rw [hr] at hnew
    subst hnew
    rfl

/-- The allocation fails where that of Buffers fails, and leaves the pool that it leaves. -/
theorem hfastrpc_buf_alloc_view (hu : Unique Obj.id s.objs)
    (hnew : new = if kzalloc then pages.filter (fun _ => (virt_smmu_map r).toBool) else none) :
    Leaves va s (hfastrpc_buf_alloc s size ty kzalloc pages r)
      (buffers.hfastrpc_buf_alloc (s.view va (new :: news)) size ty) := by
  unfold buffers.hfastrpc_buf_alloc hfastrpc_buf_alloc
  by_cases hsize : size = 0 ∨ buffers.MAX_BUF_SIZE ≤ size
  · rw [if_pos hsize, if_pos hsize]
    exact fun _ => rfl
  rw [if_neg hsize, if_neg hsize]
  have hpers := get_persistent_view va (new :: news) s size ty
  rcases hp : get_persistent_buf s size ty with _ | s'
  · rw [hp] at hpers
    rw [Option.map_eq_none_iff.mp hpers]
    dsimp only
    rcases hc : buffers.hfastrpc_get_cached_buf (s.view va (new :: news)) size ty with _ | ⟨b, p⟩
    · rw [get_cached_none hc]
      exact buf_alloc_new_view hnew
    · obtain ⟨o, ho, hview⟩ := get_cached_view hu hc
      rw [ho]
      dsimp only
      refine hview _ ?_
      rcases o with ⟨id, da, m | b⟩ <;> rfl
  · rw [hp] at hpers
    obtain ⟨⟨b, p⟩, hb, rfl⟩ := Option.map_eq_some_iff.mp hpers
    rw [hb]
    rfl

end view

end virtual_fastrpc.smmu_maps
