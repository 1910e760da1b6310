-- FASTRPC_ATTR_KEEP_MAP on both sides. The message of an invoke tells the
-- backend which maps to keep by the attributes of the call, the driver keeps
-- the maps that were made with the attribute, and munmap_fd tells the backend
-- only of the maps that the driver keeps.
import PlatformKernel.MapAttrs
import PlatformKernel.UnmapFds
import PlatformKernel.VirtioMessage

namespace virtual_fastrpc.kept_maps

open map_table keyed step_runs
open unmap_fds (keptMaps)
open virtio_message (VFASTRPC_BUF_ATTR_KEEP_MAP)

/-! ## Both sides -/

/-- What a message says of a mapped buffer: the attributes of its entry in `rpra`, and the map
that `maps[i]` points to when the message is sent. -/
structure Told where
  id : Nat
  attrs : BitVec 32
  map : Option Map
  deriving DecidableEq, Repr

/-- A map that the backend was told to keep. -/
structure BackendMap where
  id : Nat
  fd : Int
  deriving DecidableEq, Repr

structure Sides where
  ses : Session
  /-- The arguments of a context that get_args has been through. -/
  args : Nat → List Arg
  /-- The message of the context is sent. -/
  sent : Nat → Bool
  told : List Told
  /-- What the messages told the backend to keep, less what a MUNMAP_FD named since. -/
  kept : List BackendMap
  /-- The fds of the MUNMAP_FD messages. -/
  munmap_fds : List Int

def init (fdtable : Int → Option Nat) : Sides :=
  ⟨map_table.init fdtable, fun _ => [], fun _ => false, [], [], []⟩

variable (sh : AdsprpcShared)

/-- An argument as the message has it. -/
def messageArg (a : Arg) : virtio_message.Arg := ⟨a.pv, a.len, keepAttr sh a.attr, none⟩

/-- The entry tells the backend to keep the map. -/
def keepsMap (attrs : BitVec 32) : Bool := attrs &&& VFASTRPC_BUF_ATTR_KEEP_MAP != 0

/-- The maps of the buffers, each with the argument it is for. -/
def mappedArgs (maps : List (Option Nat)) (args : List Arg) : List (Nat × Arg) :=
  (maps.zip args).filterMap (fun e => e.1.map (·, e.2))

def Sides.mapped (s : Sides) (x : Ctx) : List (Nat × Arg) := mappedArgs x.maps (s.args x.id)

def Sides.tell (s : Sides) (e : Nat × Arg) : Told :=
  ⟨e.1, (messageArg sh e.2).attrs, lookup Map.id s.ses.table.maps e.1⟩

def Told.keeps (e : Told) : Option BackendMap :=
  if keepsMap e.attrs then e.map.map (fun m => ⟨m.id, m.fd⟩) else none

inductive Act
  | ses (a : map_table.Act)
  | send (c : Nat)
  /-- munmap_fd, which may fail to send its message. -/
  | munmap_fd (fd : Int) (sent : Bool)
  deriving DecidableEq, Repr

/-- put_args comes after the answer. -/
def Sides.mayDo (s : Sides) : map_table.Act → Bool
  | .put_buf c _ | .put_fdlist c _ => s.sent c
  | a => isInvoke a

def addArg (args : Nat → List Arg) : map_table.Act → Nat → List Arg
  | .get_buf c a => fun x => if x = c then args x ++ [a] else args x
  | _ => args

def step (s : Sides) : Act → Option Sides
  | .ses a =>
    if s.mayDo a then
      (map_table.step .virtio sh s.ses a).map (fun ses => { s with ses, args := addArg s.args a })
    else none
  | .send c =>
    match lookup Ctx.id s.ses.ctxs c with
    | some x =>
      if x.phase == .ready && !s.sent c then
        let told := (s.mapped x).map (s.tell sh)
        some { s with
          sent := fun p => p == c || s.sent p
          told := told ++ s.told
          kept := told.filterMap Told.keeps ++ s.kept }
      else none
    | none => none
  | .munmap_fd fd sent =>
    (map_table.step .virtio sh s.ses (.munmap_fd fd)).map fun ses =>
      -- without an entry the backend is not told
      if keptMaps sh s.ses.table.maps fd ≠ [] ∧ sent then
        { s with
          ses
          kept := s.kept.filter (fun k => k.fd ≠ fd)
          munmap_fds := fd :: s.munmap_fds }
      else { s with ses }

/-- Each buffer that shares a map asks for what the map was made with, and munmap_fd finds no map
that a message still to be sent wants kept, and sends its own. -/
def Agreeing (s : Sides) : Act → Prop
  | .ses (.get_buf _ a) => ∀ fd m, bufFd .virtio a = some fd →
      vfastrpc_mmap_find s.ses.table.maps fd a.pv a.len 0 = .ok m → m.refs + 1 ≠ INT_MAX →
      m.keep sh = keepAttr sh a.attr
  | .munmap_fd fd sent => (keptMaps sh s.ses.table.maps fd ≠ [] → sent = true) ∧
      ∀ x ∈ s.ses.ctxs, s.sent x.id = false → ∀ e ∈ s.mapped x, keepAttr sh e.2.attr = true →
        ∀ m ∈ s.ses.table.maps, m.id = e.1 → m.fd ≠ fd
  | _ => True

/-! ## Kept maps stay -/

variable {sh}

/-- Each kept map is still there. -/
def StayKept (sh : AdsprpcShared) : List Map → List Map → Prop := Stay (fun m => m.keep sh = true)

theorem StayKept.trans {maps maps' maps'' : List Map} (h : StayKept sh maps maps')
    (h' : StayKept sh maps' maps'') : StayKept sh maps maps'' :=
  Stay.trans h h' (fun _ _ hs hk => (hs.keep sh).trans hk)

/-- A kept map has a reference for each of its owners and one more, so giving back the reference of
an owner never releases it. -/
theorem kept_refs {held : Int} {m : Map} (h : Healthy sh held m) (hh : 0 ≤ held)
    (hk : m.keep sh = true) : m.ctx_refs + m.dma_handle_refs + 1 ≤ m.refs := by
  have h1 := h.owners
  have h2 : m.kept sh = 1 := by
    unfold Map.kept
    rw [if_pos hk]
  omega

theorem kept_dropDma {held : Int} {m : Map} (h : Healthy sh held m) (hh : 0 ≤ held)
    (hk : m.keep sh = true) : ∃ m', m.dropDma = some m' ∧ SameAttr m m' := by
  have hrefs := kept_refs h hh hk
  have hctx := h.ctx
  have hdma := h.dma
  cases he : m.dropDma with
  | some m' => exact ⟨m', rfl, .dropDma he⟩
  | none =>
    unfold Map.dropDma at he
    split at he
    · cases he
    · obtain ⟨h1, _, h3⟩ := mmap_free_none he
      dsimp only at h1 h3
      omega

theorem kept_clearDma {held : Int} {m : Map} (h : Healthy sh held m) (hh : 0 ≤ held)
    (hk : m.keep sh = true) : ∃ m', m.clearDma = some m' ∧ SameAttr m m' := by
  have hrefs := kept_refs h hh hk
  have hctx := h.ctx
  have hdma := h.dma
  cases he : m.clearDma with
  | some m' => exact ⟨m', rfl, .clearDma he⟩
  | none =>
    unfold Map.clearDma at he
    split at he
    · cases he
    · obtain ⟨h1, _, _⟩ := mmap_free_none he
      dsimp only at h1
      omega

theorem kept_dropCtx {held : Int} {m : Map} (h : Healthy sh held m) (hh : 0 ≤ held)
    (hk : m.keep sh = true) (hpos : 0 < m.ctx_refs) :
      ∃ m', m.dropCtx = some m' ∧ SameAttr m m' := by
  have hrefs := kept_refs h hh hk
  have hdma := h.dma
  cases he : m.dropCtx with
  | some m' => exact ⟨m', rfl, .dropCtx he⟩
  | none =>
    obtain ⟨h1, _, _⟩ := mmap_free_none he
    dsimp only at h1
    omega

theorem StayKept.release {held : Nat → Int} {maps : List Map} (h : HealthyTable sh held maps)
    (hh : ∀ j, 0 ≤ held j) {p : Option Nat}
    (hp : ∀ id, p = some id → ∀ m ∈ maps, m.id = id → 0 < m.ctx_refs) :
    StayKept sh maps (release_buf maps p) := by
  cases p with
  | none => exact .refl maps
  | some id =>
    refine .alter (fun m hm hid hk => ?_)
    exact kept_dropCtx (h m hm) (hh m.id) hk (hp id rfl m hm hid)

theorem StayKept.get_args_buf (d : Driver) (fdtable : Int → Option Nat) (t : Table) (a : Arg) :
    StayKept sh t.maps (get_args_buf d sh fdtable t a).1.maps := by
  unfold map_table.get_args_buf
  split
  · exact .refl t.maps
  · rename_i fd _
    have hc : StayKept sh t.maps _ := Stay.create d sh t fd a.attr a.pv a.len 0 (fdtable fd) a.env
    split
    · rename_i t' id he
      rw [he] at hc
      exact hc.trans (.update t'.maps id (f := .addCtx) (fun m => ⟨rfl, rfl, rfl⟩))
    · rename_i t' e he
      rw [he] at hc
      exact hc

theorem StayKept.get_args_handles {s : Session} (h : Health sh s) (d : Driver) (cap : Bool)
    (as : List Arg) :
    StayKept sh s.table.maps (get_args_handles d sh cap s.fdtable s.table [] as).1.maps := by
  have hh := held_nonneg s
  refine (h.maps.handles_keep (R := fun t => StayKept sh s.table.maps t.maps) h.inv.exact hh
    h.named d s.fdtable ?_ ?_ ?_ (.refl _) cap [] as).2.2
  · intro t₁ fd attr flags env t' id hR he
    have hc : StayKept sh t₁.maps _ := Stay.create d sh t₁ fd attr 0 0 flags (s.fdtable fd) env
    rw [he] at hc
    exact (hR.trans hc).trans (.update t'.maps id (f := .addDma) (fun m => ⟨rfl, rfl, rfl⟩))
  · intro t₁ fd attr flags env t' e hR he
    have hc : StayKept sh t₁.maps _ := Stay.create d sh t₁ fd attr 0 0 flags (s.fdtable fd) env
    rw [he] at hc
    exact hR.trans hc
  · intro t₁ id hm hR
    exact hR.trans (.alter (fun m hmem _ hk => kept_dropDma (hm m hmem) (hh m.id) hk))

theorem StayKept.put_args_fdlist {held : Nat → Int} {maps : List Map}
    (h : HealthyTable sh held maps) (hh : ∀ j, 0 ≤ held j) (fdlist : List (BitVec 64)) :
    StayKept sh maps (put_args_fdlist maps fdlist) := by
  have hall : HealthyTable sh held (map_table.put_args_fdlist maps fdlist) ∧
      StayKept sh maps (map_table.put_args_fdlist maps fdlist) := by
    refine put_args_fdlist_keeps
      (Q := fun maps' => HealthyTable sh held maps' ∧ StayKept sh maps maps')
      ?_ ⟨h, .refl _⟩ fdlist
    rintro maps' id ⟨hm, hR⟩
    refine ⟨HealthyTable.clearDma hm hh id, hR.trans (.alter (fun m hmem _ hk => ?_))⟩
    exact kept_clearDma (hm m hmem) (hh m.id) hk
  exact hall.2

/-- The steps of an invoke leave every kept map in the table. -/
theorem invoke_stay {d : Driver} {s t : Session} {a : map_table.Act} (h : Health sh s)
    (hi : isInvoke a = true) (ht : map_table.step d sh s a = some t) :
    StayKept sh s.table.maps t.table.maps := by
  have hh := held_nonneg s
  cases a with
  | set_fd fd buf =>
    cases ht
    exact .refl s.table.maps
  | context_alloc inbufs outbufs =>
    cases ht
    exact .refl s.table.maps
  | get_buf c a =>
    obtain ⟨x, _, _, _, rfl⟩ := onCtx_some ht
    rw [get_buf_table]
    exact .get_args_buf d s.fdtable s.table a
  | get_handles c cap as =>
    obtain ⟨x, _, _, _, rfl⟩ := onCtx_some ht
    rw [get_handles_table]
    exact .get_args_handles h d cap as
  | put_buf c i =>
    obtain ⟨x, hx, _, _, rfl⟩ := onCtx_some ht
    have hpos := h.inv.exact.ctx_pos (p := x.maps.getD i none) (fun id hid => pointers_pos hx hid)
    exact .release h.maps hh hpos
  | put_fdlist c fdlist =>
    obtain ⟨x, _, _, _, rfl⟩ := onCtx_some ht
    exact .put_args_fdlist h.maps hh fdlist
  | context_free c =>
    obtain ⟨x, hx, rfl, _, rfl⟩ := onCtx_some ht
    refine (h.maps.context_free_keeps (R := StayKept sh s.table.maps)
      (Q := pointers (remove Ctx.id s.ctxs x.id)) h.inv.exact hh ?_ (.refl _) ?_).2
    · intro maps p hm hp hR
      exact hR.trans (.release hm hh hp)
    · intro j
      exact (weight_remove h.inv.unique (fun c => c.maps.count (some j)) hx rfl).symm
  | _ => cases hi

/-! ## The invariant -/

/-- The driver has what each message says, or is going to say. -/
structure Agree (sh : AdsprpcShared) (s : Sides) : Prop where
  health : Health sh s.ses
  idle : s.ses.op = none
  fresh : ∀ c, s.ses.next_ctx ≤ c → s.args c = []
  len : ∀ x ∈ s.ses.ctxs, x.phase ≠ .failed → x.maps.length = (s.args x.id).length
  same : ∀ x ∈ s.ses.ctxs, s.sent x.id = false → ∀ e ∈ s.mapped x,
    ∃ m ∈ s.ses.table.maps, m.id = e.1 ∧ m.keep sh = keepAttr sh e.2.attr
  told : ∀ e ∈ s.told, ∃ m, e.map = some m ∧ keepsMap e.attrs = m.keep sh
  kept : ∀ k ∈ s.kept, ∃ m ∈ keptMaps sh s.ses.table.maps k.fd, m.id = k.id

theorem agree_init (sh : AdsprpcShared) (fdtable : Int → Option Nat) : Agree sh (init fdtable) where
  health := health_init sh fdtable
  idle := rfl
  fresh := by intro _ _; rfl
  len := by intro x hx; cases hx
  same := by intro x hx; cases hx
  told := by intro e he; cases he
  kept := by intro k hk; cases hk

theorem mem_keptMaps {maps : List Map} {fd : Int} {m : Map} :
    m ∈ keptMaps sh maps fd ↔ m ∈ maps ∧ m.fd = fd ∧ m.keep sh = true := by
  simp [keptMaps]

theorem mappedArgs_nil (args : List Arg) : mappedArgs [] args = [] := by
  simp [mappedArgs]

theorem mappedArgs_append {maps : List (Option Nat)} {args : List Arg}
    (h : maps.length = args.length) (p : Option Nat) (a : Arg) :
    mappedArgs (maps ++ [p]) (args ++ [a]) = mappedArgs maps args ++ (p.map (·, a)).toList := by
  unfold mappedArgs
  rw [List.zip_append h, List.filterMap_append]
  cases p <;> simp

/-- An argument without a map behind the others. -/
theorem mappedArgs_more {maps : List (Option Nat)} {args : List Arg}
    (h : maps.length = args.length) (a : Arg) :
    mappedArgs maps (args ++ [a]) = mappedArgs maps args := by
  have hz : (maps ++ []).zip (args ++ [a]) = maps.zip args ++ [].zip [a] := List.zip_append h
  rw [List.append_nil] at hz
  unfold mappedArgs
  rw [hz]
  simp

theorem id_of_mapped {maps : List (Option Nat)} {args : List Arg} {e : Nat × Arg}
    (h : e ∈ mappedArgs maps args) : some e.1 ∈ maps := by
  obtain ⟨⟨p, a⟩, hmem, he⟩ := List.mem_filterMap.mp h
  obtain ⟨id, hid, rfl⟩ := Option.map_eq_some_iff.mp he
  have hp := (List.of_mem_zip hmem).1
  rwa [show p = some id from hid] at hp

theorem keepsMap_attrs (a : virtio_message.Arg) : keepsMap a.attrs = a.keep := by
  unfold keepsMap virtio_message.Arg.attrs
  cases a.keep <;> decide

/-! ## The steps of an invoke -/

variable {s : Sides} {t : Session} {a : map_table.Act}

/-- The step has found or made the map of a buffer. -/
def NewlyMapped (sh : AdsprpcShared) (s : Sides) (a : map_table.Act) (t : Session)
    (e : Nat × Arg) : Prop :=
  ∃ c, a = .get_buf c e.2 ∧
    get_args_buf .virtio sh s.ses.fdtable s.ses.table e.2 = (t.table, .ok (some e.1))

/-- A context after the step has its arguments, and its maps are those it had, with at most the one
that the step gave it. -/
structure Follows (sh : AdsprpcShared) (s : Sides) (a : map_table.Act) (t : Session) (x : Ctx) :
    Prop where
  len : x.phase ≠ .failed → x.maps.length = (addArg s.args a x.id).length
  mapped : s.sent x.id = false → ∀ e ∈ mappedArgs x.maps (addArg s.args a x.id),
    (∃ y ∈ s.ses.ctxs, y.id = x.id ∧ e ∈ s.mapped y) ∨ NewlyMapped sh s a t e

/-- A context that the step leaves its maps. -/
theorem Follows.old (h : Agree sh s) {x x' : Ctx} (hx : x ∈ s.ses.ctxs) (hid : x'.id = x.id)
    (hmaps : x'.maps = x.maps) (hargs : addArg s.args a x.id = s.args x.id)
    (hph : x'.phase ≠ .failed → x.phase ≠ .failed) : Follows sh s a t x' := by
  refine ⟨?_, ?_⟩
  · intro hf
    rw [hid, hmaps, hargs]
    exact h.len x hx (hph hf)
  · intro _ e he
    rw [hid, hmaps, hargs] at he
    exact Or.inl ⟨x, hx, hid.symm, he⟩

theorem follows_get_buf (h : Agree sh s) {x : Ctx} (hx : x ∈ s.ses.ctxs) (hph : x.phase = .mapping)
    (b : Arg) {x' : Ctx} (hx' : x' ∈ (get_buf .virtio sh s.ses b x).ctxs) :
    Follows sh s (.get_buf x.id b) (get_buf .virtio sh s.ses b x) x' := by
  have hself : addArg s.args (.get_buf x.id b) x.id = s.args x.id ++ [b] := by
    simp [addArg]
  have hother : ∀ c, c ≠ x.id → addArg s.args (.get_buf x.id b) c = s.args c := by
    intro c hc
    simp [addArg, hc]
  have hlen := h.len x hx (by rw [hph]; simp)
  unfold get_buf at hx' ⊢
  split at hx'
  · rename_i t' p he
    rcases mem_update.mp hx' with ⟨hy, hne⟩ | ⟨y, hy, hyid, rfl⟩
    · exact .old h hy rfl rfl (hother _ hne) id
    · cases h.health.inv.unique.eq hx hy hyid.symm
      refine ⟨?_, ?_⟩
      · intro _
        have hid : (x.push p).id = x.id := rfl
        rw [hid, hself]
        simp [Ctx.push, hlen]
      · intro _ e hmem
        have hm : (x.push p).maps = x.maps ++ [p] := rfl
        have hid : (x.push p).id = x.id := rfl
        rw [hm, hid, hself, mappedArgs_append hlen, List.mem_append, Option.mem_toList] at hmem
        rcases hmem with hmem | hmem
        · exact Or.inl ⟨x, hx, rfl, hmem⟩
        · obtain ⟨id, rfl, rfl⟩ := Option.map_eq_some_iff.mp hmem
          refine Or.inr ⟨x.id, rfl, ?_⟩
          rw [he]
          rfl
  · rename_i t' err he
    rcases mem_update.mp hx' with ⟨hy, hne⟩ | ⟨y, hy, hyid, rfl⟩
    · exact .old h hy rfl rfl (hother _ hne) id
    · cases h.health.inv.unique.eq hx hy hyid.symm
      refine ⟨fun hf => absurd rfl hf, ?_⟩
      intro _ e hmem
      have hm : (x.goto .failed).maps = x.maps := rfl
      have hid : (x.goto .failed).id = x.id := rfl
      rw [hm, hid, hself, mappedArgs_more hlen] at hmem
      exact Or.inl ⟨x, hx, rfl, hmem⟩

theorem invoke_follows (h : Agree sh s) (hmay : s.mayDo a = true)
    (ht : map_table.step .virtio sh s.ses a = some t) {x' : Ctx} (hx' : x' ∈ t.ctxs) :
    Follows sh s a t x' := by
  cases a with
  | set_fd fd buf =>
    cases ht
    exact .old h hx' rfl rfl rfl id
  | context_alloc inbufs outbufs =>
    cases ht
    rcases List.mem_cons.mp hx' with rfl | hx'
    · have hargs : addArg s.args (.context_alloc inbufs outbufs) s.ses.next_ctx = [] :=
        h.fresh _ (Nat.le_refl _)
      refine ⟨fun _ => by rw [hargs]; rfl, fun _ e he => ?_⟩
      rw [mappedArgs_nil] at he
      cases he
    · exact .old h hx' rfl rfl rfl id
  | get_buf c b =>
    obtain ⟨x, hx, rfl, hok, rfl⟩ := onCtx_some ht
    simp only [Bool.and_eq_true, beq_iff_eq] at hok
    exact follows_get_buf h hx hok.1 b hx'
  | get_handles c cap as =>
    obtain ⟨x, hx, rfl, hok, rfl⟩ := onCtx_some ht
    simp only [Bool.and_eq_true, beq_iff_eq] at hok
    have hgoto : ∀ ph, x' ∈ update Ctx.id s.ses.ctxs x.id (.goto ph) →
        Follows sh s (.get_handles x.id cap as) (get_handles .virtio sh s.ses cap as x) x' := by
      intro ph hx'
      rcases mem_update.mp hx' with ⟨hy, _⟩ | ⟨y, hy, hyid, rfl⟩
      · exact .old h hy rfl rfl rfl id
      · cases h.health.inv.unique.eq hx hy hyid.symm
        exact .old h hx rfl rfl rfl (fun _ => by rw [hok.1]; simp)
    unfold get_handles at hx'
    split at hx'
    · exact hgoto .ready hx'
    · exact hgoto .failed hx'
  | put_buf c i =>
    obtain ⟨x, hx, rfl, _, rfl⟩ := onCtx_some ht
    rcases mem_update.mp hx' with ⟨hy, _⟩ | ⟨y, hy, hyid, rfl⟩
    · exact .old h hy rfl rfl rfl id
    · refine ⟨?_, ?_⟩
      · intro hf
        have hl := h.len y hy hf
        have hm : (y.clear i).maps.length = y.maps.length := List.length_set
        exact hm.trans hl
      · -- the message of the context is sent
        intro hs
        have hsent : s.sent x.id = true := hmay
        have hid : (y.clear i).id = x.id := hyid
        rw [hid, hsent] at hs
        cases hs
  | put_fdlist c fdlist =>
    obtain ⟨x, _, _, _, rfl⟩ := onCtx_some ht
    exact .old h hx' rfl rfl rfl id
  | context_free c =>
    obtain ⟨x, _, _, _, rfl⟩ := onCtx_some ht
    exact .old h (mem_remove.mp hx').1 rfl rfl rfl id
  | _ => cases hmay

/-- A buffer shares a map that was made with its attribute, or makes one with it. -/
theorem newlyMapped_keep (hc : Agreeing sh s (.ses a)) {e : Nat × Arg}
    (hn : NewlyMapped sh s a t e) :
    ∃ m ∈ t.table.maps, m.id = e.1 ∧ m.keep sh = keepAttr sh e.2.attr := by
  obtain ⟨c, rfl, he⟩ := hn
  unfold get_args_buf at he
  split at he
  · cases (Prod.mk.inj he).2
  rename_i fd hfd
  split at he
  · rename_i t' id hcreate
    obtain ⟨ht, hid⟩ := Prod.mk.inj he
    cases hid
    rw [← ht]
    rcases create_ok hcreate with ⟨m, hfind, hroom, hid, rfl⟩ | ⟨_, _, hid, b, _, rfl⟩
    · rw [hid]
      refine ⟨m.addRef.addCtx, ?_, rfl, hc fd m hfd hfind hroom⟩
      refine mem_update.mpr (Or.inr ⟨m.addRef, ?_, rfl, rfl⟩)
      exact mem_update.mpr (Or.inr ⟨m, (find_ok hfind).1, rfl, rfl⟩)
    · rw [hid]
      exact ⟨Map.addCtx _, mem_update.mpr (Or.inr ⟨_, List.mem_cons_self, rfl, rfl⟩), rfl, rfl⟩
  · cases (Prod.mk.inj he).2

/-- A map that a live context has keeps its attribute. -/
theorem mapped_keep (h : Agree sh s) {ws : List (BitVec 32)} (hw : Worded ws s.ses.table t.table)
    (hinv : Inv t) {y x : Ctx} (hy : y ∈ s.ses.ctxs) (hsent : s.sent y.id = false) {e : Nat × Arg}
    (he : e ∈ s.mapped y) (hx : x ∈ t.ctxs) (hmem : some e.1 ∈ x.maps) :
    ∃ m ∈ t.table.maps, m.id = e.1 ∧ m.keep sh = keepAttr sh e.2.attr := by
  obtain ⟨m, hm, hid, hkeep⟩ := h.same y hy hsent e he
  have hpos : 0 < pointers t.ctxs e.1 := by
    have hle := le_weight (g := fun c => c.maps.count (some e.1)) hx
    have hcount := List.count_pos_iff.mpr hmem
    exact Nat.lt_of_lt_of_le hcount hle
  obtain ⟨m', hm', hid'⟩ := hinv.exact.listed e.1 hpos
  rcases hw.maps m' hm' with ⟨m₀, hm₀, hs⟩ | ⟨hnew, _⟩
  · have heq : m₀ = m := h.health.inv.exact.unique.eq hm₀ hm (by rw [← hs.1, hid', hid])
    subst heq
    exact ⟨m', hm', hid', by rw [hs.keep, hkeep]⟩
  · have hlt := h.health.inv.exact.fresh m hm
    omega

theorem invoke_fresh (h : Agree sh s) (hi : isInvoke a = true)
    (ht : map_table.step .virtio sh s.ses a = some t) (c : Nat) (hc : t.next_ctx ≤ c) :
    addArg s.args a c = [] := by
  cases a with
  | set_fd fd buf =>
    cases ht
    exact h.fresh c hc
  | context_alloc inbufs outbufs =>
    cases ht
    exact h.fresh c (Nat.le_of_succ_le hc)
  | get_buf c' b =>
    obtain ⟨x, hx, rfl, _, rfl⟩ := onCtx_some ht
    have hlt := h.health.inv.fresh x hx
    rw [get_buf_next_ctx] at hc
    have hne : c ≠ x.id := by omega
    simp [addArg, hne, h.fresh c hc]
  | get_handles c' cap as =>
    obtain ⟨x, _, _, _, rfl⟩ := onCtx_some ht
    rw [get_handles_next_ctx] at hc
    exact h.fresh c hc
  | put_buf c' i =>
    obtain ⟨x, _, _, _, rfl⟩ := onCtx_some ht
    exact h.fresh c hc
  | put_fdlist c' fdlist =>
    obtain ⟨x, _, _, _, rfl⟩ := onCtx_some ht
    exact h.fresh c hc
  | context_free c' =>
    obtain ⟨x, _, _, _, rfl⟩ := onCtx_some ht
    exact h.fresh c hc
  | _ => cases hi

theorem mayDo_isInvoke (hmay : s.mayDo a = true) : isInvoke a = true := by
  cases a with
  | put_buf c i => rfl
  | put_fdlist c fdlist => rfl
  | _ => exact hmay

theorem invoke_health (h : Health sh s.ses) (hi : isInvoke a = true)
    (ht : map_table.step .virtio sh s.ses a = some t) : Health sh t := by
  refine step_health_of_ne .virtio s.ses a t h ?_ ?_ ht
  · rintro raddr rfl
    cases hi
  · cases a with
    | unmap_fail => cases hi
    | _ => exact trivial

theorem invoke_agree (h : Agree sh s) (hc : Agreeing sh s (.ses a)) (hmay : s.mayDo a = true)
    (ht : map_table.step .virtio sh s.ses a = some t) :
    Agree sh { s with ses := t, args := addArg s.args a } := by
  have hi := mayDo_isInvoke hmay
  have hhealth := invoke_health h.health hi ht
  obtain ⟨hw, hop⟩ := invoke_worded .virtio sh hi ht
  have hfollows : ∀ x ∈ t.ctxs, Follows sh s a t x := fun x hx => invoke_follows h hmay ht hx
  refine ⟨hhealth, hop.trans h.idle, invoke_fresh h hi ht, fun x hx => (hfollows x hx).len, ?_,
    h.told, ?_⟩
  · intro x hx hsent e he
    rcases (hfollows x hx).mapped hsent e he with ⟨y, hy, hid, hmem⟩ | hn
    · exact mapped_keep h hw hhealth.inv hy (by rw [hid]; exact hsent) hmem hx (id_of_mapped he)
    · exact newlyMapped_keep hc hn
  · intro k hk
    obtain ⟨m, hm, hid⟩ := h.kept k hk
    obtain ⟨hm, hfd, hkeep⟩ := mem_keptMaps.mp hm
    obtain ⟨m', hm', hs⟩ := invoke_stay h.health hi ht m hm hkeep
    refine ⟨m', mem_keptMaps.mpr ⟨hm', hs.2.1.trans hfd, ?_⟩, hs.1.trans hid⟩
    rw [hs.keep]
    exact hkeep

/-! ## The messages -/

theorem send_agree (h : Agree sh s) {x : Ctx} (hx : x ∈ s.ses.ctxs) (hsent : s.sent x.id = false) :
    Agree sh { s with
      sent := fun p => p == x.id || s.sent p
      told := (s.mapped x).map (s.tell sh) ++ s.told
      kept := ((s.mapped x).map (s.tell sh)).filterMap Told.keeps ++ s.kept } := by
  have htell : ∀ e ∈ (s.mapped x).map (s.tell sh),
      ∃ m ∈ s.ses.table.maps, e.map = some m ∧ keepsMap e.attrs = m.keep sh := by
    intro e he
    obtain ⟨b, hb, rfl⟩ := List.mem_map.mp he
    obtain ⟨m, hm, hid, hkeep⟩ := h.same x hx hsent b hb
    refine ⟨m, hm, ?_, ?_⟩
    · have hl := lookup_of_mem h.health.inv.exact.unique hm
      rwa [hid] at hl
    · exact (keepsMap_attrs (messageArg sh b.2)).trans hkeep.symm
  refine ⟨h.health, h.idle, h.fresh, h.len, ?_, ?_, ?_⟩
  · intro y hy hs
    apply h.same y hy
    simp only [Bool.or_eq_false_iff] at hs
    exact hs.2
  · intro e he
    rcases List.mem_append.mp he with he | he
    · obtain ⟨m, _, hmap, hkeep⟩ := htell e he
      exact ⟨m, hmap, hkeep⟩
    · exact h.told e he
  · intro k hk
    rcases List.mem_append.mp hk with hk | hk
    · obtain ⟨e, he, hkeeps⟩ := List.mem_filterMap.mp hk
      obtain ⟨m, hm, hmap, hkeep⟩ := htell e he
      unfold Told.keeps at hkeeps
      split at hkeeps
      · rename_i hkept
        rw [hmap] at hkeeps
        cases hkeeps
        exact ⟨m, mem_keptMaps.mpr ⟨hm, rfl, by rw [← hkeep]; exact hkept⟩, rfl⟩
      · cases hkeeps
    · exact h.kept k hk

/-- munmap_fd leaves the maps of other fds alone, and those without the attribute. -/
theorem mem_remove_fd {maps : List Map} {fd : Int} {m : Map} (hm : m ∈ maps)
    (hne : m.keep sh = true → m.fd ≠ fd) : m ∈ (mmap_remove_fd sh maps fd).1 := by
  refine List.mem_filterMap.mpr ⟨m, hm, ?_⟩
  rw [if_neg (fun hk => hne hk.2 hk.1)]

theorem munmap_fd_eq (hidle : s.ses.op = none) (fd : Int) :
    map_table.step .virtio sh s.ses (.munmap_fd fd) =
      some (s.ses.setMaps (mmap_remove_fd sh s.ses.table.maps fd).1) := by
  simp [map_table.step, hidle]

/-- The maps that the backend keeps are found for their fd, or are of another one. -/
theorem munmap_fd_agree (h : Agree sh s) {fd : Int} {sent : Bool}
    (hc : Agreeing sh s (.munmap_fd fd sent))
    (ht : map_table.step .virtio sh s.ses (.munmap_fd fd) = some t) {kept : List BackendMap}
    (hkept : ∀ k ∈ kept, k ∈ s.kept ∧ (keptMaps sh s.ses.table.maps fd ≠ [] → k.fd ≠ fd))
    (fds : List Int) : Agree sh { s with ses := t, kept, munmap_fds := fds } := by
  have hhealth := step_health_of_ne .virtio s.ses (.munmap_fd fd) t h.health
    (fun raddr he => by cases he) trivial ht
  rw [munmap_fd_eq h.idle] at ht
  cases ht
  refine ⟨hhealth, h.idle, h.fresh, h.len, ?_, h.told, ?_⟩
  · intro x hx hsent e he
    obtain ⟨m, hm, hid, hkeep⟩ := h.same x hx hsent e he
    refine ⟨m, mem_remove_fd hm (fun hk => ?_), hid, hkeep⟩
    exact hc.2 x hx hsent e he (by rw [← hkeep]; exact hk) m hm hid
  · intro k hk
    obtain ⟨hk, hne⟩ := hkept k hk
    obtain ⟨m, hm, hid⟩ := h.kept k hk
    obtain ⟨hmem, hfd, hkeep⟩ := mem_keptMaps.mp hm
    refine ⟨m, mem_keptMaps.mpr ⟨mem_remove_fd hmem (fun _ he => ?_), hfd, hkeep⟩, hid⟩
    have hfound : m ∈ keptMaps sh s.ses.table.maps fd := mem_keptMaps.mpr ⟨hmem, he, hkeep⟩
    exact hne (List.ne_nil_of_mem hfound) (hfd.symm.trans he)

/-! ## Every run -/

theorem step_agree (s : Sides) (a : Act) (t : Sides) (h : Agree sh s) (hc : Agreeing sh s a)
    (ht : step sh s a = some t) : Agree sh t := by
  cases a with
  | ses a =>
    simp only [step] at ht
    split at ht
    · rename_i hmay
      obtain ⟨t', ht', rfl⟩ := Option.map_eq_some_iff.mp ht
      exact invoke_agree h hc hmay ht'
    · cases ht
  | send c =>
    simp only [step] at ht
    split at ht
    · rename_i x hx
      split at ht
      · rename_i hok
        cases ht
        obtain rfl := key_of_lookup hx
        simp only [Bool.and_eq_true, Bool.not_eq_true'] at hok
        exact send_agree h (mem_of_lookup hx) hok.2
      · cases ht
    · cases ht
  | munmap_fd fd sent =>
    obtain ⟨t', ht', rfl⟩ := Option.map_eq_some_iff.mp ht
    split
    · apply munmap_fd_agree h hc ht'
      intro k hk
      obtain ⟨hk, hne⟩ := List.mem_filter.mp hk
      exact ⟨hk, fun _ => by simpa using hne⟩
    · rename_i hnone
      apply munmap_fd_agree h hc ht'
      intro k hk
      refine ⟨hk, fun hne => ?_⟩
      exact absurd ⟨hne, hc.1 hne⟩ hnone

/-- When each call asks for what the maps that it shares were made with, and munmap_fd comes before
no message that still wants a map of its fd kept and sends its own, each message says of a map what
the driver has, and each map that the backend was told to keep is found by a munmap_fd of its fd. -/
theorem kept_maps_agree (sh : AdsprpcShared) {fdtable : Int → Option Nat} {s : Sides}
    (h : ReachableUnder (step sh) (Agreeing sh) (init fdtable) s) :
    (∀ e ∈ s.told, ∃ m, e.map = some m ∧ keepsMap e.attrs = m.keep sh) ∧
    ∀ k ∈ s.kept, (∃ m ∈ keptMaps sh s.ses.table.maps k.fd, m.id = k.id) ∧
      ∃ t, step sh s (.munmap_fd k.fd true) = some t ∧ t.munmap_fds = k.fd :: s.munmap_fds ∧
        k ∉ t.kept := by
  have hs : Agree sh s := h.inv (Agree sh) step_agree (agree_init sh fdtable)
  refine ⟨hs.told, ?_⟩
  intro k hk
  obtain ⟨m, hm, hid⟩ := hs.kept k hk
  refine ⟨⟨m, hm, hid⟩, ?_⟩
  simp only [step, munmap_fd_eq hs.idle, Option.map_some]
  rw [if_pos ⟨List.ne_nil_of_mem hm, trivial⟩]
  exact ⟨_, rfl, rfl, by simp⟩

/-- An invoke with one buffer, up to its message. -/
def oneBuf (c : Nat) (attr : BitVec 32) : List Act :=
  [.ses (.context_alloc 1 0), .ses (.get_buf c ⟨4096, 64, some 5, attr, allOk⟩),
    .ses (.get_handles c false []), .send c]

/-- Two calls share a map that both want kept, and a munmap_fd after them tells the backend. -/
theorem a_kept_map_is_found_by_its_fd :
    ∃ s, run (step sampleShared) (init (fun _ => some 1)) (oneBuf 0 8 ++ oneBuf 1 8 ++
        [.ses (.context_free 0), .ses (.context_free 1)]) = some s ∧
      s.kept = [⟨0, 5⟩, ⟨0, 5⟩] ∧ (∀ e ∈ s.told, ∃ m, e.map = some m ∧
        keepsMap e.attrs = m.keep sampleShared) ∧
      ∃ t, step sampleShared s (.munmap_fd 5 true) = some t ∧ t.munmap_fds = [5] := by
  have hrun : run (step sampleShared) (init (fun _ => some 1)) (oneBuf 0 8 ++ oneBuf 1 8 ++
      [.ses (.context_free 0), .ses (.context_free 1)]) = some _ := rfl
  have hmeets : Meets (step sampleShared) (Agreeing sampleShared) (init (fun _ => some 1))
      (oneBuf 0 8 ++ oneBuf 1 8 ++ [.ses (.context_free 0), .ses (.context_free 1)]) := by
    refine .cons trivial rfl (.cons ?_ rfl (.cons trivial rfl (.cons trivial rfl (.cons trivial rfl
      (.cons ?_ rfl (.cons trivial rfl (.cons trivial rfl (.cons trivial rfl (.cons trivial rfl
        trivial)))))))))
    · -- the table is empty
      intro fd m hfd hfind _
      cases hfd
      cases (show (Except.error Errno.ENOTTY : Except Errno Map) = .ok m from hfind)
    · intro fd m hfd hfind _
      cases hfd
      cases hfind
      rfl
  obtain ⟨htold, hkept⟩ := kept_maps_agree sampleShared ⟨_, hmeets, hrun⟩
  obtain ⟨_, t, ht, hfds, _⟩ := hkept ⟨0, 5⟩ List.mem_cons_self
  exact ⟨_, hrun, rfl, htold, t, ht, hfds⟩

/-- The second call wants the map kept that the first one made without the attribute. The backend
is told to keep it, and munmap_fd does not find it. -/
theorem a_shared_map_is_kept_by_the_backend_only :
    ∃ s t, run (step sampleShared) (init (fun _ => some 1)) (oneBuf 0 0 ++ oneBuf 1 8) = some s ∧
      (∃ e ∈ s.told, ∃ m, e.map = some m ∧ keepsMap e.attrs = true ∧
        m.keep sampleShared = false) ∧
      run (step sampleShared) s
        [.ses (.context_free 0), .ses (.context_free 1), .munmap_fd 5 true] = some t ∧
      t.kept = [⟨0, 5⟩] ∧ t.munmap_fds = [] := by
  exact ⟨_, _, rfl, ⟨_, List.mem_cons_self, _, rfl, rfl, rfl⟩, rfl, rfl, rfl⟩

end virtual_fastrpc.kept_maps
