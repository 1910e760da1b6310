-- Where the maps of a session come from. A lookup goes by the number of the fd,
-- and a client can close an fd and get another dma-buf under its number, so the
-- laws follow each map back to the step that made it.
import PlatformKernel.MapRuns

namespace virtual_fastrpc.map_table

open keyed step_runs

/-! ## Maps that stay the same map -/

/-- What is left of a map: the same map, of the same fd and dma-buf. -/
def SameBuf (m m' : Map) : Prop := m'.id = m.id ∧ m'.fd = m.fd ∧ m'.buf = m.buf

theorem SameBuf.refl (m : Map) : SameBuf m m := ⟨rfl, rfl, rfl⟩

theorem SameBuf.trans {m m' m'' : Map} (h : SameBuf m m') (h' : SameBuf m' m'') :
    SameBuf m m'' :=
  ⟨h'.1.trans h.1, h'.2.1.trans h.2.1, h'.2.2.trans h.2.2⟩

theorem SameBuf.mmap_free {m m' : Map} (h : mmap_free false m = some m') : SameBuf m m' := by
  obtain ⟨hid, _, hfd, hbuf⟩ := mmap_free_some h
  exact ⟨hid, hfd, hbuf⟩

/-- Each map of `t'` is one of `t`, or it is new and wraps the dma-buf that its fd denotes in
`fdtable`. -/
structure Descends (fdtable : Int → Option Nat) (t t' : Table) : Prop where
  next : t.next ≤ t'.next
  maps : ∀ m' ∈ t'.maps, (∃ m ∈ t.maps, SameBuf m m') ∨
    (t.next ≤ m'.id ∧ m'.id < t'.next ∧ fdtable m'.fd = some m'.buf)

variable {F : Int → Option Nat}

theorem Descends.refl (t : Table) : Descends F t t :=
  ⟨Nat.le_refl _, Lineage.refl SameBuf.refl t.maps⟩

theorem Descends.trans {t t' t'' : Table} (h : Descends F t t') (h' : Descends F t' t'') :
    Descends F t t'' := by
  have h1 := h.next
  have h2 := h'.next
  refine ⟨Nat.le_trans h1 h2, Lineage.trans h.maps h'.maps (fun _ _ _ => .trans) ?_ ?_⟩
  · rintro m m' ⟨hlo, hhi, hbuf⟩ ⟨hid, hfd, hb⟩
    exact ⟨by omega, by omega, by rw [hfd, hb]; exact hbuf⟩
  · rintro m ⟨hlo, hhi, hbuf⟩
    exact ⟨by omega, hhi, hbuf⟩

theorem Descends.filterMap (t : Table) {f : Map → Option Map}
    (hf : ∀ m m', f m = some m' → SameBuf m m') :
    Descends F t { t with maps := t.maps.filterMap f } :=
  ⟨Nat.le_refl _, Lineage.filterMap t.maps hf⟩

theorem Descends.alter (t : Table) (id : Nat) {f : Map → Option Map}
    (hf : ∀ m m', f m = some m' → SameBuf m m') :
    Descends F t { t with maps := alter Map.id t.maps id f } :=
  ⟨Nat.le_refl _, Lineage.alter t.maps id SameBuf.refl hf⟩

theorem Descends.update (t : Table) (id : Nat) {f : Map → Map} (hf : ∀ m, SameBuf m (f m)) :
    Descends F t { t with maps := update Map.id t.maps id f } :=
  ⟨Nat.le_refl _, Lineage.update t.maps id SameBuf.refl hf⟩

/-! ## The functions of the map table -/

theorem Descends.create (d : Driver) (sh : AdsprpcShared) (t : Table) (fd : Int)
    (attr : BitVec 32) (va len : BitVec 64) (mflags : BitVec 32) (env : CreateEnv) :
    Descends F t (mmap_create d sh t fd attr va len mflags (F fd) env).1 := by
  rcases create_cases d sh t fd attr va len mflags (F fd) env with
    ⟨m, _, _, he⟩ | ⟨b, hb, _, he⟩ | ⟨n, e, hn, he⟩
  · rw [he]
    exact .update t m.id (f := .addRef) (fun m => ⟨rfl, rfl, rfl⟩)
  · rw [he]
    refine ⟨Nat.le_succ _, ?_⟩
    intro m' hm'
    rcases List.mem_cons.mp hm' with rfl | hm'
    · exact Or.inr ⟨Nat.le_refl _, Nat.lt_succ_self _, hb⟩
    · exact Or.inl ⟨m', hm', .refl m'⟩
  · rw [he]
    exact ⟨hn, fun m hm => Or.inl ⟨m, hm, .refl m⟩⟩

theorem Descends.get_args_buf (d : Driver) (sh : AdsprpcShared) (t : Table) (a : Arg) :
    Descends F t (get_args_buf d sh F t a).1 := by
  unfold map_table.get_args_buf
  split
  · exact .refl t
  · rename_i fd _
    have hc := Descends.create (F := F) d sh t fd a.attr a.pv a.len 0 a.env
    split
    · rename_i t' id he
      rw [he] at hc
      exact hc.trans (.update t' id (f := .addCtx) (fun m => ⟨rfl, rfl, rfl⟩))
    · rename_i t' e he
      rw [he] at hc
      exact hc

theorem Descends.get_args_handles (d : Driver) (sh : AdsprpcShared) (cap : Bool) (t : Table)
    (taken : List Nat) (as : List Arg) :
    Descends F t (get_args_handles d sh cap F t taken as).1 := by
  refine get_args_handles_keeps (Q := Descends F t) d sh F ?_ ?_ ?_ (.refl t) cap taken as
  · intro t₁ fd attr flags env t' id h he
    have hc := Descends.create (F := F) d sh t₁ fd attr 0 0 flags env
    rw [he] at hc
    exact (h.trans hc).trans (.update t' id (f := .addDma) (fun m => ⟨rfl, rfl, rfl⟩))
  · intro t₁ fd attr flags env t' e h he
    have hc := Descends.create (F := F) d sh t₁ fd attr 0 0 flags env
    rw [he] at hc
    exact h.trans hc
  · intro t₁ id h
    refine h.trans (.alter t₁ id ?_)
    intro m m' he
    obtain ⟨hid, _, hfd, hbuf⟩ := dropDma_some he
    exact ⟨hid, hfd, hbuf⟩

theorem Descends.release_buf (t : Table) (p : Option Nat) :
    Descends F t { t with maps := release_buf t.maps p } := by
  cases p with
  | none => exact .refl t
  | some id =>
    refine .alter t id ?_
    intro m m' he
    obtain ⟨hid, hfd, hbuf⟩ := SameBuf.mmap_free he
    exact ⟨hid, hfd, hbuf⟩

theorem Descends.context_free (t : Table) (bufs : List (Option Nat)) :
    Descends F t { t with maps := context_free t.maps bufs } := by
  induction bufs generalizing t with
  | nil => exact .refl t
  | cons p bufs ih => exact (Descends.release_buf t p).trans (ih _)

theorem Descends.put_args_fdlist (t : Table) (fdlist : List (BitVec 64)) :
    Descends F t { t with maps := put_args_fdlist t.maps fdlist } := by
  refine put_args_fdlist_keeps (Q := fun maps => Descends F t { t with maps }) ?_ (.refl t) fdlist
  intro maps id h
  refine h.trans (.alter { t with maps } id ?_)
  intro m m' he
  obtain ⟨hid, _, hfd, hbuf⟩ := clearDma_some he
  exact ⟨hid, hfd, hbuf⟩

theorem Descends.remove_fd (sh : AdsprpcShared) (t : Table) (fd : Int) :
    Descends F t { t with maps := (mmap_remove_fd sh t.maps fd).1 } := by
  refine .filterMap t ?_
  intro m m' he
  split at he
  · obtain ⟨hid, hfd, hbuf⟩ := SameBuf.mmap_free he
    exact ⟨hid, hfd, hbuf⟩
  · cases he
    exact .refl m

/-! ## The steps of a session -/

/-- The maps of a session, with the one that an unmap call holds. -/
def Session.all (s : Session) : List Map := s.table.maps ++ s.offList.toList

theorem mem_all {s : Session} {m : Map} :
    m ∈ s.all ↔ m ∈ s.table.maps ∨ s.offList = some m := by
  unfold Session.all
  rw [List.mem_append, Option.mem_toList]

/-- Each map of `t` is one of `s`, or the step `a` from `s` to `t` made it from what its fd
denoted. Only the client changes what an fd denotes. -/
structure StepFrom (a : Act) (s t : Session) : Prop where
  next : s.table.next ≤ t.table.next
  fds : ∀ fd, (∀ b, a ≠ .set_fd fd b) → t.fdtable fd = s.fdtable fd
  maps : ∀ m' ∈ t.all, (∃ m ∈ s.all, SameBuf m m') ∨
    (s.table.next ≤ m'.id ∧ m'.id < t.table.next ∧ s.fdtable m'.fd = some m'.buf ∧
      t.fdtable = s.fdtable)

/-- A step of the functions of the map table, which leaves the held map alone or drops it. -/
theorem Descends.stepFrom {a : Act} {s t : Session} (h : Descends s.fdtable s.table t.table)
    (hoff : ∀ m, t.offList = some m → s.offList = some m) (hfd : t.fdtable = s.fdtable) :
    StepFrom a s t := by
  refine ⟨h.next, fun fd _ => by rw [hfd], ?_⟩
  intro m' hm'
  rcases mem_all.mp hm' with hm' | hm'
  · rcases h.maps m' hm' with ⟨m, hm, hs⟩ | ⟨hlo, hhi, hbuf⟩
    · exact Or.inl ⟨m, mem_all.mpr (Or.inl hm), hs⟩
    · exact Or.inr ⟨hlo, hhi, hbuf, hfd⟩
  · exact Or.inl ⟨m', mem_all.mpr (Or.inr (hoff m' hm')), .refl m'⟩

theorem begin_map_stepFrom {a : Act} {d : Driver} {sh : AdsprpcShared} {s t : Session}
    {call : MapCall} {fd : Int} {attr : BitVec 32} {va len : BitVec 64} {flags : BitVec 32}
    {env : CreateEnv}
    (ht : begin_map d sh s call fd attr va len flags env = some t) : StepFrom a s t := by
  have hc := Descends.create (F := s.fdtable) d sh s.table fd attr va len flags env
  obtain ⟨_, ⟨t', id, he, rfl⟩ | ⟨t', e, he, rfl⟩⟩ := begin_map_cases ht
  · rw [he] at hc
    refine hc.stepFrom ?_ rfl
    intro m hm
    cases hm
  · rw [he] at hc
    exact hc.stepFrom (fun m hm => hm) rfl

theorem begin_unmap_stepFrom {a : Act} {sh : AdsprpcShared} {s t : Session} {call : MapCall}
    {fd : Int} {va len : BitVec 64} (ht : begin_unmap sh s call fd va len = some t) :
    StepFrom a s t := by
  obtain ⟨_, ⟨m, hm, _, rfl⟩ | rfl⟩ := begin_unmap_cases ht
  · refine ⟨Nat.le_refl _, fun _ _ => rfl, ?_⟩
    intro x hx
    rcases mem_all.mp hx with hx | hx
    · exact Or.inl ⟨x, mem_all.mpr (Or.inl (mem_remove.mp hx).1), .refl x⟩
    · cases hx
      refine Or.inl ⟨m, mem_all.mpr (Or.inl hm), ?_⟩
      split <;> exact ⟨rfl, rfl, rfl⟩
  · exact (Descends.refl t.table).stepFrom (fun m hm => hm) rfl

/-- A step finds its maps in the state before it, or makes them from the fds of that state. -/
theorem step_stepFrom (d : Driver) (sh : AdsprpcShared) {s t : Session} {a : Act}
    (ht : step d sh s a = some t) : StepFrom a s t := by
  cases a with
  | set_fd fd buf =>
    cases ht
    refine ⟨Nat.le_refl _, ?_, fun m hm => Or.inl ⟨m, hm, .refl m⟩⟩
    intro fd' ha
    have hne : fd' ≠ fd := by
      intro he
      exact ha buf (by rw [he])
    simp [hne]
  | context_alloc inbufs outbufs =>
    cases ht
    exact Descends.stepFrom (.refl s.table) (fun m hm => hm) rfl
  | get_buf c a =>
    obtain ⟨x, _, _, _, rfl⟩ := onCtx_some ht
    have hd := Descends.get_args_buf (F := s.fdtable) d sh s.table a
    rw [← get_buf_table d sh s x a] at hd
    refine hd.stepFrom ?_ (get_buf_fdtable d sh s x a)
    rw [offList_congr (get_buf_op d sh s x a)]
    exact fun m hm => hm
  | get_handles c cap as =>
    obtain ⟨x, _, _, _, rfl⟩ := onCtx_some ht
    have hd := Descends.get_args_handles (F := s.fdtable) d sh cap s.table [] as
    rw [← get_handles_table d sh s x cap as] at hd
    refine hd.stepFrom ?_ (get_handles_fdtable d sh s x cap as)
    rw [offList_congr (get_handles_op d sh s x cap as)]
    exact fun m hm => hm
  | put_buf c i =>
    obtain ⟨x, _, _, _, rfl⟩ := onCtx_some ht
    exact Descends.stepFrom (.release_buf s.table (x.maps.getD i none)) (fun m hm => hm) rfl
  | put_fdlist c fdlist =>
    obtain ⟨x, _, _, _, rfl⟩ := onCtx_some ht
    exact Descends.stepFrom (.put_args_fdlist s.table fdlist) (fun m hm => hm) rfl
  | context_free c =>
    obtain ⟨x, _, _, _, rfl⟩ := onCtx_some ht
    exact Descends.stepFrom (.context_free s.table x.maps) (fun m hm => hm) rfl
  | mmap fd va len flags env => exact begin_map_stepFrom ht
  | mem_map fd attrs va len flags env => exact begin_map_stepFrom ht
  | map_done raddr =>
    obtain ⟨call, id, _, _, rfl⟩ := step_map_done ht
    refine Descends.stepFrom (.update s.table id (f := .mapped d call raddr) ?_) ?_ rfl
    · intro m
      exact ⟨rfl, rfl, rfl⟩
    · intro m hm
      cases hm
  | map_fail =>
    obtain ⟨call, id, _, rfl⟩ := step_map_fail ht
    refine Descends.stepFrom (.alter s.table id (fun m m' => SameBuf.mmap_free)) ?_ rfl
    intro m hm
    cases hm
  | munmap vaddrout size => exact begin_unmap_stepFrom ht
  | mem_unmap fd vaddr len => exact begin_unmap_stepFrom ht
  | unmap_done =>
    obtain ⟨call, m, _, _, rfl⟩ := step_unmap_done ht
    refine Descends.stepFrom (.refl s.table) ?_ rfl
    intro m hm
    cases hm
  | unmap_fail =>
    obtain ⟨call, m, hop, rfl⟩ := step_unmap_fail ht
    have hoff := offList_unmapping hop
    refine ⟨Nat.le_refl _, fun _ _ => rfl, ?_⟩
    intro x hx
    rcases mem_all.mp hx with hx | hx
    · have hx : x ∈ vfastrpc_mmap_add s.table.maps (readded sh call m) := hx
      unfold vfastrpc_mmap_add at hx
      split at hx
      · exact Or.inl ⟨x, mem_all.mpr (Or.inl hx), .refl x⟩
      · rcases List.mem_cons.mp hx with rfl | hx
        · obtain ⟨hid, _, hfd, hbuf⟩ := readded_eq sh call m
          exact Or.inl ⟨m, mem_all.mpr (Or.inr hoff), hid, hfd, hbuf⟩
        · exact Or.inl ⟨x, mem_all.mpr (Or.inl hx), .refl x⟩
    · cases hx
  | munmap_fd fd =>
    obtain ⟨_, rfl⟩ := step_munmap_fd ht
    exact Descends.stepFrom (.remove_fd sh s.table fd) (fun m hm => hm) rfl

/-! ## Every run -/

/-- The run `as` to `s` made the map `m` in a step that found the dma-buf of `m` behind its fd.
The fd still denotes that dma-buf when the client has not changed it since. -/
def MadeIn (d : Driver) (sh : AdsprpcShared) (fdtable : Int → Option Nat) (as : List Act)
    (s : Session) (m : Map) : Prop :=
  ∃ pre a post s₀ s₁, as = pre ++ a :: post ∧ run (step d sh) (init fdtable) pre = some s₀ ∧
    step d sh s₀ a = some s₁ ∧ s₀.table.next ≤ m.id ∧ m.id < s₁.table.next ∧
    s₀.fdtable m.fd = some m.buf ∧
    ((∀ b, Act.set_fd m.fd b ∉ post) → s.fdtable m.fd = some m.buf)

theorem MadeIn.snoc {d : Driver} {sh : AdsprpcShared} {fdtable : Int → Option Nat}
    {as : List Act} {s t : Session} {m m' : Map} (h : MadeIn d sh fdtable as s m)
    (hs : SameBuf m m') {a : Act} (hst : StepFrom a s t) :
    MadeIn d sh fdtable (as ++ [a]) t m' := by
  obtain ⟨pre, b, post, s₀, s₁, rfl, hpre, hb, hlo, hhi, hbuf, hnow⟩ := h
  obtain ⟨hid, hfd, hb'⟩ := hs
  rw [MadeIn, hid, hfd, hb']
  refine ⟨pre, b, post ++ [a], s₀, s₁, by simp, hpre, hb, hlo, hhi, hbuf, ?_⟩
  intro hset
  rw [hst.fds m.fd (fun b he => hset b (by simp [he]))]
  exact hnow (fun b hmem => hset b (List.mem_append_left _ hmem))

/-- Every map of a session has the dma-buf that its fd denoted when the map was made. -/
theorem run_madeIn (d : Driver) (sh : AdsprpcShared) {fdtable : Int → Option Nat}
    {as : List Act} {s : Session} (hr : run (step d sh) (init fdtable) as = some s) :
    ∀ m ∈ s.all, MadeIn d sh fdtable as s m := by
  refine run_trace_inv (fun as s => ∀ m ∈ s.all, MadeIn d sh fdtable as s m) ?_ ?_ hr
  · intro m hm
    cases hm
  · intro pre s a t hpre hs ht m' hm'
    have hst := step_stepFrom d sh ht
    rcases hst.maps m' hm' with ⟨m, hm, hsame⟩ | ⟨hlo, hhi, hbuf, hfds⟩
    · exact (hs m hm).snoc hsame hst
    · exact ⟨pre, a, [], s, t, rfl, hpre, ht, hlo, hhi, hbuf, fun _ => by rw [hfds, hbuf]⟩

/-- A map that mmap_create returns, new or found, has the number of the fd and wraps the
dma-buf that the fd denoted when the map was made. -/
theorem a_returned_map_wraps_the_buf_it_was_made_of (d : Driver) (sh : AdsprpcShared)
    {fdtable : Int → Option Nat} {as : List Act} {s : Session}
    (hr : run (step d sh) (init fdtable) as = some s) {fd : Int} {attr : BitVec 32}
    {va len : BitVec 64} {mflags : BitVec 32} {env : CreateEnv} {t : Table} {id : Nat}
    (hc : mmap_create d sh s.table fd attr va len mflags (s.fdtable fd) env = (t, .ok id)) :
    ∃ m, lookup Map.id t.maps id = some m ∧ m.fd = fd ∧
      ((id = s.table.next ∧ s.fdtable fd = some m.buf) ∨
        (id < s.table.next ∧ MadeIn d sh fdtable as s m)) := by
  have hinv : Inv s := run_inv Inv (step_inv d sh) (inv_init fdtable) hr
  have hex := (hinv.exact.create d sh fd attr va len mflags (s.fdtable fd) env).1
  rcases create_cases d sh s.table fd attr va len mflags (s.fdtable fd) env with
    ⟨m, hm, hfd, he⟩ | ⟨b, hb, _, he⟩ | ⟨n, e, hn, he⟩
  · -- the map was found: it is as old as the step that made it
    rw [he] at hc hex
    cases hc
    have hmem : m.addRef ∈ update Map.id s.table.maps m.id .addRef :=
      mem_update.mpr (Or.inr ⟨m, hm, rfl, rfl⟩)
    refine ⟨m.addRef, lookup_of_mem hex.unique hmem, hfd, Or.inr ⟨hinv.exact.fresh m hm, ?_⟩⟩
    exact run_madeIn d sh hr m (mem_all.mpr (Or.inl hm))
  · rw [he] at hc
    cases hc
    exact ⟨_, lookup_cons_self _, rfl, Or.inl ⟨rfl, hb⟩⟩
  · rw [he] at hc
    cases hc

/-- A second call shares the map of the first, whose fd still denotes the same dma-buf. -/
theorem a_shared_map_wraps_the_buf_of_its_fd :
    ∃ s t, run (step .virtio sampleShared) (init (fun _ => some 1))
        [.context_alloc 1 0, .get_buf 0 ⟨4096, 64, some 5, 0, allOk⟩] = some s ∧
      mmap_create .virtio sampleShared s.table 5 0 4096 32 0 (s.fdtable 5) allOk = (t, .ok 0) ∧
      ∃ m, lookup Map.id t.maps 0 = some m ∧ m.fd = 5 ∧
        ((0 = s.table.next ∧ s.fdtable 5 = some m.buf) ∨
          (0 < s.table.next ∧ MadeIn .virtio sampleShared (fun _ => some 1)
            [.context_alloc 1 0, .get_buf 0 ⟨4096, 64, some 5, 0, allOk⟩] s m)) := by
  have hrun : run (step .virtio sampleShared) (init (fun _ => some 1))
      [.context_alloc 1 0, .get_buf 0 ⟨4096, 64, some 5, 0, allOk⟩] = some _ := rfl
  refine ⟨_, _, hrun, rfl, ?_⟩
  exact a_returned_map_wraps_the_buf_it_was_made_of .virtio sampleShared hrun
    (show mmap_create .virtio sampleShared _ 5 0 4096 32 0 _ allOk = _ from rfl)

/-- A call leaves a kept map of fd 5. The client closes the fd and gets another dma-buf under
its number, and the lookup still finds the map of the first dma-buf. -/
theorem a_kept_map_is_found_for_another_buf :
    ∃ s t, run (step .hybrid sampleShared) (init (fun _ => some 1))
        [.context_alloc 1 0, .get_buf 0 ⟨4096, 64, some 5, 8, allOk⟩, .get_handles 0 false [],
          .context_free 0, .set_fd 5 none, .set_fd 5 (some 2)] = some s ∧
      mmap_create .hybrid sampleShared s.table 5 0 4096 64 0 (s.fdtable 5) allOk = (t, .ok 0) ∧
      (lookup Map.id t.maps 0).map Map.buf = some 1 ∧ s.fdtable 5 = some 2 := by
  exact ⟨_, _, rfl, rfl, rfl, rfl⟩

end virtual_fastrpc.map_table
