-- The end of a session: the loop that force-frees the maps ends only when
-- every map of the table is healthy, so the laws follow the reference counts
-- through every call of the session.
import PlatformKernel.MapRuns

namespace virtual_fastrpc.map_table

open keyed step_runs

/-! ## A healthy map -/

/-- The reference that `FASTRPC_ATTR_KEEP_MAP` stands for. -/
def Map.kept (sh : AdsprpcShared) (m : Map) : Int := if m.keep sh then 1 else 0

/-- A map with `held` references of a map call under way: each owner has a reference of its
own, and there is at least one. -/
structure Healthy (sh : AdsprpcShared) (held : Int) (m : Map) : Prop where
  heap : isHeap m.flags = false
  refs : 1 ≤ m.refs
  ctx : 0 ≤ m.ctx_refs
  dma : 0 ≤ m.dma_handle_refs
  owners : m.ctx_refs + m.dma_handle_refs + m.kept sh + held ≤ m.refs

theorem kept_nonneg (sh : AdsprpcShared) (m : Map) : 0 ≤ m.kept sh := by
  unfold Map.kept
  split <;> omega

/-- A map loses a reference that no owner needs: what is left is healthy. -/
theorem healthy_mmap_free {sh : AdsprpcShared} {held : Int} {m m' : Map}
    (h : mmap_free false m = some m') (hh : 0 ≤ held) (heap : isHeap m.flags = false)
    (refs : 1 ≤ m.refs) (ctx : 0 ≤ m.ctx_refs) (dma : 0 ≤ m.dma_handle_refs)
    (owners : m.ctx_refs + m.dma_handle_refs + m.kept sh + held ≤ m.refs - 1) :
    Healthy sh held m' := by
  have hk := kept_nonneg sh m
  rcases mmap_free_cases m with ⟨hbad, _⟩ | ⟨_, _, _, _, he⟩
  · rw [heap] at hbad
    rcases hbad with hbad | hbad | hbad | hbad
    · cases hbad
    · omega
    · omega
    · omega
  · rw [he] at h
    split at h
    · cases h
    · rename_i hz
      cases h
      have hkept : ({ m with refs := m.refs - 1 } : Map).kept sh = m.kept sh := rfl
      refine ⟨heap, ?_, ctx, dma, ?_⟩
      · dsimp only
        omega
      · rw [hkept]
        exact owners

theorem healthy_dropDma {sh : AdsprpcShared} {held : Int} {m m' : Map} (hh : 0 ≤ held)
    (h : Healthy sh held m) (he : m.dropDma = some m') : Healthy sh held m' := by
  unfold Map.dropDma at he
  split at he
  · cases he
    exact h
  · have h1 := h.dma
    have h2 := h.owners
    refine healthy_mmap_free he hh h.heap h.refs h.ctx ?_ ?_
    · dsimp only
      omega
    · have hk : ({ m with dma_handle_refs := m.dma_handle_refs - 1 } : Map).kept sh = m.kept sh :=
        rfl
      rw [hk]
      dsimp only
      omega

theorem healthy_clearDma {sh : AdsprpcShared} {held : Int} {m m' : Map} (hh : 0 ≤ held)
    (h : Healthy sh held m) (he : m.clearDma = some m') : Healthy sh held m' := by
  unfold Map.clearDma at he
  split at he
  · cases he
    exact h
  · have h1 := h.dma
    have h2 := h.owners
    refine healthy_mmap_free he hh h.heap h.refs h.ctx (Int.le_refl 0) ?_
    have hk : ({ m with dma_handle_refs := 0 } : Map).kept sh = m.kept sh := rfl
    rw [hk]
    dsimp only
    omega

theorem healthy_dropCtx {sh : AdsprpcShared} {held : Int} {m m' : Map} (hh : 0 ≤ held)
    (h : Healthy sh held m) (hpos : 0 < m.ctx_refs) (he : m.dropCtx = some m') :
    Healthy sh held m' := by
  unfold Map.dropCtx at he
  have h2 := h.owners
  rw [if_neg (by omega)] at he
  refine healthy_mmap_free he hh h.heap h.refs ?_ h.dma ?_
  · dsimp only
    omega
  · have hk : ({ m with ctx_refs := m.ctx_refs - 1 } : Map).kept sh = m.kept sh := rfl
    rw [hk]
    dsimp only
    omega

theorem keep_unkeep (sh : AdsprpcShared) (m : Map) : (m.unkeep sh).keep sh = false := by
  unfold Map.unkeep Map.keep keepAttr
  simp [BitVec.and_assoc]

theorem healthy_unkeep {sh : AdsprpcShared} {held : Int} {m m' : Map} (hh : 0 ≤ held)
    (h : Healthy sh held m) (hk : m.keep sh = true) (he : mmap_free false (m.unkeep sh) = some m') :
    Healthy sh held m' := by
  have h2 := h.owners
  have hkept : m.kept sh = 1 := by
    unfold Map.kept
    rw [if_pos hk]
  have hkept' : (m.unkeep sh).kept sh = 0 := by
    unfold Map.kept
    rw [keep_unkeep]
    rfl
  refine healthy_mmap_free he hh h.heap h.refs h.ctx h.dma ?_
  rw [hkept']
  have h3 : (m.unkeep sh).ctx_refs = m.ctx_refs := rfl
  have h4 : (m.unkeep sh).dma_handle_refs = m.dma_handle_refs := rfl
  have h5 : (m.unkeep sh).refs = m.refs := rfl
  rw [h3, h4, h5]
  omega

theorem healthy_newMap (sh : AdsprpcShared) (id : Nat) (fd : Int) (attr : BitVec 32)
    (va len : BitVec 64) (mflags : BitVec 32) (b : Nat) (hf : isHeap mflags = false) :
    Healthy sh 0 (newMap sh id fd attr va len mflags b) ∧
      (newMap sh id fd attr va len mflags b).kept sh + 1 =
        (newMap sh id fd attr va len mflags b).refs := by
  unfold newMap Map.kept Map.keep
  cases hk : keepAttr sh attr
  · refine ⟨⟨hf, ?_, ?_, ?_, ?_⟩, ?_⟩ <;> simp [Map.kept, Map.keep, hk]
  · refine ⟨⟨hf, ?_, ?_, ?_, ?_⟩, ?_⟩ <;> simp [Map.kept, Map.keep, hk]

/-! ## A healthy table -/

/-- Every map is healthy, with the references `held` that calls under way have on it. -/
def HealthyTable (sh : AdsprpcShared) (held : Nat → Int) (maps : List Map) : Prop :=
  ∀ m ∈ maps, Healthy sh (held m.id) m

theorem HealthyTable.filterMap {sh : AdsprpcShared} {held : Nat → Int} {maps : List Map}
    {f : Map → Option Map}
    (hf : ∀ m ∈ maps, ∀ m', f m = some m' → m'.id = m.id ∧ Healthy sh (held m.id) m') :
    HealthyTable sh held (maps.filterMap f) := by
  intro m' hm'
  obtain ⟨m, hm, he⟩ := List.mem_filterMap.mp hm'
  obtain ⟨h1, h2⟩ := hf m hm m' he
  rw [h1]
  exact h2

theorem HealthyTable.alter {sh : AdsprpcShared} {held held' : Nat → Int} {maps : List Map}
    {id : Nat} {f : Map → Option Map} (h : HealthyTable sh held maps)
    (hother : ∀ j ≠ id, held' j = held j)
    (hf : ∀ m ∈ maps, m.id = id → ∀ m', f m = some m' → m'.id = m.id ∧ Healthy sh (held' id) m') :
    HealthyTable sh held' (alter Map.id maps id f) := by
  apply HealthyTable.filterMap
  intro m hm m' he
  split at he
  · rename_i hk
    obtain ⟨h1, h2⟩ := hf m hm hk m' he
    exact ⟨h1, hk ▸ h2⟩
  · rename_i hk
    cases he
    refine ⟨rfl, ?_⟩
    rw [hother _ hk]
    exact h m hm

/-- One more reference on the map `id`. -/
def bump (held : Nat → Int) (id : Nat) : Nat → Int := fun j => held j + if j = id then 1 else 0

theorem bump_self (held : Nat → Int) (id : Nat) : bump held id id = held id + 1 := by
  simp [bump]

theorem bump_ne (held : Nat → Int) {id j : Nat} (h : j ≠ id) : bump held id j = held j := by
  simp [bump, h]

theorem HealthyTable.update {sh : AdsprpcShared} {held held' : Nat → Int} {maps : List Map}
    {id : Nat} {f : Map → Map} (h : HealthyTable sh held maps)
    (hother : ∀ j ≠ id, held' j = held j) (hid : ∀ m, (f m).id = m.id)
    (hf : ∀ m, Healthy sh (held id) m → Healthy sh (held' id) (f m)) :
    HealthyTable sh held' (update Map.id maps id f) := by
  rw [update_eq_alter]
  refine h.alter hother ?_
  intro m hm hk m' he
  cases he
  exact ⟨hid m, hf m (hk ▸ h m hm)⟩

/-- A reference that was taken on a map becomes one of a context. -/
theorem HealthyTable.addCtx {sh : AdsprpcShared} {held : Nat → Int} {maps : List Map} {id : Nat}
    (h : HealthyTable sh (bump held id) maps) :
    HealthyTable sh held (keyed.update Map.id maps id .addCtx) := by
  refine h.update (fun j hj => (bump_ne held hj).symm) (fun _ => rfl) ?_
  intro m hm
  have h1 := hm.owners
  have h2 := hm.ctx
  rw [bump_self] at h1
  have hk : m.addCtx.kept sh = m.kept sh := rfl
  refine ⟨hm.heap, hm.refs, ?_, hm.dma, ?_⟩
  · unfold Map.addCtx
    dsimp only
    omega
  · rw [hk]
    unfold Map.addCtx
    dsimp only
    omega

theorem HealthyTable.addDma {sh : AdsprpcShared} {held : Nat → Int} {maps : List Map} {id : Nat}
    (h : HealthyTable sh (bump held id) maps) :
    HealthyTable sh held (keyed.update Map.id maps id .addDma) := by
  refine h.update (fun j hj => (bump_ne held hj).symm) (fun _ => rfl) ?_
  intro m hm
  have h1 := hm.owners
  have h2 := hm.dma
  rw [bump_self] at h1
  have hk : m.addDma.kept sh = m.kept sh := rfl
  refine ⟨hm.heap, hm.refs, hm.ctx, ?_, ?_⟩
  · unfold Map.addDma
    dsimp only
    omega
  · rw [hk]
    unfold Map.addDma
    dsimp only
    omega

/-- vfastrpc_mmap_create takes a reference on the map that it returns. -/
theorem HealthyTable.create {sh : AdsprpcShared} {held : Nat → Int} {t : Table}
    (h : HealthyTable sh held t.maps) (hnew : ∀ j, t.next ≤ j → held j = 0)
    (hfresh : ∀ m ∈ t.maps, m.id < t.next) (d : Driver) (fd : Int) (attr : BitVec 32)
    (va len : BitVec 64) (mflags : BitVec 32) (buf : Option Nat) (env : CreateEnv) :
    (∃ t' id, mmap_create d sh t fd attr va len mflags buf env = (t', .ok id) ∧
      t.next ≤ t'.next ∧ id < t'.next ∧ HealthyTable sh (bump held id) t'.maps) ∨
    (∃ t' e, mmap_create d sh t fd attr va len mflags buf env = (t', .error e) ∧
      t.next ≤ t'.next ∧ HealthyTable sh held t'.maps) := by
  rcases create_cases d sh t fd attr va len mflags buf env with
    ⟨m, hm, _, he⟩ | ⟨b, _, hheap, he⟩ | ⟨n, e, hn, he⟩
  · refine Or.inl ⟨_, m.id, he, Nat.le_refl _, hfresh m hm, ?_⟩
    refine h.update (fun j hj => bump_ne held hj) (fun _ => rfl) ?_
    intro x hx
    have h1 := hx.owners
    have h2 := hx.refs
    have hk : x.addRef.kept sh = x.kept sh := rfl
    refine ⟨hx.heap, ?_, hx.ctx, hx.dma, ?_⟩
    · unfold Map.addRef
      dsimp only
      omega
    · rw [hk, bump_self]
      unfold Map.addRef
      dsimp only
      omega
  · refine Or.inl ⟨_, t.next, he, Nat.le_succ _, Nat.lt_succ_self _, ?_⟩
    obtain ⟨hnm, hrefs⟩ := healthy_newMap sh t.next fd attr va len mflags b hheap
    intro m hm
    rcases List.mem_cons.mp hm with rfl | hm
    · have hid : (newMap sh t.next fd attr va len mflags b).id = t.next := rfl
      rw [hid, bump_self, hnew _ (Nat.le_refl _)]
      refine ⟨hnm.heap, hnm.refs, hnm.ctx, hnm.dma, ?_⟩
      have h1 : (newMap sh t.next fd attr va len mflags b).ctx_refs = 0 := rfl
      have h2 : (newMap sh t.next fd attr va len mflags b).dma_handle_refs = 0 := rfl
      rw [h1, h2]
      omega
    · rw [bump_ne held (Nat.ne_of_lt (hfresh m hm))]
      exact h m hm
  · exact Or.inr ⟨_, e, he, hn, h⟩

theorem HealthyTable.get_args_buf {sh : AdsprpcShared} {held : Nat → Int} {t : Table}
    (h : HealthyTable sh held t.maps) (hnew : ∀ j, t.next ≤ j → held j = 0)
    (hfresh : ∀ m ∈ t.maps, m.id < t.next) (d : Driver) (fdtable : Int → Option Nat) (a : Arg) :
    HealthyTable sh held (get_args_buf d sh fdtable t a).1.maps ∧
      t.next ≤ (get_args_buf d sh fdtable t a).1.next := by
  unfold map_table.get_args_buf
  split
  · exact ⟨h, Nat.le_refl _⟩
  · rename_i fd _
    rcases h.create hnew hfresh d fd a.attr a.pv a.len 0 (fdtable fd) a.env with
      ⟨t', id, he, hn, _, ht⟩ | ⟨t', e, he, hn, ht⟩
    · rw [he]
      exact ⟨ht.addCtx, hn⟩
    · rw [he]
      exact ⟨ht, hn⟩

theorem HealthyTable.dropDma {sh : AdsprpcShared} {held : Nat → Int} {maps : List Map}
    (h : HealthyTable sh held maps) (hh : ∀ j, 0 ≤ held j) (id : Nat) :
    HealthyTable sh held (keyed.alter Map.id maps id Map.dropDma) := by
  refine h.alter (fun _ _ => rfl) ?_
  intro m hm hk m' he
  exact ⟨(dropDma_some he).1, healthy_dropDma (hh id) (hk ▸ h m hm) he⟩

/-- A property of the table that the turns of the loop over the handles keep, as long as every map
is healthy. -/
theorem HealthyTable.handles_keep {sh : AdsprpcShared} {held : Nat → Int} {t : Table}
    {P : Nat → Nat} {off : Option Nat} {R : Table → Prop} (h : HealthyTable sh held t.maps)
    (hx : Exact t P off) (hh : ∀ j, 0 ≤ held j) (hnew : ∀ j, t.next ≤ j → held j = 0) (d : Driver)
    (fdtable : Int → Option Nat)
    (hok : ∀ t₁ fd attr flags env t' id, R t₁ →
      mmap_create d sh t₁ fd attr 0 0 flags (fdtable fd) env = (t', .ok id) →
      R { t' with maps := keyed.update Map.id t'.maps id .addDma })
    (herr : ∀ t₁ fd attr flags env t' e, R t₁ →
      mmap_create d sh t₁ fd attr 0 0 flags (fdtable fd) env = (t', .error e) → R t')
    (hundo : ∀ (t₁ : Table) (id : Nat), HealthyTable sh held t₁.maps → R t₁ →
      R { t₁ with maps := keyed.alter Map.id t₁.maps id Map.dropDma })
    (hR : R t) (cap : Bool) (taken : List Nat) (as : List Arg) :
    HealthyTable sh held (get_args_handles d sh cap fdtable t taken as).1.maps ∧
      t.next ≤ (get_args_handles d sh cap fdtable t taken as).1.next ∧
      R (get_args_handles d sh cap fdtable t taken as).1 := by
  -- the counts and the bound on the ids go along, since a new map needs both
  suffices hall : HealthyTable sh held
        (map_table.get_args_handles d sh cap fdtable t taken as).1.maps ∧
      t.next ≤ (map_table.get_args_handles d sh cap fdtable t taken as).1.next ∧
      Exact (map_table.get_args_handles d sh cap fdtable t taken as).1 P off ∧
      R (map_table.get_args_handles d sh cap fdtable t taken as).1 from
    ⟨hall.1, hall.2.1, hall.2.2.2⟩
  refine get_args_handles_keeps
    (Q := fun t₁ => HealthyTable sh held t₁.maps ∧ t.next ≤ t₁.next ∧ Exact t₁ P off ∧ R t₁)
    d sh fdtable ?_ ?_ ?_ ⟨h, Nat.le_refl _, hx, hR⟩ cap taken as
  · rintro t₁ fd attr flags env t' id ⟨h, hn, hx, hR⟩ he
    have hxc := hx.create d sh fd attr 0 0 flags (fdtable fd) env
    have hR' := hok t₁ fd attr flags env t' id hR he
    have hnew₁ : ∀ j, t₁.next ≤ j → held j = 0 := fun j hj => hnew j (Nat.le_trans hn hj)
    rcases h.create hnew₁ hx.fresh d fd attr 0 0 flags (fdtable fd) env with
      ⟨t₂, id₂, he₂, hn₂, _, ht⟩ | ⟨t₂, e, he₂, _⟩
    · rw [he] at hxc he₂
      cases he₂
      exact ⟨ht.addDma, Nat.le_trans hn hn₂, hxc.1.update (f := .addDma) (fun _ => ⟨rfl, rfl⟩), hR'⟩
    · rw [he] at he₂
      cases he₂
  · rintro t₁ fd attr flags env t' e ⟨h, hn, hx, hR⟩ he
    have hxc := hx.create d sh fd attr 0 0 flags (fdtable fd) env
    have hR' := herr t₁ fd attr flags env t' e hR he
    have hnew₁ : ∀ j, t₁.next ≤ j → held j = 0 := fun j hj => hnew j (Nat.le_trans hn hj)
    rcases h.create hnew₁ hx.fresh d fd attr 0 0 flags (fdtable fd) env with
      ⟨t₂, id₂, he₂, _⟩ | ⟨t₂, e₂, he₂, hn₂, ht⟩
    · rw [he] at he₂
      cases he₂
    · rw [he] at hxc he₂
      cases he₂
      exact ⟨ht, Nat.le_trans hn hn₂, hxc.1, hR'⟩
  · rintro t₁ id ⟨h, hn, hx, hR⟩
    refine ⟨HealthyTable.dropDma h hh id, hn, ?_, hundo t₁ id h hR⟩
    exact hx.alter (fun _ _ he => ⟨(dropDma_some he).1, (dropDma_some he).2.1⟩)
      (fun _ => dropDma_none)

theorem HealthyTable.get_args_handles {sh : AdsprpcShared} {held : Nat → Int} {t : Table}
    {P : Nat → Nat} {off : Option Nat} (h : HealthyTable sh held t.maps) (hx : Exact t P off)
    (hh : ∀ j, 0 ≤ held j) (hnew : ∀ j, t.next ≤ j → held j = 0) (d : Driver) (cap : Bool)
    (fdtable : Int → Option Nat) (taken : List Nat) (as : List Arg) :
    HealthyTable sh held (get_args_handles d sh cap fdtable t taken as).1.maps ∧
      t.next ≤ (get_args_handles d sh cap fdtable t taken as).1.next := by
  obtain ⟨h1, h2, _⟩ := h.handles_keep (R := fun _ => True) hx hh hnew d fdtable
    (fun _ _ _ _ _ _ _ _ _ => trivial) (fun _ _ _ _ _ _ _ _ _ => trivial)
    (fun _ _ _ _ => trivial) trivial cap taken as
  exact ⟨h1, h2⟩

/-- A map of a buffer of a live context has a context on it. -/
theorem Exact.ctx_pos {t : Table} {P : Nat → Nat} {off : Option Nat} (hx : Exact t P off)
    {p : Option Nat} (hp : ∀ id, p = some id → 0 < P id) :
    ∀ id, p = some id → ∀ m ∈ t.maps, m.id = id → 0 < m.ctx_refs := by
  intro id hid m hm hk
  have h1 := hx.exact m hm
  have h2 := hp id hid
  rw [hk] at h1
  omega

theorem HealthyTable.release {sh : AdsprpcShared} {held : Nat → Int} {maps : List Map}
    (h : HealthyTable sh held maps) (hh : ∀ j, 0 ≤ held j) {p : Option Nat}
    (hp : ∀ id, p = some id → ∀ m ∈ maps, m.id = id → 0 < m.ctx_refs) :
    HealthyTable sh held (release_buf maps p) := by
  cases p with
  | none => exact h
  | some id =>
    refine h.alter (fun _ _ => rfl) ?_
    intro m hm hk m' he
    have hpos : 0 < m.ctx_refs := hp id rfl m hm hk
    exact ⟨(mmap_free_some he).1, healthy_dropCtx (hh id) (hk ▸ h m hm) hpos he⟩

/-- A property of the maps that the release of one buffer keeps, as long as every map is healthy. -/
theorem HealthyTable.context_free_keeps {sh : AdsprpcShared} {held : Nat → Int} {t : Table}
    {P Q : Nat → Nat} {off : Option Nat} {R : List Map → Prop} (h : HealthyTable sh held t.maps)
    (hx : Exact t P off) (hh : ∀ j, 0 ≤ held j)
    (hone : ∀ maps p, HealthyTable sh held maps →
      (∀ id, p = some id → ∀ m ∈ maps, m.id = id → 0 < m.ctx_refs) → R maps →
      R (release_buf maps p))
    (hR : R t.maps) {bufs : List (Option Nat)} (hP : ∀ j, P j = Q j + bufs.count (some j)) :
    HealthyTable sh held (context_free t.maps bufs) ∧ R (context_free t.maps bufs) := by
  induction bufs generalizing t P with
  | nil => exact ⟨h, hR⟩
  | cons p bufs ih =>
    have hpos := hx.ctx_pos (p := p) (fun id hid => by
      rw [hP id, hid, List.count_cons_self]
      omega)
    exact ih (h.release hh hpos) (hx.release_head hP) (hone t.maps p h hpos hR) (fun j => rfl)

theorem HealthyTable.context_free {sh : AdsprpcShared} {held : Nat → Int} {t : Table}
    {P Q : Nat → Nat} {off : Option Nat} (h : HealthyTable sh held t.maps) (hx : Exact t P off)
    (hh : ∀ j, 0 ≤ held j) {bufs : List (Option Nat)}
    (hP : ∀ j, P j = Q j + bufs.count (some j)) :
    HealthyTable sh held (context_free t.maps bufs) :=
  (h.context_free_keeps (R := fun _ => True) hx hh (fun _ _ _ _ _ => trivial) trivial hP).1

theorem HealthyTable.clearDma {sh : AdsprpcShared} {held : Nat → Int} {maps : List Map}
    (h : HealthyTable sh held maps) (hh : ∀ j, 0 ≤ held j) (id : Nat) :
    HealthyTable sh held (keyed.alter Map.id maps id Map.clearDma) := by
  refine h.alter (fun _ _ => rfl) ?_
  intro m hm hk m' he
  exact ⟨(clearDma_some he).1, healthy_clearDma (hh id) (hk ▸ h m hm) he⟩

theorem HealthyTable.put_args_fdlist {sh : AdsprpcShared} {held : Nat → Int} {maps : List Map}
    (h : HealthyTable sh held maps) (hh : ∀ j, 0 ≤ held j) (fdlist : List (BitVec 64)) :
    HealthyTable sh held (put_args_fdlist maps fdlist) :=
  put_args_fdlist_keeps (Q := HealthyTable sh held) (fun _ id h => HealthyTable.clearDma h hh id) h
    fdlist

theorem HealthyTable.remove_fd {sh : AdsprpcShared} {held : Nat → Int} {maps : List Map}
    (h : HealthyTable sh held maps) (hh : ∀ j, 0 ≤ held j) (fd : Int) :
    HealthyTable sh held (mmap_remove_fd sh maps fd).1 := by
  apply HealthyTable.filterMap
  intro m hm m' he
  split at he
  · rename_i hk
    exact ⟨(mmap_free_some he).1, healthy_unkeep (hh m.id) (h m hm) hk.2 he⟩
  · cases he
    exact ⟨rfl, h m hm⟩

/-! ## The loop at the end -/

/-- A forced free takes a healthy map off the list. -/
theorem healthy_force_free {sh : AdsprpcShared} {held : Int} {m : Map} (h : Healthy sh held m) :
    mmap_free true m = none := by
  have h1 := h.refs
  have h2 := h.ctx
  have h3 := h.dma
  unfold mmap_free
  rw [if_neg (by rw [h.heap]; simp), if_neg (by omega)]
  simp

theorem file_free_maps_healthy {sh : AdsprpcShared} {held : Nat → Int} {maps : List Map}
    (hu : Unique Map.id maps) (h : HealthyTable sh held maps) :
    file_free_maps (maps.length + 1) maps = some [] := by
  induction maps with
  | nil => rfl
  | cons m maps ih =>
    have hone : alter Map.id (m :: maps) m.id (mmap_free true) = maps := by
      unfold alter
      rw [List.filterMap_cons, if_pos rfl, healthy_force_free (h m List.mem_cons_self)]
      exact alter_eq_self hu.head
    rw [List.length_cons, file_free_maps, hone]
    exact ih hu.tail (fun x hx => h x (List.mem_cons_of_mem _ hx))

/-! ## Every run -/

/-- The references of the map call under way. -/
def held (s : Session) (j : Nat) : Int :=
  match s.op with
  | some (.mapping _ id) => bump (fun _ => 0) id j
  | _ => 0

theorem held_nonneg (s : Session) (j : Nat) : 0 ≤ held s j := by
  unfold held
  split
  · unfold bump
    split <;> simp
  · exact Int.le_refl 0

structure Health (sh : AdsprpcShared) (s : Session) : Prop where
  inv : Inv s
  maps : HealthyTable sh (held s) s.table.maps
  named : ∀ j, s.table.next ≤ j → held s j = 0
  off : ∀ m, s.offList = some m → isHeap m.flags = false ∧ m.dma_handle_refs = 0 ∧ 0 ≤ m.refs ∧
    (m.keep sh = false → 1 ≤ m.refs)

/-- A failed munmap puts back a map that still has a reference. -/
def UnmapCalm (s : Session) : Act → Prop
  | .unmap_fail => ∀ m, s.op = some (.unmapping .mmap m) → 1 ≤ m.refs
  | _ => True

theorem health_init (sh : AdsprpcShared) (fdtable : Int → Option Nat) :
    Health sh (init fdtable) := by
  refine ⟨inv_init fdtable, ?_, fun _ _ => rfl, ?_⟩
  · intro m hm
    cases hm
  · intro m hm
    cases hm

/-- A step that leaves the map calls alone. -/
theorem Health.sameOp {sh : AdsprpcShared} {s t : Session} (h : Health sh s) (ht : Inv t)
    (hop : t.op = s.op) (hm : HealthyTable sh (held s) t.table.maps)
    (hn : s.table.next ≤ t.table.next) : Health sh t := by
  have hheld : held t = held s := by
    funext j
    unfold held
    rw [hop]
  have hoff : t.offList = s.offList := by
    unfold Session.offList
    rw [hop]
  refine ⟨ht, ?_, ?_, ?_⟩
  · rw [hheld]
    exact hm
  · intro j hj
    rw [hheld]
    exact h.named j (Nat.le_trans hn hj)
  · rw [hoff]
    exact h.off

/-- A step after which no map call is under way. -/
theorem Health.noOp {sh : AdsprpcShared} {t : Session} (ht : Inv t) (hop : t.op = none)
    (hm : HealthyTable sh (fun _ => 0) t.table.maps) : Health sh t := by
  have hheld : held t = fun _ => 0 := by
    funext j
    unfold held
    rw [hop]
  refine ⟨ht, ?_, ?_, ?_⟩
  · rw [hheld]
    exact hm
  · intro j _
    rw [hheld]
  · intro m hoff
    unfold Session.offList at hoff
    rw [hop] at hoff
    cases hoff

theorem Health.get_buf {sh : AdsprpcShared} {s : Session} (h : Health sh s) (d : Driver)
    (a : Arg) {c : Ctx} (hc : c ∈ s.ctxs) : Health sh (get_buf d sh s a c) := by
  obtain ⟨hm, hn⟩ := h.maps.get_args_buf h.named h.inv.exact.fresh d s.fdtable a
  rw [← get_buf_table d sh s c a] at hm hn
  exact h.sameOp (h.inv.get_buf d sh a hc) (get_buf_op d sh s c a) hm hn

theorem Health.get_handles {sh : AdsprpcShared} {s : Session} (h : Health sh s) (d : Driver)
    (cap : Bool) (as : List Arg) {c : Ctx} (hc : c ∈ s.ctxs) :
    Health sh (get_handles d sh s cap as c) := by
  obtain ⟨hm, hn⟩ := h.maps.get_args_handles h.inv.exact (held_nonneg s) h.named d cap s.fdtable
    [] as
  rw [← get_handles_table d sh s c cap as] at hm hn
  exact h.sameOp (h.inv.get_handles d sh cap as hc) (get_handles_op d sh s c cap as) hm hn

theorem held_none {s : Session} (hop : s.op = none) : held s = fun _ => 0 := by
  funext j
  unfold held
  rw [hop]

theorem Health.begin_map {sh : AdsprpcShared} {s t : Session} (h : Health sh s) {d : Driver}
    {call : MapCall} {fd : Int} {attr : BitVec 32} {va len : BitVec 64} {flags : BitVec 32}
    {env : CreateEnv} (ht : begin_map d sh s call fd attr va len flags env = some t) :
    Health sh t := by
  have hinv := h.inv.begin_map ht
  obtain ⟨hnone, hcases⟩ := begin_map_cases ht
  rcases h.maps.create h.named h.inv.exact.fresh d fd attr va len flags (s.fdtable fd) env with
    ⟨t', id, hcr, hn, hlt, hm⟩ | ⟨t', e, hcr, hn, hm⟩
  · rw [hcr] at hcases
    obtain ⟨_, _, ⟨⟩, rfl⟩ | ⟨_, _, ⟨⟩, _⟩ := hcases
    rw [held_none hnone] at hm
    refine ⟨hinv, hm, ?_, fun m hoff => by cases hoff⟩
    intro j hj
    have hne : j ≠ id := by
      intro he
      subst he
      exact Nat.lt_irrefl _ (Nat.lt_of_lt_of_le hlt hj)
    exact bump_ne (fun _ => 0) hne
  · rw [hcr] at hcases
    obtain ⟨_, _, ⟨⟩, _⟩ | ⟨_, _, ⟨⟩, rfl⟩ := hcases
    exact h.sameOp hinv rfl hm hn

theorem Health.begin_unmap {sh : AdsprpcShared} {s t : Session} (h : Health sh s)
    {call : MapCall} {fd : Int} {va len : BitVec 64}
    (ht : begin_unmap sh s call fd va len = some t) : Health sh t := by
  have hinv := h.inv.begin_unmap ht
  obtain ⟨hnone, ⟨m, hm, hrem, rfl⟩ | rfl⟩ := begin_unmap_cases ht
  · obtain ⟨hrefs, _, hdma⟩ := removable_iff hrem
    have hmaps := h.maps
    rw [held_none hnone] at hmaps
    refine ⟨hinv, ?_, fun _ _ => rfl, ?_⟩
    · intro x hx
      exact hmaps x (mem_remove.mp hx).1
    · intro x hx
      cases hx
      have hheap := (h.maps m hm).heap
      cases hk : m.keep sh
      · simp only [Bool.false_eq_true, if_false]
        have h1 : m.refs = 1 := by simpa [hk] using hrefs
        exact ⟨hheap, hdma, by omega, fun _ => by omega⟩
      · simp only [if_true]
        refine ⟨hheap, hdma, by omega, ?_⟩
        intro hkeep
        have hsame : ({ m with refs := m.refs - 1 } : Map).keep sh = m.keep sh := rfl
        rw [hsame, hk] at hkeep
        cases hkeep
  · exact h

theorem keep_mapped {sh : AdsprpcShared}
    (hattr : sh.FASTRPC_ATTR_KEEP_MAP &&& VFASTRPC_MAP_ATTR_BUFFER_MAPPED = 0) (d : Driver)
    (call : MapCall) (raddr : BitVec 64) (m : Map) :
    (m.mapped d call raddr).keep sh = m.keep sh := by
  unfold Map.mapped Map.keep keepAttr
  dsimp only
  split
  · have hor : (m.attr ||| VFASTRPC_MAP_ATTR_BUFFER_MAPPED) &&& sh.FASTRPC_ATTR_KEEP_MAP =
        m.attr &&& sh.FASTRPC_ATTR_KEEP_MAP := by
      rw [BitVec.and_or_distrib_right, BitVec.and_comm VFASTRPC_MAP_ATTR_BUFFER_MAPPED, hattr]
      simp
    rw [hor]
  · rfl

/-- A map with a reference that is given up, and one that is used up. -/
theorem HealthyTable.le {sh : AdsprpcShared} {held held' : Nat → Int} {maps : List Map}
    (h : HealthyTable sh held maps) (hle : ∀ j, held' j ≤ held j) : HealthyTable sh held' maps := by
  intro m hm
  have h1 := (h m hm).owners
  have h2 := hle m.id
  exact ⟨(h m hm).heap, (h m hm).refs, (h m hm).ctx, (h m hm).dma, by omega⟩

theorem healthy_readded {sh : AdsprpcShared} {call : MapCall} {m : Map}
    (hheap : isHeap m.flags = false) (hctx : m.ctx_refs = 0) (hdma : m.dma_handle_refs = 0)
    (hrefs : 0 ≤ m.refs) (hkeep : m.keep sh = false → 1 ≤ m.refs)
    (hcalm : call = .mmap → 1 ≤ m.refs) : Healthy sh 0 (readded sh call m) := by
  unfold readded
  split
  · rename_i hk
    have hkept : m.addRef.kept sh = 1 := by
      have : m.addRef.keep sh = true := hk.2
      unfold Map.kept
      rw [if_pos this]
    refine ⟨hheap, ?_, ?_, ?_, ?_⟩
    · unfold Map.addRef
      dsimp only
      omega
    · unfold Map.addRef
      dsimp only
      omega
    · unfold Map.addRef
      dsimp only
      omega
    · rw [hkept]
      unfold Map.addRef
      dsimp only
      omega
  · rename_i hk
    have hpos : 1 ≤ m.refs := by
      cases call with
      | mmap => exact hcalm rfl
      | mem_map =>
        apply hkeep
        simpa using hk
    have hkept : m.kept sh ≤ 1 := by
      unfold Map.kept
      split <;> omega
    exact ⟨hheap, hpos, by omega, by omega, by omega⟩

/-- The map of a buffer of a live context has a pointer to it. -/
theorem pointers_pos {ctxs : List Ctx} {x : Ctx} (hx : x ∈ ctxs) {i id : Nat}
    (hid : x.maps.getD i none = some id) : 0 < pointers ctxs id := by
  have hmem : some id ∈ x.maps := by
    by_cases hi : i < x.maps.length
    · rw [← hid, List.getD_eq_getElem _ _ hi]
      exact List.getElem_mem hi
    · rw [List.getD_eq_default _ _ (by omega)] at hid
      cases hid
  have hle : x.maps.count (some id) ≤ pointers ctxs id :=
    le_weight (g := fun c => c.maps.count (some id)) hx
  have hpos := List.count_pos_iff.mpr hmem
  omega

theorem Health.map_done {sh : AdsprpcShared}
    (hattr : sh.FASTRPC_ATTR_KEEP_MAP &&& VFASTRPC_MAP_ATTR_BUFFER_MAPPED = 0) {d : Driver}
    {s t : Session} (h : Health sh s) {raddr : BitVec 64}
    (ht : step d sh s (.map_done raddr) = some t) : Health sh t := by
  have hinv : Inv t := step_inv d sh s _ t h.inv ht
  obtain ⟨call, id, _, _, rfl⟩ := step_map_done ht
  refine Health.noOp hinv rfl ?_
  refine (h.maps.le (held_nonneg s)).update (fun _ _ => rfl) (fun _ => rfl) ?_
  intro m hm
  have hk : (m.mapped d call raddr).kept sh = m.kept sh := by
    unfold Map.kept
    rw [keep_mapped hattr]
  refine ⟨hm.heap, hm.refs, hm.ctx, hm.dma, ?_⟩
  rw [hk]
  exact hm.owners

/-- A step that meets the condition keeps every map healthy. The attribute that mem_map sets is
the work of another step. -/
theorem step_health_of_ne {sh : AdsprpcShared} (d : Driver) (s : Session) (a : Act) (t : Session)
    (h : Health sh s) (hne : ∀ raddr, a ≠ .map_done raddr) (hc : UnmapCalm s a)
    (ht : step d sh s a = some t) : Health sh t := by
  have hinv : Inv t := step_inv d sh s a t h.inv ht
  have hh := held_nonneg s
  cases a with
  | set_fd fd buf =>
    cases ht
    exact h.sameOp hinv rfl h.maps (Nat.le_refl _)
  | context_alloc inbufs outbufs =>
    cases ht
    exact h.sameOp hinv rfl h.maps (Nat.le_refl _)
  | get_buf c a =>
    obtain ⟨x, hx, _, _, rfl⟩ := onCtx_some ht
    exact h.get_buf d a hx
  | get_handles c cap as =>
    obtain ⟨x, hx, _, _, rfl⟩ := onCtx_some ht
    exact h.get_handles d cap as hx
  | put_buf c i =>
    obtain ⟨x, hx, rfl, _, rfl⟩ := onCtx_some ht
    have hpos := h.inv.exact.ctx_pos (p := x.maps.getD i none) (fun id hid => pointers_pos hx hid)
    exact h.sameOp hinv rfl (h.maps.release hh hpos) (Nat.le_refl _)
  | put_fdlist c fdlist =>
    obtain ⟨x, _, _, _, rfl⟩ := onCtx_some ht
    exact h.sameOp hinv rfl (h.maps.put_args_fdlist hh fdlist) (Nat.le_refl _)
  | context_free c =>
    obtain ⟨x, hx, rfl, _, rfl⟩ := onCtx_some ht
    refine h.sameOp hinv rfl ?_ (Nat.le_refl _)
    refine h.maps.context_free (Q := pointers (remove Ctx.id s.ctxs x.id)) h.inv.exact hh ?_
    intro j
    exact (weight_remove h.inv.unique (fun c => c.maps.count (some j)) hx rfl).symm
  | mmap fd va len flags env => exact h.begin_map ht
  | mem_map fd attrs va len flags env => exact h.begin_map ht
  | map_done raddr => exact absurd rfl (hne raddr)
  | map_fail =>
    obtain ⟨call, id, hop, rfl⟩ := step_map_fail ht
    refine Health.noOp hinv rfl ?_
    have hheld : held s = bump (fun _ => 0) id := by
      funext j
      unfold held
      rw [hop]
    have hm := h.maps
    rw [hheld] at hm
    refine hm.alter (fun j hj => (bump_ne (fun _ => 0) hj).symm) ?_
    intro m hmem hk m' he
    have hx := hm m hmem
    have howners := hx.owners
    rw [hk, bump_self] at howners
    refine ⟨(mmap_free_some he).1, ?_⟩
    exact healthy_mmap_free he (Int.le_refl 0) hx.heap hx.refs hx.ctx hx.dma (by omega)
  | munmap vaddrout size => exact h.begin_unmap ht
  | mem_unmap fd vaddr len => exact h.begin_unmap ht
  | unmap_done =>
    obtain ⟨call, m, _, _, rfl⟩ := step_unmap_done ht
    exact Health.noOp hinv rfl (h.maps.le hh)
  | unmap_fail =>
    obtain ⟨call, m, hop, rfl⟩ := step_unmap_fail ht
    have hoff := offList_unmapping hop
    obtain ⟨h1, h2, h3, h4⟩ := h.off m hoff
    have hadd : Healthy sh 0 (readded sh call m) := by
      apply healthy_readded h1 (h.inv.off m hoff) h2 h3 h4
      intro hcall
      subst hcall
      exact hc m hop
    refine Health.noOp hinv rfl ?_
    have hmaps : HealthyTable sh (fun _ => 0) s.table.maps := h.maps.le hh
    intro x hx
    unfold Session.setMaps vfastrpc_mmap_add at hx
    dsimp only at hx
    split at hx
    · exact hmaps x hx
    · rcases List.mem_cons.mp hx with rfl | hx
      · exact hadd
      · exact hmaps x hx
  | munmap_fd fd =>
    obtain ⟨_, rfl⟩ := step_munmap_fd ht
    exact h.sameOp hinv rfl (h.maps.remove_fd hh fd) (Nat.le_refl _)

theorem step_health {sh : AdsprpcShared}
    (hattr : sh.FASTRPC_ATTR_KEEP_MAP &&& VFASTRPC_MAP_ATTR_BUFFER_MAPPED = 0) (d : Driver)
    (s : Session) (a : Act) (t : Session) (h : Health sh s) (hc : UnmapCalm s a)
    (ht : step d sh s a = some t) : Health sh t := by
  by_cases hdone : ∃ raddr, a = .map_done raddr
  · obtain ⟨raddr, rfl⟩ := hdone
    exact h.map_done hattr ht
  · exact step_health_of_ne d s a t h (fun raddr he => hdone ⟨raddr, he⟩) hc ht

/-- In every run in which a failed munmap puts back only maps that still have a reference, every
map of the table is healthy in every state, and the loop at the end of the session takes all of
them off the list, one in each turn. -/
theorem closing_a_session_terminates (d : Driver) (sh : AdsprpcShared)
    (hattr : sh.FASTRPC_ATTR_KEEP_MAP &&& VFASTRPC_MAP_ATTR_BUFFER_MAPPED = 0)
    {fdtable : Int → Option Nat} {s : Session}
    (h : ReachableUnder (step d sh) UnmapCalm (init fdtable) s) :
    (∀ m ∈ s.table.maps, 1 ≤ m.refs ∧ 0 ≤ m.ctx_refs ∧ 0 ≤ m.dma_handle_refs) ∧
      file_free_maps (s.table.maps.length + 1) s.table.maps = some [] := by
  have hs : Health sh s := h.inv (Health sh) (step_health hattr d) (health_init sh fdtable)
  refine ⟨?_, file_free_maps_healthy hs.inv.exact.unique hs.maps⟩
  intro m hm
  exact ⟨(hs.maps m hm).refs, (hs.maps m hm).ctx, (hs.maps m hm).dma⟩

/-- The session keeps a map after a call, shares it with a second call, and ends. -/
theorem a_kept_map_is_freed_at_the_end :
    ∃ s, run (step .hybrid sampleShared) (init (fun _ => some 1))
        [.context_alloc 1 0, .get_buf 0 ⟨4096, 64, some 5, 8, allOk⟩, .get_handles 0 false [],
          .context_free 0, .context_alloc 0 1, .get_buf 1 ⟨4096, 64, some 5, 8, allOk⟩] =
        some s ∧
      s.table.maps.map Map.refs = [2] ∧ file_free_maps 2 s.table.maps = some [] := by
  have hrun : run (step .hybrid sampleShared) (init (fun _ => some 1))
      [.context_alloc 1 0, .get_buf 0 ⟨4096, 64, some 5, 8, allOk⟩, .get_handles 0 false [],
        .context_free 0, .context_alloc 0 1, .get_buf 1 ⟨4096, 64, some 5, 8, allOk⟩] =
      some _ := rfl
  refine ⟨_, hrun, by decide, ?_⟩
  refine (closing_a_session_terminates .hybrid sampleShared (by decide) ⟨_, ?_, hrun⟩).2
  apply meets_of_forall
  simp [UnmapCalm]

/-- The loop does not end at a map that a forced free leaves as it is. -/
theorem file_free_maps_stuck {m : Map} (h : mmap_free true m = some m) (fuel : Nat) :
    file_free_maps fuel [m] = none := by
  induction fuel with
  | zero => rfl
  | succ fuel ih =>
    have hone : alter Map.id [m] m.id (mmap_free true) = [m] := by
      unfold alter
      rw [List.filterMap_cons, if_pos rfl, h]
      rfl
    rw [file_free_maps, hone]
    exact ih

/-- A call leaves a kept map with its one reference and no address on the DSP. A munmap of
address 0 takes the map off the list and takes the reference, and the DSP refuses: the map
comes back with no reference, and the loop at the end of the session never ends. -/
theorem a_failed_munmap_blocks_the_close :
    ∃ s, run (step .hybrid sampleShared) (init (fun _ => some 1))
        [.context_alloc 1 0, .get_buf 0 ⟨4096, 64, some 5, 8, allOk⟩, .get_handles 0 false [],
          .context_free 0, .munmap 0 64, .unmap_fail] = some s ∧
      s.ctxs = [] ∧ s.table.maps.map Map.refs = [0] ∧
      ∀ fuel, file_free_maps fuel s.table.maps = none := by
  refine ⟨_, rfl, rfl, by decide, ?_⟩
  intro fuel
  exact file_free_maps_stuck (m := ⟨0, 5, 0, 8, 1, 4096, 64, 0, 0, 0, 0⟩) rfl fuel

end virtual_fastrpc.map_table
