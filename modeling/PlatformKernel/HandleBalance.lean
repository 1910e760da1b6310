-- The references of a dma handle: each use of it in an invoke takes a reference
-- and a handle reference of its map, and the fd list of a response gives back
-- all handle references but only one reference.
import PlatformKernel.MapFds
import PlatformKernel.MapUndo

namespace virtual_fastrpc.handle_balance

open keyed step_runs map_table

/-! ## What the law is about -/

/-- The map that get_args and put_args find for the dma handle `fd`. -/
def handleMap (maps : List Map) (fd : Int) : Option Map := maps.find? (findMatch fd 0 0)

/-- The fds that put_args reads in a response. -/
def fdsOf (fdlist : List (BitVec 64)) : List (BitVec 64) := (fdlist.take M_FDLIST).takeWhile (· ≠ 0)

def fdOf (x : BitVec 64) : Int := (x.setWidth 32).toInt

/-- The handles of an invoke for which get_args takes the map of `fd`. -/
def handleUses (d : Driver) (cap : Bool) (fd : Int) (as : List Arg) : Nat :=
  as.countP (fun a => handleFd d cap a == some fd)

def uses (d : Driver) (fd : Int) : Act → Nat
  | .get_handles _ cap as => handleUses d cap fd as
  | _ => 0

/-- No reference count comes to `INT_MAX` with `n` more references. -/
def Room (maps : List Map) (n : Nat) : Prop :=
  (n : Int) + 1 < INT_MAX ∧ ∀ m ∈ maps, m.refs + n < INT_MAX

/-- The steps of some invokes: their contexts, the maps of their buffers and handles, the responses
and the end of the contexts. Where an invoke maps its handles, it succeeds. A buffer with the fd of
the handle has an address. -/
def Invoking (d : Driver) (sh : AdsprpcShared) (fd : Int) (s : Session) : Act → Prop
  | .set_fd _ _ => True
  | .context_alloc _ _ => True
  | .get_buf _ a => a.fd = some fd → a.pv ≠ 0
  | .get_handles _ cap as =>
    (∃ taken, (get_args_handles d sh cap s.fdtable s.table [] as).2 = .ok taken) ∧
      Room s.table.maps as.length
  | .put_buf _ _ => True
  | .put_fdlist _ _ => True
  | .context_free _ => True
  | _ => False

/-- Before the response that returns the fd. -/
def Before (d : Driver) (sh : AdsprpcShared) (fd : Int) (s : Session) (a : Act) : Prop :=
  Invoking d sh fd s a ∧ ∀ c fdlist, a = .put_fdlist c fdlist → ∀ x ∈ fdsOf fdlist, fdOf x ≠ fd

/-- After it: no further use of the handle. -/
def After (d : Driver) (sh : AdsprpcShared) (fd : Int) (s : Session) (a : Act) : Prop :=
  Invoking d sh fd s a ∧ uses d fd a = 0

/-- The references of the map of the handle are what they were, and there is no map when there was
none. -/
def Balanced (fd : Int) (t t' : Table) : Prop :=
  match handleMap t.maps fd with
  | some m => ∃ m' ∈ t'.maps, m'.id = m.id ∧ m'.refs = m.refs ∧
      m'.dma_handle_refs = m.dma_handle_refs
  | none => handleMap t'.maps fd = none

/-- The handle references of the map before the invokes. -/
def dmaRefs (maps : List Map) (fd : Int) : Int :=
  match handleMap maps fd with
  | some m => m.dma_handle_refs
  | none => 0

/-! ## How the map of the handle is followed -/

/-- The map of the handle, when `old` is the map that it had at first and the maps from `n₀` on are
newer: it has `R` references besides those of its contexts, and `D` handle references. It can be
that it is not there yet or no more, or that the old map is gone. -/
inductive Track (fd : Int) (n₀ : Nat) (old : Option Nat) (dead : Prop) (t : Table)
  (R D : Int) : Prop
  | there (m : Map) (found : handleMap t.maps fd = some m) (same : ∀ j, old = some j → m.id = j)
    (new : old = none → n₀ ≤ m.id ∧ ∀ x ∈ t.maps, findMatch fd 0 0 x = true → x.id = m.id)
    (refs : m.refs = R + m.ctx_refs) (dma : m.dma_handle_refs = D)
  | absent (new : old = none) (found : handleMap t.maps fd = none) (refs : R = 0) (dma : D = 0)
  | gone (j : Nat) (same : old = some j) (lt : j < t.next)
    (gone : ∀ x ∈ t.maps, x.id ≠ j) (h : dead)

theorem handleMap_mem {maps : List Map} {fd : Int} {m : Map} (h : handleMap maps fd = some m) :
    m ∈ maps ∧ findMatch fd 0 0 m = true :=
  ⟨List.mem_of_find?_eq_some h, List.find?_some h⟩

theorem fd_of_match {fd : Int} {m : Map} (h : findMatch fd 0 0 m = true) : m.fd = fd := by
  unfold findMatch at h
  simp only [Bool.and_eq_true, beq_iff_eq] at h
  exact h.2

section track

variable {fd : Int} {n₀ : Nat} {old : Option Nat} {dead : Prop} {t : Table} {R D R' D' : Int}

/-- A change of each map that leaves its fd and its range alone. -/
theorem Track.filterMap (h : Track fd n₀ old dead t R D) (hu : Unique Map.id t.maps)
    (hf : ∀ m ∈ t.maps, m.id < t.next) {g : Map → Option Map}
    (hg : ∀ x ∈ t.maps, ∀ y, g x = some y → y.id = x.id ∧ findMatch fd 0 0 y = findMatch fd 0 0 x)
    (hsome : ∀ m m', handleMap t.maps fd = some m → m.refs = R + m.ctx_refs →
      m.dma_handle_refs = D → g m = some m' → m'.refs = R' + m'.ctx_refs ∧ m'.dma_handle_refs = D')
    (hend : ∀ m, handleMap t.maps fd = some m → m.refs = R + m.ctx_refs →
      m.dma_handle_refs = D → g m = none → R' = 0 ∧ D' = 0 ∧ dead)
    (hnone : R = 0 → D = 0 → handleMap t.maps fd = none → R' = 0 ∧ D' = 0) :
    Track fd n₀ old dead { t with maps := t.maps.filterMap g } R' D' := by
  have hmatch : ∀ x ∈ t.maps, ∀ y, g x = some y → findMatch fd 0 0 y = findMatch fd 0 0 x :=
    fun x hx y he => (hg x hx y he).2
  cases h with
  | there m found same new refs dma =>
    obtain ⟨hmem, _⟩ := handleMap_mem found
    rcases hgm : g m with _ | m'
    · obtain ⟨hR, hD, hdead⟩ := hend m found refs dma hgm
      have hgone : ∀ y ∈ t.maps.filterMap g, y.id ≠ m.id := by
        intro y hy hid
        obtain ⟨x, hx, he⟩ := List.mem_filterMap.mp hy
        cases hu.eq hx hmem ((hg x hx y he).1.symm.trans hid)
        cases hgm.symm.trans he
      rcases hold : old with _ | j
      · refine .absent rfl ?_ hR hD
        unfold handleMap
        rw [List.find?_eq_none]
        intro y hy hym
        obtain ⟨x, hx, he⟩ := List.mem_filterMap.mp hy
        rw [hmatch x hx y he] at hym
        exact hgone y hy ((hg x hx y he).1.trans ((new hold).2 x hx hym))
      · refine .gone j rfl ?_ ?_ hdead
        · rw [← same j hold]
          exact hf m hmem
        · rw [← same j hold]
          exact hgone
    · obtain ⟨hrefs, hdma⟩ := hsome m m' found refs dma hgm
      have hid := (hg m hmem m' hgm).1
      refine .there m' (find?_filterMap_some hmatch found hgm) ?_ ?_ hrefs hdma
      · intro j hj
        rw [hid]
        exact same j hj
      · intro hold
        rw [hid]
        refine ⟨(new hold).1, ?_⟩
        intro y hy hym
        obtain ⟨x, hx, he⟩ := List.mem_filterMap.mp hy
        rw [hmatch x hx y he] at hym
        rw [(hg x hx y he).1]
        exact (new hold).2 x hx hym
  | absent new found refs dma =>
    obtain ⟨hR, hD⟩ := hnone refs dma found
    exact .absent new (find?_filterMap_none hmatch found) hR hD
  | gone j same lt gone hdead =>
    refine .gone j same lt ?_ hdead
    intro y hy
    obtain ⟨x, hx, he⟩ := List.mem_filterMap.mp hy
    rw [(hg x hx y he).1]
    exact gone x hx

end track

section tableSteps

variable {fd : Int} {n₀ : Nat} {old : Option Nat} {dead : Prop} {t : Table} {R D : Int}
  {P : Nat → Nat} {off : Option Nat}

/-- A map of another fd, or with an address, does not hide the map of the handle. -/
theorem Track.cons (h : Track fd n₀ old dead t R D) {m : Map}
    (hm : findMatch fd 0 0 m = false) (hid : m.id = t.next) :
    Track fd n₀ old dead ⟨m :: t.maps, t.next + 1⟩ R D := by
  have hfind : handleMap (m :: t.maps) fd = handleMap t.maps fd := by
    unfold handleMap
    rw [List.find?_cons, hm]
  cases h with
  | there x found same new refs dma =>
    refine .there x (hfind.trans found) same ?_ refs dma
    intro hold
    refine ⟨(new hold).1, ?_⟩
    intro y hy hym
    rcases List.mem_cons.mp hy with rfl | hy
    · rw [hm] at hym
      cases hym
    · exact (new hold).2 y hy hym
  | absent new found refs dma => exact .absent new (hfind.trans found) refs dma
  | gone j same lt gone hdead =>
    refine .gone j same (Nat.lt_succ_of_lt lt) ?_ hdead
    intro y hy
    rcases List.mem_cons.mp hy with rfl | hy
    · omega
    · exact gone y hy

theorem Track.next (h : Track fd n₀ old dead t R D) {n : Nat} (hn : t.next ≤ n) :
    Track fd n₀ old dead { t with next := n } R D := by
  cases h with
  | there x found same new refs dma => exact .there x found same new refs dma
  | absent new found refs dma => exact .absent new found refs dma
  | gone j same lt gone hdead => exact .gone j same (Nat.lt_of_lt_of_le lt hn) gone hdead

/-- A change of one map that leaves it in the table. -/
theorem Track.update {R' D' : Int} (h : Track fd n₀ old dead t R D) (hx : Exact t P off) {id : Nat}
    {f : Map → Map}
    (hf : ∀ m, (f m).id = m.id ∧ findMatch fd 0 0 (f m) = findMatch fd 0 0 m)
    (hother : ∀ m, handleMap t.maps fd = some m → m.id ≠ id → R' = R ∧ D' = D)
    (hself : ∀ m, handleMap t.maps fd = some m → m.id = id → m.refs = R + m.ctx_refs →
      m.dma_handle_refs = D → (f m).refs = R' + (f m).ctx_refs ∧ (f m).dma_handle_refs = D')
    (hnone : R = 0 → D = 0 → handleMap t.maps fd = none → R' = 0 ∧ D' = 0) :
    Track fd n₀ old dead { t with maps := update Map.id t.maps id f } R' D' := by
  rw [update_eq_alter]
  apply h.filterMap hx.unique hx.fresh
  · intro x _ y he
    split at he
    · cases he
      exact hf x
    · cases he
      exact ⟨rfl, rfl⟩
  · intro m m' hm hr hd he
    split at he
    · rename_i hk
      cases he
      exact hself m hm hk hr hd
    · rename_i hk
      cases he
      obtain ⟨rfl, rfl⟩ := hother m hm hk
      exact ⟨hr, hd⟩
  · intro m _ _ _ he
    split at he <;> cases he
  · exact hnone

/-- A change of another map. -/
theorem Track.update_other (h : Track fd n₀ old dead t R D) (hx : Exact t P off) {id : Nat}
    {f : Map → Map} (hf : ∀ m, (f m).id = m.id ∧ findMatch fd 0 0 (f m) = findMatch fd 0 0 m)
    (hid : ∀ m, handleMap t.maps fd = some m → m.id ≠ id) :
    Track fd n₀ old dead { t with maps := keyed.update Map.id t.maps id f } R D :=
  h.update hx hf (fun _ _ _ => ⟨rfl, rfl⟩) (fun m hm hk => absurd hk (hid m hm))
    (fun hR hD _ => ⟨hR, hD⟩)

theorem match_newMap_fd {sh : AdsprpcShared} {id : Nat} {fd' : Int} {attr : BitVec 32}
    {va len : BitVec 64} {mflags : BitVec 32} {b : Nat} (hne : fd' ≠ fd ∨ va ≠ 0) :
    findMatch fd 0 0 (newMap sh id fd' attr va len mflags b) = false := by
  unfold findMatch newMap
  rcases hne with hne | hne
  · simp [hne]
  · have hne : va ≠ 0#64 := hne
    simp [hne]

/-- The map of a buffer is taken: a reference and a context. -/
theorem Track.get_args_buf (h : Track fd n₀ old dead t R D) (hx : Exact t P off) (d : Driver)
    (sh : AdsprpcShared) (fdtable : Int → Option Nat) {a : Arg} (ha : a.fd = some fd → a.pv ≠ 0) :
    Track fd n₀ old dead (get_args_buf d sh fdtable t a).1 R D := by
  unfold map_table.get_args_buf
  split
  · exact h
  rename_i fd' hfd'
  have hafd : a.fd = some fd' := by
    unfold bufFd at hfd'
    cases d with
    | virtio =>
      dsimp only at hfd'
      split at hfd'
      · cases hfd'
      · exact (Option.filter_eq_some_iff.mp hfd').1
    | hybrid => exact (Option.filter_eq_some_iff.mp hfd').1
  have hne : fd' ≠ fd ∨ a.pv ≠ 0 := by
    by_cases he : fd' = fd
    · exact Or.inr (ha (he ▸ hafd))
    · exact Or.inl he
  have hc := hx.create d sh fd' a.attr a.pv a.len 0 (fdtable fd') a.env
  rcases create_cases d sh t fd' a.attr a.pv a.len 0 (fdtable fd') a.env with
    ⟨m, hm, _, he⟩ | ⟨b, _, _, he⟩ | ⟨n, e, hn, he⟩
  · rw [he]
    dsimp only
    rw [keyed.update_update (f := Map.addRef) (fun _ => rfl)]
    apply h.update hx
    · intro _
      exact ⟨rfl, rfl⟩
    · intro _ _ _
      exact ⟨rfl, rfl⟩
    · intro x _ _ hr hd
      exact ⟨by simp only [Map.addCtx, Map.addRef]; omega, hd⟩
    · intro hR hD _
      exact ⟨hR, hD⟩
  · rw [he] at hc ⊢
    apply (h.cons (match_newMap_fd hne) rfl).update_other hc.1
    · intro _
      exact ⟨rfl, rfl⟩
    · intro x hfound hid
      have hxm : x ∈ t.maps := by
        unfold handleMap at hfound
        rw [List.find?_cons, match_newMap_fd hne] at hfound
        exact List.mem_of_find?_eq_some hfound
      have := hx.fresh x hxm
      omega
  · rw [he]
    exact h.next hn

end tableSteps

/-! ## The handles of an invoke -/

section handles

variable {fd : Int} {n₀ : Nat} {old : Option Nat} {dead : Prop} {t : Table} {R D : Int}
  {P : Nat → Nat} {off : Option Nat}

theorem find_flags (maps : List Map) (fd' : Int) (flags : BitVec 32) :
    vfastrpc_mmap_find maps fd' 0 0 flags =
      if isHeap flags then .error .ENOTTY else
        match handleMap maps fd' with
        | some m => .ok m
        | none => .error .ENOTTY := by
  unfold vfastrpc_mmap_find handleMap
  exact if_neg (by decide)

/-- What vfastrpc_mmap_create does for a dma handle that it gets: it finds the map of the handle, or
it makes one. -/
theorem create_handle {d : Driver} {sh : AdsprpcShared} {attr flags : BitVec 32} {buf : Option Nat}
    {env : CreateEnv} {t' : Table} {id : Nat} {fd' : Int}
    (hroom : ∀ m, handleMap t.maps fd' = some m → m.refs + 1 ≠ INT_MAX)
    (h : mmap_create d sh t fd' attr 0 0 flags buf env = (t', .ok id)) :
    isHeap flags = false ∧
      ((∃ m, handleMap t.maps fd' = some m ∧ id = m.id ∧
        t' = { t with maps := update Map.id t.maps m.id .addRef }) ∨
      (handleMap t.maps fd' = none ∧ id = t.next ∧
        ∃ b, t' = ⟨newMap sh t.next fd' attr 0 0 flags b :: t.maps, t.next + 1⟩)) := by
  rcases create_ok h with ⟨m, hm, _, rfl, rfl⟩ | ⟨hnone, hheap, rfl, b, _, rfl⟩
  · rw [find_flags] at hm
    split at hm
    · cases hm
    rename_i hheap
    refine ⟨by simpa using hheap, Or.inl ⟨m, ?_, rfl, rfl⟩⟩
    split at hm
    · rename_i he
      cases hm
      exact he
    · cases hm
  · refine ⟨hheap, Or.inr ⟨?_, rfl, b, rfl⟩⟩
    rcases hm : handleMap t.maps fd' with _ | m
    · rfl
    · -- a map with room for a reference would have been found
      have hok : vfastrpc_mmap_find t.maps fd' 0 0 flags = .ok m := by
        rw [find_flags, hheap, hm]
        rfl
      exact absurd (hnone m hok) (hroom m hm)

/-- A handle of the fd `fd'` takes a reference and a handle reference of the map of `fd'`. -/
theorem Track.handle {d : Driver} {sh : AdsprpcShared} {attr flags : BitVec 32} {buf : Option Nat}
    {env : CreateEnv} {t' : Table} {id : Nat} {fd' : Int} (h : Track fd n₀ old dead t R D)
    (hx : Exact t P off) (hn₀ : n₀ ≤ t.next) (hkeep : keepAttr sh attr = false)
    (hroom : ∀ m, handleMap t.maps fd' = some m → m.refs + 1 ≠ INT_MAX)
    (he : mmap_create d sh t fd' attr 0 0 flags buf env = (t', .ok id)) :
    Track fd n₀ old dead { t' with maps := keyed.update Map.id t'.maps id .addDma }
      (R + if fd' = fd then 1 else 0) (D + if fd' = fd then 1 else 0) := by
  have hc := hx.create d sh fd' attr 0 0 flags buf env
  rw [he] at hc
  obtain ⟨_, ⟨m, hm, rfl, rfl⟩ | ⟨hm, rfl, b, rfl⟩⟩ := create_handle hroom he
  · -- the map of `fd'` is found
    dsimp only
    rw [keyed.update_update (f := Map.addRef) (fun _ => rfl)]
    apply h.update hx
    · intro _
      exact ⟨rfl, rfl⟩
    · intro x hxm hne
      have hfd : fd' ≠ fd := by
        rintro rfl
        cases hm.symm.trans hxm
        exact hne rfl
      simp [hfd]
    · intro x hxm hid hr hd
      have hfd : fd' = fd := by
        cases hx.unique.eq (handleMap_mem hxm).1 (handleMap_mem hm).1 hid
        rw [← fd_of_match (handleMap_mem hm).2, fd_of_match (handleMap_mem hxm).2]
      rw [if_pos hfd]
      refine ⟨?_, ?_⟩
      · simp only [Map.addDma, Map.addRef]
        omega
      · simp only [Map.addDma, Map.addRef]
        omega
    · intro hR hD hnone
      have hfd : fd' ≠ fd := by
        rintro rfl
        cases hm.symm.trans hnone
      simp [hR, hD, hfd]
  · by_cases hfd : fd' = fd
    · -- the map of the handle is made
      subst hfd
      rw [if_pos rfl]
      have hmaps : keyed.update Map.id (newMap sh t.next fd' attr 0 0 flags b :: t.maps)
        t.next .addDma =
          (newMap sh t.next fd' attr 0 0 flags b).addDma :: t.maps := by
        have hrest : keyed.update Map.id t.maps t.next .addDma = t.maps := by
          apply update_eq_self
          intro x hxm hid
          have := hx.fresh x hxm
          omega
        conv_rhs => rw [← hrest]
        simp [keyed.update, newMap]
      dsimp only
      rw [hmaps]
      cases h with
      | there m found _ _ _ _ => cases hm.symm.trans found
      | absent new found hR hD =>
        have hmatch : findMatch fd' 0 0 (newMap sh t.next fd' attr 0 0 flags b).addDma = true := by
          simp [findMatch, newMap, Map.addDma]
        refine .there (newMap sh t.next fd' attr 0 0 flags b).addDma ?_ ?_ ?_ ?_ ?_
        · unfold handleMap
          rw [List.find?_cons, hmatch]
        · intro j hj
          rw [new] at hj
          cases hj
        · intro _
          refine ⟨hn₀, ?_⟩
          intro x hxm hmx
          rcases List.mem_cons.mp hxm with rfl | hxm
          · rfl
          · exact absurd hmx (List.find?_eq_none.mp hm x hxm)
        · simp [newMap, Map.addDma, hkeep, hR]
        · simp [newMap, Map.addDma, hD]
      | gone j same lt gone hdead =>
        refine .gone j same (Nat.lt_succ_of_lt lt) ?_ hdead
        intro x hxm
        rcases List.mem_cons.mp hxm with rfl | hxm
        · exact (Nat.ne_of_lt lt).symm
        · exact gone x hxm
    · -- the map of another handle is made
      rw [if_neg hfd, Int.add_zero, Int.add_zero]
      have hmatch : findMatch fd 0 0 (newMap sh t.next fd' attr 0 0 flags b) = false :=
        match_newMap_fd (Or.inl hfd)
      apply (h.cons hmatch rfl).update_other hc.1
      · intro _
        exact ⟨rfl, rfl⟩
      · intro x hfound hid
        unfold handleMap at hfound
        rw [List.find?_cons, hmatch] at hfound
        have := hx.fresh x (List.mem_of_find?_eq_some hfound)
        omega

/-- A handle takes at most one reference of each map. -/
theorem Room.handle {d : Driver} {sh : AdsprpcShared} {attr flags : BitVec 32} {buf : Option Nat}
    {env : CreateEnv} {t' : Table} {id n : Nat} {fd' : Int} (h : Room t.maps (n + 1))
    (hkeep : keepAttr sh attr = false)
    (he : mmap_create d sh t fd' attr 0 0 flags buf env = (t', .ok id)) :
    Room (keyed.update Map.id t'.maps id .addDma) n := by
  obtain ⟨h1, h2⟩ := h
  push_cast at h1 h2
  have hmaps : ∀ m ∈ t'.maps, m.refs + n < INT_MAX := by
    intro m hm
    rcases create_cases d sh t fd' attr 0 0 flags buf env with
      ⟨x, hx, _, hc⟩ | ⟨b, _, _, hc⟩ | ⟨_, _, _, hc⟩
    · cases he.symm.trans hc
      rcases mem_update.mp hm with ⟨hm, _⟩ | ⟨y, hy, _, rfl⟩
      · have := h2 m hm
        omega
      · have := h2 y hy
        simp only [Map.addRef]
        omega
    · cases he.symm.trans hc
      rcases List.mem_cons.mp hm with rfl | hm
      · simp only [newMap, hkeep]
        simp
        omega
      · have := h2 m hm
        omega
    · cases he.symm.trans hc
  refine ⟨by omega, ?_⟩
  intro m hm
  rcases mem_update.mp hm with ⟨hm, _⟩ | ⟨y, hy, _, rfl⟩
  · exact hmaps m hm
  · exact hmaps y hy

/-- The loop over the handles. -/
theorem Track.get_args_handles {d : Driver} {sh : AdsprpcShared} {cap : Bool}
    {fdtable : Int → Option Nat} {taken taken' : List Nat} {as : List Arg}
    (h : Track fd n₀ old dead t R D) (hx : Exact t P off) (hn₀ : n₀ ≤ t.next)
    (hkeep : ∀ a, keepAttr sh (handleAttr d sh a) = false) (hroom : Room t.maps as.length)
    (hok : (get_args_handles d sh cap fdtable t taken as).2 = .ok taken') :
    Track fd n₀ old dead (get_args_handles d sh cap fdtable t taken as).1
      (R + handleUses d cap fd as) (D + handleUses d cap fd as) := by
  induction as generalizing t taken R D with
  | nil => simpa [map_table.get_args_handles, handleUses] using h
  | cons a as ih =>
    unfold map_table.get_args_handles at hok ⊢
    have hcount : handleUses d cap fd (a :: as) =
        handleUses d cap fd as + if handleFd d cap a = some fd then 1 else 0 := by
      simp [handleUses, List.countP_cons]
    rw [hcount]
    split at hok
    · rename_i hfd
      simp only [hfd] at ⊢
      simpa using ih h hx hn₀ ⟨by have := hroom.1; simp at this; omega, fun m hm => by
        have := hroom.2 m hm
        simp at this
        omega⟩ hok
    · rename_i fd' hfd
      split at hok
      · rename_i t₁ id he
        have hnext : t.next ≤ t₁.next := by
          rcases create_cases d sh t fd' (handleAttr d sh a) 0 0 (handleFlags d sh a) (fdtable fd')
            a.env with ⟨x, _, _, hc⟩ | ⟨b, _, _, hc⟩ | ⟨_, _, _, hc⟩
          · cases he.symm.trans hc
            exact Nat.le_refl _
          · cases he.symm.trans hc
            exact Nat.le_succ _
          · cases he.symm.trans hc
        have hc := hx.create d sh fd' (handleAttr d sh a) 0 0 (handleFlags d sh a)
          (fdtable fd') a.env
        rw [he] at hc
        have hone := h.handle hx hn₀ (hkeep a) (fun m hm => by
          have := hroom.2 m (handleMap_mem hm).1
          simp at this
          omega) he
        have hrest := ih hone (hc.1.update (f := .addDma) (fun _ => ⟨rfl, rfl⟩))
          (Nat.le_trans hn₀ hnext) (hroom.handle (hkeep a) he) hok
        simp only [hfd]
        have hif : (if some fd' = some fd then 1 else 0 : Nat) = if fd' = fd then 1 else 0 := by
          simp
        rw [hif]
        convert hrest using 1
        · push_cast
          omega
        · push_cast
          omega
      · cases hok

end handles

/-! ## The end of a context, and the fd lists -/

section ends

variable {fd : Int} {n₀ : Nat} {old : Option Nat} {dead : Prop} {t : Table} {R D : Int}
  {P : Nat → Nat} {off : Option Nat} {sh : AdsprpcShared} {held : Nat → Int}

/-- vfastrpc_mmap_free leaves the range of a map alone. -/
theorem mmap_free_match {m m' : Map} (h : mmap_free false m = some m') :
    m'.id = m.id ∧ findMatch fd 0 0 m' = findMatch fd 0 0 m := by
  rcases mmap_free_cases m with ⟨_, he⟩ | ⟨_, _, _, _, he⟩
  · rw [he] at h
    cases h
    exact ⟨rfl, rfl⟩
  · rw [he] at h
    split at h
    · cases h
    · cases h
      exact ⟨rfl, rfl⟩

theorem dropCtx_match {m m' : Map} (h : m.dropCtx = some m') :
    m'.id = m.id ∧ findMatch fd 0 0 m' = findMatch fd 0 0 m := by
  obtain ⟨h1, h2⟩ := mmap_free_match h
  exact ⟨h1, h2⟩

theorem clearDma_match {m m' : Map} (h : m.clearDma = some m') :
    m'.id = m.id ∧ findMatch fd 0 0 m' = findMatch fd 0 0 m := by
  unfold Map.clearDma at h
  split at h
  · cases h
    exact ⟨rfl, rfl⟩
  · obtain ⟨h1, h2⟩ := mmap_free_match h
    exact ⟨h1, h2⟩

/-- A map in good order loses a reference: it goes when it has no owner left. -/
theorem mmap_free_healthy {m : Map} (heap : isHeap m.flags = false) (refs : 1 ≤ m.refs)
    (ctx : 0 ≤ m.ctx_refs) (dma : 0 ≤ m.dma_handle_refs) :
    mmap_free false m = if m.refs = 1 ∧ m.ctx_refs = 0 ∧ m.dma_handle_refs = 0 then none
      else some { m with refs := m.refs - 1 } := by
  rcases mmap_free_cases m with ⟨hbad, _⟩ | ⟨_, _, _, _, he⟩
  · rw [heap] at hbad
    simp at hbad
    omega
  · exact he

theorem Track.release (h : Track fd n₀ old dead t R D) (hx : Exact t P off)
    (hh : HealthyTable sh held t.maps) (hdead : R = 0 → D = 0 → dead) {p : Option Nat}
    (hp : ∀ id, p = some id → 0 < P id) :
    Track fd n₀ old dead { t with maps := release_buf t.maps p } R D := by
  cases p with
  | none => exact h
  | some id =>
    -- the map of the handle gives back one context and its reference
    have hdrop : ∀ m, handleMap t.maps fd = some m → m.id = id → m.dropCtx =
        if m.refs = 1 ∧ m.ctx_refs - 1 = 0 ∧ m.dma_handle_refs = 0 then none
        else some { m with refs := m.refs - 1, ctx_refs := m.ctx_refs - 1 } := by
      intro m hm hid
      have hmem := (handleMap_mem hm).1
      have hex := hx.exact m hmem
      have hpos := hp id rfl
      have hm := hh m hmem
      have h1 := hm.refs
      have h2 := hm.ctx
      have h3 := hm.dma
      rw [hid] at hex
      unfold Map.dropCtx
      have hctx : 0 ≤ m.ctx_refs - 1 := by omega
      rw [if_neg (by omega)]
      exact mmap_free_healthy (m := { m with ctx_refs := m.ctx_refs - 1 }) hm.heap h1 hctx h3
    apply h.filterMap hx.unique hx.fresh
    · intro x _ y he
      split at he
      · exact dropCtx_match he
      · cases he
        exact ⟨rfl, rfl⟩
    · intro m m' hm hr hd he
      split at he
      · rename_i hk
        rw [hdrop m hm hk] at he
        split at he
        · cases he
        · cases he
          exact ⟨by dsimp only; omega, hd⟩
      · cases he
        exact ⟨hr, hd⟩
    · intro m hm hr hd he
      split at he
      · rename_i hk
        rw [hdrop m hm hk] at he
        split at he
        · rename_i hz
          have hR : R = 0 := by omega
          have hD : D = 0 := by omega
          exact ⟨hR, hD, hdead hR hD⟩
        · cases he
      · cases he
    · intro hR hD _
      exact ⟨hR, hD⟩

theorem Track.context_free {Q : Nat → Nat} (h : Track fd n₀ old dead t R D) (hx : Exact t P off)
    (hh : HealthyTable sh held t.maps) (hheld : ∀ j, 0 ≤ held j) (hdead : R = 0 → D = 0 → dead)
    {bufs : List (Option Nat)} (hP : ∀ j, P j = Q j + bufs.count (some j)) :
    Track fd n₀ old dead { t with maps := context_free t.maps bufs } R D := by
  induction bufs generalizing t P with
  | nil => exact h
  | cons p bufs ih =>
    have hp : ∀ id, p = some id → 0 < P id := by
      intro id hid
      rw [hP id, hid, List.count_cons_self]
      omega
    exact ih (h.release hx hh hdead hp) (hx.release_head hP) (hh.release hheld (hx.ctx_pos hp))
      (fun j => rfl)

/-- What is left of the references when the handle references are given back. -/
def clear (R D : Int) : Int := if D = 0 then R else R - 1

theorem clear_zero (R : Int) : clear R 0 = R := if_pos rfl

theorem find_handle (maps : List Map) (fd' : Int) : vfastrpc_mmap_find maps fd' 0 0 0 =
    match handleMap maps fd' with
    | some m => .ok m
    | none => .error .ENOTTY := by
  rw [find_flags, if_neg (by decide)]

theorem put_args_fd_none {maps : List Map} {x : BitVec 64} (hm : handleMap maps (fdOf x) = none) :
    put_args_fd maps x = maps := by
  unfold map_table.put_args_fd
  rw [find_handle]
  unfold fdOf at hm
  rw [hm]

theorem put_args_fd_some {maps : List Map} {x : BitVec 64} {m : Map}
    (hm : handleMap maps (fdOf x) = some m) :
    put_args_fd maps x = alter Map.id maps m.id Map.clearDma := by
  unfold map_table.put_args_fd
  rw [find_handle]
  unfold fdOf at hm
  rw [hm]

/-- One fd of a response. -/
theorem Track.put_args_fd (h : Track fd n₀ old dead t R D) (hx : Exact t P off)
    (hh : HealthyTable sh held t.maps) (x : BitVec 64)
    (hdead : fdOf x = fd → clear R D = 0 → dead) :
    Track fd n₀ old dead { t with maps := put_args_fd t.maps x }
      (if fdOf x = fd then clear R D else R) (if fdOf x = fd then 0 else D) := by
  rcases hm : handleMap t.maps (fdOf x) with _ | m
  · rw [put_args_fd_none hm]
    by_cases hfd : fdOf x = fd
    · rw [if_pos hfd, if_pos hfd]
      rw [hfd] at hm
      cases h with
      | there y found _ _ _ _ => cases hm.symm.trans found
      | absent new found hR hD =>
        subst hD
        rw [clear_zero]
        exact .absent new found hR rfl
      | gone j same lt gone hd => exact .gone j same lt gone hd
    · rw [if_neg hfd, if_neg hfd]
      exact h
  · rw [put_args_fd_some hm]
    by_cases hfd : fdOf x = fd
    · -- the map of the handle
      rw [if_pos hfd, if_pos hfd]
      rw [hfd] at hm
      obtain ⟨hmem, _⟩ := handleMap_mem hm
      have hm' := hh m hmem
      have hdrop : m.clearDma = if m.dma_handle_refs = 0 then some m
          else if m.refs = 1 ∧ m.ctx_refs = 0 then none
          else some { m with refs := m.refs - 1, dma_handle_refs := 0 } := by
        unfold Map.clearDma
        rw [mmap_free_healthy (m := { m with dma_handle_refs := 0 }) hm'.heap hm'.refs hm'.ctx
          (Int.le_refl 0)]
        simp
      apply h.filterMap hx.unique hx.fresh
      · intro y _ z he
        split at he
        · exact clearDma_match he
        · cases he
          exact ⟨rfl, rfl⟩
      · intro y z hy hr hd he
        cases hm.symm.trans hy
        rw [if_pos rfl, hdrop] at he
        unfold clear
        split at he
        · rename_i hz
          cases he
          rw [if_pos (by omega)]
          exact ⟨hr, hz⟩
        · rename_i hz
          split at he
          · cases he
          · cases he
            rw [if_neg (by omega)]
            exact ⟨by dsimp only; omega, rfl⟩
      · intro y hy hr hd he
        cases hm.symm.trans hy
        rw [if_pos rfl, hdrop] at he
        split at he
        · cases he
        · rename_i hz
          split at he
          · rename_i hlast
            have hclear : clear R D = 0 := by
              unfold clear
              rw [if_neg (by omega)]
              omega
            exact ⟨hclear, rfl, hdead hfd hclear⟩
          · cases he
      · intro hR hD hnone
        cases hm.symm.trans hnone
    · -- the map of another handle
      rw [if_neg hfd, if_neg hfd]
      have hne : ∀ y, handleMap t.maps fd = some y → y.id ≠ m.id := by
        intro y hy hid
        cases hx.unique.eq (handleMap_mem hy).1 (handleMap_mem hm).1 hid
        apply hfd
        rw [← fd_of_match (handleMap_mem hm).2, fd_of_match (handleMap_mem hy).2]
      apply h.filterMap hx.unique hx.fresh
      · intro y _ z he
        split at he
        · exact clearDma_match he
        · cases he
          exact ⟨rfl, rfl⟩
      · intro y z hy hr hd he
        rw [if_neg (hne y hy)] at he
        cases he
        exact ⟨hr, hd⟩
      · intro y hy _ _ he
        rw [if_neg (hne y hy)] at he
        cases he
      · intro hR hD _
        exact ⟨hR, hD⟩

end ends

section fdlists

variable {fd : Int} {n₀ : Nat} {old : Option Nat} {dead : Prop} {t : Table} {R D : Int}
  {P : Nat → Nat} {off : Option Nat} {sh : AdsprpcShared} {held : Nat → Int}

theorem exact_put_fd (hx : Exact t P off) (x : BitVec 64) :
    Exact { t with maps := map_table.put_args_fd t.maps x } P off := by
  unfold map_table.put_args_fd
  split
  · apply hx.alter
    · intro m m' he
      exact ⟨(clearDma_some he).1, (clearDma_some he).2.1⟩
    · intro m he
      exact clearDma_none he
  · exact hx

theorem healthy_put_fd (hh : HealthyTable sh held t.maps) (hheld : ∀ j, 0 ≤ held j)
    (x : BitVec 64) :
    HealthyTable sh held (map_table.put_args_fd t.maps x) := by
  unfold map_table.put_args_fd
  split
  · apply hh.alter
    · intro _ _
      rfl
    · intro m hm hk m' he
      exact ⟨(clearDma_some he).1, healthy_clearDma (hheld _) (hk ▸ hh m hm) he⟩
  · exact hh

/-- The fds of a response name the handle. -/
def Named (fd : Int) (fds : List (BitVec 64)) : Prop := ∃ x ∈ fds, fdOf x = fd

/-- All fds of a response: the handle references go once. -/
theorem Track.put_args_fds {fds : List (BitVec 64)} (h : Track fd n₀ old dead t R D)
    (hx : Exact t P off) (hh : HealthyTable sh held t.maps) (hheld : ∀ j, 0 ≤ held j)
    (hdead : Named fd fds → clear R D = 0 → dead) :
    (Named fd fds → Track fd n₀ old dead
      { t with maps := fds.foldl map_table.put_args_fd t.maps } (clear R D) 0) ∧
    (¬ Named fd fds → Track fd n₀ old dead
      { t with maps := fds.foldl map_table.put_args_fd t.maps } R D) := by
  induction fds generalizing t R D with
  | nil =>
    refine ⟨?_, fun _ => h⟩
    rintro ⟨x, hx, _⟩
    cases hx
  | cons x fds ih =>
    have hx' := exact_put_fd hx x
    have hh' := healthy_put_fd hh hheld x
    have hone := h.put_args_fd hx hh x (fun hfd => hdead ⟨x, List.mem_cons_self, hfd⟩)
    by_cases hfd : fdOf x = fd
    · rw [if_pos hfd, if_pos hfd] at hone
      obtain ⟨h1, h2⟩ := ih hone hx' hh' (by
        intro _ hz
        rw [clear_zero] at hz
        exact hdead ⟨x, List.mem_cons_self, hfd⟩ hz)
      rw [clear_zero] at h1
      refine ⟨?_, fun hn => absurd ⟨x, List.mem_cons_self, hfd⟩ hn⟩
      intro _
      by_cases hn : Named fd fds
      · exact h1 hn
      · exact h2 hn
    · rw [if_neg hfd, if_neg hfd] at hone
      have hiff : Named fd (x :: fds) ↔ Named fd fds := by
        simp [Named, hfd]
      obtain ⟨h1, h2⟩ := ih hone hx' hh' (fun hn => hdead (hiff.mpr hn))
      rw [hiff]
      exact ⟨h1, h2⟩

end fdlists

/-! ## The steps of a session -/

section steps

variable {d : Driver} {sh : AdsprpcShared} {fd : Int} {n₀ : Nat} {old : Option Nat} {dead : Prop}
  {s t : Session} {a : Act} {R D : Int}

/-- What a step of an invoke does to the references of the handle, when it is not a response. -/
theorem step_track (hnova : keepAttr sh sh.FASTRPC_ATTR_NOVA = false) (hs : Health sh s)
    (h : Track fd n₀ old dead s.table R D) (hn₀ : n₀ ≤ s.table.next)
    (hdead : R = 0 → D = 0 → dead) (hi : Invoking d sh fd s a)
    (hresp : ∀ c fdlist, a ≠ .put_fdlist c fdlist) (ht : step d sh s a = some t) :
    Track fd n₀ old dead t.table (R + uses d fd a) (D + uses d fd a) := by
  have hnone : uses d fd a = 0 → Track fd n₀ old dead t.table R D →
      Track fd n₀ old dead t.table (R + uses d fd a) (D + uses d fd a) := by
    intro hu ht
    rw [hu]
    simpa using ht
  cases a with
  | set_fd fd' buf =>
    cases ht
    exact hnone rfl h
  | context_alloc inbufs outbufs =>
    cases ht
    exact hnone rfl h
  | get_buf c a =>
    obtain ⟨x, _, _, _, rfl⟩ := onCtx_some ht
    apply hnone rfl
    rw [get_buf_table]
    exact h.get_args_buf hs.inv.exact d sh s.fdtable hi
  | get_handles c cap as =>
    obtain ⟨x, _, _, _, rfl⟩ := onCtx_some ht
    obtain ⟨⟨taken, hok⟩, hroom⟩ := hi
    rw [get_handles_table]
    exact h.get_args_handles hs.inv.exact hn₀ (keepAttr_handleAttr hnova d) hroom hok
  | put_buf c i =>
    obtain ⟨x, hx, rfl, _, rfl⟩ := onCtx_some ht
    apply hnone rfl
    apply h.release hs.inv.exact hs.maps hdead
    intro id hid
    have hmem : some id ∈ x.maps := by
      rw [List.getD_eq_getElem?_getD] at hid
      rcases hget : x.maps[i]? with _ | q
      · rw [hget] at hid
        cases hid
      · rw [hget] at hid
        cases hid
        exact List.mem_of_getElem? hget
    have hle : x.maps.count (some id) ≤ pointers s.ctxs id :=
      le_weight (g := fun c => c.maps.count (some id)) hx
    have hpos : 0 < x.maps.count (some id) := List.count_pos_iff.mpr hmem
    omega
  | put_fdlist c fdlist => exact absurd rfl (hresp c fdlist)
  | context_free c =>
    obtain ⟨x, hx, rfl, _, rfl⟩ := onCtx_some ht
    apply hnone rfl
    apply h.context_free (Q := fun j => pointers (remove Ctx.id s.ctxs x.id) j) hs.inv.exact hs.maps
      (held_nonneg s) hdead
    intro j
    exact (weight_remove hs.inv.unique (fun c => c.maps.count (some j)) hx rfl).symm
  | mmap fd va len flags env => exact absurd hi id
  | mem_map fd attrs va len flags env => exact absurd hi id
  | map_done raddr => exact absurd hi id
  | map_fail => exact absurd hi id
  | munmap vaddrout size => exact absurd hi id
  | mem_unmap fd vaddr len => exact absurd hi id
  | unmap_done => exact absurd hi id
  | unmap_fail => exact absurd hi id
  | munmap_fd fd => exact absurd hi id

/-- A response. -/
theorem response_track {c : Nat} {fdlist : List (BitVec 64)} (hs : Health sh s)
    (h : Track fd n₀ old dead s.table R D)
    (hdead : Named fd (fdsOf fdlist) → clear R D = 0 → dead)
    (ht : step d sh s (.put_fdlist c fdlist) = some t) :
    (Named fd (fdsOf fdlist) → Track fd n₀ old dead t.table (clear R D) 0) ∧
      (¬ Named fd (fdsOf fdlist) → Track fd n₀ old dead t.table R D) := by
  obtain ⟨x, _, _, _, rfl⟩ := onCtx_some ht
  exact h.put_args_fds hs.inv.exact hs.maps (held_nonneg s) hdead

theorem invoking_calm (hi : Invoking d sh fd s a) : UnmapCalm s a := by
  cases a with
  | unmap_fail => exact absurd hi id
  | _ => trivial

end steps

/-! ## Whole runs -/

section runs

variable {d : Driver} {sh : AdsprpcShared} {fd : Int} {n₀ : Nat} {old : Option Nat} {dead : Prop}
  {s t : Session} {R D : Int}

theorem Track.mono {dead' : Prop} {t : Table} (h : Track fd n₀ old dead t R D) (hd : dead → dead') :
    Track fd n₀ old dead' t R D := by
  cases h with
  | there m found same new refs dma => exact .there m found same new refs dma
  | absent new found refs dma => exact .absent new found refs dma
  | gone j same lt gone h => exact .gone j same lt gone (hd h)

/-- The uses of the handle in a run. -/
def totalUses (d : Driver) (fd : Int) (as : List Act) : Nat := (as.map (uses d fd)).sum

theorem step_healthy (hattr : sh.FASTRPC_ATTR_KEEP_MAP &&& VFASTRPC_MAP_ATTR_BUFFER_MAPPED = 0)
    {a : Act} (hs : Health sh s) (hi : Invoking d sh fd s a) (ht : step d sh s a = some t) :
    Health sh t :=
  step_health hattr d s a t hs (invoking_calm hi) ht

/-- The invokes before the response add up. -/
theorem track_before (hnova : keepAttr sh sh.FASTRPC_ATTR_NOVA = false)
    (hattr : sh.FASTRPC_ATTR_KEEP_MAP &&& VFASTRPC_MAP_ATTR_BUFFER_MAPPED = 0) {as : List Act}
    (hs : Health sh s) (h : Track fd n₀ old dead s.table R D) (hn₀ : n₀ ≤ s.table.next)
    (hdead : R ≤ 0 → dead) (hm : Meets (step d sh) (Before d sh fd) s as)
    (hr : run (step d sh) s as = some t) :
    Health sh t ∧
      Track fd n₀ old dead t.table (R + totalUses d fd as) (D + totalUses d fd as) := by
  induction as generalizing s R D with
  | nil =>
    cases hr
    exact ⟨hs, by simpa [totalUses] using h⟩
  | cons a as ih =>
    obtain ⟨u, hu, hr⟩ := Option.bind_eq_some_iff.mp hr
    obtain ⟨⟨hi, hnot⟩, hrest⟩ := hm
    have hone : Track fd n₀ old dead u.table (R + uses d fd a) (D + uses d fd a) := by
      by_cases hresp : ∃ c fdlist, a = .put_fdlist c fdlist
      · obtain ⟨c, fdlist, rfl⟩ := hresp
        have hn : ¬ Named fd (fdsOf fdlist) := by
          rintro ⟨x, hx, hfd⟩
          exact hnot c fdlist rfl x hx hfd
        have h2 := (response_track hs h (fun hn' => absurd hn' hn) hu).2 hn
        simpa [uses] using h2
      · apply step_track hnova hs h hn₀ (fun hR _ => hdead (by omega)) hi ?_ hu
        intro c fdlist he
        exact hresp ⟨c, fdlist, he⟩
    have hsum : totalUses d fd (a :: as) = uses d fd a + totalUses d fd as := by
      simp [totalUses]
    obtain ⟨h1, h2⟩ := ih (step_healthy hattr hs hi hu) hone
      (Nat.le_trans hn₀ (step_stepFrom d sh hu).next) (fun hR => hdead (by omega)) (hrest u hu) hr
    refine ⟨h1, ?_⟩
    rw [hsum]
    push_cast
    simpa [Int.add_assoc] using h2

/-- After the response nothing changes. -/
theorem track_after (hnova : keepAttr sh sh.FASTRPC_ATTR_NOVA = false)
    (hattr : sh.FASTRPC_ATTR_KEEP_MAP &&& VFASTRPC_MAP_ATTR_BUFFER_MAPPED = 0) {as : List Act}
    (hs : Health sh s) (h : Track fd n₀ old dead s.table R 0) (hn₀ : n₀ ≤ s.table.next)
    (hdead : R = 0 → dead) (hm : Meets (step d sh) (After d sh fd) s as)
    (hr : run (step d sh) s as = some t) : Health sh t ∧ Track fd n₀ old dead t.table R 0 := by
  induction as generalizing s with
  | nil =>
    cases hr
    exact ⟨hs, h⟩
  | cons a as ih =>
    obtain ⟨u, hu, hr⟩ := Option.bind_eq_some_iff.mp hr
    obtain ⟨⟨hi, huse⟩, hrest⟩ := hm
    have hone : Track fd n₀ old dead u.table R 0 := by
      by_cases hresp : ∃ c fdlist, a = .put_fdlist c fdlist
      · obtain ⟨c, fdlist, rfl⟩ := hresp
        obtain ⟨h1, h2⟩ := response_track hs h (by
          rw [clear_zero]
          exact fun _ => hdead) hu
        rw [clear_zero] at h1
        by_cases hn : Named fd (fdsOf fdlist)
        · exact h1 hn
        · exact h2 hn
      · have hstep := step_track hnova hs h hn₀ (fun hR _ => hdead hR) hi
          (fun c fdlist he => hresp ⟨c, fdlist, he⟩) hu
        rw [huse] at hstep
        simpa using hstep
    exact ih (step_healthy hattr hs hi hu) hone (Nat.le_trans hn₀ (step_stepFrom d sh hu).next)
      (hrest u hu) hr

end runs

section whole

variable {d : Driver} {sh : AdsprpcShared} {fd : Int} {n₀ : Nat} {old : Option Nat}
  {s s₁ s₂ t : Session} {as bs : List Act} {c : Nat} {fdlist : List (BitVec 64)} {R D : Int}

/-- The whole story of the map of the handle. -/
theorem track_whole (hnova : keepAttr sh sh.FASTRPC_ATTR_NOVA = false)
    (hattr : sh.FASTRPC_ATTR_KEEP_MAP &&& VFASTRPC_MAP_ATTR_BUFFER_MAPPED = 0) (hs : Health sh s)
    (h : Track fd s.table.next old (R ≤ 0) s.table R D)
    (has : Meets (step d sh) (Before d sh fd) s as) (hrun : run (step d sh) s as = some s₁)
    (hresp : step d sh s₁ (.put_fdlist c fdlist) = some s₂) (hfd : Named fd (fdsOf fdlist))
    (hbs : Meets (step d sh) (After d sh fd) s₂ bs) (hrun' : run (step d sh) s₂ bs = some t) :
    Health sh t ∧ Track fd s.table.next old
      (R ≤ 0 ∨ clear (R + totalUses d fd as) (D + totalUses d fd as) = 0) t.table
      (clear (R + totalUses d fd as) (D + totalUses d fd as)) 0 := by
  obtain ⟨hs₁, h₁⟩ := track_before hnova hattr hs h (Nat.le_refl _) id has hrun
  have hnext : s.table.next ≤ s₁.table.next := by
    apply run_inv (fun u => s.table.next ≤ u.table.next) ?_ (Nat.le_refl _) hrun
    intro u a v hu hv
    exact Nat.le_trans hu (step_stepFrom d sh hv).next
  have h₂ := (response_track hs₁ (h₁.mono Or.inl) (fun _ => Or.inr) hresp).1 hfd
  exact track_after hnova hattr
    (step_health hattr d s₁ (.put_fdlist c fdlist) s₂ hs₁ trivial hresp) h₂
    (Nat.le_trans hnext (step_stepFrom d sh hresp).next) Or.inr hbs hrun'

/-- The handle had the map `m`. -/
theorem balanced_old {U : Nat} {m : Map} (hs : Health sh s) (ht : Health sh t)
    (hfreed : t.ctxs = s.ctxs) (hm : handleMap s.table.maps fd = some m)
    (h : Track fd s.table.next (some m.id)
      (m.refs - m.ctx_refs ≤ 0 ∨
        clear (m.refs - m.ctx_refs + U) (m.dma_handle_refs + U) = 0) t.table
      (clear (m.refs - m.ctx_refs + U) (m.dma_handle_refs + U)) 0) :
    (∃ m' ∈ t.table.maps, m'.id = m.id ∧ m'.refs = m.refs ∧
      m'.dma_handle_refs = m.dma_handle_refs) ↔ U ≤ 1 ∧ m.dma_handle_refs = 0 := by
  obtain ⟨hmem, _⟩ := handleMap_mem hm
  have hctx := hs.inv.exact.exact m hmem
  have hm := hs.maps m hmem
  have hrefs := hm.refs
  have hdma := hm.dma
  have howners := hm.owners
  have hkept := kept_nonneg sh m
  have hheld := held_nonneg s m.id
  unfold clear at h
  cases h with
  | there m₁ found same _ hr hd =>
    obtain ⟨hmem₁, _⟩ := handleMap_mem found
    have hid := same m.id rfl
    have hctx₁ := ht.inv.exact.exact m₁ hmem₁
    rw [hid, hfreed] at hctx₁
    constructor
    · rintro ⟨m', hm', hid', hr', hd'⟩
      cases ht.inv.exact.unique.eq hm' hmem₁ (hid'.trans hid.symm)
      split at hr <;> omega
    · rintro ⟨hU, hD⟩
      refine ⟨m₁, hmem₁, hid, ?_, by omega⟩
      split at hr <;> omega
  | absent new _ _ _ => cases new
  | gone j same _ gone hdead =>
    cases same
    constructor
    · rintro ⟨m', hm', hid', _⟩
      exact absurd hid' (gone m' hm')
    · rintro ⟨hU, hD⟩
      exfalso
      rcases hdead with hdead | hdead
      · -- the contexts that hold the map alone are still there
        obtain ⟨m', hm', hid'⟩ := ht.inv.exact.listed m.id (by
          rw [hfreed]
          omega)
        exact gone m' hm' hid'
      · have hle : m.refs - m.ctx_refs ≤ 0 := by
          split at hdead <;> omega
        obtain ⟨m', hm', hid'⟩ := ht.inv.exact.listed m.id (by
          rw [hfreed]
          omega)
        exact gone m' hm' hid'

/-- The handle had no map. -/
theorem balanced_new {U : Nat} {dead : Prop} (hs : Health sh s) (ht : Health sh t)
    (hfreed : t.ctxs = s.ctxs)
    (h : Track fd s.table.next none dead t.table (clear (0 + U) (0 + U)) 0) :
    handleMap t.table.maps fd = none ↔ U ≤ 1 := by
  unfold clear at h
  cases h with
  | there m found _ new hr _ =>
    obtain ⟨hmem, _⟩ := handleMap_mem found
    have hctx := ht.inv.exact.exact m hmem
    have hrefs := (ht.maps m hmem).refs
    have hzero : pointers s.ctxs m.id = 0 := by
      by_contra hp
      obtain ⟨x, hx, hid⟩ := hs.inv.exact.listed m.id (by omega)
      have := hs.inv.exact.fresh x hx
      have := (new rfl).1
      omega
    rw [hfreed, hzero] at hctx
    rw [found]
    constructor
    · intro hnone
      cases hnone
    · intro hU
      exfalso
      split at hr <;> omega
  | absent _ found hr _ =>
    rw [found]
    simp only [true_iff]
    split at hr <;> omega
  | gone j same _ _ _ => cases same

end whole

/-- The invokes of a session in which every map has the references of its owners. -/
theorem balanced_iff_of_health (d : Driver) (sh : AdsprpcShared)
    (hnova : keepAttr sh sh.FASTRPC_ATTR_NOVA = false)
    (hattr : sh.FASTRPC_ATTR_KEEP_MAP &&& VFASTRPC_MAP_ATTR_BUFFER_MAPPED = 0)
    {s s₁ s₂ t : Session} {as bs : List Act} {c : Nat} {fdlist : List (BitVec 64)} {fd : Int}
    (hs : Health sh s) (has : Meets (step d sh) (Before d sh fd) s as)
    (hrun : run (step d sh) s as = some s₁)
    (hresp : step d sh s₁ (.put_fdlist c fdlist) = some s₂) (hfd : Named fd (fdsOf fdlist))
    (hbs : Meets (step d sh) (After d sh fd) s₂ bs) (hrun' : run (step d sh) s₂ bs = some t)
    (hfreed : t.ctxs = s.ctxs) :
    Balanced fd s.table t.table ↔ totalUses d fd as ≤ 1 ∧ dmaRefs s.table.maps fd = 0 := by
  unfold Balanced dmaRefs
  rcases hm : handleMap s.table.maps fd with _ | m
  · have hstart : Track fd s.table.next none ((0 : Int) ≤ 0) s.table 0 0 := .absent rfl hm rfl rfl
    obtain ⟨ht, h⟩ := track_whole hnova hattr hs hstart has hrun hresp hfd hbs hrun'
    simpa using balanced_new hs ht hfreed h
  · have hstart : Track fd s.table.next (some m.id) (m.refs - m.ctx_refs ≤ 0) s.table
        (m.refs - m.ctx_refs) m.dma_handle_refs := by
      refine .there m hm ?_ ?_ (by omega) rfl
      · intro j hj
        exact Option.some.inj hj
      · intro hn
        cases hn
    obtain ⟨ht, h⟩ := track_whole hnova hattr hs hstart has hrun hresp hfd hbs hrun'
    exact balanced_old hs ht hfreed hm h

/-- Some invokes of a session in which no munmap was refused use a dma handle, a response returns
its fd, and the contexts of the invokes are freed. The references of its map are what they were
exactly when at most one handle was passed, and the map had no handle references before. -/
theorem handle_references_balance_iff (d : Driver) (sh : AdsprpcShared)
    (hnova : keepAttr sh sh.FASTRPC_ATTR_NOVA = false)
    (hattr : sh.FASTRPC_ATTR_KEEP_MAP &&& VFASTRPC_MAP_ATTR_BUFFER_MAPPED = 0)
    {fdtable : Int → Option Nat} {s s₁ s₂ t : Session} {as bs : List Act} {c : Nat}
    {fdlist : List (BitVec 64)} {fd : Int}
    (hs : ReachableUnder (step d sh) UnmapCalm (init fdtable) s)
    (has : Meets (step d sh) (Before d sh fd) s as)
    (hrun : run (step d sh) s as = some s₁)
    (hresp : step d sh s₁ (.put_fdlist c fdlist) = some s₂) (hfd : Named fd (fdsOf fdlist))
    (hbs : Meets (step d sh) (After d sh fd) s₂ bs) (hrun' : run (step d sh) s₂ bs = some t)
    (hfreed : t.ctxs = s.ctxs) :
    Balanced fd s.table t.table ↔ totalUses d fd as ≤ 1 ∧ dmaRefs s.table.maps fd = 0 := by
  have hhealth : Health sh s := hs.inv (Health sh) (step_health hattr d) (health_init sh fdtable)
  exact balanced_iff_of_health d sh hnova hattr hhealth has hrun hresp hfd hbs hrun' hfreed

/-- A call of context `c` that passes the handle 5. -/
def useHandle (c : Nat) : List Act :=
  [.context_alloc 0 0, .get_handles c false [⟨0, 0, some 5, 0, allOk⟩]]

/-- The session after a call with the handle and a call without one, with the maps `maps` and the
contexts `ctxs`. -/
def afterCalls (maps : List Map) (ctxs : List Ctx) : Session :=
  ⟨⟨maps, 1⟩, ctxs, 2, none, fun _ => some 1⟩

def readyCtxs : List Ctx := [⟨1, 0, 0, [], .ready⟩, ⟨0, 0, 0, [], .ready⟩]

/-- One call passes the handle, and the response of a second call returns it. -/
theorem one_use_is_balanced :
    ∃ m, run (step .hybrid sampleShared) (init (fun _ => some 1))
        (useHandle 0 ++ [.context_alloc 0 0, .get_handles 1 false []]) =
          some (afterCalls [m] readyCtxs) ∧
      step .hybrid sampleShared (afterCalls [m] readyCtxs) (.put_fdlist 1 [5]) =
        some (afterCalls [] readyCtxs) ∧
      run (step .hybrid sampleShared) (afterCalls [] readyCtxs) [.context_free 0, .context_free 1] =
        some (afterCalls [] []) ∧
      Balanced 5 (init (fun _ => some 1)).table (afterCalls [] []).table := by
  have hrun : run (step .hybrid sampleShared) (init (fun _ => some 1))
      (useHandle 0 ++ [.context_alloc 0 0, .get_handles 1 false []]) =
        some (afterCalls [⟨0, 5, 0, sampleShared.FASTRPC_ATTR_NOVA, 1, 0, 0, 0, 1, 0, 1⟩]
          readyCtxs) := rfl
  have hend : run (step .hybrid sampleShared) (afterCalls [] readyCtxs)
      [.context_free 0, .context_free 1] = some (afterCalls [] []) := rfl
  have hresp : step .hybrid sampleShared
      (afterCalls [⟨0, 5, 0, sampleShared.FASTRPC_ATTR_NOVA, 1, 0, 0, 0, 1, 0, 1⟩] readyCtxs)
      (.put_fdlist 1 [5]) = some (afterCalls [] readyCtxs) := rfl
  refine ⟨_, hrun, hresp, hend, ?_⟩
  apply (handle_references_balance_iff .hybrid sampleShared (by decide) (by decide)
    ⟨[], trivial, rfl⟩ ?_ hrun hresp ⟨5, by decide, by decide⟩ ?_ hend rfl).mpr ⟨by decide, rfl⟩
  · refine Meets.cons ⟨trivial, nofun⟩ rfl (Meets.cons ⟨⟨⟨_, rfl⟩, ?_⟩, nofun⟩ rfl
      (Meets.cons ⟨trivial, nofun⟩ rfl (Meets.cons ⟨⟨⟨_, rfl⟩, ?_⟩, nofun⟩ rfl trivial)))
    · exact ⟨by decide, fun m hm => by cases hm⟩
    · exact ⟨by decide, by decide⟩
  · exact Meets.cons ⟨trivial, rfl⟩ rfl (Meets.cons ⟨trivial, rfl⟩ rfl trivial)

/-- Two calls pass the handle, and the first response returns it: the map stays with a reference
that nobody has. -/
theorem two_uses_leave_a_reference :
    ∃ m m' : Map, run (step .virtio sampleShared) (init (fun _ => some 1))
        (useHandle 0 ++ useHandle 1) = some (afterCalls [m] readyCtxs) ∧
      step .virtio sampleShared (afterCalls [m] readyCtxs) (.put_fdlist 0 [5]) =
        some (afterCalls [m'] readyCtxs) ∧ Named 5 (fdsOf [5]) ∧
      run (step .virtio sampleShared) (afterCalls [m'] readyCtxs)
        [.context_free 0, .context_free 1] = some (afterCalls [m'] []) ∧
      ¬ Balanced 5 (init (fun _ => some 1)).table (afterCalls [m'] []).table := by
  refine ⟨⟨0, 5, 0, 0, 1, 0, 0, 0, 2, 0, 2⟩, ⟨0, 5, 0, 0, 1, 0, 0, 0, 1, 0, 0⟩, rfl, rfl,
    ⟨5, by decide, by decide⟩, rfl, ?_⟩
  intro hnone
  cases hnone

end virtual_fastrpc.handle_balance
