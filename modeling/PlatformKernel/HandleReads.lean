-- get_args of the virtio driver takes the maps of its dma handles under the
-- map_mutex and encodes them later without it. In between a completion of
-- another call can name the fd of such a map in its fd list.
import PlatformKernel.MapRuns

namespace virtual_fastrpc.handle_reads

open keyed step_runs map_table

/-! ## The steps -/

/-- One read of a handle map: which map get_args reads, and what is there. -/
structure Read where
  id : Nat
  map : Option Map
  deriving DecidableEq, Repr

structure State where
  session : Session
  /-- The handle maps that a get_args has taken and not yet encoded, each with its context, in the
  order of the loop. -/
  pending : List (Nat × Nat)
  log : List Read

def init (fdtable : Int → Option Nat) : State := ⟨map_table.init fdtable, [], []⟩

inductive Step
  /-- A section under the map_mutex. -/
  | locked (a : Act)
  /-- get_args of a context reads its next handle map: its table, its fd, its refs or its va. -/
  | read (c : Nat)
  /-- get_args has encoded that map. -/
  | next (c : Nat)
  /-- get_args fails, and encodes no more. -/
  | bail (c : Nat)
  deriving DecidableEq, Repr

def State.encoding (s : State) (c : Nat) : Bool := s.pending.any (·.1 == c)

/-- What the driver does with a context only when its get_args is over. -/
def afterGetArgs : Act → Option Nat
  | .put_buf c _ => some c
  | .put_fdlist c _ => some c
  | .context_free c => some c
  | _ => none

/-- The handle maps that a step takes. -/
def takes (sh : AdsprpcShared) (s : Session) : Act → List (Nat × Nat)
  | .get_handles c cap as =>
    match (get_args_handles .virtio sh cap s.fdtable s.table [] as).2 with
    | .ok taken => taken.map (fun id => (c, id))
    | .error _ => []
  | _ => []

/-- The maps that are not freed. -/
def alive (s : Session) : List Map := s.table.maps ++ s.offList.toList

def step (sh : AdsprpcShared) (s : State) : Step → Option State
  | .locked a =>
    if (afterGetArgs a).any s.encoding then none
    else
      (map_table.step .virtio sh s.session a).map fun t =>
        { s with session := t, pending := s.pending ++ takes sh s.session a }
  | .read c =>
    (s.pending.find? (·.1 == c)).map fun p =>
      { s with log := s.log ++ [⟨p.2, lookup Map.id (alive s.session) p.2⟩] }
  | .next c =>
    (s.pending.find? (·.1 == c)).map fun _ =>
      { s with pending := s.pending.eraseP (·.1 == c) }
  | .bail c =>
    if s.encoding c then
      some { s with
        session := s.session.setCtx c (.goto .failed)
        pending := s.pending.filter (·.1 != c) }
    else none

/-! ## The condition -/

/-- The loop of put_args over the fds of the DSP clears the handle references of no map of `ids`. -/
def Spares (ids : List Nat) : List Map → List (BitVec 64) → Prop
  | _, [] => True
  | maps, fd :: fds =>
    (∀ m, vfastrpc_mmap_find maps (fd.setWidth 32).toInt 0 0 0 = .ok m → m.dma_handle_refs ≠ 0 →
      m.id ∉ ids) ∧ Spares ids (put_args_fd maps fd) fds

/-- A completion clears the handle references of no map that a get_args has still to encode. -/
def Calm (s : State) : Step → Prop
  | .locked (.put_fdlist _ fdlist) =>
    Spares (s.pending.map Prod.snd) s.session.table.maps
      ((fdlist.take M_FDLIST).takeWhile (· ≠ 0))
  | _ => True

/-! ## Handle references -/

/-- Each map has a handle reference for every `K` of its readers. -/
structure Pins (t : Table) (K : Nat → Nat) : Prop where
  unique : Unique Map.id t.maps
  fresh : ∀ m ∈ t.maps, m.id < t.next
  le : ∀ m ∈ t.maps, (K m.id : Int) ≤ m.dma_handle_refs
  listed : ∀ id, 0 < K id → ∃ m ∈ t.maps, m.id = id

section pins

variable {t : Table} {K L : Nat → Nat}

/-- A change of each map, or its end: what is left has the references that are needed, and a map
that goes away has no reader. -/
theorem Pins.filterMap (h : Pins t K) {f : Map → Option Map}
    (hsome : ∀ m ∈ t.maps, ∀ m', f m = some m' → m'.id = m.id ∧ (L m.id : Int) ≤ m'.dma_handle_refs)
    (hnone : ∀ m ∈ t.maps, f m = none → L m.id = 0) (hle : ∀ id, 0 < L id → 0 < K id) :
    Pins { t with maps := t.maps.filterMap f } L := by
  refine ⟨h.unique.filterMap (fun m hm m' he => (hsome m hm m' he).1), ?_, ?_, ?_⟩
  · intro m' hm'
    obtain ⟨m, hm, he⟩ := List.mem_filterMap.mp hm'
    rw [(hsome m hm m' he).1]
    exact h.fresh m hm
  · intro m' hm'
    obtain ⟨m, hm, he⟩ := List.mem_filterMap.mp hm'
    obtain ⟨h1, h2⟩ := hsome m hm m' he
    rw [h1]
    exact h2
  · intro id hid
    obtain ⟨m, hm, rfl⟩ := h.listed id (hle id hid)
    rcases he : f m with _ | m'
    · have := hnone m hm he
      omega
    · exact ⟨m', List.mem_filterMap.mpr ⟨m, hm, he⟩, (hsome m hm m' he).1⟩

/-- A change of one map that takes no handle reference. -/
theorem Pins.alter (h : Pins t K) {id : Nat} {f : Map → Option Map}
    (hsome : ∀ m m', f m = some m' → m'.id = m.id ∧ m.dma_handle_refs ≤ m'.dma_handle_refs)
    (hnone : ∀ m, f m = none → m.dma_handle_refs = 0) :
    Pins { t with maps := alter Map.id t.maps id f } K := by
  apply h.filterMap (L := K)
  · intro m hm m' he
    have hm := h.le m hm
    split at he
    · obtain ⟨h1, h2⟩ := hsome m m' he
      exact ⟨h1, by omega⟩
    · cases he
      exact ⟨rfl, hm⟩
  · intro m hm he
    have hm := h.le m hm
    split at he
    · have := hnone m he
      omega
    · cases he
  · simp

theorem Pins.update (h : Pins t K) {id : Nat} {f : Map → Map}
    (hf : ∀ m, (f m).id = m.id ∧ m.dma_handle_refs ≤ (f m).dma_handle_refs) :
    Pins { t with maps := update Map.id t.maps id f } K := by
  rw [update_eq_alter]
  apply h.alter
  · intro m m' he
    cases he
    exact hf m
  · intro m he
    cases he

theorem Pins.next (h : Pins t K) {n : Nat} (hn : t.next ≤ n) : Pins { t with next := n } K :=
  ⟨h.unique, fun m hm => Nat.lt_of_lt_of_le (h.fresh m hm) hn, h.le, h.listed⟩

/-- A map of the list that nobody reads. -/
theorem Pins.cons (h : Pins t K) {m : Map} {n : Nat} (hdma : 0 ≤ m.dma_handle_refs)
    (hid : m.id < n) (hn : t.next ≤ n) (hnew : ∀ x ∈ t.maps, x.id ≠ m.id) :
    Pins ⟨m :: t.maps, n⟩ K := by
  have hzero : K m.id = 0 := by
    by_contra hp
    obtain ⟨x, hx, he⟩ := h.listed m.id (by omega)
    exact hnew x hx he
  refine ⟨h.unique.cons hnew, ?_, ?_, ?_⟩
  · intro x hx
    rcases List.mem_cons.mp hx with rfl | hx
    · exact hid
    · exact (h.next hn).fresh x hx
  · intro x hx
    rcases List.mem_cons.mp hx with rfl | hx
    · rw [hzero]
      exact hdma
    · exact h.le x hx
  · intro id hp
    obtain ⟨x, hx, he⟩ := h.listed id hp
    exact ⟨x, List.mem_cons_of_mem _ hx, he⟩

theorem mmap_free_dma {m m' : Map} (h : mmap_free false m = some m') :
    m'.id = m.id ∧ m'.dma_handle_refs = m.dma_handle_refs := by
  rcases mmap_free_cases m with ⟨_, he⟩ | ⟨_, _, _, _, he⟩
  · rw [he] at h
    cases h
    exact ⟨rfl, rfl⟩
  · rw [he] at h
    split at h
    · cases h
    · cases h
      exact ⟨rfl, rfl⟩

theorem Pins.mmap_free (h : Pins t K) (id : Nat) :
    Pins { t with maps := keyed.alter Map.id t.maps id (mmap_free false) } K := by
  apply h.alter
  · intro m m' he
    obtain ⟨h1, h2⟩ := mmap_free_dma he
    exact ⟨h1, by omega⟩
  · intro m he
    exact (mmap_free_none he).2.2

theorem Pins.dropCtx (h : Pins t K) (id : Nat) :
    Pins { t with maps := keyed.alter Map.id t.maps id Map.dropCtx } K := by
  apply h.alter
  · intro m m' he
    obtain ⟨h1, h2⟩ := mmap_free_dma he
    exact ⟨h1, by rw [h2]⟩
  · intro m he
    exact (mmap_free_none he).2.2

theorem Pins.release_buf (h : Pins t K) (p : Option Nat) :
    Pins { t with maps := release_buf t.maps p } K := by
  cases p with
  | none => exact h
  | some id => exact h.dropCtx id

theorem Pins.context_free (h : Pins t K) (bufs : List (Option Nat)) :
    Pins { t with maps := context_free t.maps bufs } K := by
  induction bufs generalizing t with
  | nil => exact h
  | cons p bufs ih => exact ih (h.release_buf p)

theorem Pins.create (h : Pins t K) (sh : AdsprpcShared) (fd : Int) (attr : BitVec 32)
    (va len : BitVec 64) (mflags : BitVec 32) (buf : Option Nat) (env : CreateEnv) :
    Pins (mmap_create .virtio sh t fd attr va len mflags buf env).1 K ∧
      ∀ id, (mmap_create .virtio sh t fd attr va len mflags buf env).2 = .ok id →
        ∃ m ∈ (mmap_create .virtio sh t fd attr va len mflags buf env).1.maps, m.id = id := by
  rcases create_cases .virtio sh t fd attr va len mflags buf env with
    ⟨m, hm, _, he⟩ | ⟨b, _, _, he⟩ | ⟨n, e, hn, he⟩
  · rw [he]
    refine ⟨h.update (f := .addRef) (fun _ => ⟨rfl, Int.le_refl _⟩), ?_⟩
    intro id hid
    cases hid
    exact ⟨m.addRef, mem_update.mpr (Or.inr ⟨m, hm, rfl, rfl⟩), rfl⟩
  · rw [he]
    refine ⟨h.cons (Int.le_refl 0) (Nat.lt_succ_self _) (Nat.le_succ _) ?_, ?_⟩
    · intro x hx
      exact Nat.ne_of_lt (h.fresh x hx)
    · intro id hid
      cases hid
      exact ⟨_, List.mem_cons_self, rfl⟩
  · rw [he]
    exact ⟨h.next hn, fun id hid => by cases hid⟩

end pins

/-! ## The loops over the handles -/

/-- The readers `K` and those of some maps that a call has taken. -/
def plus (K : Nat → Nat) (taken : List Nat) (id : Nat) : Nat := K id + taken.count id

section loops

variable {t : Table} {K : Nat → Nat}

theorem Pins.addDma {taken : List Nat} (h : Pins t (plus K taken)) {id : Nat}
    (hid : ∃ m ∈ t.maps, m.id = id) :
    Pins { t with maps := keyed.update Map.id t.maps id .addDma } (plus K (taken ++ [id])) := by
  have hcount (j : Nat) : plus K (taken ++ [id]) j = plus K taken j + if j = id then 1 else 0 := by
    unfold plus
    rw [List.count_append, List.count_singleton, Nat.add_assoc]
    by_cases hj : j = id
    · simp [hj]
    · simp [hj, Ne.symm hj]
  refine ⟨h.unique.update (fun _ => rfl), ?_, ?_, ?_⟩
  · exact (h.update (f := .addDma) (fun m => ⟨rfl, by simp only [Map.addDma]; omega⟩)).fresh
  · intro m' hm'
    rcases mem_update.mp hm' with ⟨hm, hne⟩ | ⟨m, hm, rfl, rfl⟩
    · rw [hcount, if_neg hne]
      exact h.le m' hm
    · have hle := h.le m hm
      change (plus K (taken ++ [m.id]) m.id : Int) ≤ m.dma_handle_refs + 1
      rw [hcount, if_pos rfl]
      push_cast
      omega
  · intro j hj
    have hex : ∃ m ∈ t.maps, m.id = j := by
      by_cases hji : j = id
      · rw [hji]
        exact hid
      · rw [hcount, if_neg hji] at hj
        exact h.listed j hj
    obtain ⟨m, hm, rfl⟩ := hex
    by_cases hmi : m.id = id
    · exact ⟨m.addDma, mem_update.mpr (Or.inr ⟨m, hm, hmi, rfl⟩), rfl⟩
    · exact ⟨m, mem_update.mpr (Or.inl ⟨hm, hmi⟩), rfl⟩

/-- What is left of a map when a call gives back a reference that it has. -/
theorem dropDma_dma {m m' : Map} (h : m.dropDma = some m') :
    m'.id = m.id ∧ m.dma_handle_refs - 1 ≤ m'.dma_handle_refs := by
  unfold Map.dropDma at h
  split at h
  · cases h
    exact ⟨rfl, by omega⟩
  · obtain ⟨h1, h2⟩ := mmap_free_dma h
    exact ⟨h1, by rw [h2]⟩

theorem dropDma_none {m : Map} (h : m.dropDma = none) : m.dma_handle_refs = 1 := by
  unfold Map.dropDma at h
  split at h
  · cases h
  · have := (mmap_free_none h).2.2
    dsimp only at this
    omega

theorem Pins.undo_handles {taken : List Nat} (h : Pins t (plus K taken)) :
    Pins { t with maps := undo_handles t.maps taken } K := by
  induction taken generalizing t with
  | nil => exact h
  | cons id taken ih =>
    have hcount (j : Nat) : plus K (id :: taken) j = plus K taken j + if j = id then 1 else 0 := by
      unfold plus
      rw [List.count_cons, Nat.add_assoc]
      by_cases hj : j = id
      · simp [hj]
      · simp [hj, Ne.symm hj]
    have hone : Pins { t with maps := keyed.alter Map.id t.maps id Map.dropDma }
      (plus K taken) := by
      apply h.filterMap
      · intro m hm m' he
        have hle := h.le m hm
        rw [hcount] at hle
        split at he
        · rename_i hk
          obtain ⟨h1, h2⟩ := dropDma_dma he
          rw [if_pos hk] at hle
          push_cast at hle
          exact ⟨h1, by omega⟩
        · rename_i hk
          cases he
          rw [if_neg hk] at hle
          exact ⟨rfl, hle⟩
      · intro m hm he
        have hle := h.le m hm
        rw [hcount] at hle
        split at he
        · rename_i hk
          rw [if_pos hk, dropDma_none he] at hle
          push_cast at hle
          omega
        · cases he
      · intro j hj
        rw [hcount]
        omega
    exact ih hone

/-- The loop over the handles pins each map that it returns, and a loop that fails pins none. -/
theorem Pins.get_args_handles {taken : List Nat} (h : Pins t (plus K taken)) (sh : AdsprpcShared)
    (cap : Bool) (fdtable : Int → Option Nat) (as : List Arg) :
    (∀ taken', (get_args_handles .virtio sh cap fdtable t taken as).2 = .ok taken' →
      Pins (get_args_handles .virtio sh cap fdtable t taken as).1 (plus K taken')) ∧
    (∀ e, (get_args_handles .virtio sh cap fdtable t taken as).2 = .error e →
      Pins (get_args_handles .virtio sh cap fdtable t taken as).1 K) := by
  induction as generalizing t taken with
  | nil =>
    refine ⟨?_, ?_⟩
    · intro taken' he
      cases he
      exact h
    · intro e he
      cases he
  | cons a as ih =>
    unfold map_table.get_args_handles
    split
    · exact ih h
    · rename_i fd _
      have hc := h.create sh fd (handleAttr .virtio sh a) 0 0 (handleFlags .virtio sh a)
        (fdtable fd)
        a.env
      split
      · rename_i t' id he
        rw [he] at hc
        exact ih (hc.1.addDma (hc.2 id rfl))
      · rename_i t' e he
        rw [he] at hc
        refine ⟨?_, ?_⟩
        · intro taken' hok
          cases hok
        · intro _ _
          exact hc.1.undo_handles

/-- What is left of a map when its handle references are cleared. -/
theorem clearDma_dma {m m' : Map} (hle : (K m.id : Int) ≤ m.dma_handle_refs)
    (hclear : m.dma_handle_refs ≠ 0 → K m.id = 0) (h : m.clearDma = some m') :
    m'.id = m.id ∧ (K m.id : Int) ≤ m'.dma_handle_refs := by
  unfold Map.clearDma at h
  split at h
  · cases h
    exact ⟨rfl, hle⟩
  · rename_i hd
    obtain ⟨h1, h2⟩ := mmap_free_dma h
    refine ⟨h1, ?_⟩
    rw [h2, hclear hd]
    rfl

/-- The loop over the fds of the DSP, when it spares the maps that are read. -/
theorem Pins.put_args_fdlist (h : Pins t K) {ids : List Nat} (hids : ∀ id, 0 < K id → id ∈ ids)
    (fds : List (BitVec 64)) (hs : Spares ids t.maps fds) :
    Pins { t with maps := fds.foldl put_args_fd t.maps } K := by
  induction fds generalizing t with
  | nil => exact h
  | cons fd fds ih =>
    obtain ⟨hone, hrest⟩ := hs
    have hfd : Pins { t with maps := put_args_fd t.maps fd } K := by
      unfold put_args_fd at hrest ⊢
      split
      · rename_i m hm
        have hmem := (find_ok hm).1
        -- a map that is read has a reference, so it is not the one that is found
        have hclear : m.dma_handle_refs ≠ 0 → K m.id = 0 := by
          intro hd
          by_contra hk
          exact hone m hm hd (hids m.id (by omega))
        apply h.filterMap (L := K)
        · intro x hx x' he
          split at he
          · rename_i hk
            cases h.unique.eq hx hmem hk
            exact clearDma_dma (h.le _ hx) hclear he
          · cases he
            exact ⟨rfl, h.le x hx⟩
        · intro x hx he
          split at he
          · rename_i hk
            cases h.unique.eq hx hmem hk
            unfold Map.clearDma at he
            split at he
            · cases he
            · rename_i hd
              exact hclear hd
          · cases he
        · simp
      · exact h
    exact ih (t := { t with maps := put_args_fd t.maps fd }) hfd hrest

end loops

/-! ## The steps under the lock -/

/-- The map that an unmap call holds has no handle reference. -/
def OffFree (s : Session) : Prop := ∀ m, s.offList = some m → m.dma_handle_refs = 0

section locked

variable {sh : AdsprpcShared} {s t : Session} {K : Nat → Nat}

theorem plus_nil (K : Nat → Nat) : plus K [] = K := by
  funext id
  simp [plus]

theorem Pins.none {t : Table} (h : Pins t K) : Pins t (plus K []) := by
  rw [plus_nil]
  exact h

theorem Pins.get_buf (h : Pins s.table K) (a : Arg) (c : Ctx) :
    Pins (get_buf .virtio sh s a c).table K := by
  unfold map_table.get_buf get_args_buf
  split
  · rename_i t' p he
    split at he
    · cases he
      exact h
    · rename_i fd _
      have hc := h.create sh fd a.attr a.pv a.len 0 (s.fdtable fd) a.env
      split at he
      · rename_i t₁ id hcreate
        cases he
        rw [hcreate] at hc
        exact hc.1.update (f := .addCtx) (fun _ => ⟨rfl, Int.le_refl _⟩)
      · cases he
  · rename_i t' e he
    split at he
    · cases he
    · rename_i fd _
      have hc := h.create sh fd a.attr a.pv a.len 0 (s.fdtable fd) a.env
      split at he
      · cases he
      · rename_i t₁ e₁ hcreate
        cases he
        rw [hcreate] at hc
        exact hc.1

theorem begin_map_pins (h : Pins s.table K) {call : MapCall} {fd : Int} {attr : BitVec 32}
    {va len : BitVec 64} {flags : BitVec 32} {env : CreateEnv}
    (ht : begin_map .virtio sh s call fd attr va len flags env = some t) :
    Pins t.table K ∧ (OffFree s → OffFree t) := by
  have hc := h.create sh fd attr va len flags (s.fdtable fd) env
  obtain ⟨_, ⟨t', id, he, rfl⟩ | ⟨t', e, he, rfl⟩⟩ := begin_map_cases ht
  · rw [he] at hc
    exact ⟨hc.1, fun _ m hm => by cases hm⟩
  · rw [he] at hc
    exact ⟨hc.1, fun hoff => hoff⟩

theorem begin_unmap_pins (h : Pins s.table K) {call : MapCall} {fd : Int} {va len : BitVec 64}
    (ht : begin_unmap sh s call fd va len = some t) : Pins t.table K ∧ (OffFree s → OffFree t) := by
  obtain ⟨_, ⟨m, hm, hrem, rfl⟩ | rfl⟩ := begin_unmap_cases ht
  · have hdma := (removable_iff hrem).2.2
    refine ⟨?_, ?_⟩
    · unfold Session.setMaps
      dsimp only
      rw [remove_eq_alter]
      apply h.filterMap (L := K)
      · intro x hx x' he
        split at he
        · cases he
        · cases he
          exact ⟨rfl, h.le x hx⟩
      · intro x hx he
        split at he
        · rename_i hk
          cases h.unique.eq hx hm hk
          have := h.le _ hx
          omega
        · cases he
      · simp
    · intro _ x hx
      cases hx
      split
      · exact hdma
      · exact hdma
  · exact ⟨h, fun hoff => hoff⟩

theorem remove_fd_pins (h : Pins s.table K) (fd : Int) :
    Pins { s.table with maps := (mmap_remove_fd sh s.table.maps fd).1 } K := by
  apply h.filterMap (L := K)
  · intro m hm m' he
    have hle := h.le m hm
    split at he
    · obtain ⟨h1, h2⟩ := mmap_free_dma he
      exact ⟨h1, by rw [h2]; exact hle⟩
    · cases he
      exact ⟨rfl, hle⟩
  · intro m hm he
    have hle := h.le m hm
    split at he
    · have hdma : m.dma_handle_refs = 0 := (mmap_free_none he).2.2
      omega
    · cases he
  · simp

/-- What a step under the lock leaves: the maps that were read stay, and those that it takes are
pinned too. -/
theorem locked_pins {a : Act} (h : Pins s.table K) (hinv : Inv s) (hoff : OffFree s)
    {ids : List Nat} (hids : ∀ id, 0 < K id → id ∈ ids)
    (hcalm : ∀ c fdlist, a = .put_fdlist c fdlist →
      Spares ids s.table.maps ((fdlist.take M_FDLIST).takeWhile (· ≠ 0)))
    (ht : map_table.step .virtio sh s a = some t) :
    Pins t.table (plus K ((takes sh s a).map Prod.snd)) ∧ OffFree t := by
  cases a with
  | get_handles c cap as =>
    obtain ⟨x, _, _, _, rfl⟩ := onCtx_some ht
    have hh := h.none.get_args_handles sh cap s.fdtable as
    unfold takes map_table.get_handles
    split
    · rename_i t' taken he
      simp only [he] at hh ⊢
      refine ⟨?_, hoff⟩
      rw [List.map_map, show (Prod.snd ∘ fun id => (c, id)) = id from rfl, List.map_id]
      exact hh.1 taken rfl
    · rename_i t' e he
      simp only [he] at hh ⊢
      exact ⟨(hh.2 e rfl).none, hoff⟩
  | set_fd fd buf =>
    cases ht
    exact ⟨h.none, hoff⟩
  | context_alloc inbufs outbufs =>
    cases ht
    exact ⟨h.none, hoff⟩
  | get_buf c a =>
    obtain ⟨x, _, _, _, rfl⟩ := onCtx_some ht
    refine ⟨Pins.none (h.get_buf a x), ?_⟩
    unfold OffFree
    rw [offList_congr (get_buf_op .virtio sh s x a)]
    exact hoff
  | put_buf c i =>
    obtain ⟨x, _, _, _, rfl⟩ := onCtx_some ht
    exact ⟨Pins.none (h.release_buf (x.maps.getD i none)), hoff⟩
  | put_fdlist c fdlist =>
    obtain ⟨x, _, _, _, rfl⟩ := onCtx_some ht
    exact ⟨Pins.none (h.put_args_fdlist hids _ (hcalm c fdlist rfl)), hoff⟩
  | context_free c =>
    obtain ⟨x, _, _, _, rfl⟩ := onCtx_some ht
    exact ⟨Pins.none (h.context_free x.maps), hoff⟩
  | mmap fd va len flags env =>
    obtain ⟨h1, h2⟩ := begin_map_pins h ht
    exact ⟨h1.none, h2 hoff⟩
  | mem_map fd attrs va len flags env =>
    obtain ⟨h1, h2⟩ := begin_map_pins h ht
    exact ⟨h1.none, h2 hoff⟩
  | map_done raddr =>
    obtain ⟨call, id, _, _, rfl⟩ := step_map_done ht
    have hm := @Pins.update _ _ h id (.mapped .virtio call raddr) (fun _ => ⟨rfl, Int.le_refl _⟩)
    exact ⟨hm.none, fun m hm => by cases hm⟩
  | map_fail =>
    obtain ⟨call, id, _, rfl⟩ := step_map_fail ht
    exact ⟨Pins.none (h.mmap_free id), fun m hm => by cases hm⟩
  | munmap vaddrout size =>
    obtain ⟨h1, h2⟩ := begin_unmap_pins h ht
    exact ⟨h1.none, h2 hoff⟩
  | mem_unmap fd vaddr len =>
    obtain ⟨h1, h2⟩ := begin_unmap_pins h ht
    exact ⟨h1.none, h2 hoff⟩
  | unmap_done =>
    obtain ⟨call, m, _, _, rfl⟩ := step_unmap_done ht
    exact ⟨h.none, fun m hm => by cases hm⟩
  | unmap_fail =>
    obtain ⟨call, m, hop, rfl⟩ := step_unmap_fail ht
    refine ⟨?_, fun m hm => by cases hm⟩
    apply Pins.none
    have hm := offList_unmapping hop
    obtain ⟨hlt, hnot⟩ := hinv.exact.apart m.id (by rw [hm]; rfl)
    have hid := (readded_eq sh call m).1
    unfold vfastrpc_mmap_add
    split
    · exact h
    · apply h.cons
      · unfold readded
        split <;> exact (hoff m hm).ge
      · rw [hid]
        exact hlt
      · exact Nat.le_refl _
      · rw [hid]
        exact hnot
  | munmap_fd fd =>
    obtain ⟨_, rfl⟩ := step_munmap_fd ht
    exact ⟨Pins.none (remove_fd_pins h fd), hoff⟩

end locked

/-! ## Every run -/

/-- The get_args calls that have still to encode a map. -/
def readers (s : State) (id : Nat) : Nat := (s.pending.map Prod.snd).count id

structure Pinned (s : State) : Prop where
  inv : Inv s.session
  pins : Pins s.session.table (readers s)
  off : OffFree s.session
  log : ∀ r ∈ s.log, r.map.isSome

theorem pinned_init (fdtable : Int → Option Nat) : Pinned (init fdtable) where
  inv := inv_init fdtable
  pins := ⟨List.nodup_nil, by simp [init, map_table.init], by simp [init, map_table.init],
    by simp [init, readers]⟩
  off := by
    intro m hm
    cases hm
  log := by simp [init]

/-- Fewer readers need fewer references. -/
theorem Pins.mono {t : Table} {K K' : Nat → Nat} (h : Pins t K) (hle : ∀ id, K' id ≤ K id) :
    Pins t K' := by
  refine ⟨h.unique, h.fresh, ?_, ?_⟩
  · intro m hm
    have h1 := h.le m hm
    have h2 := hle m.id
    omega
  · intro id hid
    exact h.listed id (Nat.lt_of_lt_of_le hid (hle id))

theorem Pinned.drop {s : State} (h : Pinned s) {pending : List (Nat × Nat)}
    (hsub : pending.Sublist s.pending) : Pinned { s with pending } where
  inv := h.inv
  pins := h.pins.mono (fun id => (hsub.map Prod.snd).count_le id)
  off := h.off
  log := h.log

/-- A map that is still to be read is there. -/
theorem Pinned.alive {s : State} (h : Pinned s) {p : Nat × Nat} (hp : p ∈ s.pending) :
    (lookup Map.id (alive s.session) p.2).isSome := by
  have hpos : 0 < readers s p.2 := List.count_pos_iff.mpr (List.mem_map_of_mem hp)
  obtain ⟨m, hm, he⟩ := h.pins.listed p.2 hpos
  rw [Option.isSome_iff_ne_none]
  intro hnone
  exact lookup_eq_none.mp hnone m (List.mem_append_left _ hm) he

theorem pointers_failed (ctxs : List Ctx) (c : Nat) :
    pointers (update Ctx.id ctxs c (.goto .failed)) = pointers ctxs := by
  funext j
  unfold pointers weight update
  rw [List.map_map]
  congr 1
  apply List.map_congr_left
  intro x _
  simp only [Function.comp_apply]
  split <;> rfl

/-- A step that clears no reference of a map that is still to be encoded. -/
theorem step_pinned (sh : AdsprpcShared) (s : State) (a : Step) (t : State) (h : Pinned s)
    (hc : Calm s a) (ht : step sh s a = some t) : Pinned t := by
  cases a with
  | locked a =>
    simp only [step] at ht
    split at ht
    · cases ht
    · obtain ⟨u, hu, rfl⟩ := Option.map_eq_some_iff.mp ht
      have hids (id : Nat) (hid : 0 < readers s id) : id ∈ s.pending.map Prod.snd :=
        List.count_pos_iff.mp hid
      have hcalm : ∀ c fdlist, a = .put_fdlist c fdlist → Spares (s.pending.map Prod.snd)
          s.session.table.maps ((fdlist.take M_FDLIST).takeWhile (· ≠ 0)) := by
        rintro c fdlist rfl
        exact hc
      obtain ⟨hpins, hoff⟩ := locked_pins h.pins h.inv h.off hids hcalm hu
      refine ⟨step_inv .virtio sh s.session a u h.inv hu, ?_, hoff, h.log⟩
      apply hpins.mono
      intro id
      simp [readers, plus]
  | read c =>
    obtain ⟨p, hp, rfl⟩ := Option.map_eq_some_iff.mp ht
    refine ⟨h.inv, h.pins, h.off, ?_⟩
    intro r hr
    rcases List.mem_append.mp hr with hr | hr
    · exact h.log r hr
    · rw [List.mem_singleton.mp hr]
      exact h.alive (List.mem_of_find?_eq_some hp)
  | next c =>
    obtain ⟨p, _, rfl⟩ := Option.map_eq_some_iff.mp ht
    exact h.drop List.eraseP_sublist
  | bail c =>
    simp only [step] at ht
    split at ht
    · cases ht
      have hdrop := h.drop (List.filter_sublist (p := fun x => x.1 != c))
      refine ⟨?_, hdrop.pins, hdrop.off, hdrop.log⟩
      apply h.inv.setCtx
      · intro _
        rfl
      · rw [pointers_failed]
        exact h.inv.exact
    · cases ht

/-- In a run whose completions clear no handle reference of a map that a get_args has still to
encode, every read of a handle map finds the map. -/
theorem handle_maps_are_alive_while_encoded (sh : AdsprpcShared) {fdtable : Int → Option Nat}
    {s : State} (h : ReachableUnder (step sh) Calm (init fdtable) s) :
    ∀ r ∈ s.log, r.map.isSome :=
  (h.inv Pinned (step_pinned sh) (pinned_init fdtable)).log

/-- A handle argument of the fd `fd`. -/
def handle (fd : Int) : Arg := ⟨0, 0, some fd, 0, allOk⟩

/-- A completion of a second call that returns another fd. -/
theorem an_other_fd_leaves_the_map :
    ∃ s, run (step sampleShared) (init (fun _ => some 1))
        [.locked (.context_alloc 0 0), .locked (.get_handles 0 false [handle 5]),
          .locked (.context_alloc 0 0), .locked (.get_handles 1 false []),
          .locked (.put_fdlist 1 [6]), .read 0] = some s ∧
      s.log.map Read.id = [0] ∧ ∀ r ∈ s.log, r.map.isSome := by
  have hrun : run (step sampleShared) (init (fun _ => some 1))
      [.locked (.context_alloc 0 0), .locked (.get_handles 0 false [handle 5]),
        .locked (.context_alloc 0 0), .locked (.get_handles 1 false []),
        .locked (.put_fdlist 1 [6]), .read 0] = some _ := rfl
  refine ⟨_, hrun, by decide, handle_maps_are_alive_while_encoded sampleShared ⟨_, ?_, hrun⟩⟩
  refine Meets.cons trivial rfl (Meets.cons trivial rfl (Meets.cons trivial rfl
    (Meets.cons trivial rfl (Meets.cons ?_ rfl (Meets.cons trivial rfl trivial)))))
  refine ⟨?_, trivial⟩
  intro m hm
  cases hm

/-- The second call returns the fd of the handle, and its map is freed before get_args of the first
call reads it. -/
theorem a_handle_map_is_read_after_its_end :
    ∃ s, run (step sampleShared) (init (fun _ => some 1))
        [.locked (.context_alloc 0 0), .locked (.get_handles 0 false [handle 5]),
          .locked (.context_alloc 0 0), .locked (.get_handles 1 false []),
          .locked (.put_fdlist 1 [5]), .read 0] = some s ∧
      ¬ ∀ r ∈ s.log, r.map.isSome := by
  exact ⟨_, rfl, by decide⟩

end virtual_fastrpc.handle_reads
