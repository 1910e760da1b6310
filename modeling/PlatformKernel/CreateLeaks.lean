-- What a failed creation of a map leaves behind: vfastrpc_mmap_create and
-- hfastrpc_mmap_create take a map object, a reference to the dma-buf, an
-- attachment and a table one after the other, and free the map on their error
-- exit.
import PlatformKernel.MapTable

namespace virtual_fastrpc.create_leaks

open keyed map_table

/-! ## Map objects and what they hold -/

/-- A live `struct vfastrpc_mmap`, on `fl->maps` or not. What it holds of its dma-buf is null
until it is taken: `buf` names the dma-buf, and `attach` and `table` the object that they were
made for. -/
structure Object where
  map : Map
  buf : Option Nat
  attach : Option Nat
  table : Option Nat
  listed : Bool
  deriving DecidableEq, Repr

/-- The kernel as the maps of a session use it: the live objects, newest first, the references to
dma-bufs that are held, the attachments, the sg tables, and the name of the next object. -/
structure Kernel where
  live : List Object
  bufs : List Nat
  attachs : List Nat
  tables : List Nat
  next : Nat
  deriving DecidableEq, Repr

/-- `fl->maps`. -/
def Kernel.maps (k : Kernel) : List Map :=
  (k.live.filter Object.listed).map Object.map

/-- The end of both free routines: what the object holds is given back, and the object goes. -/
def release (k : Kernel) (o : Object) : Kernel :=
  let k := match o.table with
    | some n => { k with tables := k.tables.erase n }
    | none => k
  let k := match o.attach with
    | some n => { k with attachs := k.attachs.erase n }
    | none => k
  match o.buf with
  | some b => { k with bufs := k.bufs.erase b }
  | none => k

/-- vfastrpc_mmap_free and hfastrpc_mmap_free of an object besides those of `k`. -/
def object_free (k : Kernel) (o : Object) : Kernel :=
  match mmap_free false o.map with
  | some m => { k with live := { o with map := m } :: k.live }
  | none => release k o

/-- The object that kzalloc gives, with the fields that are set at once. -/
def newObject (sh : AdsprpcShared) (id : Nat) (fd : Int) (attr : BitVec 32) (va len : BitVec 64)
    (mflags : BitVec 32) (buf : Nat) : Object :=
  ⟨{ newMap sh id fd attr va len mflags buf with refs := 1 }, none, none, none, false⟩

/-- The reference of FASTRPC_ATTR_KEEP_MAP. -/
def Object.keepRef (sh : AdsprpcShared) (o : Object) : Object :=
  if o.map.keep sh then { o with map := { o.map with refs := 2 } } else o

/-- The object is found and gets a reference. -/
def Kernel.addRef (k : Kernel) (id : Nat) : Kernel :=
  { k with live := k.live.map fun o =>
      if o.listed = true ∧ o.map.id = id then { o with map := o.map.addRef } else o }

/-- The SMMU mapping, which only the hybrid driver makes. -/
def smmu_ok (d : Driver) (env : CreateEnv) : Bool := d != .hybrid || env.virt_smmu_map

/-- vfastrpc_mmap_create and hfastrpc_mmap_create. The argument `buf` is what dma_buf_get gives for
`fd`. -/
def mmap_create (d : Driver) (sh : AdsprpcShared) (k : Kernel) (fd : Int) (attr : BitVec 32)
    (va len : BitVec 64) (mflags : BitVec 32) (buf : Option Nat) (env : CreateEnv) :
    Kernel × Except Errno Nat :=
  match vfastrpc_mmap_find_ref k.maps fd va len mflags with
  | .ok (id, _) => (k.addRef id, .ok id)
  | .error _ =>
    if !env.kzalloc then (k, .error .VERIFY)
    else
      let id := k.next
      let o := newObject sh id fd attr va len mflags (buf.getD 0)
      let k := { k with next := k.next + 1 }
      if isHeap mflags then (object_free k o, .error .EINVAL)
      else
        let o := o.keepRef sh
        match buf with
        | none => (object_free k o, .error .VERIFY)
        | some b =>
          let o := { o with buf := some b }
          let k := { k with bufs := b :: k.bufs }
          if !env.dma_buf_attach then (object_free k o, .error .VERIFY)
          else
            let o := { o with attach := some id }
            let k := { k with attachs := id :: k.attachs }
            if !env.dma_buf_map_attachment then (object_free k o, .error .VERIFY)
            else
              let o := { o with table := some id }
              let k := { k with tables := id :: k.tables }
              if !smmu_ok d env then (object_free k o, .error .VERIFY)
              else ({ k with live := { o with listed := true } :: k.live }, .ok id)

/-! ## The maps of the session -/

section maps

variable {d : Driver} {sh : AdsprpcShared} {k : Kernel} {o : Object}

theorem release_live (k : Kernel) (o : Object) : (release k o).live = k.live := by
  unfold release
  rcases o.table with _ | n <;> rcases o.attach with _ | m <;> rcases o.buf with _ | b <;> rfl

/-- An object that is on no list is not among the maps, whether it stays or goes. -/
theorem object_free_maps (h : o.listed = false) : (object_free k o).maps = k.maps := by
  unfold object_free
  split
  · simp [Kernel.maps, h]
  · simp [Kernel.maps, release_live]

theorem addRef_maps (k : Kernel) (id : Nat) :
    (k.addRef id).maps = update Map.id k.maps id .addRef := by
  unfold Kernel.maps Kernel.addRef update
  induction k.live with
  | nil => rfl
  | cons o l ih =>
    by_cases hl : o.listed = true
    · by_cases hid : o.map.id = id <;> simp_all
    · simp_all

/-- The new object after its references are set holds the new map of the table. -/
theorem keepRef_newObject (sh : AdsprpcShared) (id : Nat) (fd : Int) (attr : BitVec 32)
    (va len : BitVec 64) (mflags : BitVec 32) (b : Nat) :
    (newObject sh id fd attr va len mflags b).keepRef sh =
      ⟨newMap sh id fd attr va len mflags b, none, none, none, false⟩ := by
  unfold Object.keepRef newObject newMap Map.keep
  dsimp only
  split <;> simp_all

/-- The maps of the session and the result are those of the map table. -/
theorem mmap_create_refines (d : Driver) (sh : AdsprpcShared) (k : Kernel) (fd : Int)
    (attr : BitVec 32) (va len : BitVec 64) (mflags : BitVec 32) (buf : Option Nat)
    (env : CreateEnv) :
    (mmap_create d sh k fd attr va len mflags buf env).1.maps =
        (map_table.mmap_create d sh ⟨k.maps, k.next⟩ fd attr va len mflags buf env).1.maps ∧
      (mmap_create d sh k fd attr va len mflags buf env).2 =
        (map_table.mmap_create d sh ⟨k.maps, k.next⟩ fd attr va len mflags buf env).2 := by
  unfold mmap_create map_table.mmap_create
  cases hf : vfastrpc_mmap_find_ref k.maps fd va len mflags with
  | ok r =>
    obtain ⟨id, maps⟩ := r
    obtain ⟨m, _, _, rfl, rfl⟩ := find_ref_ok hf
    exact ⟨addRef_maps k m.id, rfl⟩
  | error e =>
    dsimp only
    split
    · exact ⟨rfl, rfl⟩
    split
    · exact ⟨object_free_maps rfl, rfl⟩
    rw [keepRef_newObject]
    cases buf with
    | none => exact ⟨object_free_maps rfl, rfl⟩
    | some b =>
      dsimp only [Option.getD_some]
      split
      · exact ⟨object_free_maps rfl, rfl⟩
      split
      · exact ⟨object_free_maps rfl, rfl⟩
      have hsmmu : (!smmu_ok d env) = (d == .hybrid && !env.virt_smmu_map) := by
        cases d <;> rfl
      rw [hsmmu]
      split
      · exact ⟨object_free_maps rfl, rfl⟩
      · simp [Kernel.maps]

end maps

/-! ## What an error leaves -/

section errors

variable {d : Driver} {sh : AdsprpcShared} {k k' : Kernel} {o : Object}

/-- The live objects and what is held of the dma-bufs are the same. -/
structure Unchanged (k k' : Kernel) : Prop where
  live : k'.live.Perm k.live
  bufs : k'.bufs.Perm k.bufs
  attachs : k'.attachs.Perm k.attachs
  tables : k'.tables.Perm k.tables

theorem Unchanged.refl (k : Kernel) : Unchanged k k :=
  ⟨.refl _, .refl _, .refl _, .refl _⟩

/-- The kernel `k'` is `k` and what the object `o` holds, which is not yet live. -/
structure Taken (k : Kernel) (o : Object) (k' : Kernel) : Prop where
  live : k'.live = k.live
  bufs : k'.bufs = o.buf.toList ++ k.bufs
  attachs : k'.attachs = o.attach.toList ++ k.attachs
  tables : k'.tables = o.table.toList ++ k.tables

/-- A release gives back what the object holds, whatever that is. -/
theorem release_taken (h : Taken k o k') : Unchanged k (release k' o) := by
  obtain ⟨hl, hb, ha, ht⟩ := h
  unfold release
  rcases o with ⟨m, _ | b, _ | n, _ | t, listed⟩ <;>
    constructor <;> simp_all

/-- The error exit undoes the creation just when it frees the object. -/
theorem object_free_unchanged (h : Taken k o k') :
    Unchanged k (object_free k' o) ↔ mmap_free false o.map = none := by
  unfold object_free
  constructor
  · intro hu
    split at hu
    · have hlen := hu.live.length_eq
      simp [h.live] at hlen
    · assumption
  · intro hf
    rw [hf]
    exact release_taken h

/-- An object that creation made, with what it has taken by then. -/
theorem mmap_create_error {fd : Int} {attr : BitVec 32} {va len : BitVec 64} {mflags : BitVec 32}
    {buf : Option Nat} {env : CreateEnv} {e : Errno}
    (h : mmap_create d sh k fd attr va len mflags buf env = (k', .error e)) :
    (env.kzalloc = false ∧ k' = k) ∨
    (env.kzalloc = true ∧ ∃ o k₁, k' = object_free k₁ o ∧ Taken k o k₁ ∧ o.map.flags = mflags ∧
      (isHeap mflags = false → o.map = newMap sh k.next fd attr va len mflags (buf.getD 0))) := by
  unfold mmap_create at h
  split at h
  · cases h
  split at h
  · rename_i hk
    cases h
    exact Or.inl ⟨by simpa using hk, rfl⟩
  rename_i hk
  refine Or.inr ⟨by simpa using hk, ?_⟩
  dsimp only at h
  split at h
  · rename_i hheap
    cases h
    exact ⟨_, _, rfl, ⟨rfl, rfl, rfl, rfl⟩, rfl, by simp [hheap]⟩
  rw [keepRef_newObject] at h
  split at h
  · cases h
    exact ⟨_, _, rfl, ⟨rfl, rfl, rfl, rfl⟩, rfl, fun _ => rfl⟩
  dsimp only at h
  split at h
  · cases h
    exact ⟨_, _, rfl, ⟨rfl, rfl, rfl, rfl⟩, rfl, fun _ => rfl⟩
  split at h
  · cases h
    exact ⟨_, _, rfl, ⟨rfl, rfl, rfl, rfl⟩, rfl, fun _ => rfl⟩
  split at h
  · cases h
    exact ⟨_, _, rfl, ⟨rfl, rfl, rfl, rfl⟩, rfl, fun _ => rfl⟩
  · cases h

/-- The free routine frees a map that it finds with the references of a new one just when there
is one of them. -/
theorem mmap_free_newMap (sh : AdsprpcShared) (id : Nat) (fd : Int) (attr : BitVec 32)
    (va len : BitVec 64) {mflags : BitVec 32} (b : Nat) (hheap : isHeap mflags = false) :
    mmap_free false (newMap sh id fd attr va len mflags b) = none ↔ keepAttr sh attr = false := by
  constructor
  · intro h
    have hrefs := (mmap_free_none h).1
    by_contra hk
    simp [newMap, hk] at hrefs
  · intro hk
    simp [mmap_free, newMap, hheap, hk]

theorem mmap_free_heap {m : Map} (h : isHeap m.flags = true) : mmap_free false m = some m := by
  simp [mmap_free, h]

/-- A creation that fails leaves the live maps and what is held of the dma-bufs as they were, just
when it had no object yet, or one with the one reference that its error exit drops. -/
theorem a_failed_creation_leaks_nothing_iff {fd : Int} {attr : BitVec 32} {va len : BitVec 64}
    {mflags : BitVec 32} {buf : Option Nat} {env : CreateEnv} {e : Errno}
    (h : mmap_create d sh k fd attr va len mflags buf env = (k', .error e)) :
    Unchanged k k' ↔
      env.kzalloc = false ∨ (isHeap mflags = false ∧ keepAttr sh attr = false) := by
  rcases mmap_create_error h with ⟨hk, rfl⟩ | ⟨hk, o, k₁, rfl, htaken, hflags, hmap⟩
  · simp [hk, Unchanged.refl]
  rw [object_free_unchanged htaken]
  cases hheap : isHeap mflags with
  | true =>
    have hfree : mmap_free false o.map = some o.map := by
      apply mmap_free_heap
      rw [hflags, hheap]
    simp [hk, hfree]
  | false =>
    rw [hmap hheap, mmap_free_newMap sh _ fd attr va len _ hheap]
    simp [hk]

end errors

/-- A kernel without maps. -/
def noMaps : Kernel := ⟨[], [], [], [], 0⟩

/-- The device cannot be attached to the dma-buf. -/
def noAttach : CreateEnv := ⟨true, false, true, true⟩

/-- A map with no attribute is freed when the attach fails. -/
theorem a_failed_attach_leaks_nothing :
    ∃ k', mmap_create .hybrid sampleShared noMaps 5 0 0x1000 4096 0 (some 1) noAttach =
      (k', .error .VERIFY) ∧ Unchanged noMaps k' := by
  refine ⟨_, rfl, ?_⟩
  have he : mmap_create .hybrid sampleShared noMaps 5 0 0x1000 4096 0 (some 1) noAttach =
    (_, .error .VERIFY) := rfl
  exact (a_failed_creation_leaks_nothing_iff he).mpr (Or.inr ⟨rfl, rfl⟩)

/-- With FASTRPC_ATTR_KEEP_MAP the same failure leaves the object, with one of its two references,
and its reference to the dma-buf, on no list that could find them. -/
theorem a_failed_kept_map_stays :
    ∃ k', mmap_create .hybrid sampleShared noMaps 5 sampleShared.FASTRPC_ATTR_KEEP_MAP
        0x1000 4096 0 (some 1) noAttach = (k', .error .VERIFY) ∧
      k'.live.map (fun o => (o.map.refs, o.buf, o.listed)) = [(1, some 1, false)] ∧
      k'.bufs = [1] ∧ k'.maps = [] ∧ ¬ Unchanged noMaps k' := by
  refine ⟨_, rfl, rfl, rfl, rfl, ?_⟩
  intro hu
  exact absurd hu.live.length_eq (by decide)

end virtual_fastrpc.create_leaks
