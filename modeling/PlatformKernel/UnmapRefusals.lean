-- What a refused unmap leaves: munmap and mem_unmap take a map off the list
-- before the backend is asked, and put it back when the backend says no or the
-- kind of the map is a wrong one.
import PlatformKernel.MapRuns

namespace virtual_fastrpc.unmap_refusals

open keyed step_runs map_table

/-! ## The requests -/

/-- A request to unmap: hfastrpc_munmap and vfastrpc_internal_munmap, or hfastrpc_mem_unmap and
vfastrpc_internal_mem_unmap. -/
inductive Request
  | munmap (vaddrout size : BitVec 64)
  | mem_unmap (fd : Int) (vaddr length : BitVec 64)
  deriving DecidableEq, Repr

def Request.act : Request → Act
  | .munmap vaddrout size => .munmap vaddrout size
  | .mem_unmap fd vaddr length => .mem_unmap fd vaddr length

def Request.call : Request → MapCall
  | .munmap _ _ => .mmap
  | .mem_unmap _ _ _ => .mem_map

/-- The map that vfastrpc_mmap_remove takes, as it is before that. -/
def Request.target (sh : AdsprpcShared) (maps : List Map) : Request → Option Map
  | .munmap vaddrout size => maps.find? (removable sh (-1) vaddrout size)
  | .mem_unmap fd vaddr length => maps.find? (removable sh fd vaddr length)

/-- A request that takes a map off the list and then fails. -/
def refused (d : Driver) (sh : AdsprpcShared) (s : Session) (r : Request) : Option Session :=
  run (step d sh) s [r.act, .unmap_fail]

/-- The map as vfastrpc_mmap_remove leaves it. -/
def taken (sh : AdsprpcShared) (m : Map) : Map :=
  if m.keep sh then { m with refs := m.refs - 1 } else m

/-- A request leaves the map as it was when it is put back: it comes to the list again, and its
reference to be kept is not lost. -/
def GivesBack (sh : AdsprpcShared) (r : Request) (m : Map) : Prop :=
  isHeap m.flags = false ∧ (m.keep sh = true → r.call = .mem_map)

/-! ## What is put back -/

section refusals

variable {d : Driver} {sh : AdsprpcShared} {s t : Session} {r : Request} {m : Map}

theorem taken_id (sh : AdsprpcShared) (m : Map) : (taken sh m).id = m.id := by
  unfold taken
  split <;> rfl

theorem taken_flags (sh : AdsprpcShared) (m : Map) : (taken sh m).flags = m.flags := by
  unfold taken
  split <;> rfl

theorem taken_keep (sh : AdsprpcShared) (m : Map) : (taken sh m).keep sh = m.keep sh := by
  unfold taken
  split <;> rfl

theorem begin_unmap_eq {call : MapCall} {fd : Int} {va len : BitVec 64} (hidle : s.op = none) :
    begin_unmap sh s call fd va len =
      match s.table.maps.find? (removable sh fd va len) with
      | some m => some { s.setMaps (remove Map.id s.table.maps m.id) with
          op := some (.unmapping call (taken sh m)) }
      | none => some s := by
  unfold begin_unmap vfastrpc_mmap_remove
  rw [hidle]
  rcases s.table.maps.find? (removable sh fd va len) with _ | m <;> rfl

theorem step_act (hidle : s.op = none) :
    step d sh s r.act =
      match r.target sh s.table.maps with
      | some m => some { s.setMaps (remove Map.id s.table.maps m.id) with
          op := some (.unmapping r.call (taken sh m)) }
      | none => some s := by
  cases r <;> exact begin_unmap_eq hidle

/-- A refused request has taken a map, and puts it on the list. -/
theorem refused_eq (h : refused d sh s r = some t) :
    ∃ m, r.target sh s.table.maps = some m ∧
      t.table.maps = vfastrpc_mmap_add (remove Map.id s.table.maps m.id)
        (readded sh r.call (taken sh m)) := by
  have hidle : s.op = none := by
    obtain ⟨s₁, h₁, _⟩ := Option.bind_eq_some_iff.mp h
    by_contra hop
    have hsome : s.op.isSome = true := Option.isSome_iff_ne_none.mpr hop
    cases r <;> simp [step, Request.act, begin_unmap, hsome] at h₁
  unfold refused at h
  rw [run_cons, step_act hidle] at h
  rcases hm : r.target sh s.table.maps with _ | m
  · simp [hm, step, hidle, run] at h
  · rw [hm] at h
    cases h
    exact ⟨m, rfl, rfl⟩

theorem target_mem (h : r.target sh s.table.maps = some m) : m ∈ s.table.maps := by
  cases r <;> exact List.mem_of_find?_eq_some h

theorem readded_taken (sh : AdsprpcShared) (r : Request) (m : Map) :
    readded sh r.call (taken sh m) = m ↔ (m.keep sh = true → r.call = .mem_map) := by
  unfold readded
  rw [taken_keep]
  by_cases hk : m.keep sh = true
  · by_cases hc : r.call = .mem_map
    · simp [hk, hc, taken, Map.addRef]
    · simp only [hc, hk, and_true, if_false, forall_const, iff_false]
      intro he
      have := congrArg Map.refs he
      simp only [taken, hk, if_true] at this
      omega
  · simp [hk, taken]

/-- A refused request leaves the maps that there were, each with all its fields, if and only if the
map that it has taken is given back. -/
theorem a_refused_unmap_changes_nothing_iff (hu : Unique Map.id s.table.maps)
    (h : refused d sh s r = some t) :
    t.table.maps.Perm s.table.maps ↔
      ∀ m, r.target sh s.table.maps = some m → GivesBack sh r m := by
  obtain ⟨m, hm, hmaps⟩ := refused_eq h
  have hmem := target_mem hm
  have hperm : s.table.maps.Perm (m :: remove Map.id s.table.maps m.id) :=
    perm_remove hu (lookup_of_mem hu hmem)
  have hflags : (readded sh r.call (taken sh m)).flags = m.flags := by
    rw [← taken_flags sh m]
    unfold readded
    split <;> rfl
  have hid : (readded sh r.call (taken sh m)).id = m.id := by
    rw [← taken_id sh m]
    unfold readded
    split <;> rfl
  have hall : (∀ m', r.target sh s.table.maps = some m' → GivesBack sh r m') ↔
    GivesBack sh r m := by
    simp [hm]
  rw [hall, hmaps]
  unfold GivesBack vfastrpc_mmap_add
  rw [hflags]
  by_cases hh : isHeap m.flags = true
  · -- such a map does not come to the list
    have hlen := hperm.length_eq
    rw [List.length_cons] at hlen
    simp only [hh, if_true, Bool.true_eq_false, false_and, iff_false]
    intro hp
    have := hp.length_eq
    omega
  · simp only [hh, Bool.false_eq_true, if_false, true_and]
    rw [← readded_taken]
    constructor
    · intro hp
      have hin := (hp.trans hperm).mem_iff.mp List.mem_cons_self
      rcases List.mem_cons.mp hin with he | he
      · exact he
      · exact absurd hid (mem_remove.mp he).2
    · intro he
      rw [he]
      exact hperm.symm

end refusals

/-- A session with a map that is kept and has one owner besides. -/
def keptSession : Session :=
  { init (fun _ => some 1) with
    table := ⟨[{ newMap sampleShared 0 5 sampleShared.FASTRPC_ATTR_KEEP_MAP 0x1000 4096 0 1 with
      raddr := 0x7000 }], 1⟩ }

/-- mem_unmap gives the reference back. -/
theorem a_refused_mem_unmap_gives_back :
    ∃ t, refused .virtio sampleShared keptSession (.mem_unmap 5 0x7000 4096) = some t ∧
      t.table.maps.Perm keptSession.table.maps := by
  obtain ⟨t, ht⟩ : ∃ t, refused .virtio sampleShared keptSession (.mem_unmap 5 0x7000 4096) =
    some t := ⟨_, rfl⟩
  have hu : Unique Map.id keptSession.table.maps := List.nodup_singleton _
  refine ⟨t, ht, ?_⟩
  apply (a_refused_unmap_changes_nothing_iff hu ht).mpr
  intro m hm
  cases hm
  exact ⟨rfl, fun _ => rfl⟩

/-- munmap of the same map does not: it has one reference less after the refusal. -/
theorem a_refused_munmap_loses_a_reference :
    ∃ t, refused .hybrid sampleShared keptSession (.munmap 0x7000 4096) = some t ∧
      keptSession.table.maps.map Map.refs = [2] ∧ t.table.maps.map Map.refs = [1] ∧
      ¬ t.table.maps.Perm keptSession.table.maps := by
  refine ⟨_, rfl, rfl, rfl, ?_⟩
  decide

end virtual_fastrpc.unmap_refusals
