-- mmap of a user buffer and the munmap that follows it. mmap makes a map or
-- joins one that it finds, and writes the address of the DSP into it. munmap
-- takes a map only when it is the map's last owner.
import PlatformKernel.MapRuns

namespace virtual_fastrpc.mmap_undo

open keyed step_runs map_table

/-! ## The two calls -/

/-- A buffer of `fl->remote_bufs`. -/
structure RemoteBuf where
  /-- Its flags are `ADSP_MMAP_ADD_PAGES`, or in the hybrid driver `ADSP_MMAP_ADD_PAGES_LLC`. -/
  add_pages : Bool
  raddr : BitVec 64
  size : BitVec 64
  deriving DecidableEq, Repr

/-- munmap frees such a buffer and looks for no map. -/
def RemoteBuf.unmaps (vaddrout size : BitVec 64) (b : RemoteBuf) : Bool :=
  b.raddr != 0 && b.add_pages && b.raddr == vaddrout && b.size == size

/-- hfastrpc_mmap and vfastrpc_internal_mmap of a user buffer, when the DSP answers with `raddr`:
the session they leave, or nothing when they fail. -/
def mmap (d : Driver) (sh : AdsprpcShared) (s : Session) (fd : Int) (vaddrin size : BitVec 64)
    (flags : BitVec 32) (env : CreateEnv) (raddr : BitVec 64) : Option Session :=
  run (step d sh) s [.mmap fd vaddrin size flags env, .map_done raddr]

/-- hfastrpc_munmap and vfastrpc_internal_munmap, when the DSP accepts: the session and the remote
buffers they leave, or nothing when they fail. -/
def munmap (d : Driver) (sh : AdsprpcShared) (s : Session) (remote_bufs : List RemoteBuf)
    (vaddrout size : BitVec 64) : Option (Session × List RemoteBuf) :=
  match remote_bufs.find? (RemoteBuf.unmaps vaddrout size) with
  | some b => some (s, remote_bufs.erase b)
  | none => (run (step d sh) s [.munmap vaddrout size, .unmap_done]).map (fun t => (t, remote_bufs))

/-- No map and no remote buffer has the address. -/
def Fresh (s : Session) (remote_bufs : List RemoteBuf) (raddr : BitVec 64) : Prop :=
  (∀ m ∈ s.table.maps, m.raddr ≠ raddr) ∧ ∀ b ∈ remote_bufs, b.raddr ≠ raddr

/-- munmap succeeds and leaves the maps and the remote buffers as they were before mmap. -/
def Undone (d : Driver) (sh : AdsprpcShared) (s s' : Session) (remote_bufs : List RemoteBuf)
    (vaddrout size : BitVec 64) : Prop :=
  ∃ t, munmap d sh s' remote_bufs vaddrout size = some (t, remote_bufs) ∧
    t.table.maps = s.table.maps ∧ t.op = s.op

/-! ## The laws -/

section laws

variable {d : Driver} {sh : AdsprpcShared} {s t : Session} {remote_bufs : List RemoteBuf} {fd : Int}
  {va len raddr : BitVec 64} {flags : BitVec 32} {env : CreateEnv}

/-- What mmap leaves: the map with the address of the DSP. -/
theorem mmap_some (h : mmap d sh s fd va len flags env raddr = some t) :
    s.op = none ∧ ∃ t₁ id, mmap_create d sh s.table fd 0 va len flags (s.fdtable fd) env =
      (t₁, .ok id) ∧
      t = { s with table :=
        { t₁ with maps := update Map.id t₁.maps id (.mapped d .mmap raddr) } } := by
  unfold mmap at h
  obtain ⟨s₁, h₁, h⟩ := Option.bind_eq_some_iff.mp h
  obtain ⟨s₂, h₂, h⟩ := Option.bind_eq_some_iff.mp h
  cases h
  simp only [step, begin_map] at h₁
  split at h₁
  · cases h₁
  rename_i hop
  have hop : s.op = none := by simpa using hop
  refine ⟨hop, ?_⟩
  split at h₁
  · rename_i t₁ id he
    cases h₁
    refine ⟨t₁, id, he, ?_⟩
    obtain ⟨call, id', hmapping, _, rfl⟩ := step_map_done h₂
    cases hmapping
    rw [← hop]
    rfl
  · cases h₁
    obtain ⟨call, id, hmapping, _⟩ := step_map_done h₂
    cases hop.symm.trans hmapping

/-- Without a remote buffer of that address, munmap looks for a map. -/
theorem munmap_eq (hfresh : ∀ b ∈ remote_bufs, b.raddr ≠ raddr) :
    munmap d sh s remote_bufs raddr len =
      (run (step d sh) s [.munmap raddr len, .unmap_done]).map (fun t => (t, remote_bufs)) := by
  have hnone : remote_bufs.find? (RemoteBuf.unmaps raddr len) = none := by
    rw [List.find?_eq_none]
    intro b hb
    simp [RemoteBuf.unmaps, hfresh b hb]
  unfold munmap
  rw [hnone]

/-- munmap when no other call is under way. -/
theorem run_munmap (hop : s.op = none) :
    run (step d sh) s [.munmap raddr len, .unmap_done] =
      match vfastrpc_mmap_remove sh s.table.maps (-1) raddr len with
      | .ok (_, maps) => some (s.setMaps maps)
      | .error _ => none := by
  rw [run_cons]
  simp only [step, begin_unmap, hop]
  rcases he : vfastrpc_mmap_remove sh s.table.maps (-1) raddr len with _ | ⟨m, maps⟩
  · simp [run, step, hop]
  · simp [run, step, Session.setMaps, hop]

/-- mmap has made a new map: munmap finds it first, and it is the last owner. -/
theorem undone_of_new (hids : ∀ m ∈ s.table.maps, m.id < s.table.next) (hop : s.op = none) {b : Nat}
    (ht : t = { s with table :=
      ⟨(newMap sh s.table.next fd 0 va len flags b).mapped d .mmap raddr :: s.table.maps,
        s.table.next + 1⟩ })
    (hfresh : ∀ b ∈ remote_bufs, b.raddr ≠ raddr) : Undone d sh s t remote_bufs raddr len := by
  subst ht
  have hremove : vfastrpc_mmap_remove sh
      ((newMap sh s.table.next fd 0 va len flags b).mapped d .mmap raddr :: s.table.maps) (-1) raddr
      len = .ok ((newMap sh s.table.next fd 0 va len flags b).mapped d .mmap raddr,
        s.table.maps) := by
    have hkeep : ((newMap sh s.table.next fd 0 va len flags b).mapped d .mmap raddr).keep sh
      = false := by
      simp [Map.mapped, newMap, Map.keep, keepAttr]
    have hrem : removable sh (-1) raddr len
        ((newMap sh s.table.next fd 0 va len flags b).mapped d .mmap raddr) = true := by
      unfold removable
      rw [hkeep]
      simp [Map.mapped, newMap, keepAttr]
    have hrest : remove Map.id s.table.maps s.table.next = s.table.maps := by
      unfold remove
      rw [List.filter_eq_self]
      intro m hm
      simpa using Nat.ne_of_lt (hids m hm)
    unfold vfastrpc_mmap_remove
    rw [List.find?_cons, hrem]
    simp only [hkeep]
    simp only [Map.mapped, newMap, Bool.false_eq_true, if_false, remove, List.filter_cons,
      bne_self_eq_false]
    exact congrArg (fun l => Except.ok (_, l)) hrest
  refine ⟨{ s with table := ⟨s.table.maps, s.table.next + 1⟩ }, ?_, rfl, rfl⟩
  rw [munmap_eq hfresh, run_munmap (by exact hop)]
  dsimp only
  rw [hremove]
  rfl

/-- mmap has joined a map: munmap refuses it, or takes it away from its other owners. -/
theorem not_undone_of_found {m : Map} (hm : m ∈ s.table.maps) (hop : s.op = none)
    (ht : t = s.setMaps
      (update Map.id (update Map.id s.table.maps m.id .addRef) m.id (.mapped d .mmap raddr)))
    (hfresh : Fresh s remote_bufs raddr) : ¬ Undone d sh s t remote_bufs raddr len := by
  subst ht
  rintro ⟨u, hu, hmaps, _⟩
  rw [munmap_eq hfresh.2, run_munmap (by exact hop)] at hu
  split at hu
  · rename_i m' maps' he
    cases hu
    obtain ⟨x, hx, hrem, rfl, _⟩ := remove_ok he
    -- only the map of the call has the address
    have hid : x.id = m.id := by
      by_contra hne
      have hxm : x ∈ s.table.maps := by
        rcases mem_update.mp hx with ⟨hx, _⟩ | ⟨y, hy, hid, rfl⟩
        · rcases mem_update.mp hx with ⟨hx, _⟩ | ⟨y, hy, hid, rfl⟩
          · exact hx
          · exact absurd hid hne
        · exact absurd hid hne
      have haddr : x.raddr = raddr := by
        unfold removable at hrem
        simp only [Bool.and_eq_true, beq_iff_eq] at hrem
        exact hrem.1.1.1.1.2
      exact hfresh.1 x hxm haddr
    have hgone := mem_remove.mp (hmaps.symm ▸ hm : m ∈ remove Map.id _ x.id)
    exact hgone.2 hid.symm
  · cases hu

end laws

/-- A successful mmap with a fresh address is undone by the munmap of that address and size exactly
when it has made a new map: when it found none for the fd and the range, or one whose count is at
its limit. -/
theorem munmap_undoes_mmap_iff (d : Driver) (sh : AdsprpcShared) {s t : Session}
    {remote_bufs : List RemoteBuf} {fd : Int} {vaddrin size raddr : BitVec 64} {flags : BitVec 32}
    {env : CreateEnv} (hids : ∀ m ∈ s.table.maps, m.id < s.table.next)
    (hmap : mmap d sh s fd vaddrin size flags env raddr = some t)
    (hfresh : Fresh s remote_bufs raddr) :
    Undone d sh s t remote_bufs raddr size ↔
      ∀ m, vfastrpc_mmap_find s.table.maps fd vaddrin size flags = .ok m →
        m.refs + 1 = INT_MAX := by
  obtain ⟨hop, t₁, id, hcreate, rfl⟩ := mmap_some hmap
  rcases create_ok hcreate with ⟨m, hfind, hne, rfl, rfl⟩ | ⟨hnone, _, rfl, b, _, rfl⟩
  · have hnot : ¬ Undone d sh s _ remote_bufs raddr size :=
      not_undone_of_found (find_ok hfind).1 hop rfl hfresh
    constructor
    · intro h
      exact absurd h hnot
    · intro h
      exact absurd (h m hfind) hne
  · constructor
    · intro _
      exact hnone
    · intro _
      have hrest : update Map.id s.table.maps s.table.next (.mapped d .mmap raddr) =
        s.table.maps := by
        apply update_eq_self
        intro m hm
        exact Nat.ne_of_lt (hids m hm)
      have hmaps : update Map.id (newMap sh s.table.next fd 0 vaddrin size flags b :: s.table.maps)
          s.table.next (.mapped d .mmap raddr) =
          (newMap sh s.table.next fd 0 vaddrin size flags b).mapped d .mmap raddr ::
            s.table.maps := by
        conv_rhs => rw [← hrest]
        simp [update, newMap]
      dsimp only
      rw [hmaps]
      exact undone_of_new hids hop rfl hfresh.2

/-- The session of a client that has used a buffer of the dma-buf 1 in an invoke. -/
def sharing : Session :=
  ⟨⟨[⟨0, 5, 0, 0, 1, 4096, 8192, 0, 1, 1, 0⟩], 1⟩, [⟨0, 1, 0, [some 0], .ready⟩], 1, none,
    fun _ => some 1⟩

/-- mmap of another dma-buf, beside it. -/
theorem a_new_map_is_undone :
    ∃ t, mmap .hybrid sampleShared sharing 6 4096 4096 0 allOk 0x9000 = some t ∧
      t.table.maps.length = 2 ∧ Undone .hybrid sampleShared sharing t [] 0x9000 4096 := by
  have hmap : mmap .hybrid sampleShared sharing 6 4096 4096 0 allOk 0x9000 = some _ := rfl
  refine ⟨_, hmap, by decide, ?_⟩
  apply (munmap_undoes_mmap_iff .hybrid sampleShared (by decide) hmap ⟨by decide, by simp⟩).mpr
  intro m hm
  cases hm

/-- mmap of a part of the buffer that the invoke uses: it succeeds, and the munmap of its address
fails. -/
theorem a_joined_map_is_not_undone :
    ∃ t, mmap .hybrid sampleShared sharing 5 4096 4096 0 allOk 0x9000 = some t ∧
      Fresh sharing [] 0x9000 ∧ munmap .hybrid sampleShared t [] 0x9000 4096 = none ∧
      ¬ Undone .hybrid sampleShared sharing t [] 0x9000 4096 := by
  refine ⟨_, rfl, ⟨by decide, by simp⟩, rfl, ?_⟩
  rintro ⟨u, hu, _⟩
  cases hu

end virtual_fastrpc.mmap_undo
