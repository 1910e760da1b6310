-- VFASTRPC_MAP_ATTR_BUFFER_MAPPED in the attribute word of a map. mem_map sets it
-- when the backend has the map, and get_args then leaves the scatter list of the
-- map out of its message. The other bits of the word come from the user.
import PlatformKernel.MapAttrs
import PlatformKernel.MapFds
import PlatformKernel.MapUndo
import PlatformKernel.VirtioMessage

namespace virtual_fastrpc.mapped_flags

open map_table keyed step_runs
open virtio_message (MapRef)

/-! ## The maps of the backend -/

def flagged (attr : BitVec 32) : Bool := attr &&& VFASTRPC_MAP_ATTR_BUFFER_MAPPED != 0

/-- The maps whose mem_map the backend has accepted, less those whose mem_unmap succeeded. -/
structure State where
  ses : Session
  accepted : List Nat

def init (fdtable : Int → Option Nat) : State := ⟨map_table.init fdtable, []⟩

variable (sh : AdsprpcShared)

/-- The backend accepts the mem_map of this map. -/
def memMapped (s : Session) : Act → Option Nat
  | .map_done _ =>
    match s.op with
    | some (.mapping .mem_map id) => some id
    | _ => none
  | _ => none

/-- The mem_unmap of this map succeeds. -/
def memUnmapped (s : Session) : Act → Option Nat
  | .unmap_done =>
    match s.op with
    | some (.unmapping .mem_map m) => some m.id
    | _ => none
  | _ => none

def step (s : State) (a : Act) : Option State :=
  (map_table.step .virtio sh s.ses a).map fun ses =>
    ⟨ses, (memMapped s.ses a).toList ++ s.accepted.filter (fun id => memUnmapped s.ses a ≠ some id)⟩

/-- The words of the maps that a step makes and leaves: a loop over the dma handles that fails
undoes its own. -/
def lasting_words (s : Session) : Act → List (BitVec 32)
  | .get_handles c cap as =>
    match (get_args_handles .virtio sh cap s.fdtable s.table [] as).2 with
    | .ok _ => new_words .virtio sh s (.get_handles c cap as)
    | .error _ => []
  | a => new_words .virtio sh s a

/-- No word of a new map has the attribute. -/
def Unflagged (s : State) (a : Act) : Prop := ∀ w ∈ lasting_words sh s.ses a, flagged w = false

/-- The backend has each map with the attribute, on the list or held by an unmap call. -/
def FlagsAccepted (s : State) : Prop := ∀ m ∈ s.ses.all, flagged m.attr = true → m.id ∈ s.accepted

/-! ## A failed loop over the dma handles -/

variable {sh} {n : Nat} {taken : List Nat} {t t' : Table}

/-- The loop holds each map from `n` on once for each handle, and nobody else holds it. -/
def Owned (n : Nat) (taken : List Nat) (maps : List Map) : Prop :=
  ∀ m ∈ maps, n ≤ m.id → isHeap m.flags = false ∧ m.ctx_refs = 0 ∧ m.refs = taken.count m.id ∧
    m.dma_handle_refs = taken.count m.id ∧ 0 < taken.count m.id

theorem Owned.drop {id : Nat} {maps : List Map} (h : Owned n (id :: taken) maps) :
    Owned n taken (alter Map.id maps id Map.dropDma) := by
  intro m' hm' hn
  rcases mem_alter.mp hm' with ⟨hm, hne⟩ | ⟨m, hm, hid, he⟩
  · have := h m' hm hn
    rwa [List.count_cons_of_ne (fun he => hne he.symm)] at this
  · have hsame := SameAttr.dropDma he
    obtain ⟨heap, hctx, hrefs, hdma, _⟩ := h m hm (by rw [← hsame.1]; exact hn)
    rw [hid, List.count_cons_self] at hrefs hdma
    rw [hsame.1, hid]
    unfold Map.dropDma at he
    rw [if_neg (by omega)] at he
    rcases mmap_free_cases { m with dma_handle_refs := m.dma_handle_refs - 1 } with
      ⟨hbad, _⟩ | ⟨_, _, _, _, hfree⟩
    · simp only [heap, Bool.false_eq_true, false_or] at hbad
      exfalso
      omega
    · rw [hfree] at he
      split at he
      · cases he
      · cases he
        dsimp only at *
        refine ⟨heap, hctx, ?_, ?_, ?_⟩ <;> omega

/-- The undo loop releases every map that the loop has made. -/
theorem Owned.undo {maps : List Map} (h : Owned n taken maps) :
    ∀ m ∈ undo_handles maps taken, m.id < n := by
  induction taken generalizing maps with
  | nil =>
    intro m hm
    by_contra hn
    have := (h m hm (by omega)).2.2.2.2
    simp at this
  | cons id taken ih => exact ih h.drop

/-- The names of the maps and of the handles taken are used up. -/
structure Named (n : Nat) (taken : List Nat) (t : Table) : Prop where
  le : n ≤ t.next
  maps : ∀ m ∈ t.maps, m.id < t.next
  handles : ∀ id ∈ taken, id < t.next
  owned : Owned n taken t.maps

theorem count_snoc (taken : List Nat) (id j : Nat) :
    (taken ++ [id]).count j = taken.count j + if id = j then 1 else 0 := by
  rw [List.count_append, List.count_singleton]
  simp

/-- A handle shares a map that is there. -/
theorem Named.found (h : Named n taken t) {m : Map} (hmem : m ∈ t.maps) :
    Named n (taken ++ [m.id])
      { t with maps := update Map.id (update Map.id t.maps m.id .addRef) m.id .addDma } := by
  have hfrom : ∀ x ∈ update Map.id (update Map.id t.maps m.id .addRef) m.id .addDma,
      (x ∈ t.maps ∧ x.id ≠ m.id) ∨ ∃ y ∈ t.maps, y.id = m.id ∧ x = y.addRef.addDma := by
    intro x hx
    rcases mem_update.mp hx with ⟨hx, hne⟩ | ⟨y, hy, hyid, rfl⟩
    · rcases mem_update.mp hx with hx | ⟨z, _, hz, rfl⟩
      · exact Or.inl hx
      · exact absurd hz hne
    · rcases mem_update.mp hy with ⟨_, hne⟩ | ⟨z, hz, hzid, rfl⟩
      · exact absurd hyid hne
      · exact Or.inr ⟨z, hz, hzid, rfl⟩
  refine ⟨h.le, ?_, ?_, ?_⟩
  · intro x hx
    rcases hfrom x hx with ⟨hx, _⟩ | ⟨y, hy, _, rfl⟩
    · exact h.maps x hx
    · exact h.maps y hy
  · intro j hj
    rcases List.mem_append.mp hj with hj | hj
    · exact h.handles j hj
    · rw [List.mem_singleton.mp hj]
      exact h.maps m hmem
  · intro x hx hn
    rw [count_snoc]
    rcases hfrom x hx with ⟨hx, hne⟩ | ⟨y, hy, hid, rfl⟩
    · rw [if_neg (fun he => hne he.symm)]
      exact h.owned x hx hn
    · obtain ⟨heap, hctx, hrefs, hdma, _⟩ := h.owned y hy hn
      have hk : y.addRef.addDma.id = y.id := rfl
      rw [hk, if_pos hid.symm]
      refine ⟨heap, hctx, ?_, ?_, by omega⟩
      · simp [Map.addRef, Map.addDma, hrefs]
      · simp [Map.addRef, Map.addDma, hdma]

/-- A handle has a map of its own. -/
theorem Named.made (h : Named n taken t) {m : Map} (hid : m.id = t.next)
    (heap : isHeap m.flags = false) (hrefs : m.refs = 1) (hctx : m.ctx_refs = 0)
    (hdma : m.dma_handle_refs = 0) :
    Named n (taken ++ [t.next]) ⟨update Map.id (m :: t.maps) t.next .addDma, t.next + 1⟩ := by
  have hnew : taken.count t.next = 0 := by
    rw [List.count_eq_zero]
    intro hm
    exact Nat.lt_irrefl _ (h.handles t.next hm)
  have hfrom : ∀ x ∈ update Map.id (m :: t.maps) t.next .addDma, x ∈ t.maps ∨ x = m.addDma := by
    intro x hx
    rcases mem_update.mp hx with ⟨hx, hne⟩ | ⟨y, hy, hyid, rfl⟩
    · rcases List.mem_cons.mp hx with rfl | hx
      · exact absurd hid hne
      · exact Or.inl hx
    · rcases List.mem_cons.mp hy with rfl | hy
      · exact Or.inr rfl
      · exact absurd (h.maps y hy) (by omega)
  have hk : m.addDma.id = t.next := hid
  refine ⟨Nat.le_succ_of_le h.le, ?_, ?_, ?_⟩
  · intro x hx
    rcases hfrom x hx with hx | rfl
    · exact Nat.lt_succ_of_lt (h.maps x hx)
    · rw [hk]
      exact Nat.lt_succ_self t.next
  · intro j hj
    rcases List.mem_append.mp hj with hj | hj
    · exact Nat.lt_succ_of_lt (h.handles j hj)
    · rw [List.mem_singleton.mp hj]
      exact Nat.lt_succ_self t.next
  · intro x hx hn
    rw [count_snoc]
    rcases hfrom x hx with hx | rfl
    · rw [if_neg (fun he => Nat.lt_irrefl _ (he ▸ h.maps x hx))]
      exact h.owned x hx hn
    · rw [hk, if_pos rfl, hnew]
      simp [Map.addDma, heap, hrefs, hctx, hdma]

theorem Named.create (h : Named n taken t) {fd : Int} {attr flags : BitVec 32}
    (hkeep : keepAttr sh attr = false) {buf : Option Nat} {env : CreateEnv} {id : Nat}
    (hc : mmap_create .virtio sh t fd attr 0 0 flags buf env = (t', .ok id)) :
    Named n (taken ++ [id]) { t' with maps := update Map.id t'.maps id .addDma } := by
  rcases create_ok hc with ⟨m, hfind, _, rfl, rfl⟩ | ⟨_, heap, rfl, b, _, rfl⟩
  · exact h.found (find_ok hfind).1
  · apply h.made rfl heap _ rfl rfl
    simp [newMap, hkeep]

/-- A loop over the dma handles that fails leaves no map that it has made. -/
theorem failed_handles (h : Named n taken t) {cap : Bool} {fdtable : Int → Option Nat}
    {as : List Arg} {e : Errno}
    (he : get_args_handles .virtio sh cap fdtable t taken as = (t', .error e)) :
    ∀ m ∈ t'.maps, m.id < n := by
  induction as generalizing t taken with
  | nil => cases (Prod.mk.inj he).2
  | cons a as ih =>
    unfold get_args_handles at he
    split at he
    · exact ih h he
    · rename_i fd _
      split at he
      · rename_i t₁ id hc
        exact ih (h.create (keepAttr_handleAttr_virtio sh a) hc) he
      · rename_i t₁ e₁ hc
        cases he
        rcases create_cases .virtio sh t fd (handleAttr .virtio sh a) 0 0 (handleFlags .virtio sh a)
          (fdtable fd) a.env with ⟨_, _, _, hc'⟩ | ⟨_, _, _, hc'⟩ | ⟨_, _, _, hc'⟩
        · cases hc.symm.trans hc'
        · cases hc.symm.trans hc'
        · cases hc.symm.trans hc'
          exact h.owned.undo

/-! ## A loop over the dma handles that succeeds -/

variable {d : Driver} {cap : Bool} {fdtable : Int → Option Nat} {w : BitVec 32}

theorem new_word_made (hfresh : ∀ m ∈ t.maps, m.id < t.next) {fd : Int} {attr : BitVec 32}
    {va len : BitVec 64} {mflags : BitVec 32} {buf : Option Nat} {env : CreateEnv}
    (hw : w ∈ new_word d sh t fd attr va len mflags buf env) :
    ∃ b, mmap_create d sh t fd attr va len mflags buf env =
      (⟨newMap sh t.next fd w va len mflags b :: t.maps, t.next + 1⟩, .ok t.next) := by
  unfold new_word at hw
  rcases create_cases d sh t fd attr va len mflags buf env with
    ⟨m, hm, _, he⟩ | ⟨b, _, _, he⟩ | ⟨_, _, _, he⟩
  · have hne : m.id ≠ t.next := Nat.ne_of_lt (hfresh m hm)
    simp [he, hne] at hw
  · simp only [he, if_true, List.mem_singleton] at hw
    rw [he, hw]
    exact ⟨b, rfl⟩
  · simp [he] at hw

theorem create_fresh (hfresh : ∀ m ∈ t.maps, m.id < t.next) {fd : Int} {attr : BitVec 32}
    {va len : BitVec 64} {mflags : BitVec 32} {buf : Option Nat} {env : CreateEnv} {id : Nat}
    (hc : mmap_create d sh t fd attr va len mflags buf env = (t', .ok id)) :
    t.next ≤ t'.next ∧ ∀ m ∈ t'.maps, m.id < t'.next := by
  rcases create_ok hc with ⟨m, _, _, _, rfl⟩ | ⟨_, _, _, b, _, rfl⟩
  · refine ⟨Nat.le_refl _, ?_⟩
    intro x hx
    rcases mem_update.mp hx with ⟨hx, _⟩ | ⟨y, hy, _, rfl⟩
    · exact hfresh x hx
    · exact hfresh y hy
  · refine ⟨Nat.le_succ _, ?_⟩
    intro x hx
    rcases List.mem_cons.mp hx with rfl | hx
    · exact Nat.lt_succ_self t.next
    · exact Nat.lt_succ_of_lt (hfresh x hx)

theorem handles_stay {P : Map → Prop} (hP : ∀ m m', SameAttr m m' → P m → P m') {taken' : List Nat}
    {as : List Arg} (he : get_args_handles d sh cap fdtable t taken as = (t', .ok taken')) :
    Stay P t.maps t'.maps := by
  induction as generalizing t taken with
  | nil =>
    rw [← (Prod.mk.inj he).1]
    exact .refl t.maps
  | cons a as ih =>
    unfold get_args_handles at he
    split at he
    · exact ih he
    · rename_i fd _
      have hc : Stay P t.maps _ :=
        Stay.create d sh t fd (handleAttr d sh a) 0 0 (handleFlags d sh a) (fdtable fd) a.env
      split at he
      · rename_i t₁ id hcreate
        rw [hcreate] at hc
        have hu : Stay P t₁.maps (update Map.id t₁.maps id .addDma) :=
          .update t₁.maps id (fun m => ⟨rfl, rfl, rfl⟩)
        exact (hc.trans hu hP).trans (ih he) hP
      · cases (Prod.mk.inj he).2

theorem handle_words_left (hfresh : ∀ m ∈ t.maps, m.id < t.next) {taken' : List Nat}
    {as : List Arg} (he : get_args_handles d sh cap fdtable t taken as = (t', .ok taken'))
    (hw : w ∈ handle_words d sh cap fdtable t as) :
    ∃ m ∈ t'.maps, t.next ≤ m.id ∧ m.attr = w := by
  induction as generalizing t taken with
  | nil => cases hw
  | cons a as ih =>
    unfold get_args_handles at he
    unfold handle_words at hw
    cases hfd : handleFd d cap a with
    | none =>
      rw [hfd] at he hw
      exact ih hfresh he hw
    | some fd =>
      rw [hfd] at he hw
      dsimp only at he hw
      rcases hc : mmap_create d sh t fd (handleAttr d sh a) 0 0 (handleFlags d sh a) (fdtable fd)
        a.env with ⟨t₁, e | id⟩
      · rw [hc] at he
        cases (Prod.mk.inj he).2
      · rw [hc] at he hw
        dsimp only at he hw
        rcases List.mem_append.mp hw with hw | hw
        · -- the map is new, and the rest of the loop leaves it
          obtain ⟨b, hb⟩ := new_word_made hfresh hw
          cases hc.symm.trans hb
          have hmem : (newMap sh t.next fd w 0 0 (handleFlags d sh a) b).addDma ∈
              update Map.id (newMap sh t.next fd w 0 0 (handleFlags d sh a) b :: t.maps) t.next
                .addDma :=
            mem_update.mpr (Or.inr ⟨_, List.mem_cons_self, rfl, rfl⟩)
          have hstay := handles_stay (P := fun _ => True) (fun _ _ _ _ => trivial) he
          obtain ⟨m, hm, hid, _, hattr⟩ := hstay _ hmem trivial
          exact ⟨m, hm, Nat.le_of_eq hid.symm, hattr⟩
        · obtain ⟨hle, hfresh₁⟩ := create_fresh hfresh hc
          have hfresh₂ : ∀ m ∈ update Map.id t₁.maps id .addDma, m.id < t₁.next := by
            intro x hx
            rcases mem_update.mp hx with ⟨hx, _⟩ | ⟨y, hy, _, rfl⟩
            · exact hfresh₁ x hx
            · exact hfresh₁ y hy
          obtain ⟨m, hm, hid, hattr⟩ := ih hfresh₂ he hw
          exact ⟨m, hm, Nat.le_trans hle hid, hattr⟩

/-! ## Where a flag comes from -/

variable {s u : Session} {a : Act}

/-- The map is one of `s`, and it has the flag only when it had it or the backend accepts its
mem_map, or it is new and has a word of the step. -/
def FlagFrom (sh : AdsprpcShared) (s : Session) (a : Act) (m' : Map) : Prop :=
  (∃ m ∈ s.all, m'.id = m.id ∧
    (flagged m'.attr = true → flagged m.attr = true ∨ memMapped s a = some m.id)) ∨
  (s.table.next ≤ m'.id ∧ m'.attr ∈ lasting_words sh s a)

theorem FlagFrom.same {m m' : Map} (hm : m ∈ s.all) (h : SameAttr m m') : FlagFrom sh s a m' := by
  refine Or.inl ⟨m, hm, h.1, fun hf => Or.inl ?_⟩
  rw [← h.2.2]
  exact hf

/-- A step of the functions of the map table, which leaves the held map alone or drops it. -/
theorem flagFrom_worded {ws : List (BitVec 32)} (hw : Worded ws s.table u.table)
    (hoff : ∀ m, u.offList = some m → s.offList = some m)
    (hws : ∀ w ∈ ws, w ∈ lasting_words sh s a) : ∀ m' ∈ u.all, FlagFrom sh s a m' := by
  intro m' hm'
  rcases mem_all.mp hm' with hm' | hm'
  · rcases hw.maps m' hm' with ⟨m, hm, hs⟩ | ⟨hid, hattr⟩
    · exact .same (mem_all.mpr (Or.inl hm)) hs
    · exact Or.inr ⟨hid, hws _ hattr⟩
  · exact .same (mem_all.mpr (Or.inr (hoff m' hm'))) (.refl m')

theorem begin_map_flags {call : MapCall} {fd : Int} {attr : BitVec 32} {va len : BitVec 64}
    {flags : BitVec 32} {env : CreateEnv}
    (hu : begin_map .virtio sh s call fd attr va len flags env = some u)
    (hws : ∀ w ∈ new_word .virtio sh s.table fd attr va len flags (s.fdtable fd) env,
      w ∈ lasting_words sh s a) : ∀ m' ∈ u.all, FlagFrom sh s a m' := by
  have hw := Worded.create .virtio sh s.table fd attr va len flags (s.fdtable fd) env
  obtain ⟨_, ⟨t', id, he, rfl⟩ | ⟨t', e, he, rfl⟩⟩ := begin_map_cases hu
  · rw [he] at hw
    exact flagFrom_worded hw (fun m hm => by cases hm) hws
  · rw [he] at hw
    exact flagFrom_worded hw (fun m hm => hm) hws

theorem begin_unmap_flags {call : MapCall} {fd : Int} {va len : BitVec 64}
    (hu : begin_unmap sh s call fd va len = some u) : ∀ m' ∈ u.all, FlagFrom sh s a m' := by
  obtain ⟨_, ⟨m, hm, _, rfl⟩ | rfl⟩ := begin_unmap_cases hu
  · intro x hx
    rcases mem_all.mp hx with hx | hx
    · exact .same (mem_all.mpr (Or.inl (mem_remove.mp hx).1)) (.refl x)
    · cases hx
      refine .same (mem_all.mpr (Or.inl hm)) ?_
      split <;> exact ⟨rfl, rfl, rfl⟩
  · exact fun m' hm' => .same hm' (.refl m')

theorem flagged_unkeep {m : Map} (h : flagged (m.unkeep sh).attr = true) :
    flagged m.attr = true := by
  unfold flagged Map.unkeep at *
  simp only [bne_iff_ne, ne_eq] at h ⊢
  intro hz
  apply h
  rw [BitVec.and_assoc, BitVec.and_comm (~~~sh.FASTRPC_ATTR_KEEP_MAP), ← BitVec.and_assoc, hz]
  simp

theorem get_handles_flags (h : Inv s) {c : Nat} {cap : Bool} {as : List Arg}
    (hu : map_table.step .virtio sh s (.get_handles c cap as) = some u) :
    ∀ m' ∈ u.all, FlagFrom sh s (.get_handles c cap as) m' := by
  obtain ⟨hw, hop⟩ := invoke_worded .virtio sh rfl hu
  rcases he : get_args_handles .virtio sh cap s.fdtable s.table [] as with ⟨t', e | taken⟩
  · -- the maps of the loop are gone
    obtain ⟨x, _, _, _, rfl⟩ := onCtx_some hu
    have hnamed : Named s.table.next [] s.table := by
      refine ⟨Nat.le_refl _, h.exact.fresh, (fun id hid => by cases hid), ?_⟩
      intro m hm hn
      exact absurd (h.exact.fresh m hm) (by omega)
    have hgone := failed_handles hnamed he
    have ht : (get_handles .virtio sh s cap as x).table = t' := by
      rw [get_handles_table, he]
    intro m' hm'
    rcases mem_all.mp hm' with hm' | hm'
    · rcases hw.maps m' hm' with ⟨m, hm, hs⟩ | ⟨hid, _⟩
      · exact .same (mem_all.mpr (Or.inl hm)) hs
      · rw [ht] at hm'
        exact absurd (hgone m' hm') (by omega)
    · rw [offList_congr hop] at hm'
      exact .same (mem_all.mpr (Or.inr hm')) (.refl m')
  · refine flagFrom_worded hw (fun m hm => by rwa [offList_congr hop] at hm) (fun w hw => ?_)
    simp only [lasting_words, he]
    exact hw

/-- A map that an unmap call puts back has the word it had. -/
theorem unmap_fail_flags (hu : map_table.step .virtio sh s .unmap_fail = some u) :
    ∀ m' ∈ u.all, FlagFrom sh s a m' := by
  obtain ⟨call, m, hop, rfl⟩ := step_unmap_fail hu
  have hoff := offList_unmapping hop
  intro x hx
  rcases mem_all.mp hx with hx | hx
  · have hx : x ∈ vfastrpc_mmap_add s.table.maps (readded sh call m) := hx
    unfold vfastrpc_mmap_add at hx
    split at hx
    · exact .same (mem_all.mpr (Or.inl hx)) (.refl x)
    · rcases List.mem_cons.mp hx with rfl | hx
      · refine .same (mem_all.mpr (Or.inr hoff)) ?_
        unfold readded
        split <;> exact ⟨rfl, rfl, rfl⟩
      · exact .same (mem_all.mpr (Or.inl hx)) (.refl x)
  · cases hx

theorem munmap_fd_flags {fd : Int} (hu : map_table.step .virtio sh s (.munmap_fd fd) = some u) :
    ∀ m' ∈ u.all, FlagFrom sh s a m' := by
  obtain ⟨_, rfl⟩ := step_munmap_fd hu
  intro x hx
  rcases mem_all.mp hx with hx | hx
  · obtain ⟨m, hm, he⟩ := List.mem_filterMap.mp hx
    split at he
    · obtain ⟨hid, _, hattr⟩ := SameAttr.mmap_free he
      refine Or.inl ⟨m, mem_all.mpr (Or.inl hm), hid, fun hf => Or.inl ?_⟩
      rw [hattr] at hf
      exact flagged_unkeep hf
    · cases he
      exact .same (mem_all.mpr (Or.inl hm)) (.refl _)
  · exact .same (mem_all.mpr (Or.inr hx)) (.refl x)

/-- Only an answer of the backend to a mem_map gives a map that is there the flag. -/
theorem map_done_flags {raddr : BitVec 64}
    (hu : map_table.step .virtio sh s (.map_done raddr) = some u) :
    ∀ m' ∈ u.all, FlagFrom sh s (.map_done raddr) m' := by
  obtain ⟨call, id, hop, _, rfl⟩ := step_map_done hu
  intro m' hm'
  rcases mem_all.mp hm' with hm' | hm'
  · rcases mem_update.mp hm' with ⟨hm, _⟩ | ⟨m, hm, hid, rfl⟩
    · exact .same (mem_all.mpr (Or.inl hm)) (.refl m')
    · refine Or.inl ⟨m, mem_all.mpr (Or.inl hm), rfl, fun hf => ?_⟩
      cases call with
      | mmap => exact Or.inl hf
      | mem_map =>
        right
        unfold memMapped
        rw [hop, hid]
  · cases hm'

theorem step_flags (h : Inv s) (hu : map_table.step .virtio sh s a = some u) :
    ∀ m' ∈ u.all, FlagFrom sh s a m' := by
  cases a with
  | get_handles c cap as => exact get_handles_flags h hu
  | mmap fd va len flags env => exact begin_map_flags hu (fun w hw => hw)
  | mem_map fd attrs va len flags env => exact begin_map_flags hu (fun w hw => hw)
  | map_done raddr => exact map_done_flags hu
  | map_fail =>
    obtain ⟨call, id, _, rfl⟩ := step_map_fail hu
    exact flagFrom_worded (.alter s.table id (fun _ _ => SameAttr.mmap_free))
      (fun m hm => by cases hm) (fun w hw => hw)
  | munmap vaddrout size => exact begin_unmap_flags hu
  | mem_unmap fd vaddr len => exact begin_unmap_flags hu
  | unmap_done =>
    obtain ⟨call, m, _, _, rfl⟩ := step_unmap_done hu
    exact flagFrom_worded (.refl [] s.table) (fun m hm => by cases hm) (fun w hw => hw)
  | unmap_fail => exact unmap_fail_flags hu
  | munmap_fd fd => exact munmap_fd_flags hu
  | _ =>
    obtain ⟨hw, hop⟩ := invoke_worded .virtio sh rfl hu
    exact flagFrom_worded hw (fun m hm => by rwa [offList_congr hop] at hm) (fun w hw => hw)

/-! ## The maps that a step leaves -/

theorem begin_map_left (h : Inv s) {call : MapCall} {fd : Int} {attr : BitVec 32}
    {va len : BitVec 64} {flags : BitVec 32} {env : CreateEnv}
    (hu : begin_map d sh s call fd attr va len flags env = some u)
    (hw : w ∈ new_word d sh s.table fd attr va len flags (s.fdtable fd) env) :
    ∃ m ∈ u.all, s.table.next ≤ m.id ∧ m.attr = w := by
  obtain ⟨b, he⟩ := new_word_made h.exact.fresh hw
  have ht : u.table = ⟨newMap sh s.table.next fd w va len flags b :: s.table.maps,
      s.table.next + 1⟩ := by
    obtain ⟨_, ⟨t', id, he', rfl⟩ | ⟨t', e, he', rfl⟩⟩ := begin_map_cases hu
    · exact (Prod.mk.inj (he'.symm.trans he)).1
    · exact (Prod.mk.inj (he'.symm.trans he)).1
  refine ⟨newMap sh s.table.next fd w va len flags b, mem_all.mpr (Or.inl ?_), Nat.le_refl _, rfl⟩
  rw [ht]
  exact List.mem_cons_self

/-- Each of the words is the word of a map that the step leaves. -/
theorem lasting_word_left (h : Inv s) (hu : map_table.step .virtio sh s a = some u)
    (hw : w ∈ lasting_words sh s a) : ∃ m ∈ u.all, s.table.next ≤ m.id ∧ m.attr = w := by
  cases a with
  | get_buf c b =>
    obtain ⟨x, _, _, _, rfl⟩ := onCtx_some hu
    simp only [lasting_words, new_words] at hw
    cases hfd : bufFd .virtio b with
    | none =>
      rw [hfd] at hw
      cases hw
    | some fd =>
      rw [hfd] at hw
      obtain ⟨n, he⟩ := new_word_made h.exact.fresh hw
      refine ⟨(newMap sh s.table.next fd w b.pv b.len 0 n).addCtx, mem_all.mpr (Or.inl ?_),
        Nat.le_refl _, rfl⟩
      simp only [get_buf, get_args_buf, hfd, he]
      exact mem_update.mpr (Or.inr ⟨_, List.mem_cons_self, rfl, rfl⟩)
  | get_handles c cap as =>
    obtain ⟨x, _, _, _, rfl⟩ := onCtx_some hu
    rcases he : get_args_handles .virtio sh cap s.fdtable s.table [] as with ⟨t', e | taken⟩
    · simp only [lasting_words, he] at hw
      cases hw
    · simp only [lasting_words, he] at hw
      obtain ⟨m, hm, hid, hattr⟩ := handle_words_left h.exact.fresh he hw
      refine ⟨m, mem_all.mpr (Or.inl ?_), hid, hattr⟩
      rw [get_handles_table, he]
      exact hm
  | mmap fd va len flags env => exact begin_map_left h hu hw
  | mem_map fd attrs va len flags env => exact begin_map_left h hu hw
  | _ => cases hw

/-! ## Every run -/

/-- The names of the maps that a map call waits for and of those that the backend has are used
up. -/
structure Accepting (s : State) : Prop where
  inv : Inv s.ses
  pending : ∀ call id, s.ses.op = some (.mapping call id) → id < s.ses.table.next
  accepted : ∀ id ∈ s.accepted, id < s.ses.table.next

theorem accepting_init (fdtable : Int → Option Nat) : Accepting (init fdtable) where
  inv := inv_init fdtable
  pending := by intro call id hop; cases hop
  accepted := by intro id hid; cases hid

theorem begin_map_pending (h : Inv s) {call : MapCall} {fd : Int} {attr : BitVec 32}
    {va len : BitVec 64} {flags : BitVec 32} {env : CreateEnv}
    (hu : begin_map d sh s call fd attr va len flags env = some u) {call' : MapCall} {id : Nat}
    (hop : u.op = some (.mapping call' id)) : id < u.table.next := by
  obtain ⟨hnone, ⟨t', id', he, rfl⟩ | ⟨t', e, _, rfl⟩⟩ := begin_map_cases hu
  · cases hop
    rcases create_ok he with ⟨m, hfind, _, rfl, rfl⟩ | ⟨_, _, rfl, b, _, rfl⟩
    · exact h.exact.fresh m (find_ok hfind).1
    · exact Nat.lt_succ_self _
  · cases hnone.symm.trans hop

theorem begin_unmap_pending {call call' : MapCall} {fd : Int} {va len : BitVec 64} {id : Nat}
    (hu : begin_unmap sh s call fd va len = some u) (hop : u.op = some (.mapping call' id)) :
    u.op = s.op := by
  obtain ⟨_, ⟨m, _, _, rfl⟩ | rfl⟩ := begin_unmap_cases hu
  · cases hop
  · rfl

theorem step_pending (h : Inv s) (hpend : ∀ call id, s.op = some (.mapping call id) →
      id < s.table.next) (hu : map_table.step .virtio sh s a = some u) :
    ∀ call id, u.op = some (.mapping call id) → id < u.table.next := by
  have hle := (step_stepFrom .virtio sh hu).next
  intro call id hop
  have hsame : u.op = s.op → id < u.table.next := by
    intro he
    exact Nat.lt_of_lt_of_le (hpend call id (by rw [← he]; exact hop)) hle
  cases a with
  | mmap fd va len flags env => exact begin_map_pending h hu hop
  | mem_map fd attrs va len flags env => exact begin_map_pending h hu hop
  | map_done raddr =>
    obtain ⟨call', id', _, _, rfl⟩ := step_map_done hu
    cases hop
  | map_fail =>
    obtain ⟨call', id', _, rfl⟩ := step_map_fail hu
    cases hop
  | munmap vaddrout size => exact hsame (begin_unmap_pending hu hop)
  | mem_unmap fd vaddr len => exact hsame (begin_unmap_pending hu hop)
  | unmap_done =>
    obtain ⟨call', m, _, _, rfl⟩ := step_unmap_done hu
    cases hop
  | unmap_fail =>
    obtain ⟨call', m, _, rfl⟩ := step_unmap_fail hu
    cases hop
  | munmap_fd fd =>
    obtain ⟨_, rfl⟩ := step_munmap_fd hu
    exact hsame rfl
  | _ => exact hsame (invoke_worded .virtio sh rfl hu).2

theorem memMapped_some {id : Nat} (h : memMapped s a = some id) :
    s.op = some (.mapping .mem_map id) := by
  cases a with
  | map_done raddr =>
    simp only [memMapped] at h
    split at h
    · rename_i hop
      cases h
      exact hop
    · cases h
  | _ => cases h

/-- A map that the backend has given up is gone from the session. -/
theorem memUnmapped_gone (h : Inv s) (hu : map_table.step .virtio sh s a = some u) {id : Nat}
    (hid : memUnmapped s a = some id) : ∀ m ∈ u.all, m.id ≠ id := by
  cases a with
  | unmap_done =>
    simp only [memUnmapped] at hid
    split at hid
    · rename_i m hop
      cases hid
      have hapart := (h.exact.apart m.id (by rw [offList_unmapping hop]; rfl)).2
      obtain ⟨_, _, _, _, rfl⟩ := step_unmap_done hu
      intro x hx
      rcases mem_all.mp hx with hx | hx
      · exact hapart x hx
      · cases hx
    · cases hid
  | _ => cases hid

theorem step_accepting (s : State) (a : Act) (t : State) (h : Accepting s)
    (ht : step sh s a = some t) : Accepting t := by
  obtain ⟨u, hu, rfl⟩ := Option.map_eq_some_iff.mp ht
  have hle := (step_stepFrom .virtio sh hu).next
  refine ⟨step_inv .virtio sh s.ses a u h.inv hu, step_pending h.inv h.pending hu, ?_⟩
  intro id hid
  refine Nat.lt_of_lt_of_le ?_ hle
  rcases List.mem_append.mp hid with hid | hid
  · exact h.pending .mem_map id (memMapped_some (Option.mem_toList.mp hid))
  · exact h.accepted id (List.mem_filter.mp hid).1

/-- A step keeps every flag to the maps of the backend exactly when it makes no map with a word that
has the attribute. -/
theorem step_flagsAccepted (s : State) (a : Act) (t : State) (h : Accepting s)
    (hf : FlagsAccepted s) (ht : step sh s a = some t) : FlagsAccepted t ↔ Unflagged sh s a := by
  obtain ⟨u, hu, rfl⟩ := Option.map_eq_some_iff.mp ht
  constructor
  · intro hall w hw
    obtain ⟨m, hm, hid, rfl⟩ := lasting_word_left h.inv hu hw
    by_contra hflag
    -- the map is younger than all that the backend has
    have hlt : m.id < s.ses.table.next := by
      rcases List.mem_append.mp (hall m hm (by simpa using hflag)) with hacc | hacc
      · exact h.pending .mem_map m.id (memMapped_some (Option.mem_toList.mp hacc))
      · exact h.accepted m.id (List.mem_filter.mp hacc).1
    omega
  · intro hun m' hm' hflag
    rcases step_flags h.inv hu m' hm' with ⟨m, hm, hid, hfrom⟩ | ⟨_, hword⟩
    · rw [hid]
      apply List.mem_append.mpr
      rcases hfrom hflag with hold | hnew
      · right
        refine List.mem_filter.mpr ⟨hf m hm hold, ?_⟩
        simp only [ne_eq, decide_eq_true_eq]
        intro hgone
        exact memUnmapped_gone h.inv hu hgone m' hm' hid
      · left
        rw [hnew]
        simp
    · rw [hun m'.attr hword] at hflag
      cases hflag

theorem flagsAccepted_init (fdtable : Int → Option Nat) : FlagsAccepted (init fdtable) := by
  intro m hm
  cases hm

/-- In every run, the maps with the flag are throughout maps that the backend has, if and only if no
request makes a map with a word of the user that has the flag. In each state where they are, an
invoke leaves out the scatter list of a map only when the backend has it. -/
theorem flagged_maps_are_accepted_iff (sh : AdsprpcShared) {fdtable : Int → Option Nat}
    {as : List Act} {s : State} (hr : run (step sh) (init fdtable) as = some s) :
    (Always (step sh) FlagsAccepted (init fdtable) as ↔
      Meets (step sh) (Unflagged sh) (init fdtable) as) ∧
    (FlagsAccepted s → ∀ c ∈ s.ses.ctxs, ∀ id, some id ∈ c.maps →
      ∃ m ∈ s.ses.table.maps, m.id = id ∧
        ∀ r : MapRef, r.attr = m.attr → r.sgl ≠ [] → r.mapping.sgl = [] → id ∈ s.accepted) := by
  have hs : Accepting s := run_inv Accepting step_accepting (accepting_init fdtable) hr
  refine ⟨always_iff_meets Accepting FlagsAccepted step_accepting step_flagsAccepted
    (accepting_init fdtable) (flagsAccepted_init fdtable) hr, ?_⟩
  intro hf c hc id hid
  have hpos : 0 < pointers s.ses.ctxs id := by
    have hle := le_weight (g := fun c => c.maps.count (some id)) hc
    exact Nat.lt_of_lt_of_le (List.count_pos_iff.mpr hid) hle
  obtain ⟨m, hm, rfl⟩ := hs.inv.exact.listed id hpos
  refine ⟨m, hm, rfl, ?_⟩
  intro r hattr hsgl hnone
  apply hf m (mem_all.mpr (Or.inl hm))
  unfold MapRef.mapping MapRef.mapped at hnone
  rw [hattr] at hnone
  by_contra hflag
  split at hnone
  · rename_i hmapped
    exact hflag hmapped
  · exact hsgl hnone

/-- The backend accepts the mem_map of fd 5, and an invoke on the map is sent without its scatter
list. -/
theorem an_accepted_map_is_sent_without_its_list :
    ∃ s, run (step sampleShared) (init (fun _ => some 1))
        [.mem_map 5 0 4096 64 0 allOk, .map_done 8192, .context_alloc 1 0,
          .get_buf 0 ⟨4096, 64, some 5, 0, allOk⟩] = some s ∧
      s.ses.table.maps.map (fun m => flagged m.attr) = [true] ∧ s.accepted = [0] ∧
      Always (step sampleShared) FlagsAccepted (init (fun _ => some 1))
        [.mem_map 5 0 4096 64 0 allOk, .map_done 8192, .context_alloc 1 0,
          .get_buf 0 ⟨4096, 64, some 5, 0, allOk⟩] := by
  have hrun : run (step sampleShared) (init (fun _ => some 1))
      [.mem_map 5 0 4096 64 0 allOk, .map_done 8192, .context_alloc 1 0,
        .get_buf 0 ⟨4096, 64, some 5, 0, allOk⟩] = some _ := rfl
  refine ⟨_, hrun, rfl, rfl, (flagged_maps_are_accepted_iff sampleShared hrun).1.mpr ?_⟩
  refine .cons ?_ rfl (.cons nofun rfl (.cons nofun rfl (.cons ?_ rfl trivial)))
  · intro w hw
    obtain rfl := List.mem_singleton.mp (show w ∈ [0] from hw)
    rfl
  · -- the map is found
    intro w hw
    cases (show w ∈ [] from hw)

/-- The user sets the bit in the word of a buffer, and the message leaves out the scatter list of a
map that the backend has never seen. -/
theorem a_user_sets_the_flag :
    ∃ s, run (step sampleShared) (init (fun _ => some 1))
        [.context_alloc 1 0, .get_buf 0 ⟨4096, 64, some 5, 128, allOk⟩,
          .get_handles 0 false []] = some s ∧
      s.accepted = [] ∧ ∃ m ∈ s.ses.table.maps, flagged m.attr = true ∧
        ∀ r : MapRef, r.attr = m.attr → r.mapping.sgl = [] := by
  refine ⟨_, rfl, rfl, _, List.mem_cons_self, rfl, ?_⟩
  intro r hattr
  unfold MapRef.mapping MapRef.mapped
  rw [hattr]
  rfl

end virtual_fastrpc.mapped_flags
