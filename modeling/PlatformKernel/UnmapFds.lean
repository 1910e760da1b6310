-- munmap_fd of the virtio driver: it takes FASTRPC_ATTR_KEEP_MAP from the maps
-- of an fd, tells the backend and waits for its answer. A signal ends the wait,
-- and the message is parked for the next munmap_fd of the same thread.
import PlatformKernel.Lib.Runs
import PlatformKernel.MapClose

namespace virtual_fastrpc.unmap_fds

open map_table keyed step_runs

/-! ## The state -/

/-- A MUNMAP_FD message, with the result in the answer of the backend once it is there. -/
structure Msg where
  fd : Int
  result : Option Int
  deriving DecidableEq, Repr

/-- `struct virt_fastrpc_cmd`. Only munmap_fd parks a message, so all of them have its
command. -/
structure Cmd where
  tid : Nat
  msg : Nat
  deriving DecidableEq, Repr

/-- The request that holds the internal_map_mutex: its thread and its fd, the error of
vfastrpc_mmap_remove_fd, and the message that it waits for. The field `kept` is for the laws
only: the maps of the fd that had FASTRPC_ATTR_KEEP_MAP when the request began. -/
structure Request where
  tid : Nat
  fd : Int
  err : Option Errno
  msg : Option Nat
  kept : List Nat
  deriving DecidableEq, Repr

/-- How a request ended: whether it returned 0, which of the maps in `kept` still had the
attribute, and whether the backend had taken a message for the fd. -/
structure Return where
  fd : Int
  ok : Bool
  kept : List Nat
  left : List Nat
  acked : Bool
  deriving DecidableEq, Repr

structure Session where
  maps : List Map
  next : Nat
  dsp_proc_init : Bool
  msgs : List Msg
  interrupted_cmds : List Cmd
  request : Option Request
  returns : List Return
  deriving Repr

def init : Session := ⟨[], 0, false, [], [], none, []⟩

/-! ## The request -/

/-- The maps of the fd with the attribute. -/
def keptMaps (sh : AdsprpcShared) (maps : List Map) (fd : Int) : List Map :=
  maps.filter (fun m => decide (m.fd = fd) && m.keep sh)

def Session.acked (s : Session) (fd : Int) : Bool :=
  s.msgs.any (fun m => decide (m.fd = fd) && m.result == some 0)

/-- The maps of the list that still have the attribute. -/
def Session.left (sh : AdsprpcShared) (s : Session) (kept : List Nat) : List Nat :=
  kept.filter (fun id => s.maps.any (fun m => m.id == id && m.keep sh))

/-- The request returns and gives up the internal_map_mutex. -/
def Session.ret (sh : AdsprpcShared) (s : Session) (r : Request) (ok : Bool) : Session :=
  { s with
    request := none
    returns := ⟨r.fd, ok, r.kept, s.left sh r.kept, s.acked r.fd⟩ :: s.returns }

def find_interrupted_cmds (cmds : List Cmd) (tid : Nat) : Option (Nat × List Cmd) :=
  (cmds.find? (·.tid == tid)).map (fun c => (c.msg, cmds.eraseP (·.tid == tid)))

/-- vfastrpc_internal_munmap_fd up to the message: the lock, a parked message of the thread,
or else the map_mutex section. The other calls that take a kept map from the list hold the
internal_map_mutex too. -/
def munmap_fd_begin (sh : AdsprpcShared) (s : Session) (tid : Nat) (fd : Int) : Session :=
  let kept := (keptMaps sh s.maps fd).map Map.id
  match find_interrupted_cmds s.interrupted_cmds tid with
  | some (msg, cmds) =>
    { s with interrupted_cmds := cmds, request := some ⟨tid, fd, none, some msg, kept⟩ }
  | none =>
    let (maps, err) := mmap_remove_fd sh s.maps fd
    let r : Request := ⟨tid, fd, err, none, kept⟩
    -- without an entry the backend is not told
    if kept = [] then { s with maps }.ret sh r err.isNone
    else { s with maps, request := some r }

/-! ## The machine -/

inductive Act
  | dsp_init
  /-- Another call changes the maps of the session. -/
  | maps (maps : List Map) (next : Nat)
  | munmap_fd (tid : Nat) (fd : Int)
  /-- virt_alloc_msg and vfastrpc_txbuf_send, which may fail. -/
  | send (ok : Bool)
  | answer (msg : Nat) (result : Int)
  | wait_end
  /-- A signal ends the wait, and save_interrupted_cmds has the memory to park the message,
  or not. -/
  | interrupt (saved : Bool)
  deriving DecidableEq, Repr

/-- Calls on the maps make new maps and release old ones, but none of them puts the attribute
on a map that is there. -/
def mapsChange (sh : AdsprpcShared) (s : Session) (maps : List Map) (next : Nat) : Bool :=
  decide (s.next ≤ next) && decide (maps.map Map.id).Nodup &&
    maps.all (fun m => decide (m.id < next) && (decide (s.next ≤ m.id) ||
      s.maps.any (fun x => x.id == m.id && decide (x.fd = m.fd) && (!m.keep sh || x.keep sh))))

def step (sh : AdsprpcShared) (s : Session) : Act → Option Session
  | .dsp_init => some { s with dsp_proc_init := true }
  | .maps maps next => if mapsChange sh s maps next then some { s with maps, next } else none
  | .munmap_fd tid fd =>
    if s.request.isSome then none
    else if s.dsp_proc_init then some (munmap_fd_begin sh s tid fd)
    else some (s.ret sh ⟨tid, fd, none, none, (keptMaps sh s.maps fd).map Map.id⟩ false)
  | .send ok =>
    match s.request with
    | some ⟨tid, fd, err, none, kept⟩ =>
      if ok then
        some { s with
          msgs := s.msgs ++ [⟨fd, none⟩]
          request := some ⟨tid, fd, err, some s.msgs.length, kept⟩ }
      else some (s.ret sh ⟨tid, fd, err, none, kept⟩ false)
    | _ => none
  | .answer msg result =>
    some { s with msgs := s.msgs.modify msg (fun m => { m with result := some result }) }
  | .wait_end =>
    match s.request with
    | some ⟨tid, fd, err, some msg, kept⟩ =>
      match (s.msgs[msg]?).bind Msg.result with
      | some result =>
        some (s.ret sh ⟨tid, fd, err, some msg, kept⟩ (decide (result = 0) && err.isNone))
      | none => none
    | _ => none
  | .interrupt saved =>
    match s.request with
    | some ⟨tid, fd, err, some msg, kept⟩ =>
      if ((s.msgs[msg]?).bind Msg.result).isSome then none
      else if saved then
        -- the error of the wait is overwritten by the result of save_interrupted_cmds
        some ({ s with interrupted_cmds := ⟨tid, msg⟩ :: s.interrupted_cmds }.ret sh
          ⟨tid, fd, err, some msg, kept⟩ err.isNone)
      else some (s.ret sh ⟨tid, fd, err, some msg, kept⟩ false)
    | _ => none

/-! ## The law -/

/-- A request that returned 0 has left none of the maps with the attribute, and the backend
has taken a message for its fd when there was one. -/
def Honest (e : Return) : Prop := e.ok = true → e.left = [] ∧ (e.kept ≠ [] → e.acked = true)

/-- No wait is interrupted with its message parked. -/
def NotParked (_ : Session) (a : Act) : Prop := a ≠ .interrupt true

structure RequestOk (sh : AdsprpcShared) (s : Session) (r : Request) : Prop where
  known : ∀ id ∈ r.kept, id < s.next
  bare : ∀ m ∈ s.maps, m.id ∈ r.kept → m.keep sh = false
  msg : ∀ i, r.msg = some i → ∃ m, s.msgs[i]? = some m ∧ m.fd = r.fd

structure Inv (sh : AdsprpcShared) (s : Session) : Prop where
  unique : Unique Map.id s.maps
  known : ∀ m ∈ s.maps, m.id < s.next
  none_parked : s.interrupted_cmds = []
  request : ∀ r, s.request = some r → RequestOk sh s r
  returns : ∀ e ∈ s.returns, Honest e

theorem inv_init (sh : AdsprpcShared) : Inv sh init where
  unique := List.nodup_nil
  known := by intro m hm; cases hm
  none_parked := rfl
  request := by intro r hr; cases hr
  returns := by intro e he; cases he

theorem honest_of_failed {e : Return} (h : e.ok = false) : Honest e := by
  intro hok
  rw [h] at hok
  cases hok

theorem Inv.ret {sh : AdsprpcShared} {s : Session} (h : Inv sh s) (r : Request) {ok : Bool}
    (he : Honest ⟨r.fd, ok, r.kept, s.left sh r.kept, s.acked r.fd⟩) :
    Inv sh (s.ret sh r ok) := by
  refine ⟨h.unique, h.known, h.none_parked, nofun, ?_⟩
  intro e hmem
  rcases List.mem_cons.mp hmem with rfl | hmem
  · exact he
  · exact h.returns e hmem

/-- When no map of the request has the attribute any more, none is left. -/
theorem left_eq_nil {sh : AdsprpcShared} {s : Session} {kept : List Nat}
    (h : ∀ m ∈ s.maps, m.id ∈ kept → m.keep sh = false) : s.left sh kept = [] := by
  unfold Session.left
  rw [List.filter_eq_nil_iff]
  intro id hid hany
  obtain ⟨m, hm, hboth⟩ := List.any_eq_true.mp hany
  simp only [Bool.and_eq_true, beq_iff_eq] at hboth
  rw [h m hm (hboth.1 ▸ hid)] at hboth
  exact absurd hboth.2 nofun

theorem acked_of_msg {s : Session} {i : Nat} {m : Msg} (hi : s.msgs[i]? = some m)
    (hr : m.result = some 0) : s.acked m.fd = true := by
  refine List.any_eq_true.mpr ⟨m, List.mem_of_getElem? hi, ?_⟩
  simp [hr]

theorem mmap_free_attr {m m' : Map} (h : mmap_free false m = some m') : m'.attr = m.attr := by
  rcases mmap_free_cases m with ⟨_, he⟩ | ⟨_, _, _, _, he⟩
  · rw [he] at h
    cases h
    rfl
  · rw [he] at h
    split at h
    · cases h
    · cases h
      rfl

/-- What vfastrpc_mmap_remove_fd leaves of the maps: the same maps, and those of the fd are
without the attribute. -/
theorem mem_remove_fd {sh : AdsprpcShared} {maps : List Map} {fd : Int} {m' : Map}
    (h : m' ∈ (mmap_remove_fd sh maps fd).1) :
    ∃ m ∈ maps, m'.id = m.id ∧ (m.fd = fd ∧ m.keep sh = true → m'.keep sh = false) := by
  obtain ⟨m, hm, he⟩ := List.mem_filterMap.mp h
  refine ⟨m, hm, ?_⟩
  split at he
  · obtain ⟨hid, _⟩ := mmap_free_some he
    refine ⟨hid, fun _ => ?_⟩
    unfold Map.keep
    rw [mmap_free_attr he]
    exact keep_unkeep sh m
  · rename_i hno
    cases he
    exact ⟨rfl, fun hboth => absurd hboth hno⟩

theorem unique_remove_fd {sh : AdsprpcShared} {maps : List Map} {fd : Int}
    (h : Unique Map.id maps) : Unique Map.id (mmap_remove_fd sh maps fd).1 := by
  refine h.filterMap (fun m _ m' he => ?_)
  split at he
  · exact (mmap_free_some he).1
  · cases he
    rfl

theorem mem_keptMaps {sh : AdsprpcShared} {maps : List Map} {fd : Int} {id : Nat}
    (h : id ∈ (keptMaps sh maps fd).map Map.id) :
    ∃ m ∈ maps, m.id = id ∧ m.fd = fd ∧ m.keep sh = true := by
  obtain ⟨m, hm, rfl⟩ := List.mem_map.mp h
  obtain ⟨hm, hboth⟩ := List.mem_filter.mp hm
  simp only [Bool.and_eq_true, decide_eq_true_eq] at hboth
  exact ⟨m, hm, rfl, hboth⟩

/-- The maps of the fd that had the attribute are without it after the map_mutex section. -/
theorem bare_remove_fd {sh : AdsprpcShared} {maps : List Map} {fd : Int}
    (hu : Unique Map.id maps) : ∀ m' ∈ (mmap_remove_fd sh maps fd).1,
      m'.id ∈ (keptMaps sh maps fd).map Map.id → m'.keep sh = false := by
  intro m' hm' hid
  obtain ⟨m, hm, hmid, hbare⟩ := mem_remove_fd hm'
  obtain ⟨x, hx, hxid, hxfd, hxkeep⟩ := mem_keptMaps hid
  have hxm : x = m := hu.eq hx hm (hxid.trans hmid)
  subst hxm
  exact hbare ⟨hxfd, hxkeep⟩

theorem inv_begin {sh : AdsprpcShared} {s : Session} (h : Inv sh s) (hreq : s.request = none)
    (tid : Nat) (fd : Int) : Inv sh (munmap_fd_begin sh s tid fd) := by
  have hremoved : Inv sh { s with maps := (mmap_remove_fd sh s.maps fd).1 } := by
    refine ⟨unique_remove_fd h.unique, ?_, h.none_parked, ?_, h.returns⟩
    · intro m hm
      obtain ⟨x, hx, hid, _⟩ := mem_remove_fd hm
      rw [hid]
      exact h.known x hx
    · intro r hr
      exact absurd (hreq.symm.trans hr) nofun
  have hfind : find_interrupted_cmds s.interrupted_cmds tid = none := by
    rw [h.none_parked]
    rfl
  unfold munmap_fd_begin
  rw [hfind]
  dsimp only
  split
  · rename_i hnil
    apply hremoved.ret
    intro _
    dsimp only
    rw [hnil]
    exact ⟨rfl, fun hne => absurd rfl hne⟩
  · refine ⟨hremoved.unique, hremoved.known, h.none_parked, ?_, h.returns⟩
    intro r hr
    cases hr
    refine ⟨?_, bare_remove_fd h.unique, nofun⟩
    intro id hid
    obtain ⟨m, hm, rfl, _⟩ := mem_keptMaps hid
    exact h.known m hm

/-- What another call does to the maps puts the attribute on none that the request took it
from. -/
theorem inv_maps {sh : AdsprpcShared} {s : Session} {maps : List Map} {next : Nat} (h : Inv sh s)
    (hc : mapsChange sh s maps next = true) : Inv sh { s with maps, next } := by
  simp only [mapsChange, Bool.and_eq_true, decide_eq_true_eq, List.all_eq_true, Bool.or_eq_true,
    List.any_eq_true, beq_iff_eq, Bool.not_eq_true'] at hc
  obtain ⟨⟨hnext, hnodup⟩, hall⟩ := hc
  refine ⟨hnodup, fun m hm => (hall m hm).1, h.none_parked, ?_, h.returns⟩
  intro r hr
  have hok := h.request r hr
  refine ⟨fun id hid => Nat.lt_of_lt_of_le (hok.known id hid) hnext, ?_, hok.msg⟩
  intro m hm hid
  rcases (hall m hm).2 with hnew | ⟨x, hx, ⟨hxid, _⟩, hkeep⟩
  · exact absurd (hok.known m.id hid) (Nat.not_lt.mpr hnew)
  · rcases hkeep with hkeep | hkeep
    · exact hkeep
    · have hbare := hok.bare x hx (hxid ▸ hid)
      exact absurd (hbare.symm.trans hkeep) nofun

theorem inv_answer {sh : AdsprpcShared} {s : Session} (h : Inv sh s) (i : Nat) (result : Int) :
    Inv sh { s with msgs := s.msgs.modify i (fun m => { m with result := some result }) } := by
  refine ⟨h.unique, h.known, h.none_parked, ?_, h.returns⟩
  intro r hr
  have hok := h.request r hr
  refine ⟨hok.known, hok.bare, ?_⟩
  intro j hj
  obtain ⟨m, hm, hfd⟩ := hok.msg j hj
  by_cases hij : i = j
  · refine ⟨{ m with result := some result }, ?_, hfd⟩
    simp [hm, hij]
  · refine ⟨m, ?_, hfd⟩
    simp [hm, hij]

theorem step_inv (sh : AdsprpcShared) (s : Session) (a : Act) (t : Session) (h : Inv sh s)
    (hpark : NotParked s a) (ht : step sh s a = some t) : Inv sh t := by
  cases a with
  | dsp_init =>
    cases ht
    refine ⟨h.unique, h.known, h.none_parked, ?_, h.returns⟩
    intro r hr
    obtain ⟨h1, h2, h3⟩ := h.request r hr
    exact ⟨h1, h2, h3⟩
  | maps maps next =>
    simp only [step] at ht
    split at ht
    · cases ht
      exact inv_maps h ‹_›
    · cases ht
  | munmap_fd tid fd =>
    simp only [step] at ht
    split at ht
    · cases ht
    · rename_i hnone
      have hreq : s.request = none := by simpa using hnone
      split at ht
      · cases ht
        exact inv_begin h hreq tid fd
      · cases ht
        exact h.ret _ (honest_of_failed rfl)
  | send ok =>
    simp only [step] at ht
    split at ht
    · rename_i tid fd err kept hreq
      have hok := h.request _ hreq
      split at ht
      · cases ht
        refine ⟨h.unique, h.known, h.none_parked, ?_, h.returns⟩
        intro r hr
        cases hr
        refine ⟨hok.known, hok.bare, ?_⟩
        intro i hi
        cases hi
        exact ⟨⟨fd, none⟩, by simp, rfl⟩
      · cases ht
        exact h.ret _ (honest_of_failed rfl)
    · cases ht
  | answer i result =>
    cases ht
    exact inv_answer h i result
  | wait_end =>
    simp only [step] at ht
    split at ht
    · rename_i tid fd err msg kept hreq
      have hok := h.request _ hreq
      split at ht
      · rename_i result hresult
        cases ht
        obtain ⟨m, hm, hfd⟩ := hok.msg msg rfl
        rw [hm] at hresult
        apply h.ret
        intro hzero
        simp only [Bool.and_eq_true, decide_eq_true_eq] at hzero
        refine ⟨left_eq_nil hok.bare, fun _ => ?_⟩
        dsimp only at hfd ⊢
        rw [← hfd]
        apply acked_of_msg hm
        rw [← hzero.1]
        exact hresult
      · cases ht
    · cases ht
  | interrupt saved =>
    simp only [step] at ht
    split at ht
    · split at ht
      · cases ht
      · split at ht
        · rename_i hsaved
          exact absurd (by rw [hsaved]) hpark
        · cases ht
          exact h.ret _ (honest_of_failed rfl)
    · cases ht

/-- In every run of munmap_fd requests of a session, by any threads and with other calls at
work on its maps, in which no message of an interrupted wait is parked: a request that returns
0 has left no map of its fd with FASTRPC_ATTR_KEEP_MAP that had it when the request began, and
when there was one the backend has taken a MUNMAP_FD message for the fd. -/
theorem munmap_fd_does_what_it_reports (sh : AdsprpcShared) {s : Session}
    (hr : ReachableUnder (step sh) NotParked init s) : ∀ e ∈ s.returns, Honest e := by
  have hinv : Inv sh s := hr.inv (Inv sh) (step_inv sh) (inv_init sh)
  exact hinv.returns

/-- A map of fd 5 that mem_map left with the attribute. -/
def keptMap (id : Nat) (fd : Int) : Map := ⟨id, fd, 0, 8, 0, 0x1000, 0x1000, 0, 1, 0, 0⟩

/-- A request whose message the backend takes gives up the map and returns 0. -/
theorem an_acknowledged_munmap_fd_returns_zero :
    ∃ s, run (step sampleShared) init
        [.dsp_init, .maps [keptMap 0 5] 1, .munmap_fd 9 5, .send true, .answer 0 0,
          .wait_end] = some s ∧
      (∃ e ∈ s.returns, e.ok = true ∧ e.kept = [0]) ∧ ∀ e ∈ s.returns, Honest e := by
  refine ⟨_, rfl, ⟨_, List.mem_cons_self, rfl, rfl⟩, ?_⟩
  refine munmap_fd_does_what_it_reports sampleShared
    ⟨[.dsp_init, .maps [keptMap 0 5] 1, .munmap_fd 9 5, .send true, .answer 0 0, .wait_end],
      ?_, rfl⟩
  exact meets_of_forall (by simp [NotParked]) _

/-- A signal ends the wait of a request before the backend has answered, and it returns 0. The
next request of the thread, for another fd, waits for the answer to the first one, and returns
0 with the map of its fd as it was. -/
theorem an_interrupted_munmap_fd_returns_zero :
    ∃ s, run (step sampleShared) init
        [.dsp_init, .maps [keptMap 1 6, keptMap 0 5] 2, .munmap_fd 9 5, .send true,
          .interrupt true, .munmap_fd 9 6, .answer 0 0, .wait_end] = some s ∧
      s.returns = [⟨6, true, [1], [1], false⟩, ⟨5, true, [0], [], false⟩] ∧
      ∀ e ∈ s.returns, ¬Honest e := by
  refine ⟨_, rfl, rfl, ?_⟩
  intro e he
  rcases List.mem_cons.mp he with rfl | he
  · exact fun h => absurd (h rfl).1 (by decide)
  · rcases List.mem_cons.mp he with rfl | he
    · exact fun h => absurd ((h rfl).2 (by decide)) (by decide)
    · cases he

end virtual_fastrpc.unmap_fds
