-- The ids of the DSP processes (fastrpc_common.c): each session takes at most
-- one when it is set up, and gives it back when it is closed. A step is one
-- critical section of the code, or the code between two of them.
import PlatformKernel.Sessions
import Mathlib.Data.List.Perm.Subperm

namespace virtual_fastrpc.process_ids

open virtual_fastrpc.sessions keyed step_runs

/-- How far a session has come in GETINFO, or in its release. -/
inductive Pc
  | idle
  /-- get_info has set `set_session_info`, and calls set_process_info. -/
  | marked
  /-- get_unique_hlos_process_id has returned this, and `tgid_frpc` does not have it yet. -/
  | taken (tgid_frpc : Int)
  /-- file_free has put the id back. -/
  | freed
  deriving DecidableEq, Repr

structure Session where
  ptr : Nat
  tgid_frpc : Int
  set_session_info : Bool
  pc : Pc
  deriving DecidableEq, Repr

structure Ids where
  frpc_tgid_usage_array : Nat → Bool
  sessions : List Session

def Ids.session (s : Ids) (v : Nat) : Option Session := lookup Session.ptr s.sessions v

def Ids.setSession (s : Ids) (v : Nat) (x : Session) : Ids :=
  { s with sessions := update Session.ptr s.sessions v (fun _ => x) }

def init : Ids := ⟨fun _ => false, []⟩

def file_alloc (v : Nat) : Session := ⟨v, -1, false, .idle⟩

/-- The first part of hfastrpc_get_info and vfastrpc_internal_get_info. The hybrid driver may
then refuse the domain; the session info stays set. -/
def get_info (x : Session) (refused : Bool) : Session :=
  if x.set_session_info then x
  else { x with set_session_info := true, pc := if refused then .idle else .marked }

/-- The lowest id that is not in use. -/
def unused (usage : Nat → Bool) : Option Nat :=
  (List.range' 1 (MAX_FRPC_TGID - 1)).find? (fun i => !usage i)

/-- The array with one entry set. -/
def setUsage (usage : Nat → Bool) (i : Nat) (b : Bool) : Nat → Bool :=
  fun j => if j = i then b else usage j

/-- The critical section of get_unique_hlos_process_id. -/
def get_unique_hlos_process_id (s : Ids) (x : Session) : Ids :=
  match unused s.frpc_tgid_usage_array with
  | some i =>
    { s.setSession x.ptr { x with pc := .taken i } with
      frpc_tgid_usage_array := setUsage s.frpc_tgid_usage_array i true }
  | none => s.setSession x.ptr { x with pc := .taken (-1) }

/-- set_process_info writes the id; without one it returns -EUSERS. What may fail after it
leaves the id. -/
def set_process_info (x : Session) (id : Int) : Session := { x with tgid_frpc := id, pc := .idle }

/-- The critical section of put_unique_hlos_process_id. -/
def put_unique_hlos_process_id (s : Ids) (x : Session) : Ids :=
  let t := s.setSession x.ptr { x with pc := .freed }
  if x.tgid_frpc = -1 then t
  else { t with
    frpc_tgid_usage_array := setUsage s.frpc_tgid_usage_array x.tgid_frpc.toNat false }

inductive Act
  | open_node (v : Nat)
  | get_info (v : Nat) (refused : Bool)
  | get_unique_hlos_process_id (v : Nat)
  | set_process_info (v : Nat)
  | put_unique_hlos_process_id (v : Nat)
  | file_free (v : Nat)
  deriving DecidableEq, Repr

/-- A release waits for the requests of its session. GETINFO may be called by several threads at
once: all but the first find `set_session_info` set. -/
def step (s : Ids) : Act → Option Ids
  | .open_node v =>
    if (s.session v).isSome then none else some { s with sessions := file_alloc v :: s.sessions }
  | .get_info v refused => (s.session v).bind fun x =>
    if x.pc = .freed then none else some (s.setSession x.ptr (get_info x refused))
  | .get_unique_hlos_process_id v => (s.session v).bind fun x =>
    if x.pc = .marked then some (get_unique_hlos_process_id s x) else none
  | .set_process_info v => (s.session v).bind fun x =>
    match x.pc with
    | .taken id => some (s.setSession x.ptr (set_process_info x id))
    | _ => none
  | .put_unique_hlos_process_id v => (s.session v).bind fun x =>
    if x.pc = .idle then some (put_unique_hlos_process_id s x) else none
  | .file_free v => (s.session v).bind fun x =>
    if x.pc = .freed then some { s with sessions := remove Session.ptr s.sessions x.ptr } else none

/-! ## The invariant -/

/-- The id that a session has, in its field or on its way there. -/
def held (x : Session) : Int :=
  match x.pc with
  | .idle | .marked => x.tgid_frpc
  | .taken id => id
  | .freed => -1

/-- A session has no id before GETINFO has written it. -/
def Fresh (x : Session) : Prop :=
  match x.pc with
  | .idle | .freed => x.set_session_info = false → x.tgid_frpc = -1
  | .marked | .taken _ => x.set_session_info = true ∧ x.tgid_frpc = -1

structure Inv (s : Ids) : Prop where
  unique : Unique Session.ptr s.sessions
  range : ∀ x ∈ s.sessions, held x ≠ -1 → 1 ≤ held x ∧ held x < MAX_FRPC_TGID
  usage : ∀ k, s.frpc_tgid_usage_array k = true ↔ ∃ x ∈ s.sessions, held x = k
  apart : ∀ x ∈ s.sessions, ∀ y ∈ s.sessions, held x ≠ -1 → held x = held y → x = y
  fresh : ∀ x ∈ s.sessions, Fresh x

theorem inv_init : Inv init where
  unique := List.nodup_nil
  range := by simp [init]
  usage := by simp [init]
  apart := by simp [init]
  fresh := by simp [init]

theorem unused_some {usage : Nat → Bool} {i : Nat} (h : unused usage = some i) :
    1 ≤ i ∧ i < MAX_FRPC_TGID ∧ usage i = false := by
  have hm := List.mem_of_find?_eq_some h
  have hp := List.find?_some h
  rw [List.mem_range'_1] at hm
  exact ⟨hm.1, by simp only [MAX_FRPC_TGID] at hm ⊢; omega, by simpa using hp⟩

theorem unused_none {usage : Nat → Bool} (h : unused usage = none) {i : Nat} (h1 : 1 ≤ i)
    (hi : i < MAX_FRPC_TGID) : usage i = true := by
  have hm : i ∈ List.range' 1 (MAX_FRPC_TGID - 1) := by
    rw [List.mem_range'_1]
    simp only [MAX_FRPC_TGID] at hi ⊢
    omega
  have := List.find?_eq_none.mp h i hm
  simpa using this

theorem mem_setSession {s : Ids} (hu : Unique Session.ptr s.sessions) {x y : Session}
    (hx : x ∈ s.sessions) {z : Session} :
    z ∈ (s.setSession x.ptr y).sessions ↔ (z ∈ s.sessions ∧ z ≠ x) ∨ z = y := by
  unfold Ids.setSession
  rw [mem_update]
  constructor
  · rintro (⟨hz, hne⟩ | ⟨w, _, _, rfl⟩)
    · exact Or.inl ⟨hz, fun he => hne (by rw [he])⟩
    · exact Or.inr rfl
  · rintro (⟨hz, hne⟩ | rfl)
    · exact Or.inl ⟨hz, fun he => hne (hu.eq hz hx he)⟩
    · exact Or.inr ⟨x, hx, rfl, rfl⟩

theorem session_setSession_self {s : Ids} {x y : Session} (hx : s.session x.ptr = some x)
    (hptr : y.ptr = x.ptr) : (s.setSession x.ptr y).session x.ptr = some y :=
  lookup_update_const_self hptr hx

/-- One session changes its id, and the array follows: what it had is free, and what it has now
is in use. It gets only an id that no other session has. -/
theorem Inv.change {s : Ids} (h : Inv s) {x y : Session} (hx : x ∈ s.sessions)
    (hptr : y.ptr = x.ptr) {usage : Nat → Bool}
    (husage : ∀ k : Nat, usage k = true ↔
      (s.frpc_tgid_usage_array k = true ∧ (k : Int) ≠ held x) ∨ (k : Int) = held y)
    (hheld : held y = -1 ∨ 1 ≤ held y ∧ held y < MAX_FRPC_TGID ∧
      ∀ z ∈ s.sessions, z ≠ x → held z ≠ held y) (hfresh : Fresh y) :
    Inv { s.setSession x.ptr y with frpc_tgid_usage_array := usage } := by
  have hmem : ∀ {z}, z ∈ (s.setSession x.ptr y).sessions ↔ (z ∈ s.sessions ∧ z ≠ x) ∨ z = y :=
    mem_setSession h.unique hx
  refine ⟨h.unique.update_const hptr, ?_, ?_, ?_, ?_⟩
  · intro z hz hne
    rcases hmem.mp hz with ⟨hz, _⟩ | rfl
    · exact h.range z hz hne
    · rcases hheld with hnone | hsome
      · exact absurd hnone hne
      · exact ⟨hsome.1, hsome.2.1⟩
  · intro k
    show usage k = true ↔ _
    rw [husage, h.usage]
    constructor
    · rintro (⟨⟨z, hz, hk⟩, hne⟩ | hk)
      · exact ⟨z, hmem.mpr (Or.inl ⟨hz, fun he => hne (by rw [← hk, he])⟩), hk⟩
      · exact ⟨y, hmem.mpr (Or.inr rfl), hk.symm⟩
    · rintro ⟨z, hz, hk⟩
      rcases hmem.mp hz with ⟨hz, hne⟩ | rfl
      · refine Or.inl ⟨⟨z, hz, hk⟩, fun he => hne ?_⟩
        exact h.apart z hz x hx (by omega) (hk.trans he)
      · exact Or.inr hk.symm
  · intro z hz w hw hne he
    rcases hmem.mp hz with ⟨hzs, hzx⟩ | hzy
    · rcases hmem.mp hw with ⟨hws, _⟩ | hwy
      · exact h.apart z hzs w hws hne he
      · rw [hwy] at he
        rcases hheld with hnone | hsome
        · exact absurd (he.trans hnone) hne
        · exact absurd he (hsome.2.2 z hzs hzx)
    · rw [hzy] at he hne
      rcases hmem.mp hw with ⟨hws, hwx⟩ | hwy
      · rcases hheld with hnone | hsome
        · exact absurd hnone hne
        · exact absurd he.symm (hsome.2.2 w hws hwx)
      · rw [hzy, hwy]
  · intro z hz
    rcases hmem.mp hz with ⟨hzs, _⟩ | rfl
    · exact h.fresh z hzs
    · exact hfresh

/-- A session that keeps its id. -/
theorem Inv.keep {s : Ids} (h : Inv s) {x y : Session} (hx : x ∈ s.sessions)
    (hptr : y.ptr = x.ptr) (hheld : held y = held x) (hfresh : Fresh y) :
    Inv (s.setSession x.ptr y) := by
  refine h.change hx hptr ?_ ?_ hfresh
  · intro k
    rw [hheld]
    constructor
    · intro hk
      by_cases he : (k : Int) = held x
      · exact Or.inr he
      · exact Or.inl ⟨hk, he⟩
    · rintro (hk | hk)
      · exact hk.1
      · exact (h.usage k).mpr ⟨x, hx, hk.symm⟩
  · rw [hheld]
    by_cases hne : held x = -1
    · exact Or.inl hne
    · refine Or.inr ⟨(h.range x hx hne).1, (h.range x hx hne).2, fun z hz hzx he => hzx ?_⟩
      exact (h.apart x hx z hz hne he.symm).symm

/-! ## The steps -/

theorem get_info_keeps {s : Ids} (h : Inv s) {x : Session} (hx : x ∈ s.sessions)
    (hpc : x.pc ≠ .freed) (refused : Bool) : Inv (s.setSession x.ptr (get_info x refused)) := by
  have hfr := h.fresh x hx
  unfold get_info
  split
  · exact h.keep hx rfl rfl hfr
  · rename_i hset
    -- only a session that is idle is not set up
    have hidle : x.pc = .idle := by
      unfold Fresh at hfr
      rcases hp : x.pc with _ | _ | id | _
      · rfl
      · rw [hp] at hfr
        exact absurd hfr.1 hset
      · rw [hp] at hfr
        exact absurd hfr.1 hset
      · exact absurd hp hpc
    have hnone : x.tgid_frpc = -1 := by
      rw [Fresh, hidle] at hfr
      exact hfr (by simpa using hset)
    cases refused
    · exact h.keep hx rfl (by simp [held, hidle]) ⟨rfl, hnone⟩
    · exact h.keep hx rfl (by simp [held, hidle]) (fun _ => hnone)

theorem get_unique_keeps {s : Ids} (h : Inv s) {x : Session} (hx : x ∈ s.sessions)
    (hpc : x.pc = .marked) : Inv (get_unique_hlos_process_id s x) := by
  have hfr := h.fresh x hx
  rw [Fresh, hpc] at hfr
  have hheld : held x = -1 := by simp [held, hpc, hfr.2]
  unfold get_unique_hlos_process_id
  split
  · rename_i i hi
    obtain ⟨h1, hlt, hfree⟩ := unused_some hi
    refine h.change (y := { x with pc := .taken i }) hx rfl ?_ ?_ hfr
    · intro k
      have hk : (k : Int) ≠ held x := by omega
      have htaken : held { x with pc := .taken (i : Int) } = i := rfl
      rw [htaken]
      unfold setUsage
      by_cases hki : k = i
      · simp [hki]
      · simp [hki, hk]
    · refine Or.inr ⟨?_, ?_, ?_⟩
      · show (1 : Int) ≤ i
        omega
      · show (i : Int) < MAX_FRPC_TGID
        omega
      · intro z hz _ he
        have := (h.usage i).mpr ⟨z, hz, he⟩
        rw [hfree] at this
        cases this
  · exact h.keep hx rfl hheld.symm hfr

theorem set_process_info_keeps {s : Ids} (h : Inv s) {x : Session} (hx : x ∈ s.sessions) {id : Int}
    (hpc : x.pc = .taken id) : Inv (s.setSession x.ptr (set_process_info x id)) := by
  have hfr := h.fresh x hx
  rw [Fresh, hpc] at hfr
  refine h.keep hx rfl ?_ ?_
  · simp [held, set_process_info, hpc]
  · intro hc
    exact absurd (hfr.1.symm.trans hc) (by decide)

theorem put_unique_keeps {s : Ids} (h : Inv s) {x : Session} (hx : x ∈ s.sessions)
    (hpc : x.pc = .idle) : Inv (put_unique_hlos_process_id s x) := by
  have hfr := h.fresh x hx
  rw [Fresh, hpc] at hfr
  have hheld : held x = x.tgid_frpc := by simp [held, hpc]
  unfold put_unique_hlos_process_id
  dsimp only
  split
  · rename_i hnone
    exact h.keep hx rfl (by rw [hheld, hnone]; rfl) hfr
  · rename_i hsome
    have hrange := h.range x hx (by rw [hheld]; exact hsome)
    refine h.change (y := { x with pc := .freed }) hx rfl ?_ (Or.inl rfl) hfr
    intro k
    have hfreed : (k : Int) ≠ held { x with pc := .freed } := by
      show (k : Int) ≠ -1
      omega
    unfold setUsage
    by_cases hk : k = x.tgid_frpc.toNat
    · have hkx : (k : Int) = held x := by omega
      rw [if_pos hk, ← hkx]
      simp [hfreed]
    · have hkx : (k : Int) ≠ held x := by omega
      simp [hk, hkx, hfreed]

theorem open_node_keeps {s : Ids} (h : Inv s) {v : Nat} (hv : s.session v = none) :
    Inv { s with sessions := file_alloc v :: s.sessions } := by
  have hnew : held (file_alloc v) = -1 := rfl
  refine ⟨h.unique.cons (lookup_eq_none.mp hv), ?_, ?_, ?_, ?_⟩
  · intro x hx hne
    rcases List.mem_cons.mp hx with rfl | hx
    · exact absurd hnew hne
    · exact h.range x hx hne
  · intro k
    show s.frpc_tgid_usage_array k = true ↔ _
    rw [h.usage]
    have hk : ¬ held (file_alloc v) = (k : Int) := by
      rw [hnew]
      omega
    simp [hk]
  · intro x hx y hy hne he
    rcases List.mem_cons.mp hx with rfl | hx
    · exact absurd hnew hne
    · rcases List.mem_cons.mp hy with rfl | hy
      · exact absurd (he.trans hnew) hne
      · exact h.apart x hx y hy hne he
  · intro x hx
    rcases List.mem_cons.mp hx with rfl | hx
    · exact fun _ => rfl
    · exact h.fresh x hx

theorem file_free_keeps {s : Ids} (h : Inv s) {x : Session} (hx : x ∈ s.sessions)
    (hpc : x.pc = .freed) : Inv { s with sessions := remove Session.ptr s.sessions x.ptr } := by
  have hheld : held x = -1 := by simp [held, hpc]
  have hold : ∀ {z}, z ∈ remove Session.ptr s.sessions x.ptr → z ∈ s.sessions :=
    fun hz => (mem_remove.mp hz).1
  refine ⟨h.unique.remove, fun z hz => h.range z (hold hz), ?_,
    fun z hz w hw => h.apart z (hold hz) w (hold hw), fun z hz => h.fresh z (hold hz)⟩
  intro k
  show s.frpc_tgid_usage_array k = true ↔ _
  rw [h.usage]
  constructor
  · rintro ⟨z, hz, hk⟩
    refine ⟨z, mem_remove.mpr ⟨hz, fun he => ?_⟩, hk⟩
    rw [h.unique.eq hz hx he] at hk
    omega
  · rintro ⟨z, hz, hk⟩
    exact ⟨z, hold hz, hk⟩

/-- A step on the session at `v`. -/
theorem session_step {s t : Ids} {v : Nat} {g : Session → Option Ids}
    (h : (s.session v).bind g = some t) :
    ∃ x, x ∈ s.sessions ∧ x.ptr = v ∧ s.session v = some x ∧ g x = some t := by
  obtain ⟨x, hx, hg⟩ := Option.bind_eq_some_iff.mp h
  exact ⟨x, mem_of_lookup hx, key_of_lookup hx, hx, hg⟩

theorem step_inv (s : Ids) (a : Act) (t : Ids) (h : Inv s) (ht : step s a = some t) : Inv t := by
  cases a with
  | open_node v =>
    simp only [step] at ht
    split at ht
    · cases ht
    · rename_i hnew
      cases ht
      exact open_node_keeps h (by simpa using hnew)
  | get_info v refused =>
    obtain ⟨x, hx, _, _, hg⟩ := session_step ht
    obtain ⟨hpc, ⟨⟩⟩ := Option.ite_none_left_eq_some.mp hg
    exact get_info_keeps h hx hpc refused
  | get_unique_hlos_process_id v =>
    obtain ⟨x, hx, _, _, hg⟩ := session_step ht
    obtain ⟨hpc, ⟨⟩⟩ := Option.ite_none_right_eq_some.mp hg
    exact get_unique_keeps h hx hpc
  | set_process_info v =>
    obtain ⟨x, hx, _, _, hg⟩ := session_step ht
    split at hg
    · cases hg
      exact set_process_info_keeps h hx ‹_›
    · cases hg
  | put_unique_hlos_process_id v =>
    obtain ⟨x, hx, _, _, hg⟩ := session_step ht
    obtain ⟨hpc, ⟨⟩⟩ := Option.ite_none_right_eq_some.mp hg
    exact put_unique_keeps h hx hpc
  | file_free v =>
    obtain ⟨x, hx, _, _, hg⟩ := session_step ht
    obtain ⟨hpc, ⟨⟩⟩ := Option.ite_none_right_eq_some.mp hg
    exact file_free_keeps h hx hpc

/-! ## The laws -/

/-- The sessions that have an id. -/
def holders (s : Ids) : List Session := s.sessions.filter (fun x => held x != -1)

theorem Inv.holders_nodup {s : Ids} (h : Inv s) : ((holders s).map held).Nodup := by
  refine List.Nodup.map_on ?_ ((List.Nodup.of_map _ h.unique).filter _)
  intro x hx y hy he
  obtain ⟨hx, hne⟩ := List.mem_filter.mp hx
  exact h.apart x hx y (List.mem_filter.mp hy).1 (by simpa using hne) he

/-- The ids that there are. -/
def ids : List Int := (List.range' 1 (MAX_FRPC_TGID - 1)).map (fun i : Nat => (i : Int))

theorem mem_ids {k : Int} : k ∈ ids ↔ 1 ≤ k ∧ k < MAX_FRPC_TGID := by
  unfold ids
  rw [List.mem_map]
  constructor
  · rintro ⟨i, hi, rfl⟩
    rw [List.mem_range'_1] at hi
    simp only [MAX_FRPC_TGID] at hi ⊢
    omega
  · rintro ⟨h1, h2⟩
    refine ⟨k.toNat, ?_, by omega⟩
    rw [List.mem_range'_1]
    simp only [MAX_FRPC_TGID] at h2 ⊢
    omega

/-- Without an unused id, every id has its session. -/
theorem Inv.all_held {s : Ids} (h : Inv s) (hfull : unused s.frpc_tgid_usage_array = none) :
    (holders s).length = MAX_FRPC_TGID - 1 := by
  have hids : ids.Nodup := List.Nodup.map Nat.cast_injective List.nodup_range'
  have hlen : ids.length = MAX_FRPC_TGID - 1 := by simp [ids]
  have hle : (holders s).map held ⊆ ids := by
    intro k hk
    obtain ⟨x, hx, rfl⟩ := List.mem_map.mp hk
    obtain ⟨hx, hne⟩ := List.mem_filter.mp hx
    exact mem_ids.mpr (h.range x hx (by simpa using hne))
  have hge : ids ⊆ (holders s).map held := by
    intro k hk
    obtain ⟨h1, h2⟩ := mem_ids.mp hk
    have hused := unused_none hfull (i := k.toNat) (by omega) (by omega)
    obtain ⟨x, hx, hxk⟩ := (h.usage k.toNat).mp hused
    refine List.mem_map.mpr ⟨x, List.mem_filter.mpr ⟨hx, ?_⟩, by omega⟩
    simp only [bne_iff_ne, ne_eq]
    omega
  have h1 := (h.holders_nodup.subperm hle).length_le
  have h2 := (hids.subperm hge).length_le
  simp only [List.length_map] at h1 h2
  omega

/-- In every run of the sessions, in any order of their steps: two open sessions with an id have
different ones, in 1..255; an id is in use exactly when an open session has it; a session that is
closed leaves its id free; and -EUSERS comes only when 255 sessions have ids. -/
theorem process_ids_are_unique {s : Ids} (h : Reachable step init s) :
    (∀ x ∈ s.sessions, ∀ y ∈ s.sessions, x.pc ≠ .freed → y.pc ≠ .freed → x.tgid_frpc ≠ -1 →
      x.tgid_frpc = y.tgid_frpc → x = y) ∧
    (∀ x ∈ s.sessions, x.pc ≠ .freed → x.tgid_frpc ≠ -1 →
      1 ≤ x.tgid_frpc ∧ x.tgid_frpc ≤ 255) ∧
    (∀ k, s.frpc_tgid_usage_array k = true ↔ ∃ x ∈ s.sessions, held x = k) ∧
    (∀ v x t, s.session v = some x → step s (.put_unique_hlos_process_id v) = some t →
      x.tgid_frpc ≠ -1 → t.frpc_tgid_usage_array x.tgid_frpc.toNat = false) ∧
    ∀ v t y, step s (.get_unique_hlos_process_id v) = some t → t.session v = some y →
      y.pc = .taken (-1) → (holders s).length = 255 := by
  have hinv : Inv s := h.inv Inv step_inv inv_init
  -- an open session that has written its id holds it
  have hheld : ∀ x ∈ s.sessions, x.pc ≠ .freed → x.tgid_frpc ≠ -1 → held x = x.tgid_frpc := by
    intro x hx hopen hne
    have hfr := hinv.fresh x hx
    unfold held
    unfold Fresh at hfr
    rcases hpc : x.pc with _ | _ | id | _
    · rfl
    · rfl
    · rw [hpc] at hfr
      exact absurd hfr.2 hne
    · exact absurd hpc hopen
  refine ⟨?_, ?_, hinv.usage, ?_, ?_⟩
  · intro x hx y hy hxo hyo hne he
    have h1 := hheld x hx hxo hne
    have h2 := hheld y hy hyo (he ▸ hne)
    exact hinv.apart x hx y hy (by rw [h1]; exact hne) (by rw [h1, h2, he])
  · intro x hx hopen hne
    have h1 := hheld x hx hopen hne
    have hrange := hinv.range x hx (by rw [h1]; exact hne)
    simp only [MAX_FRPC_TGID] at hrange
    omega
  · intro v x t hx ht hne
    obtain ⟨y, _, _, hy, hg⟩ := session_step ht
    rw [hx] at hy
    cases hy
    obtain ⟨_, ⟨⟩⟩ := Option.ite_none_right_eq_some.mp hg
    simp [put_unique_hlos_process_id, hne, setUsage]
  · intro v t y ht hy hpc
    obtain ⟨x, hx, rfl, hxv, hg⟩ := session_step ht
    obtain ⟨_, ⟨⟩⟩ := Option.ite_none_right_eq_some.mp hg
    apply hinv.all_held
    unfold get_unique_hlos_process_id at hy
    split at hy
    · rename_i i _
      have hself := @session_setSession_self s x { x with pc := .taken i } hxv rfl
      cases hself.symm.trans hy
      cases hpc
    · assumption

/-- Two sessions are set up in turns, and the first one is closed. -/
theorem a_closed_session_frees_its_id :
    ∃ s, run step init
        [.open_node 7, .open_node 8, .get_info 7 false, .get_info 8 false,
          .get_unique_hlos_process_id 8, .get_unique_hlos_process_id 7, .set_process_info 7,
          .set_process_info 8, .put_unique_hlos_process_id 8] = some s ∧
      (s.frpc_tgid_usage_array 1 = true ↔ ∃ x ∈ s.sessions, held x = (1 : Nat)) ∧
      s.frpc_tgid_usage_array 1 = false ∧ s.frpc_tgid_usage_array 2 = true := by
  refine ⟨_, rfl, ?_, by decide, by decide⟩
  exact (process_ids_are_unique ⟨[.open_node 7, .open_node 8, .get_info 7 false,
    .get_info 8 false, .get_unique_hlos_process_id 8, .get_unique_hlos_process_id 7,
    .set_process_info 7, .set_process_info 8, .put_unique_hlos_process_id 8], rfl⟩).2.2.1 1

/-! ## The sessions of the drivers -/

/-- A session between two requests. -/
def ofFile (f : File) : Session := ⟨f.ptr, f.tgid_frpc, f.set_session_info, .idle⟩

/-- The part of the driver that is about the ids. -/
def ofApps (s : Apps) : Ids := ⟨s.frpc_tgid_usage_array, s.drivers.map ofFile⟩

/-- What set_process_info does with the ids. -/
def Takes (s : Apps) (r : Done) : Prop :=
  match unused s.frpc_tgid_usage_array with
  | some i => r.file.tgid_frpc = i ∧
    r.apps.frpc_tgid_usage_array = setUsage s.frpc_tgid_usage_array i true
  | none => r.file.tgid_frpc = -1 ∧ r.apps.frpc_tgid_usage_array = s.frpc_tgid_usage_array

/-- What a request can do with the ids: nothing, or set up the session without an id, or with
one. -/
structure UsesIds (s : Apps) (f : File) (r : Done) : Prop where
  drivers : r.apps.drivers = s.drivers
  ptr : r.file.ptr = f.ptr
  ids : (r.apps.frpc_tgid_usage_array = s.frpc_tgid_usage_array ∧ ofFile r.file = ofFile f) ∨
    f.set_session_info = false ∧ r.file.set_session_info = true ∧
      ((r.apps.frpc_tgid_usage_array = s.frpc_tgid_usage_array ∧
        r.file.tgid_frpc = f.tgid_frpc) ∨ Takes s r)

theorem UsesIds.same {s : Apps} {f : File} {err : Option Errno} : UsesIds s f ⟨s, f, err⟩ :=
  ⟨rfl, rfl, Or.inl ⟨rfl, rfl⟩⟩

theorem UsesIds.withErr {s : Apps} {f : File} {r : Done} (h : UsesIds s f r) (err : Option Errno) :
    UsesIds s f ⟨r.apps, r.file, err⟩ := ⟨h.drivers, h.ptr, h.ids⟩

/-- A request that writes none of the fields of the ids. -/
theorem UsesIds.silent {s : Apps} {f : File} {r : Done}
    (hu : r.apps.frpc_tgid_usage_array = s.frpc_tgid_usage_array) (hd : r.apps.drivers = s.drivers)
    (hf : ofFile r.file = ofFile f) : UsesIds s f r :=
  ⟨hd, congrArg Session.ptr hf, Or.inl ⟨hu, hf⟩⟩

theorem set_process_info_takes (c : Config) (s : Apps) (f : File) (e : SetupEnv) :
    Takes s (sessions.set_process_info c s f e) ∧
      (sessions.set_process_info c s f e).apps.drivers = s.drivers ∧
      (sessions.set_process_info c s f e).file.ptr = f.ptr ∧
      (sessions.set_process_info c s f e).file.set_session_info = f.set_session_info := by
  unfold Takes sessions.set_process_info
  have hsame : sessions.get_unique_hlos_process_id s = unused s.frpc_tgid_usage_array := rfl
  rw [hsame]
  rcases unused s.frpc_tgid_usage_array with _ | i
  · exact ⟨⟨rfl, rfl⟩, rfl, rfl, rfl⟩
  · dsimp only
    split
    · exact ⟨⟨rfl, rfl⟩, rfl, rfl, rfl⟩
    · split
      · exact ⟨⟨rfl, rfl⟩, rfl, rfl, rfl⟩
      · exact ⟨⟨rfl, rfl⟩, rfl, rfl, rfl⟩

theorem get_info_uses (c : Config) (s : Apps) (f : File) (domain : Nat) (e : SetupEnv) :
    UsesIds s f (sessions.get_info c s f domain e) := by
  obtain ⟨htakes, hd, hptr, hset⟩ :=
    set_process_info_takes c s { f with set_session_info := true } e
  -- what follows set_process_info leaves the ids
  have hafter : ∀ {r : Done}, f.set_session_info = false →
      r.apps = (sessions.set_process_info c s { f with set_session_info := true } e).apps →
      ofFile r.file =
        ofFile (sessions.set_process_info c s { f with set_session_info := true } e).file →
      UsesIds s f r := by
    intro r hf ha hr
    have h1 := congrArg Session.ptr hr
    have h2 := congrArg Session.set_session_info hr
    have h3 := congrArg Session.tgid_frpc hr
    simp only [ofFile] at h1 h2 h3
    refine ⟨by rw [ha, hd], h1.trans hptr, Or.inr ⟨hf, h2.trans hset, Or.inr ?_⟩⟩
    unfold Takes at htakes ⊢
    rw [ha, h3]
    exact htakes
  unfold sessions.get_info hfastrpc_get_info vfastrpc_internal_get_info
  split
  · split
    · exact .same
    · rename_i hf
      have hf : f.set_session_info = false := by simpa using hf
      dsimp only
      split
      · exact ⟨rfl, rfl, Or.inr ⟨hf, rfl, Or.inl ⟨rfl, rfl⟩⟩⟩
      · split
        · exact hafter hf rfl rfl
        · split
          · split
            · exact hafter hf rfl rfl
            · exact hafter hf rfl rfl
          · exact hafter hf rfl rfl
  · split
    · exact .same
    · rename_i hf
      have hf : f.set_session_info = false := by simpa using hf
      dsimp only
      split
      · exact hafter hf rfl rfl
      · split
        · split
          · exact hafter hf rfl rfl
          · split
            · exact hafter hf rfl rfl
            · exact hafter hf rfl rfl
        · exact hafter hf rfl rfl

theorem set_session_info_body_uses (c : Config) (s : Apps) (f : File) (i : SessInfo)
    (e : SetupEnv) (copy_out : Bool) :
    UsesIds s f (set_session_info_body c s f i e copy_out) := by
  unfold set_session_info_body
  dsimp only
  split
  · exact .silent rfl rfl rfl
  · have h : UsesIds s f (sessions.get_info c s { f with
        untrusted_process := f.untrusted_process || decide (e.tgid ≠ f.tgid_open)
        sessionid := i.session_id, multi_session_support := true } i.domain_id e) := by
      obtain ⟨h1, h2, h3⟩ := get_info_uses c s { f with
        untrusted_process := f.untrusted_process || decide (e.tgid ≠ f.tgid_open)
        sessionid := i.session_id, multi_session_support := true } i.domain_id e
      exact ⟨h1, h2, h3⟩
    split
    · exact h.withErr _
    · split
      · exact h
      · exact h.withErr _

theorem vfastrpc_ioctl_uses (c : Config) (s : Apps) (f : File) (q : Req) :
    UsesIds s f (vfastrpc_ioctl c s f q) := by
  cases q with
  | getinfo copy_in domain e copy_out =>
    have h := get_info_uses c s f domain e
    simp only [vfastrpc_ioctl]
    split
    · exact .same
    · split
      · exact h.withErr _
      · split
        · exact h
        · exact h.withErr _
  | sess_info size_ok copy_in i e copy_out =>
    simp only [vfastrpc_ioctl]
    split
    · exact .same
    · split
      · exact .same
      · unfold set_session_info
        split
        · exact set_session_info_body_uses c s f i e copy_out
        · unfold vfastrpc_set_session_info
          split
          · exact .same
          · exact set_session_info_body_uses c s f i e copy_out
  | mode_session =>
    simp only [vfastrpc_ioctl, setmode_session]
    split
    · exact .same
    · exact .silent rfl rfl rfl
  | init copy_in u e =>
    simp only [vfastrpc_ioctl]
    split
    · exact .same
    · unfold vfastrpc_init_ioctl
      split
      · exact .same
      · split
        · exact .same
        · rcases init_process_cases c s f u e with ⟨n, flag, err, he, _⟩ | ⟨g, hm, he⟩
          · rw [he]
            exact .silent rfl rfl rfl
          · obtain ⟨n, rfl⟩ := hm.file
            rw [he]
            rcases open_and_mark_cases c s _ u.attrs e.answer with
              ⟨err, ho⟩ | ⟨err, ho⟩ | ⟨cid, _, ho⟩
            · rw [ho]
              exact .silent rfl rfl rfl
            · rw [ho]
              exact .silent rfl rfl rfl
            · rw [ho]
              split
              · exact .silent rfl rfl rfl
              · exact .silent rfl rfl rfl
  | get_dsp_info copy_in domain attribute_ID a copy_out =>
    simp only [vfastrpc_ioctl]
    split
    · exact .same
    · have hanswer : ∀ (u : Apps) (b : Answer), (u.answer copy_out b).frpc_tgid_usage_array =
          u.frpc_tgid_usage_array := by
        intro u b
        unfold Apps.answer
        split <;> rfl
      rcases get_dsp_info_cases c s f domain attribute_ID a copy_out with
        he | ⟨cap, _, he⟩ | ⟨caps, _, _, _, _, he⟩
      · rw [he]
        exact .same
      · rw [he]
        exact .silent (hanswer _ _) (answer_drivers _ _ _) rfl
      · rw [he]
        exact .silent (hanswer _ _) (answer_drivers _ _ _) rfl

theorem session_ofApps (s : Apps) (v : Nat) : (ofApps s).session v = (s.file v).map ofFile := by
  simp only [ofApps, Ids.session, Apps.file, lookup, List.find?_map]
  rfl

theorem ofApps_setFile (s : Apps) (v : Nat) (f : File) :
    ofApps (s.setFile v f) = (ofApps s).setSession v (ofFile f) := by
  simp only [ofApps, Apps.setFile, Ids.setSession, update, List.map_map, Ids.mk.injEq, true_and]
  refine List.map_congr_left (fun g _ => ?_)
  by_cases hg : g.ptr = v
  · simp [ofFile, hg]
  · simp [ofFile, hg]

@[simp] theorem setSession_setSession {s : Ids} {p : Nat} {x y : Session} (hx : x.ptr = p) :
    (s.setSession p x).setSession p y = s.setSession p y := by
  simp only [Ids.setSession, update, List.map_map, Ids.mk.injEq, true_and]
  refine List.map_congr_left (fun z _ => ?_)
  by_cases hz : z.ptr = p
  · simp [hz, hx]
  · simp [hz]

theorem setSession_self {s : Ids} (hu : Unique Session.ptr s.sessions) {x : Session}
    (hx : s.session x.ptr = some x) : s.setSession x.ptr x = s := by
  have hself : update Session.ptr s.sessions x.ptr (fun _ => x) = s.sessions := by
    unfold update
    conv_rhs => rw [← List.map_id s.sessions]
    refine List.map_congr_left (fun z hz => ?_)
    by_cases hk : z.ptr = x.ptr
    · simp [hu.eq hz (mem_of_lookup hx) hk]
    · simp [hk]
  unfold Ids.setSession
  rw [hself]

/-- The three steps of a session that is set up. -/
theorem setup_run {s : Ids} {x : Session} (hx : s.session x.ptr = some x) (hpc : x.pc = .idle)
    (hflag : x.set_session_info = false) :
    run step s [.get_info x.ptr false, .get_unique_hlos_process_id x.ptr, .set_process_info x.ptr] =
      some (match unused s.frpc_tgid_usage_array with
        | some i => { s.setSession x.ptr { x with tgid_frpc := i, set_session_info := true } with
            frpc_tgid_usage_array := setUsage s.frpc_tgid_usage_array i true }
        | none => s.setSession x.ptr { x with tgid_frpc := -1, set_session_info := true }) := by
  have hmarked : step s (.get_info x.ptr false) =
      some (s.setSession x.ptr { x with set_session_info := true, pc := .marked }) := by
    simp [step, hx, hpc, get_info, hflag]
  have hx1 := @session_setSession_self s x { x with set_session_info := true, pc := .marked } hx rfl
  have htaken : ∀ id : Int,
      (s.setSession x.ptr { x with set_session_info := true, pc := .taken id }).session x.ptr =
        some { x with set_session_info := true, pc := .taken id } :=
    fun id => session_setSession_self hx rfl
  have hwritten : ∀ (id : Int) (u : Ids),
      u.sessions = (s.setSession x.ptr
        { x with set_session_info := true, pc := .taken id }).sessions →
      step u (.set_process_info x.ptr) =
        some (u.setSession x.ptr { x with tgid_frpc := id, set_session_info := true }) := by
    intro id u hu
    have hsess : u.session x.ptr = some { x with set_session_info := true, pc := .taken id } := by
      rw [← htaken id]
      unfold Ids.session
      rw [hu]
    simp [step, hsess, set_process_info, hpc]
  rw [run_cons, hmarked, Option.bind_some, run_cons, step, hx1]
  simp only [Option.bind_some, if_true, get_unique_hlos_process_id]
  have husage : (s.setSession x.ptr { x with set_session_info := true, pc := .marked
      }).frpc_tgid_usage_array = s.frpc_tgid_usage_array := rfl
  rw [husage]
  rcases unused s.frpc_tgid_usage_array with _ | i
  · simp only [setSession_setSession, run_cons]
    rw [hwritten (-1) _ rfl]
    simp [run]
  · simp only [setSession_setSession, run_cons]
    rw [hwritten i ⟨setUsage s.frpc_tgid_usage_array i true, (s.setSession x.ptr
      { x with set_session_info := true, pc := .taken i }).sessions⟩ rfl]
    simp only [Option.bind_some, run, Option.some.injEq]
    exact congrArg (fun u : Ids => { u with
      frpc_tgid_usage_array := setUsage s.frpc_tgid_usage_array i true })
      (@setSession_setSession s x.ptr { x with set_session_info := true, pc := .taken i } _ rfl)

/-- A request of a session is a run of its steps. -/
theorem ioctl_run {s : Apps} (hu : Unique Session.ptr (ofApps s).sessions) {v : Nat} {f : File}
    {r : Done} (hf : s.file v = some f) (h : UsesIds s f r) :
    ∃ as, run step (ofApps s) as = some (ofApps (r.apps.setFile v r.file)) := by
  have hptr : f.ptr = v := key_of_lookup hf
  have hx : (ofApps s).session (ofFile f).ptr = some (ofFile f) := by
    rw [session_ofApps]
    show (s.file f.ptr).map ofFile = _
    rw [hptr, hf]
    rfl
  have happs : ofApps (r.apps.setFile v r.file) =
      { (ofApps s).setSession (ofFile f).ptr (ofFile r.file) with
        frpc_tgid_usage_array := r.apps.frpc_tgid_usage_array } := by
    rw [ofApps_setFile, ← hptr]
    simp only [ofApps, Ids.setSession, h.drivers]
    rfl
  rw [happs]
  rcases h.ids with ⟨hsame, hfile⟩ | ⟨hflag, hset, ⟨hsame, hid⟩ | htakes⟩
  · refine ⟨[], ?_⟩
    rw [hsame, hfile, setSession_self hu hx]
    rfl
  · refine ⟨[.get_info (ofFile f).ptr true], ?_⟩
    have hnew : ofFile r.file = get_info (ofFile f) true := by
      simp [ofFile, get_info, hflag, hset, hid, h.ptr]
    have hstep : step (ofApps s) (.get_info (ofFile f).ptr true) =
        some ((ofApps s).setSession (ofFile f).ptr (get_info (ofFile f) true)) := by
      simp only [step, hx, Option.bind_some]
      rfl
    rw [hsame, hnew, run_cons, hstep]
    rfl
  · refine ⟨_, (setup_run hx rfl hflag).trans ?_⟩
    unfold Takes at htakes
    have husage : (ofApps s).frpc_tgid_usage_array = s.frpc_tgid_usage_array := rfl
    rw [husage]
    rcases hun : unused s.frpc_tgid_usage_array with _ | i
    · rw [hun] at htakes
      obtain ⟨hid, hsame⟩ := htakes
      have hnew : ofFile r.file = { ofFile f with tgid_frpc := -1, set_session_info := true } := by
        simp [ofFile, hset, hid, h.ptr]
      rw [hsame, hnew]
      rfl
    · rw [hun] at htakes
      obtain ⟨hid, hsame⟩ := htakes
      have hnew : ofFile r.file = { ofFile f with tgid_frpc := i, set_session_info := true } := by
        simp [ofFile, hset, hid, h.ptr]
      rw [hsame, hnew]

/-- A release of a session is its two steps. -/
theorem release_run {s : Apps} {v : Nat} {f : File} (hf : s.file v = some f) :
    ∃ as, run step (ofApps s) as = some (ofApps (sessions.file_free s f)) := by
  have hptr : f.ptr = v := key_of_lookup hf
  have hx : (ofApps s).session (ofFile f).ptr = some (ofFile f) := by
    rw [session_ofApps]
    show (s.file f.ptr).map ofFile = _
    rw [hptr, hf]
    rfl
  have hput : step (ofApps s) (.put_unique_hlos_process_id (ofFile f).ptr) =
      some (put_unique_hlos_process_id (ofApps s) (ofFile f)) := by
    simp only [step, hx, Option.bind_some]
    rfl
  have hsessions : (put_unique_hlos_process_id (ofApps s) (ofFile f)).sessions =
      ((ofApps s).setSession (ofFile f).ptr { ofFile f with pc := .freed }).sessions := by
    unfold put_unique_hlos_process_id
    dsimp only
    split <;> rfl
  have hfreed : (put_unique_hlos_process_id (ofApps s) (ofFile f)).session (ofFile f).ptr =
      some { ofFile f with pc := .freed } := by
    unfold Ids.session
    rw [hsessions]
    exact session_setSession_self hx rfl
  refine ⟨[.put_unique_hlos_process_id (ofFile f).ptr, .file_free (ofFile f).ptr], ?_⟩
  rw [run_cons, hput, Option.bind_some, run_cons, step, hfreed]
  simp only [Option.bind_some, if_true, run, Option.some.injEq]
  -- the session that is removed is the one that changed
  have hlist : remove Session.ptr (put_unique_hlos_process_id (ofApps s) (ofFile f)).sessions
      (ofFile f).ptr = (remove File.ptr s.drivers f.ptr).map ofFile := by
    have hsame : remove Session.ptr ((ofApps s).setSession (ofFile f).ptr
        { ofFile f with pc := .freed }).sessions (ofFile f).ptr =
        remove Session.ptr (ofApps s).sessions (ofFile f).ptr := remove_update_const rfl
    rw [hsessions, hsame]
    simp only [ofApps, remove, List.filter_map]
    rfl
  rw [hlist]
  unfold put_unique_hlos_process_id sessions.file_free sessions.put_unique_hlos_process_id
  dsimp only
  by_cases hid : f.tgid_frpc = -1
  · simp only [hid, ofFile, if_true]
    rfl
  · simp only [hid, ofFile, if_false]
    rfl

/-- The steps of the driver are runs of the ids. -/
theorem step_run {c : Config} {s t : Apps} {a : sessions.Act}
    (hu : Unique Session.ptr (ofApps s).sessions) (ht : sessions.step c s a = some t) :
    ∃ as, run step (ofApps s) as = some (ofApps t) := by
  cases a with
  | open_node v dev_minor tgid =>
    simp only [sessions.step] at ht
    split at ht
    · cases ht
    · rename_i hnew
      cases ht
      refine ⟨[.open_node v], ?_⟩
      have hnone : (ofApps s).session v = none := by
        rw [session_ofApps]
        simpa using hnew
      simp only [run_cons, step, hnone]
      rfl
  | ioctl v q =>
    obtain ⟨f, hf, rfl⟩ := Option.map_eq_some_iff.mp ht
    exact ioctl_run hu hf (vfastrpc_ioctl_uses c s f q)
  | release v =>
    obtain ⟨f, hf, rfl⟩ := Option.map_eq_some_iff.mp ht
    exact release_run hf
  | ssr_shutdown d =>
    cases ht
    exact ⟨[], rfl⟩
  | ssr_powerup d =>
    cases ht
    exact ⟨[], rfl⟩

/-- The ids of the sessions in every run of the driver are a state of the ids. -/
theorem reachable_ofApps {c : Config} {s : Apps}
    (h : Reachable (sessions.step c) (sessions.init c) s) :
    Reachable step init (ofApps s) := by
  refine h.inv (fun s => Reachable step init (ofApps s)) ?_ ⟨[], rfl⟩
  rintro s a t ⟨as, has⟩ ht
  have hinv : Inv (ofApps s) := Reachable.inv Inv step_inv inv_init ⟨as, has⟩
  obtain ⟨bs, hbs⟩ := step_run hinv.unique ht
  exact ⟨as ++ bs, by rw [run_append, has, Option.bind_some, hbs]⟩

/-- In every run of either driver, between the requests: an id is in use exactly when a session
has it, and no two sessions have one. -/
theorem sessions_have_different_ids {c : Config} {s : Apps}
    (h : Reachable (sessions.step c) (sessions.init c) s) :
    (∀ k, s.frpc_tgid_usage_array k = true ↔ ∃ f ∈ s.drivers, f.tgid_frpc = k) ∧
    ∀ f ∈ s.drivers, ∀ g ∈ s.drivers, f.tgid_frpc ≠ -1 → f.tgid_frpc = g.tgid_frpc →
      f.ptr = g.ptr := by
  have hinv : Inv (ofApps s) := (reachable_ofApps h).inv Inv step_inv inv_init
  constructor
  · intro k
    have := hinv.usage k
    simp only [ofApps, List.mem_map, exists_exists_and_eq_and] at this
    exact this
  · intro f hf g hg hne he
    have := hinv.apart (ofFile f) (List.mem_map_of_mem hf) (ofFile g)
      (List.mem_map_of_mem hg) hne he
    exact congrArg Session.ptr this

end virtual_fastrpc.process_ids
