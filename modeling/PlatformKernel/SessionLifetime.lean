-- The memory of the sessions of the hybrid driver. What walks the list of the sessions
-- holds `me->hlock` for it; fastrpc_notif_find_process lets go of the lock with the
-- session in its hand, and queues the notification there afterwards.
import PlatformKernel.PdStatus
import PlatformKernel.Lib.Runs

namespace virtual_fastrpc.session_lifetime

open step_runs
open virtual_fastrpc.pd_status (SmqNotifRsp SmqNotifRspv3 File)

/-! ## The sessions and the receivers -/

/-- What is in the memory of a session. `id` is for the laws only: two sessions that were opened
one after the other may have the same memory. -/
structure Session where
  id : Nat
  fl : File

/-- A thread, or an interrupt, in which a message of the DSP comes in. Between the two sections of
fastrpc_notif_find_process it holds a session. -/
inductive Receiver
  | idle
  | found (ptr id : Nat) (domain : Int) (status : BitVec 32)
  deriving DecidableEq, Repr

/-- `drivers` is the list of the sessions. The last two fields are for the laws only: how many
sessions were opened, and for each notification the session that was found for it and the one whose
memory it was put into. -/
structure System where
  heap : Nat → Option Session
  drivers : List Nat
  receiver : Nat → Receiver
  opened : Nat
  met : List (Nat × Option Nat)

def init : System := ⟨fun _ => none, [], fun _ => .idle, 0, []⟩

inductive Act
  /-- The new session is at free memory. -/
  | hfastrpc_open (ptr : Nat)
  /-- The backend gives the session its `upid`, and get_info its domain. -/
  | setup (ptr : Nat) (upid : BitVec 32) (domain : Int)
  /-- The end of hfastrpc_file_free: the session leaves the list, and then its memory is freed. -/
  | hlist_del_init (ptr : Nat)
  | kfree (ptr : Nat)
  | fastrpc_notif_find_process (r : Nat) (domain : Int) (notif : SmqNotifRspv3)
  | fastrpc_queue_pd_status (r : Nat) (alloc_ok : Bool)

/-- The sessions as the walkers of the list see them. -/
def System.apps (s : System) : pd_status.Apps :=
  ⟨s.drivers.filterMap (fun p => (s.heap p).map Session.fl)⟩

/-- The first session of the list that belongs to the process. -/
def System.find (s : System) (pid : BitVec 32) : Option (Nat × Session) :=
  s.drivers.findSome? (fun p => (s.heap p).bind
    (fun x => if x.fl.upid = pid then some (p, x) else none))

def System.write (s : System) (ptr : Nat) (x : Option Session) : System :=
  { s with heap := Function.update s.heap ptr x }

def System.move (s : System) (r : Nat) (x : Receiver) : System :=
  { s with receiver := Function.update s.receiver r x }

def Session.setup (x : Session) (upid : BitVec 32) (domain : Int) : Session :=
  { x with fl := { x.fl with upid := upid, domain := domain } }

/-- The notification goes into the memory, whatever is there now. -/
def Session.queue (x : Session) (domain : Int) (status : BitVec 32) (alloc_ok : Bool) : Session :=
  { x with fl := pd_status.fastrpc_queue_pd_status x.fl domain status x.fl.sessionid alloc_ok }

def step (s : System) : Act → Option System
  | .hfastrpc_open ptr =>
    match s.heap ptr with
    | some _ => none
    | none =>
      let x : Session := ⟨s.opened, ⟨dsp_signals.hfastrpc_file_alloc ptr, 0, [], 0⟩⟩
      some { s.write ptr (some x) with drivers := ptr :: s.drivers, opened := s.opened + 1 }
  | .setup ptr upid domain =>
    match s.heap ptr with
    | none => none
    | some x => if ptr ∈ s.drivers then some (s.write ptr (some (x.setup upid domain))) else none
  | .hlist_del_init ptr =>
    if ptr ∈ s.drivers then some { s with drivers := s.drivers.filter (· ≠ ptr) } else none
  | .kfree ptr =>
    if (s.heap ptr).isSome ∧ ptr ∉ s.drivers then some (s.write ptr none) else none
  | .fastrpc_notif_find_process r domain notif =>
    match s.receiver r with
    | .found _ _ _ _ => none
    | .idle =>
      match s.find notif.pid with
      | none => some s
      | some (p, x) => some (s.move r (.found p x.id domain notif.status))
  | .fastrpc_queue_pd_status r alloc_ok =>
    match s.receiver r with
    | .idle => none
    | .found p id domain status =>
      let there := s.heap p
      some { (s.write p (there.map (fun x => x.queue domain status alloc_ok))).move r .idle with
        met := s.met ++ [(id, there.map Session.id)] }

/-! ## What may go wrong -/

/-- What is in the list is in memory, so a signal or a restart, which walks the list under its
lock, meets no session that was freed. -/
def Listed (s : System) : Prop := ∀ p ∈ s.drivers, (s.heap p).isSome

/-- Each receiver that has found a session still finds it there. -/
def Held (s : System) : Prop :=
  ∀ r p id domain status, s.receiver r = .found p id domain status →
    ∃ x, s.heap p = some x ∧ x.id = id

/-- A notification that is queued now goes into the session that was found for it. -/
def Met (s : System) : Prop :=
  ∀ r alloc_ok t, step s (.fastrpc_queue_pd_status r alloc_ok) = some t →
    ∃ id, t.met = s.met ++ [(id, some id)]

/-- No session is freed that a receiver has found and not yet used. -/
def Unheld (s : System) : Act → Prop
  | .kfree ptr => ∀ r id domain status, s.receiver r ≠ .found ptr id domain status
  | _ => True

section

variable {s t : System}

theorem find_some {pid : BitVec 32} {p : Nat} {x : Session} (h : s.find pid = some (p, x)) :
    p ∈ s.drivers ∧ s.heap p = some x ∧ x.fl.upid = pid := by
  obtain ⟨q, hq, hx⟩ := List.exists_of_findSome?_eq_some h
  obtain ⟨y, hy, hif⟩ := Option.bind_eq_some_iff.mp hx
  split at hif
  · rename_i hpid
    cases hif
    exact ⟨hq, hy, hpid⟩
  · cases hif

/-- The search is that of the notifications over the list. -/
theorem find_eq_notified (pid : BitVec 32) :
    (s.find pid).map (fun e => e.2.fl) = s.apps.notified pid := by
  unfold System.find System.apps pd_status.Apps.notified
  induction s.drivers with
  | nil => rfl
  | cons p drivers ih =>
    cases hp : s.heap p with
    | none => simpa [hp] using ih
    | some x =>
      by_cases hpid : x.fl.upid = pid
      · simp [hp, hpid]
      · simpa [hp, hpid] using ih

/-- The memory at one place is written, and the session there is the same as before. -/
theorem Held.write {p : Nat} {x y : Session} (h : Held s) (hp : s.heap p = some x)
    (hid : y.id = x.id) : Held (s.write p (some y)) := by
  intro r q id domain status hr
  obtain ⟨z, hz, hzid⟩ := h r q id domain status hr
  by_cases hq : q = p
  · subst hq
    cases hp.symm.trans hz
    exact ⟨y, by simp [System.write], hid.trans hzid⟩
  · exact ⟨z, by simpa [System.write, Function.update_of_ne hq] using hz, hzid⟩

theorem Listed.write {p : Nat} {y : Session} (h : Listed s) : Listed (s.write p (some y)) := by
  intro q hq
  by_cases hqp : q = p
  · subst hqp
    simp [System.write]
  · simpa [System.write, Function.update_of_ne hqp] using h q hq

theorem Listed.step {a : Act} (h : Listed s) (ht : step s a = some t) : Listed t := by
  cases a with
  | hfastrpc_open ptr =>
    simp only [session_lifetime.step] at ht
    split at ht
    · cases ht
    · cases ht
      intro q hq
      rcases List.mem_cons.mp hq with rfl | hq
      · simp [System.write]
      · exact h.write q hq
  | setup ptr upid domain =>
    simp only [session_lifetime.step] at ht
    split at ht
    · cases ht
    · split at ht
      · cases ht
        exact h.write
      · cases ht
  | hlist_del_init ptr =>
    simp only [session_lifetime.step] at ht
    split at ht
    · cases ht
      intro q hq
      exact h q (List.mem_of_mem_filter hq)
    · cases ht
  | kfree ptr =>
    simp only [session_lifetime.step] at ht
    split at ht
    · rename_i hfree
      cases ht
      intro q hq
      have hne : q ≠ ptr := by
        rintro rfl
        exact hfree.2 hq
      simpa [System.write, Function.update_of_ne hne] using h q hq
    · cases ht
  | fastrpc_notif_find_process r domain notif =>
    simp only [session_lifetime.step] at ht
    split at ht
    · cases ht
    · split at ht <;> cases ht <;> exact h
  | fastrpc_queue_pd_status r alloc_ok =>
    simp only [session_lifetime.step] at ht
    split at ht
    · cases ht
    · rename_i p id domain status hr
      cases ht
      intro q hq
      have := h q hq
      by_cases hqp : q = p
      · subst hqp
        simpa [System.write, System.move] using this
      · simpa [System.write, System.move, Function.update_of_ne hqp] using this

theorem held_iff_met : Held s ↔ Met s := by
  constructor
  · intro h r alloc_ok t ht
    simp only [session_lifetime.step] at ht
    split at ht
    · cases ht
    · rename_i p id domain status hr
      obtain ⟨x, hx, hid⟩ := h r p id domain status hr
      cases ht
      exact ⟨id, by simp [hx, hid]⟩
  · intro h r p id domain status hr
    obtain ⟨id', hmet⟩ := h r true _ (by simp only [session_lifetime.step, hr]; rfl)
    have hlast := List.append_cancel_left hmet
    simp only [List.cons.injEq, Prod.mk.injEq, and_true] at hlast
    obtain ⟨hid, hthere⟩ := hlast
    obtain ⟨x, hx, hxid⟩ := Option.map_eq_some_iff.mp hthere
    exact ⟨x, hx, hxid.trans hid.symm⟩

/-- A step keeps the sessions of the receivers in memory exactly when it frees none of them. -/
theorem held_step_iff {a : Act} (hs : Held s) (ht : step s a = some t) :
    Held t ↔ Unheld s a := by
  cases a with
  | hfastrpc_open ptr =>
    simp only [session_lifetime.step] at ht
    split at ht
    · cases ht
    · rename_i hnone
      cases ht
      refine iff_of_true ?_ trivial
      intro r q id domain status hr
      obtain ⟨z, hz, hzid⟩ := hs r q id domain status hr
      have hne : q ≠ ptr := by
        rintro rfl
        rw [hnone] at hz
        cases hz
      exact ⟨z, by simpa [System.write, Function.update_of_ne hne] using hz, hzid⟩
  | setup ptr upid domain =>
    simp only [session_lifetime.step] at ht
    split at ht
    · cases ht
    · rename_i x hx
      split at ht
      · cases ht
        exact iff_of_true (hs.write hx rfl) trivial
      · cases ht
  | hlist_del_init ptr =>
    simp only [session_lifetime.step] at ht
    split at ht
    · cases ht
      exact iff_of_true hs trivial
    · cases ht
  | kfree ptr =>
    simp only [session_lifetime.step] at ht
    split at ht
    · cases ht
      constructor
      · intro h r id domain status hr
        obtain ⟨x, hx, _⟩ := h r ptr id domain status hr
        simp [System.write] at hx
      · intro hc r q id domain status hr
        obtain ⟨z, hz, hzid⟩ := hs r q id domain status hr
        have hne : q ≠ ptr := by
          rintro rfl
          exact hc r id domain status hr
        exact ⟨z, by simpa [System.write, Function.update_of_ne hne] using hz, hzid⟩
    · cases ht
  | fastrpc_notif_find_process r domain notif =>
    simp only [session_lifetime.step] at ht
    split at ht
    · cases ht
    · split at ht
      · cases ht
        exact iff_of_true hs trivial
      · rename_i p x hfind
        cases ht
        refine iff_of_true ?_ trivial
        intro q p' id domain' status hr
        by_cases hq : q = r
        · subst hq
          simp only [System.move, Function.update_self, Receiver.found.injEq] at hr
          obtain ⟨rfl, rfl, _, _⟩ := hr
          exact ⟨x, (find_some hfind).2.1, rfl⟩
        · simp only [System.move, Function.update_of_ne hq] at hr
          exact hs q p' id domain' status hr
  | fastrpc_queue_pd_status r alloc_ok =>
    simp only [session_lifetime.step] at ht
    split at ht
    · cases ht
    · rename_i p id domain status hr
      cases ht
      refine iff_of_true ?_ trivial
      obtain ⟨x, hx, _⟩ := hs r p id domain status hr
      rw [hx, Option.map_some]
      have hwrite : Held (s.write p (some (x.queue domain status alloc_ok))) := hs.write hx rfl
      intro q p' id' domain' status' hq
      by_cases hqr : q = r
      · subst hqr
        simp [System.move] at hq
      · simp only [System.move, Function.update_of_ne hqr] at hq
        exact hwrite q p' id' domain' status' hq

/-- Only the queueing of a notification adds to what the notifications met. -/
theorem met_step {a : Act} (hs : Held s) (h : ∀ e ∈ s.met, e.2 = some e.1)
    (ht : step s a = some t) : ∀ e ∈ t.met, e.2 = some e.1 := by
  cases a with
  | fastrpc_queue_pd_status r alloc_ok =>
    obtain ⟨id, hmet⟩ := held_iff_met.mp hs r alloc_ok t ht
    intro e he
    rw [hmet, List.mem_append, List.mem_singleton] at he
    rcases he with he | rfl
    · exact h e he
    · simp
  | hfastrpc_open ptr => simp only [session_lifetime.step] at ht; split at ht <;> cases ht; exact h
  | setup ptr upid domain =>
    simp only [session_lifetime.step] at ht
    split at ht
    · cases ht
    · split at ht <;> cases ht
      exact h
  | hlist_del_init ptr => simp only [session_lifetime.step] at ht; split at ht <;> cases ht; exact h
  | kfree ptr => simp only [session_lifetime.step] at ht; split at ht <;> cases ht; exact h
  | fastrpc_notif_find_process r domain notif =>
    simp only [session_lifetime.step] at ht
    split at ht
    · cases ht
    · split at ht <;> cases ht <;> exact h

end

theorem held_init : Held init := by
  intro r p id domain status hr
  cases hr

/-- The process ends while its status comes in, and another process gets its memory. -/
def reusedMemory : List Act :=
  [.hfastrpc_open 0, .setup 0 5 3, .fastrpc_notif_find_process 0 3 ⟨5, 1⟩,
    .hlist_del_init 0, .kfree 0, .hfastrpc_open 0, .fastrpc_queue_pd_status 0 true]

/-- The walkers of the list meet no freed session. A notification goes into the session that was
found for it as long as no session is freed between the two sections of
fastrpc_notif_find_process, and only so long. -/
theorem a_status_meets_its_session_iff {as : List Act} {s : System}
    (h : run step init as = some s) :
    Listed s ∧ (Always step Met init as ↔ Meets step Unheld init as) ∧
      (Meets step Unheld init as → ∀ e ∈ s.met, e.2 = some e.1) := by
  refine ⟨?_, ?_, ?_⟩
  · refine run_inv Listed (fun _ _ _ hs ht => hs.step ht) ?_ h
    intro p hp
    cases hp
  · refine always_iff_meets (fun _ => True) Met (fun _ _ _ _ _ => trivial) ?_ trivial
      (held_iff_met.mp held_init) h
    intro u a t _ hu ht
    exact held_iff_met.symm.trans (held_step_iff (held_iff_met.mpr hu) ht)
  · intro hm
    have hinv : Held s ∧ ∀ e ∈ s.met, e.2 = some e.1 := by
      refine run_inv_of_meets (fun u => Held u ∧ ∀ e ∈ u.met, e.2 = some e.1) ?_
        ⟨held_init, fun e he => ?_⟩ hm h
      · intro u a t hu hc ht
        exact ⟨(held_step_iff hu.1 ht).mpr hc, met_step hu.1 hu.2 ht⟩
      · cases he
    exact hinv.2

theorem a_status_goes_to_another_session :
    ¬ Always step Met init reusedMemory ∧
      (run step init reusedMemory).map System.met = some [(0, some 1)] := by
  obtain ⟨s, hrun⟩ : ∃ s, run step init reusedMemory = some s := ⟨_, rfl⟩
  refine ⟨fun halways => ?_, rfl⟩
  have hm := (a_status_meets_its_session_iff hrun).2.1.mp halways
  have hfree := ((((hm.2 _ rfl).2 _ rfl).2 _ rfl).2 _ rfl).1
  exact hfree 0 0 3 1 rfl

end virtual_fastrpc.session_lifetime
