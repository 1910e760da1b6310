-- Threads of many sessions that make memory requests and calls at the same time. Each
-- of them takes the mutexes of its session in one order, so none of them waits for ever.
import PlatformKernel.MapLocks
import PlatformKernel.Lib.LockOrder

namespace virtual_fastrpc.map_mutexes

open step_runs lock_order
open virtual_fastrpc.sessions virtual_fastrpc.hybrid_handlers
open virtual_fastrpc.map_locks (MapCall LeavesEarly trace ops ops_append ops_mutex ops_nil
  ops_channels virtio_mem_request_guarded)

/-! ## The tasks of the threads -/

inductive Call
  | request (q : MapCall)
  /-- hfastrpc_internal_invoke of the hybrid driver. -/
  | invoke (kernel : Bool) (e : InvokeEnv)
  deriving DecidableEq, Repr

/-- A call on a session, with what it finds there: the session and the channels may have changed
since the call before. -/
structure Task where
  session : Nat
  c : Config
  s : Apps
  f : File
  call : Call

def Task.events (t : Task) : List Event :=
  match t.call with
  | .request q => trace t.f t.c t.s q
  | .invoke kernel e => (hfastrpc_internal_invoke t.c t.s t.f kernel e).events

/-- The mutex of a session. Nothing interrupts a thread that holds one in a way that counts. -/
def op (session : Nat) : locks.Op Mutex → Op (Nat × Mutex)
  | .lock l => .lock (session, l) false
  | .unlock l => .unlock (session, l)

def Task.ops (t : Task) : List (Op (Nat × Mutex)) := (map_locks.ops t.events).map (op t.session)

/-- A request to map or unmap memory on a session that is not initialised, which releases a
mutex that it does not hold. -/
def Task.leaves_early (t : Task) : Prop :=
  match t.call with
  | .request q => LeavesEarly t.f q
  | .invoke _ _ => False

/-! ## The order -/

def rank : Nat × Mutex → Nat
  | (_, .internal_map_mutex) => 0
  | (_, .map_mutex) => 1

section

variable {low : Nat × Mutex → Prop} {n : Nat} {held : List ((Nat × Mutex) × Bool)}
  {rest : List (Op (Nat × Mutex))} {c : Config} {es : List Event}

/-- What has sections under `map_mutex` only goes where `map_mutex` is above all that is held. -/
theorem ordered_plain (hlow : ∀ l, low l) (hheld : ∀ e ∈ held, rank e.1 < 1) (h : Plain c es)
    (hrest : Ordered rank low held rest) :
    Ordered rank low held ((map_locks.ops es).map (op n) ++ rest) := by
  induction h generalizing rest with
  | nil => exact hrest
  | channel _ => exact hrest
  | map_section hes =>
    simp only [map_section, ops_mutex, ops_append, ops_nil, ops_channels hes, List.nil_append,
      List.map_cons, List.map_nil, op, List.cons_append]
    exact ⟨hheld, fun _ _ => hlow _, false, held, rfl, hrest⟩
  | append _ _ iha ihb =>
    rw [ops_append, List.map_append, List.append_assoc]
    exact iha (ihb hrest)

theorem ordered_guarded (hlow : ∀ l, low l) (h : Guarded c es) :
    Ordered rank low [] ((map_locks.ops es).map (op n)) := by
  rcases h with rfl | ⟨body, hbody, rfl⟩
  · rfl
  · simp only [ops_mutex, ops_append, ops_nil, List.map_cons, List.map_append, List.map_nil, op]
    refine ⟨by simp, fun _ _ => hlow _, ?_⟩
    apply ordered_plain hlow _ hbody
    · exact ⟨false, [], rfl, rfl⟩
    · simp [rank]

theorem ordered_task (hlow : ∀ l, low l) {t : Task} (ht : ¬ t.leaves_early) :
    Ordered rank low [] t.ops := by
  obtain ⟨n, c, s, f, call⟩ := t
  cases call with
  | request q =>
    cases q with
    | hybrid q =>
      rcases @mem_request_cases c s f q with ⟨hskip, _⟩ | ⟨_, hg⟩
      · exact absurd hskip ht
      · exact ordered_guarded hlow hg
    | virtio q => exact ordered_guarded hlow (virtio_mem_request_guarded c q)
  | invoke kernel e =>
    have := @ordered_plain low n [] [] c _ hlow (by simp)
      (@internal_invoke_plain c s f kernel e) rfl
    rwa [List.append_nil] at this

end

/-- However many threads make memory requests and calls on however many sessions, and whatever
the outcomes are, each thread that is in one goes on or waits for a mutex of one that goes on,
as long as none of them maps or unmaps memory on a session that is not initialised. -/
theorem the_map_mutexes_do_not_deadlock {C : Type} [DecidableEq C] {thread : Task → Prop}
    (h : ∀ t, thread t → ¬ t.leaves_early) {m : Machine (Nat × Mutex) C}
    (hm : ReachableUnder (step Task.ops) (fun _ => Allowed thread (fun _ => False))
      Machine.init m) : NoDeadlock Task.ops m := by
  have hranked : Ranked Task.ops thread (fun _ => False) rank 1 := by
    refine ⟨?_, ?_, fun _ hp => hp.elim⟩
    · rintro ⟨n, l⟩
      cases l <;> simp [rank]
    · intro t ht
      exact ordered_task (fun _ _ hq => hq.elim) (h t ht)
  exact no_deadlock_run hranked hm

def unmapping : Task where
  session := 7
  c := sampleConfig .hybrid
  s := sessions.init (sampleConfig .hybrid)
  f := { file_alloc 1 .MINOR_NUM_DEV 50 with dsp_proc_init := true }
  call := .request (.hybrid .munmap_fd)

/-- Two threads of a session unmap at the same time. -/
theorem the_second_request_waits_for_the_first :
    ∃ m : Machine (Nat × Mutex) Bool, Waits m false true ∧ NoDeadlock Task.ops m := by
  let acts : List (Act Bool Task) := [.start true unmapping, .run true, .start false unmapping]
  have hmeets : Meets (step Task.ops) (fun _ => Allowed (fun t => t = unmapping) (fun _ => False))
      (Machine.init : Machine (Nat × Mutex) Bool) acts := by
    apply meets_of_forall
    intro a ha m
    simp only [acts, List.mem_cons, List.not_mem_nil, or_false] at ha
    rcases ha with rfl | rfl | rfl <;> simp [Allowed]
  obtain ⟨m, hm⟩ : ∃ m, run (step Task.ops) Machine.init acts = some m := ⟨_, rfl⟩
  refine ⟨m, ?_, the_map_mutexes_do_not_deadlock ?_ ⟨acts, hmeets, hm⟩⟩
  · cases hm
    exact ⟨(7, .internal_map_mutex), rfl, rfl⟩
  · rintro t rfl
    exact id

end virtual_fastrpc.map_mutexes
