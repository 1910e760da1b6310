-- The notifications of a session and the threads that wait for them:
-- hfastrpc_wait_on_notif_queue of hybrid_fastrpc_core.c against the receive
-- callback, the NOTIF_WAKE control and the release of the file.
import PlatformKernel.PdStatus
import PlatformKernel.Lib.Runs
import PlatformKernel.Lib.Histories

namespace virtual_fastrpc.notif_queue

open step_runs histories virtual_fastrpc.pd_status

/-! ## The session -/

/-- What a call of hfastrpc_get_notif_response gives its thread: a notification, -EFAULT because
the copy of one to the user failed, -EFAULT because of `exit_notif`, or -ERESTARTSYS. -/
inductive Answer
  | notif (n : SmqNotifRsp)
  | fault (n : SmqNotifRsp)
  | exit
  | interrupted
  deriving DecidableEq, Repr

/-- The notification that the call took off the queue. -/
def Answer.took : Answer → Option SmqNotifRsp
  | .notif n => some n
  | .fault n => some n
  | .exit => none
  | .interrupted => none

/-- Where a thread is: outside, in wait_event_interruptible, behind it with its result, before
the lock of the queue, or behind it with the notification it took. -/
inductive Reader
  | out
  | waiting
  | woken (interrupted : Bool)
  | locking
  | holding (n : SmqNotifRsp)
  deriving DecidableEq, Repr

/-- The notification that the thread took and has not returned with. -/
def Reader.held : Reader → List SmqNotifRsp
  | .holding n => [n]
  | _ => []

/-- The session and its threads. Beside what the driver keeps: the threads inside, which hold
the file; the NOTIF_WAKE controls before their wake-up and after it; all that was ever queued,
what was taken off by whom, and the answers of the calls. -/
structure Session where
  fl : File
  exit_notif : Bool
  readers : Nat → Reader
  inside : List Nat
  released : Bool
  waking : Nat
  wakes : Nat
  queued : List SmqNotifRsp
  taken : List (Nat × SmqNotifRsp)
  returned : List (Nat × Answer)

/-- The session after hfastrpc_file_alloc. -/
def Session.init (fl : File) : Session :=
  { fl := { fl with notif_queue := [], notif_queue_count := 0 }
    exit_notif := false
    readers := fun _ => .out
    inside := []
    released := false
    waking := 0
    wakes := 0
    queued := []
    taken := []
    returned := [] }

inductive Act
  | queue (domain : Int) (status : BitVec 32) (alloc_ok : Bool)
  | notif_wake_exit
  | notif_wake_count
  | call (r : Nat)
  | wait_event (r : Nat) (interrupted : Bool)
  | check_exit (r : Nat)
  | take (r : Nat)
  | copy_to_user (r : Nat) (ok : Bool)
  | file_free
  deriving DecidableEq, Repr

/-- The notification that the act puts on the queue of the session. -/
def Act.queues (fl : File) : Act → Option SmqNotifRsp
  | .queue domain status true => some ⟨status, domain, fl.sessionid⟩
  | _ => none

/-- The thread goes on inside. -/
def Session.move (s : Session) (r : Nat) (p : Reader) : Session :=
  { s with readers := Function.update s.readers r p }

/-- The call of the thread returns, behind the kfree of what it took. -/
def Session.answer (s : Session) (r : Nat) (a : Answer) : Session :=
  { s with
    readers := Function.update s.readers r .out
    inside := s.inside.filter (· ≠ r)
    returned := s.returned ++ [(r, a)] }

/-- The dummy wake-up: the count goes up and nothing is queued. -/
def Session.dummy_wake (s : Session) : Session :=
  { s with
    fl := { s.fl with notif_queue_count := s.fl.notif_queue_count + 1 }
    wakes := s.wakes + 1 }

/-- The loop over the queue under the lock, which the first entry ends. A thread that finds
nothing goes back to wait. -/
def Session.take_notif (s : Session) (r : Nat) : Session :=
  match s.fl.notif_queue with
  | [] => s.move r .waiting
  | n :: rest =>
    { s.move r (.holding n) with
      fl := { s.fl with notif_queue := rest, notif_queue_count := s.fl.notif_queue_count - 1 }
      taken := s.taken ++ [(r, n)] }

def step (s : Session) (a : Act) : Option Session :=
  if s.released = true then none
  else match a with
  | .queue domain status alloc_ok =>
    some { s with
      fl := fastrpc_queue_pd_status s.fl domain status s.fl.sessionid alloc_ok
      queued := s.queued ++ ((Act.queue domain status alloc_ok).queues s.fl).toList }
  | .notif_wake_exit => some { s with exit_notif := true, waking := s.waking + 1 }
  | .notif_wake_count =>
    if 0 < s.waking then some { s.dummy_wake with waking := s.waking - 1 } else none
  | .call r =>
    match s.readers r with
    | .out => some { s.move r .waiting with inside := r :: s.inside }
    | _ => none
  | .wait_event r interrupted =>
    match s.readers r with
    | .waiting =>
      -- a signal ends the wait only when the condition is still false
      if (s.fl.notif_queue_count ≠ 0) = (interrupted = false) then
        some (s.move r (.woken interrupted))
      else none
    | _ => none
  | .check_exit r =>
    match s.readers r with
    | .woken interrupted =>
      if s.exit_notif = true then some (s.answer r .exit)
      else if interrupted = true then some (s.answer r .interrupted)
      else some (s.move r .locking)
    | _ => none
  | .take r =>
    match s.readers r with
    | .locking => some (s.take_notif r)
    | _ => none
  | .copy_to_user r ok =>
    match s.readers r with
    | .holding n => some (s.answer r (if ok then .notif n else .fault n))
    | _ => none
  | .file_free =>
    if s.inside = [] then some { s.dummy_wake with released := true } else none

/-! ## What a step can do -/

variable {s t : Session} {a : Act} {r q : Nat} {n : SmqNotifRsp}

/-- The steps one by one, with what each needs. -/
inductive Steps (s : Session) : Act → Session → Prop
  | queue (domain : Int) (status : BitVec 32) : Steps s (.queue domain status true)
      { s with
        fl := { s.fl with
          notif_queue := s.fl.notif_queue ++ [⟨status, domain, s.fl.sessionid⟩]
          notif_queue_count := s.fl.notif_queue_count + 1 }
        queued := s.queued ++ [⟨status, domain, s.fl.sessionid⟩] }
  | no_memory (domain : Int) (status : BitVec 32) : Steps s (.queue domain status false) s
  | notif_wake_exit :
      Steps s .notif_wake_exit { s with exit_notif := true, waking := s.waking + 1 }
  | notif_wake_count (h : 0 < s.waking) :
      Steps s .notif_wake_count { s.dummy_wake with waking := s.waking - 1 }
  | call (r : Nat) (h : s.readers r = .out) :
      Steps s (.call r) { s.move r .waiting with inside := r :: s.inside }
  | wait_event (r : Nat) (interrupted : Bool) (h : s.readers r = .waiting)
      (hc : s.fl.notif_queue_count ≠ 0 ↔ interrupted = false) :
      Steps s (.wait_event r interrupted) (s.move r (.woken interrupted))
  | exit (r : Nat) (i : Bool) (h : s.readers r = .woken i) (hx : s.exit_notif = true) :
      Steps s (.check_exit r) (s.answer r .exit)
  | interrupted (r : Nat) (h : s.readers r = .woken true) (hx : s.exit_notif = false) :
      Steps s (.check_exit r) (s.answer r .interrupted)
  | woken (r : Nat) (h : s.readers r = .woken false) (hx : s.exit_notif = false) :
      Steps s (.check_exit r) (s.move r .locking)
  | take_none (r : Nat) (h : s.readers r = .locking) (hq : s.fl.notif_queue = []) :
      Steps s (.take r) (s.move r .waiting)
  | take (r : Nat) (h : s.readers r = .locking) (n : SmqNotifRsp) (rest : List SmqNotifRsp)
      (hq : s.fl.notif_queue = n :: rest) :
      Steps s (.take r)
        { s.move r (.holding n) with
          fl := { s.fl with notif_queue := rest, notif_queue_count := s.fl.notif_queue_count - 1 }
          taken := s.taken ++ [(r, n)] }
  | copy_to_user (r : Nat) (ok : Bool) (n : SmqNotifRsp) (h : s.readers r = .holding n) :
      Steps s (.copy_to_user r ok) (s.answer r (if ok then .notif n else .fault n))
  | file_free (h : s.inside = []) : Steps s .file_free { s.dummy_wake with released := true }

theorem steps_of_step (h : step s a = some t) : s.released = false ∧ Steps s a t := by
  unfold step at h
  split at h
  · cases h
  rename_i hr
  refine ⟨by simpa using hr, ?_⟩
  cases a with
  | queue domain status alloc_ok =>
    cases h
    cases alloc_ok
    case true => exact .queue domain status
    case false =>
      simp only [fastrpc_queue_pd_status, Act.queues, Option.toList_none, List.append_nil, if_true]
      exact .no_memory domain status
  | notif_wake_exit => cases h; exact .notif_wake_exit
  | notif_wake_count =>
    simp only at h
    split at h
    · cases h; exact .notif_wake_count ‹_›
    · cases h
  | call r =>
    simp only at h
    split at h
    · cases h; exact .call r ‹_›
    · cases h
  | wait_event r interrupted =>
    simp only at h
    split at h
    · split at h
      · rename_i hc
        cases h
        exact .wait_event r interrupted ‹_› (by rw [hc])
      · cases h
    · cases h
  | check_exit r =>
    simp only at h
    split at h
    · rename_i i hi
      split at h
      · cases h; exact .exit r i hi ‹_›
      · rename_i hx
        have hx : s.exit_notif = false := by simpa using hx
        cases i
        · cases h; exact .woken r hi hx
        · cases h; exact .interrupted r hi hx
    · cases h
  | take r =>
    simp only at h
    split at h
    · rename_i hr
      cases h
      unfold Session.take_notif
      split
      · exact .take_none r hr ‹_›
      · exact .take r hr _ _ ‹_›
    · cases h
  | copy_to_user r ok =>
    simp only at h
    split at h
    · rename_i n hr
      cases h
      exact .copy_to_user r ok n hr
    · cases h
  | file_free =>
    simp only at h
    split at h
    · cases h; exact .file_free ‹_›
    · cases h

@[simp] theorem readers_move_self (p : Reader) : (s.move r p).readers r = p := by
  simp [Session.move]

theorem readers_move_ne (p : Reader) (h : q ≠ r) : (s.move r p).readers q = s.readers q := by
  simp [Session.move, h]

@[simp] theorem readers_answer_self (a : Answer) : (s.answer r a).readers r = .out := by
  simp [Session.answer]

theorem readers_answer_ne (a : Answer) (h : q ≠ r) :
    (s.answer r a).readers q = s.readers q := by simp [Session.answer, h]

/-! ## The order of the notifications -/

/-- What was taken off the queue and what is on it is what was queued, in that order. What a
thread took is what its calls returned with, in their order, and what it holds. -/
structure Ordered (s : Session) : Prop where
  fifo : s.taken.map Prod.snd ++ s.fl.notif_queue = s.queued
  mine : ∀ r, of_thread r s.taken =
    (of_thread r s.returned).filterMap Answer.took ++ (s.readers r).held

theorem ordered_init (fl : File) : Ordered (Session.init fl) := ⟨rfl, fun _ => rfl⟩

/-- A thread goes on that holds nothing before and after. -/
theorem Ordered.move (h : Ordered s) {p : Reader} (hr : (s.readers r).held = [])
    (hp : p.held = []) : Ordered (s.move r p) := by
  refine ⟨h.fifo, fun q => ?_⟩
  by_cases hq : q = r
  · subst hq
    rw [readers_move_self, hp]
    have := h.mine q
    rw [hr] at this
    exact this
  · rw [readers_move_ne p hq]
    exact h.mine q

/-- A call returns with what its thread holds. -/
theorem Ordered.answer (h : Ordered s) {a : Answer} (ha : a.took.toList = (s.readers r).held) :
    Ordered (s.answer r a) := by
  refine ⟨h.fifo, fun q => ?_⟩
  have hq := h.mine q
  by_cases hqr : q = r
  · subst hqr
    rw [readers_answer_self]
    simp only [Session.answer, of_thread_snoc_self, List.filterMap_append, Reader.held,
      List.append_nil]
    rw [hq, ← ha]
    cases hk : a.took <;> simp [hk]
  · rw [readers_answer_ne a hqr]
    simp only [Session.answer]
    rw [of_thread_snoc_ne (Ne.symm hqr)]
    exact hq

theorem Ordered.step (h : Ordered s) (ht : step s a = some t) : Ordered t := by
  cases (steps_of_step ht).2 with
  | queue domain status =>
    refine ⟨?_, h.mine⟩
    rw [← h.fifo, List.append_assoc]
  | no_memory => exact h
  | notif_wake_exit => exact ⟨h.fifo, h.mine⟩
  | notif_wake_count => exact ⟨h.fifo, h.mine⟩
  | call r hr =>
    have := h.move (p := .waiting) (by rw [hr]; rfl) rfl
    exact ⟨this.fifo, this.mine⟩
  | wait_event r i hr => exact h.move (by rw [hr]; rfl) rfl
  | exit r i hr => exact h.answer (by rw [hr]; rfl)
  | interrupted r hr => exact h.answer (by rw [hr]; rfl)
  | woken r hr => exact h.move (by rw [hr]; rfl) rfl
  | take_none r hr => exact h.move (by rw [hr]; rfl) rfl
  | take r hr n rest hq =>
    constructor
    case fifo =>
      have hfifo := h.fifo
      rw [hq] at hfifo
      simpa [Session.move] using hfifo
    case mine =>
      intro q
      have hmine := h.mine q
      simp only [Session.move]
      by_cases hqr : q = r
      · subst hqr
        rw [of_thread_snoc_self, hmine, hr]
        simp [Reader.held]
      · rw [of_thread_snoc_ne (Ne.symm hqr), hmine, Function.update_of_ne hqr]
  | copy_to_user r ok n hr =>
    apply h.answer
    rw [hr]
    cases ok <;> rfl
  | file_free => exact ⟨h.fifo, h.mine⟩

/-- What a run has queued is what its acts queue, and nothing else. -/
theorem queued_of_run {fl : File} {as : List Act} (h : run step (Session.init fl) as = some s) :
    s.queued = as.filterMap (Act.queues fl) := by
  have hinv : s.queued = as.filterMap (Act.queues fl) ∧ s.fl.sessionid = fl.sessionid := by
    apply run_trace_inv (fun as s => s.queued = as.filterMap (Act.queues fl) ∧
      s.fl.sessionid = fl.sessionid) ⟨rfl, rfl⟩ _ h
    rintro pre u a t - ⟨hq, hid⟩ ht
    rw [List.filterMap_append, ← hq]
    cases (steps_of_step ht).2 with
    | queue domain status => simp [Act.queues, hid]
    | no_memory => exact ⟨by simp [Act.queues], hid⟩
    | _ => exact ⟨by simp [Act.queues, Session.move, Session.answer, Session.dummy_wake], hid⟩
  exact hinv.1

theorem ordered_run {fl : File} {as : List Act} (h : run step (Session.init fl) as = some s) :
    Ordered s := by
  apply run_inv Ordered _ (ordered_init fl) h
  intro s a t hs ht
  exact hs.step ht

/-- However the threads, the receive callback and the controls come, the notifications leave the
queue in the order they came, each for one thread, and a thread gets its own in that order: what
its calls returned with, the one it holds last. -/
theorem notifications_are_read_in_order {fl : File} {as : List Act}
    (h : run step (Session.init fl) as = some s) :
    s.taken.map Prod.snd ++ s.fl.notif_queue = as.filterMap (Act.queues fl) ∧
      ∀ r, of_thread r s.taken =
        (of_thread r s.returned).filterMap Answer.took ++ (s.readers r).held := by
  have hord := ordered_run h
  refine ⟨?_, hord.mine⟩
  rw [hord.fifo, queued_of_run h]

/-- A session of domain 3. -/
def aFile : File := ⟨{ dsp_signals.hfastrpc_file_alloc 1 with domain := 3 }, 0, [], 0⟩

/-- Two threads wait, and the one that was called last takes the first notification. -/
def twoReaders : List Act :=
  [.call 0, .call 1, .queue 3 1 true, .wait_event 0 false, .wait_event 1 false, .check_exit 1,
    .take 1, .queue 3 2 true, .check_exit 0, .take 0, .copy_to_user 0 true, .copy_to_user 1 false]

theorem two_readers_read_in_order :
    ∃ s, run step (Session.init aFile) twoReaders = some s ∧
      s.returned = [(0, .notif ⟨2, 3, 0⟩), (1, .fault ⟨1, 3, 0⟩)] ∧
      s.taken.map Prod.snd ++ s.fl.notif_queue = twoReaders.filterMap (Act.queues aFile) ∧
      ∀ r, of_thread r s.taken =
        (of_thread r s.returned).filterMap Answer.took ++ (s.readers r).held := by
  obtain ⟨s, hs⟩ : ∃ s, run step (Session.init aFile) twoReaders = some s := ⟨_, rfl⟩
  refine ⟨s, hs, ?_, notifications_are_read_in_order hs⟩
  cases hs
  rfl

/-! ## The count and the sleepers -/

/-- The count is the number of notifications on the queue and of the dummy wake-ups. A thread
that is not outside is one that the file knows of, and there is none behind the release. -/
structure Counted (s : Session) : Prop where
  count : s.fl.notif_queue_count = s.fl.notif_queue.length + s.wakes
  inside : ∀ r, s.readers r ≠ .out → r ∈ s.inside
  exit : s.released = false → 0 < s.waking + s.wakes → s.exit_notif = true
  closed : s.released = true → s.inside = []

theorem counted_init (fl : File) : Counted (Session.init fl) where
  count := rfl
  inside := fun _ h => absurd rfl h
  exit := fun _ h => absurd h (by simp [Session.init])
  closed := fun h => by simp [Session.init] at h

theorem Counted.move (h : Counted s) {p : Reader} (hr : s.readers r ≠ .out) :
    Counted (s.move r p) := by
  refine ⟨h.count, fun q hq => ?_, h.exit, h.closed⟩
  by_cases hqr : q = r
  · rw [hqr]
    exact h.inside r hr
  · rw [readers_move_ne p hqr] at hq
    exact h.inside q hq

theorem Counted.answer (h : Counted s) (hopen : s.released = false) (a : Answer) :
    Counted (s.answer r a) := by
  refine ⟨h.count, fun q hq => ?_, h.exit, fun hc => ?_⟩
  · by_cases hqr : q = r
    · rw [hqr, readers_answer_self] at hq
      exact absurd rfl hq
    · rw [readers_answer_ne a hqr] at hq
      exact List.mem_filter.mpr ⟨h.inside q hq, by simpa using hqr⟩
  · exact absurd (hopen.symm.trans hc) (by simp)

theorem Counted.step (h : Counted s) (ht : step s a = some t) : Counted t := by
  obtain ⟨hopen, hst⟩ := steps_of_step ht
  have hclosed : s.released = true → s.inside = [] := h.closed
  cases hst with
  | queue domain status =>
    refine ⟨?_, h.inside, h.exit, hclosed⟩
    simp only [h.count, List.length_append, List.length_cons, List.length_nil]
    omega
  | no_memory => exact h
  | notif_wake_exit => exact ⟨h.count, h.inside, fun _ _ => rfl, hclosed⟩
  | notif_wake_count hw =>
    refine ⟨?_, h.inside, fun _ _ => h.exit hopen (by omega), hclosed⟩
    simp only [Session.dummy_wake, h.count]
    omega
  | call r hr =>
    refine ⟨h.count, fun q hq => ?_, h.exit, fun hc => absurd (hopen.symm.trans hc) (by simp)⟩
    by_cases hqr : q = r
    · simp [hqr]
    · apply List.mem_cons_of_mem
      rw [readers_move_ne _ hqr] at hq
      exact h.inside q hq
  | wait_event r i hr => exact h.move (by simp [hr])
  | exit r i hr => exact h.answer hopen _
  | interrupted r hr => exact h.answer hopen _
  | woken r hr => exact h.move (by simp [hr])
  | take_none r hr => exact h.move (by simp [hr])
  | take r hr n rest hq =>
    have hm := h.move (r := r) (p := .holding n) (by simp [hr])
    refine ⟨?_, hm.inside, hm.exit, hm.closed⟩
    have hcount := h.count
    rw [hq, List.length_cons] at hcount
    simp only [Session.move, hcount]
    omega
  | copy_to_user r ok n hr => exact h.answer hopen _
  | file_free hin =>
    refine ⟨?_, h.inside, fun hf => by simp at hf, fun _ => hin⟩
    simp only [Session.dummy_wake, h.count]
    omega

theorem counted_run {fl : File} {as : List Act} (h : run step (Session.init fl) as = some s) :
    Counted s := by
  apply run_inv Counted _ (counted_init fl) h
  intro s a t hs ht
  exact hs.step ht

/-- A thread that waits is on an open file. -/
theorem Counted.open_of_waiting (h : Counted s) (hr : s.readers r = .waiting) :
    s.released = false := by
  cases hrel : s.released with
  | false => rfl
  | true =>
    have hin := h.inside r (by simp [hr])
    rw [h.closed hrel] at hin
    exact absurd hin (by simp)

/-- A thread in the wait passes it when there is a notification on the queue or a dummy wake-up
has been made, and a signal ends the wait in every other case. -/
theorem wait_event_iff (h : Counted s) (hr : s.readers r = .waiting) :
    ((step s (.wait_event r false)).isSome ↔ s.fl.notif_queue ≠ [] ∨ 0 < s.wakes) ∧
      ((step s (.wait_event r true)).isSome ↔ s.fl.notif_queue = [] ∧ s.wakes = 0) := by
  have hopen := h.open_of_waiting hr
  have hne : s.fl.notif_queue_count ≠ 0 ↔ s.fl.notif_queue ≠ [] ∨ 0 < s.wakes := by
    rw [h.count, ← List.length_pos_iff]
    omega
  constructor
  · rw [← hne]
    by_cases hc : s.fl.notif_queue_count = 0 <;> simp [Session.move, step, hopen, hr, hc]
  · have hnot : (s.fl.notif_queue = [] ∧ s.wakes = 0) ↔ ¬ (s.fl.notif_queue_count ≠ 0) := by
      rw [hne]
      simp
    rw [hnot]
    by_cases hc : s.fl.notif_queue_count = 0 <;> simp [step, hopen, hr, hc]

/-- No thread sleeps beside a notification: in every state that is reached, a thread in the wait
can pass it exactly when the queue is not empty or a dummy wake-up was made, and only a thread
with neither can be sent back by a signal. -/
theorem no_reader_sleeps_beside_a_notification {fl : File} {as : List Act}
    (h : run step (Session.init fl) as = some s) (hr : s.readers r = .waiting) :
    ((step s (.wait_event r false)).isSome ↔ s.fl.notif_queue ≠ [] ∨ 0 < s.wakes) ∧
      ((step s (.wait_event r true)).isSome ↔ s.fl.notif_queue = [] ∧ s.wakes = 0) :=
  wait_event_iff (counted_run h) hr

/-- One notification for two threads: the second finds the queue empty and waits again. -/
def oneForTwo : List Act :=
  [.call 0, .call 1, .queue 3 1 true, .wait_event 0 false, .wait_event 1 false, .check_exit 1,
    .take 1, .check_exit 0, .take 0]

theorem the_second_reader_sleeps :
    ∃ s, run step (Session.init aFile) oneForTwo = some s ∧ s.fl.notif_queue = [] ∧
      ((step s (.wait_event 0 false)).isSome ↔ s.fl.notif_queue ≠ [] ∨ 0 < s.wakes) ∧
      ((step s (.wait_event 0 true)).isSome ↔ s.fl.notif_queue = [] ∧ s.wakes = 0) := by
  obtain ⟨s, hs⟩ : ∃ s, run step (Session.init aFile) oneForTwo = some s := ⟨_, rfl⟩
  have hr : s.readers 0 = .waiting := by
    cases hs
    rfl
  refine ⟨s, hs, ?_, no_reader_sleeps_beside_a_notification hs hr⟩
  cases hs
  rfl

/-! ## After the wake-up of NOTIF_WAKE -/

/-- The thread is not behind the test of `exit_notif`. -/
def Reader.before_exit : Reader → Bool
  | .locking => false
  | .holding _ => false
  | _ => true

/-- What has become of the thread since the state `s`, in which it was before the test: it takes
no notification, and its calls return -EFAULT. -/
structure Ending (s : Session) (r : Nat) (t : Session) : Prop where
  counted : Counted t
  wakes : 0 < t.wakes
  before : (t.readers r).before_exit = true
  taken : of_thread r t.taken = of_thread r s.taken
  answers : ∃ k, of_thread r t.returned = of_thread r s.returned ++ List.replicate k .exit

/-- Another thread goes on, or this one before the test. -/
theorem Ending.move {u : Session} (h : Ending u r s) (q : Nat) {p : Reader}
    (hq : s.readers q ≠ .out) (hp : q = r → p.before_exit = true) : Ending u r (s.move q p) := by
  refine ⟨h.counted.move hq, h.wakes, ?_, h.taken, h.answers⟩
  by_cases hqr : r = q
  · subst hqr
    rw [readers_move_self]
    exact hp rfl
  · rw [readers_move_ne p hqr]
    exact h.before

/-- A call returns: one of another thread, or one of this thread with -EFAULT. -/
theorem Ending.answer {u : Session} (h : Ending u r s) (hopen : s.released = false) (q : Nat)
    {a : Answer} (ha : q = r → a = .exit) : Ending u r (s.answer q a) := by
  refine ⟨h.counted.answer hopen a, h.wakes, ?_, h.taken, ?_⟩
  · by_cases hqr : r = q
    · rw [hqr, readers_answer_self]
      rfl
    · rw [readers_answer_ne a hqr]
      exact h.before
  · obtain ⟨k, hk⟩ := h.answers
    by_cases hqr : q = r
    · refine ⟨k + 1, ?_⟩
      rw [ha hqr, hqr]
      simp only [Session.answer, of_thread_snoc_self]
      rw [hk, List.append_assoc, List.replicate_succ']
    · refine ⟨k, ?_⟩
      simp only [Session.answer]
      rw [of_thread_snoc_ne hqr, hk]

theorem Ending.step {u : Session} (h : Ending u r s) (ht : step s a = some t) :
    Ending u r t := by
  obtain ⟨hopen, hst⟩ := steps_of_step ht
  have hexit : s.exit_notif = true :=
    h.counted.exit hopen (Nat.lt_of_lt_of_le h.wakes (Nat.le_add_left _ _))
  -- the thread is not where a notification is taken
  have hoff : ∀ q, (s.readers q).before_exit = false → q ≠ r := by
    rintro q hq rfl
    exact absurd (hq.symm.trans h.before) (by simp)
  have hcounted := h.counted.step ht
  cases hst with
  | queue => exact ⟨hcounted, h.wakes, h.before, h.taken, h.answers⟩
  | no_memory => exact h
  | notif_wake_exit => exact ⟨hcounted, h.wakes, h.before, h.taken, h.answers⟩
  | notif_wake_count => exact ⟨hcounted, Nat.succ_pos _, h.before, h.taken, h.answers⟩
  | call q hq =>
    refine ⟨hcounted, h.wakes, ?_, h.taken, h.answers⟩
    by_cases hqr : r = q
    · subst hqr
      simp [Session.move, Reader.before_exit]
    · simp only [Session.move, Function.update_of_ne hqr]
      exact h.before
  | wait_event q i hq => exact h.move q (by simp [hq]) (fun _ => rfl)
  | exit q i hq => exact h.answer hopen q (fun _ => rfl)
  | interrupted q hq hx => exact absurd (hexit.symm.trans hx) (by simp)
  | woken q hq hx => exact absurd (hexit.symm.trans hx) (by simp)
  | take_none q hq => exact h.move q (by simp [hq]) (fun _ => rfl)
  | take q hq n rest =>
    have hqr : q ≠ r := hoff q (by rw [hq]; rfl)
    have hm := h.move q (p := .holding n) (by simp [hq]) (fun he => absurd he hqr)
    refine ⟨hcounted, h.wakes, hm.before, ?_, h.answers⟩
    rw [← h.taken]
    exact of_thread_snoc_ne hqr _ _
  | copy_to_user q ok n hq =>
    have hqr : q ≠ r := hoff q (by rw [hq]; rfl)
    exact h.answer hopen q (fun he => absurd he hqr)
  | file_free => exact ⟨hcounted, Nat.succ_pos _, h.before, h.taken, h.answers⟩

/-- Once a NOTIF_WAKE has made its wake-up, a thread that is not behind the test of `exit_notif`
takes no notification any more, whatever is queued: its calls all return -EFAULT, and none of
them has to wait. -/
theorem after_the_wake_up_every_call_ends {fl : File} {as bs : List Act}
    (h : run step (Session.init fl) as = some s) (hw : 0 < s.wakes)
    (hb : (s.readers r).before_exit = true) (ht : run step s bs = some t) :
    (of_thread r t.taken = of_thread r s.taken ∧
      ∃ k, of_thread r t.returned = of_thread r s.returned ++ List.replicate k .exit) ∧
      (t.readers r = .waiting → (step t (.wait_event r false)).isSome) := by
  have hend : Ending s r t := by
    apply run_inv (Ending s r) _ _ ht
    · intro u a v hu hv
      exact hu.step hv
    · exact ⟨counted_run h, hw, hb, rfl, 0, by simp⟩
  refine ⟨⟨hend.taken, hend.answers⟩, fun hr => ?_⟩
  exact (wait_event_iff hend.counted hr).1.mpr (Or.inr hend.wakes)

/-- A thread sleeps when NOTIF_WAKE comes, and calls again beside a notification. -/
def wakeUp : List Act := [.call 0, .notif_wake_exit, .notif_wake_count]

def behindWakeUp : List Act :=
  [.wait_event 0 false, .queue 3 1 true, .check_exit 0, .call 0]

theorem a_sleeper_ends_with_the_wake_up :
    ∃ s t, run step (Session.init aFile) wakeUp = some s ∧ run step s behindWakeUp = some t ∧
      t.fl.notif_queue = [⟨1, 3, 0⟩] ∧
      (of_thread 0 t.taken = of_thread 0 s.taken ∧
        ∃ k, of_thread 0 t.returned = of_thread 0 s.returned ++ List.replicate k .exit) ∧
      (t.readers 0 = .waiting → (step t (.wait_event 0 false)).isSome) := by
  obtain ⟨s, hs⟩ : ∃ s, run step (Session.init aFile) wakeUp = some s := ⟨_, rfl⟩
  have hw : 0 < s.wakes := by
    cases hs
    decide
  have hb : (s.readers 0).before_exit = true := by
    cases hs
    rfl
  obtain ⟨t, ht⟩ : ∃ t, run step s behindWakeUp = some t := by
    cases hs
    exact ⟨_, rfl⟩
  refine ⟨s, t, hs, ht, ?_, after_the_wake_up_every_call_ends hs hw hb ht⟩
  cases hs
  cases ht
  rfl

/-! ## The memory of the notifications -/

/-- The notifications that the calls of a session freed. -/
def Session.freed (s : Session) : List SmqNotifRsp := s.returned.filterMap (fun e => e.2.took)

/-- A history without the events that carry nothing. -/
theorem of_thread_filterMap {α β : Type} (f : α → Option β) (r : Nat) (l : List (Nat × α)) :
    of_thread r (l.filterMap (fun e => (f e.2).map (fun b => (e.1, b)))) =
      (of_thread r l).filterMap f := by
  induction l with
  | nil => rfl
  | cons e l ih =>
    obtain ⟨q, a⟩ := e
    unfold of_thread at ih ⊢
    by_cases hq : q = r
    · subst hq
      cases hf : f a <;> simp [hf, ih]
    · cases hf : f a <;> simp [hf, hq, ih]

/-- A session that is released has freed each notification that a call took, once, and keeps the
memory of every one that was still on its queue. -/
theorem a_released_session_keeps_what_was_not_read {fl : File} {as : List Act}
    (h : run step (Session.init fl) as = some s) (hrel : s.released = true) :
    (s.freed ++ s.fl.notif_queue).Perm (as.filterMap (Act.queues fl)) := by
  have hord := ordered_run h
  have hcnt := counted_run h
  -- nobody is inside, so nobody holds a notification
  have hout : ∀ r, s.readers r = .out := by
    intro r
    by_contra hr
    have hin := hcnt.inside r hr
    rw [hcnt.closed hrel] at hin
    exact absurd hin (by simp)
  have hthreads : s.taken.Perm
      (s.returned.filterMap (fun e => (e.2.took).map (fun n => (e.1, n)))) := by
    apply perm_of_threads
    intro r
    rw [hord.mine r, hout r, of_thread_filterMap]
    simp [Reader.held]
  have hfreed : (s.taken.map Prod.snd).Perm s.freed := by
    have := hthreads.map Prod.snd
    rw [List.map_filterMap] at this
    simpa [Session.freed, Option.map_map, Function.comp_def] using this
  rw [← queued_of_run h, ← hord.fifo]
  exact hfreed.symm.append_right _

/-- The user is gone with one notification read and one queued. -/
def readAndLeft : List Act :=
  [.queue 3 1 true, .call 0, .wait_event 0 false, .check_exit 0, .take 0, .copy_to_user 0 true,
    .queue 3 2 true, .file_free]

theorem the_unread_notification_is_kept :
    ∃ s, run step (Session.init aFile) readAndLeft = some s ∧ s.fl.notif_queue = [⟨2, 3, 0⟩] ∧
      (s.freed ++ s.fl.notif_queue).Perm (readAndLeft.filterMap (Act.queues aFile)) := by
  obtain ⟨s, hs⟩ : ∃ s, run step (Session.init aFile) readAndLeft = some s := ⟨_, rfl⟩
  have hrel : s.released = true := by
    cases hs
    rfl
  refine ⟨s, hs, ?_, a_released_session_keeps_what_was_not_read hs hrel⟩
  cases hs
  rfl

end virtual_fastrpc.notif_queue
