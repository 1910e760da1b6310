-- The asynchronous invokes of a session of the virtio driver. The thread that
-- issues an invoke, the receive callback and the threads that collect the
-- responses take their steps in any order; all three hold the same context.
import PlatformKernel.Lib.Runs
import PlatformKernel.Lib.Hlist

namespace virtual_fastrpc.async_jobs

open step_runs hlist

def FASTRPC_STATIC_HANDLE_LISTENER : Nat := 3
def FASTRPC_STATIC_HANDLE_MAX : Nat := 20

/-! ## The issuing thread -/

/-- Where the thread is in vfastrpc_internal_invoke, from the end of context_alloc on. -/
inductive Pc
  /-- Before it reads the context for the counter. -/
  | counter
  /-- In get_args, before virt_alloc_msg. -/
  | mapping
  /-- In get_args, with a message that does not point to the context yet. -/
  | alloced
  /-- In get_args, writing the message. -/
  | filling
  /-- In virt_fastrpc_invoke, before the send. -/
  | sending
  /-- vfastrpc_txbuf_send has returned, without an error or with one. -/
  | sent (ok : Bool)
  /-- virt_fastrpc_invoke has returned. -/
  | linked (ok : Bool)
  | bail
  | invoke_end
  | returned
  deriving DecidableEq, Repr

/-- The context of an asynchronous invoke, and the thread that has made it. The node of the
queue of completed jobs has the number of the job. -/
structure Job where
  pc : Pc
  handle : Nat
  /-- Whether the context has a perf record. -/
  perf : Bool
  /-- Whether the counter of the thread is set. -/
  perf_counter : Bool
  msg : Option Nat
  /-- Whether context_free has been executed. -/
  freed : Bool
  /-- How many collectors have got the job. -/
  handed : Nat
  deriving DecidableEq, Repr

/-- vfastrpc_update_invoke_count writes to one counter or to both for these handles. -/
def counted (handle : Nat) : Bool :=
  decide (handle ≠ FASTRPC_STATIC_HANDLE_LISTENER) || decide (handle > FASTRPC_STATIC_HANDLE_MAX)

/-- The thread's counter points into the perf record of the context. -/
def Job.counts (x : Job) : Bool := x.perf_counter && x.perf

/-- A step of the thread alone: whether it reads or writes the context or its perf record,
and the job after it. The two flags are those of the tracepoint and of the profiling; the
third says how get_args or the send ends. -/
def turn (tracing profile ok : Bool) (x : Job) : Option (Bool × Job) :=
  match x.pc with
  | .counter => some (true, { x with pc := .mapping, perf_counter := profile })
  | .mapping => if ok then none else some (true, { x with pc := .bail })
  | .filling => some (true, { x with pc := if ok then .sending else .bail })
  | .sending => some (true, { x with pc := .sent ok })
  | .sent ok => some (tracing, { x with pc := .linked ok })
  | .linked ok =>
    some (profile && x.counts, { x with pc := if ok then .invoke_end else .bail })
  | .invoke_end => some (profile && counted x.handle && x.counts, { x with pc := .returned })
  | _ => none

/-- The thread may still read or write the context or its perf record. -/
def touches (tracing : Bool) (x : Job) : Bool :=
  match x.pc with
  | .sent true => tracing || x.counts
  | .linked true => x.counts
  | .invoke_end => counted x.handle && x.counts
  | .returned => false
  | _ => true

/-! ## The session -/

/-- A message of the table: the job whose context it was made for, whether it points to that
context yet, and whether it has a response. The other messages of the driver have no job. -/
structure Msg where
  job : Option Nat
  ctx : Bool
  rxbuf : Bool
  deriving DecidableEq, Repr

/-- A thread in vfastrpc_wait_on_async_queue. -/
inductive Collector
  | out | waiting | woken
  | holding (j : Nat)
  deriving DecidableEq, Repr

/-- How far vfastrpc_file_free is. -/
inductive Stage
  | open_ | exit_start | queue_woken
  deriving DecidableEq, Repr

structure Session where
  jobs : Nat → Option Job
  next : Nat
  msgtable : Nat → Option Msg
  async_queue : Hlist
  async_queue_job_count : Int
  profile : Bool
  stage : Stage
  collectors : Nat → Collector
  /-- The number of threads that have ever come to vfastrpc_wait_on_async_queue. -/
  callers : Nat
  /-- For the laws: a step of an issuing thread has read or written a context or its perf
  record after context_free was executed on it. -/
  used_after_free : Bool

/-- The session after vfastrpc_file_alloc, with no message of the driver in the table. -/
def Session.init : Session :=
  { jobs := fun _ => none, next := 0, msgtable := fun _ => none,
    async_queue := HLIST_HEAD_INIT, async_queue_job_count := 0, profile := false,
    stage := .open_, collectors := fun _ => .out, callers := 0, used_after_free := false }

def Session.setJob (s : Session) (j : Nat) (x : Job) : Session :=
  { s with jobs := Function.update s.jobs j (some x) }

def Session.setMsg (s : Session) (i : Nat) (m : Option Msg) : Session :=
  { s with msgtable := Function.update s.msgtable i m }

def Session.setCollector (s : Session) (c : Nat) (k : Collector) : Session :=
  { s with collectors := Function.update s.collectors c k }

/-- An access of the issuing thread to the context of the job. -/
def Session.access (s : Session) (acc : Bool) (x : Job) : Session :=
  { s with used_after_free := s.used_after_free || (acc && x.freed) }

/-- virt_free_msg, if there is a message. -/
def freeMsg (msgtable : Nat → Option Msg) : Option Nat → Nat → Option Msg
  | some i => Function.update msgtable i none
  | none => msgtable

def Session.alterJob (s : Session) (j : Nat) (f : Job → Job) : Session :=
  { s with jobs := Function.update s.jobs j ((s.jobs j).map f) }

def Job.free (x : Job) : Job := { x with freed := true, msg := none }

/-- context_free, as far as it is about the message and the context. -/
def context_free (s : Session) (j : Nat) : Session :=
  { s.alterJob j Job.free with msgtable := freeMsg s.msgtable ((s.jobs j).bind Job.msg) }

def vfastrpc_queue_completed_async_job (s : Session) (j : Nat) : Session :=
  if hlist_unhashed s.async_queue j then s
  else
    { s with
      async_queue := hlist_add_head s.async_queue j,
      async_queue_job_count := s.async_queue_job_count + 1 }

/-- recv_single for a response with the msgid `i`. -/
def recv_single (s : Session) (i : Nat) : Session :=
  match s.msgtable i with
  | none => s
  | some m =>
    let s := s.setMsg i (some { m with rxbuf := true })
    match m.job with
    | some j => if m.ctx then vfastrpc_queue_completed_async_job s j else s
    | none => s

/-- The part of vfastrpc_wait_on_async_queue under the lock of the queue. -/
def take_first (s : Session) (c : Nat) : Session :=
  match s.async_queue.first with
  | none => s.setCollector c .waiting
  | some j =>
    { (s.alterJob j fun x => { x with handed := x.handed + 1 }).setCollector c (.holding j) with
      async_queue := hlist_del_init s.async_queue j,
      async_queue_job_count := s.async_queue_job_count - 1 }

/-- A context after context_alloc. -/
def Job.new (handle : Nat) (perf : Bool) : Job :=
  { pc := .counter, handle, perf, perf_counter := false, msg := none, freed := false, handed := 0 }

def context_alloc (s : Session) (handle : Nat) : Session :=
  { s with
    jobs := Function.update s.jobs s.next (some (Job.new handle s.profile)),
    next := s.next + 1,
    async_queue := hlist_add_fake (INIT_HLIST_NODE s.async_queue s.next) s.next }

inductive Act
  /-- The ioctl that turns the profiling on; nothing turns it off. -/
  | set_profile
  | alloc (handle : Nat)
  | turn (j : Nat) (ok : Bool)
  /-- virt_alloc_msg in get_args gives the slot `i`. -/
  | msg_alloc (j i : Nat)
  /-- The message gets its pointer to the context. -/
  | msg_ctx (j : Nat)
  /-- The thread's own context_free, after an error. -/
  | bail (j : Nat)
  | other_msg_alloc (i : Nat)
  | other_msg_free (i : Nat)
  | recv (i : Nat)
  /-- A thread comes to vfastrpc_wait_on_async_queue. -/
  | come (c : Nat)
  /-- The wait of the thread ends because there are jobs. -/
  | wake (c : Nat)
  /-- A signal ends it. -/
  | interrupt (c : Nat)
  | take (c : Nat)
  /-- The collector has read the job and frees the context. -/
  | collect (c : Nat)
  /-- vfastrpc_file_free begins. -/
  | close
  | close_wake
  /-- vfastrpc_context_list_dtor frees a context. -/
  | close_free (j : Nat)
  deriving DecidableEq, Repr

/-- No thread is in an ioctl of the session. -/
def Session.quiet (s : Session) : Bool :=
  decide (∀ j < s.next, ∀ x ∈ s.jobs j, x.pc = .returned) &&
    decide (∀ c < s.callers, s.collectors c = .out)

/-- A step of the thread of one job. -/
def onJob (s : Session) (j : Nat) (f : Job → Option Session) : Option Session :=
  (s.jobs j).bind f

variable (tracing : Bool)

def step (s : Session) : Act → Option Session
  | .set_profile => some { s with profile := true }
  | .alloc handle => if s.stage = .open_ then some (context_alloc s handle) else none
  | .turn j ok => onJob s j fun x =>
    (turn tracing s.profile ok x).map fun r => (s.access r.1 x).setJob j r.2
  | .msg_alloc j i => onJob s j fun x =>
    if x.pc = .mapping ∧ s.msgtable i = none then
      some (((s.access true x).setJob j { x with pc := .alloced, msg := some i }).setMsg i
        (some { job := some j, ctx := false, rxbuf := false }))
    else none
  | .msg_ctx j => onJob s j fun x =>
    if x.pc = .alloced then
      let s := (s.access true x).setJob j { x with pc := .filling }
      match x.msg with
      | some i => some (s.setMsg i ((s.msgtable i).map fun m => { m with ctx := true }))
      | none => none
    else none
  | .bail j => onJob s j fun x =>
    if x.pc = .bail then
      some (context_free ((s.access true x).setJob j { x with pc := .invoke_end }) j)
    else none
  | .other_msg_alloc i =>
    if s.msgtable i = none then
      some (s.setMsg i (some { job := none, ctx := false, rxbuf := false }))
    else none
  | .other_msg_free i =>
    (s.msgtable i).bind fun m => if m.job = none then some (s.setMsg i none) else none
  | .recv i => some (recv_single s i)
  | .come c =>
    if s.stage = .open_ ∧ s.collectors c = .out then
      some { s.setCollector c .waiting with callers := max s.callers (c + 1) }
    else none
  | .wake c =>
    if s.collectors c = .waiting ∧ s.async_queue_job_count ≠ 0 then
      -- file_close is looked at before the queue
      some (s.setCollector c (if s.stage = .open_ then .woken else .out))
    else none
  | .interrupt c => if s.collectors c = .waiting then some (s.setCollector c .out) else none
  | .take c => if s.collectors c = .woken then some (take_first s c) else none
  | .collect c =>
    match s.collectors c with
    | .holding j => some ((context_free s j).setCollector c .out)
    | _ => none
  -- The file is released when its last ioctl has returned, and none begins after it.
  | .close => if s.stage = .open_ ∧ s.quiet then some { s with stage := .exit_start } else none
  | .close_wake =>
    if s.stage = .exit_start then
      some { s with
        stage := .queue_woken, async_queue_job_count := s.async_queue_job_count + 1 }
    else none
  | .close_free j => onJob s j fun x =>
    if s.stage = .queue_woken ∧ x.freed = false then some (context_free s j) else none

/-! ## The jobs after each step -/

section jobs

variable {tracing : Bool} {s t : Session} {j : Nat} {x : Job}

theorem onJob_some {f : Job → Option Session} (h : onJob s j f = some t) :
    ∃ x, s.jobs j = some x ∧ f x = some t := Option.bind_eq_some_iff.mp h

theorem update_some {jobs : Nat → Option Job} {k : Nat} {y : Job}
    (h : Function.update jobs j (some x) k = some y) :
    (k = j ∧ y = x) ∨ (k ≠ j ∧ jobs k = some y) := by
  by_cases hk : k = j
  · subst hk
    simp at h
    exact Or.inl ⟨rfl, h.symm⟩
  · exact Or.inr ⟨hk, by simpa [hk] using h⟩

theorem alterJob_jobs (hx : s.jobs j = some x) (f : Job → Job) :
    (s.alterJob j f).jobs = Function.update s.jobs j (some (f x)) := by
  simp [Session.alterJob, hx]

theorem alterJob_none (hx : s.jobs j = none) (f : Job → Job) : (s.alterJob j f).jobs = s.jobs := by
  show Function.update s.jobs j ((s.jobs j).map f) = s.jobs
  rw [hx, Option.map_none, ← hx, Function.update_eq_self]

theorem recv_single_frame (s : Session) (i : Nat) :
    (recv_single s i).jobs = s.jobs ∧ (recv_single s i).stage = s.stage ∧
      (recv_single s i).next = s.next ∧ (recv_single s i).collectors = s.collectors ∧
      (recv_single s i).used_after_free = s.used_after_free := by
  unfold recv_single
  rcases s.msgtable i with _ | ⟨_ | j, ctx, rx⟩
  · simp
  · simp [Session.setMsg]
  · cases ctx with
    | false => simp [Session.setMsg]
    | true =>
      simp only [vfastrpc_queue_completed_async_job, if_true]
      split <;> simp [Session.setMsg]

/-- The jobs have the numbers below `next`, and while the file is released every thread has
returned. -/
structure Settled (s : Session) : Prop where
  known : ∀ j x, s.jobs j = some x → j < s.next
  quiet : s.stage ≠ .open_ → ∀ j x, s.jobs j = some x → x.pc = .returned

theorem settled_init : Settled Session.init := ⟨nofun, fun h => absurd rfl h⟩

/-- A step that makes no job and lets no thread come back. -/
theorem Settled.keep (h : Settled s)
    (hjobs : ∀ j y, t.jobs j = some y → ∃ x, s.jobs j = some x ∧
      (x.pc = .returned → y.pc = .returned))
    (hnext : t.next = s.next) (hstage : t.stage ≠ .open_ → s.stage ≠ .open_) : Settled t := by
  refine ⟨?_, ?_⟩
  · intro j y hy
    obtain ⟨x, hx, _⟩ := hjobs j y hy
    exact hnext ▸ h.known j x hx
  · intro ht j y hy
    obtain ⟨x, hx, hpc⟩ := hjobs j y hy
    exact hpc (h.quiet (hstage ht) j x hx)

theorem Settled.of_jobs_eq (h : Settled s) (hjobs : t.jobs = s.jobs) (hnext : t.next = s.next)
    (hstage : t.stage ≠ .open_ → s.stage ≠ .open_) : Settled t :=
  h.keep (fun _ y hy => ⟨y, hjobs ▸ hy, id⟩) hnext hstage

theorem Settled.of_update (h : Settled s) {y : Job} (hx : s.jobs j = some x)
    (hjobs : t.jobs = Function.update s.jobs j (some y)) (hpc : x.pc = .returned → y.pc = .returned)
    (hnext : t.next = s.next) (hstage : t.stage = s.stage) : Settled t := by
  refine h.keep (fun k z hz => ?_) hnext (by rw [hstage]; exact id)
  rw [hjobs] at hz
  rcases update_some hz with ⟨rfl, rfl⟩ | ⟨_, hz⟩
  · exact ⟨x, hx, hpc⟩
  · exact ⟨z, hz, id⟩

theorem Settled.alterJob (h : Settled s) {f : Job → Job}
    (hjobs : t.jobs = (s.alterJob j f).jobs) (hf : ∀ x, (f x).pc = x.pc) (hnext : t.next = s.next)
    (hstage : t.stage = s.stage) :
    Settled t := by
  rcases hx : s.jobs j with _ | x
  · rw [alterJob_none hx] at hjobs
    exact h.of_jobs_eq hjobs hnext (by rw [hstage]; exact id)
  · rw [alterJob_jobs hx] at hjobs
    exact h.of_update hx hjobs (by rw [hf]; exact id) hnext hstage

theorem Settled.alloc (h : Settled s) (hs : s.stage = .open_) (handle : Nat) :
    Settled (context_alloc s handle) := by
  refine ⟨?_, fun ht => absurd hs ht⟩
  intro k z hz
  show k < s.next + 1
  rcases update_some hz with ⟨rfl, _⟩ | ⟨_, hz⟩
  · omega
  · exact Nat.lt_succ_of_lt (h.known k z hz)

theorem turn_pc {profile ok acc : Bool} {y : Job} (h : turn tracing profile ok x = some (acc, y)) :
    x.pc ≠ .returned := by
  intro hpc
  simp [turn, hpc] at h

theorem settled_step (s : Session) (a : Act) (t : Session) (h : Settled s)
    (ht : step tracing s a = some t) : Settled t := by
  cases a with
  | set_profile => cases ht; exact h.of_jobs_eq rfl rfl id
  | alloc handle =>
    obtain ⟨hs, ht⟩ := Option.ite_none_right_eq_some.mp ht
    cases ht
    exact h.alloc hs handle
  | turn j ok =>
    obtain ⟨x, hx, ht⟩ := onJob_some ht
    obtain ⟨⟨acc, y⟩, hturn, rfl⟩ := Option.map_eq_some_iff.mp ht
    exact h.of_update hx rfl (fun hr => absurd hr (turn_pc hturn)) rfl rfl
  | msg_alloc j i =>
    obtain ⟨x, hx, ht⟩ := onJob_some ht
    obtain ⟨⟨hpc, _⟩, ht⟩ := Option.ite_none_right_eq_some.mp ht
    cases ht
    refine h.of_update hx rfl (fun hr => ?_) rfl rfl
    exact absurd (hpc.symm.trans hr) nofun
  | msg_ctx j =>
    obtain ⟨x, hx, ht⟩ := onJob_some ht
    obtain ⟨hpc, ht⟩ := Option.ite_none_right_eq_some.mp ht
    rcases hm : x.msg with _ | i
    · simp [hm] at ht
    · simp only [hm, Option.some.injEq] at ht
      subst ht
      refine h.of_update hx rfl (fun hr => ?_) rfl rfl
      exact absurd (hpc.symm.trans hr) nofun
  | bail j =>
    obtain ⟨x, hx, ht⟩ := onJob_some ht
    obtain ⟨hpc, ht⟩ := Option.ite_none_right_eq_some.mp ht
    cases ht
    have hmid : Settled ((s.access true x).setJob j { x with pc := .invoke_end }) :=
      h.of_update hx rfl (fun hr => absurd (hpc.symm.trans hr) nofun) rfl rfl
    exact hmid.alterJob rfl (fun _ => rfl) rfl rfl
  | other_msg_alloc i =>
    obtain ⟨_, ht⟩ := Option.ite_none_right_eq_some.mp ht
    cases ht
    exact h.of_jobs_eq rfl rfl id
  | other_msg_free i =>
    obtain ⟨m, _, ht⟩ := Option.bind_eq_some_iff.mp ht
    obtain ⟨_, ht⟩ := Option.ite_none_right_eq_some.mp ht
    cases ht
    exact h.of_jobs_eq rfl rfl id
  | recv i =>
    cases ht
    obtain ⟨hjobs, hstage, hnext, _⟩ := recv_single_frame s i
    exact h.of_jobs_eq hjobs hnext (by rw [hstage]; exact id)
  | come c =>
    obtain ⟨_, ht⟩ := Option.ite_none_right_eq_some.mp ht
    cases ht
    exact h.of_jobs_eq rfl rfl id
  | wake c =>
    obtain ⟨_, ht⟩ := Option.ite_none_right_eq_some.mp ht
    cases ht
    exact h.of_jobs_eq rfl rfl id
  | interrupt c =>
    obtain ⟨_, ht⟩ := Option.ite_none_right_eq_some.mp ht
    cases ht
    exact h.of_jobs_eq rfl rfl id
  | take c =>
    obtain ⟨_, ht⟩ := Option.ite_none_right_eq_some.mp ht
    cases ht
    unfold take_first
    split
    · exact h.of_jobs_eq rfl rfl id
    · exact h.alterJob rfl (fun _ => rfl) rfl rfl
  | collect c =>
    simp only [step] at ht
    split at ht
    · cases ht
      exact h.alterJob rfl (fun _ => rfl) rfl rfl
    · cases ht
  | close =>
    obtain ⟨⟨_, hquiet⟩, ht⟩ := Option.ite_none_right_eq_some.mp ht
    cases ht
    refine ⟨h.known, fun _ j x hx => ?_⟩
    simp only [Session.quiet, Bool.and_eq_true, decide_eq_true_eq] at hquiet
    exact hquiet.1 j (h.known j x hx) x hx
  | close_wake =>
    obtain ⟨hstage, ht⟩ := Option.ite_none_right_eq_some.mp ht
    cases ht
    exact h.of_jobs_eq rfl rfl (fun _ => by rw [hstage]; exact nofun)
  | close_free j =>
    obtain ⟨x, hx, ht⟩ := onJob_some ht
    obtain ⟨_, ht⟩ := Option.ite_none_right_eq_some.mp ht
    cases ht
    exact h.alterJob rfl (fun _ => rfl) rfl rfl

end jobs

/-! ## The accesses of the issuing thread -/

section accesses

variable {tracing : Bool} {s t : Session}

/-- A step of the thread reads or writes only what it may still touch, and after it the
thread may touch no more than before. -/
theorem turn_touches {profile ok acc : Bool} {x y : Job}
    (h : turn tracing profile ok x = some (acc, y)) :
    y.freed = x.freed ∧ (touches tracing x = false → acc = false) ∧
      (touches tracing x = false → touches tracing y = false) := by
  unfold turn at h
  split at h
  case h_1 hpc => cases h; simp [touches, hpc]
  case h_2 hpc =>
    split at h
    · cases h
    · cases h; simp [touches, hpc]
  case h_3 hpc => cases h; simp [touches, hpc]
  case h_4 hpc => cases h; simp [touches, hpc]
  case h_5 ok hpc => cases h; cases ok <;> simp +contextual [touches, hpc, Job.counts]
  case h_6 ok hpc => cases h; cases ok <;> simp +contextual [touches, hpc, Job.counts]
  case h_7 hpc =>
    cases h
    simp only [touches, hpc, true_and, implies_true, and_true]
    intro hno
    rw [Bool.and_assoc, hno, Bool.and_false]
  case h_8 => cases h

/-- A freed context is one that its thread touches no more. -/
structure Ordered (tracing : Bool) (s : Session) : Prop where
  unused : s.used_after_free = false
  untouched : ∀ j x, s.jobs j = some x → x.freed = true → touches tracing x = false

theorem ordered_init : Ordered tracing Session.init := ⟨rfl, nofun⟩

/-- A step that changes no job. -/
theorem Ordered.of_jobs_eq (h : Ordered tracing s) (hjobs : t.jobs = s.jobs)
    (hused : t.used_after_free = s.used_after_free) : Ordered tracing t :=
  ⟨hused.trans h.unused, by rw [hjobs]; exact h.untouched⟩

/-- A step that changes one job, and reads or writes its context only when it is not freed. -/
theorem Ordered.of_update (h : Ordered tracing s) {j : Nat} {x y : Job}
    (hx : s.jobs j = some x) (hjobs : t.jobs = Function.update s.jobs j (some y))
    (hused : t.used_after_free = true → s.used_after_free = true ∨ x.freed = true ∧
      touches tracing x = true)
    (hy : y.freed = true → touches tracing y = false) : Ordered tracing t := by
  refine ⟨?_, ?_⟩
  · rcases hu : t.used_after_free with _ | _
    · rfl
    · rcases hused hu with hs | ⟨hf, ht⟩
      · exact absurd (h.unused.symm.trans hs) nofun
      · exact absurd ((h.untouched j x hx hf).symm.trans ht) nofun
  · intro k z hz hf
    rw [hjobs] at hz
    rcases update_some hz with ⟨rfl, rfl⟩ | ⟨_, hz⟩
    · exact hy hf
    · exact h.untouched k z hz hf

/-- The condition: context_free is executed on a context that its thread touches no more. A
collector finds it so when the thread has returned from vfastrpc_internal_invoke, and already
after the send when neither the tracepoint nor a perf record is left to serve; the thread
itself touches the context no more after an error when it counts nothing at the end. -/
def FreedLast (tracing : Bool) (s : Session) : Act → Prop
  | .collect c => ∀ j x, s.collectors c = .holding j → s.jobs j = some x → touches tracing x = false
  | .bail j => ∀ x, s.jobs j = some x → (counted x.handle && x.counts) = false
  | _ => True

/-- A step of a thread that may touch its context. -/
theorem Ordered.of_touching (h : Ordered tracing s) {j : Nat} {x y : Job}
    (hx : s.jobs j = some x) (htouch : touches tracing x = true)
    (hjobs : t.jobs = Function.update s.jobs j (some y)) (hy : y.freed = x.freed)
    (hused : t.used_after_free = (s.access true x).used_after_free) : Ordered tracing t := by
  refine h.of_update hx hjobs ?_ ?_
  · intro hu
    rw [hused] at hu
    simp only [Session.access, Bool.or_eq_true, Bool.and_eq_true] at hu
    exact hu.imp id (fun hf => ⟨hf.2, htouch⟩)
  · intro hf
    have hno := h.untouched j x hx (hy.symm.trans hf)
    exact absurd (hno.symm.trans htouch) nofun

/-- context_free on a context that its thread touches no more. -/
theorem Ordered.context_free (h : Ordered tracing s) {j : Nat}
    (hno : ∀ x, s.jobs j = some x → touches tracing x = false) :
    Ordered tracing (context_free s j) := by
  rcases hx : s.jobs j with _ | x
  · exact h.of_jobs_eq (alterJob_none hx Job.free) rfl
  · exact h.of_update hx (alterJob_jobs hx Job.free) Or.inl (fun _ => hno x hx)

theorem Ordered.take (h : Ordered tracing s) (c : Nat) : Ordered tracing (take_first s c) := by
  unfold take_first
  rcases s.async_queue.first with _ | j
  · exact h.of_jobs_eq rfl rfl
  · rcases hx : s.jobs j with _ | x
    · exact h.of_jobs_eq (alterJob_none hx _) rfl
    · exact h.of_update hx (alterJob_jobs hx _) Or.inl (h.untouched j x hx)

theorem ordered_step (s : Session) (a : Act) (t : Session) (hs : Settled s)
    (h : Ordered tracing s) (hc : FreedLast tracing s a) (ht : step tracing s a = some t) :
    Ordered tracing t := by
  cases a with
  | set_profile => cases ht; exact h.of_jobs_eq rfl rfl
  | alloc handle =>
    obtain ⟨_, ht⟩ := Option.ite_none_right_eq_some.mp ht
    cases ht
    refine ⟨h.unused, fun k z hz hf => ?_⟩
    rcases update_some hz with ⟨_, rfl⟩ | ⟨_, hz⟩
    · cases hf
    · exact h.untouched k z hz hf
  | turn j ok =>
    obtain ⟨x, hx, ht⟩ := onJob_some ht
    obtain ⟨⟨acc, y⟩, hturn, rfl⟩ := Option.map_eq_some_iff.mp ht
    obtain ⟨hfreed, hacc, htouch⟩ := turn_touches hturn
    refine h.of_update hx (y := y) rfl ?_ ?_
    · intro hused
      simp only [Session.setJob, Session.access, Bool.or_eq_true, Bool.and_eq_true] at hused
      refine hused.imp id (fun hf => ⟨hf.2, ?_⟩)
      rcases hno : touches tracing x with _ | _
      · exact absurd ((hacc hno).symm.trans hf.1) nofun
      · rfl
    · intro hf
      exact htouch (h.untouched j x hx (hfreed.symm.trans hf))
  | msg_alloc j i =>
    obtain ⟨x, hx, ht⟩ := onJob_some ht
    obtain ⟨⟨hpc, _⟩, ht⟩ := Option.ite_none_right_eq_some.mp ht
    cases ht
    exact h.of_touching hx (by simp [touches, hpc]) rfl rfl rfl
  | msg_ctx j =>
    obtain ⟨x, hx, ht⟩ := onJob_some ht
    obtain ⟨hpc, ht⟩ := Option.ite_none_right_eq_some.mp ht
    rcases hm : x.msg with _ | i
    · simp [hm] at ht
    · simp only [hm, Option.some.injEq] at ht
      subst ht
      exact h.of_touching hx (by simp [touches, hpc]) rfl rfl rfl
  | bail j =>
    obtain ⟨x, hx, ht⟩ := onJob_some ht
    obtain ⟨hpc, ht⟩ := Option.ite_none_right_eq_some.mp ht
    cases ht
    have hmid : Ordered tracing ((s.access true x).setJob j { x with pc := .invoke_end }) :=
      h.of_touching hx (by simp [touches, hpc]) rfl rfl rfl
    apply hmid.context_free
    intro y hy
    simp only [Session.setJob, Function.update_self, Option.some.injEq] at hy
    subst hy
    exact hc x hx
  | other_msg_alloc i =>
    obtain ⟨_, ht⟩ := Option.ite_none_right_eq_some.mp ht
    cases ht
    exact h.of_jobs_eq rfl rfl
  | other_msg_free i =>
    obtain ⟨m, _, ht⟩ := Option.bind_eq_some_iff.mp ht
    obtain ⟨_, ht⟩ := Option.ite_none_right_eq_some.mp ht
    cases ht
    exact h.of_jobs_eq rfl rfl
  | recv i =>
    cases ht
    obtain ⟨hjobs, _, _, _, hused⟩ := recv_single_frame s i
    exact h.of_jobs_eq hjobs hused
  | come c =>
    obtain ⟨_, ht⟩ := Option.ite_none_right_eq_some.mp ht
    cases ht
    exact h.of_jobs_eq rfl rfl
  | wake c =>
    obtain ⟨_, ht⟩ := Option.ite_none_right_eq_some.mp ht
    cases ht
    exact h.of_jobs_eq rfl rfl
  | interrupt c =>
    obtain ⟨_, ht⟩ := Option.ite_none_right_eq_some.mp ht
    cases ht
    exact h.of_jobs_eq rfl rfl
  | take c =>
    obtain ⟨_, ht⟩ := Option.ite_none_right_eq_some.mp ht
    cases ht
    exact h.take c
  | collect c =>
    simp only [step] at ht
    split at ht
    · rename_i j hj
      cases ht
      exact (h.context_free (hc j · hj)).of_jobs_eq rfl rfl
    · cases ht
  | close =>
    obtain ⟨_, ht⟩ := Option.ite_none_right_eq_some.mp ht
    cases ht
    exact h.of_jobs_eq rfl rfl
  | close_wake =>
    obtain ⟨_, ht⟩ := Option.ite_none_right_eq_some.mp ht
    cases ht
    exact h.of_jobs_eq rfl rfl
  | close_free j =>
    obtain ⟨x, _, ht⟩ := onJob_some ht
    obtain ⟨⟨hstage, _⟩, ht⟩ := Option.ite_none_right_eq_some.mp ht
    cases ht
    apply h.context_free
    intro y hy
    have hreturned := hs.quiet (by rw [hstage]; exact nofun) j y hy
    simp [touches, hreturned]

/-- For any order of the steps of the issuing threads, the receive callback and the
collectors: when every context_free comes after the last access of the thread that has issued
the invoke, no such thread ever reads or writes a context or a perf record after the
context_free. -/
theorem no_invoke_uses_a_freed_context (tracing : Bool) (as : List Act) (s : Session)
    (hm : Meets (step tracing) (FreedLast tracing) Session.init as)
    (hr : run (step tracing) Session.init as = some s) : s.used_after_free = false :=
  (run_inv_of_meets (fun s => Settled s ∧ Ordered tracing s)
    (fun s a t h hc ht => ⟨settled_step s a t h.1 ht, ordered_step s a t h.1 h.2 hc ht⟩)
    ⟨settled_init, ordered_init⟩ hm hr).2.unused

end accesses

/-- An invoke from its context_alloc to the send, and a collector that gets its response. -/
def issued : List Act :=
  [.alloc 21, .turn 0 true, .msg_alloc 0 7, .msg_ctx 0, .turn 0 true, .turn 0 true]

def answered : List Act := [.recv 7, .come 0, .wake 0, .take 0]

/-- With profiling and tracing on, an invoke that returns before its response is collected. -/
theorem an_invoke_that_returns_first :
    ∃ s, run (step true) Session.init
        ((.set_profile :: issued ++ [.turn 0 true, .turn 0 true, .turn 0 true] ++ answered) ++
          [.collect 0]) = some s ∧ s.used_after_free = false := by
  refine ⟨_, rfl, no_invoke_uses_a_freed_context true
    ((.set_profile :: issued ++ [.turn 0 true, .turn 0 true, .turn 0 true] ++ answered) ++
      [.collect 0]) _ ?_ rfl⟩
  refine Meets.append (meets_of_forall ?_ _) rfl (Meets.cons ?_ rfl trivial)
  · simp [issued, answered, FreedLast]
  · intro j x hj hx
    cases hj
    cases hx
    rfl

/-- Three times the context is used after context_free: the time of the send goes to a perf
record that a collector has freed, the tracepoint behind the send reads such a context, and
the count at the end goes to a record that the thread itself has freed after a failed send. -/
theorem a_freed_context_is_used :
    (run (step false) Session.init
      (.set_profile :: issued ++ answered ++ [.collect 0, .turn 0 true, .turn 0 true])).map
        Session.used_after_free = some true ∧
    (run (step true) Session.init (issued ++ answered ++ [.collect 0, .turn 0 true])).map
        Session.used_after_free = some true ∧
    (run (step false) Session.init
      [.set_profile, .alloc 21, .turn 0 true, .msg_alloc 0 7, .msg_ctx 0, .turn 0 true,
        .turn 0 false, .turn 0 true, .turn 0 true, .bail 0, .turn 0 true]).map
        Session.used_after_free = some true := by
  refine ⟨?_, ?_, ?_⟩ <;> rfl

end virtual_fastrpc.async_jobs
