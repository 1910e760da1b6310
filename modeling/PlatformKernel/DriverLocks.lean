-- The spin locks of the fastrpc drivers. Most of them are taken with the interrupts
-- off; `fl->hlock` is not, except where fastrpc_notify_users takes it inside `me->hlock`.
-- Whether that can stop two processors for ever depends on where the messages of the
-- DSP are handled.
import PlatformKernel.Lib.LockOrder

namespace virtual_fastrpc.driver_locks

open step_runs lock_order Relation

/-! ## The locks and the sections -/

/-- The locks of the driver, of the channel `d`, and of the session `f`. -/
inductive Lock
  | me_hlock | msglock | svq_lock | rvq_lock
  | ctxlock (d : Nat) | gmsg_log (d : Nat)
  | hlock (f : Nat) | aqlock (f : Nat) | nqlock (f : Nat) | dspsignals_lock (f : Nat)
  deriving DecidableEq, Repr

-- The functions that take a lock around statements that take no other. A function that does so
-- more than once, or with more than one lock, is in each list and stands for one section at a
-- time: a processor may run any sequence of them.

/-- `spin_lock(&fl->hlock)`. -/
inductive HlockUser
  | vfastrpc_ioctl | virt_fastrpc_close
  | context_alloc | context_save_interrupted | context_restore_interrupted | context_free
  | hfastrpc_set_process_info | hfastrpc_get_info | hfastrpc_munmap | hfastrpc_context_list_dtor
  | hfastrpc_remote_buf_list_free | hfastrpc_cached_buf_list_free | hfastrpc_file_free
  | hfastrpc_create_persistent_headers | hfastrpc_debugfs_read
  | hfastrpc_buf_free | hfastrpc_get_cached_buf | hfastrpc_get_persistent_buf | hfastrpc_buf_alloc
  | vfastrpc_set_process_info | vfastrpc_internal_get_info | vfastrpc_internal_munmap
  | vfastrpc_context_list_dtor | vfastrpc_remote_buf_list_free | vfastrpc_cached_buf_list_free
  | vfastrpc_interrupted_cmd_list_free | vfastrpc_file_free | vfastrpc_debugfs_read
  | find_interrupted_cmds | save_interrupted_cmds
  | vfastrpc_buf_free | vfastrpc_buf_alloc | virt_smmu_unmap
  deriving DecidableEq, Repr

/-- `spin_lock_irqsave(&me->hlock)`. -/
inductive MeHlockUser
  | hfastrpc_open | hfastrpc_init_process | hfastrpc_file_free
  | get_unique_hlos_process_id | put_unique_hlos_process_id
  | fastrpc_notif_find_process
  deriving DecidableEq, Repr

/-- `spin_lock_irqsave(&fl->proc_state_notif.nqlock)`. -/
inductive NqlockUser
  | hfastrpc_control | hfastrpc_file_free | hfastrpc_wait_on_notif_queue
  | fastrpc_queue_pd_status
  deriving DecidableEq, Repr

/-- `spin_lock_irqsave(&fl->aqlock)`. -/
inductive AqlockUser
  | hfastrpc_wait_for_completion | hfastrpc_file_free
  | vfastrpc_wait_on_async_queue | vfastrpc_file_free
  deriving DecidableEq, Repr

/-- `spin_lock_irqsave(&fl->dspsignals_lock)`. -/
inductive DspsignalsUser
  | hfastrpc_dspsignal_wait | hfastrpc_dspsignal_create | hfastrpc_dspsignal_destroy
  | hfastrpc_dspsignal_cancel_wait
  deriving DecidableEq, Repr

/-- `spin_lock_irqsave(&chan->ctxlock)`. -/
inductive CtxlockUser
  | context_alloc | context_free
  deriving DecidableEq, Repr

/-- `spin_lock_irqsave(&chan->gmsg_log.lock)`. -/
inductive GmsgLogUser
  | hfastrpc_update_txmsg_buf | hfastrpc_update_rxmsg_buf
  | fastrpc_update_rxmsg_buf
  deriving DecidableEq, Repr

/-- `spin_lock_irqsave(&me->msglock)`. -/
inductive MsglockUser
  | virt_alloc_msg | virt_free_msg
  deriving DecidableEq, Repr

/-- `spin_lock_irqsave(&me->svq.vq_lock)`. -/
inductive SvqUser
  | get_a_tx_buf | vfastrpc_txbuf_send
  deriving DecidableEq, Repr

/-- `spin_lock_irqsave(&me->rvq.vq_lock)`. -/
inductive RvqUser
  | vfastrpc_rxbuf_send
  | fastrpc_vq_callback | recv_done
  deriving DecidableEq, Repr

/-- The sections of both drivers. The last four take a second lock inside the first. -/
inductive Section
  | hlock (u : HlockUser) (f : Nat)
  | me_hlock (u : MeHlockUser)
  | nqlock (u : NqlockUser) (f : Nat)
  | aqlock (u : AqlockUser) (f : Nat)
  | dspsignals_lock (u : DspsignalsUser) (f : Nat)
  | ctxlock (u : CtxlockUser) (d : Nat)
  | gmsg_log (u : GmsgLogUser) (d : Nat)
  | msglock (u : MsglockUser)
  | svq_lock (u : SvqUser)
  | rvq_lock (u : RvqUser)
  | handle_remote_signal (found : Option Nat)
  /-- The sessions of the domain, each with whether the notification can be allocated. -/
  | fastrpc_notify_drivers (sessions : List (Nat × Bool))
  /-- The session whose asynchronous job the response completes. -/
  | fastrpc_handle_rpc_response (d : Nat) (job : Option Nat)
  | recv_single (job : Option Nat)
  deriving DecidableEq, Repr

def spin_lock (l : Lock) : Op Lock := .lock l false
def spin_lock_irqsave (l : Lock) : Op Lock := .lock l true
def spin_unlock (l : Lock) : Op Lock := .unlock l

def irqsave_section (l : Lock) : List (Op Lock) := [spin_lock_irqsave l, spin_unlock l]

/-- `fastrpc_queue_completed_async_job`, and `vfastrpc_queue_completed_async_job`. -/
def queue_completed_async_job (job : Option Nat) : List (Op Lock) :=
  match job with
  | none => []
  | some f => irqsave_section (.aqlock f)

def fastrpc_queue_pd_status (f : Nat) (alloc_ok : Bool) : List (Op Lock) :=
  if alloc_ok then irqsave_section (.nqlock f) else []

def fastrpc_notify_users (f : Nat) : List (Op Lock) := irqsave_section (.hlock f)

/-- The loop of fastrpc_notify_drivers. -/
def notify_sessions (sessions : List (Nat × Bool)) : List (Op Lock) :=
  sessions.flatMap (fun e => fastrpc_queue_pd_status e.1 e.2 ++ fastrpc_notify_users e.1)

def Section.ops : Section → List (Op Lock)
  | .hlock _ f => [spin_lock (.hlock f), spin_unlock (.hlock f)]
  | .me_hlock _ => irqsave_section .me_hlock
  | .nqlock _ f => irqsave_section (.nqlock f)
  | .aqlock _ f => irqsave_section (.aqlock f)
  | .dspsignals_lock _ f => irqsave_section (.dspsignals_lock f)
  | .ctxlock _ d => irqsave_section (.ctxlock d)
  | .gmsg_log _ d => irqsave_section (.gmsg_log d)
  | .msglock _ => irqsave_section .msglock
  | .svq_lock _ => irqsave_section .svq_lock
  | .rvq_lock _ => irqsave_section .rvq_lock
  | .handle_remote_signal none => irqsave_section .me_hlock
  | .handle_remote_signal (some f) =>
    spin_lock_irqsave .me_hlock :: (irqsave_section (.dspsignals_lock f) ++ [spin_unlock .me_hlock])
  | .fastrpc_notify_drivers sessions =>
    spin_lock_irqsave .me_hlock :: (notify_sessions sessions ++ [spin_unlock .me_hlock])
  | .fastrpc_handle_rpc_response d job =>
    spin_lock_irqsave (.ctxlock d) :: (queue_completed_async_job job ++ [spin_unlock (.ctxlock d)])
  | .recv_single job =>
    spin_lock .msglock :: (queue_completed_async_job job ++ [spin_unlock .msglock])

/-! ## Where they run -/

/-- The sections for the messages that come in: from the receive queue, and from the transport
of the hybrid driver. They may run in an interrupt. -/
def Section.received : Section → Prop
  | .me_hlock u => u = .fastrpc_notif_find_process
  | .nqlock u _ => u = .fastrpc_queue_pd_status
  | .gmsg_log u _ => u = .fastrpc_update_rxmsg_buf
  | .rvq_lock u => u = .fastrpc_vq_callback ∨ u = .recv_done
  | .handle_remote_signal _ | .fastrpc_handle_rpc_response _ _ | .recv_single _ => True
  | _ => False

/-- recv_single takes `msglock` with the interrupts as they are. It runs in the callback of the
queue only, which is an interrupt. -/
def Section.in_callback : Section → Prop
  | .recv_single _ => True
  | _ => False

/-- The sessions that a section locks with the interrupts on. -/
def Section.exposes : Section → Nat → Prop
  | .hlock _ g, f => g = f
  | _, _ => False

/-- The sessions that a section tells of a restart. -/
def Section.notifies : Section → Nat → Prop
  | .fastrpc_notify_drivers sessions, f => ∃ ok, (f, ok) ∈ sessions
  | _, _ => False

/-- A restart that locks the session inside `me->hlock`, a section of the session that can be
interrupted, and an interrupt that takes `me->hlock`. -/
def Inverted (thread handler : Section → Prop) (f : Nat) : Prop :=
  (∃ p, thread p ∧ p.notifies f) ∧ (∃ p, thread p ∧ p.exposes f) ∧
    ∃ q, handler q ∧ .me_hlock ∈ takes q.ops

/-! ## The order of the locks -/

section

variable {thread handler : Section → Prop}

-- A session that is told of restarts comes behind `me->hlock`, any other session before it.
open Classical in
noncomputable def rank (thread : Section → Prop) : Lock → Nat
  | .me_hlock => 1
  | .hlock f => if ∃ p, thread p ∧ p.notifies f then 2 else 0
  | .aqlock _ | .nqlock _ | .dspsignals_lock _ => 4
  | _ => 3

theorem rank_hlock_le (f : Nat) : rank thread (.hlock f) ≤ 2 := by
  simp only [rank]
  split <;> omega

theorem rank_le (l : Lock) : rank thread l ≤ 4 := by
  cases l with
  | hlock f => exact Nat.le_trans (rank_hlock_le f) (by decide)
  | _ => simp [rank]

theorem rank_hlock {f : Nat} (h : ∃ p, thread p ∧ p.notifies f) : rank thread (.hlock f) = 2 := by
  simp only [rank]
  exact if_pos h

theorem rank_hlock_of_not {f : Nat} (h : ¬ ∃ p, thread p ∧ p.notifies f) :
    rank thread (.hlock f) = 0 := by
  simp only [rank]
  exact if_neg h

variable {low : Lock → Prop}

/-- One round of the loop of fastrpc_notify_drivers, inside `me->hlock`. -/
theorem ordered_notify_session {f : Nat} (hf : rank thread (.hlock f) = 2) (alloc_ok : Bool)
    {ops : List (Op Lock)} (h : Ordered (rank thread) low [(.me_hlock, true)] ops) :
    Ordered (rank thread) low [(.me_hlock, true)]
      (fastrpc_queue_pd_status f alloc_ok ++ fastrpc_notify_users f ++ ops) := by
  have hlt : rank thread .me_hlock < rank thread (.hlock f) := by
    rw [hf]
    simp [rank]
  have husers : Ordered (rank thread) low [(.me_hlock, true)] (fastrpc_notify_users f ++ ops) := by
    simp [fastrpc_notify_users, irqsave_section, spin_lock_irqsave, spin_unlock, Ordered, hlt, h]
  cases alloc_ok with
  | false => exact husers
  | true =>
    simp only [fastrpc_queue_pd_status, if_true, irqsave_section, spin_lock_irqsave, spin_unlock,
      List.cons_append, List.nil_append]
    refine ⟨by simp [rank], by simp, true, _, rfl, husers⟩

theorem ordered_notify_sessions {sessions : List (Nat × Bool)}
    (h : ∀ e ∈ sessions, rank thread (.hlock e.1) = 2) :
    Ordered (rank thread) low [(.me_hlock, true)]
      (notify_sessions sessions ++ [spin_unlock .me_hlock]) := by
  induction sessions with
  | nil => exact ⟨true, [], rfl, rfl⟩
  | cons e sessions ih =>
    have hrest := ih (fun d hd => h d (List.mem_cons_of_mem _ hd))
    have := ordered_notify_session (h e List.mem_cons_self) e.2 hrest
    simpa [notify_sessions, List.append_assoc] using this

/-- A section keeps the order when the session that it exposes is `low`, and those that it tells
of a restart come behind `me->hlock`. -/
theorem ordered_ops (p : Section) (hexposes : ∀ f, p.exposes f → low (.hlock f))
    (hcallback : p.in_callback → low .msglock)
    (hnotifies : ∀ f, p.notifies f → rank thread (.hlock f) = 2) :
    Ordered (rank thread) low [] p.ops := by
  cases p with
  | hlock u f =>
    have := hexposes f rfl
    simp [Section.ops, spin_lock, spin_unlock, Ordered, this]
  | handle_remote_signal found =>
    cases found <;>
      simp [Section.ops, irqsave_section, spin_lock_irqsave, spin_unlock, Ordered, rank]
  | fastrpc_notify_drivers sessions =>
    refine ⟨by simp, by simp, ?_⟩
    apply ordered_notify_sessions
    intro e he
    exact hnotifies e.1 ⟨e.2, he⟩
  | fastrpc_handle_rpc_response d job =>
    cases job <;>
      simp [Section.ops, queue_completed_async_job, irqsave_section, spin_lock_irqsave,
        spin_unlock, Ordered, rank]
  | recv_single job =>
    have := hcallback trivial
    cases job <;>
      simp [Section.ops, queue_completed_async_job, irqsave_section, spin_lock,
        spin_lock_irqsave, spin_unlock, Ordered, rank, this]
  | me_hlock | nqlock | aqlock | dspsignals_lock | ctxlock | gmsg_log | msglock | svq_lock
  | rvq_lock =>
    simp [Section.ops, irqsave_section, spin_lock_irqsave, spin_unlock, Ordered]

/-- A message that comes in takes `me->hlock`, or locks that come behind every session. -/
theorem received_takes {q : Section} (h : q.received) {l : Lock} (hl : l ∈ takes q.ops) :
    l = .me_hlock ∨ 2 < rank thread l := by
  cases q with
  | hlock u f => exact h.elim
  | aqlock u f => exact h.elim
  | dspsignals_lock u f => exact h.elim
  | ctxlock u d => exact h.elim
  | msglock u => exact h.elim
  | svq_lock u => exact h.elim
  | fastrpc_notify_drivers sessions => exact h.elim
  | me_hlock u =>
    left
    simpa [Section.ops, irqsave_section, spin_lock_irqsave, spin_unlock, takes] using hl
  | nqlock u f =>
    right
    simp [Section.ops, irqsave_section, spin_lock_irqsave, spin_unlock, takes] at hl
    simp [hl, rank]
  | gmsg_log u d =>
    right
    simp [Section.ops, irqsave_section, spin_lock_irqsave, spin_unlock, takes] at hl
    simp [hl, rank]
  | rvq_lock u =>
    right
    simp [Section.ops, irqsave_section, spin_lock_irqsave, spin_unlock, takes] at hl
    simp [hl, rank]
  | handle_remote_signal found =>
    cases found with
    | none =>
      left
      simpa [Section.ops, irqsave_section, spin_lock_irqsave, spin_unlock, takes] using hl
    | some f =>
      simp [Section.ops, irqsave_section, spin_lock_irqsave, spin_unlock, takes] at hl
      rcases hl with rfl | rfl
      · exact Or.inl rfl
      · simp [rank]
  | fastrpc_handle_rpc_response d job =>
    right
    cases job <;>
      simp [Section.ops, queue_completed_async_job, irqsave_section, spin_lock_irqsave,
        spin_unlock, takes] at hl
    · simp [hl, rank]
    · rcases hl with rfl | rfl <;> simp [rank]
  | recv_single job =>
    right
    cases job <;>
      simp [Section.ops, queue_completed_async_job, irqsave_section, spin_lock,
        spin_lock_irqsave, spin_unlock, takes] at hl
    · simp [hl, rank]
    · rcases hl with rfl | rfl <;> simp [rank]

theorem ranked (hthread : ∀ p, thread p → ¬ p.in_callback)
    (hhandler : ∀ p, handler p → p.received) (h : ∀ f, ¬ Inverted thread handler f) :
    Ranked Section.ops thread handler (rank thread) 4 := by
  refine ⟨rank_le, ?_, ?_⟩
  · intro p hp
    apply ordered_ops
    · intro f hf q hq l hl
      rcases received_takes (hhandler q hq) hl with rfl | hlt
      · have hnot : ¬ ∃ p, thread p ∧ p.notifies f := by
          intro hn
          exact h f ⟨hn, ⟨p, hp, hf⟩, ⟨q, hq, hl⟩⟩
        rw [rank_hlock_of_not hnot]
        exact Nat.zero_lt_one
      · exact Nat.lt_of_le_of_lt (rank_hlock_le f) hlt
    · exact fun hc => absurd hc (hthread p hp)
    · exact fun f hf => rank_hlock ⟨p, hp, hf⟩
  · intro p hp
    apply ordered_ops
    · exact fun _ _ => trivial
    · exact fun _ => trivial
    · intro f hf
      cases p with
      | fastrpc_notify_drivers sessions => exact (hhandler _ hp).elim
      | _ => exact hf.elim

/-! ## The deadlock -/

variable {C : Type} [DecidableEq C] {m : Machine Lock C}

/-- The states of the processors that run these sections. -/
def Reaches (thread handler : Section → Prop) (m : Machine Lock C) : Prop :=
  ReachableUnder (step Section.ops) (fun _ => Allowed thread handler) Machine.init m

theorem Reaches.run {t : Machine Lock C} {c : C} (h : Reaches thread handler m)
    (ht : step Section.ops m (.run c) = some t) : Reaches thread handler t := by
  have hrun : Allowed thread handler (.run c : Act C Section) := trivial
  exact ReachableUnder.snoc h hrun ht

/-- A round of the loop of fastrpc_notify_drivers when nobody else is there. -/
theorem Reaches.queue_pd_status {f : Nat} {alloc_ok : Bool} {c : C} {ops : List (Op Lock)}
    {held : List (Lock × Bool)} (h : Reaches thread handler m)
    (hu : m.cpu c = ⟨⟨fastrpc_queue_pd_status f alloc_ok ++ ops, held⟩, none⟩)
    (hfree : m.owner (.nqlock f) = none) :
    Reaches thread handler (m.set c ⟨⟨ops, held⟩, none⟩ m.owner) := by
  cases alloc_ok with
  | false =>
    rw [set_self (by simpa [fastrpc_queue_pd_status] using hu)]
    exact h
  | true => exact reachable_lock_unlock h hu hfree

theorem Reaches.sessions {sessions : List (Nat × Bool)} {c : C} {ops : List (Op Lock)}
    {held : List (Lock × Bool)} (h : Reaches thread handler m)
    (hu : m.cpu c = ⟨⟨notify_sessions sessions ++ ops, held⟩, none⟩)
    (hfree : ∀ f, m.owner (.nqlock f) = none ∧ m.owner (.hlock f) = none) :
    Reaches thread handler (m.set c ⟨⟨ops, held⟩, none⟩ m.owner) := by
  induction sessions generalizing m with
  | nil =>
    have hu' : m.cpu c = ⟨⟨ops, held⟩, none⟩ := hu
    rw [set_self hu']
    exact h
  | cons e sessions ih =>
    obtain ⟨f, ok⟩ := e
    have htodo : notify_sessions ((f, ok) :: sessions) ++ ops = fastrpc_queue_pd_status f ok ++
        (fastrpc_notify_users f ++ (notify_sessions sessions ++ ops)) := by
      simp [notify_sessions, List.append_assoc]
    rw [htodo] at hu
    have hstatus := h.queue_pd_status hu (hfree f).1
    have husers := reachable_lock_unlock hstatus (set_cpu_self _ _ _ _) (hfree f).2
    rw [set_set, set_owner] at husers
    have := ih husers (set_cpu_self _ _ _ _) (fun g => hfree g)
    rwa [set_set] at this

/-- The messages that take `me->hlock` take it first. -/
theorem received_first {q : Section} (h : q.received) (hq : .me_hlock ∈ takes q.ops) :
    ∃ ops, q.ops = spin_lock_irqsave .me_hlock :: ops := by
  cases q with
  | me_hlock u => exact ⟨_, rfl⟩
  | handle_remote_signal found => cases found <;> exact ⟨_, rfl⟩
  | fastrpc_handle_rpc_response d job =>
    cases job <;>
      simp [Section.ops, queue_completed_async_job, irqsave_section, spin_lock_irqsave,
        spin_unlock, takes] at hq
  | recv_single job =>
    cases job <;>
      simp [Section.ops, queue_completed_async_job, irqsave_section, spin_lock,
        spin_lock_irqsave, spin_unlock, takes] at hq
  | nqlock | gmsg_log | rvq_lock =>
    simp [Section.ops, irqsave_section, spin_lock_irqsave, spin_unlock, takes] at hq
  | hlock u f => exact h.elim
  | aqlock u f => exact h.elim
  | dspsignals_lock u f => exact h.elim
  | ctxlock u d => exact h.elim
  | msglock u => exact h.elim
  | svq_lock u => exact h.elim
  | fastrpc_notify_drivers sessions => exact h.elim

/-- A restart comes to the session `f` with `me->hlock` held. -/
theorem reaches_restart {pre post : List (Nat × Bool)} {f : Nat} {ok : Bool}
    (hp : thread (.fastrpc_notify_drivers (pre ++ (f, ok) :: post))) (b : C) :
    ∃ rest, Reaches thread handler ((Machine.init : Machine Lock C).set b
      ⟨⟨spin_lock_irqsave (.hlock f) :: rest, [(.me_hlock, true)]⟩, none⟩
      (Function.update (fun _ => none) .me_hlock (some b))) := by
  have hinit : Reaches thread handler (Machine.init : Machine Lock C) := ⟨[], trivial, rfl⟩
  have hallowed : Allowed thread handler
      (.start b (.fastrpc_notify_drivers (pre ++ (f, ok) :: post)) : Act C Section) := hp
  have hstart := ReachableUnder.snoc hinit hallowed (by simp [step, Machine.init]; rfl)
  have hme := Reaches.run hstart (step_lock (set_cpu_self _ _ _ _) rfl)
  rw [set_set] at hme
  have htodo : notify_sessions (pre ++ (f, ok) :: post) ++ [spin_unlock .me_hlock] =
      notify_sessions pre ++ (fastrpc_queue_pd_status f ok ++ (fastrpc_notify_users f ++
        (notify_sessions post ++ [spin_unlock .me_hlock]))) := by
    simp [notify_sessions, List.append_assoc]
  rw [htodo] at hme
  have hpre := hme.sessions (set_cpu_self _ _ _ _) (fun g => by simp)
  rw [set_set] at hpre
  have hstatus := hpre.queue_pd_status (set_cpu_self _ _ _ _) (by simp)
  rw [set_set] at hstatus
  exact ⟨_, hstatus⟩

theorem deadlock_of_inverted {a b : C} (hab : a ≠ b) {f : Nat} (h : Inverted thread handler f)
    (hhandler : ∀ q, handler q → q.received) :
    ∃ m : Machine Lock C, Reaches thread handler m ∧ ¬ NoDeadlock Section.ops m := by
  obtain ⟨⟨p, hp, hnotifies⟩, ⟨p', hp', hexposes⟩, q, hq, hlock⟩ := h
  obtain ⟨sessions, rfl⟩ : ∃ sessions, p = .fastrpc_notify_drivers sessions := by
    cases p with
    | fastrpc_notify_drivers sessions => exact ⟨sessions, rfl⟩
    | _ => exact hnotifies.elim
  obtain ⟨u, rfl⟩ : ∃ u, p' = .hlock u f := by
    cases p' with
    | hlock u g =>
      obtain rfl : g = f := hexposes
      exact ⟨u, rfl⟩
    | _ => exact hexposes.elim
  obtain ⟨ok, hmem⟩ := hnotifies
  obtain ⟨pre, post, rfl⟩ := List.append_of_mem hmem
  obtain ⟨ops, hops⟩ := received_first (hhandler q hq) hlock
  obtain ⟨rest, hb⟩ := @reaches_restart thread handler C _ pre post f ok hp b
  -- `a` takes the lock of the session, and is interrupted by a message
  have hstart : Allowed thread handler (.start a (.hlock u f) : Act C Section) := hp'
  have hirq : Allowed thread handler (.interrupt a q : Act C Section) := hq
  have ha := ReachableUnder.snoc hb hstart (by
    simp [step, set_cpu_of_ne _ hab, Machine.init]; rfl)
  have hlocked := Reaches.run ha (step_lock (set_cpu_self _ _ _ _) (by simp))
  have hlast := ReachableUnder.snoc hlocked hirq (by
    simp [step, irqs_on]; rfl)
  refine ⟨_, hlast, ?_⟩
  apply @deadlock_of_pair _ _ _ _ _ _ _ a b .me_hlock (.hlock f)
  · simp [Cpu.wants, Cpu.frame, hops, spin_lock_irqsave]
  · simp
  · simp [set_cpu_of_ne _ hab.symm, Cpu.wants, Cpu.frame, spin_lock_irqsave]
  · simp
  · exact Or.inl (by simp)

/-- On two or more processors, whatever sections their threads and their interrupts run and in
whatever order, nobody waits for a spin lock for ever, if and only if no session is at the same
time told of a restart, locked with the interrupts on, and threatened by an interrupt that takes
`me->hlock`. -/
theorem spin_locks_do_not_deadlock_iff {a b : C} (hab : a ≠ b)
    (hthread : ∀ p, thread p → ¬ p.in_callback) (hhandler : ∀ q, handler q → q.received) :
    (∀ m : Machine Lock C, Reaches thread handler m → NoDeadlock Section.ops m) ↔
      ∀ f, ¬ Inverted thread handler f := by
  constructor
  · intro h f hf
    obtain ⟨m, hm, hdead⟩ := deadlock_of_inverted hab hf hhandler
    exact hdead (h m hm)
  · intro h m hm
    exact no_deadlock_run (ranked hthread hhandler h) hm

/-- Session 7 has a thread in the driver when its subsystem restarts. -/
def restartDuringCall (p : Section) : Prop :=
  p = .hlock .vfastrpc_ioctl 7 ∨ p = .fastrpc_notify_drivers [(7, true)]

/-- A signal for the session in an interrupt stops both processors. The callback of the queue of
the driver does not, when the messages of the DSP come in a thread. -/
theorem a_signal_in_an_interrupt_can_stop_a_restart :
    (¬ ∀ m : Machine Lock Bool,
        Reaches restartDuringCall (fun q => q = .handle_remote_signal (some 7)) m →
          NoDeadlock Section.ops m) ∧
      ∀ m : Machine Lock Bool,
        Reaches restartDuringCall (fun q => q = .rvq_lock .fastrpc_vq_callback) m →
          NoDeadlock Section.ops m := by
  have hthread : ∀ p, restartDuringCall p → ¬ p.in_callback := by
    rintro p (rfl | rfl) <;> exact id
  have hdiff : false ≠ true := by decide
  constructor
  · rw [spin_locks_do_not_deadlock_iff hdiff hthread (by rintro q rfl; exact trivial)]
    intro h
    apply h 7
    exact ⟨⟨_, Or.inr rfl, true, List.mem_singleton_self _⟩, ⟨_, Or.inl rfl, rfl⟩,
      ⟨_, rfl, List.mem_cons_self⟩⟩
  · rw [spin_locks_do_not_deadlock_iff hdiff hthread (by rintro q rfl; exact Or.inl rfl)]
    rintro f ⟨_, _, q, rfl, hq⟩
    simp [Section.ops, irqsave_section, spin_lock_irqsave, spin_unlock, takes] at hq

end

end virtual_fastrpc.driver_locks
